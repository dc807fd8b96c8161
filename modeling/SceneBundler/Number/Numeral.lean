import SceneBundler.Text.Basic

/-!
Contract: reading decimal numerals written in the digits of any script.

Owns:
- the trimming of surrounding blanks, which for numerals does not include the information
  separators;
- digit groups joined by single underscores;
- signed integers of any size, and the parts of a decimal with a fraction and an exponent.

Does not own: rounding a decimal to a floating-point value.
-/

namespace SceneBundler.Numeral

/-- Blanks around a numeral: all blanks but the four information separators. -/
def isPadding (c : Char) : Bool :=
  Character.isBlank c && !(0x1c ≤ c.toNat && c.toNat ≤ 0x1f)

/-- The numeral without the blanks around it. -/
def unpadded (text : Text) : Text :=
  ((text.dropWhile isPadding).reverse.dropWhile isPadding).reverse

/-- Digits of any script written as ASCII digits; other characters are unchanged. -/
def normalizeDigits (text : Text) : Text :=
  text.map fun c =>
    match Character.decimalValue? c with
    | some value => Char.ofNat (0x30 + value)
    | none => c

/-- A text without its underscores, each of which must stand between two digits. -/
def withoutUnderscores? : (afterDigit : Bool) -> Text -> Option Text
  | _, [] => some []
  | afterDigit, c :: rest =>
      if c = '_' then
        if afterDigit && rest.head?.any Char.isDigit then withoutUnderscores? false rest else none
      else (withoutUnderscores? c.isDigit rest).map (c :: ·)

/-- A leading sign taken off: whether it was a minus, and the rest. -/
def signed : Text -> Bool × Text
  | '-' :: rest => (true, rest)
  | '+' :: rest => (false, rest)
  | text => (false, text)

/-- The value of a run of ASCII digits. -/
def digitsValue (digits : Text) : Nat :=
  digits.foldl (fun value c => 10 * value + (c.toNat - 0x30)) 0

/-- The digits at the beginning of a text, and the rest. -/
def leadingDigits (text : Text) : Text × Text :=
  (text.takeWhile Char.isDigit, text.dropWhile Char.isDigit)

/-- The ASCII form of a numeral, ready for its grammar. -/
def prepared? (text : Text) : Option Text :=
  withoutUnderscores? false (normalizeDigits (unpadded text))

/-- The greatest number of digits, zeros in front included, that a whole number is read from. -/
def mostDigits : Nat := 4300

/-- A signed integer: an optional sign, then digits only, and not too many of them. -/
def integer? (text : Text) : Option Int :=
  match prepared? text with
  | none => none
  | some numeral =>
      let (negative, digits) := signed numeral
      if digits.isEmpty || !digits.all Char.isDigit || mostDigits < digits.length then none
      else
        let value := digitsValue digits
        some (if negative then -(value : Int) else value)

/-- A decimal: a sign, the digits read as one number, and the power of ten they are scaled by. -/
structure Decimal where
  negative : Bool
  digits : Nat
  exponent : Int
deriving DecidableEq, Repr

/-- The exponent part of a decimal: nothing, or `e` with a signed run of digits. -/
def exponent? : Text -> Option Int
  | [] => some 0
  | c :: rest =>
      if c = 'e' || c = 'E' then
        let (negative, digits) := signed rest
        if digits.isEmpty || !digits.all Char.isDigit then none
        else
          let value := digitsValue digits
          some (if negative then -(value : Int) else value)
      else none

/-- A decimal without its sign: digits with at most one point among or beside them, then an
exponent. -/
def magnitude? (text : Text) : Option (Nat × Int) :=
  let (whole, afterWhole) := leadingDigits text
  let (fraction, rest) :=
    match afterWhole with
    | '.' :: afterPoint => leadingDigits afterPoint
    | _ => ([], afterWhole)
  if whole.isEmpty && fraction.isEmpty then none
  else
    (exponent? rest).map fun exponent =>
      (digitsValue (whole ++ fraction), exponent - fraction.length)

/-- A decimal with an optional sign. -/
def decimal? (text : Text) : Option Decimal :=
  let (negative, unsigned) := signed text
  (magnitude? unsigned).map fun (digits, exponent) => ⟨negative, digits, exponent⟩

end SceneBundler.Numeral
