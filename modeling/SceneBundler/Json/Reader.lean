import SceneBundler.Json.Value

/-!
Contract: reading JSON.

Owns:
- the grammar of values, with `NaN`, `Infinity` and `-Infinity` besides;
- strings with their escapes, refusing raw control characters; a pair of surrogate escapes is one
  character, and a surrogate without its partner becomes the replacement character;
- the rule that nothing but blanks may stand around the value;
- the bounds on the digits of a whole number and on the depth of nesting, where the first fault on the
  way through the text is the one that is reported.

Does not own: what the values mean.
-/

namespace SceneBundler.Json

/-- What values can be nested in. -/
inductive Container where
  | array
  | object
deriving DecidableEq, Repr

/-- The word for a container. -/
def Container.name : Container -> Text
  | array => "array".toList
  | object => "object".toList

/-- A bound that a text goes beyond. -/
inductive Excess where
  /-- A whole number with so many digits. -/
  | digits (count : Nat)
  /-- A container within too many others. -/
  | depth (innermost : Container)
deriving DecidableEq, Repr

/-- An excess as a sentence. -/
def Excess.message : Excess -> Text
  | digits count =>
      "Exceeds the limit (".toList ++ Text.ofNat Numeral.mostDigits ++
        " digits) for integer string conversion: value has ".toList ++ Text.ofNat count ++
        " digits; use sys.set_int_max_str_digits() to increase the limit".toList
  | depth innermost =>
      "maximum recursion depth exceeded while decoding a JSON ".toList ++ innermost.name ++
        " from a unicode string".toList

/-- Why a text is not read. -/
inductive ReadFault where
  | malformed
  | excessive (excess : Excess)
deriving DecidableEq, Repr

/-- What is read at the beginning of a text, and the text after it. -/
abbrev Read (α : Type) := Except ReadFault (α × Text)

/-- The greatest number of containers within each other. -/
def greatestDepth : Nat := 990

/-- The four characters that may stand between the tokens of JSON. -/
def isSpace (c : Char) : Bool :=
  c == ' ' || c == '\t' || c == '\n' || c == '\r'

/-- A text without its leading spaces. -/
def skipSpace (text : Text) : Text :=
  text.dropWhile isSpace

/-- The value of a digit in base sixteen. -/
def hexValue? (c : Char) : Option Nat :=
  if c.isDigit then some (c.toNat - 0x30)
  else if 'a' ≤ c && c ≤ 'f' then some (c.toNat - 0x61 + 10)
  else if 'A' ≤ c && c ≤ 'F' then some (c.toNat - 0x41 + 10)
  else none

/-- The number that hexadecimal digits stand for. -/
def hexNumber? (digits : Text) : Option Nat :=
  digits.foldl
    (fun value c => value.bind fun number => (hexValue? c).map fun digit => 16 * number + digit)
    (some 0)

/-- The character of an escape of one letter. -/
def simpleEscape? (c : Char) : Option Char :=
  [('\x22', '\x22'), ('\\', '\\'), ('/', '/'), ('b', '\x08'), ('f', '\x0c'), ('n', '\n'),
    ('r', '\r'), ('t', '\t')].lookup c

/-- The replacement character. -/
def replacement : Char := Char.ofNat 0xfffd

/-- Whether a code unit is the first of a surrogate pair. -/
def isHighSurrogate (unit : Nat) : Bool :=
  0xd800 ≤ unit && unit ≤ 0xdbff

/-- Whether a code unit is the second of a surrogate pair. -/
def isLowSurrogate (unit : Nat) : Bool :=
  0xdc00 ≤ unit && unit ≤ 0xdfff

/-- The characters read so far, nearest first, with a surrogate that found no partner. -/
def settle (high : Option Nat) (read : Text) : Text :=
  if high.isSome then replacement :: read else read

/-- The rest of a string after its opening quote: its characters, and the text after it.  `high` is
the first half of a surrogate pair that was just read. -/
def readString (high : Option Nat) (read : Text) : Text -> Read Text
  | [] => .error .malformed
  | c :: rest =>
      if c = '\x22' then .ok ((settle high read).reverse, rest)
      else if c = '\\' then
        match rest with
        | [] => .error .malformed
        | escape :: afterEscape =>
            if escape = 'u' then
              match afterEscape with
              | first :: second :: third :: fourth :: afterUnit =>
                  match hexNumber? [first, second, third, fourth] with
                  | none => .error .malformed
                  | some unit =>
                      if isHighSurrogate unit then
                        readString (some unit) (settle high read) afterUnit
                      else if isLowSurrogate unit then
                        match high with
                        | some lead =>
                            let codePoint :=
                              0x10000 + (lead - 0xd800) * 0x400 + (unit - 0xdc00)
                            readString none (Char.ofNat codePoint :: read) afterUnit
                        | none => readString none (replacement :: read) afterUnit
                      else readString none (Char.ofNat unit :: settle high read) afterUnit
              | _ => .error .malformed
            else
              match simpleEscape? escape with
              | some character => readString none (character :: settle high read) afterEscape
              | none => .error .malformed
      else if c.toNat < 0x20 then .error .malformed
      else readString none (c :: settle high read) rest

/-- The fraction of a number, if a point and a digit come next, and the text after it. -/
def readFraction (text : Text) : Option Text × Text :=
  match text with
  | '.' :: rest =>
      let (digits, after) := Numeral.leadingDigits rest
      if digits.isEmpty then (none, text) else (some digits, after)
  | _ => (none, text)

/-- The exponent of a number, if one comes next, and the text after it. -/
def readExponent (text : Text) : Option Int × Text :=
  match text with
  | c :: rest =>
      if c = 'e' || c = 'E' then
        let (negative, unsigned) := Numeral.signed rest
        let (digits, after) := Numeral.leadingDigits unsigned
        if digits.isEmpty then (none, text)
        else
          let value := Numeral.digitsValue digits
          (some (if negative then -(value : Int) else value), after)
      else (none, text)
  | [] => (none, text)

/-- A number without its sign, and the text after it; a leading zero stands alone. -/
def readNumber (negative : Bool) (text : Text) : Read Value :=
  let (whole, afterWhole) :=
    match text with
    | '0' :: rest => (['0'], rest)
    | _ => Numeral.leadingDigits text
  if whole.isEmpty then .error .malformed
  else
    let (fraction, afterFraction) := readFraction afterWhole
    let (exponent, rest) := readExponent afterFraction
    if fraction.isNone && exponent.isNone then
      if Numeral.mostDigits < whole.length then .error (.excessive (.digits whole.length))
      else
        let value := Numeral.digitsValue whole
        .ok (.integer (if negative then -(value : Int) else value), rest)
    else
      let places := fraction.getD []
      let decimal : Numeral.Decimal :=
        ⟨negative, Numeral.digitsValue (whole ++ places), exponent.getD 0 - places.length⟩
      .ok (.real (Binary64.ofDecimal decimal), rest)

/-- The named values. -/
def names : List (Text × Value) :=
  [("null".toList, .null), ("true".toList, .boolean true), ("false".toList, .boolean false),
    ("NaN".toList, .real .notANumber), ("Infinity".toList, .real (.infinite false)),
    ("-Infinity".toList, .real (.infinite true))]

/-- A named value or a number, and the text after it. -/
def readScalar (text : Text) : Read Value :=
  match names.find? fun named => named.1.isPrefixOf text with
  | some (name, value) => .ok (value, text.drop name.length)
  | none =>
      match text with
      | '-' :: rest => readNumber true rest
      | _ => readNumber false text

mutual

/-- A value at the beginning of a text, and the text after it; it may hold `depth` containers within
each other.  Every step into the text uses up one unit of `room`, so the length of the text is always
enough. -/
def readValue : (room depth : Nat) -> Text -> Read Value
  | 0, _, _ => .error .malformed
  | _ + 1, _, [] => .error .malformed
  | room + 1, depth, c :: rest =>
      if c = '\x22' then
        match readString none [] rest with
        | .error fault => .error fault
        | .ok (read, after) => .ok (.string read, after)
      else if c = '[' then
        match depth with
        | 0 => .error (.excessive (.depth .array))
        | inner + 1 =>
            match skipSpace rest with
            | ']' :: after => .ok (.array [], after)
            | first => readItems room inner [] first
      else if c = '{' then
        match depth with
        | 0 => .error (.excessive (.depth .object))
        | inner + 1 =>
            match skipSpace rest with
            | '}' :: after => .ok (.object [], after)
            | first => readFields room inner [] first
      else readScalar (c :: rest)

/-- The items of an array from one item on, added to those read so far, nearest first. -/
def readItems : (room depth : Nat) -> List Value -> Text -> Read Value
  | 0, _, _, _ => .error .malformed
  | room + 1, depth, items, text =>
      match readValue room depth text with
      | .error fault => .error fault
      | .ok (item, rest) =>
          match skipSpace rest with
          | ',' :: next => readItems room depth (item :: items) (skipSpace next)
          | ']' :: after => .ok (.array (item :: items).reverse, after)
          | _ => .error .malformed

/-- The fields of an object from one field on, added to those read so far, nearest first. -/
def readFields : (room depth : Nat) -> List (Text × Value) -> Text -> Read Value
  | 0, _, _, _ => .error .malformed
  | room + 1, depth, fields, text =>
      match text with
      | '\x22' :: named =>
          match readString none [] named with
          | .error fault => .error fault
          | .ok (name, afterName) =>
              match skipSpace afterName with
              | ':' :: valued =>
                  match readValue room depth (skipSpace valued) with
                  | .error fault => .error fault
                  | .ok (value, rest) =>
                      match skipSpace rest with
                      | ',' :: next =>
                          readFields room depth ((name, value) :: fields) (skipSpace next)
                      | '}' :: after =>
                          .ok (Value.ofFields ((name, value) :: fields).reverse, after)
                      | _ => .error .malformed
              | _ => .error .malformed
      | _ => .error .malformed

end

/-- The value that a text stands for. -/
def read (text : Text) : Except ReadFault Value :=
  match readValue (text.length + 1) greatestDepth (skipSpace text) with
  | .error fault => .error fault
  | .ok (value, rest) =>
      if (skipSpace rest).isEmpty then .ok value else .error .malformed

end SceneBundler.Json
