import SceneBundler.Number.Numeral

/-!
Contract: binary floating-point numbers of 64 bits.

Owns:
- the values, as a sign, a whole significand and a power of two, with the infinities and the value
  that is not a number;
- the nearest value to a ratio of natural numbers, ties going to the even significand;
- reading a decimal.

Does not own: how values are written.
-/

namespace SceneBundler

/-- A floating-point value.  A finite one is `significand * 2 ^ exponent`; its significand is below
`2 ^ 53`, and at least `2 ^ 52` unless the exponent is the least one. -/
inductive Binary64 where
  | notANumber
  | infinite (negative : Bool)
  | finite (negative : Bool) (significand : Nat) (exponent : Int)
deriving DecidableEq, Repr

namespace Binary64

/-- The least exponent of a finite value. -/
def leastExponent : Int := -1074

/-- The greatest exponent of a finite value. -/
def greatestExponent : Int := 971

/-- Two to a natural exponent. -/
def twoTo (exponent : Nat) : Nat :=
  Nat.pow 2 exponent

/-- Ten to a natural exponent. -/
def tenTo (exponent : Nat) : Nat :=
  Nat.pow 10 exponent

/-- Zero with a sign. -/
def zero (negative : Bool) : Binary64 :=
  .finite negative 0 leastExponent

/-- A quotient rounded to the nearest natural number, a half going to the even neighbour. -/
def roundedQuotient (numerator denominator : Nat) : Nat :=
  let quotient := numerator / denominator
  let remainder := numerator % denominator
  if 2 * remainder < denominator then quotient
  else if denominator < 2 * remainder then quotient + 1
  else if quotient % 2 = 0 then quotient
  else quotient + 1

/-- A ratio in units of `2 ^ exponent`, as a numerator and a denominator. -/
def inUnits (numerator denominator : Nat) (exponent : Int) : Nat × Nat :=
  if 0 ≤ exponent then (numerator, denominator * twoTo exponent.toNat)
  else (numerator * twoTo (-exponent).toNat, denominator)

/-- The exponent at which a positive ratio has a significand of 53 bits, or the least exponent where
that one is greater. -/
def exponentFor (numerator denominator : Nat) : Int :=
  let low : Int := (numerator.log2 : Int) - denominator.log2 - 53
  let (scaled, unit) := inUnits numerator denominator low
  let fitted := if scaled / unit < twoTo 53 then low else low + 1
  max fitted leastExponent

/-- The value nearest to a ratio of natural numbers. -/
def ofRatio (negative : Bool) (numerator denominator : Nat) : Binary64 :=
  if numerator = 0 || denominator = 0 then zero negative
  else
    let exponent := exponentFor numerator denominator
    let (scaled, unit) := inUnits numerator denominator exponent
    let significand := roundedQuotient scaled unit
    let (significand, exponent) :=
      if significand = twoTo 53 then (twoTo 52, exponent + 1) else (significand, exponent)
    if greatestExponent < exponent then .infinite negative
    else .finite negative significand exponent

/-- The value nearest to a decimal.  The number of bits bounds the number of decimal digits from both
sides, as `10` lies between `2 ^ 3` and `2 ^ 4`; what is surely above `10 ^ 400` is beyond every finite
value, and what is surely below `10 ^ -400` is nearest to zero. -/
def ofDecimal (decimal : Numeral.Decimal) : Binary64 :=
  let bits := decimal.digits.log2
  if decimal.digits = 0 then zero decimal.negative
  else if 400 < ((bits / 4 : Nat) : Int) + decimal.exponent then .infinite decimal.negative
  else if ((bits / 3 + 1 : Nat) : Int) + decimal.exponent < -400 then zero decimal.negative
  else if 0 ≤ decimal.exponent then
    ofRatio decimal.negative (decimal.digits * tenTo decimal.exponent.toNat) 1
  else ofRatio decimal.negative decimal.digits (tenTo (-decimal.exponent).toNat)

/-- The names of the values that are not finite, in any letter case. -/
def named? (text : Text) : Option Binary64 :=
  let (negative, unsigned) := Numeral.signed text
  let lower := unsigned.map Char.toLower
  if lower = "inf".toList || lower = "infinity".toList then some (.infinite negative)
  else if lower = "nan".toList then some .notANumber
  else none

/-- A value read from a decimal or a name, with blanks around it allowed. -/
def ofText? (text : Text) : Option Binary64 :=
  match Numeral.prepared? text with
  | none => none
  | some numeral =>
      match named? numeral with
      | some value => some value
      | none => (Numeral.decimal? numeral).map ofDecimal

/-- Whether a value is a number that is zero or less. -/
def isAtMostZero : Binary64 -> Bool
  | .notANumber => false
  | .infinite negative => negative
  | .finite negative significand _ => negative || significand == 0

/-- Whether a value equals a whole number. -/
def isInt (expected : Int) : Binary64 -> Bool
  | .finite negative significand exponent =>
      let magnitude :=
        if 0 ≤ exponent then some (significand * twoTo exponent.toNat)
        else
          let unit := twoTo (-exponent).toNat
          if significand % unit = 0 then some (significand / unit) else none
      magnitude == some expected.natAbs &&
        (expected == 0 || negative == (expected < 0 : Bool))
  | _ => false

/-- Whether two values are the same number; the zeros are, and what is not a number is not. -/
def equals : Binary64 -> Binary64 -> Bool
  | .notANumber, _ => false
  | .finite _ 0 _, .finite _ 0 _ => true
  | first, second => first == second

/-- The value of a whole number, rounded. -/
def ofInt (value : Int) : Binary64 :=
  ofRatio (value < 0) value.natAbs 1

end Binary64

end SceneBundler
