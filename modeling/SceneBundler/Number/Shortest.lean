import SceneBundler.Number.Binary64

/-!
Contract: decimal texts of floating-point values.

Owns:
- the fewest significant digits that read back as a value, and of those the nearest;
- a value rounded to a number of significant digits;
- the layout of digits, positional or with an exponent.

Does not own: reading decimals.
-/

namespace SceneBundler.Binary64

/-- A positive value between the two bounds of what rounds to it, all three over one denominator. -/
structure Neighbourhood where
  low : Nat
  value : Nat
  high : Nat
  denominator : Nat
  /-- Whether the bounds themselves round to the value. -/
  closed : Bool

/-- The numbers that round to a finite positive value: those up to half way to its neighbours. -/
def neighbourhood (significand : Nat) (exponent : Int) : Neighbourhood :=
  let closed := significand % 2 == 0
  let below := if significand = twoTo 52 && leastExponent < exponent then 1 else 2
  let scale := if 0 ≤ exponent then twoTo exponent.toNat else 1
  let denominator := if 0 ≤ exponent then 4 else 4 * twoTo (-exponent).toNat
  { low := (4 * significand - below) * scale
    value := 4 * significand * scale
    high := (4 * significand + 2) * scale
    denominator := denominator
    closed := closed }

/-- The number of digits before the point of a positive ratio, zero or negative for a ratio below
one tenth of one. -/
def pointPosition (numerator denominator : Nat) : Int :=
  let whole := numerator / denominator
  if whole ≠ 0 then (Nat.toDigits 10 whole).length
  else
    let inverse := (denominator - 1) / numerator
    1 - ((Nat.toDigits 10 inverse).length : Int)

/-- A ratio in units of a power of ten, as a numerator and a denominator. -/
def inTens (numerator denominator : Nat) (power : Int) : Nat × Nat :=
  if 0 ≤ power then (numerator, denominator * tenTo power.toNat)
  else (numerator * tenTo (-power).toNat, denominator)

/-- Significant digits, as a number, in units of a power of ten. -/
structure Digits where
  number : Nat
  power : Int
deriving DecidableEq, Repr

/-- Whether a multiple of a power of ten lies where numbers round to the value. -/
def Neighbourhood.contains (near : Neighbourhood) (digits : Digits) : Bool :=
  let (lowScaled, lowUnit) := inTens near.low near.denominator digits.power
  let (highScaled, highUnit) := inTens near.high near.denominator digits.power
  if near.closed then
    lowScaled ≤ digits.number * lowUnit && digits.number * highUnit ≤ highScaled
  else lowScaled < digits.number * lowUnit && digits.number * highUnit < highScaled

/-- The candidates with a number of significant digits: the multiples of the unit at or next to the
value, nearest first, an even one first where both are equally near. -/
def Neighbourhood.candidates (near : Neighbourhood) (count : Nat) : List Digits :=
  let power := pointPosition near.value near.denominator - count
  let (scaled, unit) := inTens near.value near.denominator power
  let below := scaled / unit
  let nearest := roundedQuotient scaled unit
  let other := if nearest = below then below + 1 else below
  [⟨nearest, power⟩, ⟨other, power⟩]

/-- The shortest digits that round to a value, tried from `count` significant digits up. -/
def Neighbourhood.shortest (near : Neighbourhood) : (room count : Nat) -> Digits
  | 0, count => (near.candidates count).headD ⟨0, 0⟩
  | room + 1, count =>
      match (near.candidates count).find? near.contains with
      | some digits => digits
      | none => near.shortest room (count + 1)

/-- The significant digits without trailing zeros, and the position of the point after the first of
them: `d.ddd` times ten to the exponent. -/
def Digits.scientific (digits : Digits) : Text × Int :=
  let all := Nat.toDigits 10 digits.number
  let kept := (all.reverse.dropWhile (· == '0')).reverse
  (if kept.isEmpty then ['0'] else kept, digits.power + all.length - 1)

/-- How the digits of a value are laid out: positional for exponents from `least` to below
`greatest`, and with `.0` after a whole number or not. -/
structure Layout where
  least : Int
  greatest : Int
  wholeMark : Bool

/-- An exponent with its sign and at least two digits. -/
def exponentText (exponent : Int) : Text :=
  let digits := Text.ofNat exponent.natAbs
  (if exponent < 0 then '-' else '+') :: (if digits.length < 2 then '0' :: digits else digits)

/-- Significant digits laid out. -/
def Layout.write (layout : Layout) (digits : Text) (exponent : Int) : Text :=
  if layout.least ≤ exponent && exponent < layout.greatest then
    if exponent < 0 then
      "0.".toList ++ List.replicate (-exponent - 1).toNat '0' ++ digits
    else
      let whole := exponent.toNat + 1
      let padded := digits ++ List.replicate (whole - digits.length) '0'
      let fraction := padded.drop whole
      if fraction.isEmpty then
        padded ++ (if layout.wholeMark then ".0".toList else [])
      else padded.take whole ++ '.' :: fraction
  else
    let fraction := digits.drop 1
    digits.take 1 ++ (if fraction.isEmpty then [] else '.' :: fraction) ++
      'e' :: exponentText exponent

/-- A value laid out with digits chosen by a rule for positive finite values. -/
def write (layout : Layout) (choose : Nat -> Int -> Digits) : Binary64 -> Text
  | .notANumber => "nan".toList
  | .infinite negative => (if negative then "-inf" else "inf").toList
  | .finite negative significand exponent =>
      let sign := if negative then ['-'] else []
      if significand = 0 then sign ++ layout.write ['0'] 0
      else
        let (digits, power) := (choose significand exponent).scientific
        sign ++ layout.write digits power

/-- The shortest text that reads back as a value: positional from `10 ^ -4` to below `10 ^ 16`, and a
whole number ends in `.0`. -/
def shortest (value : Binary64) : Text :=
  value.write ⟨-4, 16, true⟩ fun significand exponent =>
    (neighbourhood significand exponent).shortest 16 1

/-- The nearest number with six significant digits. -/
def sixDigits (significand : Nat) (exponent : Int) : Digits :=
  let near := neighbourhood significand exponent
  (near.candidates 6).headD ⟨0, 0⟩

/-- A value to six significant digits without trailing zeros: positional from `10 ^ -4` to below
`10 ^ 6`. -/
def general (value : Binary64) : Text :=
  value.write ⟨-4, 6, false⟩ sixDigits

end SceneBundler.Binary64
