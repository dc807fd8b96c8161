import SceneBundler.Text.AlphanumericRanges
import SceneBundler.Text.UnprintableRanges

/-!
Contract: the character classes the scanners ask about.

Owns:
- blanks, identifier characters, decimal digits and printable characters, each over all of Unicode;
- the value of a decimal digit of any script;
- the narrower ASCII classes that JavaScript names start with.

Does not own: case folding or normalization of whole texts.
-/

namespace SceneBundler.Character

/-- Membership of a code point in a list of closed ranges. -/
def inRanges (codePoint : Nat) (ranges : List (Nat × Nat)) : Bool :=
  ranges.any fun range => range.1 ≤ codePoint && codePoint ≤ range.2

/-- White space: the ASCII layout characters, the four information separators, and every Unicode
space or line separator.  Zero-width characters are not white space. -/
def isBlank (c : Char) : Bool :=
  let codePoint := c.toNat
  if codePoint < 0x80 then
    codePoint == 0x20 || (0x09 ≤ codePoint && codePoint ≤ 0x0d) ||
      (0x1c ≤ codePoint && codePoint ≤ 0x1f)
  else
    codePoint == 0x85 || codePoint == 0xa0 || codePoint == 0x1680 ||
      (0x2000 ≤ codePoint && codePoint ≤ 0x200a) || codePoint == 0x2028 ||
      codePoint == 0x2029 || codePoint == 0x202f || codePoint == 0x205f ||
      codePoint == 0x3000

/-- The digits zero of the scripts beyond ASCII; each is followed by its digits one to nine. -/
def zeroDigits : List Nat := [
  0x660, 0x6f0, 0x7c0, 0x966, 0x9e6, 0xa66, 0xae6, 0xb66, 0xbe6, 0xc66, 0xce6, 0xd66, 0xde6,
  0xe50, 0xed0, 0xf20, 0x1040, 0x1090, 0x17e0, 0x1810, 0x1946, 0x19d0, 0x1a80, 0x1a90, 0x1b50,
  0x1bb0, 0x1c40, 0x1c50, 0xa620, 0xa8d0, 0xa900, 0xa9d0, 0xa9f0, 0xaa50, 0xabf0, 0xff10,
  0x104a0, 0x10d30, 0x11066, 0x110f0, 0x11136, 0x111d0, 0x112f0, 0x11450, 0x114d0, 0x11650,
  0x116c0, 0x11730, 0x118e0, 0x11950, 0x11c50, 0x11d50, 0x11da0, 0x16a60, 0x16ac0, 0x16b50,
  0x1d7ce, 0x1d7d8, 0x1d7e2, 0x1d7ec, 0x1d7f6, 0x1e140, 0x1e2f0, 0x1e950, 0x1fbf0]

/-- The value of a decimal digit of any script. -/
def decimalValue? (c : Char) : Option Nat :=
  let codePoint := c.toNat
  if codePoint < 0x80 then
    if c.isDigit then some (codePoint - 0x30) else none
  else
    (zeroDigits.find? fun first => first ≤ codePoint && codePoint ≤ first + 9).map
      (codePoint - ·)

/-- A decimal digit of any script. -/
def isDecimal (c : Char) : Bool :=
  (decimalValue? c).isSome

/-- Letters and numbers of any script, and the underscore. -/
def isWord (c : Char) : Bool :=
  if c.toNat < 0x80 then c.isAlphanum || c == '_' else inRanges c.toNat alphanumericRanges

/-- The characters a JavaScript name continues with: word characters and the dollar sign. -/
def continuesName (c : Char) : Bool :=
  isWord c || c == '$'

/-- The characters a JavaScript name starts with: ASCII letters, the underscore, the dollar sign. -/
def startsName (c : Char) : Bool :=
  c.isAlpha || c == '_' || c == '$'

/-- The ASCII characters of a JavaScript word. -/
def isAsciiWord (c : Char) : Bool :=
  c.isAlphanum || c == '_' || c == '$'

/-- Characters that are shown as themselves when a value is quoted for display. -/
def isPrintable (c : Char) : Bool :=
  if c.toNat < 0x80 then 0x20 ≤ c.toNat && c.toNat < 0x7f
  else !inRanges c.toNat unprintableRanges

end SceneBundler.Character
