import SceneBundler.Text.Basic

/-!
Contract: texts quoted for display in messages.

Owns: the choice of quote, and the escapes of characters that have no printed form.

Does not own: JSON strings.
-/

namespace SceneBundler.Text

/-- The digits of a number in base sixteen, padded with zeros to a width. -/
def hexadecimal (width value : Nat) : Text :=
  let digits := Nat.toDigits 16 value
  List.replicate (width - digits.length) '0' ++ digits

/-- A character between the given quotes. -/
def quotedChar (quote c : Char) : Text :=
  if c = quote || c = '\\' then ['\\', c]
  else if c = '\n' then "\\n".toList
  else if c = '\r' then "\\r".toList
  else if c = '\t' then "\\t".toList
  else if Character.isPrintable c then [c]
  else if c.toNat < 0x100 then "\\x".toList ++ hexadecimal 2 c.toNat
  else if c.toNat < 0x10000 then "\\u".toList ++ hexadecimal 4 c.toNat
  else "\\U".toList ++ hexadecimal 8 c.toNat

/-- A text in single quotes, or in double quotes where it holds single ones and no double ones. -/
def quoted (text : Text) : Text :=
  let quote := if text.contains '\x27' && !text.contains '\x22' then '\x22' else '\x27'
  quote :: text.flatMap (quotedChar quote) ++ [quote]

end SceneBundler.Text
