import SceneBundler.Json.Value
import SceneBundler.Number.Shortest
import SceneBundler.Text.Quoted

/-!
Contract: printing JSON in ASCII.

Owns:
- the escapes of strings: everything outside the printable ASCII characters, in UTF-16 code units;
- the compact layout, and the layout with one item a line.

Does not own: reading.
-/

namespace SceneBundler.Json

/-- The escape of one UTF-16 code unit. -/
def unitEscape (unit : Nat) : Text :=
  "\\u".toList ++ Text.hexadecimal 4 unit

/-- A character between quotes. -/
def printChar (c : Char) : Text :=
  if c = '\x22' then "\\\x22".toList
  else if c = '\\' then "\\\\".toList
  else if c = '\n' then "\\n".toList
  else if c = '\r' then "\\r".toList
  else if c = '\t' then "\\t".toList
  else if c = '\x0c' then "\\f".toList
  else if c = '\x08' then "\\b".toList
  else if ' ' ≤ c && c ≤ '~' then [c]
  else if c.toNat < 0x10000 then unitEscape c.toNat
  else
    let offset := c.toNat - 0x10000
    unitEscape (0xd800 + offset / 0x400) ++ unitEscape (0xdc00 + offset % 0x400)

/-- A string with its quotes. -/
def printString (text : Text) : Text :=
  '\x22' :: text.flatMap printChar ++ ['\x22']

/-- A number that is not whole. -/
def printReal : Binary64 -> Text
  | .notANumber => "NaN".toList
  | .infinite negative => (if negative then "-Infinity" else "Infinity").toList
  | value => value.shortest

/-- How items are set apart: all on one line, or each on its own line indented by a number of spaces
a level. -/
inductive Layout where
  | compact
  | indented (width : Nat)
deriving DecidableEq, Repr

namespace Layout

/-- What stands between a bracket and the items within it at a level. -/
def line (level : Nat) : Layout -> Text
  | compact => []
  | indented width => '\n' :: List.replicate (width * level) ' '

/-- What stands between two items at a level. -/
def separator (level : Nat) : Layout -> Text
  | compact => ", ".toList
  | indented width => ',' :: (indented width).line level

end Layout

mutual

/-- A value at a level of nesting. -/
def printValue (layout : Layout) (level : Nat) : Value -> Text
  | .null => "null".toList
  | .boolean true => "true".toList
  | .boolean false => "false".toList
  | .integer value => Text.ofInt value
  | .real value => printReal value
  | .string text => printString text
  | .array [] => "[]".toList
  | .array (item :: items) =>
      '[' :: layout.line (level + 1) ++ printValue layout (level + 1) item ++
        printItems layout (level + 1) items ++ layout.line level ++ [']']
  | .object [] => ['{', '}']
  | .object ((name, value) :: fields) =>
      '{' :: layout.line (level + 1) ++ printString name ++ ": ".toList ++
        printValue layout (level + 1) value ++ printFields layout (level + 1) fields ++
        layout.line level ++ ['}']

/-- Further items of an array. -/
def printItems (layout : Layout) (level : Nat) : List Value -> Text
  | [] => []
  | item :: items =>
      layout.separator level ++ printValue layout level item ++ printItems layout level items

/-- Further fields of an object. -/
def printFields (layout : Layout) (level : Nat) : List (Text × Value) -> Text
  | [] => []
  | (name, value) :: fields =>
      layout.separator level ++ printString name ++ ": ".toList ++ printValue layout level value ++
        printFields layout level fields

end

/-- A value on one line. -/
def printCompact (value : Value) : Text :=
  printValue .compact 0 value

/-- A value with one item a line, indented by two spaces a level. -/
def printIndented (value : Value) : Text :=
  printValue (.indented 2) 0 value

end SceneBundler.Json
