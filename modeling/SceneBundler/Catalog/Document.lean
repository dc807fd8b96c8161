import SceneBundler.Number.Shortest
import SceneBundler.Text.Quoted

/-!
Contract: decoded documents, as catalogs are written in.

Owns:
- the values, with mappings whose keys may be any value;
- equality of keys, equality with a number, truth, and the way values are shown in messages.

Does not own: what a catalog document has to hold.
-/

namespace SceneBundler

/-- A decoded document. -/
inductive Document where
  | null
  | boolean (value : Bool)
  | integer (value : Int)
  | real (value : Binary64)
  | text (value : Text)
  | list (items : List Document)
  | mapping (fields : List (Document × Document))
deriving Repr, Inhabited

/-- The kinds of documents. -/
inductive DocumentKind where
  | null
  | boolean
  | integer
  | real
  | text
  | list
  | mapping
deriving DecidableEq, Repr

namespace DocumentKind

/-- The word for a kind in messages. -/
def name : DocumentKind -> Text
  | null => "NoneType".toList
  | boolean => "bool".toList
  | integer => "int".toList
  | real => "float".toList
  | text => "str".toList
  | list => "list".toList
  | mapping => "dict".toList

end DocumentKind

namespace Document

/-- The kind of a document. -/
def kind : Document -> DocumentKind
  | null => .null
  | boolean _ => .boolean
  | integer _ => .integer
  | real _ => .real
  | text _ => .text
  | list _ => .list
  | mapping _ => .mapping

/-- The number a document stands for, where the truth values stand for zero and one. -/
def number? : Document -> Option Binary64
  | boolean value => some (Binary64.ofInt (if value then 1 else 0))
  | integer value =>
      let rounded := Binary64.ofInt value
      if rounded.isInt value then some rounded else none
  | real value => some value
  | _ => none

/-- Whether a document equals a small whole number. -/
def isNumber (expected : Nat) : Document -> Bool
  | boolean value => (if value then 1 else 0) == expected
  | integer value => value == expected
  | real value => value.isInt expected
  | _ => false

/-- Whether two keys are the same: numbers by value, truth values among them. -/
def sameKey : Document -> Document -> Bool
  | null, null => true
  | text first, text second => first == second
  | integer first, integer second => first == second
  | first, second =>
      match first.number?, second.number? with
      | some x, some y => x.equals y
      | _, _ => false

/-- Fields with one more: a key that is there already keeps its place and takes the new value. -/
def putField (key value : Document) : List (Document × Document) -> List (Document × Document)
  | [] => [(key, value)]
  | (known, old) :: rest =>
      if known.sameKey key then (known, value) :: rest
      else (known, old) :: putField key value rest

/-- The mapping of a list of fields. -/
def ofFields (fields : List (Document × Document)) : Document :=
  mapping (fields.foldl (fun known field => putField field.1 field.2 known) [])

/-- Whether a document counts as true: everything but nothing, zero and what is empty. -/
def isTruthy : Document -> Bool
  | null => false
  | boolean value => value
  | integer value => value != 0
  | real value => !value.isInt 0
  | text value => !value.isEmpty
  | list items => !items.isEmpty
  | mapping fields => !fields.isEmpty

mutual

/-- A document as an item of a list or mapping shows it, with texts in quotes. -/
def shown : Document -> Text
  | null => "None".toList
  | boolean value => (if value then "True" else "False").toList
  | integer value => Text.ofInt value
  | real value => value.shortest
  | text value => Text.quoted value
  | list items => '[' :: shownItems items ++ [']']
  | mapping fields => '{' :: shownFields fields ++ ['}']

/-- Items with commas in between. -/
def shownItems : List Document -> Text
  | [] => []
  | [item] => shown item
  | item :: rest => shown item ++ ", ".toList ++ shownItems rest

/-- Fields with commas in between. -/
def shownFields : List (Document × Document) -> Text
  | [] => []
  | [(key, value)] => shown key ++ ": ".toList ++ shown value
  | (key, value) :: rest =>
      shown key ++ ": ".toList ++ shown value ++ ", ".toList ++ shownFields rest

end

/-- A document as a message shows it: a text as it is, anything else as an item. -/
def display : Document -> Text
  | text value => value
  | other => other.shown

end Document

end SceneBundler
