import SceneBundler.Number.Binary64

/-!
Contract: JSON values.

Owns: the values, with whole numbers apart from numbers written with a point or an exponent, and
objects as fields in order of first occurrence, each with the value given last.

Does not own: reading and printing.
-/

namespace SceneBundler.Json

/-- A JSON value. -/
inductive Value where
  | null
  | boolean (value : Bool)
  | integer (value : Int)
  | real (value : Binary64)
  | string (text : Text)
  | array (items : List Value)
  | object (fields : List (Text × Value))
deriving Repr, BEq

namespace Value

/-- Fields with one more: a name that is there already keeps its place and takes the new value. -/
def putField (name : Text) (value : Value) : List (Text × Value) -> List (Text × Value)
  | [] => [(name, value)]
  | (known, old) :: rest =>
      if known = name then (known, value) :: rest else (known, old) :: putField name value rest

/-- The object of a list of fields. -/
def ofFields (fields : List (Text × Value)) : Value :=
  .object (fields.foldl (fun known field => putField field.1 field.2 known) [])

/-- The field of an object. -/
def field? (name : Text) : Value -> Option Value
  | .object fields => fields.lookup name
  | _ => none

/-- The text of a string. -/
def text? : Value -> Option Text
  | .string text => some text
  | _ => none

end Value

end SceneBundler.Json
