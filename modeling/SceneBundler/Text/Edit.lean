import SceneBundler.Text.Basic

/-!
Contract: edits of a text, and the text with a set of edits applied.

Owns: the order in which edits are applied, and the rule that an edit which begins before the end
of the last applied one is passed over.

Does not own: what the edits are for.
-/

namespace SceneBundler

/-- The replacement of the characters from `start` up to but not including `stop`. -/
structure Edit where
  start : Nat
  stop : Nat
  replacement : Text
deriving DecidableEq, Repr

namespace Edit

/-- The removal of a stretch of text. -/
def deletion (start stop : Nat) : Edit :=
  ⟨start, stop, []⟩

/-- The order of edits: by first offset, then by last, then by replacement. -/
def le (first second : Edit) : Bool :=
  if first.start = second.start then
    if first.stop = second.stop then Text.le first.replacement second.replacement
    else first.stop < second.stop
  else first.start < second.start

/-- A set of edits in the order of application. -/
def sorted (edits : List Edit) : List Edit :=
  (Order.sort le edits).eraseReps

/-- The edits of an ordered list that are applied, an edit being passed over when it begins before
the cursor. -/
def applied : Nat -> List Edit -> List Edit
  | _, [] => []
  | cursor, edit :: rest =>
      if edit.start < cursor then applied cursor rest else edit :: applied edit.stop rest

/-- The text from the cursor on with the edits made in order. -/
def splice (text : Text) : Nat -> List Edit -> Text
  | cursor, [] => text.drop cursor
  | cursor, edit :: rest =>
      Text.slice text cursor edit.start ++ edit.replacement ++ splice text edit.stop rest

/-- The text after a set of edits.  The order in which the edits are given, and repetitions among
them, do not matter; of overlapping edits the first stands. -/
def applyAll (edits : List Edit) (text : Text) : Text :=
  splice text 0 (applied 0 (sorted edits))

end Edit

end SceneBundler
