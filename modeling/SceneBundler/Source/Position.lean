import SceneBundler.Text.Basic

/-!
Contract: where an offset of a text lies.

Owns: line numbers, the brace depth before an offset, and the nearest character before an offset
that is not blank.

Does not own: which brackets pair with which.
-/

namespace SceneBundler.Source

/-- The number of the line that holds an offset; lines count from one and end at a line break. -/
def lineNumberAt (text : Text) (offset : Nat) : Nat :=
  (text.take offset).count '\n' + 1

/-- The number of braces opened less the number closed before an offset. -/
def braceDepthAt (text : Text) (offset : Nat) : Int :=
  ((text.take offset).count '{' : Int) - ((text.take offset).count '}' : Int)

/-- The nearest character before an offset that is not blank, and its offset. -/
def previousSignificant? (text : Text) (offset : Nat) : Option (Char × Nat) :=
  let before := (text.take offset).reverse
  match before.dropWhile Character.isBlank with
  | [] => none
  | c :: rest => some (c, rest.length)

/-- The offset just after the last line break before an offset. -/
def lineStartBefore (text : Text) (offset : Nat) : Nat :=
  offset - ((text.take offset).reverse.takeWhile (· != '\n')).length

/-- The offset of the first line break from an offset on, or the end of the text. -/
def lineEndFrom (text : Text) (offset : Nat) : Nat :=
  (Text.offsetOf? '\n' text offset).getD text.length

end SceneBundler.Source
