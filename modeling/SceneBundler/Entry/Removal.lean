import SceneBundler.Source.Bracket
import SceneBundler.Text.Edit
import SceneBundler.Text.Pattern

/-!
Contract: the removal of whole statements.

Owns: the end of a call with the calls chained to it, the end of an expression, and the rest of the
line that goes with a removed statement.

Does not own: which statements are removed.
-/

namespace SceneBundler.Entry

open Source (BracketPairs)

/-- The removal of a stretch with the semicolons and blanks after it and the line break. -/
def removalThroughLine (masked : Text) (start stop : Nat) : Edit :=
  let stop := Text.skip (fun c => Text.isIndent c || c == ';') masked stop
  Edit.deletion start (if masked[stop]? = some '\n' then stop + 1 else stop)

/-- A call chained to a call. -/
def chainedCall : Pattern :=
  Pattern.blanks ++ Pattern.char '.' ++ Pattern.blanks ++ Pattern.name ++ Pattern.blanks ++
    Pattern.char '('

/-- The offset after the calls chained from an offset on, at most `room` of them. -/
def chainEnd (masked : Text) (pairs : BracketPairs) : (room stop : Nat) -> Nat
  | 0, stop => stop
  | room + 1, stop =>
      match chainedCall.matchFrom? masked stop with
      | none => stop
      | some link =>
          match pairs.closerOf? (link.stop - 1) with
          | none => stop
          | some closed => chainEnd masked pairs room (closed + 1)

/-- The removal of a statement that consists of a call, whose parenthesis opens at an offset, and of
calls chained to it. -/
def callRemoval (masked : Text) (pairs : BracketPairs) (start opened : Nat) : Edit :=
  let called := (pairs.closerOf? opened).getD opened + 1
  removalThroughLine masked start (chainEnd masked pairs masked.length called)

/-- The number of characters before the semicolon or line break that ends an expression; `busy`
characters still belong to a bracket. -/
def expressionLength (pairs : BracketPairs) : (busy offset passed : Nat) -> Text -> Nat
  | _, _, passed, [] => passed
  | busy + 1, offset, passed, _ :: rest =>
      expressionLength pairs busy (offset + 1) (passed + 1) rest
  | 0, offset, passed, c :: rest =>
      let closed := if Source.isOpener c then pairs.closerOf? offset else none
      match closed with
      | some closed => expressionLength pairs (closed - offset) (offset + 1) (passed + 1) rest
      | none =>
          if c = ';' || c = '\n' then passed
          else expressionLength pairs 0 (offset + 1) (passed + 1) rest

/-- The removal of a statement whose expression begins at an offset. -/
def expressionRemoval (masked : Text) (pairs : BracketPairs) (start expression : Nat) : Edit :=
  removalThroughLine masked start
    (expression + expressionLength pairs 0 expression 0 (masked.drop expression))

end SceneBundler.Entry
