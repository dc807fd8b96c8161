import SceneBundler.Diagnostic
import SceneBundler.Entry.Removal
import SceneBundler.Source.Mask
import SceneBundler.Source.Position

/-!
Contract: code that mounts a component by hand.

Owns: root look-ups, root creation, render calls and the guards on a root variable, and their
removal.

Does not own: which component is mounted instead.
-/

namespace SceneBundler.Entry

open Pattern (literal char name blanks gap indent maybe lineStart anyOf capture)
open Source (BracketPairs)

/-- The keyword of a variable, its name, kept as 1, and the equals sign. -/
def variableHead : Pattern :=
  anyOf [literal "const", literal "let", literal "var"] ++ gap ++ capture 1 name ++ blanks ++
    char '=' ++ blanks

/-- A dot with blanks around it. -/
def memberDot : Pattern :=
  blanks ++ char '.' ++ blanks

/-- A variable set to an element of the page, through the parenthesis of the look-up. -/
def rootLookup : Pattern :=
  lineStart ++ indent ++ variableHead ++ literal "document" ++ memberDot ++
    literal "getElementById" ++ blanks ++ char '('

/-- The creation of a root, through its parenthesis. -/
def rootCreation : Pattern :=
  lineStart ++ indent ++ maybe variableHead ++ maybe (literal "ReactDOM" ++ memberDot) ++
    literal "createRoot" ++ blanks ++ char '('

/-- A render call on the library itself, through its parenthesis. -/
def legacyRender : Pattern :=
  lineStart ++ indent ++ literal "ReactDOM" ++ memberDot ++
    (literal "render" <|> literal "hydrate") ++ blanks ++ char '('

/-- A render call on a root variable, through its parenthesis. -/
def renderCall (root : Text) : Pattern :=
  lineStart ++ indent ++ Pattern.word root ++ memberDot ++ literal "render" ++ blanks ++
    char '('

/-- A guard on a missing root variable, up to its body. -/
def rootGuard (root : Text) : Pattern :=
  lineStart ++ indent ++ literal "if" ++ blanks ++ char '(' ++ blanks ++ char '!' ++ blanks ++
    Pattern.word root ++ blanks ++ char ')' ++ blanks

/-- The removal of a guard with its body: a block, or a statement on the same line. -/
def guardRemoval (masked : Text) (pairs : BracketPairs) (found : Match) : Edit :=
  let body := found.stop
  let block := if masked[body]? = some '{' then pairs.closerOf? body else none
  match block with
  | some closed => removalThroughLine masked found.start (closed + 1)
  | none =>
      let lineEnd := Source.lineEndFrom masked body
      let stop :=
        match Text.offsetOf? ';' masked body with
        | some semicolon => if lineEnd < semicolon then lineEnd else semicolon + 1
        | none => lineEnd
      removalThroughLine masked found.start stop

/-- The removals of every match of a pattern that ends with the parenthesis of a call. -/
def callRemovals (masked : Text) (pairs : BracketPairs) (pattern : Pattern) : List Edit :=
  (pattern.all masked).map fun found => callRemoval masked pairs found.start (found.stop - 1)

/-- The variables that hold a page element or a root, each once. -/
def rootVariables (masked : Text) : List Text :=
  ((rootLookup.all masked ++ rootCreation.all masked).filterMap fun found =>
    found.captured? masked 1).eraseDups

/-- The removals of the calls and guards of one root variable. -/
def variableRemovals (masked : Text) (pairs : BracketPairs) (root : Text) : List Edit :=
  callRemovals masked pairs (renderCall root) ++
    ((rootGuard root).all masked).map (guardRemoval masked pairs)

/-- The removals of all mount code. -/
def mountEdits (masked : Text) : List Edit :=
  let pairs := BracketPairs.ofText masked
  [rootLookup, rootCreation, legacyRender].flatMap (callRemovals masked pairs) ++
    (rootVariables masked).flatMap (variableRemovals masked pairs)

/-- A source without its mount code, and one report if there was any. -/
def stripMountCode (text : Text) : Text × List Diagnostic :=
  let edits := mountEdits (Source.mask text)
  match (edits.map (·.start)).min? with
  | none => (text, [])
  | some first =>
      (Edit.applyAll edits text,
        [.warning .entry "mount_code_removed"
          "Removed manual mount code; the project bootstrap mounts the root component.".toList
          (some (Source.lineNumberAt text first))])

end SceneBundler.Entry
