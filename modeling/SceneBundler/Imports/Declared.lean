import SceneBundler.Text.Pattern

/-!
Contract: the names that a source declares itself.

Owns: the names bound by functions, classes and variables, those in destructuring patterns
included.

Does not own: names bound by parameters and imports.
-/

namespace SceneBundler.Imports

open Pattern (literal char name blanks gap maybe wordBoundary anyOf capture oneOf)

/-- The keyword of a declaration and the name after it, kept as 1. -/
def declaredName : Pattern :=
  wordBoundary ++
    anyOf [literal "function" ++ maybe (char '*'), literal "class", literal "const", literal "let",
      literal "var"] ++
    gap ++ capture 1 name

/-- The keyword of a variable declaration and the bracket of its pattern, kept as 1. -/
def destructuredDeclaration : Pattern :=
  wordBoundary ++ anyOf [literal "const", literal "let", literal "var"] ++ gap ++
    capture 1 (oneOf ['[', '{'])

/-- A name, kept as 1, that ends an element of a destructuring pattern. -/
def patternBinding : Pattern :=
  capture 1 name ++ blanks ++ .ahead true (oneOf [',', '}', ']', '='] <|> Pattern.textEnd)

/-- The length of the text between the bracket that was just opened and its closer, when that is the
given one; braces and brackets nest in each other. -/
def bracketedLength? (closer : Char) : (depth passed : Nat) -> Text -> Option Nat
  | _, _, [] => none
  | depth, passed, c :: rest =>
      if c = '{' || c = '[' then bracketedLength? closer (depth + 1) (passed + 1) rest
      else if c = '}' || c = ']' then
        match depth with
        | 0 => if c = closer then some passed else none
        | outer + 1 => bracketedLength? closer outer (passed + 1) rest
      else bracketedLength? closer depth (passed + 1) rest

/-- The text within the bracket at an offset, empty where it is not closed by its own kind. -/
def bracketedText (masked : Text) (opened : Nat) : Text :=
  let closer := if masked[opened]? = some '{' then '}' else ']'
  let inner := masked.drop (opened + 1)
  match bracketedLength? closer 0 0 inner with
  | some length => inner.take length
  | none => []

/-- Whether the name that ends at an offset is the key of an object: a single colon follows. -/
def isObjectKey (text : Text) (stop : Nat) : Bool :=
  let next := Text.skip Text.isIndent text stop
  text[next]? == some ':' && text[next + 1]? != some ':'

/-- The names bound within a destructuring pattern. -/
def patternNames (pattern : Text) : List Text :=
  (patternBinding.all pattern).filterMap fun found =>
    (found.span? 1).bind fun span =>
      if isObjectKey pattern span.stop then none else some (span.of pattern)

/-- The names that a masked source declares, sorted. -/
def declaredNames (masked : Text) : List Text :=
  let plain := (declaredName.all masked).map fun found => found.captured masked 1
  let destructured := (destructuredDeclaration.all masked).flatMap fun found =>
    patternNames (bracketedText masked (found.stop - 1))
  Text.sortedSet (plain ++ destructured)

end SceneBundler.Imports
