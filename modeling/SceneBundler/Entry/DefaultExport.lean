import SceneBundler.Entry.Removal
import SceneBundler.Source.Mask

/-!
Contract: default exports of a source.

Owns: a name for a default export without one, and the removal of every default export that keeps
what was declared.

Does not own: the default export that is added in the end.
-/

namespace SceneBundler.Entry

open Pattern (literal char name blanks gap indent maybe star lineStart wordBoundary capture)
open Source (BracketPairs)

/-- The lead of a default export, its indentation kept as 1. -/
def defaultLead : Pattern :=
  lineStart ++ capture 1 indent ++ literal "export" ++ gap ++ literal "default" ++ gap

/-- A default-exported function without a name; its `async` is kept as 2. -/
def anonymousFunction : Pattern :=
  defaultLead ++ maybe (capture 2 (literal "async" ++ gap)) ++ literal "function" ++ blanks ++
    .ahead true (char '(')

/-- The lead of a default-exported arrow function. -/
def anonymousArrow : Pattern :=
  let parameters := char '(' ++ star (fun c => c != '(' && c != ')') ++ char ')'
  defaultLead ++
    .ahead true
      (maybe (literal "async" ++ blanks) ++ (parameters <|> name) ++ blanks ++ literal "=>")

/-- The lead of a default-exported function or class. -/
def defaultDeclaration : Pattern :=
  defaultLead ++
    .ahead true
      ((maybe (literal "async" ++ gap) ++ literal "function" ++ wordBoundary) <|>
        (literal "class" ++ wordBoundary))

/-- A list of local exports, its items kept as 1. -/
def exportList : Pattern :=
  lineStart ++ indent ++ literal "export" ++ blanks ++ char '{' ++
    capture 1 (star fun c => c != '{' && c != '}') ++ char '}' ++
    .ahead false (blanks ++ literal "from" ++ wordBoundary)

/-- A name exported as the default. -/
def defaultSpecifier : Pattern :=
  name ++ gap ++ literal "as" ++ gap ++ literal "default"

/-- A name as a whole identifier that is not a member of something. -/
def wholeIdentifier (identifier : Text) : Pattern :=
  Pattern.notAfter (fun c => Character.continuesName c || c == '.') ++ Pattern.word identifier ++
    Pattern.notBefore Character.continuesName

/-- A name with a number from two on appended. -/
def numbered (rootName : Text) (number : Nat) : Text :=
  if number < 2 then rootName else rootName ++ Text.ofNat number

/-- The first numbered form of a name, from a number on, that does not occur in the masked source.
Each form that does occur takes up characters of its own, so `room` for as many tries as there are
characters is enough. -/
def unusedFrom (masked rootName : Text) : (room number : Nat) -> Text
  | 0, number => numbered rootName number
  | room + 1, number =>
      let candidate := numbered rootName number
      if (wholeIdentifier candidate).occursIn masked then unusedFrom masked rootName room (number + 1)
      else candidate

/-- The conventional name, or the first of its numbered forms that the source does not use. -/
def unusedName (masked rootName : Text) : Text :=
  unusedFrom masked rootName (masked.length + 1) 1

/-- The edit that gives a default-exported function or arrow function a name. -/
def namingEdit? (masked rootName : Text) : Option Edit :=
  let functions := (anonymousFunction.all masked).map fun found => (found, true)
  let arrows := (anonymousArrow.all masked).map fun found => (found, false)
  match Order.sort (fun first second => first.1.start ≤ second.1.start) (functions ++ arrows) with
  | [] => none
  | (found, isFunction) :: _ =>
      let chosen := unusedName masked rootName
      let lead := found.captured masked 1
      let replacement :=
        if isFunction then
          lead ++ found.captured masked 2 ++ "function ".toList ++ chosen
        else lead ++ "const ".toList ++ chosen ++ " = ".toList
      some ⟨found.start, found.stop, replacement⟩

/-- A source whose first anonymous default export has a name instead. -/
def nameAnonymousDefault (text rootName : Text) : Text :=
  match namingEdit? (Source.mask text) rootName with
  | none => text
  | some edit => Edit.applyAll [edit] text

/-- The edit that takes the default out of a list of exports, or removes the list where nothing else
is in it. -/
def specifierEdit? (masked : Text) (found : Match) : Option Edit :=
  let items := ((Text.split ',' (found.captured masked 1)).map Text.trim).filter fun item =>
    !item.isEmpty
  let kept := items.filter fun item => !defaultSpecifier.isFullMatch item
  if kept.length = items.length then none
  else if kept.isEmpty then some (removalThroughLine masked found.start found.stop)
  else
    (found.span? 1).map fun inner =>
      ⟨inner.start, inner.stop, ' ' :: Text.join ", ".toList kept ++ [' ']⟩

/-- The edits that drop every default export. -/
def defaultExportEdits (masked : Text) : List Edit :=
  let pairs := BracketPairs.ofText masked
  let declarations := defaultDeclaration.all masked
  let expressions := (defaultLead.all masked).filter fun found =>
    !declarations.any (·.start == found.start)
  declarations.map (fun found => ⟨found.start, found.stop, found.captured masked 1⟩) ++
    expressions.map (fun found => expressionRemoval masked pairs found.start found.stop) ++
    (exportList.all masked).filterMap (specifierEdit? masked)

/-- A source without default exports; what they declared is kept. -/
def stripDefaultExports (text : Text) : Text :=
  Edit.applyAll (defaultExportEdits (Source.mask text)) text

end SceneBundler.Entry
