import SceneBundler.Catalog.Basic
import SceneBundler.Entry.Candidate
import SceneBundler.Entry.DefaultExport
import SceneBundler.Entry.Mount

/-!
Contract: the one entry of a program.

Owns: the default export of the component that renders the root container, and the call of the
function that builds the scene.

Does not own: finding components and mount code.
-/

namespace SceneBundler.Entry

open Pattern (literal char name blanks gap maybe wordBoundary anyOf)

/-- The report that nothing can be started. -/
def noEntry (message : Text) : Diagnostic :=
  .error .entry "no_entry_point_candidate" message

/-- A source with exactly one default export, which names the root component; without a default
export where no component renders the root container. -/
def componentEntry (catalog : Catalog) (text : Text) : Text × List Diagnostic :=
  let (unmounted, reports) := stripMountCode text
  let stripped := stripDefaultExports (nameAnonymousDefault unmounted catalog.rootName)
  match chooseRoot catalog.rootName (candidates stripped catalog.rootContainer) with
  | none =>
      (stripped,
        reports ++
          [noEntry ("No top-level component renders <".toList ++ catalog.rootContainer ++
            ">.".toList)])
  | some root =>
      (Text.trimEnd stripped ++ "\n\nexport default ".toList ++ root.name ++ ";\n".toList, reports)

/-- The construction of the root container. -/
def construction (rootContainer : Text) : Pattern :=
  wordBoundary ++ literal "new" ++ gap ++ maybe (name ++ blanks ++ char '.' ++ blanks) ++
    Pattern.word rootContainer ++ blanks ++ char '('

/-- The definition of a function by a name. -/
def functionDefinition (rootName : Text) : Pattern :=
  (literal "function" ++ gap ++ Pattern.word rootName ++ blanks ++ char '(') <|>
    (anyOf [literal "const", literal "let", literal "var"] ++ gap ++ Pattern.word rootName ++
      blanks ++ char '=')

/-- A name followed by a parenthesis. -/
def callOf (rootName : Text) : Pattern :=
  Pattern.notAfter (fun c => Character.continuesName c || c == '.') ++ Pattern.word rootName ++
    blanks ++ char '('

/-- How far back from a name the keyword of its definition is looked for. -/
def definitionLookBack : Nat := 16

/-- Whether a name with a parenthesis is the head of a function rather than a call. -/
def isDefinition (masked : Text) (found : Match) : Bool :=
  (literal "function" ++ gap ++ Pattern.textEnd).occursIn
    (Text.slice masked (found.start - definitionLookBack) found.start)

/-- A source that constructs its root and calls its scene builder; the call is added where it is
missing. -/
def scriptEntry (catalog : Catalog) (text : Text) : Text × List Diagnostic :=
  let masked := Source.mask text
  if !(construction catalog.rootContainer).occursIn masked then
    (text,
      [noEntry ("Module never constructs ".toList ++ catalog.rootContainer ++
        ", so nothing would render.".toList)])
  else if !(functionDefinition catalog.rootName).occursIn masked then (text, [])
  else if ((callOf catalog.rootName).all masked).any fun found => !isDefinition masked found then
    (text, [])
  else
    (Text.trimEnd text ++ '\n' :: '\n' :: catalog.rootName ++ "();\n".toList,
      [.warning .entry "entry_invocation_added"
        (Diagnostic.named catalog.rootName ++
          " was defined but never called; a call was appended.".toList)
        none])

/-- A source with one entry in the style of its framework. -/
def synthesize (catalog : Catalog) (text : Text) : Text × List Diagnostic :=
  match catalog.entryStyle with
  | .component => componentEntry catalog text
  | .script => scriptEntry catalog text

end SceneBundler.Entry
