import SceneBundler.Imports.Declared
import SceneBundler.Imports.Statement
import SceneBundler.Diagnostic

/-!
Contract: names that a source gave to imports, taken back to the catalog's names.

Owns:
- the catalog name that a binding stands for, or the namespace that owns it;
- the renaming of every use;
- the reports on the statements that were read.

Does not own: the elements and imports of the result.
-/

namespace SceneBundler.Imports

/-- The catalog identifier that a binding stands for.  A name between braces has to be exported by
that name; a default import stands for the module's default export or else its namespace. -/
def canonicalIdentifier? (catalog : Catalog) (binding : Binding) : Option Text :=
  let ofModule (kind : ExportKind) : Option Text :=
    ((catalog.exportsOf binding.module).find? (·.kind == kind)).map (·.identifier)
  match binding.kind with
  | .asNamed =>
      match catalog.lookup binding.importedName with
      | some found => if found.kind = .asNamed then some found.identifier else none
      | none => none
  | .asDefault => (ofModule .asDefault).or (ofModule .asNamespace)
  | .asNamespace => ofModule .asNamespace

/-- The namespace through which a name between braces can be reached. -/
def owningNamespace? (catalog : Catalog) (binding : Binding) : Option Text :=
  if binding.kind = .asNamed then
    ((catalog.exportsOf binding.module).find? (·.kind == .asNamespace)).map (·.identifier)
  else none

/-- The name that takes the place of a binding's own name, where it differs and the source declares
neither. -/
def renaming? (catalog : Catalog) (declared : List Text) (binding : Binding) :
    Option (Text × Text) :=
  if declared.contains binding.localName then none
  else
    match canonicalIdentifier? catalog binding with
    | some canonical =>
        if canonical ≠ binding.localName && !declared.contains canonical then
          some (binding.localName, canonical)
        else none
    | none =>
        match owningNamespace? catalog binding with
        | some owner =>
            if declared.contains owner then none
            else some (binding.localName, owner ++ '.' :: binding.importedName)
        | none => none

/-- The renamings of all statements; of two for one name the later is meant. -/
def renamingsOf (catalog : Catalog) (declared : List Text) (statements : List Statement) :
    List (Text × Text) :=
  (statements.flatMap (·.bindings)).filterMap (renaming? catalog declared)

/-- One of the names as a whole identifier that is not a member of something, kept as 1; a longer name
is tried before a beginning of it. -/
def identifierAmong (names : List Text) : Pattern :=
  Pattern.notAfter (fun c => Character.continuesName c || c == '.') ++
    Pattern.capture 1 (Pattern.anyOf ((Text.sortedSet names).reverse.map Pattern.word)) ++
    Pattern.notBefore Character.continuesName

/-- The edits that rename every use; the keys of objects are no uses. -/
def renamingEdits (masked : Text) (renamings : List (Text × Text)) : List Edit :=
  ((identifierAmong (renamings.map (·.1))).all masked).filterMap fun found =>
    if isObjectKey masked found.stop then none
    else
      (renamings.reverse.lookup (found.captured masked 1)).map fun replacement =>
        ⟨found.start, found.stop, replacement⟩

/-- A source whose imported names are the catalog's names again. -/
def recoverAliases (catalog : Catalog) (declared : List Text) (statements : List Statement)
    (body : Text) : Text :=
  let renamings := renamingsOf catalog declared statements
  if renamings.isEmpty then body
  else Edit.applyAll (renamingEdits (Source.mask body) renamings) body

/-- Whether a framework provides what a binding stands for. -/
def isProvided (catalog : Catalog) (binding : Binding) : Bool :=
  (canonicalIdentifier? catalog binding).any (fun identifier => !identifier.isEmpty) ||
    (owningNamespace? catalog binding).isSome

/-- The report on a binding that a framework does not provide. -/
def bindingReport? (catalog : Catalog) (statement : Statement) (binding : Binding) :
    Option Diagnostic :=
  if isProvided catalog binding then none
  else
    some <| .warning .resolve "unknown_import_dropped"
      ("Dropped import of ".toList ++ Diagnostic.named binding.importedName ++
        " from ".toList ++ Diagnostic.named statement.written ++ ": ".toList ++
        catalog.framework.tag ++ " does not provide it.".toList)
      (some binding.line)

/-- The reports on one statement: a former module name, nothing bound, names not provided. -/
def statementReports (catalog : Catalog) (statement : Statement) : List Diagnostic :=
  let renamed :=
    if statement.written = statement.module then []
    else
      [.warning .resolve "legacy_module_name"
        ("Module ".toList ++ Diagnostic.named statement.written ++ " is published as ".toList ++
          Diagnostic.named statement.module ++ ['.'])
        (some statement.line)]
  let dropped :=
    if statement.bindings.isEmpty then
      [.warning .resolve "side_effect_import_dropped"
        ("Dropped side-effect import of ".toList ++ Diagnostic.named statement.written ++ ['.'])
        (some statement.line)]
    else []
  renamed ++ dropped ++ statement.bindings.filterMap (bindingReport? catalog statement)

end SceneBundler.Imports
