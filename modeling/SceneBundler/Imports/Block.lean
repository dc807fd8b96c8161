import SceneBundler.Catalog.Basic
import SceneBundler.Imports.Manifest

/-!
Contract: the import statements of a manifest.

Owns: one statement for the default and named exports of a module, and one for each namespace, in
order of modules.

Does not own: which identifiers a manifest holds.
-/

namespace SceneBundler.Imports

/-- The identifiers among exports of one kind. -/
def identifiersOfKind (kind : ExportKind) (exports : List Export) : List Text :=
  (exports.filter (·.kind == kind)).map (·.identifier)

/-- What a statement binds from a module: at most one default export, and names between braces. -/
def clauseOf (exports : List Export) : List Text :=
  let named := identifiersOfKind .asNamed exports
  (identifiersOfKind .asDefault exports).take 1 ++
    if named.isEmpty then [] else [['{', ' '] ++ Text.join ", ".toList named ++ [' ', '}']]

/-- The statements that import exports from a module. -/
def statementsOf (module : Text) (exports : List Export) : List Text :=
  let source := " from ".toList ++ '\x27' :: module ++ "';".toList
  let clause := clauseOf exports
  let joint :=
    if clause.isEmpty then [] else ["import ".toList ++ Text.join ", ".toList clause ++ source]
  joint ++ (identifiersOfKind .asNamespace exports).map fun identifier =>
    "import * as ".toList ++ identifier ++ source

/-- The export of an identifier, or the identifier that has none. -/
def exportOf (catalog : Catalog) (identifier : Text) : Except Text Export :=
  match catalog.lookup identifier with
  | some found => .ok found
  | none => .error identifier

/-- The import statements of a manifest, one a line, or the first of its identifiers that the catalog
lacks. -/
def importBlock (catalog : Catalog) (manifest : Manifest) : Except Text Text := do
  let statements ← manifest.modules.mapM fun entry => do
    let exports ← entry.2.mapM (exportOf catalog)
    return statementsOf entry.1 exports
  return Text.join ['\n'] statements.flatten

end SceneBundler.Imports
