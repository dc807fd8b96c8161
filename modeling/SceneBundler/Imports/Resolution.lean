import SceneBundler.Imports.Alias
import SceneBundler.Imports.Block
import SceneBundler.Imports.Element
import SceneBundler.Imports.Usage

/-!
Contract: the imports of a source derived from what it uses.

Owns: the order of the steps, the manifest of the used exports, and the source with one import
block in front.

Does not own: the single steps.
-/

namespace SceneBundler.Imports

/-- The manifest of the identifiers that a catalog exports. -/
def manifestOf (catalog : Catalog) (identifiers : List Text) : Manifest :=
  Manifest.ofPairs
    ((identifiers.filterMap catalog.lookup).map fun found => (found.module, [found.identifier]))

/-- A source with an import block in front.  A block is left out where it is empty; every identifier
of a resolved manifest comes from the catalog, so the block can always be written. -/
def prependBlock (catalog : Catalog) (manifest : Manifest) (body : Text) : Text :=
  match importBlock catalog manifest with
  | .ok block =>
      if block.isEmpty then body else block ++ ['\n', '\n'] ++ withoutLeadingBreaks body
  | .error _ => body

/-- The report that a framework is not used at all. -/
def emptyManifestReport (catalog : Catalog) (manifest : Manifest) : List Diagnostic :=
  let imported := manifest.identifiers.filter fun identifier =>
    !catalog.implicitImports.contains identifier
  if catalog.requiresComponents && imported.isEmpty then
    [.error .resolve "empty_component_manifest"
      ("Source uses no ".toList ++ catalog.framework.tag ++
        " component, hook or namespace from the catalog.".toList)]
  else []

/-- A resolved source: its text, the reports, and what it imports. -/
structure Resolved where
  text : Text
  diagnostics : List Diagnostic
  manifest : Manifest

/-- The source without the imports that were written, and with those that its uses call for. -/
def resolve (catalog : Catalog) (text : Text) : Resolved :=
  let (written, statements) := removeStatements text catalog
  let declared := declaredNames (Source.mask written)
  let recovered := recoverAliases catalog declared statements written
  let intrinsic := renameIntrinsicTags catalog declared recovered
  let (body, hallucinated) := removeHallucinated catalog declared intrinsic
  let masked := Source.mask body
  let used := (usedIdentifiers masked).filter fun identifier => !declared.contains identifier
  let manifest := manifestOf catalog (used ++ catalog.implicitImports)
  { text := prependBlock catalog manifest body
    diagnostics :=
      statements.flatMap (statementReports catalog) ++ hallucinated ++
        unknownHookReports catalog declared body masked [] (call.all masked) ++
        emptyManifestReport catalog manifest
    manifest := manifest }

end SceneBundler.Imports
