import SceneBundler.Imports.Manifest
import SceneBundler.Project.Template
import SceneBundler.Text.Pattern

/-!
Contract: laying a source into the layout of its framework.

Owns:
- the package that provides a module;
- the checks that every imported package is pinned, that the entry file holds something, and that a
  component source has a default export to mount, in this order.

Does not own: mending a source that fails a check.
-/

namespace SceneBundler

/-- What can keep a source from becoming a project. -/
inductive AssemblyFault where
  | noTemplate (framework : Text)
  | unpinned (packages : List Text) (framework : Framework)
  | noEntryFile (framework : Framework) (entryPath : Text)
  | noDefaultExport (sourcePath : Text)
deriving DecidableEq, Repr

/-- A fault as a sentence. -/
def AssemblyFault.message : AssemblyFault -> Text
  | noTemplate framework =>
      "No project template for framework '".toList ++ framework ++ "'. Use one of: ".toList ++
        Framework.tagList ++ ['.']
  | unpinned packages framework =>
      "No pinned dependency for ".toList ++ Text.join ", ".toList packages ++ " in the '".toList ++
        framework.tag ++
        "' template. Add the package to the framework template or drop it from the catalog.".toList
  | noEntryFile framework entryPath =>
      "Bundle for '".toList ++ framework.tag ++ "' has no entry file at ".toList ++ entryPath ++
        ". The source produced by the transform stages is empty.".toList
  | noDefaultExport sourcePath =>
      sourcePath ++
        " has no default export for the bootstrap to mount. Run the entry-point stage before assembling.".toList

namespace Bundle

open Pattern (lineStart blanks literal gap wordBoundary)

/-- The package that provides a module: the first part of its name, or the first two parts where the
name has a scope. -/
def packageName (module : Text) : Text :=
  let segments := Text.split '/' module
  if "@".toList.isPrefixOf module && 1 < segments.length then
    Text.join ['/'] (segments.take 2)
  else segments.headD []

/-- The imported packages that a layout does not pin, in order. -/
def unpinnedPackages (template : Template) (manifest : Manifest) : List Text :=
  let pinned := template.dependencies.map Package.name
  Text.sortedSet ((manifest.moduleNames.map packageName).filter fun package =>
    !pinned.contains package)

/-- A default export at the beginning of a line. -/
def defaultExport : Pattern :=
  lineStart ++ blanks ++ literal "export" ++ gap ++ literal "default" ++ wordBoundary

/-- Whether the entry file of a project holds anything but blanks. -/
def hasEntryFile (bundle : Bundle) : Bool :=
  (bundle.file? bundle.entryPath).any fun file => !Text.isBlank file.content

/-- The project of a framework around a source that imports what a manifest says. -/
def assemble (framework : Framework) (source : Text) (manifest : Option Manifest)
    (verified : Bool) : Except AssemblyFault Bundle :=
  let template := Template.ofFramework framework
  let bundle : Bundle := ⟨framework.tag, template.files source, template.entryPath, verified⟩
  let unpinned := (manifest.map (unpinnedPackages template)).getD []
  if !unpinned.isEmpty then .error (.unpinned unpinned framework)
  else if !bundle.hasEntryFile then .error (.noEntryFile framework template.entryPath)
  else if template.bootstrap.isSome && !defaultExport.occursIn source then
    .error (.noDefaultExport template.sourcePath)
  else .ok bundle

/-- The project of the framework with a tag. -/
def assembleTagged (tag source : Text) (manifest : Option Manifest) (verified : Bool) :
    Except AssemblyFault Bundle :=
  match Framework.ofTag? tag with
  | some framework => assemble framework source manifest verified
  | none => .error (.noTemplate tag)

end Bundle

end SceneBundler
