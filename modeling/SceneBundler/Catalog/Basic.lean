import SceneBundler.Catalog.Framework

/-!
Contract: component catalogs.

Owns:
- the exports of a framework's modules and the facts that the transforms need;
- look-ups of identifiers, modules and intrinsic tags.

Does not own: reading a catalog from a document, and the packaged catalogs.
-/

namespace SceneBundler

/-- How an identifier is imported from its module. -/
inductive ExportKind where
  | asDefault
  | asNamed
  | asNamespace
deriving DecidableEq, Repr

namespace ExportKind

/-- The kinds in the order in which a module lists them. -/
def all : List ExportKind :=
  [asDefault, asNamed, asNamespace]

/-- The field under which a module lists a kind. -/
def field : ExportKind -> Text
  | asDefault => "default".toList
  | asNamed => "named".toList
  | asNamespace => "namespace".toList

end ExportKind

/-- An identifier and where it is imported from. -/
structure Export where
  identifier : Text
  module : Text
  kind : ExportKind
deriving DecidableEq, Repr

/-- How a program of a framework starts: by mounting a component, or by running a module. -/
inductive EntryStyle where
  | component
  | script
deriving DecidableEq, Repr

namespace EntryStyle

/-- The styles in the order of listing. -/
def all : List EntryStyle :=
  [component, script]

/-- The word for a style. -/
def name : EntryStyle -> Text
  | component => "component".toList
  | script => "module".toList

end EntryStyle

/-- What a framework exports, and how its programs are built. -/
structure Catalog where
  framework : Framework
  aliases : List Text
  entryStyle : EntryStyle
  rootContainer : Text
  rootName : Text
  requiresComponents : Bool
  implicitImports : List Text
  moduleAliases : List (Text × Text)
  intrinsicAliases : List (Text × Text)
  exports : List Export
deriving Repr

namespace Catalog

/-- The export of an identifier. -/
def lookup (catalog : Catalog) (identifier : Text) : Option Export :=
  catalog.exports.find? (·.identifier == identifier)

/-- Whether an identifier is exported. -/
def provides (catalog : Catalog) (identifier : Text) : Bool :=
  (catalog.lookup identifier).isSome

/-- The real name of a module that may be given by a former or misspelled name. -/
def canonicalModule (catalog : Catalog) (module : Text) : Text :=
  (catalog.moduleAliases.lookup module).getD module

/-- The exports of a module. -/
def exportsOf (catalog : Catalog) (module : Text) : List Export :=
  catalog.exports.filter (·.module == module)

/-- The identifiers that stand for whole modules, sorted. -/
def namespaceIdentifiers (catalog : Catalog) : List Text :=
  Text.sortedSet ((catalog.exports.filter (·.kind == .asNamespace)).map (·.identifier))

/-- The modules that export anything, sorted. -/
def knownModules (catalog : Catalog) : List Text :=
  Text.sortedSet (catalog.exports.map (·.module))

end Catalog

end SceneBundler
