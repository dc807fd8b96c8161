import SceneBundler.Catalog.Basic
import SceneBundler.Catalog.Document

/-!
Contract: catalogs read from documents.

Owns:
- the schema of a catalog document, checked in a fixed order;
- what can be wrong with one, and the sentence that says so.

Does not own: how documents are decoded from text.
-/

namespace SceneBundler.Catalog

/-- A part of a catalog document. -/
inductive Part where
  | whole
  | modules
  | module (name : Text)
  | listing (name : Text) (kind : ExportKind)
  | aliases
  | implicitImports
  | moduleAliases
  | intrinsicAliases
deriving DecidableEq, Repr

/-- A part of the document with a display name, as messages call it. -/
def Part.describe (source : Text) : Part -> Text
  | whole => "catalog ".toList ++ source
  | modules => "catalog ".toList ++ source ++ " modules".toList
  | module name => source ++ " module ".toList ++ name
  | listing name kind => source ++ " module ".toList ++ name ++ ' ' :: kind.field
  | aliases => source ++ " aliases".toList
  | implicitImports => source ++ " implicit_imports".toList
  | moduleAliases => source ++ " module_aliases".toList
  | intrinsicAliases => source ++ " intrinsic_aliases".toList

/-- A field that has to hold a text. -/
inductive TextField where
  | rootContainer
  | rootName
deriving DecidableEq, Repr

/-- The name of a text field. -/
def TextField.name : TextField -> Text
  | rootContainer => "root_container".toList
  | rootName => "root_name".toList

/-- What can be wrong with a catalog document. -/
inductive Fault where
  | notMapping (part : Part) (found : DocumentKind)
  | keyNotText (part : Part) (found : DocumentKind)
  | unknownFields (names : List Text)
  | wrongVersion
  | unsupportedFramework (shown : Text)
  | noModules
  | unknownModuleFields (module : Text) (names : List Text)
  | notTextList (part : Part)
  | exportedTwice (identifier first second : Text)
  | implicitNotExported (identifier : Text)
  | wrongEntryStyle
  | fieldNotText (field : TextField)
  | valueNotText (part : Part) (key : Text)
deriving DecidableEq, Repr

/-- A fault of the document with a display name, as a sentence. -/
def Fault.message (source : Text) : Fault -> Text
  | notMapping part found =>
      "Invalid ".toList ++ part.describe source ++ ": expected mapping, got ".toList ++
        found.name ++ ['.']
  | keyNotText part found =>
      "Invalid ".toList ++ part.describe source ++ ": expected string keys, got ".toList ++
        found.name ++ ['.']
  | unknownFields names =>
      "Catalog ".toList ++ source ++ " contains unknown fields: ".toList ++
        Text.join ", ".toList names ++ ['.']
  | wrongVersion => "Catalog ".toList ++ source ++ " must declare version: 1.".toList
  | unsupportedFramework shown =>
      "Catalog ".toList ++ source ++ " declares unsupported framework '".toList ++ shown ++
        "'.".toList
  | noModules => "Catalog ".toList ++ source ++ " must list at least one module.".toList
  | unknownModuleFields module names =>
      "Catalog ".toList ++ source ++ " module '".toList ++ module ++
        "' has unknown fields: ".toList ++ Text.join ", ".toList names ++ ['.']
  | notTextList part =>
      "Invalid ".toList ++ part.describe source ++ ": expected list of strings.".toList
  | exportedTwice identifier first second =>
      "Catalog ".toList ++ source ++ " exports '".toList ++ identifier ++
        "' from both '".toList ++ first ++ "' and '".toList ++ second ++ "'.".toList
  | implicitNotExported identifier =>
      "Catalog ".toList ++ source ++ " lists implicit import '".toList ++ identifier ++
        "' that no module exports.".toList
  | wrongEntryStyle =>
      "Catalog ".toList ++ source ++ " field 'entry_style' must be one of: ".toList ++
        Text.join ", ".toList (EntryStyle.all.map EntryStyle.name) ++ ['.']
  | fieldNotText field =>
      "Catalog ".toList ++ source ++ " field '".toList ++ field.name ++
        "' must be a string.".toList
  | valueNotText part key =>
      "Invalid ".toList ++ part.describe source ++ ": value for '".toList ++ key ++
        "' must be a string.".toList

/-- Fields whose keys are texts. -/
abbrev Fields := List (Text × Document)

/-- The field of a name, or a document that stands for its absence. -/
def fieldOr (absent : Document) (fields : Fields) (name : String) : Document :=
  (fields.lookup name.toList).getD absent

/-- The fields of a mapping, each of whose keys has to be a text. -/
def readFields (part : Part) : Document -> Except Fault Fields
  | .mapping fields =>
      fields.mapM fun field =>
        match field.1 with
        | .text name => .ok (name, field.2)
        | other => .error (.keyNotText part other.kind)
  | other => .error (.notMapping part other.kind)

/-- The texts of a list of texts. -/
def readTexts (part : Part) : Document -> Except Fault (List Text)
  | .list items =>
      items.mapM fun item =>
        match item with
        | .text value => .ok value
        | _ => .error (.notTextList part)
  | _ => .error (.notTextList part)

/-- The fields of a mapping from texts to texts. -/
def readTextFields (part : Part) (document : Document) : Except Fault (List (Text × Text)) := do
  let fields ← readFields part document
  fields.mapM fun field =>
    match field.2 with
    | .text value => .ok (field.1, value)
    | _ => .error (.valueNotText part field.1)

/-- The names among the fields that are not known, sorted. -/
def unknownNames (known : List Text) (fields : Fields) : List Text :=
  Text.sortedSet ((fields.map Prod.fst).filter fun name => !known.contains name)

/-- The fields of a catalog document. -/
def knownFields : List Text :=
  ["version", "framework", "aliases", "entry_style", "root_container", "root_name",
    "requires_components", "implicit_imports", "module_aliases", "intrinsic_aliases",
    "modules"].map String.toList

/-- Exports with one more identifier of a module, which must not be exported already. -/
def addExport (module : Text) (kind : ExportKind) (known : List Export) (identifier : Text) :
    Except Fault (List Export) :=
  match known.find? (·.identifier == identifier) with
  | some other => .error (.exportedTwice identifier other.module module)
  | none => .ok (known ++ [⟨identifier, module, kind⟩])

/-- Exports with those that a module lists under one kind. -/
def addListing (module : Text) (fields : Fields) (known : List Export) (kind : ExportKind) :
    Except Fault (List Export) := do
  let identifiers ← readTexts (.listing module kind)
    ((fields.lookup kind.field).getD (.list []))
  identifiers.foldlM (addExport module kind) known

/-- Exports with those of one module. -/
def addModule (known : List Export) (listed : Text × Document) : Except Fault (List Export) := do
  let (module, document) := listed
  let fields ← readFields (.module module) document
  let unknown := unknownNames (ExportKind.all.map ExportKind.field) fields
  if unknown.isEmpty then ExportKind.all.foldlM (addListing module fields) known
  else .error (.unknownModuleFields module unknown)

/-- The exports of every module, in the order of module names. -/
def readModules (document : Document) : Except Fault (List Export) := do
  let modules ← readFields .modules document
  if modules.isEmpty then .error .noModules
  else (Order.sort (fun first second => Text.le first.1 second.1) modules).foldlM addModule []

/-- The framework a document declares. -/
def readFramework (document : Document) : Except Fault Framework :=
  let found := match document with
    | .text name => Framework.ofTag? name
    | _ => none
  match found with
  | some framework => .ok framework
  | none => .error (.unsupportedFramework document.display)

/-- The entry style a document declares. -/
def readEntryStyle (document : Document) : Except Fault EntryStyle :=
  let found := match document with
    | .text name => EntryStyle.all.find? (·.name == name)
    | _ => none
  match found with
  | some style => .ok style
  | none => .error .wrongEntryStyle

/-- A field that has to hold a text that is not blank; blanks around it are left out. -/
def readTextField (fields : Fields) (field : TextField) : Except Fault Text :=
  match fields.lookup field.name with
  | some (.text value) =>
      let trimmed := Text.trim value
      if trimmed.isEmpty then .error (.fieldNotText field) else .ok trimmed
  | _ => .error (.fieldNotText field)

/-- The catalog that a document describes, or the first fault found in it. -/
def ofDocument (document : Document) : Except Fault Catalog := do
  let fields ← readFields .whole document
  let unknown := unknownNames knownFields fields
  if !unknown.isEmpty then throw (.unknownFields unknown)
  if !(fieldOr .null fields "version").isNumber 1 then throw .wrongVersion
  let framework ← readFramework (fieldOr .null fields "framework")
  let exports ← readModules (fieldOr .null fields "modules")
  let implicitImports ← readTexts .implicitImports (fieldOr (.list []) fields "implicit_imports")
  match implicitImports.find? fun identifier => !exports.any (·.identifier == identifier) with
  | some identifier => throw (.implicitNotExported identifier)
  | none => pure ()
  let aliases ← readTexts .aliases (fieldOr (.list []) fields "aliases")
  let entryStyle ← readEntryStyle (fieldOr .null fields "entry_style")
  let rootContainer ← readTextField fields .rootContainer
  let rootName ← readTextField fields .rootName
  let requiresComponents := (fieldOr (.boolean true) fields "requires_components").isTruthy
  let moduleAliases ←
    readTextFields .moduleAliases (fieldOr (.mapping []) fields "module_aliases")
  let intrinsicAliases ←
    readTextFields .intrinsicAliases (fieldOr (.mapping []) fields "intrinsic_aliases")
  return {
    framework, aliases, entryStyle, rootContainer, rootName, requiresComponents,
    implicitImports, moduleAliases, intrinsicAliases, exports }

end SceneBundler.Catalog
