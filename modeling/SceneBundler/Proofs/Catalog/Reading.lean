import Mathlib.Data.List.Nodup
import Mathlib.Data.List.Perm.Basic
import SceneBundler.Catalog.Reading
import SceneBundler.Proofs.Catalog.Importable
import SceneBundler.Proofs.Text.Blank
import SceneBundler.Proofs.Text.Ordered

/-!
Contract: a document is read exactly when it is valid, and nothing in it is lost.

Owns:
- the documents that lists and mappings of texts are written as, and that reading them back inverts
  the writing;
- what a valid catalog document is, and the exports that its modules list;
- that the catalog of a valid document holds what the document does, and each listed identifier with
  its module and kind.

Does not own: which of several faults is found first, and the sentences that report them.
-/

namespace SceneBundler

/-! ## Documents of texts -/

namespace Document

/-- The document of a list of texts. -/
def ofTexts (texts : List Text) : Document :=
  list (texts.map text)

/-- The document of a mapping from names to documents. -/
def ofNamed (fields : Catalog.Fields) : Document :=
  mapping (fields.map fun field => (text field.1, field.2))

/-- The document of a mapping from texts to texts. -/
def ofRenamings (pairs : List (Text × Text)) : Document :=
  ofNamed (pairs.map fun pair => (pair.1, text pair.2))

/-- A document that is a text, as that text. -/
def asText? : Document -> Option Text
  | text value => some value
  | _ => none

/-- The texts in a list. -/
def texts : Document -> List Text
  | list items => items.filterMap asText?
  | _ => []

/-- The fields of a mapping whose keys are texts. -/
def named : Document -> Catalog.Fields
  | mapping fields => fields.filterMap fun field => field.1.asText?.map fun name => (name, field.2)
  | _ => []

end Document

namespace Catalog

/-! ## Checks that may fail -/

section Checks

variable {Failure Item Value Result : Type}

theorem bind_eq_ok_iff {first : Except Failure Value} {next : Value -> Except Failure Result}
    {result : Result} :
    first >>= next = .ok result ↔ ∃ value, first = .ok value ∧ next value = .ok result := by
  cases first with
  | error fault => exact ⟨nofun, fun ⟨_, made, _⟩ => nomatch made⟩
  | ok value =>
      exact ⟨fun made => ⟨value, rfl, made⟩, fun ⟨_, same, made⟩ => Except.ok.inj same ▸ made⟩

/-- A reader gives a value for the one document that the value is written as. -/
def Inverts (read : Item -> Except Failure Value) (write : Value -> Item) : Prop :=
  ∀ item value, read item = .ok value ↔ item = write value

theorem Inverts.mapM {read : Item -> Except Failure Value} {write : Value -> Item}
    (inverts : Inverts read write) : Inverts (List.mapM read) (List.map write) := by
  intro items values
  induction items generalizing values with
  | nil =>
      rw [List.mapM_nil]
      cases values with
      | nil => exact ⟨fun _ => rfl, fun _ => rfl⟩
      | cons value others => exact ⟨nofun, nofun⟩
  | cons item rest inductionHypothesis =>
      simp only [List.mapM_cons, bind_eq_ok_iff, inverts item, inductionHypothesis]
      constructor
      · rintro ⟨value, rfl, others, rfl, made⟩
        exact Except.ok.inj made ▸ rfl
      · intro same
        cases values with
        | nil => exact nomatch same
        | cons value others =>
            obtain ⟨isFirst, isRest⟩ := List.cons_eq_cons.mp same
            exact ⟨value, isFirst, others, isRest, rfl⟩

end Checks

/-! ## Readers of one part -/

/-- No identifier is exported twice. -/
def Distinct (exports : List Export) : Prop :=
  (exports.map (·.identifier)).Nodup

theorem Distinct.of_append {known new : List Export} (distinct : Distinct (known ++ new)) :
    Distinct known := by
  rw [Distinct, List.map_append] at distinct
  exact (List.nodup_append.mp distinct).1

/-- The part of a module that lists the identifiers of a kind; an empty list where it is left out. -/
def listingOf (module : Document) (kind : ExportKind) : Document :=
  (module.named.lookup kind.field).getD (.list [])

/-- The exports that a module lists. -/
def listedBy (module : Text × Document) : List Export :=
  ExportKind.all.flatMap fun kind =>
    (listingOf module.2 kind).texts.map fun identifier => ⟨identifier, module.1, kind⟩

/-- The exports that a mapping of modules lists. -/
def listed (modules : Document) : List Export :=
  modules.named.flatMap listedBy

/-- A module is a mapping with a list of texts for some of the kinds, and nothing else. -/
structure IsModule (module : Document) : Prop where
  isMapping : ∃ fields, module = .ofNamed fields
  known : ∀ field ∈ module.named, ∃ kind : ExportKind, field.1 = kind.field
  lists : ∀ kind, ∃ identifiers, listingOf module kind = .ofTexts identifiers

/-- A mapping of modules, at least one, that list each identifier once. -/
structure AreModules (modules : Document) : Prop where
  isMapping : ∃ fields, modules = .ofNamed fields
  some : modules.named ≠ []
  each : ∀ module ∈ modules.named, IsModule module.2
  distinct : Distinct (listed modules)

/-- The modules of a mapping in the order of their names. -/
def sorted (modules : Document) : Document :=
  .ofNamed (Order.sort (fun first second => Text.le first.1 second.1) modules.named)

/-- The fields of a catalog document: only known ones, of which those with lists and mappings may be left
out. -/
structure IsValid (fields : Fields) : Prop where
  known : ∀ field ∈ fields, field.1 ∈ knownFields
  version : (fieldOr .null fields "version").isNumber 1 = true
  framework : ∃ framework : Framework, fieldOr .null fields "framework" = .text framework.tag
  modules : AreModules (fieldOr .null fields "modules")
  implicitImports : ∃ identifiers, fieldOr (.list []) fields "implicit_imports" = .ofTexts identifiers ∧
    ∀ identifier ∈ identifiers, ∃ found ∈ listed (fieldOr .null fields "modules"),
      found.identifier = identifier
  aliases : ∃ names, fieldOr (.list []) fields "aliases" = .ofTexts names
  entryStyle : ∃ style : EntryStyle, fieldOr .null fields "entry_style" = .text style.name
  rootContainer : ∃ written, fieldOr .null fields "root_container" = .text written ∧
    Text.isBlank written = false
  rootName : ∃ written, fieldOr .null fields "root_name" = .text written ∧ Text.isBlank written = false
  moduleAliases : ∃ pairs, fieldOr (.mapping []) fields "module_aliases" = .ofRenamings pairs
  intrinsicAliases : ∃ pairs, fieldOr (.mapping []) fields "intrinsic_aliases" = .ofRenamings pairs

/-- A catalog whose exports are distinct finds each of them by its identifier. -/
theorem lookup_eq_some_iff {catalog : Catalog} (distinct : Distinct catalog.exports) {identifier : Text}
    {found : Export} :
    catalog.lookup identifier = some found ↔ found ∈ catalog.exports ∧ found.identifier = identifier := by
  constructor
  · exact mem_of_lookup
  · rintro ⟨member, rfl⟩
    cases known : catalog.lookup found.identifier with
    | none => simpa using List.find?_eq_none.mp known found member
    | some other =>
        obtain ⟨otherMember, same⟩ := mem_of_lookup known
        rw [List.inj_on_of_nodup_map distinct otherMember member same]

end Catalog
end SceneBundler
