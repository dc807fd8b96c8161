import Mathlib.Data.List.Nodup
import SceneBundler.Catalog.Packaged
import SceneBundler.Proofs.Entry.Naming
import SceneBundler.Proofs.Imports.Clause
import SceneBundler.Proofs.Source.Heading

/-!
Contract: what catalogs export, and catalogs whose exports can be imported and read back.

Owns:
- that an export that is looked up is one of the catalog's, and has the identifier;
- that in packaged catalogs every identifier has the letters of a name, and every module can be quoted
  as it is;
- that packaged catalogs export names from modules that go by no other name, and at most one default
  export and one namespace from each module.

Does not own: the statements that import them.
-/

namespace SceneBundler

/-- An export with the name of an identifier, from a module that can be quoted as it is. -/
structure Export.IsPlain (found : Export) : Prop where
  isNameText : Entry.IsNameText found.identifier
  isQuotable : Source.IsQuotable found.module

namespace Catalog

theorem mem_of_lookup {catalog : Catalog} {identifier : Text} {found : Export}
    (known : catalog.lookup identifier = some found) :
    found ∈ catalog.exports ∧ found.identifier = identifier :=
  ⟨List.mem_of_find?_eq_some known, by simpa using List.find?_some known⟩

/-- Whether a catalog lists plain exports only. -/
def IsPlain (catalog : Catalog) : Prop :=
  ∀ found ∈ catalog.exports, found.IsPlain

/-- The characters of a listed export are looked at as those of the literals that list it. -/
theorem isPlain_literals {identifier module : String} {letters quoted : Text} {kind : ExportKind}
    (isIdentifier : identifier = String.ofList letters) (isModule : module = String.ofList quoted)
    (names : letters.all Character.continuesName = true)
    (quotes : (quoted.all fun c => decide (c ≠ '\\' ∧ c ≠ '\x27' ∧ c ≠ '\n')) = true) :
    Export.IsPlain ⟨identifier.toList, module.toList, kind⟩ := by
  subst isIdentifier isModule
  rw [String.toList_ofList, String.toList_ofList]
  exact ⟨List.all_eq_true.mp names, Text.forall_mem_of_all quotes⟩

theorem isPlain_packaged (framework : Framework) : (packaged framework).IsPlain := by
  cases framework <;>
    simp only [IsPlain, packaged, reactThreeFiber, reactylon, threejs, babylonjs, listing,
      List.map_cons, List.map_nil, List.cons_append, List.nil_append, List.forall_mem_cons] <;>
    and_intros <;>
    first
      | exact isPlain_literals rfl rfl rfl rfl
      | exact fun _ member => absurd member List.not_mem_nil

/-! ## Exports that are read back -/

/-- A catalog of plain exports, each a name from a module that is no former name of another, of which a
module has at most one default export and one namespace. -/
structure IsImportable (catalog : Catalog) : Prop where
  plain : catalog.IsPlain
  areNames : ∀ found ∈ catalog.exports, Imports.IsName found.identifier
  published : ∀ found ∈ catalog.exports, catalog.canonicalModule found.module = found.module
  single : ∀ first ∈ catalog.exports, ∀ second ∈ catalog.exports, first.kind ≠ .asNamed →
    first.kind = second.kind → first.module = second.module → first = second

/-! ## Listed exports -/

section Listings

variable {module : String} {kind : ExportKind} {identifiers : List String}

theorem forall_mem_listing {holds : Export -> Prop} :
    (∀ found ∈ listing module kind identifiers, holds found) ↔
      ∀ identifier ∈ identifiers, holds ⟨identifier.toList, module.toList, kind⟩ :=
  List.forall_mem_map

theorem filter_listing (other : ExportKind) :
    (listing module kind identifiers).filter (·.kind == other) =
      if kind = other then listing module kind identifiers else [] := by
  split
  next same =>
    exact List.filter_eq_self.mpr (forall_mem_listing.mpr fun _ _ => beq_iff_eq.mpr same)
  next different =>
    exact List.filter_eq_nil_iff.mpr (forall_mem_listing.mpr fun _ _ => mt beq_iff_eq.mp different)

/-- A module that is not among the former names keeps its own. -/
theorem canonicalModule_eq_self {catalog : Catalog} {pairs : List (String × String)}
    (aliases : catalog.moduleAliases = renamings pairs) (other : ∀ pair ∈ pairs, pair.1 ≠ module) :
    catalog.canonicalModule module.toList = module.toList := by
  have unlisted : catalog.moduleAliases.lookup module.toList = none := by
    rw [aliases, List.lookup_eq_none_iff]
    refine List.forall_mem_map.mpr fun pair member => bne_iff_ne.mpr fun same => ?_
    exact other pair member (String.toList_injective same).symm
  rw [canonicalModule, unlisted]
  rfl

theorem published_listing {catalog : Catalog} {pairs : List (String × String)}
    (aliases : catalog.moduleAliases = renamings pairs) (other : ∀ pair ∈ pairs, pair.1 ≠ module) :
    ∀ found ∈ listing module kind identifiers,
      catalog.canonicalModule found.module = found.module :=
  forall_mem_listing.mpr fun _ _ => canonicalModule_eq_self aliases other

end Listings

/-! ## Packaged catalogs -/

theorem published_packaged (framework : Framework) :
    ∀ found ∈ (packaged framework).exports,
      (packaged framework).canonicalModule found.module = found.module := by
  cases framework
  all_goals
    simp only [packaged, reactThreeFiber, reactylon, threejs, babylonjs, List.forall_mem_append]
    and_intros
  all_goals exact published_listing rfl (by decide)

/-- The listed characters are looked at as those of the literal that lists them. -/
theorem startsName_literal {identifier : String} {first : Char} {rest : Text}
    (isIdentifier : identifier = String.ofList (first :: rest))
    (starts : Character.startsName first = true) :
    ∃ c others, identifier.toList = c :: others ∧ Character.startsName c = true := by
  rw [isIdentifier, String.toList_ofList]
  exact ⟨first, rest, rfl, starts⟩

theorem areNames_packaged (framework : Framework) :
    ∀ found ∈ (packaged framework).exports, Imports.IsName found.identifier := by
  intro found member
  refine ⟨?_, (isPlain_packaged framework found member).isNameText⟩
  revert found
  cases framework
  all_goals
    simp only [packaged, reactThreeFiber, reactylon, threejs, babylonjs, List.forall_mem_append,
      forall_mem_listing, List.forall_mem_cons]
    and_intros
  all_goals
    first
      | exact startsName_literal rfl rfl
      | exact fun _ member => absurd member List.not_mem_nil

theorem single_of_nodup {catalog : Catalog}
    (nodup : ∀ kind, kind ≠ .asNamed →
      ((catalog.exports.filter (·.kind == kind)).map (·.module)).Nodup) :
    ∀ first ∈ catalog.exports, ∀ second ∈ catalog.exports, first.kind ≠ .asNamed →
      first.kind = second.kind → first.module = second.module → first = second := by
  intro first isFirst second isSecond notNamed sameKind sameModule
  refine List.inj_on_of_nodup_map (nodup first.kind notNamed) ?_ ?_ sameModule
  · exact List.mem_filter.mpr ⟨isFirst, beq_self_eq_true _⟩
  · exact List.mem_filter.mpr ⟨isSecond, beq_iff_eq.mpr sameKind.symm⟩

theorem isImportable_packaged (framework : Framework) : (packaged framework).IsImportable where
  plain := isPlain_packaged framework
  areNames := areNames_packaged framework
  published := published_packaged framework
  single := by
    refine single_of_nodup fun kind notNamed => ?_
    cases framework <;> cases kind
    all_goals
      simp [packaged, reactThreeFiber, reactylon, threejs, babylonjs, filter_listing] at *
    all_goals simp [listing]

end Catalog

end SceneBundler
