import SceneBundler.Imports.Resolution
import SceneBundler.Proofs.Catalog.Importable
import SceneBundler.Proofs.Text.Ordered

/-!
Contract: what manifests list.

Owns:
- the identifiers of a manifest that was put together from pairs, by module and as a whole;
- that the manifest of a resolved source lists identifiers of the catalog under their own modules, none
  of them twice, and what is imported in any case.

Does not own: the statements that import them.
-/

namespace SceneBundler

namespace Manifest

variable {pairs : List (Text × List Text)}

theorem mem_gathered {module identifier : Text} :
    identifier ∈ gathered pairs module ↔ ∃ given, (module, given) ∈ pairs ∧ identifier ∈ given := by
  rw [gathered, Text.mem_sortedSet, List.mem_flatMap]
  constructor
  · rintro ⟨⟨other, given⟩, isPair, inGiven⟩
    obtain ⟨listed, sameModule⟩ := List.mem_filter.mp isPair
    obtain rfl : other = module := beq_iff_eq.mp sameModule
    exact ⟨given, listed, inGiven⟩
  · rintro ⟨given, listed, inGiven⟩
    exact ⟨(module, given), List.mem_filter.mpr ⟨listed, beq_self_eq_true module⟩, inGiven⟩

theorem eq_gathered_of_mem_ofPairs {entry : Text × List Text} (isEntry : entry ∈ (ofPairs pairs).modules) :
    entry.2 = gathered pairs entry.1 := by
  obtain ⟨module, _, rfl⟩ := List.mem_map.mp (List.mem_filter.mp isEntry).1
  rfl

theorem mem_ofPairs {module identifier : Text} (member : identifier ∈ gathered pairs module) :
    (module, gathered pairs module) ∈ (ofPairs pairs).modules := by
  obtain ⟨given, listed, _⟩ := mem_gathered.mp member
  have isModule : module ∈ Text.sortedSet (pairs.map (·.1)) :=
    Text.mem_sortedSet.mpr (List.mem_map.mpr ⟨_, listed, rfl⟩)
  refine List.mem_filter.mpr ⟨List.mem_map.mpr ⟨module, isModule, rfl⟩, ?_⟩
  have nonempty := List.ne_nil_of_mem member
  dsimp only
  cases same : gathered pairs module with
  | nil => contradiction
  | cons first rest => rfl

theorem mem_identifiers_ofPairs {identifier : Text} :
    identifier ∈ (ofPairs pairs).identifiers ↔ ∃ pair ∈ pairs, identifier ∈ pair.2 := by
  rw [identifiers, Text.mem_sortedSet, List.mem_flatMap]
  constructor
  · rintro ⟨entry, isEntry, inEntry⟩
    rw [eq_gathered_of_mem_ofPairs isEntry] at inEntry
    obtain ⟨given, listed, inGiven⟩ := mem_gathered.mp inEntry
    exact ⟨_, listed, inGiven⟩
  · rintro ⟨⟨module, given⟩, listed, inGiven⟩
    have member := mem_gathered.mpr ⟨given, listed, inGiven⟩
    exact ⟨_, mem_ofPairs member, member⟩

end Manifest

namespace Imports

/-- A manifest that lists identifiers of a catalog, each under its own module and none of them twice
there. -/
structure IsOver (catalog : Catalog) (manifest : Manifest) : Prop where
  own : ∀ entry ∈ manifest.modules, ∀ identifier ∈ entry.2,
    ∃ found, catalog.lookup identifier = some found ∧ found.module = entry.1
  once : ∀ entry ∈ manifest.modules, entry.2.Nodup

section Used

variable {catalog : Catalog} {identifiers : List Text}

theorem mem_pairs_iff {pair : Text × List Text} :
    pair ∈ (identifiers.filterMap catalog.lookup).map (fun found => (found.module, [found.identifier])) ↔
      ∃ identifier ∈ identifiers, ∃ found, catalog.lookup identifier = some found ∧
        pair = (found.module, [identifier]) := by
  rw [List.mem_map]
  constructor
  · rintro ⟨found, isFound, rfl⟩
    obtain ⟨identifier, isGiven, provided⟩ := List.mem_filterMap.mp isFound
    exact ⟨identifier, isGiven, found, provided, by rw [(Catalog.mem_of_lookup provided).2]⟩
  · rintro ⟨identifier, isGiven, found, provided, rfl⟩
    refine ⟨found, List.mem_filterMap.mpr ⟨identifier, isGiven, provided⟩, ?_⟩
    rw [(Catalog.mem_of_lookup provided).2]

theorem isOver_manifestOf : IsOver catalog (manifestOf catalog identifiers) where
  own := by
    intro entry isEntry identifier member
    rw [Manifest.eq_gathered_of_mem_ofPairs isEntry] at member
    obtain ⟨given, listed, inGiven⟩ := Manifest.mem_gathered.mp member
    obtain ⟨used, _, found, provided, same⟩ := mem_pairs_iff.mp listed
    obtain ⟨sameModule, rfl⟩ := Prod.mk.inj same
    rw [List.mem_singleton.mp inGiven]
    exact ⟨found, provided, sameModule.symm⟩
  once := by
    intro entry isEntry
    rw [Manifest.eq_gathered_of_mem_ofPairs isEntry]
    exact Text.nodup_sortedSet _

theorem mem_identifiers_manifestOf {identifier : Text} :
    identifier ∈ (manifestOf catalog identifiers).identifiers ↔
      identifier ∈ identifiers ∧ catalog.provides identifier = true := by
  rw [manifestOf, Manifest.mem_identifiers_ofPairs]
  constructor
  · rintro ⟨pair, listed, inPair⟩
    obtain ⟨used, isUsed, found, provided, rfl⟩ := mem_pairs_iff.mp listed
    rw [List.mem_singleton.mp inPair, Catalog.provides, provided]
    exact ⟨isUsed, rfl⟩
  · rintro ⟨isUsed, provided⟩
    obtain ⟨found, isFound⟩ := Option.isSome_iff_exists.mp provided
    exact ⟨_, mem_pairs_iff.mpr ⟨identifier, isUsed, found, isFound, rfl⟩, List.mem_singleton_self _⟩

end Used

theorem exists_manifestOf_resolve (catalog : Catalog) (text : Text) :
    ∃ used, (resolve catalog text).manifest = manifestOf catalog (used ++ catalog.implicitImports) := by
  unfold resolve
  obtain ⟨written, statements⟩ := removeStatements text catalog
  dsimp only
  generalize renameIntrinsicTags catalog _ _ = intrinsic
  obtain ⟨body, hallucinated⟩ := removeHallucinated catalog _ intrinsic
  exact ⟨_, rfl⟩

/-- What is imported in any case is listed, if the catalog provides it. -/
theorem mem_identifiers_of_mem_implicitImports {catalog : Catalog} (text : Text) {identifier : Text}
    (implicit : identifier ∈ catalog.implicitImports) (provided : catalog.provides identifier = true) :
    identifier ∈ (resolve catalog text).manifest.identifiers := by
  obtain ⟨used, isManifest⟩ := exists_manifestOf_resolve catalog text
  rw [isManifest, mem_identifiers_manifestOf]
  exact ⟨List.mem_append_right used implicit, provided⟩

end Imports

end SceneBundler
