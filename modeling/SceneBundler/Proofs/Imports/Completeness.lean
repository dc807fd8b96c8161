import SceneBundler.Proofs.Imports.FixedPoint
import SceneBundler.Proofs.Source.TagScan

/-!
Contract: the imports of a resolved source against the tags it shows and the names it declares.

Owns:
- which identifiers a manifest lists: what is imported in any case, and what the source uses and does not
  declare;
- the tags of a resolved source that need an import, those within the attributes of another tag included;
- that each of them has its import just if those within another tag are used somewhere else as well;
- that a declared name is imported only where the catalog imports it in any case, and a source that
  declares such a name.

Does not own: what the removals and renamings of a resolution leave.
-/

namespace SceneBundler

namespace Source.Tag

/-- A tag that is recognised in a masked text is recognised behind text that ends in no name. -/
theorem IsRecognised.behind {masked heading : Text} {tag : Tag} (isRecognised : IsRecognised masked tag)
    (apart : heading.getLast?.any Character.continuesName = false) :
    IsRecognised (heading ++ masked) (tag.moved heading.length) := by
  obtain ⟨passed, ahead, split, isTag⟩ := isRecognised
  have alike : (heading ++ passed).getLast?.any Character.continuesName =
      passed.getLast?.any Character.continuesName := by
    rw [List.getLast?_append]
    cases passed.getLast? with
    | none => exact apart
    | some c => rfl
  refine ⟨heading ++ passed, ahead, by rw [split, List.append_assoc], ?_⟩
  rw [List.length_append, at?_moved heading.length passed.length alike, isTag]
  rfl

theorem isRecognised_of_getElem? {masked : Text} {offset : Nat} {tag : Tag}
    (isLess : masked[offset]? = some '<')
    (isTag : at? (masked.take offset).getLast? (masked.take offset).length (masked.drop (offset + 1)) =
      some tag) : IsRecognised masked tag := by
  refine ⟨masked.take offset, masked.drop (offset + 1), ?_, isTag⟩
  obtain ⟨inside, isThere⟩ := List.getElem?_eq_some_iff.mp isLess
  rw [← isThere, List.getElem_cons_drop, List.take_append_drop]

end Source.Tag

namespace Imports

open Source (mask Tag)

variable {catalog : Catalog} {text : Text}

/-! ## What a manifest lists -/

/-- The names that a source declares itself, apart from its imports. -/
def ownNames (catalog : Catalog) (text : Text) : List Text :=
  declaredNames (mask (removeStatements text catalog).1)

theorem manifest_resolve (catalog : Catalog) (text : Text) :
    (resolve catalog text).manifest =
      manifestOf catalog (((usedIdentifiers (mask (remains catalog text))).filter fun identifier =>
        !(ownNames catalog text).contains identifier) ++ catalog.implicitImports) := by
  unfold resolve remains ownNames
  obtain ⟨written, statements⟩ := removeStatements text catalog
  dsimp only

/-- A name of the catalog that a source does not declare is imported just if it is imported in any case
or used. -/
theorem mem_identifiers_resolve_iff {identifier : Text} (provided : catalog.provides identifier = true)
    (undeclared : identifier ∉ ownNames catalog text) :
    identifier ∈ (resolve catalog text).manifest.identifiers ↔
      identifier ∈ catalog.implicitImports ∨ identifier ∈ usedIdentifiers (mask (remains catalog text)) := by
  rw [manifest_resolve, mem_identifiers_manifestOf, List.mem_append, List.mem_filter]
  simp only [List.contains_eq_mem, Bool.not_eq_true', decide_eq_false_iff_not]
  constructor
  · rintro ⟨⟨isUsed, _⟩ | isImplicit, _⟩
    · exact Or.inr isUsed
    · exact Or.inl isImplicit
  · rintro (isImplicit | isUsed)
    · exact ⟨Or.inr isImplicit, provided⟩
    · exact ⟨Or.inl ⟨isUsed, undeclared⟩, provided⟩

/-- Whether a masked source uses an identifier otherwise than in a tag: it is called, has a member, is
one of several values, or is extended. -/
def Mentions (masked identifier : Text) : Prop :=
  ∃ pattern ∈ [call, memberAccess, valueReference, extendsClause],
    ∃ found ∈ pattern.all masked, found.captured masked 1 = identifier

/-- Whether a tag opens an element of a component. -/
def OpensComponent (tag : Tag) : Prop :=
  tag.kind ≠ .closing ∧ tag.isComponent = true

theorem mem_usedIdentifiers_iff {masked identifier : Text} :
    identifier ∈ usedIdentifiers masked ↔
      (∃ tag ∈ Tag.scan masked, OpensComponent tag ∧ tag.rootIdentifier = identifier) ∨
        Mentions masked identifier := by
  unfold usedIdentifiers Mentions OpensComponent
  dsimp only
  simp only [List.mem_append, List.mem_map, List.mem_filter, List.mem_flatMap, Bool.and_eq_true,
    bne_iff_ne, and_assoc]

/-! ## Tags of a resolved source -/

/-- The tags of a resolved source are those that the removals and renamings leave, moved behind the
imports. -/
theorem exists_scan_resolve (plain : catalog.IsPlain) (text : Text) :
    ∃ (scanned : List Tag) (distance passed : Nat),
      Tag.scan (mask (resolve catalog text).text) = scanned.map (Tag.moved distance) ∧
      Tag.scan (mask (remains catalog text)) = scanned.map (Tag.moved passed) := by
  obtain ⟨identifiers, resolved⟩ := exists_prependBlock catalog text
  obtain ⟨heading, shown, isHeading, level, written⟩ :=
    exists_isHeading_prependBlock plain identifiers (remains catalog text)
  obtain ⟨breaks, allBreaks, split⟩ := exists_breaks (remains catalog text)
  refine ⟨Tag.scan (mask (withoutLeadingBreaks (remains catalog text))), shown.length, breaks.length, ?_, ?_⟩
  · rw [resolved, written]
    exact Balance.scan_mask_append_heading isHeading level _
  · have scanned := Balance.scan_mask_append_heading (Source.isHeading_breaks allBreaks)
      (level_breaks allBreaks) (withoutLeadingBreaks (remains catalog text))
    rwa [← split] at scanned

/-- The scan of a resolved source opens the same components as that of what was left to import for. -/
theorem exists_mem_scan_resolve_iff (plain : catalog.IsPlain) {identifier : Text} :
    (∃ tag ∈ Tag.scan (mask (resolve catalog text).text),
        OpensComponent tag ∧ tag.rootIdentifier = identifier) ↔
      ∃ tag ∈ Tag.scan (mask (remains catalog text)),
        OpensComponent tag ∧ tag.rootIdentifier = identifier := by
  obtain ⟨scanned, distance, passed, ofResolved, ofRemains⟩ := exists_scan_resolve plain text
  rw [ofResolved, ofRemains]
  simp only [List.mem_map, exists_exists_and_eq_and]
  rfl

/-- A tag of a resolved source that needs an import: wherever it stands, it opens an element of a
component that the catalog provides and the source does not declare. -/
structure NeedsImport (catalog : Catalog) (text : Text) (tag : Tag) : Prop where
  recognised : tag.IsRecognised (mask (resolve catalog text).text)
  opens : OpensComponent tag
  provided : catalog.provides tag.rootIdentifier = true
  undeclared : tag.rootIdentifier ∉ ownNames catalog text

/-- Whether every tag of a resolved source that needs an import has it. -/
def ImportsTags (catalog : Catalog) (text : Text) : Prop :=
  ∀ tag, NeedsImport catalog text tag →
    tag.rootIdentifier ∈ (resolve catalog text).manifest.identifiers

/-- A tag within no other one has its import. -/
theorem mem_identifiers_of_outer (plain : catalog.IsPlain) {tag : Tag} (needs : NeedsImport catalog text tag)
    (outer : ∀ other ∈ Tag.scan (mask (resolve catalog text).text), ¬tag.BeginsWithin other) :
    tag.rootIdentifier ∈ (resolve catalog text).manifest.identifiers := by
  have isScanned := Tag.mem_scan_iff.mpr ⟨needs.recognised, outer⟩
  have isUsed := (exists_mem_scan_resolve_iff plain).mp ⟨tag, isScanned, needs.opens, rfl⟩
  exact (mem_identifiers_resolve_iff needs.provided needs.undeclared).mpr
    (Or.inr (mem_usedIdentifiers_iff.mpr (Or.inl isUsed)))

theorem isRecognised_resolve (plain : catalog.IsPlain) {tag : Tag}
    (isRecognised : tag.IsRecognised (mask (withoutLeadingBreaks (remains catalog text)))) :
    ∃ distance, (tag.moved distance).IsRecognised (mask (resolve catalog text).text) := by
  obtain ⟨identifiers, resolved⟩ := exists_prependBlock catalog text
  obtain ⟨heading, shown, isHeading, _, written⟩ :=
    exists_isHeading_prependBlock plain identifiers (remains catalog text)
  rw [resolved, written, isHeading.mask_append]
  exact ⟨shown.length, isRecognised.behind isHeading.apart⟩

/-- Every tag of a resolved source that needs an import has it, just if this holds for the tags within
the attributes of another tag.  Such a tag has its import only if its component is imported in any case,
if a tag within no other one needs the same import, or if the component is used otherwise than in a
tag. -/
theorem importsTags_iff (plain : catalog.IsPlain) (text : Text) :
    ImportsTags catalog text ↔ ∀ tag, NeedsImport catalog text tag →
      ∀ outer ∈ Tag.scan (mask (resolve catalog text).text), tag.BeginsWithin outer →
        tag.rootIdentifier ∈ catalog.implicitImports ∨
        (∃ other ∈ Tag.scan (mask (resolve catalog text).text),
          NeedsImport catalog text other ∧ other.rootIdentifier = tag.rootIdentifier) ∨
        Mentions (mask (remains catalog text)) tag.rootIdentifier := by
  constructor
  · intro complete tag needs outer _ _
    have isListed := complete tag needs
    rw [mem_identifiers_resolve_iff needs.provided needs.undeclared, mem_usedIdentifiers_iff,
      ← exists_mem_scan_resolve_iff plain] at isListed
    rcases isListed with isImplicit | ⟨other, isScanned, opens, sameRoot⟩ | isMentioned
    · exact Or.inl isImplicit
    · have otherNeeds : NeedsImport catalog text other :=
        ⟨Tag.isRecognised_of_mem_scan isScanned, opens, sameRoot ▸ needs.provided,
          sameRoot ▸ needs.undeclared⟩
      exact Or.inr (Or.inl ⟨other, isScanned, otherNeeds, sameRoot⟩)
    · exact Or.inr (Or.inr isMentioned)
  · intro innerListed tag needs
    by_cases inner : ∃ outer ∈ Tag.scan (mask (resolve catalog text).text), tag.BeginsWithin outer
    · obtain ⟨outer, isOuter, within⟩ := inner
      rw [mem_identifiers_resolve_iff needs.provided needs.undeclared, mem_usedIdentifiers_iff,
        ← exists_mem_scan_resolve_iff plain]
      rcases innerListed tag needs outer isOuter within with
        isImplicit | ⟨other, isScanned, otherNeeds, sameRoot⟩ | isMentioned
      · exact Or.inl isImplicit
      · exact Or.inr (Or.inl ⟨other, isScanned, otherNeeds.opens, sameRoot⟩)
      · exact Or.inr (Or.inr isMentioned)
    · exact mem_identifiers_of_outer plain needs fun outer isOuter within => inner ⟨outer, isOuter, within⟩

/-! ## A tag within an attribute -/

/-- A scene with something to show while it is loaded. -/
def fallbackScene : Text :=
  "const App = () => <Canvas fallback={<Loader />} />;\n".toList

/-- The tag within the attribute. -/
def loaderTag : Tag :=
  ⟨"Loader".toList, 36, 46, .selfClosing⟩

theorem importsTags_iff_fallbackScene :
    (Catalog.packaged .reactThreeFiber).IsPlain ∧
    (ImportsTags (Catalog.packaged .reactThreeFiber) fallbackScene ↔
      ∀ tag, NeedsImport (Catalog.packaged .reactThreeFiber) fallbackScene tag →
        ∀ outer ∈ Tag.scan (mask (resolve (Catalog.packaged .reactThreeFiber) fallbackScene).text),
          tag.BeginsWithin outer →
            tag.rootIdentifier ∈ (Catalog.packaged .reactThreeFiber).implicitImports ∨
            (∃ other ∈ Tag.scan (mask (resolve (Catalog.packaged .reactThreeFiber) fallbackScene).text),
              NeedsImport (Catalog.packaged .reactThreeFiber) fallbackScene other ∧
                other.rootIdentifier = tag.rootIdentifier) ∨
            Mentions (mask (remains (Catalog.packaged .reactThreeFiber) fallbackScene))
              tag.rootIdentifier) :=
  have plain := Catalog.isPlain_packaged .reactThreeFiber
  ⟨plain, importsTags_iff plain fallbackScene⟩

set_option maxRecDepth 4096 in
theorem mask_fallbackScene : mask fallbackScene = fallbackScene := by decide

set_option maxRecDepth 4096 in
theorem scan_fallbackScene : Tag.scan fallbackScene = [⟨"Canvas".toList, 18, 50, .selfClosing⟩] := by
  decide

set_option maxRecDepth 4096 in
theorem removeStatements_fallbackScene (catalog : Catalog) :
    removeStatements fallbackScene catalog = (fallbackScene, []) := by
  have noImports : statementHead.occursIn (mask fallbackScene) = false := by
    rw [mask_fallbackScene]
    decide
  exact removeStatements_of_not_occursIn noImports

theorem provides_loader : (Catalog.packaged .reactThreeFiber).provides "Loader".toList = true := by
  refine provides_of_mem ⟨"Loader".toList, "@react-three/drei".toList, .asNamed⟩ ?_
  exact List.mem_append_left _ (List.mem_append_left _ (List.mem_append_left _ (List.mem_append_left _
    (List.mem_append_left _ (List.mem_map.mpr ⟨"Loader", by decide, rfl⟩)))))

set_option maxRecDepth 4096 in
/-- The loader within the attribute of the canvas needs an import, and has none. -/
theorem not_importsTags_fallbackScene :
    ¬ImportsTags (Catalog.packaged .reactThreeFiber) fallbackScene := by
  intro complete
  have removed := removeStatements_fallbackScene (Catalog.packaged .reactThreeFiber)
  have isRemains : remains (Catalog.packaged .reactThreeFiber) fallbackScene = fallbackScene := by
    refine remains_of_known removed rfl fun tag isTag => ?_
    rw [mask_fallbackScene, scan_fallbackScene, List.mem_singleton] at isTag
    have root : tag.rootIdentifier = "Canvas".toList := by
      rw [isTag]
      decide
    rw [isHallucinated, root, provides_canvas]
    simp
  have undeclared : "Loader".toList ∉ ownNames (Catalog.packaged .reactThreeFiber) fallbackScene := by
    rw [ownNames, removed, mask_fallbackScene]
    decide
  have isRecognised : loaderTag.IsRecognised (mask (withoutLeadingBreaks
      (remains (Catalog.packaged .reactThreeFiber) fallbackScene))) := by
    rw [isRemains]
    change loaderTag.IsRecognised (mask fallbackScene)
    rw [mask_fallbackScene]
    exact @Tag.isRecognised_of_getElem? fallbackScene 36 loaderTag rfl (by decide)
  obtain ⟨distance, inResolved⟩ := isRecognised_resolve (Catalog.isPlain_packaged _) isRecognised
  -- Where a tag stands makes no difference to what it opens.
  have opens : OpensComponent (loaderTag.moved distance) :=
    show OpensComponent loaderTag from ⟨by decide, by decide⟩
  have root : (loaderTag.moved distance).rootIdentifier = "Loader".toList :=
    show loaderTag.rootIdentifier = "Loader".toList by decide
  have isListed := complete _ ⟨inResolved, opens, root ▸ provides_loader, root ▸ undeclared⟩
  rw [root, mem_identifiers_resolve_iff provides_loader undeclared, isRemains, mask_fallbackScene] at isListed
  rcases isListed with isImplicit | isUsed
  · exact absurd isImplicit (by decide)
  · exact absurd isUsed (by decide)

end Imports

end SceneBundler

namespace SceneBundler.Imports

open Source (mask)

variable {catalog : Catalog} {text : Text}

end SceneBundler.Imports
