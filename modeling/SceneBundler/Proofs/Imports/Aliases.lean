import SceneBundler.Proofs.Imports.Elements

/-!
Contract: the imported names that a resolution takes back to the catalog's.

Owns:
- that such a name is left by a resolution only where a lone colon followed it, and that no element is
  removed for it elsewhere.

Does not own: sources that are read otherwise after a step of their resolution.
-/

namespace SceneBundler.Imports

open Source (mask Tag)

/-! ## The steps of a resolution -/

/-- A source without its imports. -/
def unimported (catalog : Catalog) (text : Text) : Text :=
  (removeStatements text catalog).1

/-- The names that are renamed throughout a source, and what takes their place. -/
def renamings (catalog : Catalog) (text : Text) : List (Text × Text) :=
  renamingsOf catalog (ownNames catalog text) (removeStatements text catalog).2

/-- A source without its imports whose imported names are the catalog's again. -/
def recovered (catalog : Catalog) (text : Text) : Text :=
  recoverAliases catalog (ownNames catalog text) (removeStatements text catalog).2 (unimported catalog text)

/-- Such a source with the intrinsic names of its tags. -/
def retagged (catalog : Catalog) (text : Text) : Text :=
  renameIntrinsicTags catalog (ownNames catalog text) (recovered catalog text)

variable {catalog : Catalog} {text : Text}

theorem remains_eq (catalog : Catalog) (text : Text) :
    remains catalog text = (removeHallucinated catalog (ownNames catalog text) (retagged catalog text)).1 :=
  rfl

theorem recovered_eq {entry : Text × Text} (isRenaming : entry ∈ renamings catalog text) :
    recovered catalog text =
      Edit.applyAll (renamingEdits (mask (unimported catalog text)) (renamings catalog text))
        (unimported catalog text) := by
  have nonempty : ¬(renamings catalog text).isEmpty = true := by
    rw [List.isEmpty_iff]
    exact List.ne_nil_of_mem isRenaming
  exact if_neg nonempty

/-- Whether no step of a resolution changes how the rest of a source is read. -/
structure ReadsAlike (catalog : Catalog) (text : Text) : Prop where
  names : mask (recovered catalog text) =
    Edit.applyAll (renamingEdits (mask (unimported catalog text)) (renamings catalog text))
      (mask (unimported catalog text))
  tags : mask (retagged catalog text) =
    Edit.applyAll (intrinsicEdits catalog (ownNames catalog text) (mask (recovered catalog text)))
      (mask (recovered catalog text))
  elements : mask (remains catalog text) =
    Edit.applyAll (elementRemovals catalog (ownNames catalog text) (mask (retagged catalog text)))
      (mask (retagged catalog text))

/-- Whether the names that are renamed throughout a source, and the tags that get other names, have
names. -/
structure RenamesNames (catalog : Catalog) (text : Text) : Prop where
  imported : ∀ entry ∈ renamings catalog text, IsName entry.1
  tags : ∀ entry ∈ catalog.intrinsicAliases, entry.1 ≠ []

/-- A name that is taken back to the catalog's, and that nothing puts in for another name. -/
structure IsTakenBack (catalog : Catalog) (text name : Text) : Prop where
  isRenamed : ∃ statement ∈ (removeStatements text catalog).2, ∃ binding ∈ statement.bindings,
    ∃ target, renaming? catalog (ownNames catalog text) binding = some (name, target)
  notPut : ∀ entry ∈ renamings catalog text, ¬UsesName name entry.2
  notIntrinsic : ∀ entry ∈ catalog.intrinsicAliases, ¬UsesName name entry.2

/-- Whether a name stands on its own behind a beginning of a text, in front of a lone colon. -/
def IsKeyBehind (name masked front : Text) : Prop :=
  (∃ back, StandsIn name [] masked [] front back) ∧ isObjectKey masked (front.length + name.length) = true

theorem mem_renamings {name : Text} (takenBack : IsTakenBack catalog text name) :
    ∃ target, (name, target) ∈ renamings catalog text := by
  obtain ⟨statement, isStatement, binding, isBinding, target, renames⟩ := takenBack.isRenamed
  exact ⟨target, List.mem_filterMap.mpr ⟨binding, List.mem_flatMap.mpr ⟨statement, isStatement, isBinding⟩,
    renames⟩⟩

theorem mem_of_isObjectKey {masked : Text} {stop : Nat} (isKey : isObjectKey masked stop = true) :
    ':' ∈ masked :=
  List.mem_of_getElem? (beq_iff_eq.mp (Bool.and_eq_true_iff.mp isKey).1)

section TakenBack

variable {name : Text}

theorem isName_of_isTakenBack (renamesNames : RenamesNames catalog text)
    (takenBack : IsTakenBack catalog text name) : IsName name := by
  obtain ⟨target, isRenaming⟩ := mem_renamings takenBack
  exact renamesNames.imported _ isRenaming

theorem usesName_recovered_iff (alike : ReadsAlike catalog text) (renamesNames : RenamesNames catalog text)
    (takenBack : IsTakenBack catalog text name) :
    UsesName name (mask (recovered catalog text)) ↔
      ∃ front, IsKeyBehind name (mask (unimported catalog text)) front := by
  obtain ⟨target, isRenaming⟩ := mem_renamings takenBack
  rw [alike.names, usesName_renamed_iff renamesNames.imported (List.mem_map.mpr ⟨_, isRenaming, rfl⟩)
    takenBack.notPut]
  simp only [IsKeyBehind, exists_and_right]

/-- What stands where tags have their intrinsic names stood in front of a lone colon, behind the same
character. -/
theorem exists_isKeyBehind_of_retagged (alike : ReadsAlike catalog text)
    (renamesNames : RenamesNames catalog text) (takenBack : IsTakenBack catalog text name) {front back : Text}
    (stands : StandsIn name [] (mask (retagged catalog text)) [] front back) :
    ∃ place, IsKeyBehind name (mask (unimported catalog text)) place ∧ front.getLast? = place.getLast? := by
  have isName := isName_of_isTakenBack renamesNames takenBack
  have keeps := @keepsNames_intrinsicEdits catalog (ownNames catalog text) (mask (recovered catalog text))
    renamesNames.tags
  have notPut : ∀ edit ∈ intrinsicEdits catalog (ownNames catalog text) (mask (recovered catalog text)),
      ¬UsesName name edit.replacement := by
    intro edit member
    obtain ⟨_, _, _, _, _, _, _, _, _, _, entry, isEntry, isPut⟩ :=
      exists_tag_of_mem_intrinsicEdits renamesNames.tags member
    rw [isPut]
    exact takenBack.notIntrinsic entry isEntry
  rw [alike.tags] at stands
  obtain ⟨middle, following, standsMiddle, sameMiddle, _⟩ := Edit.exists_stands_behind_of_applyAll isName.ne_nil
    isName.isNameText (fun edit member => (keeps edit member).1) (fun edit member => (keeps edit member).2)
    notPut stands
  obtain ⟨target, isRenaming⟩ := mem_renamings takenBack
  rw [alike.names] at standsMiddle
  obtain ⟨place, rest, standsThere, same, isKey⟩ := exists_isObjectKey_of_stands renamesNames.imported
    (List.mem_map.mpr ⟨_, isRenaming, rfl⟩) takenBack.notPut standsMiddle
  exact ⟨place, ⟨⟨rest, standsThere⟩, isKey⟩, sameMiddle.trans same⟩

/-- An element is removed for such a name only if a lone colon followed the name in the element's tag. -/
theorem exists_isKeyBehind_of_isHallucinated (alike : ReadsAlike catalog text)
    (renamesNames : RenamesNames catalog text) (takenBack : IsTakenBack catalog text name) {tag : Tag}
    (member : tag ∈ Tag.scan (mask (retagged catalog text)))
    (removed : isHallucinated catalog (ownNames catalog text) tag = true) (isRoot : tag.rootIdentifier = name) :
    ∃ front, IsKeyBehind name (mask (unimported catalog text)) front ∧ front.getLast? = some '<' := by
  have opens : tag.kind ≠ .closing := by
    intro closes
    simp [isHallucinated, closes] at removed
  obtain ⟨front, back, stands, behind⟩ := exists_stands_rootIdentifier member opens
  rw [isRoot] at stands
  obtain ⟨place, isKey, same⟩ := exists_isKeyBehind_of_retagged alike renamesNames takenBack stands
  exact ⟨place, isKey, same.symm.trans behind⟩

theorem exists_isKeyBehind_of_usesName_remains (alike : ReadsAlike catalog text)
    (renamesNames : RenamesNames catalog text) (takenBack : IsTakenBack catalog text name)
    (uses : UsesName name (mask (remains catalog text))) :
    ∃ front, IsKeyBehind name (mask (unimported catalog text)) front := by
  have isName := isName_of_isTakenBack renamesNames takenBack
  obtain ⟨front, back, stands⟩ := uses
  rw [alike.elements] at stands
  rcases Edit.exists_stands_of_applyAll isName.ne_nil isName.isNameText keepsNames_elementRemovals stands with
    ⟨place, following, standsThere, _⟩ | ⟨edit, member, puts⟩
  · obtain ⟨first, isKey, _⟩ := exists_isKeyBehind_of_retagged alike renamesNames takenBack standsThere
    exact ⟨first, isKey⟩
  · obtain ⟨front, back, standsPut⟩ := puts
    have split := standsPut.split
    rw [replacement_of_mem_elementRemovals member] at split
    exact absurd split.symm (by simp [isName.ne_nil])

theorem usesName_withoutLeadingBreaks {body : Text} (uses : UsesName name (mask (withoutLeadingBreaks body))) :
    UsesName name (mask body) := by
  obtain ⟨front, back, stands⟩ := uses
  obtain ⟨breaks, allBreaks, split⟩ := exists_breaks body
  rw [split, (Source.isHeading_breaks allBreaks).mask_append]
  refine ⟨breaks ++ front, back, ⟨by rw [stands.split]; simp, ?_, stands.whole⟩⟩
  have free := stands.free
  rw [List.nil_append] at free ⊢
  rw [List.getLast?_append]
  cases isLast : front.getLast? with
  | some c => rwa [isLast] at free
  | none =>
      rw [Option.none_or]
      cases isBreak : breaks.getLast? with
      | none => rfl
      | some c =>
          rw [allBreaks c (List.mem_of_getLast? isBreak)]
          decide

end TakenBack

/-- Where no step changes how the rest is read, an imported name that is taken back to the catalog's is left
by the renaming just where a lone colon follows it; an element is removed for it only if such a colon follows
it in the element's tag, and behind the imports of the resolved source it stands only if one does anywhere. -/
theorem usesName_resolve_iff (plain : catalog.IsPlain) (alike : ReadsAlike catalog text)
    (renamesNames : RenamesNames catalog text) {name : Text} (takenBack : IsTakenBack catalog text name) :
    (UsesName name (mask (recovered catalog text)) ↔
        ∃ front, IsKeyBehind name (mask (unimported catalog text)) front) ∧
      (∀ tag ∈ Tag.scan (mask (retagged catalog text)),
        isHallucinated catalog (ownNames catalog text) tag = true → tag.rootIdentifier = name →
          ∃ front, IsKeyBehind name (mask (unimported catalog text)) front ∧ front.getLast? = some '<') ∧
      ∃ heading shown,
        (resolve catalog text).text = heading ++ withoutLeadingBreaks (remains catalog text) ∧
        mask (resolve catalog text).text = shown ++ mask (withoutLeadingBreaks (remains catalog text)) ∧
        (UsesName name (mask (withoutLeadingBreaks (remains catalog text))) →
          ∃ front, IsKeyBehind name (mask (unimported catalog text)) front) := by
  refine ⟨usesName_recovered_iff alike renamesNames takenBack,
    fun tag member => exists_isKeyBehind_of_isHallucinated alike renamesNames takenBack member, ?_⟩
  obtain ⟨identifiers, resolved⟩ := exists_prependBlock catalog text
  obtain ⟨heading, shown, isHeading, _, written⟩ :=
    exists_isHeading_prependBlock plain identifiers (remains catalog text)
  rw [← resolved] at written
  refine ⟨heading, shown, written, ?_, fun uses => ?_⟩
  · rw [written, isHeading.mask_append]
  · exact exists_isKeyBehind_of_usesName_remains alike renamesNames takenBack (usesName_withoutLeadingBreaks uses)

/-! ## A color under a name of the source's own -/

/-- A source that calls the color by another name than the catalog does. -/
def namedColor : Text :=
  "import { Color as Tint } from 'three';\nf(Tint);\n".toList

/-- What the source means by the name. -/
def namedBinding : Binding :=
  ⟨"Tint".toList, "three".toList, "Color".toList, .asNamed, 1⟩

set_option maxRecDepth 4096 in
theorem removeStatements_namedColor :
    removeStatements namedColor (Catalog.packaged .threejs) =
      ("f(Tint);\n".toList, [⟨"three".toList, "three".toList, [namedBinding], 1⟩]) := by
  have isMasked : mask namedColor = "import { Color as Tint } from '     ';\nf(Tint);\n".toList := by decide
  unfold removeStatements
  rw [isMasked]
  decide +kernel

theorem ownNames_namedColor : ownNames (Catalog.packaged .threejs) namedColor = [] := by
  rw [ownNames, removeStatements_namedColor]
  decide

/-- The color is reached through the namespace, where the source declares neither name. -/
theorem renaming?_namedBinding {declared : List Text} (noName : declared.contains "Tint".toList = false)
    (noOwner : declared.contains "THREE".toList = false) :
    renaming? (Catalog.packaged .threejs) declared namedBinding =
      some ("Tint".toList, "THREE.Color".toList) := by
  have unknown : canonicalIdentifier? (Catalog.packaged .threejs) namedBinding = none := by decide +kernel
  have owned : owningNamespace? (Catalog.packaged .threejs) namedBinding = some "THREE".toList := by
    decide +kernel
  have isName : namedBinding.localName = "Tint".toList := rfl
  rw [renaming?, isName, noName, unknown, owned]
  dsimp only
  rw [noOwner]
  rfl

theorem renamings_namedColor :
    renamings (Catalog.packaged .threejs) namedColor = [("Tint".toList, "THREE.Color".toList)] := by
  rw [renamings, ownNames_namedColor, removeStatements_namedColor]
  have renames := @renaming?_namedBinding [] rfl rfl
  exact congrArg (fun found : Option (Text × Text) => [found].filterMap id) renames

theorem recovered_namedColor :
    recovered (Catalog.packaged .threejs) namedColor = "f(THREE.Color);\n".toList := by
  have isRenaming : ("Tint".toList, "THREE.Color".toList) ∈
      renamings (Catalog.packaged .threejs) namedColor := by
    rw [renamings_namedColor]
    exact List.mem_singleton_self _
  rw [recovered_eq isRenaming, renamings_namedColor, unimported, removeStatements_namedColor]
  decide

theorem retagged_namedColor :
    retagged (Catalog.packaged .threejs) namedColor = "f(THREE.Color);\n".toList := by
  rw [retagged, recovered_namedColor]
  exact if_pos rfl

theorem readsAlike_namedColor : ReadsAlike (Catalog.packaged .threejs) namedColor where
  names := by
    rw [recovered_namedColor, renamings_namedColor, unimported, removeStatements_namedColor]
    decide
  tags := by
    rw [retagged_namedColor, recovered_namedColor]
    decide
  elements := by
    have noTags : Tag.scan (mask "f(THREE.Color);\n".toList) = [] := by decide
    rw [remains_eq, removeHallucinated_fst, retagged_namedColor, elementRemovals, noTags]
    decide

theorem renamesNames_namedColor : RenamesNames (Catalog.packaged .threejs) namedColor where
  imported := by
    intro entry member
    rw [renamings_namedColor] at member
    obtain rfl := List.mem_singleton.mp member
    exact ⟨⟨'T', "int".toList, rfl, by decide⟩, Text.forall_mem_of_all (by decide)⟩
  tags := nofun

theorem isTakenBack_namedColor : IsTakenBack (Catalog.packaged .threejs) namedColor "Tint".toList where
  isRenamed := by
    rw [removeStatements_namedColor, ownNames_namedColor]
    exact ⟨_, List.mem_singleton_self _, _, List.mem_singleton_self _, _, renaming?_namedBinding rfl rfl⟩
  notPut := by
    rintro entry member ⟨front, back, stands⟩
    rw [renamings_namedColor] at member
    obtain rfl := List.mem_singleton.mp member
    have split : "THREE.Color".toList = front ++ ("Tint".toList ++ back) := stands.split
    have isIn : 'i' ∈ "THREE.Color".toList := by
      rw [split]
      simp
    exact absurd isIn (by decide)
  notIntrinsic := nofun

theorem usesName_resolve_iff_namedColor :
    (Catalog.packaged .threejs).IsPlain ∧ ReadsAlike (Catalog.packaged .threejs) namedColor ∧
      RenamesNames (Catalog.packaged .threejs) namedColor ∧
      IsTakenBack (Catalog.packaged .threejs) namedColor "Tint".toList ∧
      ¬UsesName "Tint".toList (mask (recovered (Catalog.packaged .threejs) namedColor)) := by
  have plain := Catalog.isPlain_packaged .threejs
  refine ⟨plain, readsAlike_namedColor, renamesNames_namedColor, isTakenBack_namedColor, ?_⟩
  rw [(usesName_resolve_iff plain readsAlike_namedColor renamesNames_namedColor isTakenBack_namedColor).1]
  rintro ⟨front, _, isKey⟩
  have isColon := mem_of_isObjectKey isKey
  rw [unimported, removeStatements_namedColor] at isColon
  exact absurd isColon (by decide)

/-! ## A color in a conditional -/

/-- A source that uses its color in a conditional, where a colon follows. -/
def conditionalColor : Text :=
  "import { Color as Tint } from 'three';\nconst c = dark ? Tint : null;\n".toList

set_option maxRecDepth 4096 in
theorem removeStatements_conditionalColor :
    removeStatements conditionalColor (Catalog.packaged .threejs) =
      ("const c = dark ? Tint : null;\n".toList, [⟨"three".toList, "three".toList, [namedBinding], 1⟩]) := by
  have isMasked : mask conditionalColor =
      "import { Color as Tint } from '     ';\nconst c = dark ? Tint : null;\n".toList := by decide
  unfold removeStatements
  rw [isMasked]
  decide +kernel

/-- The name is to be taken back, and is left: the colon of the conditional follows it. -/
theorem usesName_resolve_conditionalColor :
    (∃ statement ∈ (removeStatements conditionalColor (Catalog.packaged .threejs)).2,
      ∃ binding ∈ statement.bindings,
        renaming? (Catalog.packaged .threejs) (ownNames (Catalog.packaged .threejs) conditionalColor) binding =
          some ("Tint".toList, "THREE.Color".toList)) ∧
      (resolve (Catalog.packaged .threejs) conditionalColor).text = "const c = dark ? Tint : null;\n".toList ∧
      UsesName "Tint".toList (mask (resolve (Catalog.packaged .threejs) conditionalColor).text) := by
  have own : ownNames (Catalog.packaged .threejs) conditionalColor = ["c".toList] := by
    rw [ownNames, removeStatements_conditionalColor]
    decide
  have resolved : (resolve (Catalog.packaged .threejs) conditionalColor).text =
      "const c = dark ? Tint : null;\n".toList := by
    unfold resolve
    rw [removeStatements_conditionalColor]
    decide +kernel
  have isMasked : mask "const c = dark ? Tint : null;\n".toList = "const c = dark ? Tint : null;\n".toList := by
    decide
  refine ⟨?_, resolved, ?_⟩
  · rw [removeStatements_conditionalColor, own]
    exact ⟨_, List.mem_singleton_self _, _, List.mem_singleton_self _, renaming?_namedBinding (by decide) (by decide)⟩
  · rw [resolved, isMasked]
    exact ⟨"const c = dark ? ".toList, " : null;\n".toList, rfl, by decide, by decide⟩

end SceneBundler.Imports
