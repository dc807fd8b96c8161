import SceneBundler.Catalog.Packaged
import SceneBundler.Imports.Resolution
import SceneBundler.Project.Assembly
import SceneBundler.Proofs.Catalog.Importable
import SceneBundler.Proofs.Entry.Naming
import SceneBundler.Proofs.Source.View
import SceneBundler.Proofs.Text.Blank
import SceneBundler.Proofs.Text.Ordered
import SceneBundler.Proofs.Text.Search

/-!
Contract: what assembly needs of a source, and what a project holds.

Owns:
- that each layout pins the package of every module that its catalog knows, and so of every manifest
  made from that catalog;
- the places of the entry file and the source in a project;
- the conditions under which assembly accepts a source;
- that a source meets them once its entry is made: a default export that was added is one that assembly
  recognises, and a script in which the root is constructed is not blank.

Does not own: that the other stages meet these conditions, and how many default exports there are.
-/

namespace SceneBundler

/-! ## Packages -/

/-- Whether a layout pins the package of a module. -/
def Template.Pins (template : Template) (module : Text) : Prop :=
  Bundle.packageName module ∈ template.dependencies.map Package.name

instance (template : Template) (module : Text) : Decidable (template.Pins module) := by
  unfold Template.Pins
  infer_instance

/-- The catalog of a framework exports from packages only that the framework's layout pins. -/
theorem Template.pins_of_mem_exports {framework : Framework} {found : Export}
    (member : found ∈ (Catalog.packaged framework).exports) :
    (Template.ofFramework framework).Pins found.module := by
  have every : ∀ found ∈ (Catalog.packaged framework).exports,
      (Template.ofFramework framework).Pins found.module := by
    cases framework <;> decide +kernel
  exact every found member

/-- A manifest made from a catalog names only modules that the catalog knows. -/
theorem Imports.exports_of_mem_moduleNames {catalog : Catalog} {identifiers : List Text}
    {module : Text} (member : module ∈ (manifestOf catalog identifiers).moduleNames) :
    ∃ found ∈ catalog.exports, found.module = module := by
  obtain ⟨entry, isEntry, rfl⟩ := List.mem_map.mp member
  obtain ⟨module, isModule, rfl⟩ := List.mem_map.mp (List.mem_filter.mp isEntry).1
  obtain ⟨pair, isPair, rfl⟩ := List.mem_map.mp (Text.mem_sortedSet.mp isModule)
  obtain ⟨found, isFound, rfl⟩ := List.mem_map.mp isPair
  obtain ⟨identifier, _, known⟩ := List.mem_filterMap.mp isFound
  exact ⟨found, (Catalog.mem_of_lookup known).1, rfl⟩

theorem Bundle.unpinnedPackages_manifestOf (framework : Framework) (identifiers : List Text) :
    unpinnedPackages (Template.ofFramework framework)
      (Imports.manifestOf (Catalog.packaged framework) identifiers) = [] := by
  rw [List.eq_nil_iff_forall_not_mem]
  intro package member
  obtain ⟨isPackage, isUnpinned⟩ := List.mem_filter.mp (Text.mem_sortedSet.mp member)
  obtain ⟨module, isModule, rfl⟩ := List.mem_map.mp isPackage
  obtain ⟨found, isExport, rfl⟩ := Imports.exports_of_mem_moduleNames isModule
  have pinned := Template.pins_of_mem_exports isExport
  rw [Bool.not_eq_true', List.contains_eq_mem, decide_eq_false_iff_not] at isUnpinned
  exact isUnpinned pinned

/-! ## Files -/

namespace Template

/-- The source is the one file at its place. -/
theorem filter_files_sourcePath (framework : Framework) (source : Text) :
    ((ofFramework framework).files source).filter
        (fun file => file.path == (ofFramework framework).sourcePath) =
      [⟨(ofFramework framework).sourcePath, source, false⟩] := by
  cases framework <;> rfl

/-- There is one file at the place of the entry. -/
theorem length_filter_files_entryPath (framework : Framework) (source : Text) :
    (((ofFramework framework).files source).filter
      fun file => file.path == (ofFramework framework).entryPath).length = 1 := by
  cases framework <;> rfl

theorem file?_entryPath_of_bootstrap {framework : Framework} {source : Text} {verified : Bool}
    (mounts : (ofFramework framework).bootstrap.isSome = true) :
    (⟨framework.tag, (ofFramework framework).files source, (ofFramework framework).entryPath,
      verified⟩ : Bundle).file? (ofFramework framework).entryPath =
      some (.text "src/index.js" Page.bootstrap) := by
  cases framework with
  | reactThreeFiber => rfl
  | reactylon => rfl
  | threejs => exact absurd mounts (by decide)
  | babylonjs => exact absurd mounts (by decide)

theorem file?_entryPath_of_script {framework : Framework} {source : Text} {verified : Bool}
    (runs : (ofFramework framework).bootstrap.isSome = false) :
    (⟨framework.tag, (ofFramework framework).files source, (ofFramework framework).entryPath,
      verified⟩ : Bundle).file? (ofFramework framework).entryPath =
      some ⟨(ofFramework framework).entryPath, source, false⟩ := by
  cases framework with
  | reactThreeFiber => exact absurd runs (by decide)
  | reactylon => exact absurd runs (by decide)
  | threejs => rfl
  | babylonjs => rfl

end Template

namespace Bundle

/-- Whether a source can be started in the layout of a framework: a component has to be exported as
the default, and a script must not be blank. -/
def CanStart (framework : Framework) (source : Text) : Prop :=
  if (Template.ofFramework framework).bootstrap.isSome then defaultExport.occursIn source = true
  else Text.isBlank source = false

theorem hasEntryFile_of_canStart {framework : Framework} {source : Text} (verified : Bool)
    (canStart : CanStart framework source) :
    (⟨framework.tag, (Template.ofFramework framework).files source,
      (Template.ofFramework framework).entryPath, verified⟩ : Bundle).hasEntryFile = true := by
  unfold CanStart at canStart
  unfold hasEntryFile
  by_cases mounts : (Template.ofFramework framework).bootstrap.isSome = true
  · rw [Template.file?_entryPath_of_bootstrap mounts]
    decide
  · rw [if_neg mounts] at canStart
    rw [Template.file?_entryPath_of_script (Bool.eq_false_iff.mpr mounts)]
    simp [canStart]

/-- Assembly accepts every source that can be started and imports from the catalog only. -/
theorem assemble_eq_ok {framework : Framework} {source : Text} (identifiers : List Text)
    (verified : Bool) (canStart : CanStart framework source) :
    assemble framework source
        (some (Imports.manifestOf (Catalog.packaged framework) identifiers)) verified =
      .ok ⟨framework.tag, (Template.ofFramework framework).files source,
        (Template.ofFramework framework).entryPath, verified⟩ := by
  have pinned := unpinnedPackages_manifestOf framework identifiers
  have entered := hasEntryFile_of_canStart verified canStart
  have mounted :
      ((Template.ofFramework framework).bootstrap.isSome && !defaultExport.occursIn source) =
        false := by
    unfold CanStart at canStart
    by_cases mounts : (Template.ofFramework framework).bootstrap.isSome = true
    · rw [if_pos mounts] at canStart
      rw [canStart, Bool.not_true, Bool.and_false]
    · rw [Bool.eq_false_iff.mpr mounts, Bool.false_and]
  unfold assemble
  simp only [Option.map_some, pinned, Option.getD_some, List.isEmpty_nil, Bool.not_true,
    Bool.false_eq_true, if_false, entered, mounted]

end Bundle

end SceneBundler

namespace SceneBundler.Entry

open Cursor (between)
open Pattern (lineStart blanks gap wordBoundary Reads reads_word_between reads_run_between)

/-- Two words with a space in between can be read at the beginning of a line, if a space follows. -/
theorem reads_wordsOnLine (first second front rest : Text)
    (endsWord : second.getLast?.any Character.isWord = true) :
    ∃ next, (lineStart ++ blanks ++ Pattern.word first ++ gap ++ Pattern.word second ++
      wordBoundary).Reads
        (between (front ++ ['\n']) (first ++ ([' '] ++ (second ++ ' ' :: rest)))) next := by
  have atStart : lineStart.Reads
      (between (front ++ ['\n']) (first ++ ([' '] ++ (second ++ ' ' :: rest))))
      (between (front ++ ['\n']) (first ++ ([' '] ++ (second ++ ' ' :: rest)))) := by
    refine ⟨?_, rfl⟩
    simp [between]
  have noBlanks := reads_run_between Character.isBlank 0 false (front ++ ['\n']) []
    (first ++ ([' '] ++ (second ++ ' ' :: rest))) (by simp) (by simp)
  have oneBlank := reads_run_between Character.isBlank 1 false
    (front ++ ['\n'] ++ [] ++ first) [' '] (second ++ ' ' :: rest)
    (Text.forall_mem_of_all (by decide)) (by simp)
  have atBorder (passed : Text) : wordBoundary.Reads (between (passed ++ second) (' ' :: rest))
      (between (passed ++ second) (' ' :: rest)) := by
    refine ⟨?_, rfl⟩
    have blankEndsWord : Character.isWord ' ' = false := by decide
    obtain ⟨c, isLast, isWord⟩ := (Option.any_eq_true _ _).mp endsWord
    simp [between, List.getLast?_append, isLast, isWord, blankEndsWord]
  exact ⟨_, _, ⟨_, ⟨_, ⟨_, ⟨_, atStart, noBlanks⟩, reads_word_between _ _ _⟩, oneBlank⟩,
    reads_word_between _ _ _⟩, atBorder _⟩

/-- Wherever the statement is appended, it begins a line with a default export. -/
theorem occursIn_exportOf (source name : Text) :
    Bundle.defaultExport.occursIn (source ++ '\n' :: '\n' :: exportOf name) = true := by
  have lead : "export default ".toList =
      "export".toList ++ ([' '] ++ ("default".toList ++ [' '])) := by
    decide
  obtain ⟨next, reads⟩ := reads_wordsOnLine "export".toList "default".toList
    (source ++ ['\n']) (name ++ ";\n".toList) (by decide)
  refine Pattern.occursIn_iff.mpr ⟨source ++ ['\n'] ++ ['\n'], _, next, ?_, reads⟩
  unfold exportOf
  rw [lead]
  generalize "export".toList = first
  generalize "default".toList = second
  generalize ";\n".toList = last
  simp

/-- A text in which a root is constructed is not blank. -/
theorem isBlank_of_construction {rootContainer masked : Text}
    (constructs : (construction rootContainer).occursIn masked = true) :
    Text.isBlank masked = false := by
  obtain ⟨passed, ahead, next, split, reads⟩ := Pattern.occursIn_iff.mp constructs
  obtain ⟨_, ⟨_, ⟨_, ⟨_, ⟨_, ⟨_, ⟨_, same⟩, readsNew⟩, _⟩, _⟩, _⟩, _⟩, _⟩ := reads
  obtain ⟨passes, _⟩ := Pattern.reads_word_iff.mp readsNew
  have isAhead : ahead = "new".toList ++ _ := same ▸ passes.ahead_eq
  have hasLetter : 'n' ∈ masked := by
    rw [split, isAhead]
    exact List.mem_append_right _ (List.mem_append_left _ (by decide))
  rw [Text.isBlank, List.all_eq_false]
  exact ⟨'n', hasLetter, by decide⟩

theorem occursIn_componentEntry {catalog : Catalog} {text : Text}
    (noErrors : ∀ finding ∈ (componentEntry catalog text).2, finding.isError = false) :
    Bundle.defaultExport.occursIn (componentEntry catalog text).1 = true := by
  rw [componentEntry_eq] at noErrors ⊢
  cases chosen : rootOf catalog (stripped catalog text) with
  | none =>
      rw [chosen] at noErrors
      have missing := noErrors _ (List.mem_append_right _ (List.mem_singleton_self _))
      exact absurd (isError_noEntry _) (Bool.eq_false_iff.mp missing)
  | some root => exact occursIn_exportOf _ root.name

theorem isBlank_scriptEntry {catalog : Catalog} {text : Text}
    (noErrors : ∀ finding ∈ (scriptEntry catalog text).2, finding.isError = false) :
    Text.isBlank (scriptEntry catalog text).1 = false := by
  unfold scriptEntry at noErrors ⊢
  dsimp only at noErrors ⊢
  by_cases constructs : (construction catalog.rootContainer).occursIn (Source.mask text) = true
  · have shows := isBlank_of_construction constructs
    have holds : Text.isBlank text = false := by
      rw [Bool.eq_false_iff]
      intro blank
      rw [Source.isBlank_mask blank] at shows
      contradiction
    rw [if_neg (by simp [constructs])]
    split
    next => exact holds
    next =>
      split
      next => exact holds
      next =>
        rw [Text.isBlank, List.all_eq_false]
        exact ⟨'(', List.mem_append_right _ (by decide), by decide⟩
  · rw [if_pos (by simp [constructs])] at noErrors
    have missing := noErrors _ (List.mem_singleton_self _)
    exact absurd (isError_noEntry _) (Bool.eq_false_iff.mp missing)

/-- An entry that is made without an error can be started in the layout of its framework. -/
theorem canStart_of_synthesize {framework : Framework} {text : Text}
    (noErrors : ∀ finding ∈ (synthesize (Catalog.packaged framework) text).2,
      finding.isError = false) :
    Bundle.CanStart framework (synthesize (Catalog.packaged framework) text).1 := by
  have ofComponent (isComponent : (Catalog.packaged framework).entryStyle = .component) :
      Bundle.defaultExport.occursIn (synthesize (Catalog.packaged framework) text).1 = true := by
    unfold synthesize at noErrors ⊢
    rw [isComponent] at noErrors ⊢
    exact occursIn_componentEntry noErrors
  have ofScript (isScript : (Catalog.packaged framework).entryStyle = .script) :
      Text.isBlank (synthesize (Catalog.packaged framework) text).1 = false := by
    unfold synthesize at noErrors ⊢
    rw [isScript] at noErrors ⊢
    exact isBlank_scriptEntry noErrors
  unfold Bundle.CanStart
  cases framework with
  | reactThreeFiber => exact ofComponent rfl
  | reactylon => exact ofComponent rfl
  | threejs => exact ofScript rfl
  | babylonjs => exact ofScript rfl

end SceneBundler.Entry
