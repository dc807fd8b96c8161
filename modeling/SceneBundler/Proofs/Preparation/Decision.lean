import SceneBundler.Preparation.Prepared
import SceneBundler.Proofs.Balance.Heading
import SceneBundler.Proofs.Project.Acceptance
import SceneBundler.Proofs.Imports.Heading
import SceneBundler.Proofs.Preparation.Findings

/-!
Contract: what becomes of a source.

Owns:
- the errors of a run that count, stage after stage, each with the code of its stage's blocker;
- that a run fails for the first error that counts, and only for such an error, and that a run without one
  always makes a project;
- the decision between a project and a failure, for every source, and what the project holds;
- that a verified project comes from a source which was balanced after its repair, and that the source it
  holds is balanced just if the removals after the repair leave it so, whatever is added to it.

Does not own: which errors a source has, and which removals keep the balance.
-/

namespace SceneBundler

namespace Blocker

/-- The stage that finds a blocker. -/
def stage : Blocker -> Stage
  | structuralImbalance => .repair
  | emptyComponentManifest => .resolve
  | noEntryPointCandidate => .entry

theorem eq_of_code_eq {first second : Blocker} (same : first.code = second.code) :
    first = second := by
  revert same
  cases first <;> cases second <;> decide

/-- Whether findings are those of one blocker each. -/
def Codes (found : Blocker -> List Diagnostic) : Prop :=
  ∀ blocker, ∀ finding ∈ found blocker, finding.code = blocker.code

/-- Among findings by blocker, the first with a blocker's code is that blocker's first. -/
theorem find?_flatMap {found : Blocker -> List Diagnostic} (coded : Codes found)
    {blocker : Blocker} {blockers : List Blocker} (member : blocker ∈ blockers) :
    (blockers.flatMap found).find? (fun finding => finding.code == blocker.code) =
      (found blocker).head? := by
  have own : (found blocker).find? (fun finding => finding.code == blocker.code) =
      (found blocker).head? := by
    cases isFound : found blocker with
    | nil => rfl
    | cons first rest =>
        have sameCode := coded blocker first (by simp [isFound])
        simp [sameCode]
  have other {another : Blocker} (different : another ≠ blocker) :
      (found another).find? (fun finding => finding.code == blocker.code) = none := by
    rw [List.find?_eq_none]
    intro finding isOther
    have otherCode := coded another finding isOther
    rw [otherCode, beq_iff_eq]
    intro same
    exact different (eq_of_code_eq same)
  induction blockers with
  | nil => exact absurd member List.not_mem_nil
  | cons first rest inductionHypothesis =>
      rw [List.flatMap_cons, List.find?_append]
      by_cases isFirst : first = blocker
      · rw [isFirst, own]
        by_cases inRest : blocker ∈ rest
        · rw [inductionHypothesis inRest]
          exact Option.or_self
        · have nowhere : (rest.flatMap found).find?
              (fun finding => finding.code == blocker.code) = none := by
            rw [List.find?_eq_none]
            intro finding inOther
            obtain ⟨another, isRest, isOther⟩ := List.mem_flatMap.mp inOther
            rw [coded another finding isOther, beq_iff_eq]
            intro same
            exact inRest (eq_of_code_eq same ▸ isRest)
          rw [nowhere, Option.or_none]
      · rw [other isFirst, Option.none_or]
        exact inductionHypothesis ((List.mem_cons.mp member).resolve_left (Ne.symm isFirst))

/-- The first blocker that was found comes with the first of all findings. -/
theorem findSome?_head? {Result : Type} {found : Blocker -> List Diagnostic} (coded : Codes found)
    (blockers : List Blocker) (result : Blocker -> Diagnostic -> Result) :
    (blockers.flatMap found = [] ∧
        (blockers.findSome? fun blocker => (found blocker).head?.map (result blocker)) = none) ∨
      ∃ blocker first rest, blockers.flatMap found = first :: rest ∧ first.code = blocker.code ∧
        (blockers.findSome? fun blocker => (found blocker).head?.map (result blocker)) =
          some (result blocker first) := by
  induction blockers with
  | nil => exact Or.inl ⟨rfl, rfl⟩
  | cons blocker others inductionHypothesis =>
      rw [List.flatMap_cons, List.findSome?_cons]
      cases isFound : found blocker with
      | nil => exact inductionHypothesis
      | cons first rest =>
          have sameCode := coded blocker first (by simp [isFound])
          exact Or.inr ⟨blocker, first, rest ++ others.flatMap found, rfl, sameCode, rfl⟩

end Blocker

namespace Outcome

/-- The errors of a run that count; an imbalance is tolerated on request. -/
def hardErrors (outcome : Outcome) (allowUnverified : Bool) : List Diagnostic :=
  if allowUnverified then
    outcome.errors.filter fun finding => finding.code != Blocker.structuralImbalance.code
  else outcome.errors

/-- The errors by which a run of a source can be blocked. -/
def blockedBy (framework : Framework) (text : Text) (blocker : Blocker) : List Diagnostic :=
  (emitted (Catalog.packaged framework) text blocker.stage).filter Diagnostic.isError

theorem codes_blockedBy (framework : Framework) (text : Text) :
    Blocker.Codes (blockedBy framework text) := by
  intro blocker finding member
  obtain ⟨isEmitted, isError⟩ := List.mem_filter.mp member
  obtain ⟨other, blocks, sameCode⟩ := (signs_of_mem_emitted isEmitted).2 isError
  have same : blocker.stage.blocker? = some blocker := by cases blocker <;> rfl
  obtain rfl : blocker = other := Option.some.inj (same.symm.trans blocks)
  exact sameCode

theorem errors_ofSource (framework : Framework) (text : Text) :
    (ofSource framework text).errors = Blocker.all.flatMap (blockedBy framework text) := by
  have noneNormalize :
      (emitted (Catalog.packaged framework) text .normalize).filter Diagnostic.isError = [] := by
    rw [List.filter_eq_nil_iff]
    intro finding isEmitted isError
    obtain ⟨blocker, blocks, _⟩ := (signs_of_mem_emitted isEmitted).2 isError
    exact absurd blocks.symm (Option.some_ne_none blocker)
  rw [errors, diagnostics_ofSource, Stage.all, Blocker.all]
  simp only [List.flatMap_cons, List.flatMap_nil, List.append_nil, List.filter_append,
    noneNormalize, List.nil_append]
  rfl

theorem hardErrors_ofSource (framework : Framework) (text : Text) (allowUnverified : Bool) :
    (ofSource framework text).hardErrors allowUnverified =
      (Blocker.all.filter (Blocker.counts allowUnverified)).flatMap
        (blockedBy framework text) := by
  have coded := codes_blockedBy framework text
  rw [hardErrors, errors_ofSource]
  cases allowUnverified with
  | false => rfl
  | true =>
      have dropped : (blockedBy framework text .structuralImbalance).filter
          (fun finding => finding.code != Blocker.structuralImbalance.code) = [] := by
        rw [List.filter_eq_nil_iff]
        intro finding member
        simp [coded _ finding member]
      have kept (blocker : Blocker) (differs : blocker.code ≠ Blocker.structuralImbalance.code) :
          (blockedBy framework text blocker).filter
            (fun finding => finding.code != Blocker.structuralImbalance.code) =
            blockedBy framework text blocker := by
        rw [List.filter_eq_self]
        intro finding member
        rw [coded _ finding member]
        simpa using differs
      have counting : Blocker.all.filter (Blocker.counts true) =
          [.emptyComponentManifest, .noEntryPointCandidate] := by decide
      rw [counting, Blocker.all]
      simp only [if_true, List.flatMap_cons, List.flatMap_nil, List.append_nil, List.filter_append,
        dropped, List.nil_append, kept .emptyComponentManifest (by decide),
        kept .noEntryPointCandidate (by decide)]

theorem failure?_ofSource (framework : Framework) (text : Text) (allowUnverified : Bool) :
    (ofSource framework text).failure? allowUnverified =
      (Blocker.all.filter (Blocker.counts allowUnverified)).findSome? fun blocker =>
        (blockedBy framework text blocker).head?.map fun finding =>
          ⟨blocker, finding, (ofSource framework text).diagnostics⟩ := by
  have first (blocker : Blocker) : (ofSource framework text).blocking? blocker =
      (blockedBy framework text blocker).head? := by
    rw [blocking?, errors_ofSource]
    exact Blocker.find?_flatMap (codes_blockedBy framework text) (by cases blocker <;> decide)
  rw [failure?]
  simp only [first]

/-- A run fails just if it has an error that counts, and for the first of them. -/
theorem failure?_eq (framework : Framework) (text : Text) (allowUnverified : Bool) :
    match (ofSource framework text).hardErrors allowUnverified with
    | [] => (ofSource framework text).failure? allowUnverified = none
    | first :: _ =>
        ∃ blocker, first.code = blocker.code ∧
          (ofSource framework text).failure? allowUnverified =
            some ⟨blocker, first, (ofSource framework text).diagnostics⟩ := by
  rw [hardErrors_ofSource, failure?_ofSource]
  rcases Blocker.findSome?_head? (codes_blockedBy framework text)
      (Blocker.all.filter (Blocker.counts allowUnverified))
      (fun blocker finding =>
        (⟨blocker, finding, (ofSource framework text).diagnostics⟩ : StageFailure)) with
    ⟨noErrors, noFailure⟩ | ⟨blocker, first, rest, someErrors, sameCode, failure⟩
  · rw [noErrors]
    exact noFailure
  · rw [someErrors]
    exact ⟨blocker, sameCode, failure⟩

/-- A run counts as balanced just if it reports no imbalance. -/
theorem isBalanced_eq_false_iff (outcome : Outcome) :
    outcome.isBalanced = false ↔
      ∃ finding ∈ outcome.errors, finding.code = Blocker.structuralImbalance.code := by
  rw [isBalanced, blocking?]
  simp [← Option.not_isSome]

/-- A run whose entry is found can be started. -/
theorem canStart_of_blockedBy {framework : Framework} {text : Text}
    (entered : blockedBy framework text .noEntryPointCandidate = []) :
    Bundle.CanStart framework (ofSource framework text).text := by
  refine Entry.canStart_of_synthesize fun finding member => ?_
  rw [Bool.eq_false_iff]
  exact List.filter_eq_nil_iff.mp entered finding member

/-- A run imports from the catalog of its framework only. -/
theorem manifest_ofSource (framework : Framework) (text : Text) :
    ∃ identifiers, (ofSource framework text).manifest =
      some (Imports.manifestOf (Catalog.packaged framework) identifiers) :=
  ⟨_, rfl⟩

/-- No run without errors that count is turned down by assembly. -/
theorem assemble_of_hardErrors {framework : Framework} {text : Text} {allowUnverified : Bool}
    (verified : Bool) (noErrors : (ofSource framework text).hardErrors allowUnverified = []) :
    Bundle.assemble framework (ofSource framework text).text (ofSource framework text).manifest
        verified =
      .ok ⟨framework.tag, (Template.ofFramework framework).files (ofSource framework text).text,
        (Template.ofFramework framework).entryPath, verified⟩ := by
  obtain ⟨identifiers, manifest⟩ := manifest_ofSource framework text
  have entered : blockedBy framework text .noEntryPointCandidate = [] := by
    rw [hardErrors_ofSource, List.flatMap_eq_nil_iff] at noErrors
    exact noErrors _ (by cases allowUnverified <;> decide)
  rw [manifest]
  exact Bundle.assemble_eq_ok identifiers verified (canStart_of_blockedBy entered)

end Outcome

namespace Prepared

theorem ofSource_of_failure {framework : Framework} {text : Text} {allowUnverified : Bool}
    {failure : StageFailure}
    (failed : (Outcome.ofSource framework text).failure? allowUnverified = some failure) :
    ofSource framework text allowUnverified = .error (.stage failure) := by
  unfold ofSource
  generalize Outcome.ofSource framework text = outcome at failed
  simp only [failed]

theorem ofSource_of_assemble {framework : Framework} {text : Text} {allowUnverified : Bool}
    {bundle : Bundle}
    (passed : (Outcome.ofSource framework text).failure? allowUnverified = none)
    (assembled : Bundle.assemble framework (Outcome.ofSource framework text).text
      (Outcome.ofSource framework text).manifest (Outcome.ofSource framework text).isBalanced =
        .ok bundle) :
    ofSource framework text allowUnverified = .ok ⟨bundle, Outcome.ofSource framework text⟩ := by
  unfold ofSource
  generalize Outcome.ofSource framework text = outcome at passed assembled
  simp only [passed, assembled]

theorem ofSource_of_no_hardErrors {framework : Framework} {text : Text} {allowUnverified : Bool}
    (noErrors : (Outcome.ofSource framework text).hardErrors allowUnverified = []) :
    ∃ bundle, ofSource framework text allowUnverified =
        .ok ⟨bundle, Outcome.ofSource framework text⟩ ∧
      Bundle.assemble framework (Outcome.ofSource framework text).text
        (Outcome.ofSource framework text).manifest (Outcome.ofSource framework text).isBalanced =
          .ok bundle ∧
      (bundle.verified = false ↔ ∃ finding ∈ (Outcome.ofSource framework text).errors,
        finding.code = Blocker.structuralImbalance.code) ∧
      bundle.entryPath = (Template.ofFramework framework).entryPath ∧
      (bundle.files.filter fun file => file.path == bundle.entryPath).length = 1 ∧
      (bundle.files.filter fun file =>
          file.path == (Template.ofFramework framework).sourcePath) =
        [⟨(Template.ofFramework framework).sourcePath, (Outcome.ofSource framework text).text,
          false⟩] := by
  have verdict := Outcome.failure?_eq framework text allowUnverified
  rw [noErrors] at verdict
  have accepted :=
    Outcome.assemble_of_hardErrors (Outcome.ofSource framework text).isBalanced noErrors
  have unverified := Outcome.isBalanced_eq_false_iff (Outcome.ofSource framework text)
  have prepared := ofSource_of_assemble verdict accepted
  generalize Outcome.ofSource framework text = outcome at accepted prepared unverified ⊢
  exact ⟨_, prepared, accepted, unverified, rfl,
    Template.length_filter_files_entryPath framework _,
    Template.filter_files_sourcePath framework _⟩

theorem ofSource_of_hardErrors {framework : Framework} {text : Text} {allowUnverified : Bool}
    {first : Diagnostic} {rest : List Diagnostic}
    (someErrors : (Outcome.ofSource framework text).hardErrors allowUnverified = first :: rest) :
    ∃ blocker, first.code = blocker.code ∧
      ofSource framework text allowUnverified =
        .error (.stage ⟨blocker, first, (Outcome.ofSource framework text).diagnostics⟩) := by
  have verdict := Outcome.failure?_eq framework text allowUnverified
  rw [someErrors] at verdict
  obtain ⟨blocker, sameCode, failure⟩ := verdict
  exact ⟨blocker, sameCode, ofSource_of_failure failure⟩

end Prepared

/-! ## The balance of what a project holds -/

/-- A text is balanced if nothing in it is described as unbalanced. -/
theorem Balance.describe_repair {text : Text}
    (noErrors : ∀ finding ∈ (repair text).2, finding.isError = false) :
    describe (repair text).1 = [] := by
  unfold repair at noErrors ⊢
  dsimp only at noErrors ⊢
  by_cases settled : (describe (closeDanglingTags (removeOrphanLines text).1).1).isEmpty = true
  · exact List.isEmpty_iff.mp settled
  · have report := noErrors _ (List.mem_append_right _ (by
      rw [if_neg settled]
      exact List.mem_singleton_self _))
    exact absurd rfl (Bool.eq_false_iff.mp report)

namespace Outcome

/-- A run without errors has a balanced source after the repair. -/
theorem describe_repaired {framework : Framework} {text : Text}
    (noErrors : (ofSource framework text).errors = []) :
    Balance.describe (ofStages (Catalog.packaged framework) ([.normalize] ++ [.repair]) text).text =
      [] := by
  rw [errors_ofSource, List.flatMap_eq_nil_iff] at noErrors
  have noImbalance := List.filter_eq_nil_iff.mp (noErrors .structuralImbalance (by decide))
  rw [text_ofStages_concat _ [.normalize] .repair, Stage.output]
  refine Balance.describe_repair fun finding member => ?_
  exact Bool.eq_false_iff.mpr (noImbalance finding member)

/-- The source of a run as the removals of the last two stages leave it. -/
def remains (framework : Framework) (text : Text) : Text :=
  Entry.withoutStatement (Catalog.packaged framework)
    (ofStages (Catalog.packaged framework) [.normalize, .repair, .resolve] text).text

theorem describe_ofSource (framework : Framework) (text : Text) :
    Balance.describe (ofSource framework text).text =
      Balance.describe (remains framework text) := by
  have last : Stage.all = [.normalize, .repair, .resolve] ++ [.entry] := rfl
  rw [ofSource, last, text_ofStages_concat, Stage.output, Entry.describe_synthesize, remains]

/-- A resolved source is balanced just if what the resolution leaves of the repaired source is. -/
theorem describe_resolved_iff (framework : Framework) (text : Text) :
    Balance.describe
        (ofStages (Catalog.packaged framework) [.normalize, .repair, .resolve] text).text = [] ↔
      Balance.describe (Imports.remains (Catalog.packaged framework)
        (ofStages (Catalog.packaged framework) [.normalize, .repair] text).text) = [] := by
  have last : [Stage.normalize, .repair, .resolve] = [.normalize, .repair] ++ [.resolve] := rfl
  rw [last, text_ofStages_concat, Stage.output]
  exact Imports.describe_resolve_iff (Catalog.isPlain_packaged framework) _

end Outcome

namespace Prepared

/-- A verified project was repaired to a balanced source.  After that, the imports that the resolution
puts in front and what the entry stage adds in the end make no difference: the resolved source is
balanced just if the removals of the resolution leave a balanced source, and what the project holds at
the place of its source is balanced just if the removals of the entry stage do. -/
theorem describe_source_iff {framework : Framework} {text : Text} {prepared : Prepared}
    (made : ofSource framework text false = .ok prepared) :
    prepared.bundle.verified = true ∧
      Balance.describe
        (Outcome.ofStages (Catalog.packaged framework) [.normalize, .repair] text).text = [] ∧
      (Balance.describe (Outcome.ofStages (Catalog.packaged framework)
          [.normalize, .repair, .resolve] text).text = [] ↔
        Balance.describe (Imports.remains (Catalog.packaged framework)
          (Outcome.ofStages (Catalog.packaged framework) [.normalize, .repair] text).text) = []) ∧
      ∃ file, prepared.bundle.file? (Template.ofFramework framework).sourcePath = some file ∧
        (Balance.describe file.content = [] ↔
          Balance.describe (Outcome.remains framework text) = []) := by
  cases counted : (Outcome.ofSource framework text).hardErrors false with
  | cons first rest =>
      obtain ⟨blocker, _, refused⟩ := ofSource_of_hardErrors counted
      rw [refused] at made
      exact nomatch made
  | nil =>
      obtain ⟨bundle, accepted, _, unverified, _, _, held⟩ := ofSource_of_no_hardErrors counted
      have noErrors : (Outcome.ofSource framework text).errors = [] := counted
      have repaired := Outcome.describe_repaired noErrors
      have balance := Outcome.describe_ofSource framework text
      rw [accepted] at made
      rw [noErrors] at unverified
      generalize Outcome.ofSource framework text = outcome at made held balance
      obtain rfl := Except.ok.inj made
      have isVerified : bundle.verified = true := by
        rw [← Bool.not_eq_false, unverified]
        simp
      have isHeld : bundle.file? (Template.ofFramework framework).sourcePath =
          some ⟨(Template.ofFramework framework).sourcePath, outcome.text, false⟩ := by
        rw [Bundle.file?, ← List.head?_filter, held]
        rfl
      exact ⟨isVerified, repaired, Outcome.describe_resolved_iff framework text, _, isHeld,
        by rw [balance]⟩

/-- A component with a guard on its root element whose `throw` goes on over the line break. -/
def longGuard : Text :=
  ("const App = () => <Canvas />;\nconst root = document.getElementById('root');\n" ++
    "if (!root) throw new Error(\n  'no root');\n").toList

/-- What is unbalanced in the source that a project holds, if there is a project. -/
def described? (framework : Framework) (text : Text) : Option Text :=
  match ofSource framework text false with
  | .ok prepared =>
      (prepared.bundle.file? (Template.ofFramework framework).sourcePath).map fun file =>
        Balance.describe file.content
  | .error _ => none

theorem exists_of_described? {framework : Framework} {text described : Text}
    (isDescribed : described? framework text = some described) :
    ∃ prepared file, ofSource framework text false = .ok prepared ∧
      prepared.bundle.file? (Template.ofFramework framework).sourcePath = some file ∧
      Balance.describe file.content = described := by
  unfold described? at isDescribed
  split at isDescribed
  next prepared made =>
    obtain ⟨file, isFile, same⟩ := Option.map_eq_some_iff.mp isDescribed
    exact ⟨prepared, file, made, isFile, same⟩
  next => exact nomatch isDescribed

theorem described?_longGuard :
    described? .reactThreeFiber longGuard = some "() off by -1".toList := by
  decide +kernel

/-- The guard is removed up to the end of its first line, so its last line stays behind. -/
theorem describe_source_longGuard :
    ∃ prepared file, ofSource .reactThreeFiber longGuard false = .ok prepared ∧
      prepared.bundle.file? (Template.ofFramework .reactThreeFiber).sourcePath = some file ∧
      Balance.describe file.content = "() off by -1".toList :=
  exists_of_described? described?_longGuard

/-- The removals of the last two stages are what unbalances that source. -/
theorem describe_remains_longGuard :
    ∃ prepared, ofSource .reactThreeFiber longGuard false = .ok prepared ∧
      Balance.describe (Outcome.remains .reactThreeFiber longGuard) ≠ [] := by
  obtain ⟨prepared, file, made, isFile, same⟩ := exists_of_described? described?_longGuard
  obtain ⟨_, _, _, held, isHeld, balanced⟩ := describe_source_iff made
  rw [isFile] at isHeld
  obtain rfl := Option.some.inj isHeld
  have unbalanced : "() off by -1".toList ≠ [] := by decide +kernel
  exact ⟨prepared, made, fun settled => unbalanced (same ▸ balanced.mpr settled)⟩

end Prepared

end SceneBundler
