import SceneBundler.Preparation.Run
import SceneBundler.Preparation.Verdict
import SceneBundler.Proofs.Entry.Naming
import SceneBundler.Proofs.Text.Ordered

/-!
Contract: what the stages of a run find.

Owns:
- the findings of one stage in the source that the stages before it leave;
- that a stage signs its findings with its own name, and blocks a run in one way at most;
- the findings of a run, stage after stage.

Does not own: what follows from the findings.
-/

namespace SceneBundler

namespace Stage

/-- The one way in which a stage can block a run. -/
def blocker? : Stage -> Option Blocker
  | normalize => none
  | repair => some .structuralImbalance
  | resolve => some .emptyComponentManifest
  | entry => some .noEntryPointCandidate

/-- Whether a finding is one that a stage can make: under the stage's name, and blocking only with the
code of the stage's blocker. -/
def Signs (stage : Stage) (finding : Diagnostic) : Prop :=
  finding.stage = stage.name ∧
    (finding.isError = true → ∃ blocker, stage.blocker? = some blocker ∧ finding.code = blocker.code)

theorem signs_warning (stage : Stage) (code : String) (message : Text) (line : Option Nat) :
    stage.Signs (.warning stage code message line) := by
  refine ⟨rfl, ?_⟩
  intro isError
  exact absurd isError (by simp [Diagnostic.isError, Diagnostic.warning])

theorem signs_error {stage : Stage} {blocker : Blocker} {code : String} (message : Text)
    (blocks : stage.blocker? = some blocker) (sameCode : code.toList = blocker.code) :
    stage.Signs (.error stage code message) :=
  ⟨rfl, fun _ => ⟨blocker, blocks, sameCode⟩⟩

/-- The findings of a stage in a source. -/
def findings (catalog : Catalog) (text : Text) : Stage -> List Diagnostic
  | normalize => (Dialect.normalize text).2
  | repair => (Balance.repair text).2
  | resolve => (Imports.resolve catalog text).diagnostics
  | entry => (Entry.synthesize catalog text).2

/-- A stage puts its findings after those made before it. -/
theorem diagnostics_run (catalog : Catalog) (outcome : Outcome) (stage : Stage) :
    (stage.run catalog outcome).diagnostics =
      outcome.diagnostics ++ stage.findings catalog outcome.text := by
  cases stage <;> rfl

/-- What a stage makes of a source. -/
def output (catalog : Catalog) (text : Text) : Stage -> Text
  | normalize => (Dialect.normalize text).1
  | repair => (Balance.repair text).1
  | resolve => (Imports.resolve catalog text).text
  | entry => (Entry.synthesize catalog text).1

theorem text_run (catalog : Catalog) (outcome : Outcome) (stage : Stage) :
    (stage.run catalog outcome).text = stage.output catalog outcome.text := by
  unfold run output
  cases stage with
  | normalize =>
      generalize Dialect.normalize outcome.text = result
      rfl
  | repair =>
      generalize Balance.repair outcome.text = result
      rfl
  | resolve =>
      generalize Imports.resolve catalog outcome.text = result
      rfl
  | entry =>
      generalize Entry.synthesize catalog outcome.text = result
      rfl

/-! ## Each stage on its own -/

private theorem signs_of_convertEnum {text masked : Text} {pairs : Source.BracketPairs}
    {found : Match} {finding : Diagnostic}
    (converted : Dialect.convertEnum text masked pairs found = some (.inr finding)) :
    normalize.Signs finding := by
  unfold Dialect.convertEnum at converted
  dsimp only at converted
  cases closes : pairs.closerOf? (found.stop - 1) with
  | none =>
      rw [closes] at converted
      exact absurd converted (Option.some_ne_none _).symm
  | some closed =>
      rw [closes] at converted
      cases members : Dialect.readMembers? text masked (some 0)
          (Dialect.splitTopLevel masked (found.stop - 1 + 1) closed) with
      | none =>
          simp only [members] at converted
          obtain rfl := Sum.inr.inj (Option.some.inj converted)
          exact signs_warning ..
      | some _ =>
          simp only [members] at converted
          exact absurd (Option.some.inj converted) Sum.inl_ne_inr

theorem signs_normalize {text : Text} {finding : Diagnostic}
    (member : finding ∈ (Dialect.normalize text).2) : normalize.Signs finding := by
  rcases List.mem_append.mp (Order.mem_sort.mp member) with unsupported | computed
  · rcases List.mem_append.mp unsupported with ofNamespace | ofClass
    · obtain ⟨_, _, rfl⟩ := List.mem_map.mp ofNamespace
      exact signs_warning ..
    · obtain ⟨_, _, rfl⟩ := List.mem_map.mp ofClass
      exact signs_warning ..
  · obtain ⟨outcome, isOutcome, isReport⟩ := List.mem_filterMap.mp computed
    obtain ⟨found, _, converted⟩ := List.mem_filterMap.mp isOutcome
    cases outcome with
    | inl edit => simp at isReport
    | inr report =>
        obtain rfl := Option.some.inj isReport
        exact signs_of_convertEnum converted

theorem signs_repair {text : Text} {finding : Diagnostic}
    (member : finding ∈ (Balance.repair text).2) : repair.Signs finding := by
  rcases List.mem_append.mp member with settled | remaining
  · rcases List.mem_append.mp settled with orphan | dangling
    · rcases List.mem_append.mp orphan with swept | trailing
      · obtain ⟨_, _, rfl⟩ := List.mem_map.mp swept
        exact signs_warning ..
      · obtain ⟨_, _, rfl⟩ := List.mem_map.mp trailing
        exact signs_warning ..
    · obtain ⟨_, _, rfl⟩ := List.mem_map.mp dangling
      exact signs_warning ..
  · split at remaining
    next => simp at remaining
    next =>
      obtain rfl := List.mem_singleton.mp remaining
      exact signs_error _ rfl rfl

private theorem signs_of_mem_statementReports {catalog : Catalog} {statement : Imports.Statement}
    {finding : Diagnostic} (member : finding ∈ Imports.statementReports catalog statement) :
    resolve.Signs finding := by
  rcases List.mem_append.mp member with ofStatement | ofBinding
  · rcases List.mem_append.mp ofStatement with renamed | dropped
    · split at renamed
      next => simp at renamed
      next =>
        obtain rfl := List.mem_singleton.mp renamed
        exact signs_warning ..
    · split at dropped
      next =>
        obtain rfl := List.mem_singleton.mp dropped
        exact signs_warning ..
      next => simp at dropped
  · obtain ⟨binding, _, reported⟩ := List.mem_filterMap.mp ofBinding
    unfold Imports.bindingReport? at reported
    split at reported
    next => contradiction
    next =>
      obtain rfl := Option.some.inj reported
      exact signs_warning ..

private theorem signs_of_mem_unknownHookReports {catalog : Catalog} {declared : List Text}
    {body masked : Text} {reported : List Text} {calls : List Match} {finding : Diagnostic}
    (member : finding ∈ Imports.unknownHookReports catalog declared body masked reported calls) :
    resolve.Signs finding := by
  induction calls generalizing reported with
  | nil => simp [Imports.unknownHookReports] at member
  | cons found rest inductionHypothesis =>
      rw [Imports.unknownHookReports] at member
      split at member
      next => exact inductionHypothesis member
      next =>
        rcases List.mem_cons.mp member with isFirst | isLater
        · exact isFirst ▸ signs_warning ..
        · exact inductionHypothesis isLater

private theorem signs_of_mem_emptyManifestReport {catalog : Catalog} {manifest : Manifest}
    {finding : Diagnostic} (member : finding ∈ Imports.emptyManifestReport catalog manifest) :
    resolve.Signs finding := by
  unfold Imports.emptyManifestReport at member
  dsimp only at member
  split at member
  next =>
    obtain rfl := List.mem_singleton.mp member
    exact signs_error _ rfl rfl
  next => exact absurd member List.not_mem_nil

theorem signs_resolve {catalog : Catalog} {text : Text} {finding : Diagnostic}
    (member : finding ∈ (Imports.resolve catalog text).diagnostics) : resolve.Signs finding := by
  rcases List.mem_append.mp member with reported | empty
  · rcases List.mem_append.mp reported with ofSource | ofHook
    · rcases List.mem_append.mp ofSource with ofStatement | ofElement
      · obtain ⟨_, _, isReport⟩ := List.mem_flatMap.mp ofStatement
        exact signs_of_mem_statementReports isReport
      · obtain ⟨_, _, rfl⟩ := List.mem_map.mp ofElement
        exact signs_warning ..
    · exact signs_of_mem_unknownHookReports ofHook
  · exact signs_of_mem_emptyManifestReport empty

theorem signs_componentEntry {catalog : Catalog} {text : Text} {finding : Diagnostic}
    (member : finding ∈ (Entry.componentEntry catalog text).2) : entry.Signs finding := by
  have ofMount (inMount : finding ∈ (Entry.stripMountCode text).2) : entry.Signs finding := by
    obtain ⟨message, line, rfl⟩ := Entry.eq_of_mem_stripMountCode inMount
    exact signs_warning ..
  rw [Entry.componentEntry_eq] at member
  cases chosen : Entry.rootOf catalog (Entry.stripped catalog text) with
  | none =>
      rw [chosen] at member
      rcases List.mem_append.mp member with inMount | missing
      · exact ofMount inMount
      · obtain rfl := List.mem_singleton.mp missing
        exact signs_error _ rfl rfl
  | some root =>
      rw [chosen] at member
      exact ofMount member

theorem signs_scriptEntry {catalog : Catalog} {text : Text} {finding : Diagnostic}
    (member : finding ∈ (Entry.scriptEntry catalog text).2) : entry.Signs finding := by
  unfold Entry.scriptEntry at member
  dsimp only at member
  split at member
  next =>
    obtain rfl := List.mem_singleton.mp member
    exact signs_error _ rfl rfl
  next =>
    split at member
    next => exact absurd member List.not_mem_nil
    next =>
      split at member
      next => exact absurd member List.not_mem_nil
      next =>
        obtain rfl := List.mem_singleton.mp member
        exact signs_warning ..

theorem signs_entry {catalog : Catalog} {text : Text} {finding : Diagnostic}
    (member : finding ∈ (Entry.synthesize catalog text).2) : entry.Signs finding := by
  unfold Entry.synthesize at member
  split at member
  next => exact signs_componentEntry member
  next => exact signs_scriptEntry member

/-- Every finding of a stage is one that the stage can make. -/
theorem signs_of_mem_findings {catalog : Catalog} {text : Text} {stage : Stage}
    {finding : Diagnostic} (member : finding ∈ stage.findings catalog text) :
    stage.Signs finding := by
  cases stage with
  | normalize => exact signs_normalize member
  | repair => exact signs_repair member
  | resolve => exact signs_resolve member
  | entry => exact signs_entry member

/-- The stages before a stage. -/
def earlier (stage : Stage) : List Stage :=
  all.takeWhile (· != stage)

end Stage

namespace Outcome

/-- What a stage of the run of a source finds. -/
def emitted (catalog : Catalog) (text : Text) (stage : Stage) : List Diagnostic :=
  stage.findings catalog (ofStages catalog stage.earlier text).text

theorem ofStages_concat (catalog : Catalog) (stages : List Stage) (stage : Stage) (text : Text) :
    ofStages catalog (stages ++ [stage]) text = stage.run catalog (ofStages catalog stages text) := by
  rw [ofStages, List.foldl_append]
  rfl

theorem text_ofStages_concat (catalog : Catalog) (stages : List Stage) (stage : Stage)
    (text : Text) :
    (ofStages catalog (stages ++ [stage]) text).text =
      stage.output catalog (ofStages catalog stages text).text := by
  rw [ofStages_concat, Stage.text_run]

/-- The stages that come before a stage in a run are those before it in the order of stages. -/
theorem earlier_of_split {before after : List Stage} {stage : Stage}
    (split : Stage.all = before ++ stage :: after) : stage.earlier = before := by
  have distinct : stage ∉ before := by
    have nodup : (before ++ stage :: after).Nodup := split ▸ by decide
    intro member
    exact (List.nodup_append.mp nodup).2.2 stage member stage (by simp) rfl
  rw [Stage.earlier, split, List.takeWhile_append_of_pos]
  · simp
  · intro other member
    simp only [bne_iff_ne]
    intro same
    exact distinct (same ▸ member)

theorem diagnostics_ofStages_concat (catalog : Catalog) (text : Text) (before : List Stage)
    (stage : Stage) {after : List Stage} (split : Stage.all = before ++ stage :: after) :
    (ofStages catalog (before ++ [stage]) text).diagnostics =
      (ofStages catalog before text).diagnostics ++ emitted catalog text stage := by
  rw [ofStages_concat, Stage.diagnostics_run, emitted, earlier_of_split split]

/-- The findings of a run are those of its stages, one stage after another. -/
theorem diagnostics_ofSource (framework : Framework) (text : Text) :
    (ofSource framework text).diagnostics =
      Stage.all.flatMap (emitted (Catalog.packaged framework) text) := by
  have first := diagnostics_ofStages_concat (Catalog.packaged framework) text
    [] .normalize rfl
  have second := diagnostics_ofStages_concat (Catalog.packaged framework) text
    [.normalize] .repair rfl
  have third := diagnostics_ofStages_concat (Catalog.packaged framework) text
    [.normalize, .repair] .resolve rfl
  have fourth := diagnostics_ofStages_concat (Catalog.packaged framework) text
    [.normalize, .repair, .resolve] .entry rfl
  simp only [List.nil_append, List.cons_append] at first second third fourth
  rw [ofSource, Stage.all, fourth, third, second, first]
  simp [ofStages, initial]

theorem signs_of_mem_emitted {catalog : Catalog} {text : Text} {stage : Stage}
    {finding : Diagnostic} (member : finding ∈ emitted catalog text stage) : stage.Signs finding :=
  Stage.signs_of_mem_findings member

end Outcome

end SceneBundler
