import SceneBundler.Balance.Repair
import SceneBundler.Proofs.Balance.Heading
import SceneBundler.Proofs.Source.View
import SceneBundler.Proofs.Text.Joined
import SceneBundler.Source.Tag

/-!
Contract: a balanced source needs no repair.

Owns:
- that in tags which a stack pairs all, counting the tags of one name finds a closing tag for every opening
  tag;
- that a sweep over the lines of a balanced source removes none of them;
- that a balanced source has no dangling tags;
- that a repair changes nothing just if its source is balanced, and so never changes again what it has
  balanced.

Does not own: what a repair does to a source that is not balanced.
-/

namespace SceneBundler.Source.Tag

/-- While tags of a name are open, one of the tags that a stack pairs all closes them. -/
theorem isSome_closingPosition? {stack tags : List Tag} {name : Text} {depth : Nat}
    (paired : unpaired stack tags = []) (isOpen : depth < (stack.map Tag.name).count name)
    (position : Nat) : (closingPosition? name depth position tags).isSome = true := by
  induction tags generalizing stack depth position with
  | nil =>
      have noStack : stack = [] := List.reverse_eq_nil_iff.mp paired
      simp [noStack] at isOpen
  | cons tag rest inductionHypothesis =>
      obtain ⟨next, step, pairedRest⟩ := exists_stackStep_of_paired paired
      rw [closingPosition?.eq_def]
      dsimp only
      by_cases same : tag.name = name
      · rw [if_pos same]
        cases step with
        | selfClosing isSelf =>
            rw [isSelf]
            exact inductionHypothesis pairedRest isOpen _
        | opening opens =>
            rw [opens]
            refine inductionHypothesis pairedRest ?_ _
            rw [List.map_cons, same, List.count_cons_self]
            omega
        | closing closes sameName =>
            rw [closes]
            cases depth with
            | zero => rfl
            | succ depth =>
                refine inductionHypothesis pairedRest ?_ _
                rw [List.map_cons, sameName, same, List.count_cons_self] at isOpen
                omega
      · rw [if_neg same]
        refine inductionHypothesis pairedRest ?_ _
        cases step with
        | selfClosing _ => exact isOpen
        | opening _ => rwa [List.map_cons, List.count_cons_of_ne same]
        | closing _ sameName => rwa [List.map_cons, sameName, List.count_cons_of_ne same] at isOpen

/-- Tags that a stack pairs all leave none unpaired from any place on, with the tags open there. -/
theorem exists_stack_of_append {stack before after : List Tag}
    (paired : unpaired stack (before ++ after) = []) : ∃ open', unpaired open' after = [] := by
  induction before generalizing stack with
  | nil => exact ⟨stack, paired⟩
  | cons tag rest inductionHypothesis =>
      obtain ⟨next, -, pairedRest⟩ := exists_stackStep_of_paired paired
      exact inductionHypothesis pairedRest

/-- Every opening tag has a closing tag in tags without an unpaired one. -/
theorem isSome_findClosing? {tags : List Tag} (paired : unpaired [] tags = []) {position : Nat}
    {tag : Tag} (isTag : tags[position]? = some tag) (isOpening : tag.kind = .opening) :
    (findClosing? tags position).isSome = true := by
  obtain ⟨inside, same⟩ := List.getElem?_eq_some_iff.mp isTag
  have ahead : tags.drop position = tag :: tags.drop (position + 1) := by
    rw [List.drop_eq_getElem_cons inside, same]
  rw [← List.take_append_drop position tags, ahead] at paired
  obtain ⟨stack, pairedAhead⟩ := exists_stack_of_append paired
  rw [unpaired_cons (.opening isOpening), List.nil_append] at pairedAhead
  rw [findClosing?, ahead]
  refine isSome_closingPosition? pairedAhead ?_ _
  rw [List.map_cons, List.count_cons_self]
  omega

end SceneBundler.Source.Tag

namespace SceneBundler.Balance

open Source (BracketKind Tag)

/-! ## Brackets line by line -/

/-- The openers less the closers of one kind. -/
def Excess.of (excess : Excess) : BracketKind -> Int
  | .round => excess.round
  | .square => excess.square
  | .curly => excess.curly

theorem Excess.of_add (first second : Excess) (kind : BracketKind) :
    (first.add second).of kind = first.of kind + second.of kind := by
  cases kind <;> rfl

theorem Excess.isShort_eq_false {excess : Excess} (enough : ∀ kind, 0 ≤ excess.of kind) :
    excess.isShort = false := by
  have round : 0 ≤ excess.round := enough .round
  have square : 0 ≤ excess.square := enough .square
  have curly : 0 ≤ excess.curly := enough .curly
  simp only [Excess.isShort, Bool.or_eq_false_iff, decide_eq_false_iff_not]
  omega

theorem net_tally (kind : BracketKind) (net lowest : Int) (text : Text) :
    (tally kind net lowest text).1 = net + Excess.ofKind kind text := by
  have differ : kind.opener ≠ kind.closer := by cases kind <;> decide
  induction text generalizing net lowest with
  | nil => simp [tally, Excess.ofKind]
  | cons c rest inductionHypothesis =>
      rw [tally, Excess.ofKind, List.count_cons, List.count_cons]
      by_cases opens : c = kind.opener
      · subst opens
        rw [if_pos rfl, inductionHypothesis, Excess.ofKind]
        simp only [beq_self_eq_true, if_true, beq_iff_eq, if_neg differ]
        omega
      · by_cases closes : c = kind.closer
        · subst closes
          rw [if_neg opens, if_pos rfl, inductionHypothesis, Excess.ofKind]
          simp only [beq_self_eq_true, if_true, beq_iff_eq, if_neg differ.symm]
          omega
        · rw [if_neg opens, if_neg closes, inductionHypothesis, Excess.ofKind]
          simp only [beq_iff_eq, if_neg opens, if_neg closes, Nat.add_zero]

theorem of_ofText (kind : BracketKind) (line : Text) :
    (Excess.ofText line).of kind = Excess.ofKind kind line := by
  cases kind <;> rfl

/-- Reading on can only lower the least difference. -/
theorem lowest_tally_le (kind : BracketKind) (net lowest : Int) (text : Text) :
    (tally kind net lowest text).2 ≤ lowest := by
  induction text generalizing net lowest with
  | nil => exact Int.le_refl _
  | cons c rest inductionHypothesis =>
      rw [tally]
      split
      · exact inductionHypothesis ..
      · split
        · exact Int.le_trans (inductionHypothesis ..) (Int.min_le_left _ _)
        · exact inductionHypothesis ..

/-- Whether no closer of the text comes too early behind the given differences. -/
def NeverShort (excess : Excess) (text : Text) : Prop :=
  ∀ kind, 0 ≤ (tally kind (excess.of kind) 0 text).2

theorem NeverShort.append {excess : Excess} {first second : Text}
    (never : NeverShort excess (first ++ second)) (enough : ∀ kind, 0 ≤ excess.of kind) :
    (∀ kind, 0 ≤ (excess.add (Excess.ofText first)).of kind) ∧
      NeverShort (excess.add (Excess.ofText first)) second := by
  have after : ∀ kind, tally kind (excess.of kind) 0 first =
      ((excess.add (Excess.ofText first)).of kind, 0) := by
    intro kind
    have lower := lowest_tally_le kind (tally kind (excess.of kind) 0 first).1
      (tally kind (excess.of kind) 0 first).2 second
    have whole := never kind
    rw [tally_append] at whole
    have upper := lowest_tally_le kind (excess.of kind) 0 first
    refine Prod.ext ?_ ?_
    · rw [net_tally, Excess.of_add, of_ofText]
    · dsimp only
      omega
  refine ⟨?_, ?_⟩
  · intro kind
    have ordered := @lowest_le_net kind _ _ first (enough kind)
    rw [after] at ordered
    exact ordered
  · intro kind
    have whole := never kind
    rw [tally_append, after] at whole
    exact whole

theorem NeverShort.of_break {excess : Excess} {rest : Text}
    (never : NeverShort excess ('\n' :: rest)) : NeverShort excess rest := by
  intro kind
  have notOpener : '\n' ≠ kind.opener := by cases kind <;> decide
  have notCloser : '\n' ≠ kind.closer := by cases kind <;> decide
  have whole := never kind
  rwa [tally, if_neg notOpener, if_neg notCloser] at whole

/-! ## Lines -/

/-- A sweep keeps a line behind which no kind of bracket is short. -/
theorem Sweep.step_of_enough {sweep : Sweep} {line : Line}
    (enough : ∀ kind, 0 ≤ (sweep.excess.add line.excess).of kind) :
    ∃ afterStatement, sweep.step line =
      ⟨sweep.excess.add line.excess, afterStatement, line :: sweep.kept, sweep.removed⟩ := by
  have stays : sweep.finds line = false := by
    rw [Sweep.finds, Excess.isShort_eq_false enough]
    simp
  rw [Sweep.step, stays]
  exact ⟨_, rfl⟩

theorem Sweep.foldl_of_neverShort {lines : List Line} {sweep : Sweep}
    (enough : ∀ kind, 0 ≤ sweep.excess.of kind)
    (never : NeverShort sweep.excess (Text.join ['\n'] (lines.map Line.masked))) :
    (lines.foldl Sweep.step sweep).kept = lines.reverse ++ sweep.kept ∧
      (lines.foldl Sweep.step sweep).removed = sweep.removed ∧
      ∀ kind, 0 ≤ (lines.foldl Sweep.step sweep).excess.of kind := by
  induction lines generalizing sweep with
  | nil => exact ⟨rfl, rfl, enough⟩
  | cons line rest inductionHypothesis =>
      have parts : NeverShort sweep.excess
          (line.masked ++ (Text.join ['\n'] ((line :: rest).map Line.masked)).drop
            line.masked.length) ∧
          (rest ≠ [] → (Text.join ['\n'] ((line :: rest).map Line.masked)).drop
            line.masked.length = '\n' :: Text.join ['\n'] (rest.map Line.masked)) := by
        cases rest with
        | nil =>
            refine ⟨?_, fun some => absurd rfl some⟩
            simpa [Text.join] using never
        | cons second others =>
            simp only [List.map_cons, Text.join_cons_cons] at never ⊢
            rw [List.drop_left]
            exact ⟨never, fun _ => rfl⟩
      obtain ⟨enoughHere, neverBehind⟩ := parts.1.append enough
      obtain ⟨afterStatement, stepped⟩ := Sweep.step_of_enough enoughHere
      have neverRest : NeverShort (sweep.excess.add line.excess)
          (Text.join ['\n'] (rest.map Line.masked)) := by
        cases rest with
        | nil =>
            intro kind
            exact Int.le_refl 0
        | cons second others =>
            rw [parts.2 (by simp)] at neverBehind
            exact neverBehind.of_break
      rw [List.foldl_cons, stepped]
      obtain ⟨kept, removed, least⟩ := @inductionHypothesis
        ⟨sweep.excess.add line.excess, afterStatement, line :: sweep.kept, sweep.removed⟩
        enoughHere neverRest
      refine ⟨?_, removed, least⟩
      rw [kept]
      simp

theorem length_split_mask (text : Text) :
    (Text.split '\n' (Source.mask text)).length = (Text.split '\n' text).length := by
  refine (Text.length_split_of_forall₂ ?_).symm
  exact (Source.forall₂_mask text).imp fun _ _ kept => kept.isLineBreak_iff.symm

theorem map_masked_ofSource (text : Text) :
    (Line.ofSource text).map Line.masked = Text.split '\n' (Source.mask text) := by
  have same : Line.masked ∘ (fun row : (Text × Text) × Nat => Line.mk row.2 row.1.1 row.1.2) =
      Prod.fst ∘ Prod.fst := rfl
  rw [Line.ofSource, List.map_map]
  change List.map (Prod.fst ∘ Prod.fst) _ = _
  rw [← List.map_map, List.zipIdx_map_fst, List.map_fst_zip]
  exact Nat.le_of_eq (length_split_mask text)

theorem map_text_ofSource (text : Text) :
    (Line.ofSource text).map Line.text = Text.split '\n' text := by
  rw [Line.ofSource, List.map_map]
  change List.map (Prod.snd ∘ Prod.fst) _ = _
  rw [← List.map_map, List.zipIdx_map_fst, List.map_snd_zip]
  exact Nat.le_of_eq (length_split_mask text).symm

/-! ## Balanced sources -/

theorem excess_eq_zero_iff {kind : BracketKind} {masked : Text} :
    excess kind masked = 0 ↔
      (tally kind 0 0 masked).1 = 0 ∧ (tally kind 0 0 masked).2 = 0 := by
  unfold excess
  dsimp only
  split <;> omega

theorem problems_eq_nil_iff {masked : Text} :
    problems masked = [] ↔
      (∀ kind, excess kind masked = 0) ∧ Tag.unpaired [] (Tag.scan masked) = [] := by
  rw [problems, List.append_eq_nil_iff, List.map_eq_nil_iff, Tag.unbalanced_eq_nil_iff,
    List.filterMap_eq_nil_iff]
  refine and_congr_left' ?_
  have everyKind : ∀ kind, kind ∈ BracketKind.all := by
    intro kind
    cases kind <;> decide
  constructor
  · intro none kind
    have noProblem := none kind (everyKind kind)
    unfold bracketProblem? at noProblem
    dsimp only at noProblem
    by_contra off
    rw [if_neg off] at noProblem
    contradiction
  · intro even kind _
    unfold bracketProblem?
    dsimp only
    rw [if_pos (even kind)]

/-- A sweep keeps all lines of a balanced source, and no kind of bracket is short behind them. -/
theorem Sweep.ofLines_of_balanced {text : Text} {lines : List Line} (balanced : describe text = [])
    (shown : Text.join ['\n'] (lines.map Line.masked) = Source.mask text) :
    (Sweep.ofLines lines).kept = lines.reverse ∧ (Sweep.ofLines lines).removed = [] ∧
      ∀ kind, 0 ≤ (Sweep.ofLines lines).excess.of kind := by
  obtain ⟨even, _⟩ := problems_eq_nil_iff.mp (describe_eq_nil_iff.mp balanced)
  have never : NeverShort Excess.none (Text.join ['\n'] (lines.map Line.masked)) := by
    intro kind
    have noExcess : Excess.none.of kind = 0 := by cases kind <;> rfl
    have lowest := (excess_eq_zero_iff.mp (even kind)).2
    rw [shown, noExcess]
    exact Int.le_of_eq lowest.symm
  have enough : ∀ kind, 0 ≤ Excess.none.of kind := by
    intro kind
    cases kind <;> exact Int.le_refl 0
  obtain ⟨kept, removed, least⟩ := @Sweep.foldl_of_neverShort lines Sweep.initial enough never
  exact ⟨kept.trans (List.append_nil _), removed, least⟩

/-- Nothing is trimmed from the end where no kind of bracket is short. -/
theorem trimTrailing_of_enough {excess : Excess} (enough : excess.isShort = false) (lines : List Line) :
    trimTrailing excess lines = (lines, []) := by
  cases lines with
  | nil => rfl
  | cons line earlier =>
      rw [trimTrailing, enough]
      rfl

theorem removeOrphanLines_of_balanced {text : Text} (balanced : describe text = []) :
    removeOrphanLines text = (text, []) := by
  have shown : Text.join ['\n'] ((Line.ofSource text).map Line.masked) = Source.mask text := by
    rw [map_masked_ofSource, Text.join_split]
  obtain ⟨kept, removed, least⟩ := Sweep.ofLines_of_balanced balanced shown
  unfold removeOrphanLines
  dsimp only
  rw [trimTrailing_of_enough (Excess.isShort_eq_false least), kept, removed]
  simp only [List.reverse_reverse, List.reverse_nil, List.map_nil, List.append_nil]
  rw [map_text_ofSource, Text.join_split]

theorem danglingTags_eq_nil {tags : List Tag} (paired : Tag.unpaired [] tags = []) :
    danglingTags tags = [] := by
  rw [danglingTags, List.filterMap_eq_nil_iff]
  rintro ⟨tag, position⟩ member
  have isTag : tags[position]? = some tag := List.mem_zipIdx_iff_getElem?.mp member
  dsimp only
  by_cases isOpening : tag.kind = .opening
  · have closed := Tag.isSome_findClosing? paired isTag isOpening
    have notDangling : (Tag.findClosing? tags position).isNone = false := by
      rw [← Option.not_isSome, closed]
      rfl
    simp [notDangling]
  · simp [isOpening]

theorem closeDanglingTags_of_balanced {text : Text} (balanced : describe text = []) :
    closeDanglingTags text = (text, []) := by
  obtain ⟨_, paired⟩ := problems_eq_nil_iff.mp (describe_eq_nil_iff.mp balanced)
  unfold closeDanglingTags
  dsimp only
  rw [danglingTags_eq_nil paired]
  rfl

/-- Where the removal of orphans leaves a balanced source, a repair does nothing more. -/
theorem repair_eq_removeOrphanLines {text : Text} (balanced : describe (removeOrphanLines text).1 = []) :
    repair text = removeOrphanLines text := by
  unfold repair
  dsimp only
  rw [closeDanglingTags_of_balanced balanced]
  dsimp only
  rw [balanced, List.append_nil]
  exact Prod.ext rfl (List.append_nil _)

theorem repair_of_balanced {text : Text} (balanced : describe text = []) :
    repair text = (text, []) := by
  have removed := removeOrphanLines_of_balanced balanced
  rw [repair_eq_removeOrphanLines (by rwa [removed]), removed]

/-- The code of the report on what a repair could not settle. -/
def imbalanceCode : Text :=
  "structural_imbalance".toList

/-- Every report of the removal of orphans is one on a line that was removed. -/
theorem exists_eq_orphanRemoved {text : Text} {finding : Diagnostic}
    (member : finding ∈ (removeOrphanLines text).2) : ∃ lead line, finding = orphanRemoved lead line := by
  unfold removeOrphanLines at member
  dsimp only at member
  rcases List.mem_append.mp member with swept | trailing
  · obtain ⟨line, _, rfl⟩ := List.mem_map.mp swept
    exact ⟨_, line, rfl⟩
  · obtain ⟨line, _, rfl⟩ := List.mem_map.mp trailing
    exact ⟨_, line, rfl⟩

theorem code_of_mem_removeOrphanLines {text : Text} {finding : Diagnostic}
    (member : finding ∈ (removeOrphanLines text).2) :
    finding.code = "orphan_closer_removed".toList := by
  obtain ⟨lead, line, rfl⟩ := exists_eq_orphanRemoved member
  rfl

theorem code_of_mem_closeDanglingTags {text : Text} {finding : Diagnostic}
    (member : finding ∈ (closeDanglingTags text).2) :
    finding.code = "unclosed_tag_self_closed".toList := by
  unfold closeDanglingTags at member
  dsimp only at member
  obtain ⟨tag, _, rfl⟩ := List.mem_map.mp member
  rfl

/-- A repair reports an imbalance just if its result is not balanced. -/
theorem describe_repair_eq_nil_iff (text : Text) :
    describe (repair text).1 = [] ↔ ∀ finding ∈ (repair text).2, finding.code ≠ imbalanceCode := by
  have otherCodes : ∀ finding ∈ (removeOrphanLines text).2 ++
      (closeDanglingTags (removeOrphanLines text).1).2, finding.code ≠ imbalanceCode := by
    intro finding member
    rcases List.mem_append.mp member with orphan | dangling
    · rw [code_of_mem_removeOrphanLines orphan]
      decide
    · rw [code_of_mem_closeDanglingTags dangling]
      decide
  unfold repair
  dsimp only
  by_cases settled : describe (closeDanglingTags (removeOrphanLines text).1).1 = []
  · refine iff_of_true settled ?_
    rw [if_pos (List.isEmpty_iff.mpr settled), List.append_nil]
    exact otherCodes
  · refine iff_of_false settled fun noReport => ?_
    rw [if_neg (fun empty => settled (List.isEmpty_iff.mp empty))] at noReport
    exact noReport _ (List.mem_append_right _ (List.mem_singleton_self _)) rfl

/-- A repair leaves a source as it is and reports nothing just if the source is balanced; and a second
repair changes and reports nothing just if the first one reports no imbalance. -/
theorem repair_eq_self_iff (text : Text) :
    (repair text = (text, []) ↔ describe text = []) ∧
      (repair (repair text).1 = ((repair text).1, []) ↔
        ∀ finding ∈ (repair text).2, finding.code ≠ imbalanceCode) := by
  have settled : ∀ source, repair source = (source, []) ↔ describe source = [] := by
    intro source
    refine ⟨?_, repair_of_balanced⟩
    intro unchanged
    have noReport : ∀ finding ∈ (repair source).2, finding.code ≠ imbalanceCode := by
      rw [unchanged]
      simp
    have balanced := (describe_repair_eq_nil_iff source).mpr noReport
    rwa [unchanged] at balanced
  refine ⟨settled text, ?_⟩
  rw [settled, describe_repair_eq_nil_iff]

end SceneBundler.Balance
