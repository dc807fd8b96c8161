import Mathlib.Data.List.Basic
import SceneBundler.Proofs.Text.Pieces

/-!
Contract: the places at which deletions bring together what was apart.

Owns:
- the offsets in what deletions leave at which something was taken out;
- that a stretch of what is left with no such place at its beginning or within it stood in the text as it
  is, untouched by every deletion;
- that a deletion which is passed over begins within one that is made.

Does not own: which deletions are made.
-/

namespace SceneBundler

theorem Text.length_slice {text : Text} {start stop : Nat} (inside : stop ≤ text.length) :
    (Text.slice text start stop).length = stop - start := by
  rw [Text.slice, List.length_take, List.length_drop]
  omega

/-- Of two ways to cut a text in two, the later one cuts the rest of the earlier one. -/
theorem Text.exists_between {first second third fourth : Text} (split : first ++ second = third ++ fourth)
    (inOrder : first.length ≤ third.length) : ∃ extra, third = first ++ extra ∧ second = extra ++ fourth := by
  rcases List.append_eq_append_iff.mp split with ⟨extra, isThird, isSecond⟩ | ⟨extra, isFirst, isFourth⟩
  · exact ⟨extra, isThird, isSecond⟩
  · have lengths := congrArg List.length isFirst
    rw [List.length_append] at lengths
    have none : extra = [] := List.length_eq_zero_iff.mp (by omega)
    subst none
    exact ⟨[], by rw [isFirst, List.append_nil, List.append_nil], isFourth.symm⟩

namespace Edit

/-- The offsets at which deletions that follow one another took something out, behind what was kept of a
text so far. -/
def jointsFrom : (cursor kept : Nat) -> List Edit -> List Nat
  | _, _, [] => []
  | cursor, kept, edit :: rest =>
      (kept + (edit.start - cursor)) :: jointsFrom edit.stop (kept + (edit.start - cursor)) rest

/-- The offsets in what a set of deletions leaves at which something was taken out. -/
def joints (edits : List Edit) : List Nat :=
  jointsFrom 0 0 (applied 0 (sorted edits))

/-- Whether none of some offsets is at the beginning of a stretch between two offsets or within it. -/
def Seamless (joints : List Nat) (start stop : Nat) : Prop :=
  ∀ joint ∈ joints, joint < start ∨ stop ≤ joint

/-- Whether an edit ends before a stretch or begins behind it. -/
def Misses (edit : Edit) (start stop : Nat) : Prop :=
  edit.stop ≤ start ∨ stop ≤ edit.start

theorem start_le_of_follow {cursor : Nat} {edits : List Edit} (follow : Follow cursor edits)
    (ordered : ∀ edit ∈ edits, edit.start ≤ edit.stop) : ∀ edit ∈ edits, cursor ≤ edit.start := by
  induction edits generalizing cursor with
  | nil => exact nofun
  | cons first rest inductionHypothesis =>
      intro edit member
      obtain ⟨inOrder, followRest⟩ := follow
      rcases List.mem_cons.mp member with isFirst | isLater
      · exact isFirst ▸ inOrder
      · have later := inductionHypothesis followRest
          (fun other isOther => ordered other (List.mem_cons_of_mem first isOther)) edit isLater
        exact Nat.le_trans inOrder (Nat.le_trans (ordered first List.mem_cons_self) later)

/-- Whether a stretch stands in the text from the cursor on, at its beginning or behind the same character
that it is now behind, and edits miss it. -/
def StandsFrom (text : Text) (cursor : Nat) (before stretch : Text) (edits : List Edit) : Prop :=
  ∃ passed rest, text.drop cursor = passed ++ (stretch ++ rest) ∧
    (before = [] ∧ passed = [] ∨ before ≠ [] ∧ passed.getLast? = before.getLast?) ∧
    ∀ edit ∈ edits, edit.Misses (cursor + passed.length) (cursor + passed.length + stretch.length)

namespace StandsFrom

variable {text before stretch : Text} {cursor : Nat} {edit : Edit} {rest : List Edit}

/-- A stretch that edits begin behind stands where it did. -/
theorem of_start_le {edits : List Edit} {behind : Text} (split : text.drop cursor = before ++ (stretch ++ behind))
    (areBehind : ∀ edit ∈ edits, cursor + before.length + stretch.length ≤ edit.start) :
    StandsFrom text cursor before stretch edits := by
  refine ⟨before, behind, split, ?_, fun edit member => Or.inr (areBehind edit member)⟩
  by_cases isFirst : before = []
  · exact Or.inl ⟨isFirst, isFirst⟩
  · exact Or.inr ⟨isFirst, rfl⟩

/-- A stretch that stands behind a deletion, but not directly behind it, stands behind it together with
what was deleted. -/
theorem behind_deletion (stands : StandsFrom text edit.stop before stretch rest) (someBefore : before ≠ [])
    (nonempty : stretch ≠ []) (inOrder : cursor ≤ edit.start) (ordered : edit.start ≤ edit.stop) :
    StandsFrom text cursor (Text.slice text cursor edit.start ++ before) stretch (edit :: rest) := by
  obtain ⟨passed, behind, split, last, misses⟩ := stands
  obtain ⟨-, sameLast⟩ : before ≠ [] ∧ passed.getLast? = before.getLast? :=
    last.resolve_left fun both => someBefore both.1
  have somePassed : passed ≠ [] := by
    rintro rfl
    exact someBefore (List.getLast?_eq_none_iff.mp sameLast.symm)
  have stopInside : edit.stop ≤ text.length := by
    have room := congrArg List.length split
    have longer := List.length_pos_iff.mpr nonempty
    simp only [List.length_drop, List.length_append] at room
    omega
  have reached : cursor + (Text.slice text cursor edit.stop ++ passed).length = edit.stop + passed.length := by
    rw [List.length_append, Text.length_slice stopInside]
    omega
  refine ⟨Text.slice text cursor edit.stop ++ passed, behind, ?_, Or.inr ⟨by simp [someBefore], ?_⟩, ?_⟩
  · rw [Text.drop_eq_slice_append text (Nat.le_trans inOrder ordered), split, List.append_assoc]
  · rw [List.getLast?_append_of_ne_nil _ someBefore, List.getLast?_append_of_ne_nil _ somePassed, sameLast]
  · rw [reached]
    exact List.forall_mem_cons.mpr ⟨Or.inl (Nat.le_add_right _ _), misses⟩

end StandsFrom

/-- A stretch without a joint stood in the text behind the same character, and every deletion missed
it. -/
theorem standsFrom_of_splice {text stretch after : Text} (nonempty : stretch ≠ []) {edits : List Edit}
    (deletions : ∀ edit ∈ edits, edit.IsDeletion) (inside : ∀ edit ∈ edits, edit.start ≤ text.length)
    {cursor kept : Nat} (follow : Follow cursor edits) {before : Text}
    (left : splice text cursor edits = before ++ (stretch ++ after))
    (seamless : Seamless (jointsFrom cursor kept edits) (kept + before.length)
      (kept + before.length + stretch.length)) : StandsFrom text cursor before stretch edits := by
  induction edits generalizing cursor kept before with
  | nil => exact .of_start_le left nofun
  | cons edit rest inductionHypothesis =>
      obtain ⟨⟨noReplacement, ordered⟩, deletionsRest⟩ := List.forall_mem_cons.mp deletions
      obtain ⟨startInside, insideRest⟩ := List.forall_mem_cons.mp inside
      obtain ⟨inOrder, followRest⟩ := follow
      have length := @Text.length_slice text cursor edit.start startInside
      rw [splice, noReplacement, List.append_nil] at left
      rw [jointsFrom] at seamless
      obtain ⟨seamlessHere, seamlessRest⟩ := List.forall_mem_cons.mp seamless
      rcases seamlessHere with isBefore | isBehind
      · -- The stretch stands behind the deletion, and not directly behind it.
        obtain ⟨more, rfl, leftRest⟩ := Text.exists_between left (by omega)
        have someMore : more ≠ [] := by
          rintro rfl
          rw [List.append_nil] at isBefore
          omega
        rw [List.length_append, length, ← Nat.add_assoc] at seamlessRest
        exact (inductionHypothesis deletionsRest insideRest followRest leftRest seamlessRest).behind_deletion
          someMore nonempty inOrder ordered
      · -- The stretch ends in front of the deletion.
        rw [← List.append_assoc] at left
        obtain ⟨more, isHead, -⟩ := Text.exists_between left.symm (by rw [List.length_append]; omega)
        have later := start_le_of_follow followRest fun other isOther => (deletionsRest other isOther).2
        refine @StandsFrom.of_start_le _ _ _ _ _ (more ++ text.drop edit.start) ?_
          (List.forall_mem_cons.mpr ⟨by omega, fun other isOther => ?_⟩)
        · rw [Text.drop_eq_slice_append text inOrder, isHead]
          simp only [List.append_assoc]
        · have := later other isOther
          omega

/-- A deletion that is passed over begins within one that is made. -/
theorem mem_applied_or {edits : List Edit} (longer : ∀ edit ∈ edits, edit.start < edit.stop)
    (ordered : edits.Pairwise fun first second => first.start ≤ second.start) {cursor : Nat} {edit : Edit}
    (member : edit ∈ edits) :
    edit.start < cursor ∨ ∃ made ∈ applied cursor edits, made.start ≤ edit.start ∧ edit.start < made.stop := by
  induction edits generalizing cursor with
  | nil => contradiction
  | cons first rest inductionHypothesis =>
      obtain ⟨beforeRest, orderedRest⟩ := List.pairwise_cons.mp ordered
      have longerRest := fun other isOther => longer other (List.mem_cons_of_mem first isOther)
      rw [applied]
      split
      next isPassed =>
        rcases List.mem_cons.mp member with rfl | isLater
        · exact Or.inl isPassed
        · exact inductionHypothesis longerRest orderedRest isLater
      next =>
        rcases List.mem_cons.mp member with rfl | isLater
        · exact Or.inr ⟨edit, List.mem_cons_self, Nat.le_refl _, longer edit List.mem_cons_self⟩
        · rcases @inductionHypothesis longerRest orderedRest first.stop isLater with within | later
          · exact Or.inr ⟨first, List.mem_cons_self, beforeRest edit isLater, within⟩
          · obtain ⟨made, isMade, surrounds⟩ := later
            exact Or.inr ⟨made, List.mem_cons_of_mem first isMade, surrounds⟩

/-- Every deletion begins within one that is made, be it the same. -/
theorem exists_made {edits : List Edit} (longer : ∀ edit ∈ edits, edit.start < edit.stop) {edit : Edit}
    (member : edit ∈ edits) :
    ∃ made ∈ applied 0 (sorted edits), made.start ≤ edit.start ∧ edit.start < made.stop := by
  have longerSorted : ∀ other ∈ sorted edits, other.start < other.stop :=
    fun other isOther => longer other (mem_of_mem_sorted.mp isOther)
  exact (mem_applied_or longerSorted (pairwise_start_sorted edits) (mem_of_mem_sorted.mpr member)).resolve_left
    (Nat.not_lt_zero _)

/-- A stretch of what deletions leave, without a joint, stood in the text behind the same character, and
every deletion that was made missed it. -/
theorem exists_of_applyAll {text before stretch after : Text} (nonempty : stretch ≠ []) {edits : List Edit}
    (deletions : ∀ edit ∈ edits, edit.IsDeletion) (inside : ∀ edit ∈ edits, edit.start ≤ text.length)
    (left : applyAll edits text = before ++ (stretch ++ after))
    (seamless : Seamless (joints edits) before.length (before.length + stretch.length)) :
    ∃ passed rest, text = passed ++ (stretch ++ rest) ∧ passed.getLast? = before.getLast? ∧
      ∀ edit ∈ applied 0 (sorted edits), edit.Misses passed.length (passed.length + stretch.length) := by
  have given : ∀ edit ∈ applied 0 (sorted edits), edit ∈ edits := fun edit member =>
    mem_of_mem_sorted.mp (applied_subset 0 _ member)
  have fromStart : Seamless (jointsFrom 0 0 (applied 0 (sorted edits))) (0 + before.length)
      (0 + before.length + stretch.length) := by
    rw [Nat.zero_add]
    exact seamless
  obtain ⟨passed, rest, split, last, misses⟩ := standsFrom_of_splice nonempty
    (fun edit member => deletions edit (given edit member))
    (fun edit member => inside edit (given edit member)) (follow_applied 0 _) left fromStart
  rw [Nat.zero_add] at misses
  refine ⟨passed, rest, split, ?_, misses⟩
  rcases last with ⟨rfl, rfl⟩ | ⟨_, sameLast⟩
  · rfl
  · exact sameLast

end Edit

end SceneBundler
