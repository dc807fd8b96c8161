import SceneBundler.Text.Basic

/-!
Contract: what sorting leaves of a list.

Owns:
- that a sorted list is a rearrangement of the list it was made from;
- that it is in the order of the comparison;
- that leaving out repetitions changes no membership, for lists and sets of texts, and no order;
- that the order of texts is total, and that a set of texts holds nothing twice.

Does not own: any particular comparison.
-/

namespace SceneBundler

namespace Order

variable {Item : Type} {le : Item -> Item -> Bool}

theorem perm_insert (item : Item) (items : List Item) :
    (insert le item items).Perm (item :: items) := by
  induction items with
  | nil => exact List.Perm.refl _
  | cons first rest inductionHypothesis =>
      rw [insert]
      split
      · exact List.Perm.refl _
      · exact (inductionHypothesis.cons first).trans (List.Perm.swap item first rest)

theorem perm_sort (items : List Item) : (sort le items).Perm items := by
  induction items with
  | nil => exact List.Perm.refl _
  | cons first rest inductionHypothesis =>
      exact (perm_insert first (sort le rest)).trans (inductionHypothesis.cons first)

@[simp] theorem mem_sort {item : Item} {items : List Item} : item ∈ sort le items ↔ item ∈ items :=
  (perm_sort items).mem_iff

/-- A sorted list is in any order that the comparison decides one way or the other. -/
theorem pairwise_sort {before : Item -> Item -> Prop}
    (ofLe : ∀ first second, le first second = true → before first second)
    (ofNotLe : ∀ first second, ¬le first second = true → before second first)
    (trans : ∀ first second third, before first second → before second third → before first third)
    (items : List Item) : (sort le items).Pairwise before := by
  have insertKeeps (item : Item) (items : List Item) (ordered : items.Pairwise before) :
      (insert le item items).Pairwise before := by
    induction items with
    | nil => exact List.pairwise_singleton _ _
    | cons first rest inductionHypothesis =>
        obtain ⟨firstBefore, orderedRest⟩ := List.pairwise_cons.mp ordered
        rw [insert]
        split
        next isLe =>
          have here := ofLe item first isLe
          refine List.pairwise_cons.mpr ⟨fun other member => ?_, ordered⟩
          rcases List.mem_cons.mp member with rfl | isLater
          · exact here
          · exact trans _ _ _ here (firstBefore other isLater)
        next notLe =>
          refine List.pairwise_cons.mpr ⟨fun other member => ?_, inductionHypothesis orderedRest⟩
          rcases List.mem_cons.mp ((perm_insert item rest).mem_iff.mp member) with rfl | isLater
          · exact ofNotLe _ _ notLe
          · exact firstBefore other isLater
  induction items with
  | nil => exact List.Pairwise.nil
  | cons first rest inductionHypothesis => exact insertKeeps first _ inductionHypothesis

/-- A list in order stays as it is. -/
theorem sort_eq_self {items : List Item} (ordered : items.Pairwise fun first second => le first second = true) :
    sort le items = items := by
  induction items with
  | nil => rfl
  | cons item rest inductionHypothesis =>
      obtain ⟨first, later⟩ := List.pairwise_cons.mp ordered
      rw [sort, List.foldr_cons, ← sort, inductionHypothesis later]
      cases rest with
      | nil => rfl
      | cons next others => exact if_pos (first next List.mem_cons_self)

/-- Sorting commutes with a change of the items that their comparison does not see. -/
theorem sort_map {change : Item -> Item}
    (same : ∀ first second, le (change first) (change second) = le first second)
    (items : List Item) : sort le (items.map change) = (sort le items).map change := by
  have insert_map (item : Item) (items : List Item) :
      insert le (change item) (items.map change) = (insert le item items).map change := by
    induction items with
    | nil => rfl
    | cons first rest inductionHypothesis =>
        rw [List.map_cons, insert, insert, same, inductionHypothesis]
        split <;> rfl
  induction items with
  | nil => rfl
  | cons first rest inductionHypothesis =>
      have sorted := insert_map first (sort le rest)
      rw [← inductionHypothesis] at sorted
      exact sorted

end Order

section Repetitions

variable {Item : Type} [BEq Item] [LawfulBEq Item]

private theorem mem_eraseReps_loop {item first : Item} {items passed : List Item} :
    item ∈ List.eraseRepsBy.loop (· == ·) first items passed ↔
      item ∈ passed ∨ item = first ∨ item ∈ items := by
  induction items generalizing first passed with
  | nil => simp [List.eraseRepsBy.loop, or_comm]
  | cons next rest inductionHypothesis =>
      rw [List.eraseRepsBy.loop]
      split
      next repeated =>
        obtain rfl := beq_iff_eq.mp repeated
        rw [inductionHypothesis, List.mem_cons]
        simp
      next => rw [inductionHypothesis, List.mem_cons, List.mem_cons]; grind

@[simp] theorem mem_eraseReps {item : Item} {items : List Item} :
    item ∈ items.eraseReps ↔ item ∈ items := by
  cases items with
  | nil => rfl
  | cons first rest =>
      rw [List.eraseReps, List.eraseRepsBy, mem_eraseReps_loop]
      simp

omit [LawfulBEq Item] in
theorem eraseReps_sublist {items : List Item} : items.eraseReps.Sublist items := by
  have loop_sublist (first : Item) (items passed : List Item) :
      (List.eraseRepsBy.loop (· == ·) first items passed).Sublist
        (passed.reverse ++ first :: items) := by
    induction items generalizing first passed with
    | nil => simp [List.eraseRepsBy.loop]
    | cons next rest inductionHypothesis =>
        rw [List.eraseRepsBy.loop]
        split
        · exact (inductionHypothesis first passed).trans
            (((List.sublist_cons_self next rest).cons_cons first).append_left _)
        · simpa using inductionHypothesis next (first :: passed)
  cases items with
  | nil => exact List.Sublist.refl _
  | cons first rest => exact loop_sublist first rest []

/-- Nothing is left twice of an ordered list, where items that come no later than each other are the
same. -/
theorem nodup_eraseReps {before : Item -> Item -> Prop} (antisymm : ∀ {first second},
      before first second → before second first → first = second)
    (trans : ∀ {first second third}, before first second → before second third → before first third)
    {items : List Item} (ordered : items.Pairwise before) : items.eraseReps.Nodup := by
  have nodup_loop (first : Item) (items passed : List Item) (ordered : (first :: items).Pairwise before)
      (earlier : ∀ item ∈ passed, before item first ∧ item ≠ first) (nodup : passed.Nodup) :
      (List.eraseRepsBy.loop (· == ·) first items passed).Nodup := by
    induction items generalizing first passed with
    | nil =>
        refine List.Perm.nodup (List.reverse_perm (first :: passed)).symm ?_
        exact List.nodup_cons.mpr ⟨fun member => (earlier first member).2 rfl, nodup⟩
    | cons next rest inductionHypothesis =>
        rw [List.pairwise_cons] at ordered
        have isBefore := ordered.1 next List.mem_cons_self
        rw [List.eraseRepsBy.loop]
        split
        next =>
          refine inductionHypothesis first passed ?_ earlier nodup
          exact List.pairwise_cons.mpr ⟨fun other member => ordered.1 other (List.mem_cons_of_mem next member),
            (List.pairwise_cons.mp ordered.2).2⟩
        next different =>
          have isOther : first ≠ next := fun same => by simp [same] at different
          refine inductionHypothesis next (first :: passed) ordered.2 (fun item member => ?_) ?_
          · rcases List.mem_cons.mp member with rfl | isEarlier
            · exact ⟨isBefore, isOther⟩
            · have before := earlier item isEarlier
              refine ⟨trans before.1 isBefore, fun same => ?_⟩
              exact isOther (antisymm isBefore (same ▸ before.1))
          · exact List.nodup_cons.mpr ⟨fun member => (earlier first member).2 rfl, nodup⟩
  cases items with
  | nil => exact List.nodup_nil
  | cons first rest => exact nodup_loop first rest [] ordered nofun List.nodup_nil

end Repetitions

namespace Text

theorem le_total {first second : Text} (later : ¬le first second = true) : le second first = true := by
  induction first generalizing second with
  | nil => exact absurd rfl later
  | cons c rest inductionHypothesis =>
      cases second with
      | nil => rfl
      | cons d others =>
          rw [le] at later ⊢
          split at later
          next same =>
            rw [if_pos same.symm]
            exact inductionHypothesis later
          next different =>
            rw [if_neg (Ne.symm different)]
            have ordered : d ≤ c := Char.not_lt.mp (by simpa using later)
            exact decide_eq_true (Char.not_le.mp fun back => different (Char.le_antisymm back ordered))

theorem le_antisymm {first second : Text} (earlier : le first second = true)
    (later : le second first = true) : first = second := by
  induction first generalizing second with
  | nil =>
      cases second with
      | nil => rfl
      | cons d others => exact nomatch later
  | cons c rest inductionHypothesis =>
      cases second with
      | nil => exact nomatch earlier
      | cons d others =>
          rw [le] at earlier later
          split at earlier
          next same =>
            subst same
            rw [if_pos rfl] at later
            rw [inductionHypothesis earlier later]
          next different =>
            rw [if_neg (Ne.symm different)] at later
            exact absurd (of_decide_eq_true later) (Char.lt_asymm (of_decide_eq_true earlier))

theorem le_trans {first second third : Text} (earlier : le first second = true)
    (later : le second third = true) : le first third = true := by
  induction first generalizing second third with
  | nil => rfl
  | cons c rest inductionHypothesis =>
      cases second with
      | nil => exact nomatch earlier
      | cons d others =>
          cases third with
          | nil => exact nomatch later
          | cons e ends =>
              rw [le] at earlier later ⊢
              split at earlier
              next sameFirst =>
                subst sameFirst
                split at later
                next sameLast =>
                  rw [if_pos sameLast]
                  exact inductionHypothesis earlier later
                next different =>
                  rw [if_neg different]
                  exact later
              next different =>
                have isBefore : c < d := of_decide_eq_true earlier
                split at later
                next sameLast =>
                  subst sameLast
                  rw [if_neg different]
                  exact earlier
                next =>
                  have isLast : d < e := of_decide_eq_true later
                  have whole : c < e := Char.lt_trans isBefore isLast
                  rw [if_neg (Char.ne_of_lt whole)]
                  exact decide_eq_true whole

@[simp] theorem mem_sortedSet {text : Text} {texts : List Text} :
    text ∈ sortedSet texts ↔ text ∈ texts := by
  rw [sortedSet, mem_eraseReps, Order.mem_sort]

theorem pairwise_sort_le (texts : List Text) :
    (Order.sort le texts).Pairwise fun first second => le first second = true :=
  @Order.pairwise_sort Text le _ (fun _ _ earlier => earlier) (fun _ _ later => le_total later)
    (fun _ _ _ => le_trans) texts

theorem nodup_sortedSet (texts : List Text) : (sortedSet texts).Nodup :=
  nodup_eraseReps le_antisymm le_trans (pairwise_sort_le texts)

/-- What is left of a list is settled by its members. -/
theorem sortedSet_eq_iff {first second : List Text} :
    sortedSet first = sortedSet second ↔ ∀ text, text ∈ first ↔ text ∈ second := by
  constructor
  · intro same text
    rw [← mem_sortedSet, same, mem_sortedSet]
  · intro same
    have ordered (texts : List Text) :
        (sortedSet texts).Pairwise fun first second => le first second = true :=
      (pairwise_sort_le texts).sublist eraseReps_sublist
    have isPerm : (sortedSet first).Perm (sortedSet second) :=
      (List.perm_ext_iff_of_nodup (nodup_sortedSet first) (nodup_sortedSet second)).mpr fun text => by
        rw [mem_sortedSet, mem_sortedSet, same text]
    exact isPerm.eq_of_pairwise (fun _ _ _ _ => le_antisymm) (ordered first) (ordered second)

end Text

end SceneBundler
