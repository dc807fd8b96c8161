import SceneBundler.Proofs.Balance.Settled
import SceneBundler.Proofs.Source.BalancedWord

/-!
Contract: what an empty description of a source says.

Owns:
- sequences of tags that are well nested, and that a stack finds no tag without a partner in just these;
- that a kind of bracket is off by nothing just if the source is a balanced word in it;
- that the description of a source is empty just if its brackets are balanced words and its tags well
  nested.

Does not own: what is done about a source that is not balanced.
-/

namespace SceneBundler

namespace Source.Tag

/-! ## Well nested tags -/

/-- The tags that need a partner. -/
def paired (tags : List Tag) : List Tag :=
  tags.filter (·.kind != .selfClosing)

/-- The sequences of tags in which every opening tag is closed by a closing tag of its name around a
sequence of this sort. -/
inductive WellNested : List Tag -> Prop where
  | nil : WellNested []
  | append {first second : List Tag} (wellFirst : WellNested first) (wellSecond : WellNested second) :
      WellNested (first ++ second)
  | enclosed {first last : Tag} {inner : List Tag} (opens : first.kind = .opening)
      (closes : last.kind = .closing) (sameName : first.name = last.name)
      (wellInner : WellNested inner) : WellNested (first :: (inner ++ [last]))

/-- Whether tags close some open ones, innermost first, with well nested tags in front of each closing
tag and behind the last one. -/
def Closes : (stack : List Tag) -> List Tag -> Prop
  | [], tags => WellNested tags
  | innermost :: outer, tags => ∃ inside last behind, tags = inside ++ last :: behind ∧
      WellNested inside ∧ last.kind = .closing ∧ innermost.name = last.name ∧ Closes outer behind

theorem Closes.append {stack first tags : List Tag} (wellFirst : WellNested first)
    (closes : Closes stack tags) : Closes stack (first ++ tags) := by
  cases stack with
  | nil => exact wellFirst.append closes
  | cons innermost outer =>
      obtain ⟨inside, last, behind, rfl, wellInside, isClosing, sameName, closesOuter⟩ := closes
      exact ⟨first ++ inside, last, behind, by simp, wellFirst.append wellInside, isClosing, sameName,
        closesOuter⟩

/-- A tag that opens is closed together with the tags inside it, in front of those that close the
rest. -/
theorem Closes.opening {stack tags : List Tag} {tag : Tag} (opens : tag.kind = .opening)
    (closes : Closes (tag :: stack) tags) : Closes stack (tag :: tags) := by
  obtain ⟨inside, last, behind, rfl, wellInside, isClosing, sameName, closesOuter⟩ := closes
  have whole : tag :: (inside ++ last :: behind) = tag :: (inside ++ [last]) ++ behind := by simp
  rw [whole]
  exact closesOuter.append (.enclosed opens isClosing sameName wellInside)

theorem paired_cons (tag : Tag) (tags : List Tag) :
    paired (tag :: tags) = if tag.kind = .selfClosing then paired tags else tag :: paired tags := by
  rw [paired, List.filter_cons]
  by_cases isSelf : tag.kind = .selfClosing <;> simp [isSelf, paired]

/-- Tags that leave nothing unpaired behind some open ones close these. -/
theorem closes_of_unpaired {stack tags : List Tag} (none : unpaired stack tags = []) :
    Closes stack (paired tags) := by
  induction tags generalizing stack with
  | nil =>
      obtain rfl : stack = [] := List.reverse_eq_nil_iff.mp none
      exact .nil
  | cons tag rest inductionHypothesis =>
      obtain ⟨next, step, noneLater⟩ := exists_stackStep_of_paired none
      have closesRest := inductionHypothesis noneLater
      rw [paired_cons]
      cases step with
      | selfClosing isSelf => rwa [if_pos isSelf]
      | opening opens =>
          rw [if_neg (by simp [opens])]
          exact closesRest.opening opens
      | closing closes sameName =>
          rw [if_neg (by simp [closes])]
          exact ⟨[], tag, paired rest, rfl, .nil, closes, sameName, closesRest⟩

/-- A stack comes out of well nested tags as it was. -/
theorem unpaired_append_of_wellNested {tags : List Tag} (well : WellNested tags)
    (stack behind : List Tag) : unpaired stack (tags ++ behind) = unpaired stack behind := by
  induction well generalizing stack behind with
  | nil => rfl
  | append _ _ firstHypothesis secondHypothesis =>
      rw [List.append_assoc, firstHypothesis, secondHypothesis]
  | @enclosed first last inner opens closes sameName _ innerHypothesis =>
      have whole : first :: (inner ++ [last]) ++ behind = first :: (inner ++ last :: behind) := by simp
      rw [whole, unpaired_cons (.opening opens), innerHypothesis, unpaired_cons (.closing closes sameName)]
      rfl

/-- Tags that close themselves make no difference to a stack. -/
theorem unpaired_paired (stack tags : List Tag) : unpaired stack (paired tags) = unpaired stack tags := by
  induction tags generalizing stack with
  | nil => rfl
  | cons tag rest inductionHypothesis =>
      obtain ⟨next, left, step⟩ := exists_stackStep tag stack
      rw [paired_cons]
      by_cases isSelf : tag.kind = .selfClosing
      · rw [if_pos isSelf, inductionHypothesis, unpaired_cons (.selfClosing isSelf), List.nil_append]
      · rw [if_neg isSelf, unpaired_cons step, unpaired_cons step, inductionHypothesis]

/-- A stack finds no tag without a partner just if the tags that need one are well nested. -/
theorem unpaired_eq_nil_iff {tags : List Tag} :
    unpaired [] tags = [] ↔ WellNested (paired tags) := by
  constructor
  · exact closes_of_unpaired
  · intro well
    have whole := unpaired_append_of_wellNested well [] []
    rwa [List.append_nil, unpaired_paired] at whole

end Source.Tag

namespace Balance

open Source (BracketKind Tag IsBalancedWord)

/-! ## Excess -/

theorem ofKind_cons (kind : BracketKind) (c : Char) (text : Text) :
    Excess.ofKind kind (c :: text) = Excess.ofKind kind text +
      if c = kind.opener then 1 else if c = kind.closer then -1 else 0 := by
  have differ : kind.opener ≠ kind.closer := Source.BracketPairs.Pairs.opener_ne_closer
  rw [Excess.ofKind, Excess.ofKind, List.count_cons, List.count_cons]
  by_cases opens : c = kind.opener
  · subst opens
    simp only [beq_self_eq_true, if_true, beq_iff_eq, if_neg differ]
    omega
  · by_cases closes : c = kind.closer
    · subst closes
      simp only [beq_self_eq_true, if_true, beq_iff_eq, if_neg opens]
      omega
    · simp only [beq_iff_eq, if_neg opens, if_neg closes]
      omega

/-- The least difference is above a bound just if it was above before, and the difference behind every
beginning of the text is. -/
theorem le_lowest_tally_iff {kind : BracketKind} {bound net lowest : Int} {text : Text}
    (above : bound ≤ net) :
    bound ≤ (tally kind net lowest text).2 ↔
      bound ≤ lowest ∧ ∀ count, bound ≤ net + Excess.ofKind kind (text.take count) := by
  have none : Excess.ofKind kind [] = 0 := by simp [Excess.ofKind]
  induction text generalizing net lowest with
  | nil => simpa [tally, none] using fun _ => above
  | cons c rest inductionHypothesis =>
      rw [tally, @Source.forall_take_cons fun taken => bound ≤ net + Excess.ofKind kind taken, none]
      simp only [ofKind_cons]
      by_cases opens : c = kind.opener
      · rw [if_pos opens]
        refine (inductionHypothesis (by omega)).trans (and_congr_right' ?_)
        simp only [if_pos opens]
        constructor
        · intro all
          refine ⟨by omega, fun count => ?_⟩
          have := all count
          omega
        · rintro ⟨_, all⟩ count
          have := all count
          omega
      · simp only [if_neg opens]
        by_cases closes : c = kind.closer
        · simp only [if_pos closes]
          by_cases stillAbove : bound ≤ net - 1
          · refine (inductionHypothesis stillAbove).trans ?_
            rw [Int.le_min]
            constructor
            · rintro ⟨⟨before, _⟩, all⟩
              refine ⟨before, by omega, fun count => ?_⟩
              have := all count
              omega
            · rintro ⟨before, _, all⟩
              refine ⟨⟨before, stillAbove⟩, fun count => ?_⟩
              have := all count
              omega
          · -- the closer at the front already goes below the bound
            refine iff_of_false ?_ ?_
            · intro stays
              have lower := lowest_tally_le kind (net - 1) (min lowest (net - 1)) rest
              omega
            · rintro ⟨_, _, all⟩
              have first := all 0
              rw [List.take_zero, none] at first
              omega
        · simp only [if_neg closes, Int.add_zero]
          refine (inductionHypothesis above).trans (and_congr_right' ?_)
          exact (and_iff_right (by omega)).symm

/-- A kind of bracket is off by nothing just if the text is a balanced word in it. -/
theorem excess_eq_zero_iff_isBalancedWord {kind : BracketKind} {masked : Text} :
    excess kind masked = 0 ↔ IsBalancedWord kind masked := by
  have net := net_tally kind 0 0 masked
  have lowest := lowest_tally_le kind 0 0 masked
  have never := @le_lowest_tally_iff kind 0 0 0 masked (Int.le_refl 0)
  simp only [Int.le_refl, true_and, Int.zero_add, Excess.ofKind] at net never
  rw [excess_eq_zero_iff]
  constructor
  · rintro ⟨noneLeft, notShort⟩
    refine ⟨fun count => ?_, by omega⟩
    have := never.mp (by omega) count
    omega
  · rintro ⟨neverShort, even⟩
    refine ⟨by omega, ?_⟩
    have least := never.mpr fun count => by
      have := neverShort count
      omega
    omega

/-- The description of a source is empty just if its masked view is a balanced word in each kind of
bracket, and the tags that the view shows are well nested, self-closing ones left out.  The view is a
balanced word in each kind just if the pairing finds a partner for each of its brackets. -/
theorem balanced_iff_describe_eq_nil (text : Text) :
    (describe text = [] ↔
      (∀ kind, IsBalancedWord kind (Source.mask text)) ∧
        Tag.WellNested (Tag.paired (Tag.scan (Source.mask text)))) ∧
    ((∀ kind, IsBalancedWord kind (Source.mask text)) ↔
      Source.BracketPairs.AllPaired (Source.mask text)) := by
  refine ⟨?_, Source.BracketPairs.allPaired_iff.symm⟩
  rw [describe_eq_nil_iff, problems_eq_nil_iff, Tag.unpaired_eq_nil_iff]
  exact and_congr_left' (forall_congr' fun kind => excess_eq_zero_iff_isBalancedWord)

end Balance

end SceneBundler
