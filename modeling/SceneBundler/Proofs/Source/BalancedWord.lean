import SceneBundler.Proofs.Source.Behind
import SceneBundler.Proofs.Source.Nested

/-!
Contract: balanced words of one kind of bracket.

Owns:
- a balanced word by the numbers of openers and closers in its beginnings;
- that the test for balanced words, which counts what is open, accepts just these, and looks at the brackets
  of the kind only;
- that a word is balanced just if the pairing finds a partner for each of its brackets.

Does not own: how brackets of different kinds stand to each other.
-/

namespace SceneBundler.Source

/-- A balanced word in one kind of bracket: no beginning has more closers than openers, and there are as
many of the one as of the other. -/
structure IsBalancedWord (kind : BracketKind) (text : Text) : Prop where
  neverShort : ∀ count, (text.take count).count kind.closer ≤ (text.take count).count kind.opener
  even : text.count kind.opener = text.count kind.closer

variable {kind : BracketKind} {text : Text}

/-! ## Counting what is open -/

theorem isBalancedFrom_cons (kind : BracketKind) (depth : Nat) (c : Char) (rest : Text) :
    isBalancedFrom kind depth (c :: rest) =
      if c = kind.opener then isBalancedFrom kind (depth + 1) rest
      else if c = kind.closer then
        match depth with
        | 0 => false
        | outer + 1 => isBalancedFrom kind outer rest
      else isBalancedFrom kind depth rest := by
  cases depth <;> rfl

/-- A statement about all beginnings of a text is one about the empty beginning and about those that
hold its first character. -/
theorem forall_take_cons {holds : Text -> Prop} {c : Char} {rest : Text} :
    (∀ count, holds ((c :: rest).take count)) ↔ holds [] ∧ ∀ count, holds (c :: rest.take count) := by
  constructor
  · intro all
    exact ⟨all 0, fun count => all (count + 1)⟩
  · rintro ⟨none, some⟩ (_ | count)
    · exact none
    · exact some count

/-- Behind some openers the test accepts a text just if no beginning closes more than is open, and
everything is closed in the end. -/
theorem isBalancedFrom_iff (depth : Nat) :
    isBalancedFrom kind depth text = true ↔
      (∀ count, (text.take count).count kind.closer ≤ depth + (text.take count).count kind.opener) ∧
        depth + text.count kind.opener = text.count kind.closer := by
  have differ : kind.opener ≠ kind.closer := BracketPairs.Pairs.opener_ne_closer
  induction text generalizing depth with
  | nil => simp [isBalancedFrom]
  | cons c rest inductionHypothesis =>
      rw [isBalancedFrom_cons, @forall_take_cons
        (fun taken => taken.count kind.closer ≤ depth + taken.count kind.opener)]
      by_cases opens : c = kind.opener
      · subst opens
        rw [if_pos rfl]
        refine (inductionHypothesis (depth + 1)).trans ?_
        simp only [List.count_cons_self, List.count_cons_of_ne differ, List.count_nil, Nat.le_add_left,
          true_and]
        refine and_congr (forall_congr' fun count => ?_) ?_
        · omega
        · omega
      · by_cases closes : c = kind.closer
        · subst closes
          rw [if_neg opens, if_pos rfl]
          simp only [List.count_cons_self, List.count_cons_of_ne (Ne.symm differ)]
          cases depth with
          | zero =>
              refine iff_of_false Bool.false_ne_true ?_
              rintro ⟨⟨_, never⟩, _⟩
              have first := never 0
              simp at first
          | succ outer =>
              refine (inductionHypothesis outer).trans ?_
              simp only [List.count_nil, Nat.zero_le, true_and]
              refine and_congr (forall_congr' fun count => ?_) ?_
              · omega
              · omega
        · rw [if_neg opens, if_neg closes]
          refine (inductionHypothesis depth).trans ?_
          simp only [List.count_cons_of_ne opens, List.count_cons_of_ne closes, List.count_nil,
            Nat.zero_le, true_and]

/-- The test for balanced words accepts just the balanced words. -/
theorem isBalanced_iff : isBalanced kind text = true ↔ IsBalancedWord kind text := by
  rw [isBalanced, isBalancedFrom_iff]
  simp only [Nat.zero_add]
  exact ⟨fun ⟨neverShort, even⟩ => ⟨neverShort, even⟩, fun word => ⟨word.neverShort, word.even⟩⟩

/-- The brackets of a kind in a text, in their order. -/
def BracketKind.bracketsOf (kind : BracketKind) (text : Text) : Text :=
  text.filter fun c => c == kind.opener || c == kind.closer

theorem isBalancedFrom_bracketsOf (depth : Nat) :
    isBalancedFrom kind depth (kind.bracketsOf text) = isBalancedFrom kind depth text := by
  induction text generalizing depth with
  | nil => rfl
  | cons c rest inductionHypothesis =>
      rw [BracketKind.bracketsOf] at inductionHypothesis ⊢
      rw [isBalancedFrom_cons kind depth c rest, List.filter_cons]
      by_cases opens : c = kind.opener
      · rw [if_pos (by simp [opens]), if_pos opens, isBalancedFrom_cons, if_pos opens, inductionHypothesis]
      · by_cases closes : c = kind.closer
        · rw [if_pos (by simp [closes]), if_neg opens, if_pos closes, isBalancedFrom_cons, if_neg opens,
            if_pos closes]
          cases depth with
          | zero => rfl
          | succ outer => exact inductionHypothesis outer
        · rw [if_neg (by simp [opens, closes]), if_neg opens, if_neg closes, inductionHypothesis]

/-- Whether a word is balanced in a kind depends on its brackets of that kind only. -/
theorem isBalancedWord_congr {first second : Text}
    (same : kind.bracketsOf first = kind.bracketsOf second) :
    IsBalancedWord kind first ↔ IsBalancedWord kind second := by
  rw [← isBalanced_iff, ← isBalanced_iff, isBalanced, isBalanced, ← isBalancedFrom_bracketsOf, same,
    isBalancedFrom_bracketsOf]

/-! ## Pairing -/

namespace BracketPairs

variable {openers : List Nat} {offset : Nat} {pairs : BracketPairs}

/-- Whether pairs hold a partner for each of some open brackets, and for each bracket of the kind in the
text that is ahead at an offset. -/
structure PairsUp (kind : BracketKind) (open_ : List Nat) (offset : Nat) (text : Text)
    (found : BracketPairs) : Prop where
  outer : ∀ opened ∈ open_, ∃ closed, (opened, closed) ∈ found
  openers : ∀ place, text[place]? = some kind.opener → ∃ closed, (offset + place, closed) ∈ found
  closers : ∀ place, text[place]? = some kind.closer → ∃ opened, (opened, offset + place) ∈ found

/-- The brackets that are open, and the pairs found so far, as they are on the way through a text: all
of them stand before the place that is reached, and nothing open is paired. -/
structure OnTheWay (openers : List Nat) (offset : Nat) (pairs : BracketPairs) : Prop where
  apart : openers.Nodup
  before : ∀ opened ∈ openers, opened < offset
  pairedBefore : ∀ pair ∈ pairs, pair.1 < offset ∧ pair.2 < offset
  unpaired : ∀ opened ∈ openers, ∀ pair ∈ pairs, pair.1 ≠ opened

namespace OnTheWay

theorem start : OnTheWay [] 0 [] where
  apart := List.nodup_nil
  before := nofun
  pairedBefore := nofun
  unpaired := nofun

theorem pass (way : OnTheWay openers offset pairs) : OnTheWay openers (offset + 1) pairs where
  apart := way.apart
  before := fun opened member => Nat.lt_succ_of_lt (way.before opened member)
  pairedBefore := fun pair member =>
    (way.pairedBefore pair member).imp Nat.lt_succ_of_lt Nat.lt_succ_of_lt
  unpaired := way.unpaired

theorem push (way : OnTheWay openers offset pairs) :
    OnTheWay (offset :: openers) (offset + 1) pairs where
  apart := List.nodup_cons.mpr ⟨fun member => Nat.lt_irrefl _ (way.before offset member), way.apart⟩
  before := List.forall_mem_cons.mpr ⟨Nat.lt_succ_self offset, way.pass.before⟩
  pairedBefore := way.pass.pairedBefore
  unpaired := List.forall_mem_cons.mpr
    ⟨fun pair member => Nat.ne_of_lt (way.pairedBefore pair member).1, way.unpaired⟩

theorem pop {opened : Nat} {outer : List Nat} (way : OnTheWay (opened :: outer) offset pairs) :
    OnTheWay outer (offset + 1) ((opened, offset) :: pairs) where
  apart := (List.nodup_cons.mp way.apart).2
  before := fun other member => Nat.lt_succ_of_lt (way.before other (List.mem_cons_of_mem _ member))
  pairedBefore := List.forall_mem_cons.mpr
    ⟨⟨Nat.lt_succ_of_lt (way.before opened List.mem_cons_self), Nat.lt_succ_self offset⟩,
      way.pass.pairedBefore⟩
  unpaired := fun other member => List.forall_mem_cons.mpr
    ⟨fun (same : opened = other) => (List.nodup_cons.mp way.apart).1 (same ▸ member),
      way.unpaired other (List.mem_cons_of_mem _ member)⟩

end OnTheWay

/-- What was paired stays paired. -/
theorem mem_ofKind_of_mem {pair : Nat × Nat} (member : pair ∈ pairs) :
    pair ∈ ofKind kind openers offset text pairs := by
  induction text generalizing openers offset pairs with
  | nil => exact member
  | cons c rest inductionHypothesis =>
      rw [ofKind_cons]
      split
      · exact inductionHypothesis member
      · split
        · cases openers with
          | nil => exact inductionHypothesis member
          | cons opened outer => exact inductionHypothesis (List.mem_cons_of_mem _ member)
        · exact inductionHypothesis member

theorem pairsUp_cons {c : Char} {rest : Text} {found : BracketPairs} :
    PairsUp kind openers offset (c :: rest) found ↔
      (c = kind.opener → ∃ closed, (offset, closed) ∈ found) ∧
        (c = kind.closer → ∃ opened, (opened, offset) ∈ found) ∧
          PairsUp kind openers (offset + 1) rest found := by
  have shift (place : Nat) : offset + 1 + place = offset + (place + 1) := by omega
  constructor
  · rintro ⟨outer, ahead, closers⟩
    refine ⟨fun opens => ahead 0 (congrArg some opens), fun closes => closers 0 (congrArg some closes),
      outer, fun place isThere => ?_, fun place isThere => ?_⟩
    · rw [shift]
      exact ahead (place + 1) isThere
    · rw [shift]
      exact closers (place + 1) isThere
  · rintro ⟨opens, closes, outer, ahead, closers⟩
    refine ⟨outer, ?_, ?_⟩
    · rintro (_ | place) isThere
      · exact opens (Option.some.inj isThere)
      · rw [← shift]
        exact ahead place isThere
    · rintro (_ | place) isThere
      · exact closes (Option.some.inj isThere)
      · rw [← shift]
        exact closers place isThere

theorem pairsUp_push {opened : Nat} {found : BracketPairs} :
    PairsUp kind (opened :: openers) offset text found ↔
      (∃ closed, (opened, closed) ∈ found) ∧ PairsUp kind openers offset text found :=
  ⟨fun ⟨outer, ahead, closers⟩ =>
      ⟨outer opened List.mem_cons_self,
        (List.forall_mem_cons.mp outer).2, ahead, closers⟩,
    fun ⟨here, outer, ahead, closers⟩ => ⟨List.forall_mem_cons.mpr ⟨here, outer⟩, ahead, closers⟩⟩

/-- On the way through a text, everything gets its partner just if what is ahead closes all that is
open and is balanced beyond that. -/
theorem pairsUp_iff (way : OnTheWay openers offset pairs) :
    PairsUp kind openers offset text (ofKind kind openers offset text pairs) ↔
      isBalancedFrom kind openers.length text = true := by
  have differ : kind.opener ≠ kind.closer := Pairs.opener_ne_closer
  induction text generalizing openers offset pairs with
  | nil =>
      rw [isBalancedFrom, beq_iff_eq, List.length_eq_zero_iff]
      constructor
      · intro pairsUp
        refine List.eq_nil_iff_forall_not_mem.mpr fun opened member => ?_
        obtain ⟨closed, isPair⟩ := pairsUp.outer opened member
        exact way.unpaired opened member _ isPair rfl
      · rintro rfl
        exact ⟨nofun, nofun, nofun⟩
  | cons c rest inductionHypothesis =>
      rw [isBalancedFrom_cons, ofKind_cons, pairsUp_cons]
      by_cases opens : c = kind.opener
      · subst opens
        rw [if_pos rfl, if_pos rfl]
        refine Iff.trans ?_ (inductionHypothesis way.push)
        rw [pairsUp_push]
        simp [differ]
      · rw [if_neg opens, if_neg opens]
        by_cases closes : c = kind.closer
        · subst closes
          rw [if_pos rfl, if_pos rfl]
          cases openers with
          | nil =>
              -- a closer with nothing open gets no partner: all pairs end in front of it or behind it
              refine iff_of_false (fun ⟨_, partner, _⟩ => ?_) Bool.false_ne_true
              obtain ⟨opened, member⟩ := partner rfl
              rcases closer_of_mem_ofKind member with isEarlier | ⟨place, isPlace, _⟩
              · exact absurd (way.pairedBefore _ isEarlier).2 (Nat.lt_irrefl offset)
              · dsimp only at isPlace
                omega
          | cons opened outer =>
              have paired : (opened, offset) ∈
                  ofKind kind outer (offset + 1) rest ((opened, offset) :: pairs) :=
                mem_ofKind_of_mem List.mem_cons_self
              refine Iff.trans ?_ (inductionHypothesis way.pop)
              rw [pairsUp_push]
              exact ⟨fun ⟨_, _, _, pairsUp⟩ => pairsUp,
                fun pairsUp => ⟨fun same => absurd same opens, fun _ => ⟨opened, paired⟩,
                  ⟨offset, paired⟩, pairsUp⟩⟩
        · rw [if_neg closes, if_neg closes]
          refine Iff.trans ?_ (inductionHypothesis way.pass)
          simp [opens, closes]

/-- Every bracket of a text has a partner just if the text is a balanced word in each kind. -/
theorem allPaired_iff : AllPaired text ↔ ∀ kind, IsBalancedWord kind text := by
  refine forall_congr' fun kind => ?_
  have whole := @pairsUp_iff kind text [] 0 [] OnTheWay.start
  rw [← isBalanced_iff, isBalanced, ← List.length_nil, ← whole]
  constructor
  · intro partners
    refine ⟨nofun, fun place isThere => ?_, fun place isThere => ?_⟩
    · rw [Nat.zero_add]
      exact (partners place).1 isThere
    · rw [Nat.zero_add]
      exact (partners place).2 isThere
  · intro pairsUp place
    refine ⟨fun isThere => ?_, fun isThere => ?_⟩
    · have partner := pairsUp.openers place isThere
      rwa [Nat.zero_add] at partner
    · have partner := pairsUp.closers place isThere
      rwa [Nat.zero_add] at partner

end BracketPairs

end SceneBundler.Source
