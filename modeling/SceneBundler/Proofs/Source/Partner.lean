import Mathlib.Data.List.Nodup
import Mathlib.Data.List.Pairwise
import SceneBundler.Proofs.Source.BalancedWord

/-!
Contract: the partner of a bracket, found by pairing and found by counting.

Owns:
- the place behind an opener at which its kind is even again for the first time, and that counting finds
  just this place;
- that the pairing of a whole text finds the same place for every opener, or none just as counting does;
- that no bracket has two partners, and that two pairs of a kind stand one inside the other or apart.

Does not own: how brackets of different kinds stand to each other.
-/

namespace SceneBundler.Source

variable {kind : BracketKind} {text : Text}

/-! ## Counting -/

/-- Whether a place of a text is the first one through which a kind of bracket is even, some being open in
front of the text. -/
structure EvensAt (kind : BracketKind) (depth : Nat) (text : Text) (place : Nat) : Prop where
  inside : place < text.length
  even : depth + (text.take (place + 1)).count kind.opener = (text.take (place + 1)).count kind.closer
  first : ∀ earlier < place,
    depth + (text.take (earlier + 1)).count kind.opener ≠ (text.take (earlier + 1)).count kind.closer

/-- What a first character does to the counts of a kind. -/
theorem count_cons_cases (c : Char) (rest : Text) :
    (c = kind.opener ∧ (c :: rest).count kind.opener = rest.count kind.opener + 1 ∧
      (c :: rest).count kind.closer = rest.count kind.closer) ∨
    (c = kind.closer ∧ (c :: rest).count kind.opener = rest.count kind.opener ∧
      (c :: rest).count kind.closer = rest.count kind.closer + 1) ∨
    (c ≠ kind.opener ∧ c ≠ kind.closer ∧ (c :: rest).count kind.opener = rest.count kind.opener ∧
      (c :: rest).count kind.closer = rest.count kind.closer) := by
  have differ : kind.opener ≠ kind.closer := BracketPairs.Pairs.opener_ne_closer
  by_cases opens : c = kind.opener
  · subst opens
    exact Or.inl ⟨rfl, List.count_cons_self, List.count_cons_of_ne differ⟩
  · by_cases closes : c = kind.closer
    · subst closes
      exact Or.inr (Or.inl ⟨rfl, List.count_cons_of_ne (Ne.symm differ), List.count_cons_self⟩)
    · exact Or.inr (Or.inr ⟨opens, closes, List.count_cons_of_ne opens, List.count_cons_of_ne closes⟩)

/-- Behind a first character that does not even the kind out, the place is the one in the rest of the
text, for as many open brackets as there are behind that character. -/
theorem evensAt_cons_iff {depth next place : Nat} {c : Char} {rest : Text}
    (steps : ∀ taken : Text, depth + (c :: taken).count kind.opener + taken.count kind.closer =
      next + taken.count kind.opener + (c :: taken).count kind.closer) (isOpen : next ≠ 0) :
    EvensAt kind depth (c :: rest) place ↔ ∃ later, place = later + 1 ∧ EvensAt kind next rest later := by
  constructor
  · intro evens
    cases place with
    | zero =>
        have here := evens.even
        have step := steps []
        simp only [List.take_succ_cons, List.take_zero, List.count_nil] at here step
        omega
    | succ later =>
        refine ⟨later, rfl, Nat.lt_of_succ_lt_succ evens.inside, ?_, fun earlier before => ?_⟩
        · have here := evens.even
          rw [List.take_succ_cons] at here
          have step := steps (rest.take (later + 1))
          omega
        · have notHere := evens.first (earlier + 1) (Nat.succ_lt_succ before)
          rw [List.take_succ_cons] at notHere
          have step := steps (rest.take (earlier + 1))
          omega
  · rintro ⟨later, rfl, evens⟩
    refine ⟨Nat.succ_lt_succ evens.inside, ?_, ?_⟩
    · have here := evens.even
      rw [List.take_succ_cons]
      have step := steps (rest.take (later + 1))
      omega
    · rintro (_ | earlier) before
      · have step := steps []
        simp only [List.take_succ_cons, List.take_zero, List.count_nil] at step ⊢
        omega
      · have notHere := evens.first earlier (Nat.lt_of_succ_lt_succ before)
        rw [List.take_succ_cons]
        have step := steps (rest.take (earlier + 1))
        omega

/-- Counting from some open brackets on finds the first place through which their kind is even. -/
theorem closingOffset?_eq_some_iff {depth offset closed : Nat} (isOpen : depth ≠ 0) :
    closingOffset? kind depth offset text = some closed ↔
      ∃ place, closed = offset + place ∧ EvensAt kind depth text place := by
  induction text generalizing depth offset with
  | nil =>
      refine iff_of_false (fun found => nomatch found) ?_
      rintro ⟨place, _, evens⟩
      exact Nat.not_lt_zero place evens.inside
  | cons c rest inductionHypothesis =>
      -- the place is in the rest of the text unless this character evens the kind out
      have later {next : Nat} (stillOpen : next ≠ 0)
          (steps : ∀ taken : Text, depth + (c :: taken).count kind.opener + taken.count kind.closer =
            next + taken.count kind.opener + (c :: taken).count kind.closer) :
          closingOffset? kind next (offset + 1) rest = some closed ↔
            ∃ place, closed = offset + place ∧ EvensAt kind depth (c :: rest) place := by
        rw [inductionHypothesis stillOpen]
        constructor
        · rintro ⟨place, isPlace, evens⟩
          exact ⟨place + 1, by omega, (evensAt_cons_iff steps stillOpen).mpr ⟨place, rfl, evens⟩⟩
        · rintro ⟨place, isPlace, evens⟩
          obtain ⟨behind, rfl, evensBehind⟩ := (evensAt_cons_iff steps stillOpen).mp evens
          exact ⟨behind, by omega, evensBehind⟩
      rw [closingOffset?]
      by_cases opens : c = kind.opener
      · rw [if_pos opens]
        refine later (Nat.succ_ne_zero depth) fun taken => ?_
        rcases @count_cons_cases kind c taken with ⟨_, opener, closer⟩ | ⟨closes, _⟩ | ⟨opensNot, _⟩
        · omega
        · exact absurd (opens.symm.trans closes) BracketPairs.Pairs.opener_ne_closer
        · exact absurd opens opensNot
      · rw [if_neg opens]
        by_cases closes : c = kind.closer
        · have counts (taken : Text) : (c :: taken).count kind.opener = taken.count kind.opener ∧
              (c :: taken).count kind.closer = taken.count kind.closer + 1 := by
            rcases @count_cons_cases kind c taken with ⟨opensHere, _⟩ | ⟨_, counts⟩ | ⟨_, closesNot, _⟩
            · exact absurd opensHere opens
            · exact counts
            · exact absurd closes closesNot
          rw [if_pos closes]
          by_cases isLast : depth ≤ 1
          · rw [if_pos isLast]
            have evensHere : EvensAt kind depth (c :: rest) 0 := by
              refine ⟨Nat.succ_pos _, ?_, fun _ before => absurd before (Nat.not_lt_zero _)⟩
              have here := counts []
              simp only [List.take_succ_cons, List.take_zero, List.count_nil] at here ⊢
              omega
            constructor
            · intro found
              exact ⟨0, (Option.some.inj found).symm, evensHere⟩
            · rintro ⟨place, rfl, evens⟩
              cases place with
              | zero => rfl
              | succ behind => exact absurd evensHere.even (evens.first 0 (Nat.succ_pos behind))
          · rw [if_neg isLast]
            refine later (by omega) fun taken => ?_
            have := counts taken
            omega
        · rw [if_neg closes]
          refine later isOpen fun taken => ?_
          rcases @count_cons_cases kind c taken with ⟨opensHere, _⟩ | ⟨closesHere, _⟩ | ⟨_, _, opener, closer⟩
          · exact absurd opensHere opens
          · exact absurd closesHere closes
          · omega

/-- Whether a place is the first one behind an opener at which its kind opens as often as it closes, counted
from the opener through that place. -/
structure IsPartner (kind : BracketKind) (text : Text) (opened closed : Nat) : Prop where
  behind : opened < closed
  inside : closed < text.length
  even : (Text.slice text opened (closed + 1)).count kind.opener =
    (Text.slice text opened (closed + 1)).count kind.closer
  first : ∀ place, opened < place → place < closed →
    (Text.slice text opened (place + 1)).count kind.opener ≠
      (Text.slice text opened (place + 1)).count kind.closer

theorem ofOpener?_opener (kind : BracketKind) : BracketKind.ofOpener? kind.opener = some kind := by
  cases kind <;> rfl

theorem findMatchingBracket?_opener {opened : Nat} (opens : text[opened]? = some kind.opener) :
    findMatchingBracket? text opened = closingOffset? kind 1 (opened + 1) (text.drop (opened + 1)) := by
  obtain ⟨inside, isOpener⟩ := List.getElem?_eq_some_iff.mp opens
  rw [findMatchingBracket?, opens]
  dsimp only
  rw [ofOpener?_opener]
  dsimp only
  rw [List.drop_eq_getElem_cons inside, isOpener, closingOffset?, if_pos rfl]

/-- The search for the closer of an opener finds its partner. -/
theorem findMatchingBracket?_eq_some_iff {opened closed : Nat} (opens : text[opened]? = some kind.opener) :
    findMatchingBracket? text opened = some closed ↔ IsPartner kind text opened closed := by
  obtain ⟨inside, isOpener⟩ := List.getElem?_eq_some_iff.mp opens
  have differ : kind.opener ≠ kind.closer := BracketPairs.Pairs.opener_ne_closer
  have counts (place : Nat) :
      (Text.slice text opened (opened + 1 + place + 1)).count kind.opener =
          1 + ((text.drop (opened + 1)).take (place + 1)).count kind.opener ∧
        (Text.slice text opened (opened + 1 + place + 1)).count kind.closer =
          ((text.drop (opened + 1)).take (place + 1)).count kind.closer := by
    have slice : Text.slice text opened (opened + 1 + place + 1) =
        kind.opener :: (text.drop (opened + 1)).take (place + 1) := by
      rw [Text.slice, List.drop_eq_getElem_cons inside, isOpener,
        show opened + 1 + place + 1 - opened = place + 1 + 1 by omega, List.take_succ_cons]
    rw [slice, List.count_cons_self, List.count_cons_of_ne differ]
    exact ⟨Nat.add_comm _ _, rfl⟩
  rw [findMatchingBracket?_opener opens, closingOffset?_eq_some_iff Nat.one_ne_zero]
  constructor
  · rintro ⟨place, rfl, evens⟩
    have within := evens.inside
    rw [List.length_drop] at within
    refine ⟨by omega, by omega, ?_, fun earlier after before => ?_⟩
    · rw [(counts place).1, (counts place).2]
      exact evens.even
    · obtain ⟨gap, rfl⟩ := Nat.exists_eq_add_of_lt after
      have notEven := evens.first gap (by omega)
      rw [Nat.add_right_comm opened gap 1, (counts gap).1, (counts gap).2]
      exact notEven
  · rintro ⟨behind, within, even, first⟩
    obtain ⟨place, rfl⟩ := Nat.exists_eq_add_of_lt behind
    rw [Nat.add_right_comm opened place 1] at within even first ⊢
    refine ⟨place, rfl, ?_, ?_, fun earlier before => ?_⟩
    · rw [List.length_drop]
      omega
    · rw [(counts place).1, (counts place).2] at even
      exact even
    · have notEven := first (opened + 1 + earlier) (by omega) (by omega)
      rw [(counts earlier).1, (counts earlier).2] at notEven
      exact notEven

/-! ## Pairing -/

namespace BracketPairs

/-- While a bracket is open, with others of its kind opened since, the pairing finds for it what counting
finds from as many open brackets on. -/
theorem lookup_ofKind_open {opened : Nat} {since outer : List Nat} {offset : Nat} {pairs : BracketPairs}
    (notSince : opened ∉ since) (notOuter : opened ∉ outer) (isBefore : opened < offset)
    (unpaired : pairs.lookup opened = none) :
    (ofKind kind (since ++ opened :: outer) offset text pairs).lookup opened =
      closingOffset? kind (since.length + 1) offset text := by
  induction text generalizing since offset pairs with
  | nil => exact unpaired
  | cons c rest inductionHypothesis =>
      rw [ofKind_cons, closingOffset?]
      by_cases opens : c = kind.opener
      · rw [if_pos opens, if_pos opens]
        refine @inductionHypothesis (offset :: since) _ _ ?_ (Nat.lt_succ_of_lt isBefore) unpaired
        rw [List.mem_cons, not_or]
        exact ⟨Nat.ne_of_lt isBefore, notSince⟩
      · rw [if_neg opens, if_neg opens]
        by_cases closes : c = kind.closer
        · rw [if_pos closes, if_pos closes]
          cases since with
          | nil =>
              rw [List.length_nil, Nat.zero_add, if_pos (Nat.le_refl 1), List.nil_append]
              dsimp only
              rw [lookup_ofKind notOuter fun reached => absurd reached (by omega), List.lookup_cons_self]
          | cons innermost others =>
              obtain ⟨different, notOthers⟩ : opened ≠ innermost ∧ opened ∉ others := by
                simpa using notSince
              have stillOpen : ¬ (innermost :: others).length + 1 ≤ 1 := by
                rw [List.length_cons]
                omega
              rw [if_neg stillOpen, List.cons_append]
              dsimp only
              refine inductionHypothesis notOthers (Nat.lt_succ_of_lt isBefore) ?_
              rw [List.lookup_cons, beq_false_of_ne different]
              exact unpaired
        · rw [if_neg closes, if_neg closes]
          exact inductionHypothesis notSince (Nat.lt_succ_of_lt isBefore) unpaired

/-- Pairing a whole text and searching from one opener on find the same closer, or both none. -/
theorem closerOf?_eq_findMatchingBracket? {opened : Nat} (opens : text[opened]? = some kind.opener) :
    (ofText text).closerOf? opened = findMatchingBracket? text opened := by
  obtain ⟨inside, isOpener⟩ := List.getElem?_eq_some_iff.mp opens
  have reached : (text.take opened).length = opened := List.length_take_of_le (Nat.le_of_lt inside)
  obtain ⟨others, earlier, before, read⟩ := @exists_ofKind_append kind (text.take opened) [] 0 [] (by simp)
  rw [Nat.zero_add, reached] at before read
  have unpaired : earlier.lookup opened = none := by
    have untouched : (ofKind kind [] 0 (text.take opened) []).lookup opened = none := by
      refine lookup_ofKind List.not_mem_nil fun _ => ?_
      rw [Nat.sub_zero, List.getElem?_eq_none (Nat.le_of_eq reached)]
      exact fun found => nomatch found
    have same := read []
    rw [List.append_nil] at same
    rwa [same] at untouched
  have split : text = text.take opened ++ kind.opener :: text.drop (opened + 1) := by
    rw [← isOpener, ← List.drop_eq_getElem_cons inside, List.take_append_drop]
  have notOuter : opened ∉ others := fun member => Nat.lt_irrefl _ (before opened member)
  rw [closerOf?_opener opens, findMatchingBracket?_opener opens]
  calc (ofKind kind [] 0 text []).lookup opened
      = (ofKind kind others opened (kind.opener :: text.drop (opened + 1)) earlier).lookup opened := by
        rw [← read, ← split]
    _ = (ofKind kind ([] ++ opened :: others) (opened + 1) (text.drop (opened + 1)) earlier).lookup opened := by
        rw [ofKind_cons, if_pos rfl, List.nil_append]
    _ = closingOffset? kind 1 (opened + 1) (text.drop (opened + 1)) :=
        lookup_ofKind_open List.not_mem_nil notOuter (Nat.lt_succ_self opened) unpaired

/-! ## Pairs of one kind -/

/-- How a pair stands to one that closed earlier: around it, or behind it. -/
def ClosesAfter (later earlier : Nat × Nat) : Prop :=
  earlier.2 < later.2 ∧ (later.1 < earlier.1 ∨ earlier.2 < later.1)

/-- The brackets that are open, and the pairs found so far, innermost and latest first, on the way through a
text: no open bracket stands within a pair, and every pair stands around or behind those that closed
earlier. -/
structure Layered (openers : List Nat) (offset : Nat) (pairs : BracketPairs) : Prop where
  ordered : openers.Pairwise (· > ·)
  before : ∀ opened ∈ openers, opened < offset
  outside : ∀ opened ∈ openers, ∀ pair ∈ pairs, opened < pair.1 ∨ pair.2 < opened
  closed : ∀ pair ∈ pairs, pair.1 < pair.2 ∧ pair.2 < offset
  apart : pairs.Pairwise ClosesAfter

namespace Layered

variable {openers : List Nat} {offset : Nat} {pairs : BracketPairs}

theorem start : Layered [] 0 [] where
  ordered := List.Pairwise.nil
  before := nofun
  outside := nofun
  closed := nofun
  apart := List.Pairwise.nil

theorem pass (layered : Layered openers offset pairs) : Layered openers (offset + 1) pairs where
  ordered := layered.ordered
  before := fun opened member => Nat.lt_succ_of_lt (layered.before opened member)
  outside := layered.outside
  closed := fun pair member => (layered.closed pair member).imp_right Nat.lt_succ_of_lt
  apart := layered.apart

theorem push (layered : Layered openers offset pairs) :
    Layered (offset :: openers) (offset + 1) pairs where
  ordered := List.pairwise_cons.mpr ⟨layered.before, layered.ordered⟩
  before := List.forall_mem_cons.mpr ⟨Nat.lt_succ_self offset, layered.pass.before⟩
  outside := List.forall_mem_cons.mpr
    ⟨fun pair member => Or.inr (layered.closed pair member).2, layered.outside⟩
  closed := layered.pass.closed
  apart := layered.apart

theorem pop {opened : Nat} {outer : List Nat} (layered : Layered (opened :: outer) offset pairs) :
    Layered outer (offset + 1) ((opened, offset) :: pairs) where
  ordered := (List.pairwise_cons.mp layered.ordered).2
  before := (List.forall_mem_cons.mp layered.pass.before).2
  outside := fun other member => List.forall_mem_cons.mpr
    ⟨Or.inl ((List.pairwise_cons.mp layered.ordered).1 other member),
      layered.outside other (List.mem_cons_of_mem opened member)⟩
  closed := List.forall_mem_cons.mpr
    ⟨⟨layered.before opened List.mem_cons_self, Nat.lt_succ_self offset⟩, layered.pass.closed⟩
  apart := List.pairwise_cons.mpr
    ⟨fun pair member => ⟨(layered.closed pair member).2,
      layered.outside opened List.mem_cons_self pair member⟩, layered.apart⟩

/-- Reading on leaves the brackets layered. -/
theorem exists_ofKind (layered : Layered openers offset pairs) :
    ∃ others, Layered others (offset + text.length) (ofKind kind openers offset text pairs) := by
  induction text generalizing openers offset pairs with
  | nil => exact ⟨openers, layered⟩
  | cons c rest inductionHypothesis =>
      rw [ofKind_cons, List.length_cons, Nat.add_comm rest.length, ← Nat.add_assoc]
      split
      next => exact inductionHypothesis layered.push
      next =>
        split
        next =>
          cases openers with
          | nil => exact inductionHypothesis layered.pass
          | cons opened outer => exact inductionHypothesis layered.pop
        next => exact inductionHypothesis layered.pass

end Layered

/-- Every pair of a kind stands around or behind those that closed earlier. -/
theorem pairwise_ofKind (kind : BracketKind) (text : Text) :
    (ofKind kind [] 0 text []).Pairwise ClosesAfter ∧
      ∀ pair ∈ ofKind kind [] 0 text [], pair.1 < pair.2 := by
  obtain ⟨_, layered⟩ := @Layered.exists_ofKind kind text [] 0 [] Layered.start
  exact ⟨layered.apart, fun pair member => (layered.closed pair member).1⟩

theorem nodup_openers_ofKind (kind : BracketKind) (text : Text) :
    ((ofKind kind [] 0 text []).map Prod.fst).Nodup := by
  obtain ⟨apart, ordered⟩ := pairwise_ofKind kind text
  refine List.pairwise_map.mpr (apart.imp_of_mem fun {later earlier} isLater isEarlier after => ?_)
  have := ordered earlier isEarlier
  rcases after.2 with isAround | isBehind
  · exact Nat.ne_of_lt isAround
  · omega

theorem nodup_closers_ofKind (kind : BracketKind) (text : Text) :
    ((ofKind kind [] 0 text []).map Prod.snd).Nodup :=
  List.pairwise_map.mpr ((pairwise_ofKind kind text).1.imp fun after => Nat.ne_of_gt after.1)

/-- A pair of a kind stands at brackets of this kind. -/
theorem getElem?_of_mem_ofKind {pair : Nat × Nat} (member : pair ∈ ofKind kind [] 0 text []) :
    text[pair.1]? = some kind.opener ∧ text[pair.2]? = some kind.closer := by
  constructor
  · by_contra opensNot
    have noCloser : (ofKind kind [] 0 text []).lookup pair.1 = none :=
      lookup_ofKind List.not_mem_nil fun _ => by rwa [Nat.sub_zero]
    have different := List.lookup_eq_none_iff.mp noCloser pair member
    simp at different
  · rcases closer_of_mem_ofKind member with isEarlier | ⟨place, isPlace, isCloser⟩
    · exact absurd isEarlier List.not_mem_nil
    · rw [isPlace, Nat.zero_add]
      exact isCloser

/-- What is distinct within each kind, and tells the kinds apart, is distinct in all pairs of a text. -/
theorem nodup_map_ofText {side : Nat × Nat -> Nat} {mark : BracketKind -> Char}
    (apart : ∀ first second, mark first = mark second → first = second)
    (within : ∀ kind : BracketKind, ((ofKind kind [] 0 text []).map side).Nodup)
    (marked : ∀ kind : BracketKind, ∀ pair ∈ ofKind kind [] 0 text [], text[side pair]? = some (mark kind)) :
    ((ofText text).map side).Nodup := by
  have kinds : BracketKind.all.Nodup := by decide
  rw [ofText, List.map_flatMap, List.nodup_flatMap]
  refine ⟨fun kind _ => within kind, kinds.imp fun {first second} different => ?_⟩
  refine List.disjoint_left.mpr fun {place} ofFirst ofSecond => ?_
  obtain ⟨one, isOne, rfl⟩ := List.mem_map.mp ofFirst
  obtain ⟨other, isOther, same⟩ := List.mem_map.mp ofSecond
  have firstMark := marked first one isOne
  rw [← same, marked second other isOther] at firstMark
  exact different (apart first second (Option.some.inj firstMark).symm)

/-- Whether one pair stands inside another. -/
def Inside (inner outer : Nat × Nat) : Prop :=
  outer.1 < inner.1 ∧ inner.2 < outer.2

instance (inner outer : Nat × Nat) : Decidable (Inside inner outer) :=
  inferInstanceAs (Decidable (_ ∧ _))

/-- Two pairs of a kind stand one inside the other or apart. -/
theorem inside_or_apart_of_mem_ofKind {first second : Nat × Nat}
    (isFirst : first ∈ ofKind kind [] 0 text []) (isSecond : second ∈ ofKind kind [] 0 text [])
    (different : first ≠ second) :
    Inside first second ∨ Inside second first ∨ first.2 < second.1 ∨ second.2 < first.1 := by
  have symmetric : Std.Symm fun one other => ClosesAfter one other ∨ ClosesAfter other one :=
    ⟨fun _ _ => Or.symm⟩
  have eitherWay : (ofKind kind [] 0 text []).Pairwise fun one other =>
      ClosesAfter one other ∨ ClosesAfter other one := (pairwise_ofKind kind text).1.imp Or.inl
  have related := eitherWay.forall isFirst isSecond different
  unfold Inside
  rcases related with ⟨closes, isAround | isBehind⟩ | ⟨closes, isAround | isBehind⟩
  · exact Or.inr (Or.inl ⟨isAround, closes⟩)
  · exact Or.inr (Or.inr (Or.inr isBehind))
  · exact Or.inl ⟨isAround, closes⟩
  · exact Or.inr (Or.inr (Or.inl isBehind))

/-- No opener of a text is in two pairs. -/
theorem nodup_openers_ofText (text : Text) : ((ofText text).map Prod.fst).Nodup := by
  have apart : ∀ first second : BracketKind, first.opener = second.opener → first = second := by
    rintro (_ | _ | _) (_ | _ | _) <;> decide
  exact nodup_map_ofText apart (fun kind => nodup_openers_ofKind kind text)
    fun kind pair isPair => (getElem?_of_mem_ofKind isPair).1

/-- No closer of a text is in two pairs. -/
theorem nodup_closers_ofText (text : Text) : ((ofText text).map Prod.snd).Nodup := by
  have apart : ∀ first second : BracketKind, first.closer = second.closer → first = second := by
    rintro (_ | _ | _) (_ | _ | _) <;> decide
  exact nodup_map_ofText apart (fun kind => nodup_closers_ofKind kind text)
    fun kind pair isPair => (getElem?_of_mem_ofKind isPair).2

/-- The look-up of an opener finds every pair that the opener is in. -/
theorem mem_ofText_iff_closerOf? {opened closed : Nat} :
    (opened, closed) ∈ ofText text ↔ (ofText text).closerOf? opened = some closed := by
  refine ⟨fun member => ?_, mem_of_closerOf?⟩
  obtain ⟨before, after, split⟩ := List.append_of_mem member
  have nodup := nodup_openers_ofText text
  rw [split, List.map_append, List.map_cons, List.nodup_middle, List.nodup_cons, ← List.map_append] at nodup
  refine List.lookup_eq_some_iff.mpr ⟨before, after, split, fun pair isEarlier => ?_⟩
  rw [bne_iff_ne]
  intro same
  exact nodup.1 (List.mem_map.mpr ⟨pair, List.mem_append_left _ isEarlier, same.symm⟩)

theorem not_mem_openers_iff_closerOf? {opened : Nat} :
    opened ∉ (ofText text).map Prod.fst ↔ (ofText text).closerOf? opened = none := by
  rw [Option.eq_none_iff_forall_ne_some]
  simp only [ne_eq, ← mem_ofText_iff_closerOf?, List.mem_map, Prod.exists, exists_and_right,
    exists_eq_right, not_exists]

/-- The pairs of a text are a map, one to one, from openers to closers.  It has for every opener what the
search from that opener finds, which is the partner of the opener, or nothing just if the search finds
nothing.  Two pairs of a kind stand one inside the other or apart. -/
theorem ofText_pairs_partners (text : Text) :
    (((ofText text).map Prod.fst).Nodup ∧ ((ofText text).map Prod.snd).Nodup) ∧
    (∀ kind opened, text[opened]? = some (BracketKind.opener kind) →
      (∀ closed, (opened, closed) ∈ ofText text ↔ findMatchingBracket? text opened = some closed) ∧
      (opened ∉ (ofText text).map Prod.fst ↔ findMatchingBracket? text opened = none) ∧
      ∀ closed, (opened, closed) ∈ ofText text ↔ IsPartner kind text opened closed) ∧
    ∀ kind, ∀ first ∈ ofText text, ∀ second ∈ ofText text, first ≠ second →
      text[first.1]? = some (BracketKind.opener kind) → text[second.1]? = some (BracketKind.opener kind) →
        Inside first second ∨ Inside second first ∨ first.2 < second.1 ∨ second.2 < first.1 := by
  refine ⟨⟨nodup_openers_ofText text, nodup_closers_ofText text⟩, ?_, ?_⟩
  · intro kind opened opens
    have same := closerOf?_eq_findMatchingBracket? opens
    refine ⟨fun closed => ?_, ?_, fun closed => ?_⟩
    · rw [mem_ofText_iff_closerOf?, same]
    · rw [not_mem_openers_iff_closerOf?, same]
    · rw [mem_ofText_iff_closerOf?, same]
      exact findMatchingBracket?_eq_some_iff opens
  · intro kind first isFirst second isSecond different firstOpens secondOpens
    have ofThisKind {pair : Nat × Nat} (isPair : pair ∈ ofText text)
        (opens : text[pair.1]? = some (BracketKind.opener kind)) : pair ∈ ofKind kind [] 0 text [] := by
      have paired : (ofText text).closerOf? pair.1 = some pair.2 := mem_ofText_iff_closerOf?.mp isPair
      rw [closerOf?_opener opens] at paired
      exact mem_of_closerOf? paired
    exact inside_or_apart_of_mem_ofKind (ofThisKind isFirst firstOpens) (ofThisKind isSecond secondOpens)
      different

/-- The second round bracket of `f(a[(0)]))[` opens inside the pair of the first, and the last square
bracket has no partner. -/
theorem ofText_pairs_partners_nested :
    "f(a[(0)]))[".toList[1]? = some '(' ∧ "f(a[(0)]))[".toList[10]? = some '[' ∧
      (1, 8) ∈ ofText "f(a[(0)]))[".toList ∧ IsPartner .round "f(a[(0)]))[".toList 1 8 ∧
      10 ∉ (ofText "f(a[(0)]))[".toList).map Prod.fst ∧ Inside (4, 6) (1, 8) := by
  have opens : "f(a[(0)]))[".toList[1]? = some '(' := by decide
  have opensLast : "f(a[(0)]))[".toList[10]? = some '[' := by decide
  obtain ⟨_, partners, nest⟩ := ofText_pairs_partners "f(a[(0)]))[".toList
  obtain ⟨finds, _, isPartner⟩ := partners .round 1 opens
  have outer : (1, 8) ∈ ofText "f(a[(0)]))[".toList := (finds 8).mpr (by decide)
  refine ⟨opens, opensLast, outer, (isPartner 8).mp outer, ?_, ?_⟩
  · exact (partners .square 10 opensLast).2.1.mpr (by decide)
  · have stand := nest .round (4, 6) (by decide) (1, 8) outer (by decide) (by decide) opens
    exact stand.resolve_right (by decide)

end BracketPairs

end SceneBundler.Source
