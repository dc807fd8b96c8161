import SceneBundler.Proofs.Text.Opening

/-!
Contract: how a match begins and ends.

Owns:
- which character a reading of a pattern comes to over any number of another one, as tests that run on the
  pattern;
- that a match whose last part is a run as long as can be does not end in front of a character of the run,
  whether or not the run is captured;
- that a match whose last part is a character ends behind it, and one that looks ahead ends in front of what
  it looks for;
- that the matches of a pattern which is never empty are not empty.

Does not own: what stands between the beginning and the end.
-/

namespace SceneBundler.Pattern

open Cursor (Passes)

/-! ## Beginnings -/

/-- Whether a reading may pass nothing but one character, any number of times. -/
def mayRepeat (skipped : Char) : Pattern -> Bool
  | empty => true
  | one accepts => accepts skipped
  | sequence first second => first.mayRepeat skipped && second.mayRepeat skipped
  | either first second => first.mayRepeat skipped || second.mayRepeat skipped
  | many _ => true
  | run accepts least _ _ => least == 0 || accepts skipped
  | capture _ body => body.mayRepeat skipped
  | between _ => true
  | ahead _ _ => true

/-- Whether a reading may come to a character over nothing but another one. -/
def mayReach (skipped c : Char) : Pattern -> Bool
  | empty => false
  | one accepts => accepts c
  | sequence first second =>
      first.mayReach skipped c || (first.mayRepeat skipped && second.mayReach skipped c)
  | either first second => first.mayReach skipped c || second.mayReach skipped c
  | many body => body.mayReach skipped c
  | run accepts _ _ _ => accepts c
  | capture _ body => body.mayReach skipped c
  | between _ => false
  | ahead _ _ => false

/-- Where a character comes behind others in a text that is cut in two, it comes so in the first part, or the
first part holds only some of the others. -/
theorem cut_of_reach {before after lead rest : Text} {c : Char}
    (split : before ++ after = lead ++ c :: rest) :
    (∃ others, before = lead ++ c :: others) ∨
      ∃ more, lead = before ++ more ∧ after = more ++ c :: rest := by
  rcases List.append_eq_append_iff.mp split with ⟨more, isLead, isAfter⟩ | ⟨more, isBefore, isRest⟩
  · exact Or.inr ⟨more, isLead, isAfter⟩
  · cases more with
    | nil => exact Or.inr ⟨[], by simpa using isBefore.symm, isRest.symm⟩
    | cons d more =>
        obtain ⟨rfl, _⟩ := List.cons.inj isRest
        exact Or.inl ⟨more, isBefore⟩

/-- What the tests say about a reading that passes a word. -/
structure Reaches (pattern : Pattern) (skipped c : Char) (word : Text) : Prop where
  repeats : (∀ d ∈ word, d = skipped) → pattern.mayRepeat skipped = true
  reaches : ∀ lead rest, word = lead ++ c :: rest → (∀ d ∈ lead, d = skipped) →
    pattern.mayReach skipped c = true

theorem exists_reaches_of_reads {pattern : Pattern} (skipped c : Char) {cursor next : Cursor}
    (reads : pattern.Reads cursor next) :
    ∃ word, Passes word cursor next ∧ pattern.Reaches skipped c word := by
  have nothing (pattern : Pattern) (mayRepeat : pattern.mayRepeat skipped = true) :
      pattern.Reaches skipped c [] :=
    ⟨fun _ => mayRepeat, fun _ _ isEmpty => absurd isEmpty.symm (by simp)⟩
  induction pattern generalizing cursor next with
  | empty => exact ⟨[], reads ▸ Passes.refl _, nothing _ rfl⟩
  | one accepts =>
      obtain ⟨d, accepted, passes, _⟩ := Cursor.passes_of_step? reads
      refine ⟨[d], passes, fun areSkipped => ?_, fun lead rest isWord _ => ?_⟩
      · rwa [areSkipped d (List.mem_singleton_self d)] at accepted
      · have isIn : c ∈ [d] := isWord ▸ List.mem_append_right lead List.mem_cons_self
        rwa [← List.mem_singleton.mp isIn] at accepted
  | sequence first second firstHypothesis secondHypothesis =>
      obtain ⟨middle, readsFirst, readsSecond⟩ := reads
      obtain ⟨before, passesFirst, ofFirst⟩ := firstHypothesis readsFirst
      obtain ⟨after, passesSecond, ofSecond⟩ := secondHypothesis readsSecond
      refine ⟨before ++ after, passesFirst.trans passesSecond, fun areSkipped => ?_, ?_⟩
      · rw [List.forall_mem_append] at areSkipped
        rw [mayRepeat, ofFirst.repeats areSkipped.1, ofSecond.repeats areSkipped.2, Bool.and_self]
      · intro lead rest isWord areSkipped
        rw [mayReach, Bool.or_eq_true, Bool.and_eq_true]
        rcases cut_of_reach isWord with ⟨others, isBefore⟩ | ⟨more, rfl, isAfter⟩
        · exact Or.inl (ofFirst.reaches lead others isBefore areSkipped)
        · rw [List.forall_mem_append] at areSkipped
          exact Or.inr ⟨ofFirst.repeats areSkipped.1, ofSecond.reaches more rest isAfter areSkipped.2⟩
  | either first second firstHypothesis secondHypothesis =>
      rcases reads with readsFirst | readsSecond
      · obtain ⟨word, passes, reached⟩ := firstHypothesis readsFirst
        exact ⟨word, passes, fun areSkipped => by rw [mayRepeat, reached.repeats areSkipped, Bool.true_or],
          fun lead rest isWord areSkipped => by
            rw [mayReach, reached.reaches lead rest isWord areSkipped, Bool.true_or]⟩
      · obtain ⟨word, passes, reached⟩ := secondHypothesis readsSecond
        exact ⟨word, passes, fun areSkipped => by rw [mayRepeat, reached.repeats areSkipped, Bool.or_true],
          fun lead rest isWord areSkipped => by
            rw [mayReach, reached.reaches lead rest isWord areSkipped, Bool.or_true]⟩
  | many body bodyHypothesis =>
      induction reads with
      | refl => exact ⟨[], Passes.refl _, nothing _ rfl⟩
      | tail _ round earlier =>
          obtain ⟨before, passesBefore, ofEarlier⟩ := earlier
          obtain ⟨word, passes, ofRound⟩ := bodyHypothesis round.1
          refine ⟨before ++ word, passesBefore.trans passes, fun _ => rfl, ?_⟩
          intro lead rest isWord areSkipped
          rcases cut_of_reach isWord with ⟨others, isBefore⟩ | ⟨more, rfl, isAfter⟩
          · exact ofEarlier.reaches lead others isBefore areSkipped
          · exact ofRound.reaches more rest isAfter (List.forall_mem_append.mp areSkipped).2
  | run accepts least most fewest =>
      obtain ⟨word, accepted, enough, passes⟩ := passes_of_reads_run reads
      refine ⟨word, passes, fun areSkipped => ?_, fun lead rest isWord _ => ?_⟩
      · rw [mayRepeat, Bool.or_eq_true]
        cases word with
        | nil => exact Or.inl (by simpa using enough)
        | cons d word =>
            have isSkipped := areSkipped d List.mem_cons_self
            exact Or.inr (isSkipped ▸ accepted d List.mem_cons_self)
      · exact accepted c (isWord ▸ List.mem_append_right lead List.mem_cons_self)
  | capture slot body bodyHypothesis =>
      obtain ⟨inner, readsBody, rfl⟩ := reads
      obtain ⟨word, passes, reached⟩ := bodyHypothesis readsBody
      exact ⟨word, passes.of_fields rfl rfl rfl, reached.repeats, reached.reaches⟩
  | between test =>
      obtain ⟨_, rfl⟩ := reads
      exact ⟨[], Passes.refl _, nothing _ rfl⟩
  | ahead expected body _ =>
      obtain ⟨_, rfl⟩ := reads
      exact ⟨[], Passes.refl _, nothing _ rfl⟩

/-- A reading that may neither pass one character only nor come to a second one over it comes to a third one
over it. -/
theorem exists_lead_of_reads {pattern : Pattern} {skipped c : Char}
    (stops : pattern.mayRepeat skipped = false) (misses : pattern.mayReach skipped c = false)
    {cursor next : Cursor} (reads : pattern.Reads cursor next) :
    ∃ lead d rest, Passes (lead ++ d :: rest) cursor next ∧ (∀ e ∈ lead, e = skipped) ∧ d ≠ skipped ∧
      d ≠ c := by
  obtain ⟨word, passes, reached⟩ := exists_reaches_of_reads skipped c reads
  have split := @List.takeWhile_append_dropWhile _ (· == skipped) word
  have areSkipped : ∀ e ∈ word.takeWhile (· == skipped), e = skipped := fun e member =>
    eq_of_beq (List.all_eq_true.mp List.all_takeWhile e member)
  have differs := List.head?_dropWhile_not (· == skipped) word
  generalize word.takeWhile (· == skipped) = lead at split areSkipped
  cases behind : word.dropWhile (· == skipped) with
  | nil =>
      rw [behind, List.append_nil] at split
      rw [reached.repeats (split ▸ areSkipped)] at stops
      contradiction
  | cons d rest =>
      rw [behind] at split differs
      refine ⟨lead, d, rest, split ▸ passes, areSkipped, by simpa using differs, ?_⟩
      rintro rfl
      rw [reached.reaches lead rest split.symm areSkipped] at misses
      contradiction

section Building

variable {first second : Pattern} {skipped c : Char}

@[simp] theorem mayRepeat_append :
    (first ++ second).mayRepeat skipped = (first.mayRepeat skipped && second.mayRepeat skipped) :=
  rfl

@[simp] theorem mayReach_append :
    (first ++ second).mayReach skipped c =
      (first.mayReach skipped c || (first.mayRepeat skipped && second.mayReach skipped c)) :=
  rfl

end Building

/-! ## Ends -/

/-- A run as long as can be does not stop in front of a character of its class. -/
theorem head?_of_matchThen_run {accepts : Char -> Bool} {least : Nat} {cursor final : Cursor}
    (matched : (run accepts least none false).matchThen cursor some = some final) :
    final.ahead.head?.any accepts = false := by
  have split := @List.takeWhile_append_dropWhile _ accepts cursor.ahead
  have accepted : ∀ c ∈ cursor.ahead.takeWhile accepts, accepts c = true := fun c member =>
    List.all_eq_true.mp List.all_takeWhile c member
  have stops : (cursor.ahead.dropWhile accepts).head?.any accepts = false := by
    have stopsAt := List.head?_dropWhile_not accepts cursor.ahead
    cases isHead : (cursor.ahead.dropWhile accepts).head? with
    | none => rfl
    | some c =>
        rw [isHead] at stopsAt
        exact stopsAt
  obtain ⟨nearer, trailed⟩ :=
    exists_trail_eq cursor.captures accepted stops cursor.previous cursor.offset []
  rw [split] at trailed
  simp only [matchThen, trailed, List.takeWhile_cons, Bool.false_eq_true, if_false] at matched
  split at matched
  next => exact Option.some.inj matched ▸ stops
  next => contradiction

/-- What a way is noted as is not looked at before it is found. -/
theorem matchThen_run_map {accepts : Char -> Bool} {least : Nat} {most : Option Nat} {fewest : Bool}
    (cursor : Cursor) (note : Cursor -> Cursor) :
    (run accepts least most fewest).matchThen cursor (fun next => some (note next)) =
      ((run accepts least most fewest).matchThen cursor some).map note := by
  rw [matchThen_run, matchThen_run, List.map_findSome?]
  rfl

/-- What a match captures last, where that is a run as long as can be, is a whole run: no character of its
class stands behind it. -/
theorem exists_run_of_find {lead : Pattern} {slot : Nat} {accepts : Char -> Bool} {least : Nat}
    {passed ahead : Text} {found : Match}
    (foundHere : (lead ++ capture slot (run accepts least none false)).find (Cursor.between passed ahead) =
      some found) :
    ∃ front word rest, passed ++ ahead = front ++ (word ++ rest) ∧
      (∀ c ∈ word, accepts c = true) ∧ rest.head?.any accepts = false ∧
      found.span? slot = some ⟨front.length, front.length + word.length⟩ ∧
      ∃ middle, lead.Reads (Cursor.between passed ahead) middle ∧ middle.offset = front.length := by
  obtain ⟨final, matched, rfl⟩ := Option.map_eq_some_iff.mp foundHere
  obtain ⟨middle, readsLead, matchedCapture⟩ := @reads_of_matchThen lead _ _ _ matched
  rw [matchThen, matchThen_run_map] at matchedCapture
  obtain ⟨stop, matchedRun, rfl⟩ := Option.map_eq_some_iff.mp matchedCapture
  obtain ⟨next, readsRun, isStop⟩ := reads_of_matchThen matchedRun
  obtain rfl := Option.some.inj isStop
  obtain ⟨before, passesLead⟩ := passes_of_reads readsLead
  obtain ⟨front, split, isOffset⟩ := (Cursor.isIn_between passed ahead).of_passes passesLead
  obtain ⟨word, accepted, -, passesRun⟩ := passes_of_reads_run readsRun
  refine ⟨front, word, next.ahead, ?_, accepted, head?_of_matchThen_run matchedRun, ?_, middle, readsLead,
    isOffset⟩
  · rw [split, passesRun.ahead_eq]
  · rw [Match.span?, List.lookup_cons_self, isOffset, passesRun.offset_eq, isOffset]

section Ends

variable {lead : Pattern} {text : Text} {found : Match}

/-- A match that ends with a run as long as can be ends in front of no character of its class. -/
theorem getElem?_stop_of_run {accepts : Char -> Bool} {least : Nat}
    (member : found ∈ (lead ++ run accepts least none false).all text) :
    text[found.stop]?.any accepts = false := by
  obtain ⟨passed, ahead, rfl, foundHere⟩ := find_of_mem_all member
  obtain ⟨final, matched, rfl⟩ := Option.map_eq_some_iff.mp foundHere
  obtain ⟨middle, readsLead, matchedRun⟩ := @reads_of_matchThen lead _ _ _ matched
  obtain ⟨next, readsRun, isFinal⟩ := reads_of_matchThen matchedRun
  obtain rfl := Option.some.inj isFinal
  have reads : (lead ++ run accepts least none false).Reads (Cursor.between passed ahead) next :=
    ⟨middle, readsLead, readsRun⟩
  obtain ⟨word, passes⟩ := passes_of_reads reads
  obtain ⟨before, split, isOffset⟩ := (Cursor.isIn_between passed ahead).of_passes passes
  change (passed ++ ahead)[next.offset]?.any accepts = false
  rw [split, isOffset, List.getElem?_append_right (Nat.le_refl _), Nat.sub_self, ← List.head?_eq_getElem?]
  exact head?_of_matchThen_run matchedRun

/-- A match of a pattern that reads something is not empty. -/
theorem start_lt_stop_of_mem_all {pattern : Pattern} (nonempty : pattern.mayBeEmpty = false)
    (member : found ∈ pattern.all text) : found.start < found.stop := by
  obtain ⟨passed, ahead, rfl, foundHere⟩ := find_of_mem_all member
  obtain ⟨next, reads, rfl⟩ := reads_of_find foundHere
  obtain ⟨word, passes, isEmpty, -⟩ := mayBegin_of_reads reads
  have some : word ≠ [] := fun isNil => Bool.noConfusion (nonempty.symm.trans (isEmpty isNil))
  have reached := passes.offset_eq
  have positive := List.length_pos_iff.mpr some
  dsimp only [Cursor.between] at reached ⊢
  omega

theorem getElem?_behind_of_reads {passed ahead : Text} {next : Cursor} {c : Char}
    (reads : (lead ++ char c).Reads (Cursor.between passed ahead) next) :
    0 < next.offset ∧ (passed ++ ahead)[next.offset - 1]? = some c := by
  obtain ⟨middle, readsLead, stepped⟩ := reads
  obtain ⟨word, passesLead⟩ := passes_of_reads readsLead
  obtain ⟨d, isC, passes, _⟩ := Cursor.passes_of_step? stepped
  obtain ⟨before, split, isOffset⟩ := (Cursor.isIn_between passed ahead).of_passes passesLead
  obtain rfl : d = c := eq_of_beq isC
  rw [passes.offset_eq, List.length_singleton, Nat.add_sub_cancel, split, isOffset, passes.ahead_eq,
    List.getElem?_append_right (Nat.le_refl _), Nat.sub_self]
  exact ⟨Nat.succ_pos _, rfl⟩

/-- A match that ends with a character ends behind it. -/
theorem getElem?_stop_of_char {c : Char} (member : found ∈ (lead ++ char c).all text) :
    0 < found.stop ∧ text[found.stop - 1]? = some c := by
  obtain ⟨passed, ahead, rfl, foundHere⟩ := find_of_mem_all member
  obtain ⟨next, reads, rfl⟩ := reads_of_find foundHere
  exact getElem?_behind_of_reads reads

/-- A match that looks ahead from a character on ends behind the character. -/
theorem getElem?_stop_of_char_ahead {c : Char} {expected : Bool} {body : Pattern}
    (member : found ∈ (lead ++ char c ++ .ahead expected body).all text) :
    0 < found.stop ∧ text[found.stop - 1]? = some c := by
  obtain ⟨passed, ahead, rfl, foundHere⟩ := find_of_mem_all member
  obtain ⟨next, ⟨_, reads, _, rfl⟩, rfl⟩ := reads_of_find foundHere
  exact getElem?_behind_of_reads reads

/-- A match that looks ahead for something ends in front of a character that this may begin with. -/
theorem getElem?_stop_of_ahead {body : Pattern} (nonempty : body.mayBeEmpty = false)
    (member : found ∈ (lead ++ .ahead true body).all text) :
    ∃ c, text[found.stop]? = some c ∧ body.mayBegin c = true := by
  obtain ⟨passed, ahead, rfl, foundHere⟩ := find_of_mem_all member
  obtain ⟨next, ⟨_, readsLead, isAhead, rfl⟩, rfl⟩ := reads_of_find foundHere
  obtain ⟨there, readsBody⟩ := isAhead.mpr rfl
  obtain ⟨word, passesLead⟩ := passes_of_reads readsLead
  obtain ⟨before, split, isOffset⟩ := (Cursor.isIn_between passed ahead).of_passes passesLead
  obtain ⟨body, passes, isEmpty, begins⟩ := mayBegin_of_reads readsBody
  cases body with
  | nil =>
      rw [isEmpty rfl] at nonempty
      contradiction
  | cons c rest =>
      refine ⟨c, ?_, begins c rfl⟩
      change (passed ++ ahead)[next.offset]? = some c
      rw [split, isOffset, List.getElem?_append_right (Nat.le_refl _), Nat.sub_self, passes.ahead_eq]
      rfl

end Ends

end SceneBundler.Pattern
