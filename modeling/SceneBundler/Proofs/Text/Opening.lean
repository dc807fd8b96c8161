import SceneBundler.Proofs.Text.Scan

/-!
Contract: what a match can begin with.

Owns:
- which characters a reading of a pattern can begin with, and whether it can be empty, as tests that
  run on the pattern;
- searches in which matches begin only at the first character of a stretch.

Does not own: where a match ends.
-/

namespace SceneBundler.Pattern

/-! ## First characters -/

/-- Whether a reading may pass nothing. -/
def mayBeEmpty : Pattern -> Bool
  | empty => true
  | one _ => false
  | sequence first second => first.mayBeEmpty && second.mayBeEmpty
  | either first second => first.mayBeEmpty || second.mayBeEmpty
  | many _ => true
  | run _ least _ _ => least == 0
  | capture _ body => body.mayBeEmpty
  | between _ => true
  | ahead _ _ => true

/-- Whether a reading that passes something may begin with a character. -/
def mayBegin (c : Char) : Pattern -> Bool
  | empty => false
  | one accepts => accepts c
  | sequence first second => first.mayBegin c || (first.mayBeEmpty && second.mayBegin c)
  | either first second => first.mayBegin c || second.mayBegin c
  | many body => body.mayBegin c
  | run accepts _ _ _ => accepts c
  | capture _ body => body.mayBegin c
  | between _ => false
  | ahead _ _ => false

/-- A reading passes nothing, or begins with a character that it may begin with. -/
theorem mayBegin_of_reads {pattern : Pattern} {cursor next : Cursor}
    (reads : pattern.Reads cursor next) :
    ∃ word, Cursor.Passes word cursor next ∧ (word = [] → pattern.mayBeEmpty = true) ∧
      ∀ c ∈ word.head?, pattern.mayBegin c = true := by
  induction pattern generalizing cursor next with
  | empty => exact ⟨[], reads ▸ Cursor.Passes.refl _, fun _ => rfl, by simp⟩
  | one accepts =>
      obtain ⟨c, accepted, passes, _⟩ := Cursor.passes_of_step? reads
      exact ⟨[c], passes, by simp, by simpa [mayBegin] using accepted⟩
  | sequence first second firstHypothesis secondHypothesis =>
      obtain ⟨middle, readsFirst, readsSecond⟩ := reads
      obtain ⟨before, passesFirst, emptyFirst, beginsFirst⟩ := firstHypothesis readsFirst
      obtain ⟨after, passesSecond, emptySecond, beginsSecond⟩ := secondHypothesis readsSecond
      refine ⟨before ++ after, passesFirst.trans passesSecond, ?_, ?_⟩
      · intro isEmpty
        obtain ⟨isFirst, isSecond⟩ := List.append_eq_nil_iff.mp isEmpty
        rw [mayBeEmpty, emptyFirst isFirst, emptySecond isSecond, Bool.and_self]
      · intro c isHead
        cases before with
        | nil => simp [mayBegin, emptyFirst rfl, beginsSecond c isHead]
        | cons d before => simp [mayBegin, beginsFirst c isHead]
  | either first second firstHypothesis secondHypothesis =>
      rcases reads with readsFirst | readsSecond
      · obtain ⟨word, passes, isEmpty, begins⟩ := firstHypothesis readsFirst
        exact ⟨word, passes, fun none => by simp [mayBeEmpty, isEmpty none],
          fun c isHead => by simp [mayBegin, begins c isHead]⟩
      · obtain ⟨word, passes, isEmpty, begins⟩ := secondHypothesis readsSecond
        exact ⟨word, passes, fun none => by simp [mayBeEmpty, isEmpty none],
          fun c isHead => by simp [mayBegin, begins c isHead]⟩
  | many body bodyHypothesis =>
      induction reads with
      | refl => exact ⟨[], Cursor.Passes.refl _, fun _ => rfl, by simp⟩
      | tail _ round earlier =>
          obtain ⟨before, passesBefore, _, beginsBefore⟩ := earlier
          obtain ⟨word, passes, _, begins⟩ := bodyHypothesis round.1
          refine ⟨before ++ word, passesBefore.trans passes, fun _ => rfl, fun c isHead => ?_⟩
          cases before with
          | nil => exact begins c isHead
          | cons d before => exact beginsBefore c isHead
  | run accepts least most fewest =>
      obtain ⟨word, accepted, enough, passes⟩ := passes_of_reads_run reads
      refine ⟨word, passes, fun isEmpty => ?_, fun c isHead => accepted c (List.mem_of_head? isHead)⟩
      rw [isEmpty, List.length_nil] at enough
      simpa [mayBeEmpty] using enough
  | capture slot body bodyHypothesis =>
      obtain ⟨inner, readsBody, rfl⟩ := reads
      obtain ⟨word, passes, isEmpty, begins⟩ := bodyHypothesis readsBody
      exact ⟨word, passes.of_fields rfl rfl rfl, isEmpty, begins⟩
  | between test =>
      obtain ⟨_, rfl⟩ := reads
      exact ⟨[], Cursor.Passes.refl _, fun _ => rfl, by simp⟩
  | ahead expected body _ =>
      obtain ⟨_, rfl⟩ := reads
      exact ⟨[], Cursor.Passes.refl _, fun _ => rfl, by simp⟩

/-- A pattern is not read where it can neither be empty nor begin. -/
theorem not_reads_of_mayBegin {pattern : Pattern} {cursor next : Cursor} {c : Char} {rest : Text}
    (nonempty : pattern.mayBeEmpty = false) (beginsNot : pattern.mayBegin c = false)
    (ahead : cursor.ahead = c :: rest) : ¬pattern.Reads cursor next := by
  intro reads
  obtain ⟨word, passes, isEmpty, begins⟩ := mayBegin_of_reads reads
  cases word with
  | nil =>
      rw [isEmpty rfl] at nonempty
      contradiction
  | cons d word =>
      have same := passes.ahead_eq
      rw [ahead] at same
      have here := begins d rfl
      rw [← (List.cons.inj same).1, beginsNot] at here
      contradiction

/-- A pattern that cannot be empty is not read at the end of a text. -/
theorem not_reads_at_end {pattern : Pattern} {cursor next : Cursor}
    (nonempty : pattern.mayBeEmpty = false) (ahead : cursor.ahead = []) :
    ¬pattern.Reads cursor next := by
  intro reads
  obtain ⟨word, passes, isEmpty, _⟩ := mayBegin_of_reads reads
  have same := passes.ahead_eq
  rw [ahead] at same
  rw [isEmpty (List.append_eq_nil_iff.mp same.symm).1] at nonempty
  contradiction

/-- A run that cannot begin stays where it is. -/
theorem eq_of_reads_run {accepts : Char -> Bool} {least : Nat} {most : Option Nat} {fewest : Bool}
    {cursor next : Cursor} (stops : cursor.ahead.head?.any accepts = false)
    (reads : (run accepts least most fewest).Reads cursor next) : next = cursor := by
  have isStop := (List.mem_filter.mp reads).1
  obtain ⟨previous, text, offset, captures⟩ := cursor
  cases text with
  | nil => simpa [Cursor.trail] using isStop
  | cons c rest =>
      have stopsAt : accepts c = false := by simpa using stops
      simpa [Cursor.trail, stopsAt] using isStop

/-! ## Words that are accepted -/

/-- Whether a pattern can be read over a word, whatever stands around it. -/
def Accepts (pattern : Pattern) (word : Text) : Prop :=
  ∀ cursor rest, cursor.ahead = word ++ rest →
    ∃ next, pattern.Reads cursor next ∧ next.ahead = rest

theorem accepts_literal (letters : String) : (literal letters).Accepts letters.toList := by
  intro cursor rest ahead
  refine ⟨⟨letters.toList.getLast?.or cursor.previous, rest, cursor.offset + letters.toList.length,
    cursor.captures⟩, reads_word_iff.mpr ⟨⟨ahead, rfl, rfl⟩, rfl⟩, rfl⟩

theorem accepts_run {accepts : Char -> Bool} {least : Nat} {fewest : Bool} {word : Text}
    (accepted : ∀ c ∈ word, accepts c = true) (enough : least ≤ word.length) :
    (run accepts least none fewest).Accepts word :=
  fun _ _ ahead => ⟨⟨_, _, _, _⟩, reads_run accepted enough ⟨ahead, rfl, rfl⟩ rfl, rfl⟩

theorem accepts_one {accepts : Char -> Bool} {c : Char} (accepted : accepts c = true) :
    (one accepts).Accepts [c] := by
  intro cursor rest ahead
  refine ⟨⟨some c, rest, cursor.offset + 1, cursor.captures⟩, ?_, rfl⟩
  simp [Reads, Cursor.step?, ahead, accepted]

theorem Accepts.exists_reads {first second : Pattern} {word rest : Text} (accepts : second.Accepts word)
    {cursor middle : Cursor} (reads : first.Reads cursor middle) (ahead : middle.ahead = word ++ rest) :
    ∃ next, (first ++ second).Reads cursor next ∧ next.ahead = rest := by
  obtain ⟨next, readsSecond, aheadNext⟩ := accepts middle rest ahead
  exact ⟨next, ⟨middle, reads, readsSecond⟩, aheadNext⟩

theorem Accepts.append {first second : Pattern} {word others : Text} (acceptsFirst : first.Accepts word)
    (acceptsSecond : second.Accepts others) : (first ++ second).Accepts (word ++ others) := by
  intro cursor rest ahead
  obtain ⟨middle, readsFirst, aheadFirst⟩ := acceptsFirst cursor (others ++ rest)
    (by rw [ahead, List.append_assoc])
  obtain ⟨next, readsSecond, aheadSecond⟩ := acceptsSecond middle rest aheadFirst
  exact ⟨next, ⟨middle, readsFirst, readsSecond⟩, aheadSecond⟩

/-! ## Searches that find only at a beginning -/

/-- Where matches begin only at the first character of a stretch, and end within it, a search finds
the one that begins there, if any. -/
theorem finds_of_silent_tail {pattern : Pattern} {passed rest following : Text} {c : Char}
    (silent : pattern.Silent (passed ++ [c]) rest following)
    (bounds : ∀ found, pattern.find (Cursor.between passed (c :: rest ++ following)) = some found →
      passed.length < found.stop ∧ found.stop ≤ passed.length + (c :: rest).length) :
    pattern.Finds passed (c :: rest) following
      (pattern.find (Cursor.between passed (c :: rest ++ following))).toList := by
  cases foundHere : pattern.find (Cursor.between passed (c :: rest ++ following)) with
  | none =>
      refine Finds.of_silent (.cons (fun next reads => ?_) silent)
      have isSome := isSome_find_iff.mpr ⟨next, reads⟩
      rw [foundHere] at isSome
      contradiction
  | some found =>
      obtain ⟨begins, ends⟩ := bounds found foundHere
      obtain ⟨word, others, isRest, length⟩ :
          ∃ word others, rest = word ++ others ∧ found.stop = passed.length + (c :: word).length := by
        refine ⟨rest.take (found.stop - passed.length - 1), _, (List.take_append_drop _ _).symm, ?_⟩
        simp only [List.length_cons, List.length_take] at ends ⊢
        omega
      subst isRest
      have findsWord := @Finds.of_find pattern passed (others ++ following) (c :: word) found
        (by simpa using foundHere) (List.cons_ne_nil c word) length
      have silentOthers : pattern.Silent (passed ++ c :: word) others following := by
        intro more last split nonempty next reads
        exact silent (word ++ more) last (by rw [split, List.append_assoc]) nonempty next
          (by simpa using reads)
      exact findsWord.append (Finds.of_silent silentOthers)

end SceneBundler.Pattern
