import SceneBundler.Proofs.Text.Scan

/-!
Contract: patterns to which the beginning of a text is the beginning of a line like any other.

Owns:
- cursors that such a pattern cannot tell apart, whatever their offsets and captures are;
- that what is read at one of them can be read at the other;
- that a text in which such a pattern does not occur can be put behind a line break, or lose its first
  lines, and still no match begins in it.

Does not own: any particular pattern.
-/

namespace SceneBundler

open Cursor (Passes)

/-- Two cursors with the same text ahead, both behind the same character or both at the beginning of a
line. -/
structure Cursor.Alike (cursor other : Cursor) : Prop where
  ahead_eq : other.ahead = cursor.ahead
  behind : other.previous = cursor.previous ∨
    cursor.previous.all (· == '\n') = true ∧ other.previous.all (· == '\n') = true

theorem Cursor.Alike.symm {cursor other : Cursor} (alike : cursor.Alike other) : other.Alike cursor :=
  ⟨alike.ahead_eq.symm, alike.behind.imp Eq.symm And.symm⟩

namespace Pattern

/-- Whether no test in a pattern tells the beginning of the text from the beginning of another line. -/
def SeesLines : Pattern -> Prop
  | sequence first second => first.SeesLines ∧ second.SeesLines
  | either first second => first.SeesLines ∧ second.SeesLines
  | many body => body.SeesLines
  | capture _ body => body.SeesLines
  | between test => ∀ next, test none next = test (some '\n') next
  | ahead _ body => body.SeesLines
  | _ => True

@[simp] theorem seesLines_append {first second : Pattern} :
    (first ++ second).SeesLines ↔ first.SeesLines ∧ second.SeesLines :=
  Iff.rfl

@[simp] theorem seesLines_maybe {body : Pattern} : (maybe body).SeesLines ↔ body.SeesLines := by
  simp [maybe, SeesLines]

@[simp] theorem seesLines_word (word : Text) : (Pattern.word word).SeesLines := by
  induction word with
  | nil => trivial
  | cons c rest inductionHypothesis => exact ⟨trivial, inductionHypothesis⟩

theorem test_of_alike {test : Option Char -> Option Char -> Bool}
    (sees : ∀ next, test none next = test (some '\n') next) {cursor other : Cursor}
    (alike : cursor.Alike other) (next : Option Char) :
    test other.previous next = test cursor.previous next := by
  have first : ∀ previous : Option Char, previous.all (· == '\n') = true →
      test previous next = test none next := by
    intro previous isStart
    cases previous with
    | none => rfl
    | some c =>
        have isBreak : c = '\n' := by simpa using isStart
        rw [isBreak, sees]
  rcases alike.behind with same | ⟨starts, otherStarts⟩
  · rw [same]
  · rw [first _ starts, first _ otherStarts]

theorem exists_mem_trail_of_alike {accepts : Char -> Bool} {captures others : List (Nat × Span)}
    {room : Option Nat} {text : Text} {offset start : Nat} {previous before : Option Char} {stop : Cursor}
    (alike : Cursor.Alike ⟨previous, text, offset, captures⟩ ⟨before, text, start, others⟩)
    (member : stop ∈ Cursor.trail accepts captures room previous text offset []) :
    ∃ there ∈ Cursor.trail accepts others room before text start [],
      stop.Alike there ∧ there.offset + offset = stop.offset + start := by
  induction text generalizing room offset start previous before with
  | nil =>
      rw [Cursor.trail, List.mem_singleton] at member
      subst member
      exact ⟨_, List.mem_singleton_self _, alike, Nat.add_comm ..⟩
  | cons c rest inductionHypothesis =>
      rw [Cursor.trail_cons, List.mem_append, List.mem_singleton] at member
      rw [Cursor.trail_cons]
      rcases member with isFarther | isHere
      · by_cases goesOn : (room != some 0 && accepts c) = true
        · rw [if_pos goesOn] at isFarther ⊢
          obtain ⟨there, isThere, thereAlike, sameLength⟩ :=
            @inductionHypothesis _ _ (start + 1) _ (some c) ⟨rfl, Or.inl rfl⟩ isFarther
          exact ⟨there, List.mem_append_left _ isThere, thereAlike, by omega⟩
        · rw [if_neg goesOn] at isFarther
          exact absurd isFarther List.not_mem_nil
      · subst isHere
        exact ⟨_, List.mem_append_right _ (List.mem_singleton_self _), alike, Nat.add_comm ..⟩

/-- What is read at one of two cursors can be read at the other. -/
theorem exists_reads_of_alike {pattern : Pattern} (sees : pattern.SeesLines)
    {cursor other next : Cursor} (alike : cursor.Alike other) (reads : pattern.Reads cursor next) :
    ∃ there, pattern.Reads other there ∧ next.Alike there := by
  induction pattern generalizing cursor other next with
  | empty =>
      rw [show next = cursor from reads]
      exact ⟨other, rfl, alike⟩
  | one accepts =>
      obtain ⟨c, accepted, passes, _⟩ := Cursor.passes_of_step? reads
      have ahead : other.ahead = c :: next.ahead := alike.ahead_eq.trans passes.ahead_eq
      refine ⟨⟨some c, next.ahead, other.offset + 1, other.captures⟩, ?_, rfl, Or.inl ?_⟩
      · change other.step? accepts = _
        rw [Cursor.step?, ahead]
        exact if_pos accepted
      · rw [passes.previous_eq]
        rfl
  | sequence first second readsFirst readsSecond =>
      obtain ⟨middle, before, after⟩ := reads
      obtain ⟨here, otherBefore, middleAlike⟩ := readsFirst sees.1 alike before
      obtain ⟨there, otherAfter, thereAlike⟩ := readsSecond sees.2 middleAlike after
      exact ⟨there, ⟨here, otherBefore, otherAfter⟩, thereAlike⟩
  | either first second readsFirst readsSecond =>
      rcases reads with byFirst | bySecond
      · obtain ⟨there, otherReads, thereAlike⟩ := readsFirst sees.1 alike byFirst
        exact ⟨there, Or.inl otherReads, thereAlike⟩
      · obtain ⟨there, otherReads, thereAlike⟩ := readsSecond sees.2 alike bySecond
        exact ⟨there, Or.inr otherReads, thereAlike⟩
  | many body readsBody =>
      induction reads with
      | refl => exact ⟨other, .refl, alike⟩
      | tail _ round before =>
          obtain ⟨here, rounds, hereAlike⟩ := before
          obtain ⟨there, otherReads, thereAlike⟩ := readsBody sees hereAlike round.1
          refine ⟨there, rounds.tail ⟨otherReads, ?_⟩, thereAlike⟩
          -- A round that moves on leaves less ahead, and both leave the same ahead.
          obtain ⟨_, passes⟩ := passes_of_reads round.1
          obtain ⟨_, otherPasses⟩ := passes_of_reads otherReads
          have kept := passes.conserves
          have otherKept := otherPasses.conserves
          rw [hereAlike.ahead_eq, thereAlike.ahead_eq] at otherKept
          have movesOn := round.2
          omega
  | run accepts least most fewest =>
      obtain ⟨inTrail, far⟩ := List.mem_filter.mp reads
      have fresh : Cursor.Alike ⟨cursor.previous, cursor.ahead, cursor.offset, cursor.captures⟩
          ⟨other.previous, cursor.ahead, other.offset, other.captures⟩ := ⟨rfl, alike.behind⟩
      obtain ⟨there, isThere, thereAlike, sameLength⟩ := exists_mem_trail_of_alike fresh inTrail
      rw [← alike.ahead_eq] at isThere
      refine ⟨there, List.mem_filter.mpr ⟨isThere, ?_⟩, thereAlike⟩
      rw [decide_eq_true_eq] at far ⊢
      omega
  | capture slot body readsBody =>
      obtain ⟨inner, bodyReads, rfl⟩ := reads
      obtain ⟨there, otherReads, thereAlike⟩ := readsBody sees alike bodyReads
      exact ⟨_, ⟨there, otherReads, rfl⟩, thereAlike.ahead_eq, thereAlike.behind⟩
  | between test =>
      obtain ⟨passes, rfl⟩ := reads
      refine ⟨other, ⟨?_, rfl⟩, alike⟩
      rw [test_of_alike sees alike, alike.ahead_eq]
      exact passes
  | ahead expected body readsBody =>
      obtain ⟨decides, rfl⟩ := reads
      refine ⟨other, ⟨?_, rfl⟩, alike⟩
      rw [← decides]
      constructor
      · rintro ⟨there, otherReads⟩
        obtain ⟨here, bodyReads, _⟩ := readsBody sees alike.symm otherReads
        exact ⟨here, bodyReads⟩
      · rintro ⟨here, bodyReads⟩
        obtain ⟨there, otherReads, _⟩ := readsBody sees alike bodyReads
        exact ⟨there, otherReads⟩

/-! ## Texts without a match -/

section Absent

variable {pattern : Pattern} {breaks text : Text}

theorem occursIn_eq_false_iff :
    pattern.occursIn text = false ↔ ∀ passed ahead next, text = passed ++ ahead →
      ¬pattern.Reads (Cursor.between passed ahead) next := by
  rw [← Bool.not_eq_true, occursIn_iff]
  constructor
  · intro absent passed rest next split reads
    exact absent ⟨passed, rest, next, split, reads⟩
  · rintro unread ⟨passed, rest, next, split, reads⟩
    exact unread passed rest next split reads

theorem getLast?_of_breaks (allBreaks : ∀ c ∈ breaks, c = '\n') :
    breaks.getLast?.all (· == '\n') = true := by
  rw [Option.all_eq_true]
  exact fun c isLast => beq_iff_eq.mpr (allBreaks c (List.mem_of_getLast? isLast))

theorem alike_between (first second : Text) (startsLine : first.getLast?.all (· == '\n') = true)
    (otherStartsLine : second.getLast?.all (· == '\n') = true) (passed ahead : Text) :
    (Cursor.between (first ++ passed) ahead).Alike (Cursor.between (second ++ passed) ahead) := by
  refine ⟨rfl, ?_⟩
  cases passed with
  | nil =>
      rw [List.append_nil, List.append_nil]
      exact Or.inr ⟨startsLine, otherStartsLine⟩
  | cons c rest =>
      left
      change (second ++ c :: rest).getLast? = (first ++ c :: rest).getLast?
      rw [List.getLast?_append, List.getLast?_append, List.getLast?_cons]
      rfl

/-- Behind the beginning of a line, no match begins in a text without one. -/
theorem silent_of_not_occursIn (sees : pattern.SeesLines) (allBreaks : ∀ c ∈ breaks, c = '\n')
    (absent : pattern.occursIn (breaks ++ text) = false) {passed : Text}
    (startsLine : passed.getLast?.all (· == '\n') = true) : pattern.Silent passed text [] := by
  intro more rest split _ next reads
  rw [List.append_nil] at reads
  obtain ⟨there, otherReads, _⟩ :=
    exists_reads_of_alike sees (alike_between passed breaks startsLine (getLast?_of_breaks allBreaks) more rest) reads
  refine occursIn_eq_false_iff.mp absent (breaks ++ more) rest there ?_ otherReads
  rw [split, List.append_assoc]

/-- A text without a match has none when its first lines, which are empty, are left out. -/
theorem not_occursIn_of_breaks (sees : pattern.SeesLines) (allBreaks : ∀ c ∈ breaks, c = '\n')
    (absent : pattern.occursIn (breaks ++ text) = false) : pattern.occursIn text = false := by
  rw [occursIn_eq_false_iff]
  intro passed ahead next split reads
  obtain ⟨there, otherReads, _⟩ :=
    exists_reads_of_alike sees (alike_between [] breaks rfl (getLast?_of_breaks allBreaks) passed ahead) reads
  refine occursIn_eq_false_iff.mp absent (breaks ++ passed) ahead there ?_ otherReads
  rw [split, List.append_assoc]

end Absent

end Pattern

end SceneBundler
