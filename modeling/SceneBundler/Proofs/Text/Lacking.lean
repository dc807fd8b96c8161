import SceneBundler.Proofs.Text.Scan

/-!
Contract: texts in which words do not occur as words of their own.

Owns:
- that texts put one after another lack a word if each of them does and no word runs across the seam;
- that patterns which read such a word, set apart from other words, find nothing.

Does not own: which words those are.
-/

namespace SceneBundler.Text

open Character (isWord)

/-- Whether every occurrence of a word in a text is part of a longer word. -/
def Lacks (word text : Text) : Prop :=
  ∀ before after, text = before ++ (word ++ after) →
    before.getLast?.any isWord = true ∨ after.head?.any isWord = true

variable {word : Text}

theorem lacks_of_not_mem {c : Char} {text : Text} (isIn : c ∈ word) (absent : c ∉ text) :
    Lacks word text := by
  intro before after split
  refine absurd ?_ absent
  rw [split]
  exact List.mem_append_right _ (List.mem_append_left _ isIn)

/-- A word lacks every other word. -/
theorem lacks_of_ne {other : Text} (areWord : ∀ c ∈ other, isWord c = true) (different : other ≠ word) :
    Lacks word other := by
  intro before after split
  cases isLast : before.getLast? with
  | some c =>
      refine Or.inl (areWord c ?_)
      rw [split]
      exact List.mem_append_left _ (List.mem_of_getLast? isLast)
  | none =>
      obtain rfl := List.getLast?_eq_none_iff.mp isLast
      cases after with
      | nil => exact absurd (by simpa using split) different
      | cons c after =>
          refine Or.inr (areWord c ?_)
          rw [split]
          exact List.mem_append_right _ (List.mem_append_right _ List.mem_cons_self)

theorem Lacks.append {first second : Text} (areWord : ∀ c ∈ word, isWord c = true)
    (lacksFirst : Lacks word first) (lacksSecond : Lacks word second)
    (seam : first.getLast?.any isWord = false ∨ second.head?.any isWord = false) :
    Lacks word (first ++ second) := by
  intro before after split
  rcases List.append_eq_append_iff.mp split with ⟨beyond, rfl, isSecond⟩ | ⟨beyond, isFirst, tail⟩
  · refine (lacksSecond beyond after isSecond).imp_left fun ends => ?_
    rw [List.getLast?_append]
    cases isLast : beyond.getLast? with
    | none => simp [isLast] at ends
    | some c => simpa [isLast] using ends
  · rcases List.append_eq_append_iff.mp tail with ⟨further, isBeyond, rfl⟩ | ⟨further, isWhole, isSecond⟩
    · rw [isBeyond] at isFirst
      refine (lacksFirst before further isFirst).imp_right fun begins => ?_
      rw [List.head?_append]
      cases isHead : further.head? with
      | none => simp [isHead] at begins
      | some c => simpa [isHead] using begins
    · -- the word runs across the seam, unless all of it stands on one side
      cases beyond with
      | nil =>
          rw [List.append_nil] at isFirst
          rw [List.nil_append] at isWhole
          subst isFirst isWhole
          refine (lacksSecond [] after isSecond).imp_left fun ends => ?_
          simp at ends
      | cons c beyond =>
          cases further with
          | nil =>
              rw [List.append_nil] at isWhole
              rw [← isWhole] at isFirst
              refine (lacksFirst before [] (by rw [isFirst, List.append_nil])).imp_right fun begins => ?_
              simp at begins
          | cons d further =>
              have lastIsWord : first.getLast?.any isWord = true := by
                rw [isFirst, List.getLast?_append, List.getLast?_eq_some_getLast (List.cons_ne_nil c beyond),
                  Option.some_or, Option.any_some]
                refine areWord _ ?_
                rw [isWhole]
                exact List.mem_append_left _ (List.getLast_mem _)
              have firstIsWord : second.head?.any isWord = true := by
                rw [isSecond]
                refine areWord d ?_
                rw [isWhole]
                exact List.mem_append_right _ List.mem_cons_self
              rw [lastIsWord, firstIsWord] at seam
              simp at seam

end SceneBundler.Text

namespace SceneBundler.Pattern

open Character (isWord)
open Text (Lacks)

variable {word text earlier : Text} {cursor middle behind : Cursor}

/-- Where a word that a text lacks stands in it behind no word, it has no blanks behind it. -/
theorem not_reads_gap_of_lacks {rest following : Text} (lacks : Lacks word text)
    (split : text = earlier ++ (word ++ rest)) (apart : earlier.getLast?.any isWord = false)
    (ahead : middle.ahead = rest ++ following) {accepts : Char -> Bool}
    (noWord : ∀ c, accepts c = true → isWord c = false) :
    ¬(plus accepts).Reads middle behind := by
  intro gap
  obtain ⟨blanks, accepted, enough, passesBlanks⟩ := passes_of_reads_run gap
  have begins : rest.head?.any isWord = true :=
    (lacks earlier rest split).resolve_left (by rw [apart]; exact Bool.false_ne_true)
  cases rest with
  | nil => simp at begins
  | cons d rest =>
      rw [passesBlanks.ahead_eq] at ahead
      cases blanks with
      | nil => exact absurd enough (Nat.not_succ_le_zero 0)
      | cons c blanks =>
          have isWordNot := noWord c (accepted c List.mem_cons_self)
          rw [(List.cons.inj ahead).1] at isWordNot
          rw [List.head?_cons, Option.any_some, isWordNot] at begins
          contradiction

/-- A word that a text lacks is not read in it between other characters than those of words. -/
theorem not_reads_of_lacks (lacks : Lacks word text) (split : text = earlier ++ cursor.ahead)
    (behindEarlier : cursor.previous = earlier.getLast?)
    (apart : cursor.previous.any isWord = false) {accepts : Char -> Bool}
    (noWord : ∀ c, accepts c = true → isWord c = false)
    (reads : (Pattern.word word).Reads cursor middle) (gap : (plus accepts).Reads middle behind) :
    False := by
  obtain ⟨passesWord, _⟩ := reads_word_iff.mp reads
  rw [passesWord.ahead_eq] at split
  rw [behindEarlier] at apart
  exact not_reads_gap_of_lacks lacks split apart (List.append_nil middle.ahead).symm noWord gap

/-- A word that a line lacks is not read in it, whatever stands behind the line. -/
theorem not_reads_of_lacks_line {passed beyond following : Text} {c : Char} (lacks : Lacks word text)
    (split : text = earlier ++ beyond) (stop : c ∉ word) (ahead : cursor.ahead = beyond ++ c :: following)
    (behindEarlier : cursor.previous = (passed ++ earlier).getLast?)
    (apart : cursor.previous.any isWord = false) {accepts : Char -> Bool}
    (noWord : ∀ c, accepts c = true → isWord c = false)
    (reads : (Pattern.word word).Reads cursor middle) (gap : (plus accepts).Reads middle behind) :
    False := by
  obtain ⟨passesWord, _⟩ := reads_word_iff.mp reads
  obtain ⟨rest, isBeyond, aheadMiddle⟩ :
      ∃ rest, beyond = word ++ rest ∧ middle.ahead = rest ++ c :: following := by
    rw [passesWord.ahead_eq] at ahead
    rcases List.append_eq_append_iff.mp ahead with ⟨rest, isBeyond, isAhead⟩ | ⟨rest, isWhole, isAhead⟩
    · exact ⟨rest, isBeyond, isAhead⟩
    · cases rest with
      | nil => exact ⟨[], by simpa using isWhole.symm, isAhead.symm⟩
      | cons d rest =>
          refine absurd ?_ stop
          rw [isWhole, (List.cons.inj isAhead).1]
          exact List.mem_append_right _ List.mem_cons_self
  have apartEarlier : earlier.getLast?.any isWord = false := by
    rw [behindEarlier, List.getLast?_append] at apart
    cases isLast : earlier.getLast? with
    | none => rfl
    | some d => simpa [isLast] using apart
  rw [isBeyond] at split
  exact not_reads_gap_of_lacks lacks split apartEarlier aheadMiddle noWord gap

/-- In front of a word, a border between words and other characters is the end of no word. -/
theorem apart_of_wordBoundary (start : (wordBoundary).Reads cursor middle)
    (isWordFirst : word.head?.any isWord = true) (reads : (Pattern.word word).Reads middle behind) :
    middle = cursor ∧ cursor.previous.any isWord = false := by
  obtain ⟨border, rfl⟩ := start
  obtain ⟨passesWord, _⟩ := reads_word_iff.mp reads
  refine ⟨rfl, ?_⟩
  rw [passesWord.ahead_eq] at border
  cases word with
  | nil => simp at isWordFirst
  | cons c rest =>
      rw [List.head?_cons, Option.any_some] at isWordFirst
      simpa [isWordFirst] using border

end SceneBundler.Pattern
