import SceneBundler.Dialect.Expression
import SceneBundler.Proofs.Text.Scan
import SceneBundler.Proofs.Text.Search

/-!
Contract: the pattern of type arguments.

Owns: what is passed and captured where type arguments are read, and that they are read wherever a
name stands in front of angle brackets that hold no further ones.

Does not own: which of the matches are deleted.
-/

namespace SceneBundler.Dialect

open Pattern (literal char name star)
open Cursor (Passes)

/-! ## Readings of type arguments -/

/-- What is passed where type arguments are read. -/
structure ReadsArguments (cursor next : Cursor) (word inner : Text) : Prop where
  apart : cursor.previous.any Character.continuesName = false
  isName : ∃ first rest, word = first :: rest ∧ Character.startsName first = true
  continues : ∀ c ∈ word, Character.continuesName c = true
  innermost : '<' ∉ inner ∧ '>' ∉ inner
  passes : Passes (word ++ '<' :: (inner ++ ['>'])) cursor next
  nameSpan : next.captures.lookup 1 = some ⟨cursor.offset, cursor.offset + word.length⟩
  innerSpan : next.captures.lookup 2 =
    some ⟨cursor.offset + word.length + 1, cursor.offset + word.length + 1 + inner.length⟩

theorem exists_readsArguments {cursor next : Cursor} (reads : typeArguments.Reads cursor next) :
    ∃ word inner, ReadsArguments cursor next word inner := by
  obtain ⟨behindInner, ⟨behindAngle, ⟨behindName, ⟨start, ⟨apart, rfl⟩, readsName⟩, readsAngle⟩,
    readsInner⟩, readsClose⟩ := reads
  obtain ⟨first, rest, starts, continues, passesName⟩ : ∃ first rest,
      Character.startsName first = true ∧ (∀ c ∈ rest, Character.continuesName c = true) ∧
        Passes (first :: rest) start behindName := by
    obtain ⟨reached, readsWord, rfl⟩ := readsName
    obtain ⟨first, rest, starts, continues, passes⟩ := Pattern.exists_word_of_reads_name readsWord
    exact ⟨first, rest, starts, continues, passes.of_fields rfl rfl rfl⟩
  have nameSpan := Pattern.lookup_of_reads_capture readsName
  obtain ⟨c, isLess, passesAngle, sameAngle⟩ := Cursor.passes_of_step? readsAngle
  obtain rfl : c = '<' := beq_iff_eq.mp isLess
  obtain ⟨inner, accepted, passesInner⟩ : ∃ inner,
      (∀ c ∈ inner, (c != '<' && c != '>') = true) ∧ Passes inner behindAngle behindInner := by
    obtain ⟨reached, readsRun, rfl⟩ := readsInner
    obtain ⟨inner, accepted, _, passes⟩ := Pattern.passes_of_reads_run readsRun
    exact ⟨inner, accepted, passes.of_fields rfl rfl rfl⟩
  have innerSpan := Pattern.lookup_of_reads_capture readsInner
  have keepsName := @Pattern.lookup_of_reads _ 1 _ _ (by decide) readsInner
  obtain ⟨d, isGreater, passesClose, sameClose⟩ := Cursor.passes_of_step? readsClose
  obtain rfl : d = '>' := beq_iff_eq.mp isGreater
  refine ⟨first :: rest, inner, by simpa using apart, ⟨first, rest, rfl, starts⟩, ?_, ?_, ?_, ?_, ?_⟩
  · intro c member
    rcases List.mem_cons.mp member with rfl | isLater
    · exact Pattern.continuesName_of_startsName starts
    · exact continues c isLater
  · constructor
    · intro member
      simpa using accepted _ member
    · intro member
      simpa using accepted _ member
  · simpa using ((passesName.trans passesAngle).trans passesInner).trans passesClose
  · rw [sameClose, keepsName, sameAngle, nameSpan, passesName.offset_eq]
  · rw [sameClose, innerSpan, passesInner.offset_eq, passesAngle.offset_eq, passesName.offset_eq]
    rfl

/-- Where type parameters of an arrow function are found, an equals sign stands in front of their angle
bracket. -/
theorem exists_equals_of_mem_arrowTypeParameters {text : Text} {found : Match}
    (member : found ∈ arrowTypeParameters.all text) :
    ∃ earlier blanks beyond, text = earlier ++ '=' :: (blanks ++ '<' :: beyond) ∧
      ∀ c ∈ blanks, Character.isBlank c = true := by
  obtain ⟨passed, ahead, rfl, foundHere⟩ := Pattern.find_of_mem_all member
  obtain ⟨next, reads, _⟩ := Pattern.reads_of_find foundHere
  obtain ⟨_, ⟨_, ⟨_, ⟨_, ⟨_, ⟨_, ⟨behindLess, ⟨behindBlanks, ⟨start, ⟨behindEquals, rfl⟩, readsBlanks⟩,
    readsLess⟩, _⟩, _⟩, _⟩, _⟩, _⟩, _⟩, _⟩ := reads
  obtain ⟨_, readsRun, rfl⟩ := readsBlanks
  obtain ⟨blanks, areBlank, _, passes⟩ := Pattern.passes_of_reads_run readsRun
  obtain ⟨c, isLess, passesLess, _⟩ := Cursor.passes_of_step? readsLess
  obtain rfl : c = '<' := beq_iff_eq.mp isLess
  obtain ⟨last, isLast, isEquals⟩ := (Option.any_eq_true (· == '=') _).mp behindEquals
  obtain rfl : last = '=' := beq_iff_eq.mp isEquals
  obtain ⟨earlier, rfl⟩ : ∃ earlier, passed = earlier ++ ['='] := List.getLast?_eq_some_iff.mp isLast
  have less := passesLess.ahead_eq
  have isAhead : ahead = blanks ++ _ := passes.ahead_eq
  rw [less] at isAhead
  exact ⟨earlier, blanks, behindLess.ahead, by rw [isAhead]; simp, areBlank⟩

theorem not_mem_of_continues {word : Text} (continues : ∀ c ∈ word, Character.continuesName c = true)
    {mark : Char} (isMark : Character.continuesName mark = false) : mark ∉ word := by
  intro member
  rw [continues mark member] at isMark
  contradiction

/-- A name in front of angle brackets is a list of type arguments just if it stands before no operand, the
contents can be types, and neither a name nor another angle bracket follows. -/
theorem isTypeArgumentList_iff {passed word inner following : Text} {found : Match}
    (stop : found.stop = passed.length + (word ++ '<' :: (inner ++ ['>'])).length)
    (nameSpan : found.span? 1 = some ⟨passed.length, passed.length + word.length⟩)
    (innerSpan : found.span? 2 = some ⟨passed.length + word.length + 1,
      passed.length + word.length + 1 + inner.length⟩) :
    isTypeArgumentList (passed ++ (word ++ '<' :: (inner ++ '>' :: following))) found = true ↔
      word ∉ expressionKeywords ∧ typeContentStart.startsText inner = true ∧
        nonTypeTokens.any (fun token => Text.occursIn token inner) = false ∧
          ∀ c ∈ following.head?, Character.continuesName c = false ∧ c ≠ '<' := by
  have isWord : found.captured (passed ++ (word ++ '<' :: (inner ++ '>' :: following))) 1 = word := by
    rw [Match.captured, Match.captured?, nameSpan]
    exact Text.slice_behind passed word _
  have isInner : found.captured (passed ++ (word ++ '<' :: (inner ++ '>' :: following))) 2 = inner := by
    rw [Match.captured, Match.captured?, innerSpan]
    exact Text.slice_eq (passed ++ (word ++ ['<'])) ('>' :: following) (by simp) (by simp [Nat.add_assoc])
      (by simp [Nat.add_assoc])
  have behind : (passed ++ (word ++ '<' :: (inner ++ '>' :: following)))[found.stop]? = following.head? := by
    have split : passed ++ (word ++ '<' :: (inner ++ '>' :: following)) =
        (passed ++ (word ++ '<' :: (inner ++ ['>']))) ++ following := by simp
    rw [stop, split, List.getElem?_append_right (by simp), List.head?_eq_getElem?]
    simp
  simp only [isTypeArgumentList, isWord, isInner, behind, Bool.and_eq_true, Bool.not_eq_true',
    List.contains_eq_mem, decide_eq_false_iff_not, Option.all_eq_true, Bool.or_eq_false_iff,
    beq_eq_false_iff_ne, Option.mem_def, and_assoc]

theorem ReadsArguments.isTypeArgumentList_iff {passed ahead word inner : Text} {next : Cursor}
    (reads : ReadsArguments (Cursor.between passed ahead) next word inner) :
    isTypeArgumentList (passed ++ ahead) ⟨passed.length, next.offset, next.captures⟩ = true ↔
      word ∉ expressionKeywords ∧ typeContentStart.startsText inner = true ∧
        nonTypeTokens.any (fun token => Text.occursIn token inner) = false ∧
          ∀ c ∈ next.ahead.head?, Character.continuesName c = false ∧ c ≠ '<' := by
  have isAhead : ahead = word ++ '<' :: (inner ++ '>' :: next.ahead) := by
    simpa [Cursor.between] using reads.passes.ahead_eq
  rw [isAhead]
  exact Dialect.isTypeArgumentList_iff reads.passes.offset_eq reads.nameSpan reads.innerSpan

/-- Where a name stands in front of brackets that hold no further ones, these are what is read. -/
theorem find_typeArguments {passed following inner : Text} {first : Char} {rest : Text}
    (starts : Character.startsName first = true)
    (continues : ∀ c ∈ rest, Character.continuesName c = true)
    (apart : passed.getLast?.any Character.continuesName = false)
    (innermost : '<' ∉ inner ∧ '>' ∉ inner) :
    ∃ found, typeArguments.find
        (Cursor.between passed (first :: rest ++ '<' :: (inner ++ '>' :: following))) = some found ∧
      found.stop = passed.length + (first :: rest ++ '<' :: (inner ++ ['>'])).length ∧
      found.span? 1 = some ⟨passed.length, passed.length + (first :: rest).length⟩ ∧
      found.span? 2 = some ⟨passed.length + (first :: rest).length + 1,
        passed.length + (first :: rest).length + 1 + inner.length⟩ := by
  have continuesWord : ∀ c ∈ first :: rest, Character.continuesName c = true := by
    intro c member
    rcases List.mem_cons.mp member with rfl | isLater
    · exact Pattern.continuesName_of_startsName starts
    · exact continues c isLater
  have exists_reading : ∃ next, typeArguments.Reads
      (Cursor.between passed (first :: rest ++ '<' :: (inner ++ '>' :: following))) next := by
    have notAngle : ∀ c ∈ inner, (c != '<' && c != '>') = true := by
      intro c member
      have notLess : c ≠ '<' := fun same => innermost.1 (same ▸ member)
      have notGreater : c ≠ '>' := fun same => innermost.2 (same ▸ member)
      simp [notLess, notGreater]
    have stepped : (Cursor.between passed (first :: rest ++ '<' :: (inner ++ '>' :: following))).step?
        Character.startsName = some ⟨some first, rest ++ '<' :: (inner ++ '>' :: following),
          passed.length + 1, []⟩ := by
      simp [Cursor.step?, Cursor.between, starts]
    have untested : (!passed.getLast?.any Character.continuesName) = true := by rw [apart]; rfl
    exact ⟨_, _, ⟨_, ⟨_, ⟨_, ⟨untested, rfl⟩, ⟨_, ⟨_, stepped, Pattern.reads_star continues rfl⟩, rfl⟩⟩,
      Pattern.reads_char rfl⟩, ⟨_, Pattern.reads_star notAngle rfl, rfl⟩⟩, Pattern.reads_char rfl⟩
  obtain ⟨found, foundHere⟩ := Option.isSome_iff_exists.mp (Pattern.isSome_find_iff.mpr exists_reading)
  obtain ⟨next, reads, rfl⟩ := Pattern.reads_of_find foundHere
  obtain ⟨word, contents, readsHere⟩ := exists_readsArguments reads
  have same := readsHere.passes.ahead_eq
  have whole : first :: rest ++ '<' :: (inner ++ '>' :: following) =
      word ++ '<' :: (contents ++ '>' :: next.ahead) := by
    simpa [Cursor.between] using same
  obtain ⟨sameWord, sameTail⟩ := Pattern.append_cons_inj
    (not_mem_of_continues continuesWord (by decide)) (not_mem_of_continues readsHere.continues (by decide))
    whole
  obtain ⟨sameInner, _⟩ := Pattern.append_cons_inj innermost.2 readsHere.innermost.2 sameTail
  refine ⟨_, foundHere, ?_, ?_, ?_⟩
  · rw [sameWord, sameInner]
    exact readsHere.passes.offset_eq
  · rw [sameWord]
    exact readsHere.nameSpan
  · rw [sameWord, sameInner]
    exact readsHere.innerSpan

/-! ## Contents of type arguments -/

theorem startsText_typeContentStart {c : Char} {rest : Text}
    (begins : (Character.startsName c || "[\x7b('\x22".toList.contains c) = true) :
    typeContentStart.startsText (c :: rest) = true := by
  rw [Pattern.startsText, Pattern.matchAt?, Pattern.isSome_matchThen_iff]
  refine ⟨⟨some c, rest, 1, []⟩, ⟨_, @Pattern.reads_star _ _ [] _ (by simp) rfl, ?_⟩, rfl⟩
  simp only [Pattern.Reads, Cursor.step?, Cursor.start]
  exact if_pos begins

/-- A word that occurs stands somewhere. -/
theorem exists_of_occursIn {word text : Text} (occurs : Text.occursIn word text = true) :
    ∃ before after, text = before ++ (word ++ after) := by
  induction text with
  | nil =>
      obtain rfl : word = [] := List.isEmpty_iff.mp occurs
      exact ⟨[], [], rfl⟩
  | cons c rest inductionHypothesis =>
      rcases Bool.or_eq_true_iff.mp occurs with isFirst | isLater
      · obtain ⟨after, isText⟩ := List.isPrefixOf_iff_prefix.mp isFirst
        exact ⟨[], after, isText.symm⟩
      · obtain ⟨before, after, rfl⟩ := inductionHypothesis isLater
        exact ⟨c :: before, after, rfl⟩

end SceneBundler.Dialect
