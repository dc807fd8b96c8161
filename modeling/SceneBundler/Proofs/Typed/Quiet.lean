import SceneBundler.Proofs.Typed.Grouped
import SceneBundler.Proofs.Typed.Lines

/-!
Contract: what is not in written programs.

Owns:
- that patterns which begin a line find nothing in lines that none of them begins;
- that programs have no classes, casts and non-null marks, so that nothing of them is reported or
  converted, and the passes over these find nothing.

Does not own: what is in written programs.
-/

namespace SceneBundler

namespace Pattern

/-- The first part of a sequence of patterns. -/
def leftmost : Pattern -> Pattern
  | sequence first _ => first.leftmost
  | other => other

theorem exists_reads_leftmost {pattern : Pattern} {cursor next : Cursor}
    (reads : pattern.Reads cursor next) : ∃ middle, pattern.leftmost.Reads cursor middle := by
  induction pattern generalizing next with
  | sequence first second firstHypothesis _ =>
      obtain ⟨middle, readsFirst, _⟩ := reads
      exact firstHypothesis readsFirst
  | _ => exact ⟨next, reads⟩

theorem startsLine_of_reads {pattern : Pattern} (isLineStart : pattern.leftmost = lineStart)
    {cursor next : Cursor} (reads : pattern.Reads cursor next) :
    cursor.previous.all (· == '\n') = true := by
  obtain ⟨middle, readsStart⟩ := exists_reads_leftmost reads
  rw [isLineStart] at readsStart
  exact readsStart.1

/-- A search finds nothing in a line with its break if nothing is read from any place in the line. -/
theorem silent_line {pattern : Pattern} {passed line following : Text}
    (unread : ∀ more beyond, line = more ++ beyond → ∀ next,
      ¬pattern.Reads (Cursor.between (passed ++ more) (beyond ++ '\n' :: following)) next) :
    pattern.Silent passed (line ++ ['\n']) following := by
  intro more rest split nonempty next reads
  obtain ⟨beyond, last, rfl⟩ := (List.eq_nil_or_concat rest).resolve_left nonempty
  have same : line ++ ['\n'] = (more ++ beyond) ++ [last] := by simpa using split
  obtain ⟨isLine, isBreak⟩ := List.append_inj' same rfl
  rw [← (List.cons.inj isBreak).1] at reads
  exact unread more beyond isLine next (by simpa using reads)

/-- Behind the beginning of a line, a pattern that begins a line is not read in it. -/
theorem silent_of_lineStart {pattern : Pattern} (isLineStart : pattern.leftmost = lineStart)
    {passed line following : Text} {c : Char} (noBreak : '\n' ∉ c :: line) :
    pattern.Silent (passed ++ [c]) (line ++ ['\n']) following := by
  refine silent_line fun more beyond isLine next reads => ?_
  have startsLine : (passed ++ [c] ++ more).getLast?.all (· == '\n') = true :=
    startsLine_of_reads isLineStart reads
  have isLast : (passed ++ [c] ++ more).getLast? = (c :: more).getLast? := by
    rw [List.append_assoc, List.getLast?_append]
    simp [List.getLast?_cons]
  rw [isLast, List.getLast?_eq_some_getLast (List.cons_ne_nil c more), Option.all_some,
    beq_iff_eq] at startsLine
  refine noBreak ?_
  rw [← startsLine, isLine, ← List.cons_append]
  exact List.mem_append_left _ (List.getLast_mem _)

end Pattern

namespace Typed

open Dialect
open Text (Lacks)

/-! ## Lines -/

/-- A pattern that begins a line finds in a line at most what begins there, if that ends within it. -/
theorem finds_line {Item : Type} {write : Item -> Text} {pattern : Pattern}
    (isLineStart : pattern.leftmost = Pattern.lineStart) {item : Item} {c : Char} {line : Text}
    (isLine : write item = c :: line) (noBreak : '\n' ∉ write item) {passed following : Text}
    (bounds : ∀ found, foundAt pattern write passed item following = some found →
      passed.length < found.stop ∧ found.stop ≤ passed.length + (write item).length) :
    pattern.Finds passed (write item ++ ['\n']) following
      (foundAt pattern write passed item following).toList := by
  have isWhole : c :: (line ++ ['\n']) ++ following = write item ++ '\n' :: following := by
    simp [isLine]
  rw [isLine] at noBreak
  have finds := @Pattern.finds_of_silent_tail pattern passed (line ++ ['\n']) following c
    (Pattern.silent_of_lineStart isLineStart noBreak) fun found same => by
      rw [isWhole] at same
      obtain ⟨begins, ends⟩ := bounds found same
      rw [isLine] at ends
      simp only [List.length_cons, List.length_append, List.length_nil] at ends ⊢
      omega
  rw [isWhole] at finds
  rw [isLine, List.cons_append]
  exact finds

/-- A pattern that begins a line, and none of the given ones, finds nothing. -/
theorem all_lines_eq_nil {pattern : Pattern} (isLineStart : pattern.leftmost = Pattern.lineStart)
    (nonempty : pattern.mayBeEmpty = false) {texts : List Text}
    (each : ∀ text ∈ texts, ∃ c rest, text = c :: rest ∧ '\n' ∉ text ∧
      ∀ passed following next, ¬pattern.Reads (Cursor.between passed (text ++ following)) next) :
    pattern.all (lines texts) = [] := by
  have notFound {text : Text} (isLine : text ∈ texts) (passed following : Text) :
      foundAt pattern id passed text following = none := by
    obtain ⟨_, _, _, _, notRead⟩ := each text isLine
    exact Pattern.find_eq_none fun next => notRead passed ('\n' :: following) next
  rw [← List.map_id texts, List.eq_nil_iff_forall_not_mem]
  intro found member
  rw [mem_all_lines nonempty] at member
  · obtain ⟨before, text, after, among, foundHere⟩ := member
    rw [notFound (among ▸ List.mem_append_right _ List.mem_cons_self)] at foundHere
    contradiction
  · intro text isLine passed following _
    obtain ⟨c, rest, isText, noBreak, _⟩ := each text isLine
    refine finds_line isLineStart isText noBreak fun found foundHere => ?_
    rw [notFound isLine] at foundHere
    contradiction

theorem lacks_lines {word : Text} (watched : word ∈ watchedWords) {texts : List Text}
    (each : ∀ text ∈ texts, Lacks word text) : Lacks word (lines texts) := by
  have areWord := isWord_of_mem_watchedWords word watched
  induction texts with
  | nil => exact (joins_lacks true watched).nil
  | cons text others inductionHypothesis =>
      have lacksOthers := inductionHypothesis fun other member =>
        each other (List.mem_cons_of_mem text member)
      have noBreak : ∀ word ∈ watchedWords, (word.any fun c => ! ['\n'].contains c) = true := by decide
      obtain ⟨c, isIn, notBreak⟩ := Text.exists_not_mem_of_any (noBreak word watched)
      have lacksBreak : Lacks word ['\n'] := Text.lacks_of_not_mem isIn notBreak
      have lacksTail := lacksBreak.append areWord lacksOthers (Or.inl (by decide))
      have isApart : ('\n' :: lines others).head?.any Character.isWord = false := by
        rw [List.head?_cons]
        decide
      rw [lines_cons]
      exact (each text List.mem_cons_self).append areWord lacksTail (Or.inr isApart)

/-! ## Words that are not found -/

section Words

variable {text : Text}

theorem all_abstractClass (lacks : Lacks "abstract".toList text) : abstractClass.all text = [] := by
  refine Pattern.all_eq_nil fun passed ahead next split reads => ?_
  obtain ⟨_, ⟨_, ⟨_, ⟨behind, ⟨start, border, word⟩, gap⟩, _⟩, _⟩, _⟩ := reads
  obtain ⟨rfl, apart⟩ := Pattern.apart_of_wordBoundary border (by decide) word
  exact Pattern.not_reads_of_lacks lacks split rfl apart (fun _ => Character.isWord_of_isBlank) word gap

theorem all_classHead (lacks : Lacks "class".toList text) : classHead.all text = [] := by
  refine Pattern.all_eq_nil fun passed ahead next split reads => ?_
  obtain ⟨_, ⟨_, ⟨_, ⟨behind, ⟨start, border, word⟩, gap⟩, _⟩, _⟩, _⟩ := reads
  obtain ⟨rfl, apart⟩ := Pattern.apart_of_wordBoundary border (by decide) word
  exact Pattern.not_reads_of_lacks lacks split rfl apart (fun _ => Character.isWord_of_isBlank) word gap

theorem isWord_of_isIndent {c : Char} (isIndent : Text.isIndent c = true) :
    Character.isWord c = false := by
  simp only [Text.isIndent, Bool.or_eq_true, beq_iff_eq] at isIndent
  rcases isIndent with rfl | rfl <;> decide

theorem all_castSuffix (lacksAs : Lacks "as".toList text)
    (lacksSatisfies : Lacks "satisfies".toList text) : castSuffix.all text = [] := by
  refine Pattern.all_eq_nil fun passed ahead next split reads => ?_
  obtain ⟨_, ⟨_, ⟨behind, ⟨start, ⟨_, ⟨_, rfl⟩, lead⟩, word⟩, gap⟩, _⟩, _⟩ := reads
  obtain ⟨blanks, areIndent, enough, passes⟩ := Pattern.passes_of_reads_run lead
  have isSplit : text = (passed ++ blanks) ++ start.ahead := by
    rw [split, List.append_assoc, ← passes.ahead_eq]
    rfl
  have isPrevious : start.previous = (passed ++ blanks).getLast? := by
    rw [passes.previous_eq, List.getLast?_append]
    rfl
  have apart : start.previous.any Character.isWord = false := by
    rw [passes.previous_eq]
    cases isLast : blanks.getLast? with
    | none =>
        rw [List.getLast?_eq_none_iff.mp isLast] at enough
        exact absurd enough (Nat.not_succ_le_zero 0)
    | some c => exact isWord_of_isIndent (areIndent c (List.mem_of_getLast? isLast))
  rcases word with word | word
  · exact Pattern.not_reads_of_lacks lacksAs isSplit isPrevious apart (fun _ => isWord_of_isIndent) word gap
  · exact Pattern.not_reads_of_lacks lacksSatisfies isSplit isPrevious apart
      (fun _ => isWord_of_isIndent) word gap

theorem nonNullEdits_eq_nil (noMark : '!' ∉ text) : nonNullEdits text = [] := by
  have notRead {passed ahead : Text} {middle next : Cursor}
      (split : text = passed ++ ahead) (same : middle = Cursor.between passed ahead)
      (reads : (Pattern.char '!').Reads middle next) : False := by
    obtain ⟨c, isMark, passes, _⟩ := Cursor.passes_of_step? reads
    obtain rfl : c = '!' := beq_iff_eq.mp isMark
    have isAhead : ahead = '!' :: next.ahead := by
      have here := passes.ahead_eq
      rwa [same] at here
    refine noMark ?_
    rw [split, isAhead]
    exact List.mem_append_right _ List.mem_cons_self
  have noMember : nonNullMember.all text = [] := by
    refine Pattern.all_eq_nil fun passed ahead next split reads => ?_
    obtain ⟨_, ⟨start, ⟨_, same⟩, mark⟩, _⟩ := reads
    exact notRead split same mark
  have noLineEnd : nonNullLineEnd.all text = [] := by
    refine Pattern.all_eq_nil fun passed ahead next split reads => ?_
    obtain ⟨_, ⟨start, ⟨_, same⟩, mark⟩, _⟩ := reads
    exact notRead split same mark
  rw [nonNullEdits, noMember, noLineEnd]
  rfl

end Words

/-! ## Statements -/

/-- A statement is a line that begins with a keyword. -/
theorem Statement.exists_head (full : Bool) (statement : Statement) :
    ∃ c rest, statement.text full = c :: rest ∧ c ∈ ['i', 't', 'l', 'f'] := by
  cases statement with
  | interface name members => exact ⟨'i', _, rfl, by decide⟩
  | synonym name type => exact ⟨'t', _, rfl, by decide⟩
  | binding name type value => exact ⟨'l', _, rfl, by decide⟩
  | function name parameters result value => exact ⟨'f', _, rfl, by decide⟩

theorem Statement.not_mem_break (full : Bool) (statement : Statement) :
    '\n' ∉ statement.text full := by
  intro member
  have isMark := statement.joined (joins_isLineMark full) (leads_isLineMark full) '\n' member
  exact absurd isMark (by cases full <;> decide)

theorem all_written_eq_nil {pattern : Pattern} (isLineStart : pattern.leftmost = Pattern.lineStart)
    (nonempty : pattern.mayBeEmpty = false)
    (begins : ∀ c ∈ ['i', 't', 'l', 'f'], pattern.mayBegin c = false) (program : List Statement) :
    pattern.all (written program) = [] := by
  refine all_lines_eq_nil isLineStart nonempty fun text isLine => ?_
  obtain ⟨statement, _, rfl⟩ := List.mem_map.mp isLine
  obtain ⟨c, rest, isText, isKey⟩ := statement.exists_head true
  refine ⟨c, rest, isText, statement.not_mem_break true, fun passed following next => ?_⟩
  exact Pattern.not_reads_of_mayBegin nonempty (begins c isKey) (by rw [isText]; rfl)

/-- No statement is an import, though an interface begins like one. -/
theorem all_typeOnlyImport (program : List Statement) : typeOnlyImport.all (written program) = [] := by
  refine all_lines_eq_nil rfl rfl fun text isLine => ?_
  obtain ⟨statement, _, rfl⟩ := List.mem_map.mp isLine
  obtain ⟨c, rest, isText, isKey⟩ := statement.exists_head true
  refine ⟨c, rest, isText, statement.not_mem_break true, fun passed following next reads => ?_⟩
  obtain ⟨behind, ⟨start, ⟨_, rfl⟩, indent⟩, reads⟩ := reads
  have noIndent : ∀ c ∈ ['i', 't', 'l', 'f'], Text.isIndent c = false :=
    Text.forall_mem_of_all (by decide)
  obtain rfl := Pattern.eq_of_reads_run (by rw [isText]; exact noIndent c isKey) indent
  rcases reads with ⟨_, ⟨_, ⟨_, word, _⟩, _⟩, _⟩ | readsExport
  · have isWord : (Cursor.between passed (statement.text true ++ following)).ahead = "import".toList ++ _ :=
      (Pattern.reads_word_iff.mp word).1.ahead_eq
    cases statement with
    | interface name members =>
        exact absurd (List.cons.inj (List.cons.inj isWord).2).1 (by decide)
    | synonym name type => exact absurd (List.cons.inj isWord).1 (by decide)
    | binding name type value => exact absurd (List.cons.inj isWord).1 (by decide)
    | function name parameters result value => exact absurd (List.cons.inj isWord).1 (by decide)
  · have notExport : ∀ c ∈ ['i', 't', 'l', 'f'], (Pattern.literal "export" ++ Pattern.gap ++
        Pattern.literal "type" ++ Pattern.blanks ++ Pattern.char '\x7b').mayBegin c = false :=
      Text.forall_mem_of_all (by decide)
    exact Pattern.not_reads_of_mayBegin rfl (notExport c isKey) (by rw [isText]; rfl) readsExport

theorem mask_written (program : List Statement) : Source.mask (written program) = written program :=
  (grouped_lines program).mask_eq_self

/-- Nothing of a program is reported. -/
theorem unsupportedConstructs_written (program : List Statement) :
    unsupportedConstructs (written program) = [] := by
  have noNamespace : namespaceBlock.all (written program) = [] :=
    all_written_eq_nil rfl rfl (Text.forall_mem_of_all (by decide)) program
  have noClass : abstractClass.all (written program) = [] := by
    refine all_abstractClass (lacks_lines (by decide) fun text isLine => ?_)
    obtain ⟨statement, _, rfl⟩ := List.mem_map.mp isLine
    exact statement.joined (joins_lacks true (by decide)) (leads_lacks (by decide) (by decide))
  rw [unsupportedConstructs, mask_written, noNamespace, noClass]
  rfl

/-- Nothing of a program is converted. -/
theorem convertEnums_written (program : List Statement) :
    convertEnums (written program) = (written program, []) := by
  have noEnum : enumHead.all (written program) = [] := all_written_eq_nil rfl rfl (Text.forall_mem_of_all (by decide)) program
  rw [convertEnums, mask_written, noEnum]
  rfl

/-! ## Drafts -/

section Drafts

variable (drafts : List Draft)

/-- Kept statements without type arguments, each on its line. -/
def draftLines : Text :=
  lines (drafts.map (Draft.text false))

theorem Draft.isLineMark_of_mem (draft : Draft) {c : Char} (member : c ∈ draft.text false) :
    isLineMark false c = true :=
  draft.joined (joins_isLineMark false) (leads_isLineMark false) c member

theorem mem_draftLines {c : Char} (member : c ∈ draftLines drafts) :
    c = '\n' ∨ isLineMark false c = true := by
  obtain ⟨text, isText, isIn⟩ := List.mem_flatMap.mp member
  obtain ⟨draft, _, rfl⟩ := List.mem_map.mp isText
  rcases List.mem_append.mp isIn with isMark | isBreak
  · exact Or.inr (draft.isLineMark_of_mem isMark)
  · exact Or.inl (List.mem_singleton.mp isBreak)

theorem not_mem_draftLines {c : Char} (notBreak : c ≠ '\n') (other : isLineMark false c = false) :
    c ∉ draftLines drafts := by
  intro member
  rcases mem_draftLines drafts member with isBreak | isMark
  · exact notBreak isBreak
  · rw [isMark] at other
    contradiction

/-- Without type arguments a program is its own masked view. -/
theorem mask_draftLines : Source.mask (draftLines drafts) = draftLines drafts := by
  refine Source.mask_eq_self_of_no_less (fun c member => ?_) (not_mem_draftLines drafts (by decide) (by decide))
  rcases mem_draftLines drafts member with rfl | isMark
  · decide
  · simp only [isLineMark, Bool.and_eq_true, Bool.not_eq_true'] at isMark
    exact isMark.1.2

theorem lacks_draftLines {word : Text} (watched : word ∈ watchedWords) (other : word ≠ "let".toList) :
    Lacks word (draftLines drafts) := by
  refine lacks_lines watched fun text isLine => ?_
  obtain ⟨draft, _, rfl⟩ := List.mem_map.mp isLine
  exact draft.joined (joins_lacks false watched) (leads_lacks watched other)

/-- A pass that finds nothing to delete changes nothing. -/
theorem editUntilSettled_of_nil {collect : Text -> List Edit} (isPass : collect ∈ passes)
    (none : collect (draftLines drafts) = []) :
    editUntilSettled collect (draftLines drafts) = draftLines drafts := by
  refine (editUntilSettled_eq_self_iff (sublist_editOnce isPass)).mpr ?_
  rw [IsSettled, editOnce, mask_draftLines, none]
  rfl

theorem nonNullEdits_draftLines : nonNullEdits (draftLines drafts) = [] :=
  nonNullEdits_eq_nil (not_mem_draftLines drafts (by decide) (by decide))

theorem castEdits_draftLines : castEdits (draftLines drafts) = [] := by
  rw [castEdits, all_castSuffix (lacks_draftLines drafts (by decide) (by decide))
    (lacks_draftLines drafts (by decide) (by decide))]
  rfl

theorem classMemberEdits_draftLines : classMemberEdits (draftLines drafts) = [] := by
  rw [classMemberEdits, all_classHead (lacks_draftLines drafts (by decide) (by decide))]
  rfl

end Drafts

end Typed

end SceneBundler
