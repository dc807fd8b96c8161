import SceneBundler.Proofs.Imports.FixedPoint
import SceneBundler.Proofs.Text.Coverage
import SceneBundler.Proofs.Text.Joint

/-!
Contract: the import statements that a view of a source holds.

Owns:
- what stands in a view for an import statement, through the quote that closes its module's name;
- that a search finds one at each of these places, or one that ends with the same quote;
- that removing the statements of a source finds none just if its view holds none;
- what is removed for a statement.

Does not own: what a statement binds.
-/

namespace SceneBundler.Imports

open Source (mask)
open Line (opensModule opensModule_of_isBlank opensModule_of_inClause opensModule_from)
open Cursor (Passes noting)

/-! ## Statements in a view -/

/-- Whether a line begins behind a text. -/
def StartsLine (passed : Text) : Prop :=
  passed.getLast?.all (· == '\n') = true

/-- What stands between the word `import` and the name of a module: names, and the word `from`. -/
def IsClause (clause : Text) : Prop :=
  ∃ names between behind, names ≠ [] ∧ (∀ c ∈ names, inClause c = true) ∧
    (∀ c ∈ between, Character.isBlank c = true) ∧ (∀ c ∈ behind, Character.isBlank c = true) ∧
    clause = names ++ (between ++ ("from".toList ++ behind))

/-- An import statement up to the quote that opens the name of its module. -/
def IsHead (head : Text) : Prop :=
  ∃ indent gap clause, (∀ c ∈ indent, Text.isIndent c = true) ∧
    (∀ c ∈ gap, Character.isBlank c = true) ∧ (clause = [] ∨ IsClause clause) ∧
    head = indent ++ ("import".toList ++ (gap ++ clause))

/-- An import statement as it stands in a view, through the quote that closes its module's name. -/
structure Written where
  head : Text
  quote : Char
  module : Text
  isHead : IsHead head
  isQuote : opensModule quote = true
  closesLast : quote ∉ module

/-- The characters of a statement. -/
def Written.text (written : Written) : Text :=
  written.head ++ written.quote :: (written.module ++ [written.quote])

/-- Whether a view holds an import statement at the beginning of a line. -/
def HoldsImport (view : Text) : Prop :=
  ∃ (passed : Text) (written : Written) (rest : Text),
    view = passed ++ (written.text ++ rest) ∧ StartsLine passed

theorem Written.ne_nil (written : Written) : written.text ≠ [] := by
  simp [text]

theorem opensModule_of_isIndent {c : Char} (indents : Text.isIndent c = true) : opensModule c = false := by
  simp only [Text.isIndent, Bool.or_eq_true, beq_iff_eq] at indents
  rcases indents with rfl | rfl <;> decide

/-- No quote stands in front of the name of a module. -/
theorem IsHead.not_opensModule {head : Text} (isHead : IsHead head) : ∀ c ∈ head, opensModule c = false := by
  obtain ⟨indent, gap, clause, indents, blanks, isClause, rfl⟩ := isHead
  simp only [List.forall_mem_append]
  refine ⟨fun c member => opensModule_of_isIndent (indents c member),
    Text.forall_mem_of_all (by decide), fun c member => opensModule_of_isBlank (blanks c member), ?_⟩
  rcases isClause with rfl | ⟨names, between, behind, _, areNames, blankBetween, blankBehind, rfl⟩
  · exact nofun
  · simp only [List.forall_mem_append]
    exact ⟨fun c member => opensModule_of_inClause (areNames c member),
      fun c member => opensModule_of_isBlank (blankBetween c member), opensModule_from,
      fun c member => opensModule_of_isBlank (blankBehind c member)⟩

/-- A statement begins with an indent or a letter. -/
theorem IsHead.head?_ne_break {head : Text} (isHead : IsHead head) : ∃ c rest, head = c :: rest ∧ c ≠ '\n' := by
  obtain ⟨indent, gap, clause, indents, _, _, rfl⟩ := isHead
  cases indent with
  | nil => exact ⟨'i', _, rfl, by decide⟩
  | cons c rest =>
      refine ⟨c, _, rfl, ?_⟩
      rintro rfl
      exact absurd (indents '\n' List.mem_cons_self) (by decide)

/-! ## Readings of a statement -/

theorem spans_blanks {blanks : Text} (areBlank : ∀ c ∈ blanks, Character.isBlank c = true) :
    Pattern.blanks.Spans blanks :=
  Pattern.spans_run false areBlank (Nat.zero_le _)

theorem spans_clause {clause : Text} (isClause : clause = [] ∨ IsClause clause) :
    (Pattern.maybe (Pattern.capture 1 (.run inClause 1 none true) ++ Pattern.blanks ++
      Pattern.literal "from" ++ Pattern.blanks)).Spans clause := by
  rcases isClause with rfl | ⟨names, between, behind, some, areNames, blankBetween, blankBehind, rfl⟩
  · exact Pattern.spans_maybe_nil _
  · have spansNames := (Pattern.spans_run true areNames (List.length_pos_iff.mpr some)).capture 1
    have whole := ((spansNames.append (spans_blanks blankBetween)).append
      (Pattern.spans_word "from".toList)).append (spans_blanks blankBehind)
    simp only [List.append_assoc] at whole
    exact whole.maybe

/-- A statement is read wherever one stands at the beginning of a line. -/
theorem exists_reads_statementHead {passed head rest : Text} {quote : Char} (startsLine : StartsLine passed)
    (isHead : IsHead head) (isQuote : opensModule quote = true) :
    ∃ next, statementHead.Reads (Cursor.between passed (head ++ quote :: rest)) next := by
  obtain ⟨indent, gap, clause, indents, blanks, isClause, rfl⟩ := isHead
  have spansIndent : Pattern.indent.Spans indent := Pattern.spans_run false indents (Nat.zero_le _)
  have spans := spansIndent.append ((Pattern.spans_word "import".toList).append
    ((spans_blanks blanks).append ((spans_clause isClause).append ((Pattern.spans_one isQuote).capture 2))))
  obtain ⟨more, reads⟩ := spans [] passed rest
  have written : indent ++ ("import".toList ++ (gap ++ clause)) ++ quote :: rest =
      indent ++ ("import".toList ++ (gap ++ (clause ++ [quote]))) ++ rest := by
    generalize "import".toList = word
    simp
  rw [written]
  unfold statementHead
  simp only [Pattern.reads_append_assoc]
  exact ⟨_, _, ⟨startsLine, rfl⟩, reads⟩

/-- What a statement's reading passes over. -/
theorem head_of_reads {passed ahead : Text} {next : Cursor}
    (reads : statementHead.Reads (Cursor.between passed ahead) next) :
    StartsLine passed ∧ ∃ head quote, IsHead head ∧ opensModule quote = true ∧
      Passes (head ++ [quote]) (Cursor.between passed ahead) next ∧
      next.captures.lookup 2 = some ⟨next.offset - 1, next.offset⟩ := by
  refine ⟨Line.lineStart_of_reads reads, ?_⟩
  unfold statementHead at reads
  obtain ⟨last, ⟨atClause, ⟨atGap, ⟨atWord, ⟨_, ⟨_, rfl⟩, readsIndent⟩, readsWord⟩, readsGap⟩, readsClause⟩,
    readsQuote⟩ := reads
  obtain ⟨indent, indents, _, passesIndent⟩ := Pattern.passes_of_reads_run readsIndent
  obtain ⟨passesWord, _⟩ := Pattern.reads_word_iff.mp readsWord
  obtain ⟨gap, blanks, _, passesGap⟩ := Pattern.passes_of_reads_run readsGap
  have passesClause : ∃ clause, (clause = [] ∨ IsClause clause) ∧ Passes clause atClause last := by
    rcases readsClause with readsNames | isSame
    · obtain ⟨afterFrom, ⟨beforeFrom, ⟨_, ⟨inner, readsRun, rfl⟩, readsBetween⟩, readsFrom⟩, readsBehind⟩ :=
        readsNames
      obtain ⟨names, areNames, some, passesNames⟩ := Pattern.passes_of_reads_run readsRun
      obtain ⟨between, blankBetween, _, passesBetween⟩ := Pattern.passes_of_reads_run readsBetween
      obtain ⟨passesFrom, _⟩ := Pattern.reads_word_iff.mp readsFrom
      obtain ⟨behind, blankBehind, _, passesBehind⟩ := Pattern.passes_of_reads_run readsBehind
      have passesKept : Passes names atClause { inner with
          captures := (1, ⟨atClause.offset, inner.offset⟩) :: inner.captures } :=
        passesNames.of_fields rfl rfl rfl
      refine ⟨_, Or.inr ⟨names, between, behind, List.length_pos_iff.mp some, areNames, blankBetween,
        blankBehind, rfl⟩, ?_⟩
      exact passesKept.trans (passesBetween.trans (passesFrom.trans passesBehind))
    · rw [show last = atClause from isSame]
      exact ⟨[], Or.inl rfl, Passes.refl atClause⟩
  obtain ⟨clause, isClause, passesClause⟩ := passesClause
  have kept := Pattern.lookup_of_reads_capture readsQuote
  obtain ⟨inner, stepped, rfl⟩ := readsQuote
  obtain ⟨quote, isQuote, passesQuote, _⟩ := Cursor.passes_of_step? stepped
  refine ⟨indent ++ ("import".toList ++ (gap ++ clause)), quote,
    ⟨indent, gap, clause, indents, blanks, isClause, rfl⟩, isQuote, ?_, ?_⟩
  · have whole := passesIndent.trans (passesWord.trans (passesGap.trans (passesClause.trans passesQuote)))
    have written : indent ++ ("import".toList ++ (gap ++ clause)) ++ [quote] =
        indent ++ ("import".toList ++ (gap ++ (clause ++ [quote]))) := by
      generalize "import".toList = word
      simp
    rw [written]
    exact whole.of_fields rfl rfl rfl
  · have offset : inner.offset = last.offset + 1 := passesQuote.offset_eq
    rw [kept]
    simp only [offset, Nat.add_sub_cancel]

/-! ## What is made of a reading -/

/-- A text is cut at its first quote in one way only. -/
theorem cut_eq {first second rest others : Text} {quote mark : Char}
    (noneFirst : ∀ c ∈ first, opensModule c = false) (noneSecond : ∀ c ∈ second, opensModule c = false)
    (isQuote : opensModule quote = true) (isMark : opensModule mark = true)
    (same : first ++ quote :: rest = second ++ mark :: others) :
    first = second ∧ quote = mark ∧ rest = others := by
  have sameFront : first = second := by
    rw [← @Line.takeWhile_before opensModule first rest quote noneFirst isQuote, same,
      Line.takeWhile_before noneSecond isMark]
  rw [sameFront] at same
  obtain ⟨sameQuote, sameRest⟩ := List.cons.inj (List.append_cancel_left same)
  exact ⟨sameFront, sameQuote, sameRest⟩

/-- Whether a match is the beginning of a statement that stands between parts of a view. -/
structure IsBeginning (view passed head : Text) (quote : Char) (tail : Text) (found : Match) : Prop where
  split : view = passed ++ (head ++ quote :: tail)
  startsLine : StartsLine passed
  isHead : IsHead head
  isQuote : opensModule quote = true
  start : found.start = passed.length
  stop : found.stop = passed.length + head.length + 1
  captured : found.captured view 2 = [quote]

theorem exists_isBeginning {passed ahead : Text} {found : Match}
    (foundHere : statementHead.find (Cursor.between passed ahead) = some found) :
    ∃ head quote tail, IsBeginning (passed ++ ahead) passed head quote tail found := by
  obtain ⟨next, reads, rfl⟩ := Pattern.reads_of_find foundHere
  obtain ⟨startsLine, head, quote, isHead, isQuote, passes, kept⟩ := head_of_reads reads
  have split : ahead = head ++ quote :: next.ahead := by
    have ahead_eq : ahead = head ++ [quote] ++ next.ahead := passes.ahead_eq
    rw [ahead_eq, List.append_assoc, List.singleton_append]
  have reached : next.offset = passed.length + head.length + 1 := by
    rw [passes.offset_eq, List.length_append]
    rfl
  refine ⟨head, quote, next.ahead, by rw [split], startsLine, isHead, isQuote, rfl, reached, ?_⟩
  have quoted : Text.slice (passed ++ ahead) (next.offset - 1) next.offset = [quote] := by
    refine Text.slice_eq (passed ++ head) next.ahead ?_ ?_ ?_
    · rw [split]
      simp
    · rw [reached, List.length_append, Nat.add_sub_cancel]
    · rw [reached, List.length_append]
      rfl
  simp only [Match.captured, Match.captured?, Match.span?, kept, Option.map_some, Option.getD_some,
    Span.of, quoted]

namespace IsBeginning

variable {view passed head tail : Text} {quote : Char} {found : Match}

theorem readStatement?_eq (isBeginning : IsBeginning view passed head quote tail found) (text : Text)
    (catalog : Catalog) :
    ∃ statementOf : Nat -> Statement, readStatement? text view catalog found =
      (tail.findIdx? (· == quote)).map fun length =>
        (statementOf length,
          statementLineRemoval view passed.length (passed.length + head.length + 1 + length + 1)) := by
  have behind : view.drop (passed.length + head.length + 1) = tail := by
    have length : passed.length + head.length + 1 = (passed ++ (head ++ [quote])).length := by simp [Nat.add_assoc]
    rw [length, isBeginning.split, show passed ++ (head ++ quote :: tail) =
      passed ++ (head ++ [quote]) ++ tail by simp, List.drop_left]
  unfold readStatement?
  rw [isBeginning.captured]
  dsimp only
  rw [isBeginning.stop, Nat.add_sub_cancel, Text.offsetOf?, behind, isBeginning.start]
  cases tail.findIdx? (· == quote) with
  | none => exact ⟨fun _ => ⟨[], [], [], 0⟩, rfl⟩
  | some length => exact ⟨fun _ => _, rfl⟩

/-- A statement is read where the name of its module is closed. -/
theorem exists_readStatement? {module rest : Text} (absent : quote ∉ module)
    (isBeginning : IsBeginning view passed head quote (module ++ quote :: rest) found) (text : Text)
    (catalog : Catalog) :
    ∃ statement, readStatement? text view catalog found = some (statement, statementLineRemoval view
      passed.length (passed.length + (head ++ quote :: (module ++ [quote])).length)) := by
  obtain ⟨statementOf, read⟩ := isBeginning.readStatement?_eq text catalog
  have none : module.findIdx? (· == quote) = none := by
    rw [List.findIdx?_eq_none_iff]
    intro c member
    rw [beq_eq_false_iff_ne]
    exact fun same => absent (same ▸ member)
  have closed : (module ++ quote :: rest).findIdx? (· == quote) = some module.length := by
    rw [List.findIdx?_append, none]
    simp [List.findIdx?_cons]
  have length : passed.length + head.length + 1 + module.length + 1 =
      passed.length + (head ++ quote :: (module ++ [quote])).length := by
    simp
    omega
  rw [closed, Option.map_some, length] at read
  exact ⟨statementOf module.length, read⟩

/-- What is read is a statement with the name of its module. -/
theorem exists_written (isBeginning : IsBeginning view passed head quote tail found) {text : Text}
    {catalog : Catalog} {reading : Statement × Edit}
    (read : readStatement? text view catalog found = some reading) :
    ∃ (written : Written) (rest : Text), head ++ quote :: tail = written.text ++ rest ∧
      reading.2 = statementLineRemoval view passed.length (passed.length + written.text.length) := by
  by_cases isClosed : quote ∈ tail
  · obtain ⟨module, rest, rfl, absent⟩ := List.eq_append_cons_of_mem isClosed
    obtain ⟨statement, read'⟩ := exists_readStatement? absent isBeginning text catalog
    rw [read] at read'
    refine ⟨⟨head, quote, module, isBeginning.isHead, isBeginning.isQuote, absent⟩, rest, ?_, ?_⟩
    · simp [Written.text]
    · rw [Option.some.inj read']
      rfl
  · obtain ⟨statementOf, notRead⟩ := isBeginning.readStatement?_eq text catalog
    have none : tail.findIdx? (· == quote) = none := by
      rw [List.findIdx?_eq_none_iff]
      intro c member
      rw [beq_eq_false_iff_ne]
      exact fun same => isClosed (same ▸ member)
    rw [none, read] at notRead
    contradiction

end IsBeginning

/-! ## Views that hold no statement -/

theorem StartsLine.append {passed more : Text} (startsPassed : StartsLine passed) (startsMore : StartsLine more) :
    StartsLine (passed ++ more) := by
  cases more with
  | nil => rwa [List.append_nil]
  | cons c rest =>
      rw [StartsLine, List.getLast?_append, List.getLast?_cons] at *
      exact startsMore

theorem StartsLine.of_append {passed more : Text} (startsLine : StartsLine (passed ++ more)) :
    StartsLine more := by
  cases more with
  | nil => rfl
  | cons c rest =>
      rw [StartsLine, List.getLast?_append, List.getLast?_cons] at startsLine
      rw [StartsLine, List.getLast?_cons]
      exact startsLine

/-- Where a statement stands, a search finds it, or one that begins earlier and ends with it. -/
theorem exists_beginning {passed more rest : Text} {written : Written}
    (startsLine : StartsLine (passed ++ more)) :
    ∃ found ∈ statementHead.searchBehind passed (more ++ (written.text ++ rest)),
      ∃ front head module others,
        IsBeginning (passed ++ (more ++ (written.text ++ rest))) front head written.quote
          (module ++ written.quote :: others) found ∧
        written.quote ∉ module ∧ front.length ≤ (passed ++ more).length ∧
        (passed ++ more).length ≤ front.length + head.length := by
  have splitText : written.text ++ rest =
      written.head ++ written.quote :: (written.module ++ written.quote :: rest) := by
    simp [Written.text]
  have reads := @exists_reads_statementHead (passed ++ more) written.head
    (written.module ++ written.quote :: rest) written.quote startsLine written.isHead written.isQuote
  rw [← splitText] at reads
  obtain ⟨next, reads⟩ := reads
  obtain ⟨found, member, covers⟩ := Pattern.exists_mem_searchBehind reads
  obtain ⟨before, behind, cut, foundThere⟩ := Pattern.find_of_mem_searchBehind member
  obtain ⟨head, quote, tail, isBeginning⟩ := exists_isBeginning foundThere
  have view : passed ++ before ++ behind = passed ++ (more ++ (written.text ++ rest)) := by
    rw [cut, List.append_assoc]
  rw [view] at isBeginning
  have inOrder : (passed ++ before).length ≤ (passed ++ more).length ∧
      (passed ++ more).length ≤ (passed ++ before).length + head.length := by
    have starts := isBeginning.start
    have stops := isBeginning.stop
    rcases covers with same | ⟨afterStart, beforeStop⟩ <;> omega
  -- The statement stands in the quote-free head of what was found, so both have the same first quote.
  have split := isBeginning.split.symm
  rw [← List.append_assoc passed more] at split
  obtain ⟨between, isBetween, sameTail⟩ := Text.exists_between split inOrder.1
  rw [splitText, ← List.append_assoc] at sameTail
  have lengths : (passed ++ more).length = (passed ++ before).length + between.length := by
    rw [isBetween, List.length_append]
  have cutHead := sameTail.symm
  rw [List.append_assoc] at cutHead
  obtain ⟨_, isHead, _⟩ := Text.exists_between cutHead (by omega)
  have noQuote : ∀ c ∈ between ++ written.head, opensModule c = false := by
    simp only [List.forall_mem_append]
    exact ⟨fun c isIn => isBeginning.isHead.not_opensModule c (isHead ▸ List.mem_append_left _ isIn),
      written.isHead.not_opensModule⟩
  obtain ⟨_, rfl, rfl⟩ := cut_eq isBeginning.isHead.not_opensModule noQuote isBeginning.isQuote
    written.isQuote sameTail
  exact ⟨found, member, _, head, written.module, rest, isBeginning, written.closesLast, inOrder⟩

/-- Behind the beginning of a line, a search reads no statement just if there is none. -/
theorem filterMap_readStatement?_eq_nil_iff {passed : Text} (startsLine : StartsLine passed)
    (ahead text : Text) (catalog : Catalog) :
    (statementHead.searchBehind passed ahead).filterMap
        (readStatement? text (passed ++ ahead) catalog) = [] ↔ ¬HoldsImport ahead := by
  rw [List.filterMap_eq_nil_iff]
  constructor
  · rintro noneRead ⟨more, written, rest, rfl, startsMore⟩
    obtain ⟨found, member, _, _, _, _, isBeginning, absent, _⟩ :=
      @exists_beginning passed more rest written (startsLine.append startsMore)
    obtain ⟨_, read⟩ := isBeginning.exists_readStatement? absent text catalog
    rw [noneRead found member] at read
    contradiction
  · intro holdsNone found member
    rw [← Option.not_isSome_iff_eq_none]
    intro isRead
    obtain ⟨reading, read⟩ := Option.isSome_iff_exists.mp isRead
    obtain ⟨more, rest, rfl, foundThere⟩ := Pattern.find_of_mem_searchBehind member
    obtain ⟨head, quote, tail, isBeginning⟩ := exists_isBeginning foundThere
    rw [List.append_assoc] at isBeginning
    obtain ⟨written, others, isText, _⟩ := isBeginning.exists_written read
    have isRest : rest = written.text ++ others := by
      rw [← isText]
      have split := isBeginning.split
      rw [← List.append_assoc] at split
      exact List.append_cancel_left split
    exact holdsNone ⟨more, written, others, by rw [isRest], isBeginning.startsLine.of_append⟩

/-- Removing the statements of a source finds none just if its view holds none. -/
theorem removeStatements_eq_nil_iff {text : Text} {catalog : Catalog} :
    (removeStatements text catalog).2 = [] ↔ ¬HoldsImport (mask text) := by
  have whole := @filterMap_readStatement?_eq_nil_iff [] rfl (mask text) text catalog
  rw [← whole]
  exact List.map_eq_nil_iff

/-- The line breaks in front of a view neither are part of a statement nor keep one from beginning. -/
theorem holdsImport_breaks_iff {breaks view : Text} (allBreaks : ∀ c ∈ breaks, c = '\n') :
    HoldsImport (breaks ++ view) ↔ HoldsImport view := by
  have startsLine : StartsLine breaks := Pattern.getLast?_of_breaks allBreaks
  constructor
  · rintro ⟨passed, written, rest, split, startsPassed⟩
    rcases List.append_eq_append_iff.mp split with ⟨more, rfl, isView⟩ | ⟨more, isBreaks, isText⟩
    · exact ⟨more, written, rest, isView, startsPassed.of_append⟩
    · cases more with
      | nil => exact ⟨[], written, rest, isText.symm, rfl⟩
      | cons c later =>
          -- A statement begins with no line break.
          obtain ⟨first, others, isFirst, notBreak⟩ := written.isHead.head?_ne_break
          rw [Written.text, isFirst, List.cons_append, List.cons_append, List.cons_append] at isText
          refine absurd (allBreaks c ?_) ((List.cons.inj isText).1 ▸ notBreak)
          rw [isBreaks]
          exact List.mem_append_right _ List.mem_cons_self
  · rintro ⟨passed, written, rest, rfl, startsPassed⟩
    exact ⟨breaks ++ passed, written, rest, by rw [List.append_assoc], startsLine.append startsPassed⟩

end SceneBundler.Imports
