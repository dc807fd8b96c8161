import SceneBundler.Proofs.Imports.Clause
import SceneBundler.Proofs.Imports.Heading
import SceneBundler.Proofs.Text.Pieces

/-!
Contract: import statements that stand on lines of their own, read back from the front of a source.

Owns:
- the match of a statement at its line, and that nothing else on the line begins a match;
- what a statement is read as, and its removal together with its line break;
- that a block of statements in front of a source is read and removed as a whole.

Does not own: which clauses are written.
-/

namespace SceneBundler.Imports

open Source (staysTop quoted IsQuotable Settles)
open Pattern (Leads Silent Finds)
open Cursor (noting Passes)

/-- A text with the characters of a clause, that begins and ends with something visible. -/
structure IsSolid (clause : Text) : Prop where
  inClause : ∀ c ∈ clause, inClause c = true
  begins : clause.head?.any Character.isBlank = false
  ends : ∃ last, clause.getLast? = some last ∧ Character.isBlank last = false

/-- An import statement on a line of its own: what it binds, and from which module. -/
structure Line where
  clause : Text
  module : Text

namespace Line

/-- The characters of a statement through the opening quote of its module. -/
def head (line : Line) : Text :=
  "import".toList ++ ([' '] ++ (line.clause ++ ([' '] ++ ("from".toList ++ ([' '] ++ ['\x27'])))))

/-- A statement as it is written. -/
def text (line : Line) : Text :=
  line.head ++ (line.module ++ ['\x27', ';'])

/-- A statement as it is seen once the name of its module is masked. -/
def shown (line : Line) : Text :=
  line.head ++ (List.replicate line.module.length ' ' ++ ['\x27', ';'])

/-- A clause that can stand in a statement, and a module that can be quoted as it is. -/
structure IsReadable (line : Line) : Prop where
  stays : staysTop false line.clause = true
  solid : IsSolid line.clause
  quotable : IsQuotable line.module

variable {line : Line}

theorem length_shown : line.shown.length = line.text.length := by
  simp [shown, text]

theorem length_head : line.head.length = line.clause.length + 14 := by
  unfold head
  simp

theorem settles (readable : line.IsReadable) : Settles line.text line.shown := by
  have closes : staysTop false [';'] = true := by decide
  have whole := (settles_import readable.stays readable.quotable).append
    (Source.settles_of_staysTop closes)
  have first : "import ".toList = "import".toList ++ [' '] := by decide
  have last : " from ".toList = [' '] ++ ("from".toList ++ [' ']) := by decide
  rw [first, last] at whole
  unfold text shown head
  simpa [quoted] using whole

/-! ## The match of a statement -/

/-- The match of a statement that begins at an offset. -/
def found (line : Line) (offset : Nat) : Match :=
  ⟨offset, offset + line.head.length,
    [(2, ⟨offset + line.head.length - 1, offset + line.head.length⟩),
      (1, ⟨offset + 7, offset + 7 + line.clause.length⟩)]⟩

/-- A quote that can begin the name of a module. -/
def opensModule (c : Char) : Bool :=
  ['\x27', '\x22'].contains c

/-- What stands before the first character of a class. -/
theorem takeWhile_before {accepts : Char -> Bool} {word rest : Text} {c : Char}
    (rejected : ∀ d ∈ word, accepts d = false) (accepted : accepts c = true) :
    (word ++ c :: rest).takeWhile (fun d => !accepts d) = word := by
  rw [List.takeWhile_append_of_pos (by simpa using rejected),
    List.takeWhile_cons_of_neg (by simp [accepted]), List.append_nil]

theorem opensModule_of_isBlank {c : Char} (blank : Character.isBlank c = true) :
    opensModule c = false := by
  simpa using Character.of_isBlank (fun c => !opensModule c) (by decide) blank

theorem opensModule_of_inClause {c : Char} (isInClause : inClause c = true) :
    opensModule c = false := by
  rw [opensModule, List.contains_eq_mem, decide_eq_false_iff_not]
  intro isQuote
  have outside : inClause c = false :=
    @Text.forall_mem_of_all (fun mark => inClause mark = false) _ _ (by decide) c isQuote
  rw [isInClause] at outside
  exact Bool.noConfusion outside

theorem opensModule_from : ∀ c ∈ "from".toList, opensModule c = false :=
  Text.forall_mem_of_all (by decide)

/-- Where less than the clause has been read, the rest of the statement cannot be. -/
theorem not_reads_within (readable : line.IsReadable) {front back rest : Text}
    (split : line.clause = front ++ back) (nonempty : back ≠ []) {cursor there : Cursor}
    (ahead : cursor.ahead = back ++ ([' '] ++ ("from".toList ++ ([' '] ++ ('\x27' :: rest))))) :
    ¬(Pattern.blanks ++ (Pattern.literal "from" ++ (Pattern.blanks ++
      Pattern.capture 2 (Pattern.oneOf ['\x27', '\x22'])))).Reads cursor there := by
  rintro ⟨first, readsFirst, second, readsWord, third, readsLast, inner, stepped, _⟩
  obtain ⟨before, blankBefore, _, passesBefore⟩ := Pattern.passes_of_reads_run readsFirst
  obtain ⟨passesWord, _⟩ := Pattern.reads_word_iff.mp readsWord
  obtain ⟨after, blankAfter, _, passesAfter⟩ := Pattern.passes_of_reads_run readsLast
  obtain ⟨quote, isQuote, passesQuote, _⟩ := Cursor.passes_of_step? stepped
  have whole := (passesBefore.trans (passesWord.trans (passesAfter.trans passesQuote))).ahead_eq
  -- Both ways of cutting the text end at its first quote.
  have same : before ++ ("from".toList ++ after) = back ++ ([' '] ++ ("from".toList ++ [' '])) := by
    have backClause : ∀ c ∈ back, opensModule c = false := fun c member =>
      opensModule_of_inClause (readable.solid.inClause c (by simp [split, member]))
    have firstPart := @takeWhile_before opensModule (before ++ ("from".toList ++ after)) inner.ahead quote
      (by
        simp only [List.forall_mem_append]
        exact ⟨fun c member => opensModule_of_isBlank (blankBefore c member), opensModule_from,
          fun c member => opensModule_of_isBlank (blankAfter c member)⟩) isQuote
    have secondPart := @takeWhile_before opensModule (back ++ ([' '] ++ ("from".toList ++ [' ']))) rest '\x27'
      (by
        simp only [List.forall_mem_append]
        exact ⟨backClause, Text.forall_mem_of_all (by decide), opensModule_from,
          Text.forall_mem_of_all (by decide)⟩) (by decide)
    rw [← firstPart, ← secondPart]
    congr 1
    rw [ahead] at whole
    simpa using whole.symm
  have word : "from".toList = ['f', 'r', 'o'] ++ ['m'] := by decide
  have isLast (text : Text) : (text ++ "from".toList).getLast? = some 'm' := by
    rw [word, ← List.append_assoc, List.getLast?_concat]
  have trimmed : before ++ "from".toList = back ++ ([' '] ++ "from".toList) := by
    have first := Text.trimEnd_append_of_visible (isLast before) (by decide)
      (List.all_eq_true.mpr blankAfter)
    have second := @Text.trimEnd_append_of_visible _ [' '] _ (isLast (back ++ [' '])) (by decide) (by decide)
    rw [← first, List.append_assoc, same, ← List.append_assoc [' '], ← List.append_assoc back,
      ← List.append_assoc back, second]
  have blankBack : before = back ++ [' '] := by
    rw [← List.append_assoc] at trimmed
    exact List.append_cancel_right trimmed
  obtain ⟨last, isEnd, visible⟩ := readable.solid.ends
  have member : last ∈ back := by
    rw [split, List.getLast?_append_of_ne_nil _ nonempty] at isEnd
    exact List.mem_of_getLast? isEnd
  have blank := blankBefore last (by simp [blankBack, member])
  rw [visible] at blank
  exact Bool.noConfusion blank

/-- The part of a statement between its clause and the name of its module. -/
def source : Pattern :=
  Pattern.blanks ++ (Pattern.literal "from" ++ (Pattern.blanks ++
    Pattern.capture 2 (Pattern.oneOf ['\x27', '\x22'])))

theorem isSpace_blank : ∀ c ∈ [' '], Character.isBlank c = true :=
  Text.forall_mem_of_all (by decide)

theorem leads_source (captures : List (Nat × Span)) (passed following : Text) :
    source.Leads
      (noting captures passed ([' '] ++ ("from".toList ++ ([' '] ++ ('\x27' :: following)))))
      (noting ((2, ⟨passed.length + 6, passed.length + 7⟩) :: captures)
        (passed ++ ([' '] ++ ("from".toList ++ ([' '] ++ ['\x27'])))) following) := by
  have before := @Pattern.leads_run captures passed Character.isBlank 0 [' ']
    ("from".toList ++ ([' '] ++ ('\x27' :: following))) isSpace_blank (by rfl) (Nat.zero_le _)
  have word := Pattern.leads_literal captures (passed ++ [' ']) "from"
    ([' '] ++ ('\x27' :: following))
  have after := @Pattern.leads_run captures (passed ++ [' '] ++ "from".toList) Character.isBlank 0 [' ']
    ('\x27' :: following) isSpace_blank (by rfl) (Nat.zero_le _)
  have quote := (@Pattern.leads_one captures (passed ++ [' '] ++ "from".toList ++ [' '])
    opensModule '\x27' (by decide) following).capture rfl 2
  have whole : source.Leads _ _ := before.append (word.append (after.append quote))
  have length : "from".toList.length = 4 := by decide
  simpa [length, Nat.add_assoc] using whole

theorem head_visible (readable : line.IsReadable) (following : Text) :
    (line.clause ++ following).head?.any Character.isBlank = false := by
  obtain ⟨last, isEnd, _⟩ := readable.solid.ends
  cases same : line.clause with
  | nil => simp [same] at isEnd
  | cons c rest =>
      have visible := readable.solid.begins
      rw [same] at visible
      exact visible

/-- A statement is read part by part. -/
theorem leads_statementHead {cursor afterIndent afterWord atClause next : Cursor}
    (start : Pattern.lineStart.Leads cursor cursor) (indent : Pattern.indent.Leads cursor afterIndent)
    (word : (Pattern.literal "import").Leads afterIndent afterWord)
    (gap : Pattern.blanks.Leads afterWord atClause)
    (clause : (Pattern.capture 1 (.run inClause 1 none true) ++ source).Leads atClause next) :
    statementHead.Leads cursor next := by
  have body : (Pattern.capture 1 (.run inClause 1 none true) ++ Pattern.blanks ++ Pattern.literal "from" ++
      Pattern.blanks ++ Pattern.capture 2 (Pattern.oneOf ['\x27', '\x22'])).Leads atClause next := by
    simp only [Pattern.leads_append_assoc]
    exact clause
  unfold statementHead
  simp only [Pattern.leads_append_assoc]
  exact start.append (indent.append (word.append (gap.append body.maybe_append)))

/-- A statement is matched from the beginning of its line through the opening quote of its module. -/
theorem find_statementHead (readable : line.IsReadable) {passed : Text}
    (atLineStart : passed.getLast?.all (· == '\n') = true) (following : Text) :
    statementHead.find (Cursor.between passed (line.head ++ following)) =
      some (line.found passed.length) := by
  have ahead : line.head ++ following = "import".toList ++ ([' '] ++ (line.clause ++ ([' '] ++
      ("from".toList ++ ([' '] ++ ('\x27' :: following)))))) := by
    unfold head
    simp
  have letters : "import".toList = ['i', 'm', 'p', 'o', 'r', 't'] := by decide
  have notIndent : (line.head ++ following).head?.any Text.isIndent = false := by
    rw [ahead, letters]
    rfl
  have start := @Pattern.leads_between (fun previous _ => previous.all (· == '\n'))
    (noting [] passed (line.head ++ following)) atLineStart
  have noIndent := @Pattern.leads_run [] passed Text.isIndent 0 [] (line.head ++ following) nofun
    notIndent (Nat.zero_le _)
  rw [List.append_nil, List.nil_append] at noIndent
  have word := Pattern.leads_literal [] passed "import" ([' '] ++ (line.clause ++ ([' '] ++
    ("from".toList ++ ([' '] ++ ('\x27' :: following))))))
  rw [← ahead] at word
  have gap := @Pattern.leads_run [] (passed ++ "import".toList) Character.isBlank 0 [' '] _ isSpace_blank
    (head_visible readable ([' '] ++ ("from".toList ++ ([' '] ++ ('\x27' :: following)))))
    (Nat.zero_le _)
  have enough : 1 ≤ line.clause.length := by
    obtain ⟨last, isEnd, _⟩ := readable.solid.ends
    exact List.length_pos_of_mem (List.mem_of_getLast? isEnd)
  have clause := Pattern.leads_capture_fewest [] (passed ++ "import".toList ++ [' ']) readable.solid.inClause
    enough 1 (leads_source _ _ following) fun front back noted there split nonempty =>
      not_reads_within readable split nonempty rfl
  have lengthWord : "import".toList.length = 6 := by decide
  have isHead : passed ++ "import".toList ++ [' '] ++ line.clause ++ ([' '] ++ ("from".toList ++ ([' '] ++
      ['\x27']))) = passed ++ line.head := by
    unfold head
    simp
  refine (Pattern.find_of_leads (leads_statementHead start noIndent word gap clause)).trans ?_
  rw [isHead]
  generalize "import".toList = first at lengthWord
  simp only [noting, found, length_head, List.length_append, List.length_singleton, lengthWord]
  simp only [Option.some.injEq, Match.mk.injEq, List.cons.injEq, Prod.mk.injEq, Span.mk.injEq, true_and,
    and_true]
  omega

theorem lineStart_of_reads {cursor next : Cursor} (reads : statementHead.Reads cursor next) :
    cursor.previous.all (· == '\n') = true := by
  obtain ⟨_, ⟨_, ⟨_, ⟨_, ⟨_, ⟨atStart, _⟩, _⟩, _⟩, _⟩, _⟩, _⟩ := reads
  exact atStart

/-- Behind a character that is no line break, no statement begins before the next one. -/
theorem silent_statementHead {passed stretch : Text} {c : Char} (isLast : passed.getLast? = some c)
    (notBreak : c ≠ '\n') (noBreak : '\n' ∉ stretch.dropLast) (following : Text) :
    Silent statementHead passed stretch following := by
  intro more rest split nonempty next reads
  have atStart := lineStart_of_reads reads
  change (passed ++ more).getLast?.all (· == '\n') = true at atStart
  rw [List.getLast?_append] at atStart
  cases last : more.getLast? with
  | none =>
      rw [last, isLast] at atStart
      exact notBreak (beq_iff_eq.mp atStart)
  | some d =>
      rw [last] at atStart
      have isBreak : d = '\n' := beq_iff_eq.mp atStart
      refine noBreak ?_
      rw [split, List.dropLast_append_of_ne_nil nonempty]
      exact List.mem_append_left _ (isBreak ▸ List.mem_of_getLast? last)

/-! ## The statement that is read -/

section Reading

variable {passed passedShown following followingShown : Text}

theorem captured_quote :
    (line.found passedShown.length).captured (passedShown ++ (line.shown ++ followingShown)) 2 =
      ['\x27'] := by
  have lengthWord : "import".toList.length = 6 := by decide
  have lengthFrom : "from".toList.length = 4 := by decide
  refine Text.slice_eq (passedShown ++ ("import".toList ++ ([' '] ++ (line.clause ++ ([' '] ++
    ("from".toList ++ [' ']))))))
    (List.replicate line.module.length ' ' ++ ['\x27', ';'] ++ followingShown) ?_ ?_ ?_
  · unfold shown head
    simp
  all_goals
    simp only [length_head, List.length_append, List.length_singleton, lengthWord, lengthFrom]
    omega

theorem captured_clause :
    (line.found passedShown.length).captured (passedShown ++ (line.shown ++ followingShown)) 1 =
      line.clause := by
  have lengthWord : "import".toList.length = 6 := by decide
  refine Text.slice_eq (passedShown ++ ("import".toList ++ [' ']))
    (([' '] ++ ("from".toList ++ ([' '] ++ ['\x27']))) ++
      (List.replicate line.module.length ' ' ++ ['\x27', ';']) ++ followingShown) ?_ ?_ ?_
  · unfold shown head
    simp
  · simp only [List.length_append, List.length_singleton, lengthWord]
  · simp only [List.length_append, List.length_singleton, lengthWord]

theorem offsetOf?_quote :
    Text.offsetOf? '\x27' (passedShown ++ (line.shown ++ followingShown))
        (passedShown.length + line.head.length) =
      some (passedShown.length + line.head.length + line.module.length) := by
  have split : passedShown ++ (line.shown ++ followingShown) = passedShown ++ line.head ++
      (List.replicate line.module.length ' ' ++ '\x27' :: ([';'] ++ followingShown)) := by
    rw [shown]
    simp
  have absent : '\x27' ∉ List.replicate line.module.length ' ' :=
    fun member => absurd (List.eq_of_mem_replicate member) (by decide)
  rw [split, ← List.length_append, Text.offsetOf?_behind absent, List.length_replicate]

theorem slice_module :
    Text.slice (passed ++ (line.text ++ following)) (passed.length + line.head.length)
        (passed.length + line.head.length + line.module.length) = line.module := by
  refine Text.slice_eq (passed ++ line.head) (['\x27', ';'] ++ following) ?_ ?_ ?_
  · simp [text]
  all_goals rw [List.length_append]

/-- Whether a statement is what a line is read as. -/
structure IsReadAs (catalog : Catalog) (line : Line) (statement : Statement) : Prop where
  written : statement.written = line.module
  module : statement.module = catalog.canonicalModule line.module
  bindings : statement.bindings = readClause statement.module statement.line line.clause

theorem statementLineRemoval_shown (apart : followingShown.head?.any (fun c =>
    Text.isIndent c || c == ';') = false) :
    statementLineRemoval (passedShown ++ (line.shown ++ followingShown)) passedShown.length
        (passedShown.length + line.head.length + line.module.length + 1) =
      Edit.deletion passedShown.length (passedShown.length + line.shown.length +
        if followingShown.head? = some '\n' then 1 else 0) := by
  have split : passedShown ++ (line.shown ++ followingShown) =
      (passedShown ++ (line.head ++ (List.replicate line.module.length ' ' ++ ['\x27']))) ++
        ([';'] ++ followingShown) := by
    simp [shown]
  have length : passedShown.length + line.head.length + line.module.length + 1 =
      (passedShown ++ (line.head ++ (List.replicate line.module.length ' ' ++ ['\x27']))).length := by
    simp
    omega
  have accepted : ∀ c ∈ [';'], (Text.isIndent c || c == ';') = true :=
    Text.forall_mem_of_all (by decide)
  have reached : (passedShown ++ (line.head ++ (List.replicate line.module.length ' ' ++ ['\x27']))).length +
      [';'].length = passedShown.length + line.shown.length := by
    simp [shown]
    omega
  have skipped : Text.skip (fun c => Text.isIndent c || c == ';')
      (passedShown ++ (line.shown ++ followingShown))
      (passedShown.length + line.head.length + line.module.length + 1) =
      passedShown.length + line.shown.length := by
    rw [split, length, Text.skip_behind _ accepted apart, reached]
  have next : (passedShown ++ (line.shown ++ followingShown))[passedShown.length + line.shown.length]? =
      followingShown.head? := by
    rw [← List.append_assoc, ← List.length_append, List.getElem?_append_right (Nat.le_refl _),
      Nat.sub_self, List.head?_eq_getElem?]
  unfold statementLineRemoval
  rw [skipped]
  dsimp only
  rw [next]
  split <;> rfl

theorem exists_readStatement? (sameLength : passedShown.length = passed.length) (catalog : Catalog)
    (apart : followingShown.head?.any (fun c => Text.isIndent c || c == ';') = false) :
    ∃ statement, IsReadAs catalog line statement ∧
      readStatement? (passed ++ (line.text ++ following)) (passedShown ++ (line.shown ++ followingShown))
          catalog (line.found passedShown.length) =
        some (statement, Edit.deletion passedShown.length (passedShown.length + line.shown.length +
          if followingShown.head? = some '\n' then 1 else 0)) := by
  have opened : (line.found passedShown.length).stop - 1 + 1 = passedShown.length + line.head.length := by
    change passedShown.length + line.head.length - 1 + 1 = _
    rw [length_head]
    omega
  unfold readStatement?
  rw [captured_quote, captured_clause]
  dsimp only
  rw [opened, offsetOf?_quote]
  dsimp only
  rw [sameLength, slice_module, ← sameLength, found, statementLineRemoval_shown apart]
  exact ⟨_, ⟨rfl, rfl, rfl⟩, rfl⟩

end Reading

end Line

/-! ## Blocks of statements -/

/-- Statements with a line break between them. -/
def block (lines : List Line) : Text :=
  Text.join ['\n'] (lines.map Line.text)

/-- A block as it is seen once the names of the modules are masked. -/
def shownBlock (lines : List Line) : Text :=
  Text.join ['\n'] (lines.map Line.shown)

/-- The statements of a block as they are removed, each with its line break and the last one with what
there is behind it. -/
def removed (final : Text) : List Line -> List Piece
  | [] => []
  | [line] => [Piece.drop (line.text ++ final)]
  | line :: next :: rest => Piece.drop (line.text ++ ['\n']) :: removed final (next :: rest)

theorem block_cons_cons (line next : Line) (rest : List Line) :
    block (line :: next :: rest) = line.text ++ (['\n'] ++ block (next :: rest)) :=
  Text.join_cons_cons ..

theorem shownBlock_cons_cons (line next : Line) (rest : List Line) :
    shownBlock (line :: next :: rest) = line.shown ++ (['\n'] ++ shownBlock (next :: rest)) :=
  Text.join_cons_cons ..

theorem block_singleton (line : Line) : block [line] = line.text := by
  simp [block, Text.join]

theorem shownBlock_singleton (line : Line) : shownBlock [line] = line.shown := by
  simp [shownBlock, Text.join]

section Blocks

variable {lines : List Line}

theorem settles_block (some : lines ≠ []) (readable : ∀ line ∈ lines, line.IsReadable) :
    Settles (block lines) (shownBlock lines) := by
  induction lines with
  | nil => contradiction
  | cons line rest inductionHypothesis =>
      have here := Line.settles (readable line List.mem_cons_self)
      cases rest with
      | nil => rwa [block_singleton, shownBlock_singleton]
      | cons next others =>
          have between : staysTop false ['\n'] = true := by decide
          have later := inductionHypothesis (List.cons_ne_nil next others)
            fun other member => readable other (List.mem_cons_of_mem line member)
          rw [block_cons_cons, shownBlock_cons_cons]
          exact here.append ((Source.settles_of_staysTop between).append later)

theorem getLast?_shownBlock (nonempty : lines ≠ []) : (shownBlock lines).getLast? = some ';' := by
  induction lines with
  | nil => contradiction
  | cons line rest inductionHypothesis =>
      cases rest with
      | nil => simp [shownBlock_singleton, Line.shown]
      | cons next others =>
          have later := inductionHypothesis (List.cons_ne_nil next others)
          rw [shownBlock_cons_cons, List.getLast?_append, List.getLast?_append, later]
          rfl

theorem source_removed (some : lines ≠ []) (final : Text) :
    Piece.source (removed final lines) = block lines ++ final := by
  induction lines with
  | nil => contradiction
  | cons line rest inductionHypothesis =>
      cases rest with
      | nil => simp [removed, block_singleton, Piece.source, Piece.drop]
      | cons next others =>
          have later := inductionHypothesis (List.cons_ne_nil next others)
          rw [block_cons_cons, List.append_assoc, List.append_assoc, ← later]
          simp [removed, Piece.source, Piece.drop]

theorem remainder_removed (final : Text) : Piece.remainder (removed final lines) = [] := by
  induction lines with
  | nil => rfl
  | cons line rest inductionHypothesis =>
      cases rest with
      | nil => rfl
      | cons next others => exact inductionHypothesis

/-- A line is found once, by its statement. -/
theorem finds_line {line : Line} (readable : line.IsReadable) {passed : Text}
    (atLineStart : passed.getLast?.all (· == '\n') = true) {final : Text}
    (isFinal : final = [] ∨ final = ['\n']) (following : Text) :
    Finds statementHead passed (line.shown ++ final) following [line.found passed.length] := by
  have front : ∃ lead, line.head = lead ++ ['\x27'] :=
    ⟨"import".toList ++ ([' '] ++ (line.clause ++ ([' '] ++ ("from".toList ++ [' '])))), by
      unfold Line.head
      simp⟩
  obtain ⟨lead, isHead⟩ := front
  have findsHead : Finds statementHead passed line.head
      ((List.replicate line.module.length ' ' ++ ['\x27', ';'] ++ final) ++ following)
      [line.found passed.length] :=
    .of_find (Line.find_statementHead readable atLineStart _) (by simp [isHead]) rfl
  have silentRest : Silent statementHead (passed ++ line.head)
      (List.replicate line.module.length ' ' ++ ['\x27', ';'] ++ final) following := by
    refine Line.silent_statementHead (c := '\x27') (by rw [isHead, ← List.append_assoc,
      List.getLast?_concat]) (by decide) ?_ following
    rcases isFinal with rfl | rfl <;> simp [List.mem_replicate]
  have whole := findsHead.append (.of_silent silentRest)
  simpa [Line.shown] using whole

/-- Whether a text ends here or goes on behind a line break. -/
def EndsLine (final following : Text) : Prop :=
  final = ['\n'] ∨ final = [] ∧ following = []

/-- A line is read as its statement, and removed with its line break. -/
theorem exists_reading {line : Line} {passed passedShown final following followingShown : Text}
    (sameLength : passedShown.length = passed.length) (endsLine : EndsLine final followingShown)
    (catalog : Catalog) :
    ∃ statement, Line.IsReadAs catalog line statement ∧
      readStatement? (passed ++ (line.text ++ (final ++ following)))
          (passedShown ++ (line.shown ++ (final ++ followingShown))) catalog
          (line.found passedShown.length) =
        some (statement, Edit.deletion passed.length (passed.length + (line.text ++ final).length)) := by
  have apart : (final ++ followingShown).head?.any (fun c => Text.isIndent c || c == ';') = false := by
    rcases endsLine with rfl | ⟨rfl, rfl⟩ <;> rfl
  have length : line.shown.length + (if (final ++ followingShown).head? = some '\n' then 1 else 0) =
      (line.text ++ final).length := by
    rw [Line.length_shown, List.length_append]
    rcases endsLine with rfl | ⟨rfl, rfl⟩ <;> rfl
  obtain ⟨statement, isReadAs, read⟩ := @Line.exists_readStatement? line passed passedShown
    (final ++ following) (final ++ followingShown) sameLength catalog apart
  rw [Nat.add_assoc, length, sameLength] at read
  rw [sameLength]
  exact ⟨statement, isReadAs, read⟩

/-- A block is read line by line. -/
theorem exists_readings (catalog : Catalog) (nonempty : lines ≠ [])
    (readable : ∀ line ∈ lines, line.IsReadable) {final rest restShown : Text}
    (endsLine : EndsLine final restShown) {passed passedShown text masked : Text}
    (sameLength : passedShown.length = passed.length)
    (atLineStart : passedShown.getLast?.all (· == '\n') = true)
    (isText : text = passed ++ (block lines ++ (final ++ rest)))
    (isMasked : masked = passedShown ++ (shownBlock lines ++ (final ++ restShown))) :
    ∃ found readings, Finds statementHead passedShown (shownBlock lines ++ final) restShown found ∧
      found.filterMap (readStatement? text masked catalog) = readings ∧
      readings.map (·.2) = Piece.deletions passed.length (removed final lines) ∧
      List.Forall₂ (Line.IsReadAs catalog) lines (readings.map (·.1)) := by
  induction lines generalizing passed passedShown with
  | nil => contradiction
  | cons line others inductionHypothesis =>
      have here := readable line List.mem_cons_self
      cases others with
      | nil =>
          rw [block_singleton] at isText
          rw [shownBlock_singleton] at isMasked ⊢
          obtain ⟨statement, isReadAs, read⟩ := @exists_reading line passed passedShown final rest restShown
            sameLength endsLine catalog
          have isFinal : final = [] ∨ final = ['\n'] := by
            rcases endsLine with isBreak | isEnd
            · exact Or.inr isBreak
            · exact Or.inl isEnd.1
          refine ⟨_, _, finds_line here atLineStart isFinal restShown, rfl, ?_, ?_⟩
          all_goals rw [isText, isMasked, List.filterMap_cons, read]
          · rfl
          · exact .cons isReadAs .nil
      | cons next later =>
          rw [block_cons_cons, List.append_assoc, List.append_assoc] at isText
          rw [shownBlock_cons_cons] at isMasked ⊢
          rw [List.append_assoc, List.append_assoc] at isMasked
          obtain ⟨statement, isReadAs, read⟩ := @exists_reading line passed passedShown ['\n']
            (block (next :: later) ++ (final ++ rest)) (shownBlock (next :: later) ++ (final ++ restShown))
            sameLength (Or.inl rfl) catalog
          obtain ⟨found, readings, finds, areRead, deletions, areReadAs⟩ := @inductionHypothesis
            (List.cons_ne_nil next later) (fun other member => readable other (List.mem_cons_of_mem line member))
            (passed ++ line.text ++ ['\n']) (passedShown ++ line.shown ++ ['\n'])
            (by simp [sameLength, Line.length_shown]) (by simp) (by simp [isText]) (by simp [isMasked])
          have findsLine := finds_line here atLineStart (Or.inr rfl)
            (shownBlock (next :: later) ++ final ++ restShown)
          rw [List.append_assoc passedShown] at finds
          have whole := findsLine.append finds
          rw [← isText, ← isMasked] at read
          refine ⟨line.found passedShown.length :: found, _, ?_, rfl, ?_, ?_⟩
          · simpa using whole
          · rw [List.filterMap_cons, read, areRead, List.map_cons, deletions]
            simp [removed, Piece.deletions, Piece.drop]
          · rw [List.filterMap_cons, read, areRead]
            exact .cons isReadAs areReadAs

theorem ne_nil_of_mem_removed {final : Text} {piece : Piece} (member : piece ∈ removed final lines) :
    piece.text ≠ [] := by
  have someText (line : Line) (following : Text) : line.text ++ following ≠ [] := by
    unfold Line.text Line.head
    simp
  induction lines with
  | nil => exact nomatch member
  | cons line rest inductionHypothesis =>
      cases rest with
      | nil =>
          rw [List.mem_singleton.mp member]
          exact someText line final
      | cons next others =>
          rcases List.mem_cons.mp member with isHere | isLater
          · rw [isHere]
            exact someText line ['\n']
          · exact inductionHypothesis isLater

/-- Removing the statements of a block leaves what is behind it. -/
theorem applyAll_removed (nonempty : lines ≠ []) (final rest : Text) :
    Edit.applyAll (Piece.deletions 0 (removed final lines)) (block lines ++ final ++ rest) = rest := by
  have covers := Edit.Covers.refl (Piece.deletions 0 (removed final lines))
  cases rest with
  | nil =>
      have applied := Edit.applyAll_pieces (fun piece => ne_nil_of_mem_removed) covers
      rw [source_removed nonempty, remainder_removed] at applied
      rwa [List.append_nil]
  | cons c others =>
      have deletions : Piece.deletions 0 (removed final lines ++ [Piece.keep (c :: others)]) =
          Piece.deletions 0 (removed final lines) := by
        rw [Piece.deletions_append, Piece.deletions_keep]
        exact List.append_nil _
      have pieces : ∀ piece ∈ removed final lines ++ [Piece.keep (c :: others)], piece.text ≠ [] := by
        intro piece member
        rcases List.mem_append.mp member with isRemoved | isKept
        · exact ne_nil_of_mem_removed isRemoved
        · rw [List.mem_singleton.mp isKept]
          exact List.cons_ne_nil c others
      rw [← deletions] at covers
      have applied := Edit.applyAll_pieces pieces covers
      rw [Piece.source_append, source_removed nonempty, Piece.remainder_append, remainder_removed,
        deletions] at applied
      simpa using applied

/-- A block in front of a source, with an empty line between them, is read and removed as a whole. -/
theorem exists_removeStatements_block (catalog : Catalog) (nonempty : lines ≠ [])
    (readable : ∀ line ∈ lines, line.IsReadable) {body : Text}
    (silent : Silent statementHead (shownBlock lines ++ ['\n', '\n']) (Source.mask body) []) :
    ∃ statements, removeStatements (block lines ++ ['\n', '\n'] ++ body) catalog =
        (withoutLeadingBreaks body, statements) ∧
      List.Forall₂ (Line.IsReadAs catalog) lines statements := by
  have isMasked : Source.mask (block lines ++ ['\n', '\n'] ++ body) =
      shownBlock lines ++ ['\n', '\n'] ++ Source.mask body :=
    ((settles_block nonempty readable).isHeading_line (getLast?_shownBlock nonempty)).mask_append body
  obtain ⟨found, readings, finds, areRead, deletions, areReadAs⟩ :=
    @exists_readings lines catalog nonempty readable ['\n'] ('\n' :: body)
      ('\n' :: Source.mask body) (Or.inl rfl) [] [] (block lines ++ ['\n', '\n'] ++ body)
      (shownBlock lines ++ ['\n', '\n'] ++ Source.mask body) rfl rfl (by simp) (by simp)
  have silentBreak : Silent statementHead (shownBlock lines ++ ['\n']) ['\n'] (Source.mask body ++ []) :=
    Pattern.silent_of_mayBegin rfl (Text.forall_mem_of_all (by decide))
  have findsRest : Finds statementHead (shownBlock lines ++ ['\n']) (['\n'] ++ Source.mask body) [] [] := by
    refine .append (.of_silent silentBreak) (.of_silent ?_)
    rwa [List.append_assoc]
  have all : statementHead.all (shownBlock lines ++ ['\n', '\n'] ++ Source.mask body) = found := by
    have whole : Finds statementHead [] (shownBlock lines ++ ['\n', '\n'] ++ Source.mask body) [] found := by
      rw [← List.append_nil ('\n' :: Source.mask body)] at finds
      have joined := finds.append findsRest
      simpa using joined
    exact whole.all_eq fun next => Pattern.not_reads_at_end rfl rfl
  have reshaped : block lines ++ ['\n', '\n'] ++ body = block lines ++ ['\n'] ++ '\n' :: body := by simp
  refine ⟨readings.map (·.1), ?_, areReadAs⟩
  unfold removeStatements
  rw [isMasked]
  dsimp only
  rw [all, areRead, deletions, reshaped]
  change (withoutLeadingBreaks (Edit.applyAll (Piece.deletions 0 (removed ['\n'] lines)) _), _) = _
  rw [applyAll_removed nonempty]
  rfl

/-- A block alone is read and removed as a whole. -/
theorem exists_removeStatements_block_alone (catalog : Catalog)
    (readable : ∀ line ∈ lines, line.IsReadable) :
    ∃ statements, removeStatements (block lines) catalog = ([], statements) ∧
      List.Forall₂ (Line.IsReadAs catalog) lines statements := by
  by_cases nonempty : lines = []
  · subst nonempty
    exact ⟨[], rfl, .nil⟩
  have isMasked : Source.mask (block lines) = shownBlock lines :=
    (settles_block nonempty readable).mask_eq
  obtain ⟨found, readings, finds, areRead, deletions, areReadAs⟩ :=
    @exists_readings lines catalog nonempty readable [] [] [] (Or.inr ⟨rfl, rfl⟩) [] [] (block lines)
      (shownBlock lines) rfl rfl (by simp) (by simp)
  have all : statementHead.all (shownBlock lines) = found := by
    rw [List.append_nil] at finds
    exact finds.all_eq fun next => Pattern.not_reads_at_end rfl rfl
  have applied := applyAll_removed nonempty [] []
  rw [List.append_nil, List.append_nil] at applied
  refine ⟨readings.map (·.1), ?_, areReadAs⟩
  unfold removeStatements
  rw [isMasked]
  dsimp only
  rw [all, areRead, deletions]
  change (withoutLeadingBreaks (Edit.applyAll (Piece.deletions 0 (removed [] lines)) _), _) = _
  rw [applied]
  rfl

end Blocks

end SceneBundler.Imports
