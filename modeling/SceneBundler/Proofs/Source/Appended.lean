import SceneBundler.Proofs.Source.Ending

/-!
Contract: the masked view of a source with a plain statement appended after an empty line.

Owns:
- the characters that open and end nothing wherever they are read;
- that text of such characters is shown as a whole or blanked as a whole, and which of the two;
- the masked view of a source followed by an empty line and such text.

Does not own: what the appended text says.
-/

namespace SceneBundler.Source

open Character (isBlank)

/-- Characters that begin and end no literal, comment, tag or brace. -/
def isPlain (c : Char) : Bool :=
  !"/\\*'\"\x60<>\x7b\x7d".toList.contains c

/-- Whether a text holds plain characters only, and no line of it begins with a character that ends
unclosed markup. -/
def staysPlain : (lineIsBlank : Bool) -> Text -> Bool
  | _, [] => true
  | lineIsBlank, c :: rest =>
      isPlain c && !((c == ')' || c == ';') && lineIsBlank) &&
        staysPlain (c == '\n' || (lineIsBlank && isBlank c)) rest

namespace Reading

/-- Whether plain characters read in a state are shown. -/
def showsPlain (reading : Reading) : Bool :=
  decide (reading.region = .code) && (reading.inHead || !reading.inElement)

/-- Whether a state is neither within a string or comment that ends with its line nor within a stretch
decided ahead of time. -/
def IsSettled (reading : Reading) : Prop :=
  reading.region = .code ∨ reading.region = .template ∨ reading.region = .blockComment

/-! ## Line breaks -/

theorem readCode_break (reading : Reading) (ahead : Text) :
    (reading.readCode '\n' ahead).2 = reading := by
  have plain : (reading.readPlain '\n' ahead).2 = reading := by
    simp [readPlain, isQuote]
  have head : (reading.readHead '\n' ahead).2 = reading := by
    simp [readHead, isQuote]
  have element : (reading.readElement '\n' ahead).2 = reading := by
    simp [readElement, readText, leavesMarkup]
  unfold readCode
  split
  · exact head
  · split
    · exact element
    · exact plain

theorem shown_break (visible : Bool) : shown visible '\n' = '\n' := by
  simp [shown]

/-- What follows a line break does not matter for reading it. -/
theorem advance_break (reading : Reading) (ahead : Text) :
    reading.advance '\n' ahead = reading.advance '\n' [] := by
  have next : (reading.read '\n' ahead).2 = (reading.read '\n' []).2 := by
    cases region : reading.region with
    | quoted quote =>
        by_cases isBreak : quote = '\n'
        · simp [read, region, isBreak]
        · simp [read, region, Ne.symm isBreak, readCode_break]
    | _ => simp [read, region, readCode_break]
  simp only [advance, next, shown_break]

/-- A line break ends everything but template text, block comments and what a backslash began. -/
theorem isSettled_advance_break {reading : Reading} (ahead : Text)
    (ends : reading.IsSettled ∨ reading.region = .lineComment ∨
      ∃ quote, isQuote quote = true ∧ reading.region = .quoted quote) :
    (reading.advance '\n' ahead).IsSettled := by
  have sameRegion : (reading.advance '\n' ahead).region = (reading.read '\n' ahead).2.region := rfl
  unfold IsSettled
  rw [sameRegion]
  unfold read
  rcases ends with (isCode | isTemplate | isComment) | isLine | ⟨quote, isQuote, isQuoted⟩
  · simp [isCode, readCode_break]
  · simp [isTemplate]
  · simp [isComment]
  · simp [isLine, readCode_break]
  · have notBreak : '\n' ≠ quote := by
      intro same
      rw [← same] at isQuote
      exact absurd isQuote (by decide)
    simp [isQuoted, notBreak, readCode_break]

/-- After an empty line, the reading of any source is settled. -/
theorem isSettled_emptyLine {reading : Reading} (fits : reading.region.Fits 0) (first second : Text) :
    ((reading.advance '\n' first).advance '\n' second).IsSettled := by
  refine isSettled_advance_break second ?_
  cases region : reading.region with
  | code => exact Or.inl (isSettled_advance_break first (Or.inl (Or.inl region)))
  | quoted quote =>
      rw [region] at fits
      exact Or.inl (isSettled_advance_break first (Or.inr (Or.inr ⟨quote, fits, region⟩)))
  | template => exact Or.inl (isSettled_advance_break first (Or.inl (Or.inr (Or.inl region))))
  | lineComment => exact Or.inl (isSettled_advance_break first (Or.inr (Or.inl region)))
  | blockComment => exact Or.inl (isSettled_advance_break first (Or.inl (Or.inr (Or.inr region))))
  | held visible beyond resume =>
      rw [region] at fits
      rcases fits with ⟨inside, _⟩ | ⟨rfl, isTemplate | ⟨quote, isQuote, isQuoted⟩⟩
      · omega
      · refine Or.inl (Or.inr (Or.inl ?_))
        simp [advance, read, region, Region.hold, isTemplate]
      · refine Or.inr (Or.inr ⟨quote, isQuote, ?_⟩)
        simp [advance, read, region, Region.hold, isQuoted]

/-! ## Plain text -/

section Plain

variable {c : Char}

theorem ne_of_isPlain (plain : isPlain c = true) (mark : Char) (loud : isPlain mark = false) :
    c ≠ mark := by
  intro same
  rw [same, loud] at plain
  contradiction

theorem isQuote_of_isPlain (plain : isPlain c = true) : isQuote c = false := by
  simp [isQuote, ne_of_isPlain plain '\x27' (by decide),
    ne_of_isPlain plain '\x22' (by decide)]

theorem readPlain_of_isPlain (plain : isPlain c = true) (reading : Reading) (ahead : Text) :
    reading.readPlain c ahead = (true, reading) := by
  simp [readPlain, isQuote_of_isPlain plain, ne_of_isPlain plain '/' (by decide),
    ne_of_isPlain plain '\x60' (by decide),
    ne_of_isPlain plain '<' (by decide),
    ne_of_isPlain plain '\x7b' (by decide),
    ne_of_isPlain plain '\x7d' (by decide)]

theorem readCode_of_isPlain (plain : isPlain c = true) (reading : Reading)
    (stays : reading.leavesMarkup c = false) (ahead : Text) :
    reading.readCode c ahead = (reading.inHead || !reading.inElement, reading) := by
  have notSlash := ne_of_isPlain plain '/' (by decide)
  have notLess := ne_of_isPlain plain '<' (by decide)
  have notGreater := ne_of_isPlain plain '>' (by decide)
  have notOpener := ne_of_isPlain plain '\x7b' (by decide)
  have notCloser := ne_of_isPlain plain '\x7d' (by decide)
  have head : reading.readHead c ahead = (true, reading) := by
    simp [readHead, isQuote_of_isPlain plain, notSlash, notGreater, notOpener, notCloser]
  have element : reading.readElement c ahead = (false, reading) := by
    simp [readElement, readText, stays, notLess, notOpener, notCloser]
  unfold readCode
  rw [head, element, readPlain_of_isPlain plain]
  cases reading.inHead <;> cases reading.inElement <;> rfl

theorem read_of_isPlain (plain : isPlain c = true) {reading : Reading}
    (settled : reading.IsSettled) (stays : reading.leavesMarkup c = false) {ahead : Text}
    (noBrace : (ahead.head? == some '\x7b') = false) :
    reading.read c ahead = (reading.showsPlain, reading) := by
  have notBackslash := ne_of_isPlain plain '\\' (by decide)
  have notBacktick := ne_of_isPlain plain '\x60' (by decide)
  have notStar := ne_of_isPlain plain '*' (by decide)
  unfold read showsPlain
  rcases settled with isCode | isTemplate | isComment
  · simp [isCode, readCode_of_isPlain plain reading stays]
  · simp [isTemplate, notBackslash, notBacktick, noBrace]
  · simp [isComment, notStar]

end Plain

/-- Plain text is shown as a whole or blanked as a whole. -/
theorem view_of_staysPlain {reading : Reading} {text : Text} (settled : reading.IsSettled)
    (plain : staysPlain reading.lineIsBlank text = true) :
    reading.view text = text.map (shown reading.showsPlain) := by
  induction text generalizing reading with
  | nil => rfl
  | cons c rest inductionHypothesis =>
      simp only [staysPlain, Bool.and_eq_true, Bool.not_eq_true'] at plain
      obtain ⟨⟨isPlain, stays⟩, restPlain⟩ := plain
      have noBrace : (rest.head? == some '\x7b') = false := by
        cases rest with
        | nil => rfl
        | cons d _ =>
            simp only [staysPlain, Bool.and_eq_true] at restPlain
            simpa using ne_of_isPlain restPlain.1.1 '\x7b' (by decide)
      have here := read_of_isPlain isPlain settled stays noBrace
      have next : reading.advance c rest =
          { reading with
            before := shown reading.showsPlain c :: reading.before
            lineIsBlank := c == '\n' || (reading.lineIsBlank && isBlank c) } := by
        rw [advance, here]
      rw [view, here, next, inductionHypothesis]
      · rfl
      · exact settled
      · exact restPlain

end Reading

/-! ## Plain statements -/

/-- Whether a line that a text ends in holds only blanks so far. -/
def lineIsBlankAfter (lineIsBlank : Bool) (text : Text) : Bool :=
  text.foldl (fun lineIsBlank c => c == '\n' || (lineIsBlank && isBlank c)) lineIsBlank

theorem staysPlain_append (lineIsBlank : Bool) (first second : Text) :
    staysPlain lineIsBlank (first ++ second) =
      (staysPlain lineIsBlank first && staysPlain (lineIsBlankAfter lineIsBlank first) second) := by
  induction first generalizing lineIsBlank with
  | nil => simp [staysPlain, lineIsBlankAfter]
  | cons c rest inductionHypothesis =>
      rw [List.cons_append, staysPlain, inductionHypothesis, ← Bool.and_assoc]
      rfl

section Names

variable {name : Text}

theorem ne_of_continuesName {c : Char} (continues : Character.continuesName c = true)
    (mark : Char) (isMark : Character.continuesName mark = false) : c ≠ mark := by
  intro same
  rw [same, isMark] at continues
  contradiction

theorem isPlain_of_continuesName {c : Char} (continues : Character.continuesName c = true) :
    isPlain c = true := by
  have marked : ∀ mark ∈ "/\\*'\"\x60<>\x7b\x7d".toList, Character.continuesName mark = false :=
    Text.forall_mem_of_all (by decide)
  unfold isPlain
  rw [Bool.not_eq_true', List.contains_eq_mem, decide_eq_false_iff_not]
  intro member
  exact ne_of_continuesName continues c (marked c member) rfl

theorem not_isBlank_of_continuesName {c : Char} (continues : Character.continuesName c = true) :
    isBlank c = false := by
  rw [Bool.eq_false_iff]
  intro blank
  rw [Character.continuesName_of_isBlank blank] at continues
  contradiction

theorem staysPlain_of_name (lineIsBlank : Bool)
    (isName : ∀ c ∈ name, Character.continuesName c = true) :
    staysPlain lineIsBlank name = true := by
  induction name generalizing lineIsBlank with
  | nil => rfl
  | cons c rest inductionHypothesis =>
      have continues := isName c List.mem_cons_self
      have notParen := ne_of_continuesName continues ')' (by decide)
      have notSemicolon := ne_of_continuesName continues ';' (by decide)
      simp [staysPlain, isPlain_of_continuesName continues, notParen, notSemicolon,
        inductionHypothesis _ fun d member => isName d (List.mem_cons_of_mem c member)]

theorem lineIsBlankAfter_of_name (lineIsBlank : Bool)
    (isName : ∀ c ∈ name, Character.continuesName c = true)
    (visible : lineIsBlank = false ∨ name ≠ []) : lineIsBlankAfter lineIsBlank name = false := by
  induction name generalizing lineIsBlank with
  | nil => exact visible.resolve_right (fun nonempty => nonempty rfl)
  | cons c rest inductionHypothesis =>
      have continues := isName c List.mem_cons_self
      have notBreak := ne_of_continuesName continues '\n' (by decide)
      have here : (c == '\n' || (lineIsBlank && isBlank c)) = false := by
        simp [notBreak, not_isBlank_of_continuesName continues]
      exact inductionHypothesis _ (fun d member => isName d (List.mem_cons_of_mem c member))
        (Or.inl here)

/-- A mark that no name holds is not in a statement around a name if it is not in the rest of it. -/
theorem not_mem_around_name {lead tail : Text} {mark : Char}
    (isName : ∀ c ∈ name, Character.continuesName c = true)
    (isMark : Character.continuesName mark = false) (notBefore : mark ∉ lead)
    (notAfter : mark ∉ tail) : mark ∉ lead ++ name ++ tail := by
  simp only [List.mem_append, not_or]
  refine ⟨⟨notBefore, ?_⟩, notAfter⟩
  intro member
  exact ne_of_continuesName (isName mark member) mark isMark rfl

end Names

/-- Whether plain text after a source and an empty line is shown by the masked view. -/
def showsAppended (source : Text) : Bool :=
  (Reading.initial.readAll (source ++ ['\n', '\n'])).showsPlain

theorem isBlank_map_shown (statement : Text) :
    Text.isBlank (statement.map (Reading.shown false)) = true := by
  rw [Text.isBlank_iff]
  intro c member
  obtain ⟨d, _, rfl⟩ := List.mem_map.mp member
  unfold Reading.shown
  split
  next isBreak =>
    rw [Bool.false_or, beq_iff_eq] at isBreak
    rw [isBreak]
    decide
  next => decide

/-- Plain text after a source and an empty line is shown as a whole or blanked as a whole, and nothing
changes in the view of the source. -/
theorem mask_append_statement {source statement : Text}
    (inert : Inert ('\n' :: '\n' :: statement)) (plain : staysPlain true statement = true) :
    mask (source ++ '\n' :: '\n' :: statement) =
      mask source ++ '\n' :: '\n' :: statement.map (Reading.shown (showsAppended source)) := by
  have blanks : Inert ['\n', '\n'] := inert_of_isBlank (by decide)
  have fits : (Reading.initial.readAll source).region.Fits 0 := Reading.fits_readAll trivial
  rw [mask_append_of_inert inert, showsAppended, Reading.readAll_append_of_inert blanks]
  generalize Reading.initial.readAll source = ended at fits
  have settled := Reading.isSettled_emptyLine fits [] []
  simp only [Reading.view, Reading.shown_break, Reading.readAll]
  rw [Reading.advance_break ended ('\n' :: statement), Reading.advance_break _ statement,
    Reading.advance_break ended ['\n'],
    Reading.view_of_staysPlain settled plain]

end SceneBundler.Source
