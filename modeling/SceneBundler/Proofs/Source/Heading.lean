import SceneBundler.Proofs.Source.Afresh
import SceneBundler.Proofs.Source.Appended
import SceneBundler.Source.Bracket

/-!
Contract: plain code at the beginning of a source.

Owns:
- the states outside all markup and templates, and what is shown of a text on the way between them;
- code without literals whose braces are not nested, and quoted text in it;
- that a source is shown behind such code as it is on its own.

Does not own: which code is put in front of a source.
-/

namespace SceneBundler.Source

open Character (isBlank)

namespace Reading

/-- Reading code outside all markup and templates. -/
def top (before : Text) (lineIsBlank : Bool) (depth : Int) : Reading :=
  ⟨.code, before, lineIsBlank, [], [], [], depth⟩

/-- Whether a text, whatever follows it, is shown in some form on the way from one state to another. -/
def Takes (reading : Reading) (text shown : Text) (next : Reading) : Prop :=
  ∀ following, reading.viewBefore following text = shown ∧ reading.readBefore following text = next

theorem viewBefore_append (following : Text) (reading : Reading) (first second : Text) :
    reading.viewBefore following (first ++ second) =
      reading.viewBefore (second ++ following) first ++
        (reading.readBefore (second ++ following) first).viewBefore following second := by
  induction first generalizing reading with
  | nil => rfl
  | cons c rest inductionHypothesis =>
      rw [List.cons_append, viewBefore, inductionHypothesis, viewBefore, readBefore,
        List.append_assoc]
      rfl

theorem readBefore_append (following : Text) (reading : Reading) (first second : Text) :
    reading.readBefore following (first ++ second) =
      (reading.readBefore (second ++ following) first).readBefore following second := by
  induction first generalizing reading with
  | nil => rfl
  | cons c rest inductionHypothesis =>
      rw [List.cons_append, readBefore, inductionHypothesis, readBefore, List.append_assoc]

namespace Takes

variable {reading middle next : Reading}

theorem nil (reading : Reading) : Takes reading [] [] reading :=
  fun _ => ⟨rfl, rfl⟩

theorem append {first second firstShown secondShown : Text}
    (takesFirst : Takes reading first firstShown middle)
    (takesSecond : Takes middle second secondShown next) :
    Takes reading (first ++ second) (firstShown ++ secondShown) next := by
  intro following
  obtain ⟨viewFirst, readFirst⟩ := takesFirst (second ++ following)
  obtain ⟨viewSecond, readSecond⟩ := takesSecond following
  rw [viewBefore_append, readBefore_append, viewFirst, readFirst, viewSecond, readSecond]
  exact ⟨rfl, rfl⟩

/-- A character leads to a state, and is shown as the state has it, if neither depends on what
follows. -/
theorem cons {c d : Char} {rest shown : Text} (step : ∀ ahead, reading.advance c ahead = middle)
    (form : middle.before = d :: reading.before) (takesRest : Takes middle rest shown next) :
    Takes reading (c :: rest) (d :: shown) next := by
  intro following
  obtain ⟨viewRest, readRest⟩ := takesRest following
  have here := before_advance reading c (rest ++ following)
  rw [step, form] at here
  rw [viewBefore, readBefore, step, viewRest, readRest, ← (List.cons.inj here).1]
  exact ⟨rfl, rfl⟩

end Takes

end Reading

open Reading (top Takes)

/-! ## Code without literals -/

/-- Characters that open and close nothing. -/
def isQuiet (c : Char) : Bool :=
  !"/'\"\x60<>()[]\x7b\x7d".toList.contains c

/-- Whether a text is code of such characters and of braces that are not nested. -/
def staysTop : (inside : Bool) -> Text -> Bool
  | inside, [] => !inside
  | inside, c :: rest =>
      if c = '{' then !inside && staysTop true rest
      else if c = '}' then inside && staysTop false rest
      else isQuiet c && staysTop inside rest

/-- The same text by what it begins with: a brace outside of braces, the brace that closes one, or a character
that opens and closes nothing. -/
inductive StaysTop : (inside : Bool) -> Text -> Prop where
  | nil : StaysTop false []
  | opens {rest : Text} (later : StaysTop true rest) : StaysTop false ('{' :: rest)
  | closes {rest : Text} (later : StaysTop false rest) : StaysTop true ('}' :: rest)
  | quiet {inside : Bool} {c : Char} {rest : Text} (isQuiet : isQuiet c = true) (later : StaysTop inside rest) :
      StaysTop inside (c :: rest)

theorem StaysTop.of_staysTop {inside : Bool} {text : Text} (stays : staysTop inside text = true) :
    StaysTop inside text := by
  induction text generalizing inside with
  | nil =>
      obtain rfl : inside = false := by simpa [staysTop] using stays
      exact .nil
  | cons c rest inductionHypothesis =>
      rw [staysTop] at stays
      split at stays
      next opens =>
        obtain ⟨outside, restStays⟩ := Bool.and_eq_true_iff.mp stays
        obtain rfl : inside = false := by simpa using outside
        exact opens ▸ .opens (inductionHypothesis restStays)
      next =>
        split at stays
        next closes =>
          obtain ⟨rfl, restStays⟩ := Bool.and_eq_true_iff.mp stays
          exact closes ▸ .closes (inductionHypothesis restStays)
        next =>
          obtain ⟨isQuiet, restStays⟩ := Bool.and_eq_true_iff.mp stays
          exact .quiet isQuiet (inductionHypothesis restStays)

theorem ne_of_isQuiet {c : Char} (quiet : isQuiet c = true) (mark : Char)
    (loud : isQuiet mark = false) : c ≠ mark := by
  intro same
  rw [same, loud] at quiet
  contradiction

theorem readPlain_of_isQuiet {c : Char} (quiet : isQuiet c = true) (reading : Reading)
    (ahead : Text) : reading.readPlain c ahead = (true, reading) := by
  simp [Reading.readPlain, isQuote, ne_of_isQuiet quiet '/' (by decide),
    ne_of_isQuiet quiet '\x27' (by decide), ne_of_isQuiet quiet '\x22' (by decide),
    ne_of_isQuiet quiet '\x60' (by decide), ne_of_isQuiet quiet '<' (by decide),
    ne_of_isQuiet quiet '\x7b' (by decide), ne_of_isQuiet quiet '\x7d' (by decide)]

theorem read_top (before : Text) (lineIsBlank : Bool) (depth : Int) (c : Char) (ahead : Text) :
    (top before lineIsBlank depth).read c ahead = (top before lineIsBlank depth).readPlain c ahead :=
  rfl

/-- The brace depth within braces, or outside of them. -/
def braceDepth (inside : Bool) : Int :=
  if inside then 1 else 0

theorem takes_of_staysTop {inside : Bool} {text : Text} (stays : staysTop inside text = true)
    (before : Text) (lineIsBlank : Bool) :
    Takes (top before lineIsBlank (braceDepth inside)) text text
      (top (text.reverse ++ before) (lineIsBlankAfter lineIsBlank text) 0) := by
  have further {inside after : Bool} {c : Char} {rest before : Text} {lineIsBlank : Bool}
      (later : ∀ before lineIsBlank, Takes (top before lineIsBlank (braceDepth after)) rest rest
        (top (rest.reverse ++ before) (lineIsBlankAfter lineIsBlank rest) 0))
      (step : ∀ ahead, (top before lineIsBlank (braceDepth inside)).advance c ahead =
        top (c :: before) (c == '\n' || (lineIsBlank && isBlank c)) (braceDepth after)) :
      Takes (top before lineIsBlank (braceDepth inside)) (c :: rest) (c :: rest)
        (top ((c :: rest).reverse ++ before) (lineIsBlankAfter lineIsBlank (c :: rest)) 0) := by
    have reversed : (c :: rest).reverse ++ before = rest.reverse ++ (c :: before) := by simp
    rw [reversed]
    exact Takes.cons step rfl (later _ _)
  replace stays := StaysTop.of_staysTop stays
  induction stays generalizing before lineIsBlank with
  | nil => exact Takes.nil _
  | opens _ inductionHypothesis => exact further inductionHypothesis fun _ => rfl
  | closes _ inductionHypothesis => exact further inductionHypothesis fun _ => rfl
  | quiet isQuiet _ inductionHypothesis =>
      refine further inductionHypothesis fun ahead => ?_
      rw [Reading.advance, read_top, readPlain_of_isQuiet isQuiet]
      rfl

theorem staysTop_append {inside : Bool} {first : Text} (stays : staysTop inside first = true)
    (second : Text) : staysTop inside (first ++ second) = staysTop false second := by
  replace stays := StaysTop.of_staysTop stays
  induction stays with
  | nil => rfl
  | opens later inductionHypothesis =>
      rw [List.cons_append, staysTop, if_pos rfl, Bool.not_false, Bool.true_and, inductionHypothesis]
  | closes later inductionHypothesis =>
      rw [List.cons_append, staysTop, if_neg (by decide), if_pos rfl, Bool.true_and, inductionHypothesis]
  | quiet isQuiet later inductionHypothesis =>
      rw [List.cons_append, staysTop, if_neg (ne_of_isQuiet isQuiet '\x7b' (by decide)),
        if_neg (ne_of_isQuiet isQuiet '\x7d' (by decide)), isQuiet, Bool.true_and, inductionHypothesis]

theorem staysTop_quiet {first : Text} (quiet : ∀ c ∈ first, isQuiet c = true) (inside : Bool)
    (second : Text) : staysTop inside (first ++ second) = staysTop inside second := by
  induction first with
  | nil => rfl
  | cons c rest inductionHypothesis =>
      have here := quiet c List.mem_cons_self
      rw [List.cons_append, staysTop, if_neg (ne_of_isQuiet here '\x7b' (by decide)),
        if_neg (ne_of_isQuiet here '\x7d' (by decide)), here, Bool.true_and,
        inductionHypothesis fun d member => quiet d (List.mem_cons_of_mem c member)]

theorem staysTop_of_quiet {text : Text} (quiet : ∀ c ∈ text, isQuiet c = true) :
    staysTop false text = true := by
  have ended := staysTop_quiet quiet false []
  rwa [List.append_nil] at ended

theorem staysTop_breaks {breaks : Text} (allBreaks : ∀ c ∈ breaks, c = '\n') :
    staysTop false breaks = true := by
  refine staysTop_of_quiet fun c member => ?_
  rw [allBreaks c member]
  decide

/-! ## Quoted text -/

/-- A text that a single-quoted literal can hold as it is. -/
def IsQuotable (text : Text) : Prop :=
  ∀ c ∈ text, c ≠ '\\' ∧ c ≠ '\x27' ∧ c ≠ '\n'

/-- A text between single quotes, and its masked form. -/
def quoted (text : Text) : Text :=
  '\x27' :: (text ++ ['\x27'])

/-- Reading text behind a quote outside all markup and templates. -/
def inQuotes (quote : Char) (depth : Int) (before : Text) : Reading :=
  ⟨.quoted quote, before, false, [], [], [], depth⟩

section Quotes

variable {quote : Char} {text before : Text}

theorem takes_inQuotes (isMark : isQuote quote = true)
    (plain : ∀ c ∈ text, c ≠ '\\' ∧ c ≠ quote ∧ c ≠ '\n') (depth : Int) (before : Text) :
    Takes (inQuotes quote depth before) (text ++ [quote]) (List.replicate text.length ' ' ++ [quote])
      (top ((List.replicate text.length ' ' ++ [quote]).reverse ++ before) false depth) := by
  induction text generalizing before with
  | nil =>
      have step (ahead : Text) :
          (inQuotes quote depth before).advance quote ahead = top (quote :: before) false depth := by
        have isOne : quote = '\x27' ∨ quote = '\x22' := by simpa [isQuote] using isMark
        rcases isOne with rfl | rfl <;> rfl
      exact Takes.cons step rfl (Takes.nil _)
  | cons c rest inductionHypothesis =>
      obtain ⟨notEscape, notQuote, notBreak⟩ := plain c List.mem_cons_self
      have step (ahead : Text) :
          (inQuotes quote depth before).advance c ahead = inQuotes quote depth (' ' :: before) := by
        simp [Reading.advance, Reading.read, Reading.shown, inQuotes, notEscape, notQuote, notBreak]
      have later := inductionHypothesis
        (fun d member => plain d (List.mem_cons_of_mem c member)) (' ' :: before)
      have reversed : (List.replicate (c :: rest).length ' ' ++ [quote]).reverse ++ before =
          (List.replicate rest.length ' ' ++ [quote]).reverse ++ ' ' :: before := by
        simp [List.replicate_succ]
      rw [reversed]
      exact Takes.cons step rfl later

theorem takes_between_quotes (isMark : isQuote quote = true)
    (plain : ∀ c ∈ text, c ≠ '\\' ∧ c ≠ quote ∧ c ≠ '\n')
    (opens : opensString (before.take lookBack) = true) (lineIsBlank : Bool) (depth : Int) :
    Takes (top before lineIsBlank depth) (quote :: (text ++ [quote]))
      (quote :: (List.replicate text.length ' ' ++ [quote]))
      (top ((quote :: (List.replicate text.length ' ' ++ [quote])).reverse ++ before) false depth) := by
  have step (ahead : Text) :
      (top before lineIsBlank depth).advance quote ahead = inQuotes quote depth (quote :: before) := by
    have isOne : quote = '\x27' ∨ quote = '\x22' := by simpa [isQuote] using isMark
    have notBlank : isBlank '\x27' = false ∧ isBlank '\x22' = false := by decide
    rw [Reading.advance, read_top]
    rcases isOne with rfl | rfl <;>
      simp [Reading.readPlain, Reading.shown, isQuote, Reading.window, top, opens, inQuotes, notBlank]
  have reversed : (quote :: (List.replicate text.length ' ' ++ [quote])).reverse ++ before =
      (List.replicate text.length ' ' ++ [quote]).reverse ++ quote :: before := by
    simp
  rw [reversed]
  exact Takes.cons step rfl (takes_inQuotes isMark plain depth _)

theorem takes_quoted (quotable : IsQuotable text) (opens : opensString (before.take lookBack) = true)
    (lineIsBlank : Bool) :
    Takes (top before lineIsBlank 0) (quoted text) (quoted (List.replicate text.length ' '))
      (top ((quoted (List.replicate text.length ' ')).reverse ++ before) false 0) :=
  takes_between_quotes rfl quotable opens lineIsBlank 0

end Quotes

/-! ## Code in front of a source -/

/-- Whether a text, read outside all markup and templates, is shown in some form and leaves the reading
there. -/
def Settles (text shown : Text) : Prop :=
  ∀ before lineIsBlank, ∃ stillBlank,
    Takes (top before lineIsBlank 0) text shown (top (shown.reverse ++ before) stillBlank 0)

theorem settles_of_staysTop {text : Text} (stays : staysTop false text = true) :
    Settles text text :=
  fun before lineIsBlank => ⟨_, takes_of_staysTop stays before lineIsBlank⟩

theorem Settles.append {first second firstShown secondShown : Text}
    (settlesFirst : Settles first firstShown) (settlesSecond : Settles second secondShown) :
    Settles (first ++ second) (firstShown ++ secondShown) := by
  intro before lineIsBlank
  obtain ⟨between, takesFirst⟩ := settlesFirst before lineIsBlank
  obtain ⟨after, takesSecond⟩ := settlesSecond (firstShown.reverse ++ before) between
  refine ⟨after, ?_⟩
  rw [List.reverse_append, List.append_assoc]
  exact takesFirst.append takesSecond

/-- A text, and the form it is shown in, after which a source is read as from its beginning. -/
structure IsHeading (heading shown : Text) : Prop where
  takes : Takes Reading.initial heading shown (Reading.initial.onto shown.reverse)
  afresh : Afresh shown.reverse

/-- Behind a heading, a source is shown as it is on its own. -/
theorem IsHeading.mask_append {heading shown : Text} (isHeading : IsHeading heading shown)
    (source : Text) : mask (heading ++ source) = shown ++ mask source := by
  obtain ⟨view, read⟩ := isHeading.takes source
  rw [mask_eq_view, mask_eq_view, Reading.view_append, view, read,
    Reading.view_onto isHeading.afresh]

theorem IsHeading.apart {heading shown : Text} (isHeading : IsHeading heading shown) :
    shown.getLast?.any Character.continuesName = false := by
  cases last : shown.getLast? with
  | none => rfl
  | some c =>
      exact Character.continuesName_of_isBlank
        (isHeading.afresh.blankFirst c (by rw [List.head?_reverse, last]; rfl))

theorem Settles.mask_eq {text shown : Text} (settles : Settles text shown) : mask text = shown := by
  obtain ⟨_, takes⟩ := settles [] true
  have whole := (takes []).1
  rw [mask_eq_view, ← List.append_nil text, Reading.view_append]
  change Reading.initial.viewBefore [] text ++ [] = shown
  rw [List.append_nil]
  exact whole

/-- Settled code that ends a statement, with an empty line behind it, is a heading. -/
theorem Settles.isHeading_line {text shown : Text} (settles : Settles text shown)
    (ends : shown.getLast? = some ';') : IsHeading (text ++ ['\n', '\n']) (shown ++ ['\n', '\n']) := by
  obtain ⟨stillBlank, takes⟩ := settles [] true
  have backward : (shown ++ ['\n', '\n']).reverse = '\n' :: '\n' :: shown.reverse := by simp
  refine ⟨?_, ?_, ?_⟩
  · have takesEnd := takes_of_staysTop (by decide : staysTop false ['\n', '\n'] = true)
      (shown.reverse ++ []) stillBlank
    have whole := takes.append takesEnd
    have onto : top (['\n', '\n'].reverse ++ (shown.reverse ++ []))
        (lineIsBlankAfter stillBlank ['\n', '\n']) 0 =
        Reading.initial.onto (shown ++ ['\n', '\n']).reverse := by
      simp [top, Reading.initial, Reading.onto, lineIsBlankAfter]
    rw [onto] at whole
    exact whole
  · intro c isFirst
    rw [backward] at isFirst
    obtain rfl := Option.some.inj isFirst
    decide
  · intro c isNext
    have last : shown.reverse.head? = some ';' := by rw [List.head?_reverse, ends]
    obtain ⟨rest, isRest⟩ := List.head?_eq_some_iff.mp last
    rw [backward, isRest] at isNext
    exact (Option.some.inj isNext).symm

/-- Settled code with a semicolon and an empty line behind it is a heading. -/
theorem Settles.isHeading {text shown : Text} (settles : Settles text shown) :
    IsHeading (text ++ [';', '\n', '\n']) (shown ++ [';', '\n', '\n']) := by
  have whole := (settles.append (settles_of_staysTop (by decide : staysTop false [';'] = true))).isHeading_line
    List.getLast?_concat
  rwa [List.append_assoc, List.append_assoc] at whole

/-- Line breaks are a heading. -/
theorem isHeading_breaks {breaks : Text} (allBreaks : ∀ c ∈ breaks, c = '\n') :
    IsHeading breaks breaks := by
  have lineBlank : ∀ text : Text, (∀ c ∈ text, c = '\n') → lineIsBlankAfter true text = true := by
    intro text
    induction text with
    | nil => exact fun _ => rfl
    | cons c rest inductionHypothesis =>
        intro every
        rw [every c List.mem_cons_self]
        exact inductionHypothesis fun d member => every d (List.mem_cons_of_mem c member)
  have blank : breaks.reverse.dropWhile isBlank = [] := by
    rw [List.dropWhile_eq_nil_iff]
    intro c member
    rw [allBreaks c (List.mem_reverse.mp member)]
    decide
  refine ⟨?_, ?_, ?_⟩
  · have takes := takes_of_staysTop (staysTop_breaks allBreaks) [] true
    rw [lineBlank breaks allBreaks] at takes
    have onto : top (breaks.reverse ++ []) true 0 = Reading.initial.onto breaks.reverse := by
      simp [top, Reading.initial, Reading.onto]
    rw [onto] at takes
    exact takes
  · intro c isFirst
    rw [allBreaks c (List.mem_reverse.mp (List.mem_of_head? isFirst))]
    decide
  · intro c isNext
    rw [blank] at isNext
    exact absurd isNext (by simp)

end SceneBundler.Source
