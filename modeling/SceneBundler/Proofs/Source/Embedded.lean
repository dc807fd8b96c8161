import SceneBundler.Proofs.Source.Heading

/-!
Contract: code wherever it stands, within braces of markup and templates as well.

Owns:
- the states in which code is read, and that a text leads from one to another;
- that marks, blanks and names are shown as they are, braces around such code too, and quoted text
  behind a mark with its letters blanked.

Does not own: what the code says.
-/

namespace SceneBundler.Source

open Character (isBlank)

namespace Reading

/-- Reading code: every tag head, element and template around it was begun at a lesser brace depth, or
it is the template whose substitution is read. -/
structure InCode (reading : Reading) : Prop where
  region : reading.region = .code
  heads : ∀ frame ∈ reading.heads, frame.depth < reading.depth
  elements : ∀ frame ∈ reading.elements, frame.depth < reading.depth
  templates : ∀ depth ∈ reading.templateDepths, depth ≤ reading.depth

/-- A state with some characters shown since. -/
def past (reading : Reading) (shown : Text) (lineIsBlank : Bool) : Reading :=
  { reading with before := shown.reverse ++ reading.before, lineIsBlank }

/-- Whether a text, whatever follows it, is shown in some form and leaves no bracket open. -/
def GoesOver (reading : Reading) (text shown : Text) : Prop :=
  ∃ lineIsBlank, Takes reading text shown (reading.past shown lineIsBlank)

variable {reading : Reading}

theorem past_past (first second : Text) (lineWas lineIsBlank : Bool) :
    (reading.past first lineWas).past second lineIsBlank = reading.past (first ++ second) lineIsBlank := by
  simp [past]

theorem InCode.past (inCode : reading.InCode) (shown : Text) (lineIsBlank : Bool) :
    (reading.past shown lineIsBlank).InCode :=
  ⟨inCode.region, inCode.heads, inCode.elements, inCode.templates⟩

theorem InCode.deeper (inCode : reading.InCode) : reading.deeper.InCode where
  region := inCode.region
  heads frame member := Int.lt_trans (inCode.heads frame member) (Int.lt_succ reading.depth)
  elements frame member := Int.lt_trans (inCode.elements frame member) (Int.lt_succ reading.depth)
  templates depth member := Int.le_trans (inCode.templates depth member)
    (Int.le_of_lt (Int.lt_succ reading.depth))

theorem inCode_initial : initial.InCode where
  region := rfl
  heads _ member := absurd member List.not_mem_nil
  elements _ member := absurd member List.not_mem_nil
  templates _ member := absurd member List.not_mem_nil

/-- No frame at all is at the depth of code. -/
theorem any_head?_depth {frames : List Frame} {depth : Int} (outer : ∀ frame ∈ frames, frame.depth < depth) :
    (frames.head?.any (·.depth == depth)) = false := by
  cases frames with
  | nil => rfl
  | cons frame rest =>
      have isOuter := outer frame List.mem_cons_self
      exact beq_false_of_ne (by omega)

theorem InCode.read_eq (inCode : reading.InCode) (c : Char) (ahead : Text) :
    reading.read c ahead = reading.readPlain c ahead := by
  have head : reading.inHead = false := any_head?_depth inCode.heads
  have element : reading.inElement = false := any_head?_depth inCode.elements
  rw [read, inCode.region]
  simp only [readCode, head, element, Bool.false_eq_true, if_false]

/-! ## Parts -/

theorem goesOver_nil (reading : Reading) : reading.GoesOver [] [] :=
  ⟨reading.lineIsBlank, Takes.nil reading⟩

theorem GoesOver.append {first second firstShown secondShown : Text}
    (goesFirst : reading.GoesOver first firstShown)
    (goesSecond : ∀ lineIsBlank, (reading.past firstShown lineIsBlank).GoesOver second secondShown) :
    reading.GoesOver (first ++ second) (firstShown ++ secondShown) := by
  obtain ⟨between, takesFirst⟩ := goesFirst
  obtain ⟨after, takesSecond⟩ := goesSecond between
  rw [past_past] at takesSecond
  exact ⟨after, takesFirst.append takesSecond⟩

theorem GoesOver.length_eq {text shown : Text} (goes : reading.GoesOver text shown) :
    shown.length = text.length := by
  obtain ⟨_, takes⟩ := goes
  rw [← (takes []).1, length_viewBefore]

/-- Marks that begin and end no literal, comment, tag or brace. -/
def isMark (c : Char) : Bool :=
  !"/'\"\x60<\x7b\x7d".toList.contains c

theorem readPlain_of_isMark {c : Char} (mark : isMark c = true) (reading : Reading) (ahead : Text) :
    reading.readPlain c ahead = (true, reading) := by
  have other (loud : Char) (isLoud : isMark loud = false) : c ≠ loud := by
    intro same
    rw [same, isLoud] at mark
    contradiction
  simp [readPlain, isQuote, other '/' (by decide), other '\x27' (by decide), other '\x22' (by decide),
    other '\x60' (by decide), other '<' (by decide), other '\x7b' (by decide), other '\x7d' (by decide)]

theorem goesOver_marks (inCode : reading.InCode) {text : Text} (marks : ∀ c ∈ text, isMark c = true) :
    reading.GoesOver text text := by
  induction text generalizing reading with
  | nil => exact goesOver_nil reading
  | cons c rest inductionHypothesis =>
      have here : reading.GoesOver [c] [c] := by
        refine ⟨c == '\n' || (reading.lineIsBlank && isBlank c),
          Takes.cons (fun ahead => ?_) rfl (Takes.nil _)⟩
        rw [advance, inCode.read_eq, readPlain_of_isMark (marks c List.mem_cons_self)]
        rfl
      exact here.append fun lineIsBlank => inductionHypothesis (inCode.past [c] lineIsBlank)
        fun d member => marks d (List.mem_cons_of_mem c member)

/-- Frames of lesser depth stay when a brace closes. -/
theorem dropWhile_deeper {frames : List Frame} {depth : Int} (outer : ∀ frame ∈ frames, frame.depth < depth) :
    frames.dropWhile (fun frame => decide (depth < frame.depth)) = frames := by
  cases frames with
  | nil => rfl
  | cons frame rest =>
      have isOuter := outer frame List.mem_cons_self
      exact List.dropWhile_cons_of_neg (by simpa using Int.le_of_lt isOuter)

theorem shallower_deeper (inCode : reading.InCode) (shown : Text) (lineIsBlank : Bool) :
    (reading.deeper.past shown lineIsBlank).shallower = reading.past shown lineIsBlank := by
  have depth : reading.depth + 1 - 1 = reading.depth := Int.add_sub_cancel ..
  simp only [shallower, Reading.past, Reading.deeper, depth, dropWhile_deeper inCode.heads,
    dropWhile_deeper inCode.elements]

/-- Code in braces is shown as it is without them. -/
theorem goesOver_braced (inCode : reading.InCode) {text shown : Text}
    (inside : ∀ lineIsBlank, (reading.past ['\x7b'] lineIsBlank).deeper.GoesOver text shown) :
    reading.GoesOver ('\x7b' :: (text ++ ['\x7d'])) ('\x7b' :: (shown ++ ['\x7d'])) := by
  obtain ⟨lineIsBlank, takes⟩ := inside false
  have isOpen := inCode.past ['\x7b'] false
  have opens (ahead : Text) : reading.advance '\x7b' ahead = (reading.past ['\x7b'] false).deeper := by
    have notBlank : isBlank '\x7b' = false := by decide
    rw [advance, inCode.read_eq]
    simp [readPlain, isQuote, Reading.past, Reading.deeper, Reading.shown, notBlank]
  have closes (ahead : Text) :
      ((reading.past ['\x7b'] false).deeper.past shown lineIsBlank).advance '\x7d' ahead =
        reading.past ('\x7b' :: (shown ++ ['\x7d'])) false := by
    have notBlank : isBlank '\x7d' = false := by decide
    have inner := isOpen.deeper.past shown lineIsBlank
    have noTemplate : (reading.templateDepths.head? == some (reading.depth + 1)) = false := by
      cases isHead : reading.templateDepths.head? with
      | none => rfl
      | some depth =>
          have atMost := inCode.templates depth (List.mem_of_mem_head? isHead)
          simpa using (by omega : depth ≠ reading.depth + 1)
    have isPlain : ((reading.past ['\x7b'] false).deeper.past shown lineIsBlank).readPlain '\x7d' ahead =
        (true, ((reading.past ['\x7b'] false).deeper.past shown lineIsBlank).shallower) := by
      have notInner : ((((reading.past ['\x7b'] false).deeper.past shown lineIsBlank).templateDepths.head? ==
          some ((reading.past ['\x7b'] false).deeper.past shown lineIsBlank).depth)) = false := noTemplate
      simp [readPlain, Source.isQuote, notInner]
    rw [advance, inner.read_eq, isPlain, shallower_deeper isOpen]
    simp [Reading.past, Reading.deeper, Reading.shown, notBlank]
  refine ⟨false, Takes.cons opens rfl (takes.append (Takes.cons closes ?_ (Takes.nil _)))⟩
  simp [Reading.past, Reading.deeper]

/-! ## Quoted text -/

/-- Whether the last visible character of what was shown, nearest first, is a mark behind which a quote
opens a string. -/
def BehindMark (before : Text) : Prop :=
  ∃ blanks mark rest, before = blanks ++ mark :: rest ∧ Text.isBlank blanks = true ∧ isBlank mark = false ∧
    Character.isAsciiWord mark = false ∧ mark ≠ ')' ∧ mark ≠ ']'

theorem BehindMark.opensString {before : Text} (behind : BehindMark before) :
    opensString (before.take lookBack) = true := by
  obtain ⟨blanks, mark, rest, rfl, blank, visible, notWord, notRound, notSquare⟩ := behind
  rw [List.take_append, Source.opensString]
  rcases Nat.lt_or_ge blanks.length lookBack with near | far
  · obtain ⟨more, isMore⟩ : ∃ more, lookBack - blanks.length = more + 1 :=
    ⟨lookBack - blanks.length - 1, by omega⟩
    rw [isMore, List.take_succ_cons, List.take_of_length_le (Nat.le_of_lt near),
      List.dropWhile_append_of_pos (Text.isBlank_iff.mp blank),
      List.dropWhile_cons_of_neg (by simp [visible])]
    simp [notWord, notRound, notSquare]
  · have noMore : lookBack - blanks.length = 0 := by omega
    have blankWindow : (blanks.take lookBack).dropWhile isBlank = [] :=
      List.dropWhile_eq_nil_iff.mpr fun c member => Text.isBlank_iff.mp blank c (List.mem_of_mem_take member)
    rw [noMore, List.take_zero, List.append_nil, blankWindow]

theorem BehindMark.past_blanks (behind : BehindMark reading.before) {blanks : Text}
    (blank : Text.isBlank blanks = true) (lineIsBlank : Bool) :
    BehindMark (reading.past blanks lineIsBlank).before := by
  obtain ⟨earlier, mark, rest, isBefore, blankEarlier, visible⟩ := behind
  refine ⟨blanks.reverse ++ earlier, mark, rest, ?_, ?_, visible⟩
  · simp [Reading.past, isBefore]
  · rw [Text.isBlank_iff] at blank blankEarlier ⊢
    rw [List.forall_mem_append]
    exact ⟨fun c member => blank c (List.mem_reverse.mp member), blankEarlier⟩

theorem behindMark_past {mark : Char} (isMark : mark ∈ "\x7b,=".toList) (lineIsBlank : Bool) :
    BehindMark (reading.past [mark] lineIsBlank).before := by
  have others : ∀ c ∈ "\x7b,=".toList,
      isBlank c = false ∧ Character.isAsciiWord c = false ∧ c ≠ ')' ∧ c ≠ ']' :=
    Text.forall_mem_of_all (by decide)
  exact ⟨[], mark, reading.before, rfl, rfl, others mark isMark⟩

/-- The state behind an opening quote, with some letters blanked since. -/
def quoting (reading : Reading) (quote : Char) (count : Nat) : Reading :=
  { reading with
    region := .quoted quote
    before := List.replicate count ' ' ++ quote :: reading.before
    lineIsBlank := false }

section Quotes

variable {quote : Char} {text : Text}

theorem takes_quoting (inCode : reading.InCode) (plain : ∀ c ∈ text, c ≠ '\\' ∧ c ≠ quote ∧ c ≠ '\n')
    (isMark : isQuote quote = true) (count : Nat) :
    Takes (reading.quoting quote count) (text ++ [quote]) (List.replicate text.length ' ' ++ [quote])
      (reading.past (quote :: (List.replicate (count + text.length) ' ' ++ [quote])) false) := by
  have closer : isBlank quote = false ∧ quote ≠ '\\' ∧ quote ≠ '\n' := by
    have isOne : quote = '\x27' ∨ quote = '\x22' := by simpa [isQuote] using isMark
    rcases isOne with rfl | rfl <;> decide
  induction text generalizing count with
  | nil =>
      have closes (ahead : Text) : (reading.quoting quote count).advance quote ahead =
          reading.past (quote :: (List.replicate count ' ' ++ [quote])) false := by
        simp [advance, read, quoting, Reading.past, Reading.shown, closer, inCode.region]
      refine Takes.cons closes ?_ (Takes.nil _)
      simp [Reading.past, quoting]
  | cons c rest inductionHypothesis =>
      obtain ⟨notEscape, notQuote, notBreak⟩ := plain c List.mem_cons_self
      have step (ahead : Text) : (reading.quoting quote count).advance c ahead =
          reading.quoting quote (count + 1) := by
        simp [advance, read, quoting, Reading.shown, notEscape, notQuote, notBreak, List.replicate_succ]
      have later := inductionHypothesis (fun d member => plain d (List.mem_cons_of_mem c member)) (count + 1)
      rw [Nat.add_right_comm, Nat.add_assoc] at later
      exact Takes.cons step (by simp [quoting, List.replicate_succ]) later

/-- Quoted text behind a mark is shown with its letters blanked. -/
theorem goesOver_between_quotes (inCode : reading.InCode)
    (isMark : isQuote quote = true) (plain : ∀ c ∈ text, c ≠ '\\' ∧ c ≠ quote ∧ c ≠ '\n')
    (behind : BehindMark reading.before) :
    reading.GoesOver (quote :: (text ++ [quote])) (quote :: (List.replicate text.length ' ' ++ [quote])) := by
  have opens (ahead : Text) : reading.advance quote ahead = reading.quoting quote 0 := by
    have isOne : quote = '\x27' ∨ quote = '\x22' := by simpa [isQuote] using isMark
    have notBlank : isBlank '\x27' = false ∧ isBlank '\x22' = false := by decide
    have isString := behind.opensString
    rw [advance, inCode.read_eq]
    rcases isOne with rfl | rfl <;>
      simp [readPlain, Reading.shown, isQuote, window, isString, quoting, notBlank]
  have inside := takes_quoting inCode plain isMark 0
  rw [Nat.zero_add] at inside
  exact ⟨false, Takes.cons opens rfl inside⟩

end Quotes

end Reading

end SceneBundler.Source
