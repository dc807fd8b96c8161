import SceneBundler.Proofs.Source.Heading
import SceneBundler.Proofs.Source.LookBack
import SceneBundler.Proofs.Source.Nested

/-!
Contract: code without comments and markup.

Owns:
- that a text is its own masked view if it has no quotes and slashes, and every angle bracket in it
  stands where no operand is expected;
- how code written of plain characters and of texts in quotes is shown behind other code of its kind;
- the texts that are shown without a bracket wherever a quote opens a string.

Does not own: which code is written.
-/

namespace SceneBundler.Source

open Reading (top Takes)

/-- Characters that open a literal or a comment, or may do so. -/
def opensLiteral (c : Char) : Bool :=
  "/'\"\x60".toList.contains c

theorem exists_advance_top {c : Char} (plain : opensLiteral c = false) {before : Text}
    (operator : c = '<' → expectsOperand (before.take lookBack) = false) (lineIsBlank : Bool)
    (depth : Int) :
    ∃ stillBlank deeper, ∀ ahead, (top before lineIsBlank depth).advance c ahead =
      top (c :: before) stillBlank deeper := by
  have different (mark : Char) (opens : opensLiteral mark = true) : c ≠ mark := by
    intro same
    rw [same, opens] at plain
    contradiction
  have notSlash := different '/' (by decide)
  have notSingle := different '\x27' (by decide)
  have notDouble := different '\x22' (by decide)
  have notTick := different '\x60' (by decide)
  have read : ∃ deeper, ∀ ahead, (top before lineIsBlank depth).readPlain c ahead =
      (true, top before lineIsBlank deeper) := by
    have window : (top before lineIsBlank depth).window = before.take lookBack := rfl
    by_cases isLess : c = '<'
    · refine ⟨depth, fun ahead => ?_⟩
      simp [Reading.readPlain, isQuote, isLess, window, operator isLess]
    · by_cases opens : c = '\x7b'
      · exact ⟨depth + 1, fun ahead => by simp [Reading.readPlain, isQuote, opens, Reading.deeper, top]⟩
      · by_cases closes : c = '\x7d'
        · exact ⟨depth - 1, fun ahead => by simp [Reading.readPlain, isQuote, closes, Reading.shallower, top]⟩
        · refine ⟨depth, fun ahead => ?_⟩
          simp [Reading.readPlain, isQuote, notSlash, notSingle, notDouble, notTick, isLess, opens,
            closes]
  obtain ⟨deeper, read⟩ := read
  refine ⟨c == '\n' || (lineIsBlank && Character.isBlank c), deeper, fun ahead => ?_⟩
  rw [Reading.advance, read_top, read]
  rfl

/-- A text without literals, comments and markup is its own masked view. -/
theorem mask_eq_self {text : Text} (plain : ∀ c ∈ text, opensLiteral c = false)
    (operators : ∀ passed following, text = passed ++ '<' :: following →
      expectsOperand (passed.reverse.take lookBack) = false) : mask text = text := by
  have readsOn (rest : Text) : ∀ passed, text = passed ++ rest → ∀ lineIsBlank depth,
      ((top passed.reverse lineIsBlank depth).readAll rest).before = text.reverse := by
    induction rest with
    | nil =>
        intro passed split _ _
        rw [split, List.append_nil]
        rfl
    | cons c rest inductionHypothesis =>
        intro passed split lineIsBlank depth
        have isIn : c ∈ text := by
          rw [split]
          exact List.mem_append_right _ List.mem_cons_self
        obtain ⟨stillBlank, deeper, advanced⟩ := exists_advance_top (plain c isIn)
          (fun isLess => operators passed rest (isLess ▸ split)) lineIsBlank depth
        have later := inductionHypothesis (passed ++ [c]) (by rw [split, List.append_cons])
          stillBlank deeper
        rw [Reading.readAll, advanced]
        rwa [List.reverse_append] at later
  rw [mask, show Reading.initial = top [].reverse true 0 from rfl, readsOn text [] rfl,
    List.reverse_reverse]

theorem mask_eq_self_of_no_less {text : Text} (plain : ∀ c ∈ text, opensLiteral c = false)
    (noLess : '<' ∉ text) : mask text = text := by
  refine mask_eq_self plain fun passed following split => absurd ?_ noLess
  rw [split]
  exact List.mem_append_right passed List.mem_cons_self

/-! ## Code with texts in quotes -/

/-- Whether a text is shown in some form behind what was read so far, outside all markup and templates. -/
def ShownBehind (before text shown : Text) : Prop :=
  ∀ lineIsBlank depth, ∃ stillBlank deeper,
    Takes (top before lineIsBlank depth) text shown (top (shown.reverse ++ before) stillBlank deeper)

/-- Whether a quote opens a string behind what was read so far. -/
def TakesOperand (before : Text) : Prop :=
  opensString (before.take lookBack) = true

/-- Whether a text is shown without brackets wherever a quote opens a string. -/
def IsBare (text : Text) : Prop :=
  ∃ shown, (∀ c ∈ shown, isBracket c = false) ∧ ∀ before, TakesOperand before → ShownBehind before text shown

variable {before text shown : Text}

namespace ShownBehind

theorem append {first second firstShown secondShown : Text} (showsFirst : ShownBehind before first firstShown)
    (showsSecond : ShownBehind (firstShown.reverse ++ before) second secondShown) :
    ShownBehind before (first ++ second) (firstShown ++ secondShown) := by
  intro lineIsBlank depth
  obtain ⟨between, inside, takesFirst⟩ := showsFirst lineIsBlank depth
  obtain ⟨after, deeper, takesSecond⟩ := showsSecond between inside
  refine ⟨after, deeper, ?_⟩
  rw [List.reverse_append, List.append_assoc]
  exact takesFirst.append takesSecond

/-- Code without literals and angle brackets is shown as it is. -/
theorem plain (noLiteral : ∀ c ∈ text, opensLiteral c = false ∧ c ≠ '<') (before : Text) :
    ShownBehind before text text := by
  intro lineIsBlank depth
  induction text generalizing before lineIsBlank depth with
  | nil => exact ⟨lineIsBlank, depth, Takes.nil _⟩
  | cons c rest inductionHypothesis =>
      obtain ⟨noLiteralHere, notAngle⟩ := noLiteral c List.mem_cons_self
      obtain ⟨between, inside, advanced⟩ := exists_advance_top noLiteralHere
        (fun isAngle => absurd isAngle notAngle) lineIsBlank depth
      obtain ⟨stillBlank, deeper, takes⟩ := inductionHypothesis
        (fun d member => noLiteral d (List.mem_cons_of_mem c member)) (c :: before) between inside
      refine ⟨stillBlank, deeper, ?_⟩
      rw [List.reverse_cons, List.append_assoc]
      exact Takes.cons advanced rfl takes

theorem quoted {quote : Char} (isMark : isQuote quote = true)
    (inside : ∀ c ∈ text, c ≠ '\\' ∧ c ≠ quote ∧ c ≠ '\n') (opens : TakesOperand before) :
    ShownBehind before (quote :: (text ++ [quote])) (quote :: (List.replicate text.length ' ' ++ [quote])) :=
  fun lineIsBlank depth => ⟨_, _, takes_between_quotes isMark inside opens lineIsBlank depth⟩

/-- Code at the beginning of a source is shown as it is behind nothing. -/
theorem mask_eq (shows : ShownBehind [] text shown) : mask text = shown := by
  obtain ⟨_, _, takes⟩ := shows true 0
  have whole := (takes []).1
  rw [mask_eq_view, ← List.append_nil text, Reading.view_append]
  change Reading.initial.viewBefore [] text ++ [] = shown
  rw [List.append_nil]
  exact whole

end ShownBehind

/-! ## Bare texts -/

theorem isBracket_of_isQuiet {c : Char} (quiet : isQuiet c = true) : isBracket c = false := by
  have notMark := ne_of_isQuiet quiet
  simp [isBracket, isOpener, isCloser, notMark '(' (by decide), notMark '[' (by decide),
    notMark '\x7b' (by decide), notMark ')' (by decide), notMark ']' (by decide), notMark '\x7d' (by decide)]

theorem inert_of_isQuiet {c : Char} (quiet : isQuiet c = true) : opensLiteral c = false ∧ c ≠ '<' := by
  have notMark := ne_of_isQuiet quiet
  refine ⟨?_, notMark '<' (by decide)⟩
  simp [opensLiteral, notMark '/' (by decide), notMark '\x27' (by decide), notMark '\x22' (by decide),
    notMark '\x60' (by decide)]

/-- Characters that open and close nothing are shown as they are. -/
theorem isBare_of_quiet (quiet : ∀ c ∈ text, isQuiet c = true) : IsBare text :=
  ⟨text, fun c member => isBracket_of_isQuiet (quiet c member),
    fun before _ => .plain (fun c member => inert_of_isQuiet (quiet c member)) before⟩

/-- A text in quotes is shown blank between them. -/
theorem isBare_quoted {quote : Char} (isMark : isQuote quote = true)
    (inside : ∀ c ∈ text, c ≠ '\\' ∧ c ≠ quote ∧ c ≠ '\n') : IsBare (quote :: (text ++ [quote])) := by
  refine ⟨_, fun c member => ?_, fun before opens => .quoted isMark inside opens⟩
  have isQuoteOrBlank : c = quote ∨ c = ' ' := by
    simp only [List.mem_cons, List.mem_append, List.mem_replicate, List.not_mem_nil, or_false] at member
    rcases member with isFirst | ⟨_, isBlank⟩ | isLast
    · exact Or.inl isFirst
    · exact Or.inr isBlank
    · exact Or.inl isLast
  have isOne : quote = '\x27' ∨ quote = '\x22' := by simpa [isQuote] using isMark
  rcases isQuoteOrBlank with rfl | rfl
  · rcases isOne with rfl | rfl <;> decide
  · decide

/-- A quote opens a string behind a mark of punctuation and a space. -/
theorem takesOperand_mark {mark : Char} (isMark : mark ∈ ",:\x7b".toList) (before : Text) :
    TakesOperand (' ' :: mark :: before) := by
  have isThree : mark = ',' ∨ mark = ':' ∨ mark = '\x7b' := by simpa using isMark
  rcases isThree with rfl | rfl | rfl <;> rfl

/-- Bare texts with a mark of punctuation and a space between them are bare. -/
theorem IsBare.glue {mark : Char} (isMark : mark ∈ ",:".toList) {first second : Text} (isFirst : IsBare first)
    (isSecond : IsBare second) : IsBare (first ++ ([mark, ' '] ++ second)) := by
  obtain ⟨firstShown, plainFirst, showsFirst⟩ := isFirst
  obtain ⟨secondShown, plainSecond, showsSecond⟩ := isSecond
  have isOne : mark = ',' ∨ mark = ':' := by simpa using isMark
  have noLiteral : ∀ c ∈ [mark, ' '], opensLiteral c = false ∧ c ≠ '<' := by
    rcases isOne with rfl | rfl <;> exact Text.forall_mem_of_all (by decide)
  have noBracket : ∀ c ∈ [mark, ' '], isBracket c = false := by
    rcases isOne with rfl | rfl <;> exact Text.forall_mem_of_all (by decide)
  refine ⟨firstShown ++ ([mark, ' '] ++ secondShown), fun c member => ?_, fun before opens => ?_⟩
  · rcases List.mem_append.mp member with isHere | isLater
    · exact plainFirst c isHere
    · rcases List.mem_append.mp isLater with isGlue | isThere
      · exact noBracket c isGlue
      · exact plainSecond c isThere
  · refine (showsFirst before opens).append ((ShownBehind.plain noLiteral _).append (showsSecond _ ?_))
    exact takesOperand_mark (by rcases isOne with rfl | rfl <;> decide) _

end SceneBundler.Source
