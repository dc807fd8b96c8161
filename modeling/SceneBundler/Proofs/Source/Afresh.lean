import SceneBundler.Proofs.Source.View
import SceneBundler.Proofs.Text.Blank

/-!
Contract: source that is read as if it stood at the beginning.

Owns:
- the masked texts after which a quote, a slash or an angle bracket opens what it opens at the
  beginning of a source;
- that from any state the same is read after such a text as without it.

Does not own: which texts leave the initial state behind them.
-/

namespace SceneBundler.Source

open Character (isBlank)

/-- Whether masked characters, nearest first, are blanks after a semicolon or after nothing. -/
structure Afresh (passed : Text) : Prop where
  blankFirst : ∀ c ∈ passed.head?, isBlank c = true
  endsStatement : ∀ c ∈ (passed.dropWhile isBlank).head?, c = ';'

namespace Afresh

variable {passed : Text}

theorem take (afresh : Afresh passed) (count : Nat) : Afresh (passed.take count) := by
  refine ⟨?_, ?_⟩
  · intro c isFirst
    cases passed with
    | nil => simp at isFirst
    | cons d rest =>
        cases count with
        | zero => simp at isFirst
        | succ count => exact afresh.blankFirst c isFirst
  · have ends := afresh.endsStatement
    clear afresh
    induction passed generalizing count with
    | nil => simp
    | cons d rest inductionHypothesis =>
        cases count with
        | zero => simp
        | succ count =>
            rw [List.take_succ_cons]
            cases blank : isBlank d with
            | true =>
                rw [List.dropWhile_cons_of_pos blank] at ends ⊢
                exact inductionHypothesis count ends
            | false =>
                rw [List.dropWhile_cons_of_neg (by simp [blank])] at ends ⊢
                exact ends

/-- The word at the near end of a text does not go on in what was passed before it. -/
theorem endsWithOperandWord_append (afresh : Afresh passed) (window : Text) :
    endsWithOperandWord (window ++ passed) = endsWithOperandWord window := by
  have noWord : passed.takeWhile Character.isAsciiWord = [] := by
    cases passed with
    | nil => rfl
    | cons d rest =>
        have notWord := Character.isAsciiWord_of_isBlank (afresh.blankFirst d rfl)
        rw [List.takeWhile_cons_of_neg (by simp [notWord])]
  unfold endsWithOperandWord
  rw [List.takeWhile_append, noWord]
  split
  next whole =>
    have isWhole := (List.takeWhile_prefix Character.isAsciiWord).eq_of_length whole
    rw [List.append_nil, isWhole]
  next => rfl

/-- What is looked for behind the blanks at the near end is found within the text, or it is the
semicolon. -/
theorem dropWhile_append (afresh : Afresh passed) (window : Text) :
    (window.dropWhile isBlank = [] ∧ ((window ++ passed).dropWhile isBlank = [] ∨
      ∃ rest, (window ++ passed).dropWhile isBlank = ';' :: rest)) ∨
    ∃ c rest, window.dropWhile isBlank = c :: rest ∧
      (window ++ passed).dropWhile isBlank = c :: (rest ++ passed) := by
  rw [List.dropWhile_append]
  cases first : window.dropWhile isBlank with
  | cons c rest => exact Or.inr ⟨c, rest, rfl, rfl⟩
  | nil =>
      refine Or.inl ⟨rfl, ?_⟩
      simp only [List.isEmpty_nil, if_true]
      cases last : passed.dropWhile isBlank with
      | nil => exact Or.inl rfl
      | cons d rest =>
          have isSemicolon := afresh.endsStatement d (by rw [last]; rfl)
          exact Or.inr ⟨rest, by rw [isSemicolon]⟩

theorem opensString_append (afresh : Afresh passed) (window : Text) :
    opensString (window ++ passed) = opensString window := by
  unfold opensString
  rcases afresh.dropWhile_append window with ⟨nothing, nothing' | ⟨rest, semicolon⟩⟩ |
    ⟨c, rest, here, same⟩
  · rw [nothing, nothing']
  · rw [nothing, semicolon]
    rfl
  · rw [here, same]
    simp only [← List.cons_append, afresh.endsWithOperandWord_append]

theorem expectsOperand_append (afresh : Afresh passed) (window : Text) :
    expectsOperand (window ++ passed) = expectsOperand window := by
  unfold expectsOperand
  rcases afresh.dropWhile_append window with ⟨nothing, nothing' | ⟨rest, semicolon⟩⟩ |
    ⟨c, rest, here, same⟩
  · rw [nothing, nothing']
  · have isMark : marksBeforeOperand.contains ';' = true := by decide
    rw [nothing, semicolon]
    simp only [isMark, Bool.true_or]
  · rw [here, same]
    simp only [← List.cons_append, afresh.endsWithOperandWord_append]

end Afresh

namespace Reading

/-- A state with more masked characters read before it. -/
def onto (passed : Text) (reading : Reading) : Reading :=
  { reading with before := reading.before ++ passed }

section Onto

variable {passed : Text}

theorem opensString_onto (afresh : Afresh passed) (reading : Reading) :
    opensString (reading.onto passed).window = opensString reading.window := by
  rw [window, window, onto, List.take_append, (afresh.take _).opensString_append]

theorem expectsOperand_onto (afresh : Afresh passed) (reading : Reading) :
    expectsOperand (reading.onto passed).window = expectsOperand reading.window := by
  rw [window, window, onto, List.take_append, (afresh.take _).expectsOperand_append]

theorem leaveHead_onto (reading : Reading) (selfClosing : Bool) :
    (reading.onto passed).leaveHead selfClosing = (reading.leaveHead selfClosing).onto passed := by
  obtain ⟨region, before, lineIsBlank, heads, elements, templateDepths, depth⟩ := reading
  cases heads <;> rfl

theorem readPlain_onto (afresh : Afresh passed) (reading : Reading) (c : Char) (ahead : Text) :
    (reading.onto passed).readPlain c ahead =
      ((reading.readPlain c ahead).1, (reading.readPlain c ahead).2.onto passed) := by
  unfold readPlain
  rw [opensString_onto afresh, expectsOperand_onto afresh]
  have sameDepths : (reading.onto passed).templateDepths = reading.templateDepths := rfl
  have sameDepth : (reading.onto passed).depth = reading.depth := rfl
  rw [sameDepths, sameDepth]
  split
  next => rfl
  next =>
    split
    next => rfl
    next =>
      split
      next => rfl
      next =>
        split
        next => rfl
        next =>
          split
          next => rfl
          next =>
            split
            next => cases regexLength? false false 0 ahead <;> rfl
            next =>
              split
              next => cases headStart? ahead <;> rfl
              next =>
                split
                next => rfl
                next => split <;> rfl

theorem readHead_onto (afresh : Afresh passed) (reading : Reading) (c : Char) (ahead : Text) :
    (reading.onto passed).readHead c ahead =
      ((reading.readHead c ahead).1, (reading.readHead c ahead).2.onto passed) := by
  unfold readHead
  rw [leaveHead_onto, leaveHead_onto]
  split
  next => rfl
  next =>
    split
    next => rfl
    next =>
      split
      next => rfl
      next =>
        split
        next => exact readPlain_onto afresh { reading with heads := reading.heads.tail } c ahead
        next => split <;> rfl

theorem readText_onto (afresh : Afresh passed) (reading : Reading) (c : Char) (ahead : Text) :
    (reading.onto passed).readText c ahead =
      ((reading.readText c ahead).1, (reading.readText c ahead).2.onto passed) := by
  unfold readText
  have sameLine : (reading.onto passed).leavesMarkup c = reading.leavesMarkup c := rfl
  rw [sameLine]
  split
  next => rfl
  next =>
    split
    next => rfl
    next =>
      exact readPlain_onto afresh
        { reading with
          elements := reading.elements.dropWhile fun frame => frame.depth == reading.depth }
        c ahead

theorem readCode_onto (afresh : Afresh passed) (reading : Reading) (c : Char) (ahead : Text) :
    (reading.onto passed).readCode c ahead =
      ((reading.readCode c ahead).1, (reading.readCode c ahead).2.onto passed) := by
  have element : (reading.onto passed).readElement c ahead =
      ((reading.readElement c ahead).1, (reading.readElement c ahead).2.onto passed) := by
    unfold readElement
    rw [readText_onto afresh]
    split
    next => cases headStart? ahead <;> rfl
    next => rfl
  have sameHead : (reading.onto passed).inHead = reading.inHead := rfl
  have sameElement : (reading.onto passed).inElement = reading.inElement := rfl
  unfold readCode
  rw [readHead_onto afresh, element, readPlain_onto afresh, sameHead, sameElement]
  split
  next => rfl
  next => split <;> rfl

theorem read_onto (afresh : Afresh passed) (reading : Reading) (c : Char) (ahead : Text) :
    (reading.onto passed).read c ahead =
      ((reading.read c ahead).1, (reading.read c ahead).2.onto passed) := by
  have resumed := readCode_onto afresh { reading with region := .code } c ahead
  have sameRegion : (reading.onto passed).region = reading.region := rfl
  have sameDepth : (reading.onto passed).depth = reading.depth := rfl
  unfold read
  rw [sameRegion]
  cases reading.region with
  | code => exact readCode_onto afresh reading c ahead
  | held visible beyond resume => rfl
  | quoted quote =>
      dsimp only
      split
      next => rfl
      next =>
        split
        next => rfl
        next =>
          split
          next => exact resumed
          next => rfl
  | template =>
      dsimp only
      split
      next => rfl
      next =>
        split
        next => rfl
        next => split <;> rfl
  | lineComment =>
      dsimp only
      split
      next => exact resumed
      next => rfl
  | blockComment =>
      dsimp only
      split <;> rfl

theorem advance_onto (afresh : Afresh passed) (reading : Reading) (c : Char) (ahead : Text) :
    (reading.onto passed).advance c ahead = (reading.advance c ahead).onto passed := by
  unfold advance
  rw [read_onto afresh]
  rfl

/-- What is read after a text that leaves everything as at the beginning of a source is shown as it is
without that text. -/
theorem view_onto (afresh : Afresh passed) (reading : Reading) (text : Text) :
    (reading.onto passed).view text = reading.view text := by
  induction text generalizing reading with
  | nil => rfl
  | cons c rest inductionHypothesis =>
      rw [view, view, read_onto afresh, advance_onto afresh, inductionHypothesis]

end Onto

end Reading

end SceneBundler.Source
