import SceneBundler.Proofs.Source.Written

/-!
Contract: expressions of the plain language as trees, and how they are written.

Owns:
- words, calls, parentheses, conditionals and arrow functions, and the statement that gives the value of
  one to a variable;
- which characters such a statement has, and what stands around its blanks;
- that it is its own masked view.

Does not own: what the passes of erasure make of it.
-/

namespace SceneBundler.Untyped

/-! ## Words -/

/-- A character of a word: an ASCII one, or any other that is beyond ASCII and not blank. -/
def isWordPart (c : Char) : Bool :=
  Character.isAsciiWord c || (0x80 ≤ c.toNat && !Character.isBlank c)

/-- A word: every identifier, whether reserved or not. -/
structure Word where
  text : Text
  nonempty : text ≠ []
  parts : ∀ c ∈ text, isWordPart c = true

theorem ne_of_isWordPart {c mark : Char} (part : isWordPart c = true)
    (other : isWordPart mark = false) : c ≠ mark := by
  intro same
  rw [same, other] at part
  contradiction

theorem isBlank_of_isWordPart {c : Char} (part : isWordPart c = true) :
    Character.isBlank c = false := by
  rcases Bool.or_eq_true_iff.mp part with ascii | beyond
  · exact Source.isBlank_of_isAsciiWord ascii
  · rw [Bool.and_eq_true, Bool.not_eq_true'] at beyond
    exact beyond.2

theorem Word.not_mem (word : Word) {mark : Char} (other : isWordPart mark = false) :
    mark ∉ word.text :=
  fun member => ne_of_isWordPart (word.parts mark member) other rfl

/-! ## Expressions -/

/-- Expressions of words, calls, parentheses, conditionals, and arrow functions with a bare parameter or
one in parentheses. -/
inductive Expression where
  | name (word : Word)
  | call (callee : Word) (argument : Expression)
  | group (inside : Expression)
  | conditional (test consequent alternate : Expression)
  | arrow (parameter : Word) (body : Expression)
  | enclosedArrow (parameter : Word) (body : Expression)

/-- A text in parentheses. -/
def enclosed (inside : Text) : Text :=
  '(' :: (inside ++ [')'])

/-- The arrow of a function, between blanks. -/
def arrowMark : Text :=
  [' ', '=', '>', ' ']

/-- The question mark of a conditional, between blanks. -/
def questionMark : Text :=
  [' ', '?', ' ']

/-- The colon of a conditional, between blanks. -/
def colonMark : Text :=
  [' ', ':', ' ']

namespace Expression

/-- How an expression is written. -/
def text : Expression -> Text
  | name word => word.text
  | call callee argument => callee.text ++ enclosed argument.text
  | group inside => enclosed inside.text
  | conditional test consequent alternate =>
      test.text ++ (questionMark ++ (consequent.text ++ (colonMark ++ alternate.text)))
  | arrow parameter body => parameter.text ++ (arrowMark ++ body.text)
  | enclosedArrow parameter body => enclosed parameter.text ++ (arrowMark ++ body.text)

/-- The statement without its line break. -/
def line (expression : Expression) : Text :=
  ['v', ' ', '=', ' '] ++ (expression.text ++ [';'])

/-- The statement that gives the value of an expression to the variable `v`, on a line of its own. -/
def statement (expression : Expression) : Text :=
  expression.line ++ ['\n']

end Expression

/-! ## Characters -/

/-- The characters between the words of an expression. -/
def isMark (c : Char) : Bool :=
  "()?:=> ".toList.contains c

theorem Expression.mem_text {expression : Expression} {c : Char} (member : c ∈ expression.text) :
    isWordPart c = true ∨ isMark c = true := by
  have marks {word : Text} (areMarks : word.all isMark = true) (isIn : c ∈ word) : isMark c = true :=
    List.all_eq_true.mp areMarks c isIn
  have ofEnclosed {inside : Text} (isIn : c ∈ enclosed inside) : c ∈ inside ∨ isMark c = true := by
    rcases List.mem_cons.mp isIn with rfl | isLater
    · exact Or.inr rfl
    · rcases List.mem_append.mp isLater with isInside | isCloser
      · exact Or.inl isInside
      · exact Or.inr (@marks [')'] rfl isCloser)
  induction expression with
  | name word => exact Or.inl (word.parts c member)
  | call callee argument argumentHypothesis =>
      rcases List.mem_append.mp member with ofCallee | isIn
      · exact Or.inl (callee.parts c ofCallee)
      · exact (ofEnclosed isIn).elim argumentHypothesis Or.inr
  | group inside insideHypothesis => exact (ofEnclosed member).elim insideHypothesis Or.inr
  | conditional test consequent alternate testHypothesis consequentHypothesis alternateHypothesis =>
      simp only [text, List.mem_append] at member
      rcases member with ofTest | isQuestion | ofConsequent | isColon | ofAlternate
      · exact testHypothesis ofTest
      · exact Or.inr (marks (by decide) isQuestion)
      · exact consequentHypothesis ofConsequent
      · exact Or.inr (marks (by decide) isColon)
      · exact alternateHypothesis ofAlternate
  | arrow parameter body bodyHypothesis =>
      simp only [text, List.mem_append] at member
      rcases member with ofParameter | isArrow | ofBody
      · exact Or.inl (parameter.parts c ofParameter)
      · exact Or.inr (marks (by decide) isArrow)
      · exact bodyHypothesis ofBody
  | enclosedArrow parameter body bodyHypothesis =>
      simp only [text, List.mem_append] at member
      rcases member with isIn | isArrow | ofBody
      · exact (ofEnclosed isIn).imp_left (parameter.parts c)
      · exact Or.inr (marks (by decide) isArrow)
      · exact bodyHypothesis ofBody

/-- A character that is neither of a word nor between words is not in the statement of an expression. -/
theorem Expression.not_mem_line (expression : Expression) {c : Char}
    (other : (isWordPart c || isMark c || c == ';') = false) : c ∉ expression.line := by
  simp only [Bool.or_eq_false_iff, beq_eq_false_iff_ne, ne_eq] at other
  obtain ⟨⟨notPart, notMark⟩, notEnd⟩ := other
  have lead : ∀ d ∈ ['v', ' ', '=', ' '], isWordPart d = true ∨ isMark d = true := by
    intro d member
    simp only [List.mem_cons, List.not_mem_nil, or_false] at member
    rcases member with rfl | rfl | rfl | rfl
    · exact Or.inl (by decide)
    · exact Or.inr (by decide)
    · exact Or.inr (by decide)
    · exact Or.inr (by decide)
  intro member
  rcases List.mem_append.mp member with ofLead | isLater
  · rcases lead c ofLead with part | mark
    · exact absurd part (by rw [notPart]; exact Bool.false_ne_true)
    · exact absurd mark (by rw [notMark]; exact Bool.false_ne_true)
  · rcases List.mem_append.mp isLater with ofText | isEnd
    · rcases Expression.mem_text ofText with part | mark
      · exact absurd part (by rw [notPart]; exact Bool.false_ne_true)
      · exact absurd mark (by rw [notMark]; exact Bool.false_ne_true)
    · exact notEnd (List.mem_singleton.mp isEnd)

theorem Expression.not_mem_statement (expression : Expression) {c : Char} (notBreak : c ≠ '\n')
    (other : (isWordPart c || isMark c || c == ';') = false) : c ∉ expression.statement := by
  intro member
  rcases List.mem_append.mp member with ofLine | isBreak
  · exact expression.not_mem_line other ofLine
  · exact notBreak (List.mem_singleton.mp isBreak)

/-- The statement of an expression has no literals, comments and markup, so all of it is code. -/
theorem Expression.mask_statement (expression : Expression) :
    Source.mask expression.statement = expression.statement := by
  have absent {c : Char} (notBreak : c ≠ '\n')
      (other : (isWordPart c || isMark c || c == ';') = false) := expression.not_mem_statement notBreak other
  refine Source.mask_eq_self_of_no_less (fun c member => ?_) (absent (by decide) (by decide))
  have openers : "/'\"\x60".toList = ['/', '\x27', '\x22', '\x60'] := rfl
  rw [← Bool.not_eq_true, Source.opensLiteral, List.contains_iff_mem, openers]
  intro opens
  simp only [List.mem_cons, List.not_mem_nil, or_false] at opens
  rcases opens with rfl | rfl | rfl | rfl
  · exact absent (by decide) (by decide) member
  · exact absent (by decide) (by decide) member
  · exact absent (by decide) (by decide) member
  · exact absent (by decide) (by decide) member

/-! ## Blanks -/

/-- The marks that blanks stand next to. -/
def takesBlanks (c : Char) : Bool :=
  "?:=>;".toList.contains c

/-- Whether every blank of a text stands behind a mark or in front of one. -/
def Spaced (text : Text) : Prop :=
  ∀ passed c following, text = passed ++ c :: following → Character.isBlank c = true →
    passed.getLast?.any takesBlanks = true ∨ following.head?.any takesBlanks = true

instance (text : Text) : Decidable (Spaced text) :=
  decidable_of_iff
    (∀ offset < text.length, (text.drop offset).head?.any Character.isBlank = true →
      (text.take offset).getLast?.any takesBlanks = true ∨
        (text.drop (offset + 1)).head?.any takesBlanks = true) <| by
    constructor
    · rintro spaced passed c following rfl blank
      have here := spaced passed.length (by simp) (by simpa using blank)
      simpa using here
    · intro spaced offset inside blank
      have split := List.take_append_drop offset text
      rw [List.drop_eq_getElem_cons inside] at split blank
      exact spaced _ _ _ split.symm blank

namespace Spaced

/-- What stands around a blank stands around it in a longer text as well. -/
theorem append {first second : Text} (spacedFirst : Spaced first) (spacedSecond : Spaced second) :
    Spaced (first ++ second) := by
  intro passed c following split blank
  rcases List.append_eq_append_iff.mp split with ⟨more, rfl, isSecond⟩ | ⟨more, rfl, isRest⟩
  · refine (spacedSecond more c following isSecond blank).imp_left fun behind => ?_
    rw [List.getLast?_append]
    cases isLast : more.getLast? with
    | none =>
        rw [isLast] at behind
        contradiction
    | some d => rwa [isLast] at behind
  · cases more with
    | nil =>
        refine (spacedSecond [] c following isRest.symm blank).imp_left fun behind => ?_
        contradiction
    | cons d more =>
        obtain ⟨rfl, rfl⟩ := List.cons.inj isRest
        refine (spacedFirst passed c more rfl blank).imp_right fun ahead => ?_
        cases more with
        | nil => contradiction
        | cons e more => exact ahead

theorem of_visible {text : Text} (visible : ∀ c ∈ text, Character.isBlank c = false) : Spaced text := by
  intro passed c following split blank
  rw [visible c (by rw [split]; exact List.mem_append_right _ List.mem_cons_self)] at blank
  contradiction

end Spaced

theorem spaced_enclosed {inside : Text} (spaced : Spaced inside) : Spaced (enclosed inside) := by
  have opener : Spaced ['('] := Spaced.of_visible (Text.forall_mem_of_all (by decide))
  have closer : Spaced [')'] := Spaced.of_visible (Text.forall_mem_of_all (by decide))
  exact opener.append (spaced.append closer)

theorem Word.spaced (word : Word) : Spaced word.text :=
  Spaced.of_visible fun c member => isBlank_of_isWordPart (word.parts c member)

theorem Expression.spaced_text (expression : Expression) : Spaced expression.text := by
  have arrow : Spaced arrowMark := by decide
  have question : Spaced questionMark := by decide
  have colon : Spaced colonMark := by decide
  induction expression with
  | name word => exact word.spaced
  | call callee argument argumentHypothesis =>
      exact callee.spaced.append (spaced_enclosed argumentHypothesis)
  | group inside insideHypothesis => exact spaced_enclosed insideHypothesis
  | conditional test consequent alternate testHypothesis consequentHypothesis alternateHypothesis =>
      have behindQuestion := consequentHypothesis.append (colon.append alternateHypothesis)
      exact testHypothesis.append (question.append behindQuestion)
  | arrow parameter body bodyHypothesis => exact parameter.spaced.append (arrow.append bodyHypothesis)
  | enclosedArrow parameter body bodyHypothesis =>
      exact (spaced_enclosed parameter.spaced).append (arrow.append bodyHypothesis)

theorem Expression.spaced_statement (expression : Expression) : Spaced expression.statement := by
  have lead : Spaced ['v', ' ', '=', ' '] := by decide
  have ending : Spaced [';', '\n'] := by decide
  have whole := lead.append (expression.spaced_text.append ending)
  simpa [Expression.statement, Expression.line] using whole

end SceneBundler.Untyped
