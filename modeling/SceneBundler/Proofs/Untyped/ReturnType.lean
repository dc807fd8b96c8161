import SceneBundler.Proofs.Dialect.Stretch
import SceneBundler.Proofs.Typed.Parenthesis
import SceneBundler.Proofs.Untyped.Expression

/-!
Contract: where the search for a return type ends in expressions of the plain language.

Owns:
- that less room makes the search find less, and nothing else;
- what stands where the search ends;
- how far the first arrow outside the brackets of an expression is, and that the search ends there.

Does not own: which colons the search begins behind.
-/

namespace SceneBundler.Untyped

open Dialect
open Typed (GoesOverOperand GoesOverResult goesOverOperand_append goesOverOperand_bracketed
  goesOverResult_append goesOverResult_mark scans_result returnTypeLength?_outside)

/-! ## Room -/

/-- With less room the search finds what it finds with more, if there is still room for it. -/
theorem returnTypeLength?_room {room more depth passed : Nat} {seen : Bool} {previous : Option Char}
    {text : Text} (less : room ≤ more) :
    returnTypeLength? room depth seen previous passed text =
      (returnTypeLength? more depth seen previous passed text).filter (· < passed + room) := by
  induction room generalizing more depth seen previous passed text with
  | zero =>
      have empty : returnTypeLength? 0 depth seen previous passed text = none := by
        rw [returnTypeLength?]
      rw [empty, eq_comm, Option.filter_eq_none_iff]
      intro reached found
      have behind := le_of_returnTypeLength? found
      rw [decide_eq_true_eq]
      omega
  | succ room inductionHypothesis =>
      obtain ⟨more, rfl⟩ : ∃ others, more = others + 1 := ⟨more - 1, by omega⟩
      cases text with
      | nil => simp [returnTypeLength?]
      | cons c rest =>
          have onward (depth : Nat) (seen : Bool) (previous : Option Char) :
              returnTypeLength? room depth seen previous (passed + 1) rest =
                (returnTypeLength? more depth seen previous (passed + 1) rest).filter
                  (· < passed + (room + 1)) := by
            have reached : passed + (room + 1) = passed + 1 + room := by omega
            rw [reached]
            exact inductionHypothesis (Nat.le_of_succ_le_succ less)
          have here : some passed = (some passed).filter (· < passed + (room + 1)) := by
            have inside : passed < passed + (room + 1) := by omega
            rw [Option.filter, if_pos (decide_eq_true inside)]
          rw [returnTypeLength?.eq_def, returnTypeLength?.eq_def (more + 1)]
          dsimp only
          split_ifs
          · exact here
          · rfl
          · exact here
          · rfl
          · exact onward _ _ _
          · cases depth with
            | zero => rfl
            | succ outer => exact onward _ _ _
          · exact onward _ _ _

/-- The search ends at an arrow or at a brace. -/
theorem follows_of_returnTypeLength? {room depth passed reached : Nat} {seen : Bool}
    {previous : Option Char} {text : Text}
    (found : returnTypeLength? room depth seen previous passed text = some reached) :
    ∃ following, text.drop (reached - passed) = '=' :: '>' :: following ∨
      text.drop (reached - passed) = '\x7b' :: following := by
  induction room generalizing depth seen previous passed text with
  | zero => simp [returnTypeLength?] at found
  | succ room inductionHypothesis =>
      cases text with
      | nil => simp [returnTypeLength?] at found
      | cons c rest =>
          rcases returnTypeLength?_cases found with ⟨-, rfl, isEnd⟩ | ⟨next, -, isLater⟩
          · rw [Nat.sub_self, List.drop_zero]
            rcases isEnd with ⟨rfl, isHead⟩ | rfl
            · obtain ⟨following, rfl⟩ := List.head?_eq_some_iff.mp isHead
              exact ⟨following, Or.inl rfl⟩
            · exact ⟨rest, Or.inr rfl⟩
          · have behind := le_of_returnTypeLength? isLater
            have step : reached - passed = reached - (passed + 1) + 1 := by omega
            rw [step, List.drop_succ_cons]
            exact inductionHypothesis isLater

theorem follows_of_returnTypeEnd? {masked : Text} {start stop : Nat}
    (found : returnTypeEnd? masked start = some stop) :
    ∃ following, masked.drop stop = '=' :: '>' :: following ∨ masked.drop stop = '\x7b' :: following := by
  obtain ⟨reached, foundHere, rfl⟩ := Option.map_eq_some_iff.mp found
  have follows := follows_of_returnTypeLength? foundHere
  rwa [List.drop_drop] at follows

/-! ## Going over expressions -/

/-- A character of a word neither opens nor ends anything. -/
theorem levels_of_isWordPart {c : Char} (part : isWordPart c = true) :
    (opensType c = false ∧ Source.isCloser c = false ∧ c ≠ '>') ∧
      c ≠ '\x7b' ∧ c ≠ ';' ∧ c ≠ ',' ∧ c ≠ '=' := by
  have different := fun mark => @ne_of_isWordPart c mark part
  refine ⟨⟨?_, ?_, different '>' (by decide)⟩, different '\x7b' (by decide), different ';' (by decide),
    different ',' (by decide), different '=' (by decide)⟩
  · simp [opensType, Source.isOpener, different '(' (by decide), different '[' (by decide),
      different '\x7b' (by decide), different '<' (by decide)]
  · simp [Source.isCloser, different ')' (by decide), different ']' (by decide),
      different '\x7d' (by decide)]

theorem goesOverResult_word (word : Word) (depth : Nat) : GoesOverResult depth depth word.text := by
  have ofParts {parts : Text} (areParts : ∀ c ∈ parts, isWordPart c = true) :
      GoesOverResult depth depth parts := by
    induction parts with
    | nil => exact scans_result.stays depth
    | cons c rest inductionHypothesis =>
        have part := areParts c List.mem_cons_self
        obtain ⟨⟨notOpener, notCloser, notAngle⟩, _⟩ := levels_of_isWordPart part
        have here := goesOverResult_mark depth notOpener notCloser notAngle
        exact goesOverResult_append here
          (inductionHypothesis fun d member => areParts d (List.mem_cons_of_mem c member))
  exact ofParts word.parts

theorem goesOverResult_enclosed {inside : Text} {depth : Nat}
    (goes : GoesOverResult (depth + 1) (depth + 1) inside) :
    GoesOverResult depth depth (enclosed inside) :=
  scans_result.onward (scans_result.opens depth rfl) (scans_result.onward goes (scans_result.closes depth rfl))

theorem goesOverResult_text (expression : Expression) (depth : Nat) :
    GoesOverResult depth depth expression.text := by
  have mark {c : Char} {depth : Nat}
      (level : opensType c = false ∧ Source.isCloser c = false ∧ c ≠ '>') : GoesOverResult depth depth [c] :=
    goesOverResult_mark depth level.1 level.2.1 level.2.2
  have blank {depth : Nat} : GoesOverResult depth depth [' '] := mark (by decide)
  have question {depth : Nat} : GoesOverResult depth depth questionMark :=
    goesOverResult_append blank (goesOverResult_append (mark (c := '?') (by decide)) blank)
  have colon {depth : Nat} : GoesOverResult depth depth colonMark :=
    goesOverResult_append blank (goesOverResult_append (mark (c := ':') (by decide)) blank)
  induction expression generalizing depth with
  | name word => exact goesOverResult_word word depth
  | call callee argument argumentHypothesis =>
      exact goesOverResult_append (goesOverResult_word callee depth)
        (goesOverResult_enclosed (argumentHypothesis (depth + 1)))
  | group inside insideHypothesis => exact goesOverResult_enclosed (insideHypothesis (depth + 1))
  | conditional test consequent alternate testHypothesis consequentHypothesis alternateHypothesis =>
      exact goesOverResult_append (testHypothesis depth)
        (goesOverResult_append question
          (goesOverResult_append (consequentHypothesis depth)
            (goesOverResult_append colon (alternateHypothesis depth))))
  | arrow parameter body bodyHypothesis =>
      exact goesOverResult_append (goesOverResult_word parameter depth)
        (goesOverResult_append (scans_result.arrow depth) (bodyHypothesis depth))
  | enclosedArrow parameter body bodyHypothesis =>
      exact goesOverResult_append (goesOverResult_enclosed (goesOverResult_word parameter (depth + 1)))
        (goesOverResult_append (scans_result.arrow depth) (bodyHypothesis depth))

/-! ## The first arrow -/

/-- How many characters behind the beginning of a text the first arrow outside its brackets begins, if
the search for a return type comes to one. -/
def Reaches (text : Text) (distance : Option Nat) : Prop :=
  ∀ room previous passed, text.length ≤ room →
    returnTypeLength? room 0 true previous passed text = distance.map (passed + ·)

namespace Reaches

variable {text rest : Text} {distance : Option Nat}

theorem behind (goes : GoesOverOperand true text) (reaches : Reaches rest distance) :
    Reaches (text ++ rest) (distance.map (text.length + ·)) := by
  intro room previous passed enough
  rw [List.length_append] at enough
  rw [goes _ _ _ _ (by omega), reaches _ _ _ (by omega), Option.map_map]
  exact congrArg (distance.map ·) (funext fun more => Nat.add_assoc passed text.length more)

/-- Behind a statement, or outside the brackets around it, nothing is looked for. -/
theorem ends {c : Char} (isEnd : c = ';' ∨ c = ')') : Reaches (c :: rest) none := by
  intro room previous passed enough
  obtain ⟨room, rfl⟩ : ∃ less, room = less + 1 := ⟨room - 1, by simp at enough; omega⟩
  rw [returnTypeLength?.eq_def]
  rcases isEnd with rfl | rfl <;> simp [opensType, Source.isOpener, closesType, Source.isCloser]

theorem arrow : Reaches (arrowMark ++ rest) (some 1) := by
  have blank : opensType ' ' = false ∧ Source.isCloser ' ' = false ∧ ' ' ≠ '>' := by decide
  have visible : ' ' ≠ '\x7b' ∧ ' ' ≠ ';' ∧ ' ' ≠ ',' ∧ ' ' ≠ '=' := by decide
  intro room previous passed enough
  obtain ⟨room, rfl⟩ : ∃ less, room = less + 2 := ⟨room - 2, by simp [arrowMark] at enough; omega⟩
  change returnTypeLength? (room + 1 + 1) 0 true previous passed (' ' :: '=' :: '>' :: ' ' :: rest) = _
  rw [returnTypeLength?_outside blank visible, returnTypeLength?.eq_def]
  simp

end Reaches

theorem goesOverOperand_mark {c : Char} (level : opensType c = false ∧ Source.isCloser c = false ∧ c ≠ '>')
    (visible : c ≠ '\x7b' ∧ c ≠ ';' ∧ c ≠ ',' ∧ c ≠ '=') : GoesOverOperand true [c] := by
  intro following room previous passed enough
  obtain ⟨room, rfl⟩ : ∃ less, room = less + 1 := ⟨room - 1, by simp at enough; omega⟩
  rw [List.singleton_append, returnTypeLength?_outside level visible, Bool.true_or]
  rfl

theorem goesOverOperand_word (word : Word) : GoesOverOperand true word.text := by
  have ofParts {parts : Text} (areParts : ∀ c ∈ parts, isWordPart c = true) :
      GoesOverOperand true parts := by
    induction parts with
    | nil => exact fun _ _ _ _ _ => rfl
    | cons c rest inductionHypothesis =>
        obtain ⟨level, visible⟩ := levels_of_isWordPart (areParts c List.mem_cons_self)
        exact goesOverOperand_append (goesOverOperand_mark level visible)
          (inductionHypothesis fun d member => areParts d (List.mem_cons_of_mem c member))
  exact ofParts word.parts

theorem goesOverOperand_enclosed {inside : Text} (goes : GoesOverResult 0 0 inside) :
    GoesOverOperand true (enclosed inside) :=
  goesOverOperand_bracketed rfl rfl (by decide) goes

/-- How many characters behind its beginning the first arrow outside the brackets of an expression
begins, or the first one of the text behind it, whose distance from the end of the expression is given. -/
def Expression.distance : Expression -> (beyond : Option Nat) -> Option Nat
  | name word, beyond => beyond.map (word.text.length + ·)
  | call callee argument, beyond => beyond.map ((callee.text ++ enclosed argument.text).length + ·)
  | group inside, beyond => beyond.map ((enclosed inside.text).length + ·)
  | conditional test consequent alternate, beyond =>
      let behindColon := (alternate.distance beyond).map (colonMark.length + ·)
      test.distance ((consequent.distance behindColon).map (questionMark.length + ·))
  | arrow parameter _, _ => some (parameter.text.length + 1)
  | enclosedArrow parameter _, _ => some ((enclosed parameter.text).length + 1)

namespace Reaches

variable {rest : Text} {distance : Option Nat}

theorem question (reaches : Reaches rest distance) :
    Reaches (questionMark ++ rest) (distance.map (questionMark.length + ·)) := by
  have blank : GoesOverOperand true [' '] := goesOverOperand_mark (by decide) (by decide)
  have mark : GoesOverOperand true ['?'] := goesOverOperand_mark (by decide) (by decide)
  exact behind (goesOverOperand_append blank (goesOverOperand_append mark blank)) reaches

theorem colon (reaches : Reaches rest distance) :
    Reaches (colonMark ++ rest) (distance.map (colonMark.length + ·)) := by
  have blank : GoesOverOperand true [' '] := goesOverOperand_mark (by decide) (by decide)
  have mark : GoesOverOperand true [':'] := goesOverOperand_mark (by decide) (by decide)
  exact behind (goesOverOperand_append blank (goesOverOperand_append mark blank)) reaches

theorem expression (expression : Expression) (reaches : Reaches rest distance) :
    Reaches (expression.text ++ rest) (expression.distance distance) := by
  induction expression generalizing rest distance with
  | name word => exact behind (goesOverOperand_word word) reaches
  | call callee argument _ =>
      exact behind (goesOverOperand_append (goesOverOperand_word callee)
        (goesOverOperand_enclosed (goesOverResult_text argument 0))) reaches
  | group inside _ => exact behind (goesOverOperand_enclosed (goesOverResult_text inside 0)) reaches
  | conditional test consequent alternate testHypothesis consequentHypothesis alternateHypothesis =>
      have ofAlternate := (alternateHypothesis reaches).colon
      have whole := testHypothesis (consequentHypothesis ofAlternate).question
      simpa [Expression.text, Expression.distance] using whole
  | arrow parameter body _ =>
      have whole := behind (goesOverOperand_word parameter) (@arrow (body.text ++ rest))
      simpa [Expression.text, Expression.distance] using whole
  | enclosedArrow parameter body _ =>
      have whole := behind (goesOverOperand_enclosed (goesOverResult_word parameter 0))
        (@arrow (body.text ++ rest))
      simpa [Expression.text, Expression.distance] using whole

end Reaches

/-! ## Behind a colon -/

theorem Expression.exists_cons (expression : Expression) :
    ∃ c rest, expression.text = c :: rest ∧ Character.isBlank c = false ∧ c ≠ '\x7b' ∧ c ≠ '=' := by
  have ofWord (word : Word) (more : Text) : ∃ c rest, word.text ++ more = c :: rest ∧
      Character.isBlank c = false ∧ c ≠ '\x7b' ∧ c ≠ '=' := by
    obtain ⟨c, rest, isWord⟩ := List.exists_cons_of_ne_nil word.nonempty
    have part := word.parts c (by rw [isWord]; exact List.mem_cons_self)
    exact ⟨c, rest ++ more, by rw [isWord]; rfl, isBlank_of_isWordPart part,
      ne_of_isWordPart part (by decide), ne_of_isWordPart part (by decide)⟩
  induction expression with
  | name word => simpa [text] using ofWord word []
  | call callee argument _ => exact ofWord callee _
  | group inside _ => exact ⟨'(', _, rfl, by decide, by decide, by decide⟩
  | conditional test consequent alternate testHypothesis _ _ =>
      obtain ⟨c, rest, isTest, visible⟩ := testHypothesis
      exact ⟨c, rest ++ _, by rw [text, isTest]; rfl, visible⟩
  | arrow parameter body _ => exact ofWord parameter _
  | enclosedArrow parameter body _ => exact ⟨'(', _, rfl, by decide, by decide, by decide⟩

/-- Whether something was read does not matter in front of an expression. -/
theorem returnTypeLength?_unseen {room passed : Nat} {previous : Option Char} {c : Char} {rest : Text}
    (visible : Character.isBlank c = false ∧ c ≠ '\x7b' ∧ c ≠ '=') :
    returnTypeLength? room 0 false previous passed (c :: rest) =
      returnTypeLength? room 0 true previous passed (c :: rest) := by
  obtain ⟨notBlank, notBrace, notEquals⟩ := visible
  cases room with
  | zero => rfl
  | succ room =>
      rw [returnTypeLength?.eq_def, returnTypeLength?.eq_def]
      simp [notBlank, notBrace, notEquals]

/-- The search for a return type behind a colon in front of an expression ends at the first arrow
outside the brackets, if there is room for it. -/
theorem returnTypeEnd?_expression (earlier : Text) (expression : Expression) {rest : Text}
    {distance : Option Nat} (reaches : Reaches rest distance) :
    returnTypeEnd? (earlier ++ ':' :: ' ' :: (expression.text ++ rest)) (earlier.length + 1) =
      ((expression.distance distance).filter (· + 1 < returnTypeRoom)).map
        (earlier.length + 2 + ·) := by
  have blank : opensType ' ' = false ∧ Source.isCloser ' ' = false ∧ ' ' ≠ '>' := by decide
  have visible : ' ' ≠ '\x7b' ∧ ' ' ≠ ';' ∧ ' ' ≠ ',' ∧ ' ' ≠ '=' := by decide
  have notSeen : (false || !Character.isBlank ' ') = false := by decide
  obtain ⟨c, others, begins, visibleFirst⟩ := expression.exists_cons
  have split : earlier ++ ':' :: ' ' :: (expression.text ++ rest) =
      (earlier ++ [':']) ++ ' ' :: (expression.text ++ rest) := by simp
  have start : earlier.length + 1 = (earlier ++ [':']).length := by simp
  rw [returnTypeEnd?, split, start, Text.previous_behind, List.drop_left, returnTypeRoom,
    returnTypeLength?_outside blank visible, notSeen, begins, List.cons_append,
    returnTypeLength?_unseen visibleFirst, ← List.cons_append, ← begins,
    returnTypeLength?_room (Nat.le_max_left 255 (expression.text ++ rest).length),
    reaches.expression expression _ _ _ (Nat.le_max_right _ _)]
  cases expression.distance distance with
  | none => rfl
  | some reached =>
      have sameRoom : (0 + 1 + reached < 0 + 1 + 255) = (reached + 1 < 256) := propext (by omega)
      simp only [Option.map_some, Option.filter, sameRoom]
      split
      · simp only [Option.map_some, List.length_append, List.length_singleton, Option.some.injEq]
        omega
      · rfl

end SceneBundler.Untyped
