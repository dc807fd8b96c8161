import SceneBundler.Proofs.Text.Pieces
import SceneBundler.Proofs.Untyped.Quiet
import SceneBundler.Proofs.Untyped.ReturnType

/-!
Contract: which expressions of the plain language the pass over signatures leaves alone.

Owns:
- what the pass makes of a pair of parentheses, by what stands behind them;
- that a colon of a conditional is taken for that of a return type just if it stands behind parentheses
  and an arrow follows within the room of a return type, outside all brackets opened in between;
- an expression that is its own normal form, and one that is not.

Does not own: expressions beyond words, calls, parentheses, conditionals and arrow functions.
-/

namespace SceneBundler.Untyped

open Dialect
open Edit (Removes)
open Source (BracketPairs)
open Source.BracketPairs (Pairs)
open Typed (Stands)

/-! ## Parameters -/

theorem exists_offset_of_mem_slice {text : Text} {start stop : Nat} {c : Char}
    (member : c ∈ Text.slice text start stop) :
    ∃ offset, start ≤ offset ∧ offset < stop ∧ text[offset]? = some c := by
  obtain ⟨more, isThere⟩ := List.mem_iff_getElem?.mp member
  rw [Text.slice, List.getElem?_take] at isThere
  split at isThere
  next inside =>
    rw [List.getElem?_drop] at isThere
    exact ⟨start + more, by omega, by omega, isThere⟩
  next => contradiction

/-- An item that consists of a word's characters has no edits. -/
theorem parameterEdits_eq_nil {masked other : Text} {start stop : Nat}
    (parts : ∀ offset c, start ≤ offset → offset < stop → masked[offset]? = some c → isWordPart c = true) :
    parameterEdits masked (BracketPairs.ofText other) (start, stop) = [] := by
  have begins := @le_skip masked isLayout start
  have noModifier :
      parameterModifier.matchWithin? masked (Text.skip isLayout masked start) stop = none := by
    refine Pattern.find_eq_none fun next reads => ?_
    obtain ⟨_, ⟨middle, keyword, gap⟩, _⟩ := reads
    obtain ⟨word, passesWord⟩ := Pattern.passes_of_reads keyword
    obtain ⟨blanks, areBlank, enough, passesBlanks⟩ := Pattern.passes_of_reads_run gap
    obtain ⟨c, more, rfl⟩ := List.exists_cons_of_length_pos enough
    have isAhead := passesWord.ahead_eq
    rw [passesBlanks.ahead_eq] at isAhead
    have isIn : c ∈ Text.slice masked (Text.skip isLayout masked start) stop := by
      change c ∈ (Cursor.within masked (Text.skip isLayout masked start) stop).ahead
      rw [isAhead]
      exact List.mem_append_right _ List.mem_cons_self
    obtain ⟨offset, after, before, isThere⟩ := exists_offset_of_mem_slice isIn
    have part := parts offset c (Nat.le_trans begins after) before isThere
    have blank := areBlank c List.mem_cons_self
    rw [isBlank_of_isWordPart part] at blank
    contradiction
  rw [List.eq_nil_iff_forall_not_mem]
  intro edit member
  cases isParameterEdit_of_mem member with
  | modifier _ isModifier =>
      rw [noModifier] at isModifier
      contradiction
  | @behind offset bound edit _ begins isBound isEdit =>
      have toBinding := begins.le
      have toBound := le_of_bindingEnd? isBound
      have dots := le_behindDots masked offset
      have afterBound : start ≤ edit.start := by
        have behind := isEdit.bounds.1
        omega
      cases isEdit with
      | mark before isMark => exact absurd (parts _ _ afterBound before isMark) (by decide)
      | ascription _ before isColon => exact absurd (parts _ _ afterBound before isColon) (by decide)

/-! ## Parentheses -/

/-- What stands behind an expression, whether it begins with a colon, and how far the first arrow outside
all brackets is: the colon of a conditional and its last branch, or the question mark of one, or the end
of the brackets around the expression or of the statement. -/
inductive Behind : (colon : Bool) -> (arrow : Option Nat) -> Text -> Prop where
  | ends {c : Char} {rest : Text} : c = ';' ∨ c = ')' -> Behind false none (c :: rest)
  | question {rest : Text} {distance : Option Nat} : Reaches rest distance ->
      Behind false (distance.map (questionMark.length + ·)) (questionMark ++ rest)
  | colon {alternate : Expression} {rest : Text} {distance : Option Nat} : Reaches rest distance ->
      Behind true ((alternate.distance distance).map (colonMark.length + ·))
        (colonMark ++ (alternate.text ++ rest))

/-- Whether a colon behind parentheses is taken for that of a return type: whether an arrow follows within
the room of a return type, given its distance from the parentheses. -/
def isTaken (colon : Bool) (arrow : Option Nat) : Bool :=
  colon && arrow.any (· < returnTypeRoom + 2)

section Parentheses

variable {colon : Bool} {arrow : Option Nat} {tail : Text}

theorem Behind.reaches (behind : Behind colon arrow tail) : Reaches tail arrow := by
  cases behind with
  | ends isEnd => exact Reaches.ends isEnd
  | question reaches => exact reaches.question
  | @colon alternate rest distance reaches => exact (reaches.expression alternate).colon

/-- A question mark behind parentheses is nothing that the pass knows. -/
theorem afterParameters_question (earlier rest : Text) {closed : Nat} (isClosed : closed + 1 = earlier.length) :
    afterParameters (earlier ++ (questionMark ++ rest)) closed = (none, .other) := by
  have skipped := @Text.skip_behind earlier isLayout [' '] ('?' :: ' ' :: rest)
    (Text.forall_mem_of_all (by decide)) rfl
  have split : earlier ++ (questionMark ++ rest) = (earlier ++ [' ']) ++ '?' :: ' ' :: rest := by
    simp [questionMark]
  have reached : earlier.length + [' '].length = (earlier ++ [' ']).length := by simp
  rw [split, afterParameters, isClosed]
  rw [List.append_assoc, skipped, ← List.append_assoc, reached, Text.getElem?_behind,
    if_neg (by decide), followerAt, Text.standsAt_behind, Text.getElem?_behind]
  rfl

/-- A colon behind parentheses is either nothing that the pass knows, or taken for that of a return type
in front of an arrow. -/
theorem afterParameters_colon (earlier : Text) (alternate : Expression) {rest : Text} {distance : Option Nat}
    (reaches : Reaches rest distance) {closed : Nat} (isClosed : closed + 1 = earlier.length)
    (noBrace : '\x7b' ∉ earlier ++ (colonMark ++ (alternate.text ++ rest))) :
    afterParameters (earlier ++ (colonMark ++ (alternate.text ++ rest))) closed =
      match (alternate.distance distance).filter (· + 1 < returnTypeRoom) with
      | none => (none, .other)
      | some reached =>
          (some ⟨earlier.length + 1, trimmedEnd (earlier ++ (colonMark ++ (alternate.text ++ rest)))
            (earlier.length + 1) (earlier.length + colonMark.length + reached)⟩, .arrow) := by
  have skipped := @Text.skip_behind earlier isLayout [' '] (':' :: ' ' :: (alternate.text ++ rest))
    (Text.forall_mem_of_all (by decide)) rfl
  have split : earlier ++ (colonMark ++ (alternate.text ++ rest)) =
      (earlier ++ [' ']) ++ ':' :: ' ' :: (alternate.text ++ rest) := by simp [colonMark]
  have reached : earlier.length + [' '].length = (earlier ++ [' ']).length := by simp
  have isEnd := returnTypeEnd?_expression (earlier ++ [' ']) alternate reaches
  rw [split] at noBrace ⊢
  rw [afterParameters, isClosed]
  rw [List.append_assoc, skipped, ← List.append_assoc, reached, Text.getElem?_behind, if_pos rfl]
  cases isArrow : (alternate.distance distance).filter (· + 1 < returnTypeRoom) with
  | none =>
      rw [isArrow, Option.map_none] at isEnd
      rw [isEnd]
  | some more =>
      rw [isArrow, Option.map_some] at isEnd
      have follows : followerAt ((earlier ++ [' ']) ++ ':' :: ' ' :: (alternate.text ++ rest))
          ((earlier ++ [' ']).length + 2 + more) = .arrow := by
        obtain ⟨following, isThere | isBrace⟩ := follows_of_returnTypeEnd? isEnd
        · rw [followerAt, Text.standsAt, isThere]
          rfl
        · have isIn : '\x7b' ∈ ((earlier ++ [' ']) ++ ':' :: ' ' :: (alternate.text ++ rest)).drop
              ((earlier ++ [' ']).length + 2 + more) := by
            rw [isBrace]
            exact List.mem_cons_self
          exact absurd (List.mem_of_mem_drop isIn) noBrace
      have sameStop : (earlier ++ [' ']).length + 2 + more = earlier.length + colonMark.length + more := by
        simp [colonMark]
      rw [isEnd]
      dsimp only
      rw [follows, sameStop, ← reached]
      rfl

/-- A span that begins with a character that is not blank keeps it when it is trimmed. -/
theorem lt_trimmedEnd {masked : Text} {start stop : Nat} {c : Char} (isThere : masked[start]? = some c)
    (visible : Character.isBlank c = false) (longer : start < stop) :
    start < trimmedEnd masked start stop := by
  obtain ⟨inside, isChar⟩ := List.getElem?_eq_some_iff.mp isThere
  obtain ⟨room, isRoom⟩ : ∃ room, stop - start = room + 1 := ⟨stop - start - 1, by omega⟩
  have begins : Text.slice masked start stop = c :: (masked.drop (start + 1)).take room := by
    rw [Text.slice, isRoom, List.drop_eq_getElem_cons inside, isChar, List.take_succ_cons]
  have kept : Text.trimEnd (Text.slice masked start stop) ≠ [] := by
    rw [begins, Text.trimEnd, ne_eq, List.reverse_eq_nil_iff, List.dropWhile_eq_nil_iff]
    intro allBlank
    have blank := allBlank c (List.mem_reverse.mpr List.mem_cons_self)
    rw [visible] at blank
    contradiction
  exact Nat.lt_add_of_pos_right (List.length_pos_iff.mpr kept)

theorem isTaken_colon (distance : Option Nat) :
    isTaken true (distance.map (colonMark.length + ·)) =
      (distance.filter (· + 1 < returnTypeRoom)).isSome := by
  have sameRoom (more : Nat) : (colonMark.length + more < returnTypeRoom + 2) = (more + 1 < returnTypeRoom) := by
    rw [returnTypeRoom, colonMark]
    exact propext (by simp only [List.length_cons, List.length_nil]; omega)
  cases distance with
  | none => rfl
  | some more => simp [isTaken, Option.isSome_filter, sameRoom]

variable {text : Text} {pair : Nat × Nat}

/-- The pass changes something behind a pair of parentheses just if it takes a colon there for that of a
return type. -/
theorem exists_removes_iff (pairs : BracketPairs) (noBrace : '\x7b' ∉ text) (stands : Stands text 0 pair tail)
    (behind : Behind colon arrow tail) :
    (∃ edit ∈ signatureEditsOf text pairs pair, edit.Removes text) ↔ isTaken colon arrow = true := by
  obtain ⟨before, inside, rfl, rfl⟩ := stands
  have split : before ++ '(' :: (inside ++ ')' :: tail) = (before ++ '(' :: (inside ++ [')'])) ++ tail := by
    simp
  have isClosed : 0 + before.length + 1 + inside.length + 1 = (before ++ '(' :: (inside ++ [')'])).length := by
    simp
    omega
  cases behind with
  | @ends c rest isEnd =>
      have followed := @Typed.afterParameters_call _ rest c isEnd _ isClosed
      rw [← split] at followed
      rw [signatureEditsOf_other followed]
      simp [isTaken]
  | @question rest distance reaches =>
      have followed := afterParameters_question _ rest isClosed
      rw [← split] at followed
      rw [signatureEditsOf_other followed]
      simp [isTaken]
  | @colon alternate rest distance reaches =>
      have followed := afterParameters_colon _ alternate reaches isClosed (split ▸ noBrace)
      rw [← split] at followed
      rw [isTaken_colon]
      cases isArrow : (alternate.distance distance).filter (· + 1 < returnTypeRoom) with
      | none =>
          rw [isArrow] at followed
          rw [signatureEditsOf_other followed]
          simp
      | some more =>
          rw [isArrow] at followed
          let masked := before ++ '(' :: (inside ++ ')' :: (colonMark ++ (alternate.text ++ rest)))
          let start := (before ++ '(' :: (inside ++ [')'])).length + 1
          let stop := (before ++ '(' :: (inside ++ [')'])).length + colonMark.length + more
          have isEdit : Edit.deletion start (trimmedEnd masked start stop) ∈ signatureEditsOf masked pairs
              (0 + before.length, 0 + before.length + 1 + inside.length) := by
            rw [signatureEditsOf_arrow followed]
            exact List.mem_append_right _ (List.mem_singleton_self _)
          have isColon : masked[start]? = some ':' := by
            have whole : masked = (before ++ '(' :: (inside ++ [')', ' '])) ++
                ':' :: ' ' :: (alternate.text ++ rest) := by simp [masked, colonMark]
            have isStart : start = (before ++ '(' :: (inside ++ [')', ' '])).length := by
              simp [start]
              omega
            rw [whole, isStart, Text.getElem?_behind]
          have longer : start < stop := by
            simp [start, stop, colonMark]
            omega
          refine iff_of_true ⟨_, isEdit, lt_trimmedEnd isColon (by decide) longer, ?_⟩ rfl
          exact (List.getElem?_eq_some_iff.mp isColon).1

/-- The parentheses around the bare parameter of an arrow function have no edits. -/
theorem signatureEditsOf_parameter (before following other : Text) (parameter : Word) :
    signatureEditsOf (before ++ '(' :: (parameter.text ++ ')' :: (arrowMark ++ following)))
      (BracketPairs.ofText other) (before.length, before.length + 1 + parameter.text.length) = [] := by
  let masked := before ++ '(' :: (parameter.text ++ ')' :: (arrowMark ++ following))
  have split : masked =
      (before ++ '(' :: (parameter.text ++ [')'])) ++ ' ' :: '=' :: '>' :: ' ' :: following := by
    simp [masked, arrowMark]
  have followed : afterParameters masked (before.length + 1 + parameter.text.length) = (none, .arrow) := by
    rw [split]
    exact Typed.afterParameters_arrow _ following (by simp; omega)
  have parts : ∀ offset c, before.length + 1 ≤ offset → offset < before.length + 1 + parameter.text.length →
      masked[offset]? = some c → isWordPart c = true := by
    intro offset c after inside isThere
    have whole : masked = (before ++ ['(']) ++ (parameter.text ++ ')' :: (arrowMark ++ following)) := by
      simp [masked]
    have opened : (before ++ ['(']).length = before.length + 1 := List.length_append
    rw [whole, List.getElem?_append_right (by omega), List.getElem?_append_left (by omega)] at isThere
    exact parameter.parts c (List.mem_of_getElem? isThere)
  change signatureEditsOf masked _ _ = []
  rw [signatureEditsOf_arrow followed, Option.map_none, Option.toList_none, List.append_nil,
    List.flatMap_eq_nil_iff]
  intro item isItem
  have within := bounds_of_mem_splitTopLevel (Nat.le_add_right _ _) isItem
  exact parameterEdits_eq_nil fun offset c after inside isThere =>
    parts offset c (by omega) (by omega) isThere

end Parentheses

/-! ## Expressions -/

namespace Expression

/-- The parentheses of an expression that is written at an offset. -/
def pairs : Expression -> (offset : Nat) -> BracketPairs
  | name _, _ => []
  | call callee argument, offset =>
      let opened := offset + callee.text.length
      (opened, opened + 1 + argument.text.length) :: argument.pairs (opened + 1)
  | group inside, offset =>
      (offset, offset + 1 + inside.text.length) :: inside.pairs (offset + 1)
  | conditional test consequent alternate, offset =>
      let second := offset + test.text.length + questionMark.length
      let third := second + consequent.text.length + colonMark.length
      alternate.pairs third ++ (consequent.pairs second ++ test.pairs offset)
  | arrow parameter body, offset =>
      body.pairs (offset + parameter.text.length + arrowMark.length)
  | enclosedArrow parameter body, offset =>
      body.pairs (offset + (enclosed parameter.text).length + arrowMark.length) ++
        [(offset, offset + 1 + parameter.text.length)]

theorem pairs_word (word : Word) (offset : Nat) : Pairs .round word.text offset [] :=
  Pairs.of_unmarked (word.not_mem (by decide)) (word.not_mem (by decide)) offset

theorem pairs_text (expression : Expression) (offset : Nat) :
    Pairs .round expression.text offset (expression.pairs offset) := by
  have unmarked {mark : Text} (noOpener : '(' ∉ mark) (noCloser : ')' ∉ mark) (offset : Nat) :
      Pairs .round mark offset [] := Pairs.of_unmarked noOpener noCloser offset
  induction expression generalizing offset with
  | name word => exact pairs_word word offset
  | call callee argument argumentHypothesis =>
      have whole := (pairs_word callee offset).append (argumentHypothesis _).enclosed
      rwa [List.append_nil] at whole
  | group inside insideHypothesis => exact (insideHypothesis _).enclosed
  | conditional test consequent alternate testHypothesis consequentHypothesis alternateHypothesis =>
      have question := @unmarked questionMark (by decide) (by decide)
      have colon := @unmarked colonMark (by decide) (by decide)
      have whole := (testHypothesis offset).append ((question _).append
        ((consequentHypothesis _).append ((colon _).append (alternateHypothesis _))))
      simpa [text, pairs] using whole
  | arrow parameter body bodyHypothesis =>
      have arrow := @unmarked arrowMark (by decide) (by decide)
      have whole := (pairs_word parameter offset).append ((arrow _).append (bodyHypothesis _))
      simpa [text, pairs] using whole
  | enclosedArrow parameter body bodyHypothesis =>
      have arrow := @unmarked arrowMark (by decide) (by decide)
      have whole := (pairs_word parameter (offset + 1)).enclosed.append ((arrow _).append (bodyHypothesis _))
      rwa [List.append_nil] at whole

/-- Whether none of the colons of an expression is taken for that of a return type, given whether a colon
stands behind the expression and how far from its end the first arrow outside all brackets is. -/
def keepsColons : Expression -> (colon : Bool) -> (beyond : Option Nat) -> Bool
  | name _, _, _ => true
  | call _ argument, colon, beyond => argument.keepsColons false none && !isTaken colon beyond
  | group inside, colon, beyond => inside.keepsColons false none && !isTaken colon beyond
  | conditional test consequent alternate, colon, beyond =>
      let behindColon := (alternate.distance beyond).map (colonMark.length + ·)
      let behindQuestion := (consequent.distance behindColon).map (questionMark.length + ·)
      test.keepsColons false behindQuestion && consequent.keepsColons true behindColon &&
        alternate.keepsColons colon beyond
  | arrow _ body, colon, beyond => body.keepsColons colon beyond
  | enclosedArrow _ body, colon, beyond => body.keepsColons colon beyond

/-- Whether the pass changes something because of a pair of parentheses. -/
def Touches (text : Text) (pair : Nat × Nat) : Prop :=
  ∃ edit ∈ signatureEditsOf text (BracketPairs.ofText text) pair, edit.Removes text

theorem exists_touches_append {text : Text} {first second : BracketPairs} :
    (∃ pair ∈ first ++ second, Touches text pair) ↔
      (∃ pair ∈ first, Touches text pair) ∨ ∃ pair ∈ second, Touches text pair := by
  simp only [List.mem_append, or_and_right, exists_or]

/-- The pass changes parentheses around an expression just if it changes the expression, or takes a colon
behind them for that of a return type. -/
theorem exists_touches_enclosed_iff {text passed tail : Text} {colon : Bool} {beyond : Option Nat}
    {inside : Expression} (noBrace : '\x7b' ∉ text)
    (ofInside : ∀ {passed tail : Text} {colon : Bool} {beyond : Option Nat},
      text = passed ++ (inside.text ++ tail) → Behind colon beyond tail →
        ((∃ pair ∈ inside.pairs passed.length, Touches text pair) ↔ inside.keepsColons colon beyond = false))
    (split : text = passed ++ '(' :: (inside.text ++ ')' :: tail)) (behind : Behind colon beyond tail) :
    (∃ pair ∈ (passed.length, passed.length + 1 + inside.text.length) :: inside.pairs (passed.length + 1),
        Touches text pair) ↔
      (inside.keepsColons false none && !isTaken colon beyond) = false := by
  have opened : passed.length + 1 = (passed ++ ['(']).length := by simp
  have within := @ofInside (passed ++ ['(']) (')' :: tail) false none (by simp [split])
    (Behind.ends (Or.inr rfl))
  have stands : Stands text 0 (passed.length, passed.length + 1 + inside.text.length) tail :=
    ⟨passed, inside.text, split, by rw [Nat.zero_add]⟩
  have outer := exists_removes_iff (BracketPairs.ofText text) noBrace stands behind
  rw [List.exists_mem_cons_iff, or_comm, Bool.and_eq_false_iff, Bool.not_eq_false']
  exact or_congr (opened ▸ within) outer

/-- The pass leaves the parentheses around the bare parameter of an arrow function as they are. -/
theorem not_touches_parameter {text passed following : Text} (parameter : Word)
    (split : text = passed ++ '(' :: (parameter.text ++ ')' :: (arrowMark ++ following))) :
    ¬Touches text (passed.length, passed.length + 1 + parameter.text.length) := by
  rintro ⟨edit, isEdit, -⟩
  have noEdits := signatureEditsOf_parameter passed following text parameter
  rw [← split] at noEdits
  rw [noEdits] at isEdit
  contradiction

/-- The pass changes an expression just if one of its colons is taken for that of a return type. -/
theorem exists_touches_iff {text passed tail : Text} {colon : Bool} {beyond : Option Nat}
    (expression : Expression) (noBrace : '\x7b' ∉ text) (split : text = passed ++ (expression.text ++ tail))
    (behind : Behind colon beyond tail) :
    (∃ pair ∈ expression.pairs passed.length, Touches text pair) ↔
      expression.keepsColons colon beyond = false := by
  induction expression generalizing passed tail colon beyond with
  | name word => simp [pairs, keepsColons]
  | call callee argument argumentHypothesis =>
      have called := @exists_touches_enclosed_iff _ (passed ++ callee.text) tail colon beyond argument noBrace
        argumentHypothesis (by simp [split, Expression.text, enclosed]) behind
      rwa [List.length_append] at called
  | group inside insideHypothesis =>
      exact exists_touches_enclosed_iff noBrace insideHypothesis (by simp [split, Expression.text, enclosed]) behind
  | conditional test consequent alternate testHypothesis consequentHypothesis alternateHypothesis =>
      have ofAlternate := @alternateHypothesis
        (passed ++ (test.text ++ (questionMark ++ (consequent.text ++ colonMark)))) tail colon beyond
        (by simp [split, Expression.text]) behind
      have ofConsequent := @consequentHypothesis (passed ++ (test.text ++ questionMark))
        (colonMark ++ (alternate.text ++ tail)) true _ (by simp [split, Expression.text])
        (Behind.colon behind.reaches)
      have behindColon := (behind.reaches.expression alternate).colon
      have ofTest := @testHypothesis passed
        (questionMark ++ (consequent.text ++ (colonMark ++ (alternate.text ++ tail)))) false _
        (by simp [split, Expression.text]) (Behind.question (behindColon.expression consequent))
      have second : passed.length + test.text.length + questionMark.length =
          (passed ++ (test.text ++ questionMark)).length := by simp [Nat.add_assoc]
      have third : passed.length + test.text.length + questionMark.length + consequent.text.length +
          colonMark.length =
            (passed ++ (test.text ++ (questionMark ++ (consequent.text ++ colonMark)))).length := by
        simp [Nat.add_assoc]
      rw [pairs, third, second, exists_touches_append, exists_touches_append, keepsColons,
        Bool.and_eq_false_iff, Bool.and_eq_false_iff]
      exact (or_congr ofAlternate (or_congr ofConsequent ofTest)).trans
        (or_comm.trans (or_congr_left or_comm))
  | arrow parameter body bodyHypothesis =>
      have ofBody := @bodyHypothesis (passed ++ (parameter.text ++ arrowMark)) tail colon beyond
        (by simp [split, Expression.text]) behind
      simpa [pairs, keepsColons, Nat.add_assoc] using ofBody
  | enclosedArrow parameter body bodyHypothesis =>
      have ofBody := @bodyHypothesis (passed ++ (enclosed parameter.text ++ arrowMark)) tail colon beyond
        (by simp [split, Expression.text]) behind
      have untouched := @not_touches_parameter text passed (body.text ++ tail) parameter
        (by simp [split, Expression.text, enclosed])
      have reached : passed.length + (enclosed parameter.text).length + arrowMark.length =
          (passed ++ (enclosed parameter.text ++ arrowMark)).length := by simp [Nat.add_assoc]
      rw [pairs, reached, exists_touches_append, keepsColons]
      exact (or_iff_left (by simpa using untouched)).trans ofBody

/-- The parentheses of a statement are those of its expression. -/
theorem ofKind_statement (expression : Expression) :
    BracketPairs.ofKind .round [] 0 expression.statement [] = expression.pairs 4 := by
  have lead : Pairs .round ['v', ' ', '=', ' '] 0 [] :=
    Pairs.of_unmarked (by decide) (by decide) 0
  have ending := @Pairs.of_unmarked .round [';', '\n'] (by decide) (by decide)
  have whole := lead.append ((expression.pairs_text _).append (ending _))
  have isStatement : ['v', ' ', '=', ' '] ++ (expression.text ++ [';', '\n']) = expression.statement := by
    simp [statement, line]
  rw [isStatement, List.append_nil, List.nil_append] at whole
  exact whole.eq_ofKind

/-- A statement that gives the value of an expression to a variable is its own normal form, and nothing
of it is reported, just if none of the colons in it is taken for that of a return type. -/
theorem normalize_statement (expression : Expression) :
    normalize expression.statement = (expression.statement, []) ↔
      expression.keepsColons false none = true := by
  have noBrace : '\x7b' ∉ expression.statement := expression.not_mem_statement (by decide) (by decide)
  have split : expression.statement = ['v', ' ', '=', ' '] ++ (expression.text ++ ';' :: ['\n']) := by
    simp [statement, line]
  have touches := exists_touches_iff expression noBrace split (Behind.ends (Or.inl rfl))
  rw [normalize_statement_iff, IsSettled, editOnce, expression.mask_statement,
    Edit.applyAll_eq_self_iff isDeletion_signatureEdits, ← Bool.not_eq_false, ← touches, signatureEdits,
    ofKind_statement]
  constructor
  · rintro idle ⟨pair, isPair, edit, isEdit, removes⟩
    exact idle edit (List.mem_flatMap.mpr ⟨pair, isPair, isEdit⟩) removes
  · intro untouched edit member removes
    obtain ⟨pair, isPair, isEdit⟩ := List.mem_flatMap.mp member
    exact untouched ⟨pair, isPair, edit, isEdit, removes⟩

end Expression

/-- A conditional between a value in parentheses and an arrow function: its colon is taken for that of a
return type, and deleted with the parameter of the function. -/
theorem normalize_conditionalArrow :
    normalize "v = a ? (b) : c => d;\n".toList = ("v = a ? (b)  => d;\n".toList, []) := by
  decide

end SceneBundler.Untyped
