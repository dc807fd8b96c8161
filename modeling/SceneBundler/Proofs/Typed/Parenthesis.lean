import SceneBundler.Proofs.Dialect.Deletion
import SceneBundler.Proofs.Typed.Slots

/-!
Contract: pairs of parentheses as the pass over signatures reads them.

Owns:
- that the type of a result is read to its end;
- that the parentheses of a call have no edits;
- that the edits of a function type begin within its parentheses;
- that the edits of a function delete the marks and types of its parameters and the type of its result.

Does not own: which parentheses a program has.
-/

namespace SceneBundler.Typed

open Dialect
open Source (BracketPairs isOpener isCloser)

/-! ## Results -/

/-- Without its type arguments a phrase is no longer than with them. -/
theorem Phrase.length_text_le {plain : Bool} {kind : Kind} (phrase : Phrase plain kind) :
    (phrase.text false).length ≤ (phrase.text true).length := by
  induction phrase <;> simp only [Phrase.text, angled, List.length_append, List.length_cons,
    List.length_nil, Bool.false_eq_true, if_false, if_true] <;> omega

theorem goesOverResult_nested {text : Text} (nested : Nested (innerMark false) (innerMark false) text)
    (depth : Nat) : GoesOverResult depth depth text := by
  have goesMark (depth : Nat) {c : Char} (isMark : innerMark false c = true) :
      GoesOverResult depth depth [c] := by
    obtain ⟨notOpener, notCloser, notAngle⟩ := levels_of_innerMark isMark
    exact goesOverResult_mark depth notOpener notCloser notAngle
  exact nested.goes scans_result (fun depth _ => goesMark (depth + 1)) fun _ => goesMark depth

/-- The step of the scanner for return types outside brackets. -/
theorem returnTypeLength?_outside {c : Char} (level : opensType c = false ∧ isCloser c = false ∧ c ≠ '>')
    (visible : c ≠ '\x7b' ∧ c ≠ ';' ∧ c ≠ ',' ∧ c ≠ '=') (room : Nat) (seen : Bool) (previous : Option Char)
    (passed : Nat) (rest : Text) :
    returnTypeLength? (room + 1) 0 seen previous passed (c :: rest) =
      returnTypeLength? room 0 (seen || !Character.isBlank c) (some c) (passed + 1) rest := by
  obtain ⟨notOpener, notCloser, notAngle⟩ := level
  obtain ⟨notBrace, notSemicolon, notComma, notEquals⟩ := visible
  have closesNot : closesType previous c = false := by simp [closesType, notCloser, notAngle]
  exact returnTypeLength?_passes (.goesOn notOpener closesNot)
    (fun _ => ⟨notSemicolon, notComma, notEquals, fun isBrace => absurd isBrace notBrace⟩) room passed

/-- Going over a text outside all brackets, of which something is read. -/
def GoesOverOperand (seen : Bool) (text : Text) : Prop :=
  ∀ following room previous passed, text.length ≤ room →
    returnTypeLength? room 0 seen previous passed (text ++ following) =
      returnTypeLength? (room - text.length) 0 true (text.getLast?.or previous)
        (passed + text.length) following

theorem goesOverOperand_append {seen : Bool} {first second : Text} (goesFirst : GoesOverOperand seen first)
    (goesSecond : GoesOverOperand true second) : GoesOverOperand seen (first ++ second) := by
  intro following room previous passed enough
  rw [List.length_append] at enough ⊢
  rw [List.append_assoc, goesFirst _ _ _ _ (by omega), goesSecond _ _ _ _ (by omega),
    List.getLast?_append, Option.or_assoc, Nat.sub_sub, Nat.add_assoc]

theorem goesOverOperand_part {c : Char} (part : isNamePart c = true) (seen : Bool) :
    GoesOverOperand seen [c] := by
  intro following room previous passed enough
  obtain ⟨room, rfl⟩ : ∃ less, room = less + 1 := ⟨room - 1, by simp at enough; omega⟩
  have level := levels_of_innerMark (innerMark_of_outerMark (outerMark_of_isNamePart part))
  have different := ne_of_isNamePart part
  rw [List.singleton_append, returnTypeLength?_outside level ⟨different '\x7b' (by decide),
    different ';' (by decide), different ',' (by decide), different '=' (by decide)⟩,
    isBlank_of_isNamePart part, Bool.not_false, Bool.or_true]
  rfl

theorem goesOverOperand_name (name : Name) : GoesOverOperand false name.text := by
  have goesParts {word : Text} (parts : ∀ c ∈ word, isNamePart c = true) : GoesOverOperand true word := by
    induction word with
    | nil => exact fun _ _ _ _ _ => rfl
    | cons c rest inductionHypothesis =>
        exact goesOverOperand_append (goesOverOperand_part (parts c List.mem_cons_self) true)
          (inductionHypothesis fun d member => parts d (List.mem_cons_of_mem c member))
  exact goesOverOperand_append (goesOverOperand_part (isNamePart_of_start name.starts) false)
    (goesParts name.parts)

/-- A brace is a type only where nothing was read before it. -/
theorem goesOverOperand_bracketed {opener closer : Char} {inside : Text} {seen : Bool}
    (opens : isOpener opener = true) (closes : isCloser closer = true)
    (fresh : opener = '\x7b' → seen = false) (goes : GoesOverResult 0 0 inside) :
    GoesOverOperand seen (opener :: (inside ++ [closer])) := by
  intro following room previous passed enough
  rw [List.length_cons, List.length_append, List.length_singleton] at enough ⊢
  obtain ⟨room, rfl⟩ : ∃ less, room = less + 1 := ⟨room - 1, by omega⟩
  obtain ⟨left, isLeft⟩ : ∃ left, room - inside.length = left + 1 := ⟨room - inside.length - 1, by omega⟩
  have level : opensType opener = true ∧ Character.isBlank opener = false ∧ opener ≠ '=' ∧ opener ≠ ';' ∧
      opener ≠ ',' := by
    simp only [isOpener, Bool.or_eq_true, beq_iff_eq] at opens
    rcases opens with (rfl | rfl) | rfl <;> decide
  obtain ⟨opensHere, visible, notEquals, notSemicolon, notComma⟩ := level
  have opened : returnTypeLength? (room + 1) 0 seen previous passed
      (opener :: (inside ++ closer :: following)) =
        returnTypeLength? room 1 true (some opener) (passed + 1) (inside ++ closer :: following) := by
    rw [returnTypeLength?_passes (.opens opensHere) (fun _ => ⟨notSemicolon, notComma, notEquals, fresh⟩), visible,
      Bool.not_false, Bool.or_true]
  have closesHere (before : Option Char) : closesType before closer = true := by simp [closesType, closes]
  have split : opener :: (inside ++ [closer]) ++ following = opener :: (inside ++ closer :: following) := by
    simp
  have last : (opener :: (inside ++ [closer])).getLast?.or previous = some closer := by
    rw [← List.cons_append, List.getLast?_concat]
    rfl
  have reached : passed + 1 + inside.length + 1 = passed + (inside.length + 1 + 1) := by omega
  have remaining : room + 1 - (inside.length + 1 + 1) = left := by omega
  rw [split, opened, goes _ _ _ _ (by omega), isLeft,
    returnTypeLength?_inside (.closes (opensType_of_isCloser closes) (closesHere _)), last, reached, remaining]

/-- A type that an array can be formed of is read to its end. -/
theorem Phrase.goesOverOperand {plain : Bool} {kind : Kind} (phrase : Phrase plain kind)
    (isOperand : phrase.isOperand = true) : GoesOverOperand false (phrase.text false) := by
  induction phrase with
  | named name => exact goesOverOperand_name name
  | array element elementHypothesis =>
      exact goesOverOperand_append (elementHypothesis isOperand)
        (@goesOverOperand_bracketed '[' ']' [] true rfl rfl (by decide) (scans_result.stays 0))
  | emptyTuple => exact @goesOverOperand_bracketed '[' ']' [] false rfl rfl (by decide) (scans_result.stays 0)
  | tuple items _ =>
      have nested := (items.nested false).mono fun c => innerMark_of_markOf
      exact goesOverOperand_bracketed rfl rfl (by decide) (goesOverResult_nested nested 0)
  | object fields _ =>
      have blank : innerMark false ' ' = true := by decide
      have nested := (fields.nested false).mono fun c => innerMark_of_markOf
      have inside : Nested (innerMark false) (innerMark false) (' ' :: (fields.text false ++ [' '])) :=
        Nested.mark blank (nested.append (Nested.mark blank Nested.nil))
      have goes := @goesOverOperand_bracketed '\x7b' '\x7d' _ false rfl rfl (fun _ => rfl)
        (goesOverResult_nested inside 0)
      simpa [Phrase.text] using goes
  | generic name arguments _ => simpa [Phrase.text, angled] using goesOverOperand_name name
  | union | function | last | more | lastField | moreFields => contradiction

theorem Result.isOperand (result : Result) : result.type.isOperand = true := by
  have ofForm {plain : Bool} {kind : Kind} (phrase : Phrase plain kind) (form : phrase.isResult = true) :
      phrase.isOperand = true := by
    cases phrase with
    | named | generic => rfl
    | array element => exact form
    | union | emptyTuple | tuple | object | function | last | more | lastField | moreFields => contradiction
  exact ofForm result.type result.form

section Followers

variable (passed following : Text)

/-- The type of a result ends in front of the body of its function. -/
theorem returnTypeEnd?_result (result : Result) :
    returnTypeEnd? (passed ++ (ascription false result.type ++ ' ' :: '\x7b' :: following))
        (passed.length + 1) =
      some (passed.length + (ascription false result.type ++ [' ']).length) := by
  have short : (result.type.text false).length < 250 :=
    Nat.lt_of_le_of_lt result.type.length_text_le result.short
  have split : passed ++ (ascription false result.type ++ ' ' :: '\x7b' :: following) =
      (passed ++ [':']) ++ (' ' :: (result.type.text false ++ ' ' :: '\x7b' :: following)) := by
    simp [ascription]
  have start : passed.length + 1 = (passed ++ [':']).length := by simp
  obtain ⟨left, isLeft⟩ : ∃ left, 255 - (result.type.text false).length = left + 2 :=
    ⟨255 - (result.type.text false).length - 2, by omega⟩
  have body (room : Nat) (previous : Option Char) (reached : Nat) :
      returnTypeLength? (room + 1) 0 true previous reached ('\x7b' :: following) = some reached := by
    rw [returnTypeLength?.eq_def]
    simp
  have blank : opensType ' ' = false ∧ isCloser ' ' = false ∧ ' ' ≠ '>' := by decide
  have visible : ' ' ≠ '\x7b' ∧ ' ' ≠ ';' ∧ ' ' ≠ ',' ∧ ' ' ≠ '=' := by decide
  have notSeen : (false || !Character.isBlank ' ') = false := by decide
  rw [returnTypeEnd?, split, start, Text.previous_behind, List.drop_left, returnTypeRoom,
    returnTypeLength?_outside blank visible, notSeen,
    result.type.goesOverOperand result.isOperand _ _ _ _ (by omega), isLeft,
    returnTypeLength?_outside blank visible, Bool.true_or, body, Option.map_some]
  simp [ascription]
  omega

/-- Behind its parameters, a function has the type of its result, if any, and its body. -/
theorem afterParameters_function (result : Option Result) {closed : Nat}
    (isClosed : closed + 1 = passed.length) :
    afterParameters (passed ++ (ascribed false (result.map Result.type) ++ ' ' :: '\x7b' :: following))
        closed =
      (result.map fun result =>
        ⟨passed.length, passed.length + (ascription false result.type).length⟩, .brace) := by
  have brace (earlier : Text) : followerAt (earlier ++ '\x7b' :: following) earlier.length = .brace := by
    rw [followerAt, Text.standsAt_behind, Text.getElem?_behind]
    rfl
  cases result with
  | none =>
      have skipped := @Text.skip_behind passed isLayout [' '] ('\x7b' :: following)
        (Text.forall_mem_of_all (by decide)) rfl
      have split : passed ++ ([' '] ++ '\x7b' :: following) = (passed ++ [' ']) ++ '\x7b' :: following := by
        simp
      have reached : passed.length + [' '].length = (passed ++ [' ']).length := by simp
      rw [split, reached] at skipped
      change afterParameters (passed ++ ([' '] ++ '\x7b' :: following)) closed = _
      rw [afterParameters, isClosed, split, skipped]
      rw [Text.getElem?_behind, if_neg (by decide), brace]
      rfl
  | some result =>
      have skipped := @Text.skip_eq_self passed isLayout
        (ascription false result.type ++ ' ' :: '\x7b' :: following) rfl
      have isColon : (passed ++ (ascription false result.type ++ ' ' :: '\x7b' :: following))[passed.length]? =
          some ':' := Text.getElem?_behind passed _ ':'
      have trimmed := @trimmedEnd_ascription passed result.type [' '] (by decide) ('\x7b' :: following)
      have split : passed ++ (ascription false result.type ++ [' '] ++ '\x7b' :: following) =
          passed ++ (ascription false result.type ++ ' ' :: '\x7b' :: following) := by simp
      have behind := brace (passed ++ (ascription false result.type ++ [' ']))
      rw [split] at trimmed
      rw [List.append_assoc, split, List.length_append] at behind
      change afterParameters (passed ++ (ascription false result.type ++ ' ' :: '\x7b' :: following)) closed = _
      rw [afterParameters, isClosed, skipped]
      rw [isColon, if_pos rfl, returnTypeEnd?_result]
      dsimp only
      rw [trimmed, behind]
      rfl

/-- Behind the parameter of a function type stands an arrow. -/
theorem afterParameters_arrow {closed : Nat} (isClosed : closed + 1 = passed.length) :
    afterParameters (passed ++ ' ' :: '=' :: '>' :: ' ' :: following) closed = (none, .arrow) := by
  have skipped := @Text.skip_behind passed isLayout [' '] ('=' :: '>' :: ' ' :: following)
        (Text.forall_mem_of_all (by decide)) rfl
  have split : passed ++ ([' '] ++ '=' :: '>' :: ' ' :: following) =
      (passed ++ [' ']) ++ '=' :: '>' :: ' ' :: following := by
    simp
  have reached : passed.length + [' '].length = (passed ++ [' ']).length := by simp
  rw [split, reached] at skipped
  change afterParameters (passed ++ ([' '] ++ '=' :: '>' :: ' ' :: following)) closed = _
  rw [afterParameters, isClosed, split, skipped]
  rw [Text.getElem?_behind, if_neg (by decide), followerAt, Text.standsAt_behind]
  rfl

/-- Behind the value of a call stands the end of the call around it, or of the statement. -/
theorem afterParameters_call {c : Char} (ends : c = ';' ∨ c = ')') {closed : Nat}
    (isClosed : closed + 1 = passed.length) :
    afterParameters (passed ++ c :: following) closed = (none, .other) := by
  have skipped := @Text.skip_eq_self passed isLayout (c :: following)
    (by rcases ends with rfl | rfl <;> rfl)
  have isThere := Text.getElem?_behind passed following c
  rw [afterParameters, isClosed, skipped]
  rw [isThere, followerAt, Text.standsAt_behind, isThere]
  rcases ends with rfl | rfl <;> rfl

end Followers

/-! ## Edits -/

section Edits

variable (pairs : BracketPairs)

/-- The parentheses of a call have no edits. -/
theorem signatureEditsOf_call {text : Text} {pair : Nat × Nat} {c : Char} {after : Text}
    (ends : c = ';' ∨ c = ')') (stands : Stands text 0 pair (c :: after)) :
    signatureEditsOf text pairs pair = [] := by
  obtain ⟨before, inside, rfl, rfl⟩ := stands
  have split : before ++ '(' :: (inside ++ ')' :: c :: after) =
      (before ++ '(' :: (inside ++ [')'])) ++ c :: after := by simp
  have followed := @afterParameters_call (before ++ '(' :: (inside ++ [')'])) after c ends
    (0 + before.length + 1 + inside.length) (by simp; omega)
  rw [← split] at followed
  exact signatureEditsOf_other followed

/-- The edits of a function type begin within its parentheses. -/
theorem bounds_of_mem_arrow {text other : Text} {pair : Nat × Nat} (stands : StandsBeforeArrow text 0 pair)
    {edit : Edit} (member : edit ∈ signatureEditsOf text (BracketPairs.ofText other) pair) :
    pair.1 < edit.start ∧ edit.start < pair.2 := by
  obtain ⟨after, before, inside, rfl, rfl⟩ := stands
  have split : before ++ '(' :: (inside ++ ')' :: ' ' :: '=' :: '>' :: ' ' :: after) =
      (before ++ '(' :: (inside ++ [')'])) ++ ' ' :: '=' :: '>' :: ' ' :: after := by simp
  have followed := @afterParameters_arrow (before ++ '(' :: (inside ++ [')'])) after
    (0 + before.length + 1 + inside.length) (by simp; omega)
  rw [← split] at followed
  rw [signatureEditsOf_arrow followed, Option.map_none, Option.toList_none, List.append_nil] at member
  obtain ⟨item, isItem, isEdit⟩ := List.mem_flatMap.mp member
  have within := bounds_of_mem_splitTopLevel (Nat.le_add_right _ _) isItem
  have ⟨begins, ends, _⟩ := liesWithin_of_mem_parameterEdits isEdit
  dsimp only
  omega

end Edits

section Functions

variable (passed following : Text) (name : Name)

/-- The character in front of the parentheses of a function, and the word that it ends. -/
theorem previousSignificant?_name :
    ∃ c, Source.previousSignificant? (passed ++ name.text ++ following) (passed ++ name.text).length =
        some (c, (passed ++ name.text).length - 1) ∧ Character.continuesName c = true := by
  obtain ⟨c, isLast, part⟩ := name.exists_getLast?
  obtain ⟨others, isName⟩ := List.getLast?_eq_some_iff.mp isLast
  refine ⟨c, ?_, continuesName_of_isNamePart part⟩
  have reversed : (passed ++ name.text).reverse = c :: (passed ++ others).reverse := by
    rw [isName, ← List.append_assoc, List.reverse_concat]
  have visible := isBlank_of_isNamePart part
  rw [Source.previousSignificant?, List.take_left, reversed,
    List.dropWhile_cons_of_neg (by simp [visible])]
  simp [isName, Nat.add_comm]

theorem wordEndingAt_name (apart : passed.getLast?.any Character.continuesName = false) :
    wordEndingAt (passed ++ name.text ++ following) ((passed ++ name.text).length - 1) = name.text := by
  have reached : (passed ++ name.text).length - 1 + 1 = (passed ++ name.text).length :=
    Nat.succ_pred_eq_of_pos
      (List.length_pos_iff.mpr (List.append_ne_nil_of_right_ne_nil passed name.text_ne_nil))
  have stops : passed.reverse.takeWhile Character.continuesName = [] := by
    cases isReverse : passed.reverse with
    | nil => rfl
    | cons c rest =>
        have isLast : passed.getLast? = some c := by
          rw [← List.head?_reverse, isReverse]
          rfl
        rw [isLast, Option.any_some] at apart
        exact List.takeWhile_cons_of_neg (by simp [apart])
  rw [wordEndingAt, reached, List.take_left, List.reverse_append, List.takeWhile_append_of_pos, stops,
    List.append_nil, List.reverse_reverse]
  exact fun c member =>
    continuesName_of_isNamePart (name.isNamePart_of_mem (List.mem_reverse.mp member))

/-- The parentheses behind the name of a function hold its parameters. -/
theorem isParameterList_function (apart : passed.getLast?.any Character.continuesName = false) :
    isParameterList (passed ++ name.text ++ following) (passed ++ name.text).length .brace = true := by
  obtain ⟨c, isPrevious, continues⟩ := previousSignificant?_name passed following name
  have notKeyword : nonMethodWords.contains name.text = false := by
    rw [← Bool.not_eq_true, List.contains_iff_mem]
    intro member
    exact name.free (List.mem_append_left _ (List.mem_append_right _ member))
  rw [isParameterList, isPrevious]
  dsimp only
  rw [continues, wordEndingAt_name passed following name apart, notKeyword, Bool.not_false, Bool.and_self,
    Bool.or_true]

/-- The edits of a function delete the marks and types of its parameters and the type of its result. -/
theorem signatureEditsOf_function (apart : passed.getLast?.any Character.continuesName = false)
    (pairs : BracketPairs) (slots : List Slot) (result : Option Result) {parameters : Text}
    (joined : parameters = Text.join [',', ' '] (slots.map (Slot.text false))) :
    signatureEditsOf (passed ++ name.text ++ '(' :: (parameters ++ ')' ::
        (ascribed false (result.map Result.type) ++ ' ' :: '\x7b' :: following))) pairs
        ((passed ++ name.text).length, (passed ++ name.text).length + 1 + parameters.length) =
      Piece.deletions ((passed ++ name.text).length + 1) (slotPieces slots) ++
        Piece.deletions ((passed ++ name.text).length + 1 + parameters.length + 1)
          (Piece.drops (ascribed false (result.map Result.type))) := by
  have followed := @afterParameters_function (passed ++ name.text ++ '(' :: (parameters ++ [')']))
    following result ((passed ++ name.text).length + 1 + parameters.length) (by simp; omega)
  have splitFollowed : passed ++ name.text ++ '(' :: (parameters ++ [')']) ++
      (ascribed false (result.map Result.type) ++ ' ' :: '\x7b' :: following) =
        passed ++ name.text ++ '(' :: (parameters ++ ')' ::
          (ascribed false (result.map Result.type) ++ ' ' :: '\x7b' :: following)) := by
    simp
  have behind : (passed ++ name.text ++ '(' :: (parameters ++ [')'])).length =
      (passed ++ name.text).length + 1 + parameters.length + 1 := by
    simp
    omega
  rw [splitFollowed, behind] at followed
  have edits := @itemEdits_slots pairs (ascribed false (result.map Result.type) ++ ' ' :: '\x7b' :: following)
    slots (passed ++ name.text ++ ['(']) [] (by simp) fun _ => rfl
  have splitEdits : passed ++ name.text ++ ['('] ++ (parameters ++ ')' ::
      (ascribed false (result.map Result.type) ++ ' ' :: '\x7b' :: following)) =
        passed ++ name.text ++ '(' :: (parameters ++ ')' ::
          (ascribed false (result.map Result.type) ++ ' ' :: '\x7b' :: following)) := by
    simp
  have opened : (passed ++ name.text ++ ['(']).length = (passed ++ name.text).length + 1 :=
    List.length_append
  rw [List.append_nil, List.nil_append, ← joined, splitEdits, opened] at edits
  have sliced := Text.slice_behind (passed ++ name.text ++ ['(']) parameters (')' ::
    (ascribed false (result.map Result.type) ++ ' ' :: '\x7b' :: following))
  rw [splitEdits, opened] at sliced
  rw [signatureEditsOf]
  dsimp only
  rw [followed]
  dsimp only
  rw [isParameterList_function passed _ name apart, if_pos rfl, splitTopLevel, sliced, edits]
  refine congrArg _ ?_
  rw [Piece.deletions_drops]
  cases result with
  | none => rfl
  | some result => rfl

end Functions

end SceneBundler.Typed
