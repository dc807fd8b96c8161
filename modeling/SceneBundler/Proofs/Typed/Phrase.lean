import SceneBundler.Proofs.Text.Blank
import SceneBundler.Proofs.Text.Scan
import SceneBundler.Proofs.Text.Search
import SceneBundler.Proofs.Typed.Nesting

/-!
Contract: what written phrases look like, and names with their types as the passes read them.

Owns:
- the classes that the characters of names belong to;
- that the brackets of a phrase nest, and which marks stand outside of them;
- what a phrase begins with, and which characters type arguments consist of;
- that a binding is read over a name, and that the scanner for types goes over a type without type
  arguments;
- that an annotation is removed from its colon to the last character of its type.

Does not own: where names with types stand.
-/

namespace SceneBundler.Typed

open Dialect
open Source (BracketKind BracketPairs isOpener isCloser)

/-! ## Names -/

theorem isNamePart_of_start {c : Char} (starts : isNameStart c = true) : isNamePart c = true := by
  rw [isNamePart, starts, Bool.true_or]

theorem ne_of_isNamePart {c : Char} (part : isNamePart c = true) (mark : Char)
    (isMark : isNamePart mark = false) : c ≠ mark := by
  intro same
  rw [same, isMark] at part
  contradiction

theorem isAsciiWord_of_isNamePart {c : Char} (part : isNamePart c = true) :
    Character.isAsciiWord c = true := by
  simp only [isNamePart, isNameStart, Bool.or_eq_true, beq_iff_eq] at part
  rcases part with (lower | rfl) | digit
  · simp [Character.isAsciiWord, Char.isAlphanum, Character.isAlpha_of_isLower lower]
  · decide
  · simp [Character.isAsciiWord, Char.isAlphanum, digit]

theorem isWord_of_isNamePart {c : Char} (part : isNamePart c = true) :
    Character.isWord c = true := by
  simp only [isNamePart, isNameStart, Bool.or_eq_true, beq_iff_eq] at part
  rcases part with (lower | rfl) | digit
  · exact Character.isWord_of_isAlphanum
      (Character.isAlphanum_of_isAlpha (Character.isAlpha_of_isLower lower))
  · decide
  · exact Character.isWord_of_isAlphanum (Character.isAlphanum_of_isDigit digit)

theorem continuesName_of_isNamePart {c : Char} (part : isNamePart c = true) :
    Character.continuesName c = true := by
  rw [Character.continuesName, isWord_of_isNamePart part, Bool.true_or]

theorem startsName_of_isNameStart {c : Char} (starts : isNameStart c = true) :
    Character.startsName c = true := by
  simp only [isNameStart, Bool.or_eq_true, beq_iff_eq] at starts
  rcases starts with lower | rfl
  · simp [Character.startsName, Character.isAlpha_of_isLower lower]
  · decide

namespace Name

variable (name : Name)

theorem isNamePart_of_mem {c : Char} (member : c ∈ name.text) : isNamePart c = true := by
  rcases List.mem_cons.mp member with rfl | isLater
  · exact isNamePart_of_start name.starts
  · exact name.parts c isLater

theorem text_ne_nil : name.text ≠ [] :=
  List.cons_ne_nil name.first name.rest

theorem exists_getLast? : ∃ c, name.text.getLast? = some c ∧ isNamePart c = true := by
  have last := List.getLast?_eq_some_getLast name.text_ne_nil
  exact ⟨_, last, name.isNamePart_of_mem (List.mem_of_getLast? last)⟩

theorem not_mem {mark : Char} (isMark : isNamePart mark = false) : mark ∉ name.text := by
  intro member
  rw [name.isNamePart_of_mem member] at isMark
  contradiction

end Name

/-! ## Nesting -/

/-- The marks of a type outside of brackets. -/
def outerMark (full : Bool) (c : Char) : Bool :=
  isNamePart c || c == ' ' || c == '|' || (full && (c == '<' || c == '>' || c == ','))

/-- The marks of a type within brackets. -/
def innerMark (full : Bool) (c : Char) : Bool :=
  outerMark full c || c == ':' || c == ',' || c == ';'

/-- The marks of a phrase outside of brackets. -/
def markOf (full : Bool) : Kind -> Char -> Bool
  | .type => outerMark full
  | .items => fun c => outerMark full c || c == ','
  | .fields => innerMark full

theorem innerMark_of_outerMark {full : Bool} {c : Char} (isMark : outerMark full c = true) :
    innerMark full c = true := by
  simp [innerMark, isMark]

theorem innerMark_of_markOf {full : Bool} {kind : Kind} {c : Char}
    (isMark : markOf full kind c = true) : innerMark full c = true := by
  cases kind with
  | type => exact innerMark_of_outerMark isMark
  | items =>
      simp only [markOf, Bool.or_eq_true] at isMark
      rcases isMark with isOuter | isComma
      · exact innerMark_of_outerMark isOuter
      · simp [innerMark, isComma]
  | fields => exact isMark

theorem Name.nested (name : Name) {inner outer : Char -> Bool}
    (parts : ∀ c, isNamePart c = true → outer c = true) : Nested inner outer name.text :=
  Nested.marks fun c member => parts c (name.isNamePart_of_mem member)

theorem outerMark_of_isNamePart {full : Bool} {c : Char} (part : isNamePart c = true) :
    outerMark full c = true := by
  simp [outerMark, part]

/-- The brackets of a phrase nest. -/
theorem Phrase.nested (full : Bool) {plain : Bool} {kind : Kind} (phrase : Phrase plain kind) :
    Nested (innerMark full) (markOf full kind) (phrase.text full) := by
  have nameInner (name : Name) : Nested (innerMark full) (innerMark full) name.text :=
    name.nested fun c part => innerMark_of_outerMark (outerMark_of_isNamePart part)
  have toInner {kind : Kind} {text : Text} (nested : Nested (innerMark full) (markOf full kind) text) :
      Nested (innerMark full) (innerMark full) text :=
    nested.mono fun c => innerMark_of_markOf
  have blank : innerMark full ' ' = true := by simp [innerMark, outerMark]
  have colon : innerMark full ':' = true := by simp [innerMark]
  have ascription {text : Text} (nested : Nested (innerMark full) (innerMark full) text) :
      Nested (innerMark full) (innerMark full) ([':', ' '] ++ text) :=
    Nested.mark colon (Nested.mark blank nested)
  induction phrase with
  | named name => exact name.nested fun c part => outerMark_of_isNamePart part
  | array element elementNested => exact elementNested.append (Nested.square Nested.nil Nested.nil)
  | union first second firstNested secondNested =>
      have blankOuter : outerMark full ' ' = true := by simp [outerMark]
      have bar : outerMark full '|' = true := by simp [outerMark]
      exact firstNested.append (Nested.mark blankOuter (Nested.mark bar (Nested.mark blankOuter
        secondNested)))
  | emptyTuple => exact Nested.square Nested.nil Nested.nil
  | tuple items itemsNested => exact Nested.square (toInner itemsNested) Nested.nil
  | object fields fieldsNested =>
      have inside := Nested.mark blank (fieldsNested.append (Nested.mark blank Nested.nil))
      have split : Phrase.text full (.object fields) =
          '\x7b' :: ((' ' :: (fields.text full ++ [' '])) ++ ['\x7d']) := by simp [Phrase.text]
      rw [split]
      exact Nested.curly inside Nested.nil
  | function parameter type result typeNested resultNested =>
      have inside := (nameInner parameter).append (ascription (toInner typeNested))
      have split : Phrase.text full (.function parameter type result) =
          '(' :: ((parameter.text ++ ([':', ' '] ++ type.text full)) ++
            (')' :: ' ' :: '=' :: '>' :: ' ' :: result.text full)) := by simp [Phrase.text]
      rw [split]
      exact Nested.function inside resultNested
  | generic name arguments argumentsNested =>
      refine (name.nested fun c part => outerMark_of_isNamePart part).append ?_
      cases full with
      | false => exact Nested.nil
      | true =>
          have widened : Nested (innerMark true) (outerMark true) (arguments.text true) :=
            argumentsNested.mono fun c isMark => by
              simp only [markOf, Bool.or_eq_true, beq_iff_eq] at isMark
              rcases isMark with isOuter | rfl
              · exact isOuter
              · decide
          exact Nested.mark (by decide) (widened.append (Nested.mark (by decide) Nested.nil))
  | last type typeNested => exact typeNested.mono fun c isMark => by simp_all [markOf]
  | more type others typeNested othersNested =>
      have comma : markOf full .items ',' = true := by simp [markOf]
      have blankItems : markOf full .items ' ' = true := by simp [markOf, outerMark]
      have widened : Nested (innerMark full) (markOf full .items) (type.text full) :=
        typeNested.mono fun c isMark => by simp_all [markOf]
      exact widened.append (Nested.mark comma (Nested.mark blankItems othersNested))
  | lastField key type typeNested => exact (nameInner key).append (ascription (toInner typeNested))
  | moreFields key type others typeNested othersNested =>
      have semicolon : innerMark full ';' = true := by simp [innerMark]
      have rest := (toInner typeNested).append (Nested.mark semicolon (Nested.mark blank othersNested))
      exact (nameInner key).append (ascription rest)

/-! ## First characters and plain phrases -/

/-- A character that a phrase begins with. -/
def beginsPhrase (c : Char) : Bool :=
  isNameStart c || c == '[' || c == '\x7b' || c == '('

theorem Name.exists_head (name : Name) (following : Text) :
    ∃ c rest, name.text ++ following = c :: rest ∧ beginsPhrase c = true :=
  ⟨name.first, name.rest ++ following, rfl, by simp [beginsPhrase, name.starts]⟩

theorem Phrase.exists_head (full : Bool) {plain : Bool} {kind : Kind} (phrase : Phrase plain kind) :
    ∃ c rest, phrase.text full = c :: rest ∧ beginsPhrase c = true := by
  have extended {text : Text} (following : Text)
      (found : ∃ c rest, text = c :: rest ∧ beginsPhrase c = true) :
      ∃ c rest, text ++ following = c :: rest ∧ beginsPhrase c = true := by
    obtain ⟨c, rest, rfl, begins⟩ := found
    exact ⟨c, rest ++ following, rfl, begins⟩
  induction phrase with
  | named name => simpa [Phrase.text] using name.exists_head []
  | array element elementHypothesis => exact extended _ elementHypothesis
  | union first second firstHypothesis _ => exact extended _ firstHypothesis
  | emptyTuple => exact ⟨'[', _, rfl, by decide⟩
  | tuple items _ => exact ⟨'[', _, rfl, by decide⟩
  | object fields _ => exact ⟨'\x7b', _, rfl, by decide⟩
  | function parameter type result _ _ => exact ⟨'(', _, rfl, by decide⟩
  | generic name arguments _ => exact name.exists_head _
  | last type typeHypothesis => exact typeHypothesis
  | more type others typeHypothesis _ => exact extended _ typeHypothesis
  | lastField key type _ => exact key.exists_head _
  | moreFields key type others _ _ => exact key.exists_head _

/-- A character of type arguments. -/
def isArgumentMark (c : Char) : Bool :=
  isNamePart c || " |,:[]\x7b\x7d".toList.contains c

/-- A phrase that can stand in angle brackets has no parentheses, arrows and semicolons. -/
theorem Phrase.isArgumentMark_of_mem {plain : Bool} {kind : Kind} (phrase : Phrase plain kind)
    (isPlain : plain = true) : ∀ c ∈ phrase.text false, isArgumentMark c = true := by
  have ofName (name : Name) : ∀ c ∈ name.text, isArgumentMark c = true := by
    intro c member
    simp [isArgumentMark, name.isNamePart_of_mem member]
  have append {first second : Text} (ofFirst : ∀ c ∈ first, isArgumentMark c = true)
      (ofSecond : ∀ c ∈ second, isArgumentMark c = true) :
      ∀ c ∈ first ++ second, isArgumentMark c = true := by
    intro c member
    exact (List.mem_append.mp member).elim (ofFirst c) (ofSecond c)
  have marks {word : Text} (areMarks : word.all isArgumentMark = true) :
      ∀ c ∈ word, isArgumentMark c = true := List.all_eq_true.mp areMarks
  induction phrase with
  | named name => exact ofName name
  | array element elementHypothesis => exact append (elementHypothesis isPlain) (marks (by decide))
  | union first second firstHypothesis secondHypothesis =>
      exact append (firstHypothesis isPlain)
        (append (marks (by decide)) (secondHypothesis isPlain))
  | emptyTuple => exact @marks ['[', ']'] (by decide)
  | tuple items itemsHypothesis =>
      exact append (@marks ['['] (by decide))
        (append (itemsHypothesis isPlain) (marks (by decide)))
  | object fields fieldsHypothesis =>
      exact append (@marks ['\x7b', ' '] (by decide))
        (append (fieldsHypothesis isPlain) (marks (by decide)))
  | function parameter type result _ _ => contradiction
  | generic name arguments _ => exact append (ofName name) (marks rfl)
  | last type typeHypothesis => exact typeHypothesis isPlain
  | more type others typeHypothesis othersHypothesis =>
      exact append (typeHypothesis isPlain)
        (append (marks (by decide)) (othersHypothesis isPlain))
  | lastField key type typeHypothesis =>
      exact append (ofName key) (append (marks (by decide)) (typeHypothesis isPlain))
  | moreFields key type others _ _ => contradiction

/-! ## Brackets -/

theorem ne_of_innerMark {full : Bool} {c : Char} (isMark : innerMark full c = true) {bracket : Char}
    (other : innerMark full bracket = false) : c ≠ bracket := by
  intro same
  rw [same, other] at isMark
  contradiction

theorem isOpener_of_innerMark {full : Bool} {c : Char} (isMark : innerMark full c = true) :
    isOpener c = false ∧ isCloser c = false := by
  have different (bracket : Char) (isBracket : bracket ∈ "()[]\x7b\x7d".toList) : c ≠ bracket := by
    have others : ∀ bracket ∈ "()[]\x7b\x7d".toList, innerMark full bracket = false := by
      cases full <;> exact Text.forall_mem_of_all (by decide)
    exact ne_of_innerMark isMark (others bracket isBracket)
  constructor
  · simp [isOpener, different '(' (by decide), different '[' (by decide),
      different '\x7b' (by decide)]
  · simp [isCloser, different ')' (by decide), different ']' (by decide),
      different '\x7d' (by decide)]

theorem pairsUp_marks (kind : BracketKind) (word : Text) (marks : word.all (innerMark true) = true) :
    PairsUp kind word := by
  have areMarks := List.all_eq_true.mp marks
  refine PairsUp.of_unmarked (fun member => ?_) fun member => ?_
  · have notOpener := (isOpener_of_innerMark (areMarks _ member)).1
    revert notOpener
    cases kind <;> decide
  · have notCloser := (isOpener_of_innerMark (areMarks _ member)).2
    revert notCloser
    cases kind <;> decide

theorem Name.pairsUp (name : Name) (kind : BracketKind) : PairsUp kind name.text :=
  pairsUp_marks kind name.text (List.all_eq_true.mpr fun _ member =>
    innerMark_of_outerMark (outerMark_of_isNamePart (name.isNamePart_of_mem member)))

/-- The brackets of a phrase pair among themselves, and its parentheses stand in front of arrows. -/
theorem Phrase.pairsUp (full : Bool) (brackets : BracketKind) {plain : Bool} {kind : Kind}
    (phrase : Phrase plain kind) : PairsUp brackets (phrase.text full) := by
  have unmarked {c : Char} (isMark : innerMark full c = true) :
      c ≠ brackets.opener ∧ c ≠ brackets.closer := by
    obtain ⟨notOpener, notCloser⟩ := isOpener_of_innerMark isMark
    constructor
    · rintro rfl
      revert notOpener
      cases brackets <;> decide
    · rintro rfl
      revert notCloser
      cases brackets <;> decide
  exact (phrase.nested full).pairsUp (fun c => unmarked) fun c isMark => unmarked (innerMark_of_markOf isMark)

/-! ## Names with types -/

/-- A binding is read over a name, as far as the limit allows. -/
theorem bindingEnd?_name (passed : Text) (name : Name) {within : Text} (beyond : Text)
    (pairs : BracketPairs) (ends : within.head?.any Character.continuesName = false) :
    bindingEnd? (passed ++ (name.text ++ within ++ beyond)) pairs
        (passed.length + (name.text ++ within).length) passed.length =
      some (passed.length + name.text.length) := by
  have first : (passed ++ (name.text ++ within ++ beyond))[passed.length]? = some name.first :=
    Text.getElem?_behind passed (name.rest ++ within ++ beyond) name.first
  have notPattern : opensBinding name.first = false := by
    have starts := isNamePart_of_start name.starts
    simp [opensBinding, ne_of_isNamePart starts '[' (by decide),
      ne_of_isNamePart starts '\x7b' (by decide)]
  have found := @Pattern.find_name (Cursor.between passed (name.text ++ within)) name.first name.rest
    within (startsName_of_isNameStart name.starts)
    (fun c member => continuesName_of_isNamePart (name.parts c member)) ends rfl
  rw [bindingEnd?, first, Option.any_some, notPattern, if_neg Bool.false_ne_true,
    Pattern.matchWithin?, Cursor.within_behind, found]
  rfl

/-! ## Types -/

theorem isBlank_of_isNamePart {c : Char} (part : isNamePart c = true) :
    Character.isBlank c = false := by
  rw [← Bool.not_eq_true]
  intro blank
  have notWord := Character.isWord_of_isBlank blank
  rw [isWord_of_isNamePart part] at notWord
  contradiction

/-- A phrase ends with a visible character. -/
theorem Phrase.exists_getLast? {plain : Bool} {kind : Kind} (phrase : Phrase plain kind) :
    ∃ c, (phrase.text false).getLast? = some c ∧ Character.isBlank c = false := by
  have ofName (name : Name) : ∃ c, name.text.getLast? = some c ∧ Character.isBlank c = false := by
    obtain ⟨c, isLast, part⟩ := name.exists_getLast?
    exact ⟨c, isLast, isBlank_of_isNamePart part⟩
  have behind (earlier : Text) {text : Text}
      (found : ∃ c, text.getLast? = some c ∧ Character.isBlank c = false) :
      ∃ c, (earlier ++ text).getLast? = some c ∧ Character.isBlank c = false := by
    obtain ⟨c, isLast, visible⟩ := found
    exact ⟨c, by rw [List.getLast?_append, isLast, Option.some_or], visible⟩
  induction phrase with
  | named name => exact ofName name
  | array element _ => exact behind _ ⟨']', rfl, by decide⟩
  | union first second _ secondHypothesis => exact behind _ (behind _ secondHypothesis)
  | emptyTuple => exact ⟨']', rfl, by decide⟩
  | tuple items _ => exact behind ['['] (behind _ ⟨']', rfl, by decide⟩)
  | object fields _ => exact behind ['\x7b', ' '] (behind _ ⟨'\x7d', rfl, by decide⟩)
  | function parameter type result _ resultHypothesis =>
      exact behind ['('] (behind parameter.text (behind [':', ' '] (behind (type.text false)
        (behind [')', ' ', '=', '>', ' '] resultHypothesis))))
  | generic name arguments _ => simpa [Phrase.text, angled] using ofName name
  | last type typeHypothesis => exact typeHypothesis
  | more type others _ othersHypothesis => exact behind _ (behind _ othersHypothesis)
  | lastField key type typeHypothesis => exact behind _ (behind _ typeHypothesis)
  | moreFields key type others _ othersHypothesis =>
      exact behind _ (behind _ (behind _ (behind _ othersHypothesis)))

/-- What a phrase without type arguments consists of opens and closes nothing, but for brackets. -/
theorem levels_of_innerMark {c : Char} (isMark : innerMark false c = true) :
    opensType c = false ∧ isCloser c = false ∧ c ≠ '>' := by
  obtain ⟨notOpener, notCloser⟩ := isOpener_of_innerMark isMark
  have notLess : c ≠ '<' := ne_of_innerMark isMark (by decide)
  exact ⟨by simp [opensType, notOpener, notLess], notCloser, ne_of_innerMark isMark (by decide)⟩

theorem isTypeStop_of_outerMark {c : Char} (isMark : outerMark false c = true) :
    isTypeStop c = false := by
  have different (stop : Char) (other : outerMark false stop = false) : c ≠ stop := by
    intro same
    rw [same, other] at isMark
    contradiction
  simp [isTypeStop, different '=' (by decide), different ';' (by decide), different ',' (by decide),
    different '\n' (by decide)]

section Annotations

variable {stops : Text} (stopsOnly : ∀ c, stops.contains c = true → isTypeStop c = true)

include stopsOnly

theorem goesOverType_blank (depth : Nat) : GoesOverType stops depth depth [' '] :=
  goesOverType_mark rfl rfl (by decide) fun _ => stops_eq_false stopsOnly rfl

theorem goesOverType_phrase (type : TypePhrase) : GoesOverType stops 0 0 (type.text false) := by
  refine (type.nested false).goes (scans_type stopsOnly) (fun depth c isMark => ?_) fun c isMark => ?_
  · obtain ⟨notOpener, notCloser, notAngle⟩ := levels_of_innerMark isMark
    exact goesOverType_mark notOpener notCloser notAngle fun isZero =>
      absurd isZero (Nat.succ_ne_zero depth)
  · obtain ⟨notOpener, notCloser, notAngle⟩ := levels_of_innerMark (innerMark_of_outerMark isMark)
    exact goesOverType_mark notOpener notCloser notAngle fun _ =>
      stops_eq_false stopsOnly (isTypeStop_of_outerMark isMark)

end Annotations

/-- The end of an annotation, without the blanks that stand behind its type. -/
theorem trimmedEnd_ascription (passed : Text) (type : TypePhrase) {blanks : Text}
    (areBlank : Text.isBlank blanks = true) (rest : Text) :
    trimmedEnd (passed ++ (ascription false type ++ blanks ++ rest)) passed.length
        (passed.length + (ascription false type ++ blanks).length) =
      passed.length + (ascription false type).length := by
  obtain ⟨c, isLast, visible⟩ := type.exists_getLast?
  have lastOfBoth : (ascription false type).getLast? = some c := by
    rw [ascription, List.getLast?_append, isLast, Option.some_or]
  rw [trimmedEnd, Text.slice_behind, Text.trimEnd_append_of_visible lastOfBoth visible areBlank]

/-- An annotation is removed up to the last character of its type, if the scanner for types stops
behind it. -/
theorem annotationRemoval_ascription {stops : String}
    (stopsOnly : ∀ c, stops.toList.contains c = true → isTypeStop c = true) (passed : Text)
    (type : TypePhrase) {blanks : Text} (areBlank : ∀ c ∈ blanks, c = ' ') {within beyond : Text}
    (ends : ∀ reached, typeLength stops.toList within.length 0
      (ascription false type ++ blanks).getLast? reached (within ++ beyond) = reached) :
    annotationRemoval (passed ++ (ascription false type ++ blanks ++ (within ++ beyond))) passed.length
        (typeEnd (passed ++ (ascription false type ++ blanks ++ (within ++ beyond)))
          (passed.length + 1)
          (passed.length + (ascription false type ++ blanks ++ within).length) stops) =
      Edit.deletion passed.length (passed.length + (ascription false type).length) := by
  have blankText : Text.isBlank blanks = true :=
    Text.isBlank_iff.mpr fun c member => areBlank c member ▸ by decide
  have goesBlanks : GoesOverType stops.toList 0 0 blanks := by
    clear ends blankText
    induction blanks with
    | nil => exact (scans_type stopsOnly).stays 0
    | cons c rest inductionHypothesis =>
        obtain rfl := areBlank c List.mem_cons_self
        exact goesOverType_append (goesOverType_blank stopsOnly 0)
          (inductionHypothesis fun d member => areBlank d (List.mem_cons_of_mem _ member))
  have goes := goesOverType_append (goesOverType_blank stopsOnly 0)
    (goesOverType_append (goesOverType_phrase stopsOnly type) goesBlanks)
  have split : passed ++ (ascription false type ++ blanks ++ (within ++ beyond)) =
      (passed ++ [':']) ++ ([' '] ++ (type.text false ++ blanks) ++ (within ++ beyond)) := by
    simp [ascription]
  have start : passed.length + 1 = (passed ++ [':']).length := by simp
  have room : passed.length + (ascription false type ++ blanks ++ within).length -
      (passed ++ [':']).length = ([' '] ++ (type.text false ++ blanks)).length + within.length := by
    simp [ascription]
    omega
  have last : ([' '] ++ (type.text false ++ blanks)).getLast?.or (passed ++ [':']).getLast? =
      (ascription false type ++ blanks).getLast? := by
    have whole : ascription false type ++ blanks = [':'] ++ ([' '] ++ (type.text false ++ blanks)) := by
      simp [ascription]
    rw [whole, List.getLast?_concat, @List.getLast?_append _ [':']]
    rfl
  have stop : typeEnd (passed ++ (ascription false type ++ blanks ++ (within ++ beyond)))
      (passed.length + 1) (passed.length + (ascription false type ++ blanks ++ within).length) stops =
        passed.length + (ascription false type ++ blanks).length := by
    rw [typeEnd, split, start, room, Text.previous_behind, List.drop_left,
      goes _ _ _ _ (Nat.le_add_right _ _), Nat.add_sub_cancel_left, last, ends]
    simp [ascription]
    omega
  rw [annotationRemoval, stop, trimmedEnd_ascription passed type blankText]

end SceneBundler.Typed
