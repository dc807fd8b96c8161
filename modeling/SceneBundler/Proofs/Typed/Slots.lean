import SceneBundler.Proofs.Text.Opening
import SceneBundler.Proofs.Text.Pieces
import SceneBundler.Proofs.Typed.Joined
import SceneBundler.Proofs.Typed.Phrase

/-!
Contract: the parameters of a function as the pass over signatures reads them.

Owns:
- that a parameter is an item of its list;
- that its edits delete its question mark and its type, and nothing else.

Does not own: which parentheses hold parameters.
-/

namespace SceneBundler.Typed

open Dialect
open Source (BracketPairs isOpener isCloser)

/-! ## Pieces -/

/-- A parameter as what the pass keeps of it and what it drops. -/
def Slot.pieces (slot : Slot) : List Piece :=
  Piece.keep slot.name.text :: (Piece.drops slot.mark ++ Piece.drops (ascribed false slot.type))

/-- A list of parameters as what the pass keeps of it and what it drops. -/
def slotPieces : List Slot -> List Piece
  | [] => []
  | [slot] => slot.pieces
  | slot :: others => slot.pieces ++ Piece.keep [',', ' '] :: slotPieces others

/-- A parameter without its question mark and its type. -/
def Slot.bare (slot : Slot) : Slot :=
  ⟨slot.name, false, none⟩

theorem Slot.source_pieces (slot : Slot) : Piece.source slot.pieces = slot.text false := by
  simp [Slot.pieces, Slot.text]

theorem Slot.remainder_pieces (slot : Slot) : Piece.remainder slot.pieces = slot.bare.text false := by
  simp [Slot.pieces, Slot.text, Slot.bare, Slot.mark, ascribed]

theorem slotPieces_cons_cons (slot second : Slot) (others : List Slot) :
    slotPieces (slot :: second :: others) =
      slot.pieces ++ Piece.keep [',', ' '] :: slotPieces (second :: others) :=
  rfl

theorem source_slotPieces (slots : List Slot) :
    Piece.source (slotPieces slots) = Text.join [',', ' '] (slots.map (Slot.text false)) := by
  induction slots with
  | nil => rfl
  | cons slot others inductionHypothesis =>
      cases others with
      | nil => simp [slotPieces, Slot.source_pieces, Text.join]
      | cons second others =>
          rw [slotPieces_cons_cons, Piece.source_append, Piece.source_keep, inductionHypothesis,
            Slot.source_pieces]
          simp [Text.join_cons_cons]

theorem remainder_slotPieces (slots : List Slot) :
    Piece.remainder (slotPieces slots) =
      Text.join [',', ' '] (slots.map fun slot => slot.bare.text false) := by
  induction slots with
  | nil => rfl
  | cons slot others inductionHypothesis =>
      cases others with
      | nil => simp [slotPieces, Slot.remainder_pieces, Text.join]
      | cons second others =>
          rw [slotPieces_cons_cons, Piece.remainder_append, Piece.remainder_keep, inductionHypothesis,
            Slot.remainder_pieces]
          simp [Text.join_cons_cons]

theorem Slot.pieces_ne_nil (slot : Slot) : ∀ piece ∈ slot.pieces, piece.text ≠ [] := by
  intro piece member
  rcases List.mem_cons.mp member with rfl | isDropped
  · exact slot.name.text_ne_nil
  · exact (List.mem_append.mp isDropped).elim Piece.text_ne_nil_of_mem_drops Piece.text_ne_nil_of_mem_drops

theorem slotPieces_ne_nil (slots : List Slot) : ∀ piece ∈ slotPieces slots, piece.text ≠ [] := by
  induction slots with
  | nil => simp [slotPieces]
  | cons slot others inductionHypothesis =>
      cases others with
      | nil => exact slot.pieces_ne_nil
      | cons second others =>
          intro piece member
          rw [slotPieces_cons_cons, List.mem_append, List.mem_cons] at member
          rcases member with isFirst | rfl | isLater
          · exact slot.pieces_ne_nil piece isFirst
          · exact List.cons_ne_nil _ _
          · exact inductionHypothesis piece isLater

/-! ## Edits -/

/-- No modifier stands in front of a name that is followed by a mark, or by nothing. -/
theorem not_reads_parameterModifier {passed rest : Text} (name : Name)
    (ends : ∀ c ∈ rest.head?, Character.isBlank c = false ∧ isNamePart c = false) (next : Cursor) :
    ¬parameterModifier.Reads (Cursor.between passed (name.text ++ rest)) next := by
  rintro ⟨_, ⟨middle, word, gap⟩, _⟩
  obtain ⟨blanks, areBlank, enough, passesGap⟩ := Pattern.passes_of_reads_run gap
  obtain ⟨blank, others, isGap, isBlank⟩ :
      ∃ blank others, middle.ahead = blank :: others ∧ Character.isBlank blank = true := by
    rcases blanks with _ | ⟨blank, blanks⟩
    · exact absurd enough (Nat.not_succ_le_zero 0)
    · exact ⟨blank, _, passesGap.ahead_eq, areBlank blank List.mem_cons_self⟩
  have unread {letters : Text} (areParts : letters.all isNamePart = true)
      (readsWord : (Pattern.word letters).Reads (Cursor.between passed (name.text ++ rest)) middle) :
      False := by
    have ahead : name.text ++ rest = letters ++ middle.ahead :=
      (Pattern.reads_word_iff.mp readsWord).1.ahead_eq
    rcases List.append_eq_append_iff.mp ahead with ⟨beyond, isWord, isRest⟩ | ⟨beyond, isName, isAhead⟩
    · cases beyond with
      | nil =>
          rw [List.nil_append, isGap] at isRest
          have visible := (ends blank (by rw [isRest]; rfl)).1
          rw [isBlank] at visible
          contradiction
      | cons c beyond =>
          have part := List.all_eq_true.mp areParts c (by rw [isWord]; simp)
          have notPart := (ends c (by rw [isRest]; rfl)).2
          rw [part] at notPart
          contradiction
    · cases beyond with
      | nil =>
          rw [List.nil_append, isGap] at isAhead
          have visible := (ends blank (by rw [← isAhead]; rfl)).1
          rw [isBlank] at visible
          contradiction
      | cons c beyond =>
          have part := name.isNamePart_of_mem (show c ∈ name.text by rw [isName]; simp)
          rw [isGap] at isAhead
          rw [(List.cons.inj isAhead).1, isBlank_of_isNamePart ((List.cons.inj isAhead).1 ▸ part)] at isBlank
          contradiction
  rcases word with word | word | word | word | word
  · exact unread (by decide) word
  · exact unread (by decide) word
  · exact unread (by decide) word
  · exact unread (by decide) word
  · exact unread (by decide) word

/-- The removal of the annotation at an offset of an item, if there is one. -/
def annotationAt (masked : Text) (colon stop : Nat) : List Edit :=
  if colon < stop && masked[colon]? == some ':' then
    [annotationRemoval masked colon (typeEnd masked (colon + 1) stop "=")]
  else []

/-- What is read of a parameter decides about its edits. -/
theorem parameterEdits_eq {masked : Text} {pairs : BracketPairs} {start stop offset bound : Nat}
    (skipped : Text.skip isLayout masked start = offset) (inside : offset < stop)
    (notModified : parameterModifier.matchWithin? masked offset stop = none)
    (noDots : Text.standsAt "...".toList masked offset = false)
    (isBound : bindingEnd? masked pairs stop offset = some bound)
    (atMark : Text.skip Text.isIndent masked bound = bound) :
    parameterEdits masked pairs (start, stop) =
      if bound < stop && masked[bound]? == some '?' then
        Edit.deletion bound (bound + 1) ::
          annotationAt masked (Text.skip Text.isIndent masked (bound + 1)) stop
      else annotationAt masked bound stop := by
  rw [parameterEdits]
  dsimp only
  rw [skipped, if_neg (Nat.not_le.mpr inside), notModified]
  dsimp only
  rw [noDots, if_neg Bool.false_ne_true, isBound]
  dsimp only
  rw [atMark]
  cases isMarked : (decide (bound < stop) && masked[bound]? == some '?') with
  | true =>
      simp only [if_true, annotationAt]
      split <;> rfl
  | false =>
      simp only [Bool.false_eq_true, if_false, annotationAt]
      split <;> rfl

theorem isTypeStop_of_parameterStop :
    ∀ c, "=".toList.contains c = true → isTypeStop c = true := by
  intro c member
  have isEquals : c = '=' := by simpa using member
  rw [isEquals]
  rfl

/-- The type of a parameter is removed with its colon. -/
theorem annotationAt_ascribed (passed following : Text) (type : Option TypePhrase) :
    annotationAt (passed ++ (ascribed false type ++ following)) passed.length
        (passed.length + (ascribed false type).length) =
      Piece.deletions passed.length (Piece.drops (ascribed false type)) := by
  rw [Piece.deletions_drops, annotationAt]
  cases type with
  | none => simp [ascribed]
  | some type =>
      have removed := @annotationRemoval_ascription "=" isTypeStop_of_parameterStop passed type [] (by simp)
        [] following fun _ => rfl
      have isColon := Text.getElem?_behind passed (' ' :: type.text false ++ following) ':'
      have nonempty : ascription false type ≠ [] := List.cons_ne_nil _ _
      have inside : passed.length < passed.length + (ascription false type).length :=
        Nat.lt_add_of_pos_right (List.length_pos_iff.mpr nonempty)
      rw [List.append_nil, List.append_nil, List.nil_append] at removed
      rw [ascribed, if_neg nonempty, removed]
      change (if (decide _ && (passed ++ (':' :: (' ' :: type.text false ++ following)))[passed.length]? ==
        some ':') = true then _ else _) = _
      rw [isColon, decide_eq_true inside]
      rfl

theorem Slot.mark_eq (slot : Slot) : slot.mark = [] ∨ slot.mark = ['?'] := by
  rw [Slot.mark]
  split
  · exact Or.inr rfl
  · exact Or.inl rfl

/-- What stands behind the name of a parameter begins with a mark, if with anything. -/
theorem Slot.ends (slot : Slot) {c : Char}
    (isFirst : (slot.mark ++ ascribed false slot.type).head? = some c) : c = '?' ∨ c = ':' := by
  rcases slot.mark_eq with isMark | isMark
  · rw [isMark] at isFirst
    cases isType : slot.type with
    | none =>
        rw [isType] at isFirst
        contradiction
    | some type =>
        rw [isType] at isFirst
        exact Or.inr (Option.some.inj isFirst).symm
  · rw [isMark] at isFirst
    exact Or.inl (Option.some.inj isFirst).symm

section Slot

variable (passed following : Text) (pairs : BracketPairs) {c : Char}

/-- The edits at the end of a name, where the mark and the type of a parameter stand. -/
theorem edits_behind_name {mark : Text} (isMark : mark = [] ∨ mark = ['?']) (type : Option TypePhrase)
    (closes : c = ',' ∨ c = ')') {masked : Text}
    (isMasked : masked = passed ++ (mark ++ (ascribed false type ++ c :: following))) {stop : Nat}
    (isStop : stop = passed.length + (mark ++ ascribed false type).length) :
    (if passed.length < stop && masked[passed.length]? == some '?' then
        Edit.deletion passed.length (passed.length + 1) ::
          annotationAt masked (Text.skip Text.isIndent masked (passed.length + 1)) stop
      else annotationAt masked passed.length stop) =
      Piece.deletions passed.length (Piece.drops mark ++ Piece.drops (ascribed false type)) := by
  subst isMasked isStop
  obtain ⟨d, rest, isBehind, notMark, notIndent⟩ : ∃ d rest,
      ascribed false type ++ c :: following = d :: rest ∧ d ≠ '?' ∧ Text.isIndent d = false := by
    cases type with
    | none => exact ⟨c, following, rfl, by rcases closes with rfl | rfl <;> decide⟩
    | some type => exact ⟨':', _, rfl, by decide⟩
  rcases isMark with rfl | rfl
  · have isThere : (passed ++ ([] ++ (ascribed false type ++ c :: following)))[passed.length]? = some d := by
      rw [List.nil_append, isBehind, Text.getElem?_behind]
    have unmarked : (decide (passed.length < passed.length + ([] ++ ascribed false type).length) &&
        (passed ++ ([] ++ (ascribed false type ++ c :: following)))[passed.length]? == some '?') =
          false := by
      rw [isThere]
      simp [notMark]
    rw [unmarked, if_neg Bool.false_ne_true]
    exact annotationAt_ascribed passed (c :: following) type
  · have isThere : (passed ++ (['?'] ++ (ascribed false type ++ c :: following)))[passed.length]? =
        some '?' := Text.getElem?_behind passed (ascribed false type ++ c :: following) '?'
    have inside : passed.length < passed.length + (['?'] ++ ascribed false type).length :=
      Nat.lt_add_of_pos_right (by simp)
    have whole : passed ++ (['?'] ++ (ascribed false type ++ c :: following)) =
        (passed ++ ['?']) ++ (ascribed false type ++ c :: following) := by simp
    have begins : passed.length + 1 = (passed ++ ['?']).length := by simp
    have limit : passed.length + (['?'] ++ ascribed false type).length =
        (passed ++ ['?']).length + (ascribed false type).length := by
      simp
      omega
    have skipped := @Text.skip_eq_self (passed ++ ['?']) Text.isIndent
      (ascribed false type ++ c :: following) (by rw [isBehind]; exact notIndent)
    rw [isThere, decide_eq_true inside, Bool.true_and, beq_self_eq_true, if_pos rfl, whole, begins, skipped, limit,
      annotationAt_ascribed, Piece.deletions_append, Piece.source_drops]
    simp [Piece.deletions_drops]

/-- The edits of a parameter delete its question mark and its type. -/
theorem parameterEdits_slot (slot : Slot) {blanks : Text} (areBlank : ∀ d ∈ blanks, d = ' ')
    (closes : c = ',' ∨ c = ')') :
    parameterEdits (passed ++ blanks ++ (slot.text false ++ c :: following)) pairs
        (passed.length, (passed ++ blanks).length + (slot.text false).length) =
      Piece.deletions (passed ++ blanks).length slot.pieces := by
  have starts := isNamePart_of_start slot.name.starts
  have notLayout : isLayout slot.name.first = false := by
    simp [isLayout, ne_of_isNamePart starts ' ' (by decide), ne_of_isNamePart starts '\t' (by decide),
      ne_of_isNamePart starts '\r' (by decide), ne_of_isNamePart starts '\n' (by decide)]
  have skipped := @Text.skip_behind passed isLayout blanks (slot.text false ++ c :: following)
    (fun d member => by rw [areBlank d member]; rfl) notLayout
  rw [← List.length_append, ← List.append_assoc] at skipped
  have inside : (passed ++ blanks).length < (passed ++ blanks).length + (slot.text false).length :=
    Nat.lt_add_of_pos_right (by simp [Slot.text, Name.text])
  have marks : ∀ d, (slot.mark ++ ascribed false slot.type).head? = some d →
      Character.continuesName d = false ∧ Character.isBlank d = false ∧ isNamePart d = false ∧
        Text.isIndent d = false := by
    intro d isFirst
    rcases slot.ends isFirst with rfl | rfl <;> decide
  have notModified : parameterModifier.matchWithin? (passed ++ blanks ++ (slot.text false ++ c :: following))
      (passed ++ blanks).length ((passed ++ blanks).length + (slot.text false).length) = none := by
    rw [Pattern.matchWithin?, Cursor.within_behind]
    exact Pattern.find_eq_none (not_reads_parameterModifier slot.name fun d isFirst =>
      ⟨(marks d isFirst).2.1, (marks d isFirst).2.2.1⟩)
  have noDots : Text.standsAt "...".toList (passed ++ blanks ++ (slot.text false ++ c :: following))
      (passed ++ blanks).length = false := by
    have different : ('.' == slot.name.first) = false :=
      beq_false_of_ne (ne_of_isNamePart starts '.' (by decide)).symm
    rw [Text.standsAt_behind]
    change ('.' == slot.name.first && _) = false
    rw [different, Bool.false_and]
  have endsName : (slot.mark ++ ascribed false slot.type).head?.any Character.continuesName = false := by
    cases isFirst : (slot.mark ++ ascribed false slot.type).head? with
    | none => rfl
    | some d => exact (marks d isFirst).1
  have isBound := bindingEnd?_name (passed ++ blanks) slot.name (c :: following) pairs endsName
  have atMark := @Text.skip_eq_self (passed ++ blanks ++ slot.name.text) Text.isIndent
    (slot.mark ++ ascribed false slot.type ++ c :: following) (by
      rw [List.head?_append]
      cases isFirst : (slot.mark ++ ascribed false slot.type).head? with
      | none => rcases closes with rfl | rfl <;> rfl
      | some d => exact (marks d isFirst).2.2.2)
  have whole : passed ++ blanks ++ slot.name.text ++
      (slot.mark ++ ascribed false slot.type ++ c :: following) =
        passed ++ blanks ++ (slot.text false ++ c :: following) := by
    simp [Slot.text]
  have isMasked : passed ++ blanks ++ (slot.text false ++ c :: following) =
      passed ++ blanks ++ slot.name.text ++
        (slot.mark ++ (ascribed false slot.type ++ c :: following)) := by
    rw [← whole, List.append_assoc slot.mark]
  have isStop : (passed ++ blanks).length + (slot.text false).length =
      (passed ++ blanks ++ slot.name.text).length + (slot.mark ++ ascribed false slot.type).length := by
    simp [Slot.text]
    omega
  have edits := edits_behind_name (passed ++ blanks ++ slot.name.text) following slot.mark_eq slot.type
    closes isMasked isStop
  have reached : (passed ++ blanks ++ slot.name.text).length =
      (passed ++ blanks).length + slot.name.text.length := List.length_append
  rw [whole, reached] at atMark
  rw [reached] at edits
  rw [parameterEdits_eq skipped inside notModified noDots isBound atMark, edits, Slot.pieces,
    Piece.deletions_keep]

end Slot

/-! ## Lists -/

theorem goesOverItem_phrase (type : TypePhrase) : GoesOverItem 0 0 (type.text false) := by
  refine (type.nested false).goes scans_item (fun depth c isMark => ?_) fun c isMark => ?_
  · obtain ⟨notOpener, notCloser⟩ := isOpener_of_innerMark isMark
    exact goesOverItem_mark notOpener notCloser fun isZero => absurd isZero (Nat.succ_ne_zero depth)
  · obtain ⟨notOpener, notCloser⟩ := isOpener_of_innerMark (innerMark_of_outerMark isMark)
    refine goesOverItem_mark notOpener notCloser fun _ same => ?_
    rw [same] at isMark
    exact absurd isMark (by decide)

theorem goesOverItem_marks {word : Text}
    (level : ∀ c ∈ word, isOpener c = false ∧ isCloser c = false ∧ c ≠ ',') : GoesOverItem 0 0 word := by
  induction word with
  | nil => exact scans_item.stays 0
  | cons c rest inductionHypothesis =>
      obtain ⟨notOpener, notCloser, notComma⟩ := level c List.mem_cons_self
      exact goesOverItem_append (goesOverItem_mark notOpener notCloser fun _ => notComma)
        (inductionHypothesis fun d member => level d (List.mem_cons_of_mem c member))

/-- A parameter has no comma outside brackets. -/
theorem goesOverItem_slot (slot : Slot) : GoesOverItem 0 0 (slot.text false) := by
  have goesName : GoesOverItem 0 0 slot.name.text := by
    refine goesOverItem_marks fun c member => ?_
    have part := slot.name.isNamePart_of_mem member
    obtain ⟨notOpener, notCloser⟩ :=
      @isOpener_of_innerMark false _ (innerMark_of_outerMark (outerMark_of_isNamePart part))
    exact ⟨notOpener, notCloser, ne_of_isNamePart part ',' (by decide)⟩
  have goesMark : GoesOverItem 0 0 slot.mark := by
    rcases slot.mark_eq with isMark | isMark
    · exact isMark ▸ goesOverItem_marks (by simp)
    · exact isMark ▸ goesOverItem_marks (Text.forall_mem_of_all (by decide))
  have goesType : GoesOverItem 0 0 (ascribed false slot.type) := by
    cases slot.type with
    | none => exact goesOverItem_marks (by simp [ascribed])
    | some type =>
        exact goesOverItem_append (@goesOverItem_marks [':', ' ']
          (Text.forall_mem_of_all (by decide)))
          (goesOverItem_phrase type)
  exact goesOverItem_append goesName (goesOverItem_append goesMark goesType)

theorem itemsFrom_comma (start offset : Nat) (rest : Text) :
    itemsFrom 0 start offset (',' :: rest) =
      (start, offset) :: itemsFrom 0 (offset + 1) (offset + 1) rest :=
  rfl

/-- The items of a list of parameters have the edits of the parameters. -/
theorem itemEdits_slots (pairs : BracketPairs) (following : Text) (slots : List Slot) {passed blanks : Text}
    (areBlank : ∀ d ∈ blanks, d = ' ') (only : slots = [] → blanks = []) :
    (itemsFrom 0 passed.length passed.length
        (blanks ++ Text.join [',', ' '] (slots.map (Slot.text false)))).flatMap
          (parameterEdits (passed ++ blanks ++
            (Text.join [',', ' '] (slots.map (Slot.text false)) ++ ')' :: following)) pairs) =
      Piece.deletions (passed ++ blanks).length (slotPieces slots) := by
  have goesBlanks : GoesOverItem 0 0 blanks := goesOverItem_marks fun d member => by
    rw [areBlank d member]
    decide
  induction slots generalizing passed blanks with
  | nil =>
      obtain rfl := only rfl
      have skipped := @Text.skip_eq_self passed isLayout (')' :: following) rfl
      have empty : parameterEdits (passed ++ ')' :: following) pairs (passed.length, passed.length) = [] := by
        rw [parameterEdits]
        dsimp only
        rw [skipped, if_pos (Nat.le_refl _)]
      simpa [Text.join, itemsFrom, slotPieces, Piece.deletions] using empty
  | cons slot others inductionHypothesis =>
      have goes := goesOverItem_append goesBlanks (goesOverItem_slot slot)
      have read (rest : Text) : itemsFrom 0 passed.length passed.length
          (blanks ++ slot.text false ++ rest) =
            itemsFrom 0 passed.length ((passed ++ blanks).length + (slot.text false).length) rest := by
        have reached : passed.length + (blanks ++ slot.text false).length =
            (passed ++ blanks).length + (slot.text false).length := by
          simp
          omega
        rw [← reached]
        exact goes rest passed.length passed.length
      cases others with
      | nil =>
          have edits := parameterEdits_slot passed following pairs slot areBlank (Or.inr rfl)
          have whole : Text.join [',', ' '] ([slot].map (Slot.text false)) = slot.text false := by
            simp [Text.join]
          have readAll := read []
          rw [List.append_nil] at readAll
          rw [whole, readAll, itemsFrom, List.flatMap_singleton, slotPieces, edits]
      | cons second others =>
          have later := @inductionHypothesis (passed ++ blanks ++ slot.text false ++ [',']) [' '] (by simp)
            (fun isEmpty => absurd isEmpty (List.cons_ne_nil _ _)) (goesOverItem_marks (Text.forall_mem_of_all (by decide)))
          have joined : Text.join [',', ' '] ((slot :: second :: others).map (Slot.text false)) =
              slot.text false ++ (',' :: ([' '] ++
                Text.join [',', ' '] ((second :: others).map (Slot.text false)))) := by
            simp [Text.join_cons_cons]
          generalize Text.join [',', ' '] ((second :: others).map (Slot.text false)) = rest at later joined
          have edits := parameterEdits_slot passed ([' '] ++ (rest ++ ')' :: following)) pairs slot
            areBlank (Or.inl rfl)
          have splitLater : passed ++ blanks ++ slot.text false ++ [','] ++ [' '] ++
              (rest ++ ')' :: following) = passed ++ blanks ++
                (slot.text false ++ (',' :: ([' '] ++ (rest ++ ')' :: following)))) := by
            simp
          have begins : (passed ++ blanks ++ slot.text false ++ [',']).length =
              (passed ++ blanks).length + (slot.text false).length + 1 := by
            simp only [List.length_append, List.length_cons, List.length_nil]
          have reached : (passed ++ blanks ++ slot.text false ++ [','] ++ [' ']).length =
              (passed ++ blanks).length + (slot.text false).length + [',', ' '].length := by
            simp only [List.length_append, List.length_cons, List.length_nil]
          have splitHere : passed ++ blanks ++
              (slot.text false ++ (',' :: ([' '] ++ rest)) ++ ')' :: following) = passed ++ blanks ++
                (slot.text false ++ (',' :: ([' '] ++ (rest ++ ')' :: following)))) := by
            simp
          rw [splitLater, begins, reached] at later
          rw [joined, ← List.append_assoc blanks, read, itemsFrom_comma, List.flatMap_cons, splitHere,
            edits, later, slotPieces_cons_cons, Piece.deletions_append, Piece.deletions_keep,
            Slot.source_pieces]

end SceneBundler.Typed
