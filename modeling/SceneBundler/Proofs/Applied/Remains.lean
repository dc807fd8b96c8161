import SceneBundler.Proofs.Applied.Quiet

/-!
Contract: what normalization makes of a call with type arguments.

Owns:
- that angle brackets which stand behind names and are balanced are all peeled, and that the pass over type
  arguments leaves an angle bracket in every other call;
- that the passes behind it leave a `>` or a space in a line that has a `>`;
- that normalization strips the type arguments of a call just if no function type is among them and no
  keyword stands in front of angle brackets.

Does not own: how type arguments are written.
-/

namespace SceneBundler.Applied

open Dialect

section Stripping

variable {text next : Text}

/-- Whether every angle bracket that opens stands behind a name that can have type arguments. -/
def Headed (text : Text) : Prop :=
  ∀ before after, text = before ++ '<' :: after → ∃ word, IsHead word ∧ EndsIn word before

theorem headed_iff_of_peels (peels : Peels text next) (peelable : Peelable text) :
    Headed text ↔ Headed next := by
  constructor
  · intro headed before after split
    obtain ⟨earlier, later, isText, same⟩ := peels.exists_angle_before peelable split
    obtain ⟨word, isHead, ends⟩ := headed earlier later isText
    exact ⟨word, isHead, (same word isHead.toIsWord).mpr ends⟩
  · intro headed before after split
    rcases peels.exists_angle_after peelable split with isDeleted | ⟨earlier, later, isNext, same⟩
    · exact isDeleted
    · obtain ⟨word, isHead, ends⟩ := headed earlier later isNext
      exact ⟨word, isHead, (same word isHead.toIsWord).mpr ends⟩

/-- What peeling keeps: the names in front of angle brackets, what stands outside of these, and how many more
close than open. -/
structure Keeps (text next : Text) : Prop where
  headed : Headed text ↔ Headed next
  outside : outside 0 text = outside 0 next
  count : text.count '>' + next.count '<' = next.count '>' + text.count '<'

theorem keeps_of_reflTransGen (peels : Relation.ReflTransGen Peels text next) (peelable : Peelable text) :
    Keeps text next := by
  induction peels with
  | refl => exact ⟨Iff.rfl, rfl, rfl⟩
  | tail earlier step inductionHypothesis =>
      obtain ⟨headed, same, count⟩ := inductionHypothesis
      obtain ⟨countLess, countGreater⟩ := step.count_eq
      refine ⟨headed.trans (headed_iff_of_peels step (peelable.of_reflTransGen earlier)),
        same.trans (outside_eq_of_peels step), by omega⟩

theorem keeps_editUntilSettled (peelable : Peelable text) :
    Keeps text (editUntilSettled typeArgumentEdits text) :=
  keeps_of_reflTransGen (reflTransGen_editUntilSettled peelable) peelable

/-- A character that occurs in a text has a last place there. -/
theorem exists_last {c : Char} (member : c ∈ text) :
    ∃ before after, text = before ++ c :: after ∧ c ∉ after := by
  obtain ⟨after, before, isReversed, absent⟩ := List.eq_append_cons_of_mem (List.mem_reverse.mpr member)
  refine ⟨before.reverse, after.reverse, ?_, by simpa using absent⟩
  rw [← List.reverse_reverse text, isReversed]
  simp

/-- Angle brackets that stand behind names and are balanced are not at rest. -/
theorem not_mem_of_isSettled (peelable : Peelable text) (headed : Headed text) {bare : Text}
    (balanced : outside 0 text = some bare) (settled : IsSettled typeArgumentEdits text) :
    '<' ∉ text ∧ '>' ∉ text := by
  have noGreater : '>' ∉ text := by
    intro member
    obtain ⟨front, after, rfl, notFront⟩ := List.eq_append_cons_of_mem member
    by_cases opens : '<' ∈ front
    · obtain ⟨before, inner, rfl, notInner⟩ := exists_last opens
      have split : before ++ '<' :: inner ++ '>' :: after = before ++ '<' :: (inner ++ '>' :: after) := by simp
      obtain ⟨word, isHead, ends⟩ := headed before (inner ++ '>' :: after) split
      exact not_isSettled_typeArgumentEdits peelable isHead ends notFront notInner split settled
    · rw [outside_append_without opens notFront] at balanced
      contradiction
  refine ⟨fun member => ?_, noGreater⟩
  obtain ⟨front, after, rfl, notFront⟩ := List.eq_append_cons_of_mem member
  have notGreater : '>' ∉ front ∧ '>' ∉ after := by simpa using noGreater
  rw [outside_append_without notFront notGreater.1, outside, if_pos rfl, outside_eq_none notGreater.2] at balanced
  contradiction

/-- Of balanced angle brackets behind names, the pass leaves what stands outside of them. -/
theorem editUntilSettled_typeArgumentEdits (peelable : Peelable text) (headed : Headed text) {bare : Text}
    (balanced : outside 0 text = some bare) : editUntilSettled typeArgumentEdits text = bare := by
  have isPass : typeArgumentEdits ∈ passes := by simp [passes]
  have settled := isSettled_editUntilSettled (sublist_editOnce isPass) text
  have peels := reflTransGen_editUntilSettled peelable
  obtain ⟨sameHeads, sameOutside, _⟩ := keeps_editUntilSettled peelable
  generalize editUntilSettled typeArgumentEdits text = stripped at settled peels sameHeads sameOutside
  rw [sameOutside] at balanced
  obtain ⟨noLess, noGreater⟩ :=
    not_mem_of_isSettled (peelable.of_reflTransGen peels) (sameHeads.mp headed) balanced settled
  have all := outside_append_without noLess noGreater []
  rw [List.append_nil, balanced, outside, Option.map_some, List.append_nil] at all
  exact (Option.some.inj all).symm

/-! ## Calls -/

section Calls

variable {name : Name} {arguments : Arguments}

/-- What the pass can strip of a call: function types and keywords in front of angle brackets apart,
everything. -/
def IsStrippable (name : Name) (arguments : Arguments) : Prop :=
  arguments.arrows = 0 ∧ ∀ head ∈ name :: arguments.heads, head.text ∉ expressionKeywords

theorem peelable_call : Peelable (call name arguments) := by
  have sound : Sound (fun _ => True) (call name arguments) := call_sound fun _ _ => trivial
  exact sound.toPeelable

theorem headed_call_iff :
    Headed (call name arguments) ↔ ∀ head ∈ name :: arguments.heads, head.text ∉ expressionKeywords := by
  constructor
  · intro headed head member
    obtain ⟨before, after, split, ends⟩ := call_opensBehind member
    obtain ⟨word, isHead, endsWord⟩ := headed before after split
    rw [← EndsIn.unique endsWord isHead.toIsWord ends head.isWord]
    exact isHead.free
  · intro free before after split
    have sound : Sound (· ∉ expressionKeywords) (call name arguments) := call_sound free
    obtain ⟨word, isWord, isFree, ends⟩ := sound.named before after split
    exact ⟨word, ⟨isWord, isFree⟩, ends⟩

/-- Of a call that can be stripped the bare call is left. -/
theorem editUntilSettled_call (strippable : IsStrippable name arguments) :
    editUntilSettled typeArgumentEdits (call name arguments) = bareCall name :=
  editUntilSettled_typeArgumentEdits peelable_call (headed_call_iff.mpr strippable.2) (outside_call strippable.1)

/-- Of any other call something is left behind which an angle bracket closes. -/
theorem mem_editUntilSettled_call (other : ¬IsStrippable name arguments) :
    '>' ∈ editUntilSettled typeArgumentEdits (call name arguments) := by
  obtain ⟨sameHeads, _, count⟩ := keeps_editUntilSettled (@peelable_call name arguments)
  have excess := call_count_greater name arguments
  generalize editUntilSettled typeArgumentEdits (call name arguments) = stripped at sameHeads count
  rw [← List.count_pos_iff]
  by_cases noArrow : arguments.arrows = 0
  · have notHeaded : ¬Headed stripped := fun headed =>
      other ⟨noArrow, headed_call_iff.mp (sameHeads.mpr headed)⟩
    have opens : '<' ∈ stripped := by
      by_contra absent
      exact notHeaded fun before after split => absurd (by simp [split]) absent
    rw [← List.count_pos_iff] at opens
    omega
  · omega

end Calls

end Stripping

section Remaining

open Source (mask)

variable {text : Text} {edit : Edit}

/-! ## Passes that find nothing -/

theorem isFlat_of_mem_mask (isCallLine : IsCallLine text) {c : Char} (member : c ∈ mask text) :
    Source.isFlat c = true ∧ c ≠ '!' := by
  by_cases isSpace : c = ' '
  · rw [isSpace]
    decide
  · have isMark := isCallLine.marks c (Source.mem_of_mem_mask member isSpace)
    refine ⟨isFlat_of_isCallMark isMark, ?_⟩
    rintro rfl
    exact absurd isMark (by decide)

theorem not_mem_mask (isCallLine : IsCallLine text) : '!' ∉ mask text ∧ '\x7b' ∉ mask text := by
  refine ⟨fun member => (isFlat_of_mem_mask isCallLine member).2 rfl, fun member => ?_⟩
  exact absurd (isFlat_of_mem_mask isCallLine member).1 (by decide)

theorem nonNullEdits_mask (isCallLine : IsCallLine text) : nonNullEdits (mask text) = [] :=
  Typed.nonNullEdits_eq_nil (not_mem_mask isCallLine).1

theorem classMemberEdits_mask (isCallLine : IsCallLine text) : classMemberEdits (mask text) = [] := by
  have noClass : classHead.all (mask text) = [] := by
    refine Pattern.all_eq_nil fun passed ahead next split reads => ?_
    obtain ⟨_, lead, brace⟩ := reads
    have isIn := (Cursor.isIn_between passed ahead).of_reads lead
    rw [← split] at isIn
    exact (not_mem_mask isCallLine).2 (Untyped.mem_of_reads_char isIn brace)
  rw [classMemberEdits, noClass]
  rfl

/-! ## Stretches of the view -/

/-- What is shown without a `>`, and begins with what nothing hidden ends at, stands in the text. -/
theorem take_of_mask (isCallLine : IsCallLine text) {passed lead tail ahead : Text} {c : Char}
    (split : mask text = passed ++ (lead ++ c :: tail ++ ahead)) (noEnd : '>' ∉ lead ++ c :: tail)
    (quiet : ∀ d ∈ lead ++ [c], Source.endsHidden d = false) (visible : Character.isBlank c = false) :
    text.take (passed.length + (lead ++ c :: tail).length) = text.take passed.length ++ (lead ++ c :: tail) := by
  obtain ⟨before, after, _, isText, isLength, _⟩ :=
    Source.exists_stretch_of_mask isCallLine.flat split noEnd quiet visible
  rw [isText, ← isLength, List.take_length_add_append, List.take_left, List.take_left]

theorem endsHidden_of_isBlank {c : Char} (blank : Character.isBlank c = true) :
    Source.endsHidden c = false := by
  have marks : ∀ mark ∈ "<);".toList, Character.isBlank mark = false := Text.forall_mem_of_all (by decide)
  rw [← Bool.not_eq_true, Source.endsHidden, List.contains_iff_mem]
  intro isMark
  rw [marks c isMark] at blank
  contradiction

/-! ## Casts -/

/-- A cast begins with blanks and a keyword, and has no `>` in it. -/
theorem exists_passes_of_reads_castSuffix {cursor next : Cursor} (reads : castSuffix.Reads cursor next) :
    ∃ blanks c rest, Cursor.Passes (blanks ++ c :: rest) cursor next ∧ '>' ∉ blanks ++ c :: rest ∧
      (∀ d ∈ blanks, Character.isBlank d = true) ∧ c ∈ ['a', 's'] := by
  obtain ⟨_, ⟨behind, ⟨middle, ⟨here, ⟨_, ⟨_, rfl⟩, gap⟩, keyword⟩, gapBehind⟩, type⟩, ⟨_, rfl⟩⟩ := reads
  obtain ⟨blanks, areIndent, _, passesGap⟩ := Pattern.passes_of_reads_run gap
  obtain ⟨word, c, rest, isWord, isStart, noneInWord, passesWord⟩ : ∃ word c rest, word = c :: rest ∧
      c ∈ ['a', 's'] ∧ '>' ∉ word ∧ Cursor.Passes word here middle := by
    rcases keyword with isAs | isSatisfies
    · exact ⟨"as".toList, 'a', _, rfl, by decide, by decide, (Pattern.reads_word_iff.mp isAs).1⟩
    · exact ⟨"satisfies".toList, 's', _, rfl, by decide, by decide, (Pattern.reads_word_iff.mp isSatisfies).1⟩
  obtain ⟨more, noneInMore, passesMore⟩ := @Pattern.exists_passes_of_reads _ '>' (by decide) _ _ gapBehind
  obtain ⟨last, noneInLast, passesLast⟩ := @Pattern.exists_passes_of_reads _ '>' (by decide) _ _ type
  have areBlank : ∀ d ∈ blanks, Character.isBlank d = true := fun d isIn =>
    Character.isBlank_of_isIndent (areIndent d isIn)
  have noneInBlanks : '>' ∉ blanks := fun isIn => absurd (areBlank '>' isIn) (by decide)
  have isCast : blanks ++ word ++ more ++ last = blanks ++ c :: (rest ++ (more ++ last)) := by simp [isWord]
  refine ⟨blanks, c, rest ++ (more ++ last), ?_, ?_, areBlank, isStart⟩
  · rw [← isCast]
    exact ((passesGap.trans passesWord).trans passesMore).trans passesLast
  · rw [← isCast]
    simp [noneInBlanks, noneInWord, noneInMore, noneInLast]

/-- What is deleted as a cast has no `>` in it. -/
theorem exists_of_mem_castEdits (isCallLine : IsCallLine text) (member : edit ∈ castEdits (mask text)) :
    ∃ cast, text.take edit.stop = text.take edit.start ++ cast ∧ '>' ∉ cast := by
  obtain ⟨found, isCast, rfl⟩ := List.mem_map.mp member
  obtain ⟨passed, ahead, split, foundHere⟩ := Pattern.find_of_mem_all (List.mem_filter.mp isCast).1
  obtain ⟨next, reads, rfl⟩ := Pattern.reads_of_find foundHere
  obtain ⟨blanks, c, rest, passes, noGreater, areBlank, isStart⟩ := exists_passes_of_reads_castSuffix reads
  have starts : ∀ d ∈ ['a', 's'], Source.endsHidden d = false ∧ Character.isBlank d = false :=
    Text.forall_mem_of_all (by decide)
  have quiet : ∀ d ∈ blanks ++ [c], Source.endsHidden d = false := by
    intro d isIn
    rcases List.mem_append.mp isIn with isBlank | isFirst
    · exact endsHidden_of_isBlank (areBlank d isBlank)
    · rw [List.mem_singleton.mp isFirst]
      exact (starts c isStart).1
  have isSplit : mask text = passed ++ (blanks ++ c :: rest ++ next.ahead) := by
    rw [split, ← passes.ahead_eq]
    rfl
  refine ⟨blanks ++ c :: rest, ?_, noGreater⟩
  change text.take next.offset = text.take passed.length ++ (blanks ++ c :: rest)
  rw [passes.offset_eq]
  exact take_of_mask isCallLine isSplit noGreater quiet (starts c isStart).2

/-! ## Declarations -/

/-- Each edit of a declaration stands behind the gap after its keyword. -/
theorem mem_take_of_mem_declarationEdits (isCallLine : IsCallLine text)
    (member : edit ∈ declarationEdits (mask text)) : ' ' ∈ text.take edit.start := by
  obtain ⟨found, isFound, bound, isBound, isEdit⟩ := exists_bindingEdit_of_mem_declarationEdits member
  have behind : found.stop ≤ edit.start := Nat.le_trans (le_of_bindingEnd? isBound) isEdit.bounds.1
  obtain ⟨passed, ahead, split, foundHere⟩ := Pattern.find_of_mem_all isFound
  obtain ⟨next, reads, rfl⟩ := Pattern.reads_of_find foundHere
  obtain ⟨here, ⟨middle, ⟨_, ⟨_, rfl⟩, keyword⟩, gap⟩, follows, rfl⟩ := reads
  obtain ⟨blanks, areBlank, enough, passesGap⟩ := Pattern.passes_of_reads_run gap
  obtain ⟨c, rest, isStart, noneInWord, passesWord⟩ : ∃ c rest, c ∈ ['c', 'l', 'v'] ∧ '>' ∉ c :: rest ∧
      Cursor.Passes (c :: rest) (Cursor.between passed ahead) middle := by
    rcases keyword with isConst | isLet | isVar
    · exact ⟨'c', "onst".toList, by decide, by decide, (Pattern.reads_word_iff.mp isConst).1⟩
    · exact ⟨'l', "et".toList, by decide, by decide, (Pattern.reads_word_iff.mp isLet).1⟩
    · exact ⟨'v', "ar".toList, by decide, by decide, (Pattern.reads_word_iff.mp isVar).1⟩
  have passes := passesWord.trans passesGap
  have noneInBlanks : '>' ∉ blanks := fun isIn => absurd (areBlank '>' isIn) (by decide)
  have noEnd : '>' ∉ [] ++ c :: (rest ++ blanks) := by simpa [noneInBlanks] using noneInWord
  have starts : ∀ d ∈ ['c', 'l', 'v'], Source.endsHidden d = false ∧ Character.isBlank d = false :=
    Text.forall_mem_of_all (by decide)
  have isSplit : mask text = passed ++ ([] ++ c :: (rest ++ blanks) ++ next.ahead) := by
    have isAhead : ahead = c :: rest ++ blanks ++ next.ahead := passes.ahead_eq
    rw [split, isAhead]
    rfl
  have taken := take_of_mask isCallLine isSplit noEnd (by simpa using (starts c isStart).1) (starts c isStart).2
  -- something stands behind the gap, so its blanks are spaces
  obtain ⟨there, begins⟩ := follows.mpr rfl
  obtain ⟨d, _, passesNext, _⟩ := Cursor.passes_of_step? begins
  have reached : passed.length + ([] ++ c :: (rest ++ blanks)).length = next.offset := by
    rw [passes.offset_eq]
    rfl
  have inside : next.offset < text.length := by
    rw [← Source.length_mask text, isSplit, passesNext.ahead_eq, ← reached]
    simp only [List.length_append, List.length_cons]
    omega
  rcases List.eq_nil_or_concat blanks with rfl | ⟨earlier, b, rfl⟩
  · exact absurd enough (Nat.not_succ_le_zero 0)
  · obtain ⟨e, later, isLater⟩ : ∃ e later, text.drop next.offset = e :: later :=
      ⟨_, _, List.drop_eq_getElem_cons inside⟩
    have isWhole : text = (text.take passed.length ++ c :: (rest ++ earlier)) ++ b :: e :: later := calc
      text = text.take next.offset ++ text.drop next.offset := (List.take_append_drop _ _).symm
      _ = _ := by
        rw [isLater, ← reached, taken]
        simp
    have isSpace := isCallLine.eq_space isWhole (areBlank b (by simp))
    have isIn : ' ' ∈ text.take next.offset := by
      rw [← reached, taken, ← isSpace]
      simp
    exact (List.take_prefix_take_left behind).subset isIn

/-! ## Signatures -/

/-- Each edit of a signature stands in front of a `>`. -/
theorem mem_drop_of_mem_signatureEdits (isCallLine : IsCallLine text)
    (member : edit ∈ signatureEdits (mask text)) : '>' ∈ text.drop edit.stop := by
  obtain ⟨offset, isBefore, isArrow | isBrace⟩ := exists_follower_of_mem_signatureEdits member
  · rw [Text.standsAt, List.isPrefixOf_iff_prefix] at isArrow
    obtain ⟨rest, isAhead⟩ := isArrow
    have isShown : (mask text)[offset + 1]? = some '>' := by
      rw [← List.getElem?_drop, ← isAhead]
      rfl
    have isThere := Source.getElem?_of_mask isShown (by decide)
    have isBehind : (text.drop edit.stop)[offset + 1 - edit.stop]? = some '>' := by
      rw [List.getElem?_drop, ← isThere]
      congr 1
      omega
    exact List.mem_of_getElem? isBehind
  · exact absurd (List.mem_of_getElem? isBrace) (not_mem_mask isCallLine).2

/-! ## All passes -/

/-- What no single deletion takes away, no set of them does. -/
theorem holds_editOnce {collect : Text -> List Edit} {holds : Text -> Prop} (isPass : collect ∈ passes)
    (each : ∀ edit ∈ collect (mask text), ∀ after,
      holds (text.take edit.stop ++ after) → holds (text.take edit.start ++ after)) (here : holds text) :
    holds (editOnce collect text) := by
  have steps := @Edit.reflTransGen_applyAll (fun first second => holds first → holds second) text
    (collect (mask text)) (isDeletion_of_mem_passes isPass) each
  rw [editOnce]
  generalize Edit.applyAll (collect (mask text)) text = last at steps
  induction steps with
  | refl => exact here
  | tail _ step inductionHypothesis => exact step inductionHypothesis

/-- A line of a call that has a `>`. -/
structure Closes (text : Text) : Prop extends IsCallLine text where
  closes : '>' ∈ text

/-- A line of a call that has a `>` or a space. -/
structure Remains (text : Text) : Prop extends IsCallLine text where
  remains : '>' ∈ text ∨ ' ' ∈ text

/-- The passes over marks, casts and classes leave every `>`. -/
theorem closes_editOnce {collect : Text -> List Edit}
    (isPass : collect ∈ [nonNullEdits, castEdits, classMemberEdits])
    (isClosed : Closes text) : Closes (editOnce collect text) := by
  obtain ⟨isCallLine, closes⟩ := isClosed
  simp only [List.mem_cons, List.not_mem_nil, or_false] at isPass
  have among : collect ∈ passes := by
    rcases isPass with rfl | rfl | rfl <;> simp [passes]
  refine ⟨isCallLine.sublist (sublist_editOnce among text), ?_⟩
  refine @holds_editOnce text collect ('>' ∈ ·) among (fun edit member after isThere => ?_) closes
  rcases isPass with rfl | rfl | rfl
  · rw [nonNullEdits_mask isCallLine] at member
    contradiction
  · obtain ⟨cast, isStretch, noGreater⟩ := exists_of_mem_castEdits isCallLine member
    rw [isStretch] at isThere
    simpa [noGreater] using isThere
  · rw [classMemberEdits_mask isCallLine] at member
    contradiction

/-- Of the signatures behind one another, the last leaves the `>` of its arrow. -/
theorem mem_editOnce_signatureEdits (isCallLine : IsCallLine text) (closes : '>' ∈ text) :
    '>' ∈ editOnce signatureEdits text := by
  obtain ⟨before, after, split, notLater⟩ := exists_last closes
  have within : ∀ edit ∈ signatureEdits (mask text), edit.stop ≤ before.length := by
    intro edit member
    by_contra beyond
    refine notLater ?_
    have isBehind := mem_drop_of_mem_signatureEdits isCallLine member
    have isWhole : text = (before ++ ['>']) ++ after := by simp [split]
    have isTaken : (before ++ ['>']).drop edit.stop = [] :=
      List.drop_eq_nil_iff.mpr (by simpa using Nat.succ_le_of_lt (Nat.lt_of_not_le beyond))
    rw [isWhole, List.drop_append, isTaken, List.nil_append] at isBehind
    exact List.mem_of_mem_drop isBehind
  have kept := @Edit.suffix_applyAll _ text _ within
  have isKept : text.drop before.length = '>' :: after := by rw [split, List.drop_left]
  rw [isKept] at kept
  exact kept.subset List.mem_cons_self

/-- The passes over declarations and signatures leave a `>` or a space. -/
theorem remains_editOnce {collect : Text -> List Edit} (isPass : collect ∈ [declarationEdits, signatureEdits])
    (isLeft : Remains text) : Remains (editOnce collect text) := by
  obtain ⟨isCallLine, remains⟩ := isLeft
  simp only [List.mem_cons, List.not_mem_nil, or_false] at isPass
  rcases isPass with rfl | rfl
  · have among : declarationEdits ∈ passes := by simp [passes]
    refine ⟨isCallLine.sublist (sublist_editOnce among text), ?_⟩
    refine @holds_editOnce text _ (fun text => '>' ∈ text ∨ ' ' ∈ text) among
      (fun edit member after _ => ?_) remains
    exact Or.inr (List.mem_append_left after (mem_take_of_mem_declarationEdits isCallLine member))
  · have among : signatureEdits ∈ passes := by simp [passes]
    refine ⟨isCallLine.sublist (sublist_editOnce among text), ?_⟩
    by_cases closes : '>' ∈ text
    · exact Or.inl (mem_editOnce_signatureEdits isCallLine closes)
    · have nothing : signatureEdits (mask text) = [] := by
        rw [List.eq_nil_iff_forall_not_mem]
        intro edit member
        exact closes (List.mem_of_mem_drop (mem_drop_of_mem_signatureEdits isCallLine member))
      rw [editOnce, nothing]
      exact remains

/-- What still has a `>` when its type arguments are stripped has a `>` or a space in the end. -/
theorem remains_editAll (isClosed : Closes text) : Remains (editAll (passes.drop 2) text) := by
  have split : passes.drop 2 =
      [nonNullEdits, castEdits, classMemberEdits] ++ [declarationEdits, signatureEdits] := rfl
  have closed : Closes (editAll [nonNullEdits, castEdits, classMemberEdits] text) :=
    editAll_preserves (fun _ isPass _ => closes_editOnce isPass) isClosed
  rw [split, editAll, List.foldl_append]
  exact editAll_preserves (fun _ isPass _ => remains_editOnce isPass) ⟨closed.toIsCallLine, Or.inl closed.closes⟩

/-! ## Calls -/

/-- The type arguments of a call are stripped whole just if there is no function type among them and no
keyword in front of angle brackets. -/
theorem normalize_call_iff (name : Name) (arguments : Arguments) :
    normalize (call name arguments) = (bareCall name, []) ↔
      arguments.arrows = 0 ∧ ∀ head ∈ name :: arguments.heads, head.text ∉ expressionKeywords := by
  have sound : Sound (fun _ => True) (call name arguments) := call_sound fun _ _ => trivial
  have begins : call name arguments = name.text ++ '<' :: (arguments.text ++ '>' :: "(x);\n".toList) := by
    simp [call, Argument.text]
  have isCons : passes.tail = typeArgumentEdits :: passes.drop 2 := rfl
  rw [normalize_eq_of_gapless sound (gapless_mask sound begins (Or.inl rfl)), isCons, editAll, List.foldl_cons,
    Prod.mk.injEq, and_iff_left rfl]
  constructor
  · intro isBare
    by_contra other
    have peels := reflTransGen_editUntilSettled (@peelable_call name arguments)
    have isCallLine := isCallLine_of_peelable (peelable_call.of_reflTransGen peels)
    have remains := remains_editAll ⟨isCallLine, mem_editUntilSettled_call other⟩
    rw [show editAll (passes.drop 2) _ = bareCall name from isBare] at remains
    exact remains.remains.elim (not_mem_bareCall name (by decide) (by decide))
      (not_mem_bareCall name (by decide) (by decide))
  · intro strippable
    rw [editUntilSettled_call strippable]
    exact (editAll_eq_self_iff (List.drop_subset 2 passes) _).mpr fun collect isPass =>
      isSettled_bareCall name collect (isCons ▸ List.mem_cons_of_mem _ isPass)

example : normalize "f<Map<string, N<T>[]>, [A | B]>(x);\n".toList = ("f(x);\n".toList, []) := by
  decide +kernel

/-- The type of a function with a parameter. -/
def functionType : Argument :=
  .function ⟨"k".toList, by decide⟩ (.name ⟨"T".toList, by decide⟩) (.name ⟨"T".toList, by decide⟩)

/-- The list of type arguments is taken to end with the arrow of a function type in it. -/
theorem normalize_call_functionType :
    call ⟨"f".toList, by decide⟩ (.last functionType) = "f<(k: T) => T>(x);\n".toList ∧
      normalize "f<(k: T) => T>(x);\n".toList = ("f T>(x);\n".toList, []) ∧
        bareCall ⟨"f".toList, by decide⟩ ≠ "f T>(x);\n".toList := by
  decide +kernel

end Remaining

end SceneBundler.Applied
