import Mathlib.Logic.Function.Iterate
import SceneBundler.Proofs.Dialect.Settled
import SceneBundler.Proofs.Source.LineRemoval

/-!
Contract: the passes of erasure run until they find nothing more.

Owns:
- that every edit of every pass lies within the text it was found in;
- that each round of a pass which changes a text shortens it, so that a pass ends because a round changes
  nothing and never because its rounds are used up.

Does not own: which stretches a pass deletes.
-/

namespace SceneBundler

/-! ## Places within a text -/

theorem Text.skip_le_length (accepts : Char -> Bool) {text : Text} {offset : Nat}
    (inside : offset ≤ text.length) : Text.skip accepts text offset ≤ text.length := by
  have run := (List.takeWhile_sublist accepts (l := text.drop offset)).length_le
  rw [List.length_drop] at run
  unfold Text.skip
  omega

namespace Pattern

variable {pattern : Pattern} {text : Text} {start stop : Nat} {found : Match}

/-- A match ends no later than the text that it is looked for in. -/
theorem stop_le_of_find {cursor : Cursor} (foundHere : pattern.find cursor = some found) :
    found.stop ≤ cursor.offset + cursor.ahead.length := by
  obtain ⟨next, reads, rfl⟩ := reads_of_find foundHere
  obtain ⟨word, passes⟩ := passes_of_reads reads
  have conserved := passes.conserves
  dsimp only
  omega

theorem stop_le_of_firstFrom? {previous : Option Char} {offset : Nat} {ahead : Text}
    (foundFirst : pattern.firstFrom? previous offset ahead = some found) :
    found.stop ≤ offset + ahead.length := by
  induction ahead generalizing previous offset with
  | nil => exact stop_le_of_find foundFirst
  | cons c rest inductionHypothesis =>
      rw [firstFrom?] at foundFirst
      split at foundFirst
      next here foundHere =>
        rw [← Option.some.inj foundFirst]
        exact stop_le_of_find foundHere
      next =>
        have inside := inductionHypothesis foundFirst
        rw [List.length_cons]
        omega

theorem length_slice_le (text : Text) (start stop : Nat) :
    (Text.slice text start stop).length ≤ text.length - start := by
  rw [Text.slice, List.length_take, List.length_drop]
  exact Nat.min_le_right _ _

theorem stop_le_length_of_matchWithin? (inside : start ≤ text.length)
    (foundHere : pattern.matchWithin? text start stop = some found) : found.stop ≤ text.length := by
  have bound : found.stop ≤ start + (Text.slice text start stop).length := stop_le_of_find foundHere
  have room := length_slice_le text start stop
  omega

theorem stop_le_length_of_firstWithin? (inside : start ≤ text.length)
    (foundFirst : pattern.firstWithin? text start stop = some found) : found.stop ≤ text.length := by
  have bound : found.stop ≤ start + (Text.slice text start stop).length :=
    stop_le_of_firstFrom? foundFirst
  have room := length_slice_le text start stop
  omega

end Pattern

namespace Dialect

open Pattern (stop_le_length isOrdered_of_mem_all isOrdered_of_matchWithin?
  stop_le_length_of_matchWithin? stop_le_length_of_firstWithin?)
open Source (BracketPairs)

variable {masked : Text} {edit : Edit}

/-! ## The ends of edits -/

theorem lt_length_of_getElem? {offset : Nat} {c : Char} (isThere : masked[offset]? = some c) :
    offset < masked.length :=
  (List.getElem?_eq_some_iff.mp isThere).1

theorem statementEnd_le_length {start : Nat} (inside : start ≤ masked.length) :
    statementEnd masked start ≤ masked.length := by
  have bound (text : Text) : ∀ depth last passed,
      statementLength depth last passed text ≤ passed + text.length := by
    induction text with
    | nil => exact fun _ _ _ => Nat.le_refl _
    | cons c rest inductionHypothesis =>
        intro depth last passed
        rw [List.length_cons]
        rcases statementPasses_or_ends last c rest depth with ⟨next, passes⟩ | ⟨taken, ends⟩
        · rw [statementLength_passes passes]
          have later := inductionHypothesis next (if Character.isBlank c then last else some c) (passed + 1)
          omega
        · rw [statementLength_ends ends]
          cases ends <;> omega
  have whole := bound (masked.drop start) 0 none 0
  rw [List.length_drop] at whole
  unfold statementEnd
  omega

theorem stop_statementRemoval_le {start stop : Nat} (inside : stop ≤ masked.length) :
    (statementRemoval masked start stop).stop ≤ masked.length := by
  obtain ⟨behind, isBehind, isRemoval⟩ := statementRemoval_cases masked start stop
  have behindInside : behind ≤ masked.length := by
    rcases isBehind with rfl | ⟨isEnd, rfl⟩
    · exact inside
    · exact lt_length_of_getElem? isEnd
  rcases isRemoval with ⟨isBreak, isRemoval⟩ | ⟨_, isRemoval⟩
  · rw [isRemoval]
    exact lt_length_of_getElem? isBreak
  · rw [isRemoval]
    exact behindInside

theorem trimmedEnd_le_length {start stop : Nat} (inside : start ≤ masked.length) :
    trimmedEnd masked start stop ≤ masked.length := by
  have trimmed := length_trimEnd_le (Text.slice masked start stop)
  have room := Pattern.length_slice_le masked start stop
  unfold trimmedEnd
  dsimp only
  omega

/-! ## The edits of each pass -/

theorem inside_typeDeclarationEdits (member : edit ∈ typeDeclarationEdits masked) :
    edit.stop ≤ masked.length := by
  cases isTypeDeclarationEdit_of_mem member with
  | typesOnly isImport =>
      have ordered := (isOrdered_of_mem_all isImport).ordered
      have inside := stop_le_length isImport
      exact stop_statementRemoval_le (statementEnd_le_length (by omega))
  | interface _ paired => exact stop_statementRemoval_le (BracketPairs.lt_of_closerOf? paired)
  | typeAlias isHead => exact stop_statementRemoval_le (statementEnd_le_length (stop_le_length isHead))
  | ambient isHead => exact stop_statementRemoval_le (statementEnd_le_length (stop_le_length isHead))

theorem inside_typeArgumentEdits (member : edit ∈ typeArgumentEdits masked) :
    edit.stop ≤ masked.length := by
  cases isTypeArgumentEdit_of_mem member with
  | arguments isList => exact stop_le_length isList
  | arrow isArrow => exact stop_le_length isArrow

theorem inside_nonNullEdits (member : edit ∈ nonNullEdits masked) : edit.stop ≤ masked.length := by
  obtain ⟨found, isMember | isLineEnd, rfl⟩ := exists_of_mem_nonNullEdits member
  · exact stop_le_length isMember
  · exact stop_le_length isLineEnd

theorem inside_castEdits (member : edit ∈ castEdits masked) : edit.stop ≤ masked.length := by
  obtain ⟨found, isCast, rfl⟩ := exists_cast_of_mem_castEdits member
  exact stop_le_length isCast

theorem inside_of_isMemberEdit {limit lineStart : Nat} (inside : lineStart ≤ masked.length)
    (isEdit : IsMemberEdit masked limit lineStart edit) : edit.stop ≤ masked.length := by
  obtain ⟨ofModifiers, behindModifiers⟩ : _ ∧ (modifiersAt masked limit lineStart).2 ≤ masked.length :=
    memberModifiers_induction (· ≤ masked.length) stop_le_length_of_matchWithin?
      (Text.skip_le_length Text.isIndent inside)
  cases isEdit with
  | modifier isModifier =>
      obtain ⟨place, found, placeInside, foundHere, rfl⟩ := ofModifiers edit isModifier
      exact stop_le_length_of_matchWithin? placeInside foundHere
  | mark isField known =>
      have spanInside := ((isOrdered_of_matchWithin? isField).2.inside known).2.2
      exact Nat.le_trans spanInside (stop_le_length_of_matchWithin? behindModifiers isField)
  | ascription isField =>
      have foundInside := stop_le_length_of_matchWithin? behindModifiers isField
      exact trimmedEnd_le_length (by omega)

theorem bounds_of_mem_memberLineStarts {depth : Int} {offset place : Nat} {text : Text}
    (member : place ∈ memberLineStarts depth offset text) : place ≤ offset + text.length := by
  induction text generalizing depth offset with
  | nil => contradiction
  | cons c rest inductionHypothesis =>
      have onward {depth : Int} (isLater : place ∈ memberLineStarts depth (offset + 1) rest) :
          place ≤ offset + (c :: rest).length := by
        have later := inductionHypothesis isLater
        rw [List.length_cons]
        omega
      rw [memberLineStarts] at member
      split at member
      · rcases List.mem_cons.mp member with rfl | isLater
        · rw [List.length_cons]
          omega
        · exact onward isLater
      · split at member
        · exact onward member
        · split at member
          · exact onward member
          · exact onward member

theorem inside_classMemberEdits (member : edit ∈ classMemberEdits masked) :
    edit.stop ≤ masked.length := by
  cases isClassEdit_of_mem member with
  | clause isHead isClause =>
      have ordered := (isOrdered_of_mem_all isHead).ordered
      exact stop_le_length_of_firstWithin? (Nat.le_trans ordered (stop_le_length isHead)) isClause
  | @member found closed lineStart _ _ paired isStart isOfLine =>
      have closedInside := BracketPairs.lt_of_closerOf? paired
      have opensBefore := BracketPairs.opener_lt_of_closerOf? paired
      have reached := bounds_of_mem_memberLineStarts isStart
      have room := Pattern.length_slice_le masked (found.stop - 1 + 1) closed
      exact inside_of_isMemberEdit (by omega) isOfLine

theorem inside_declarationEdits (member : edit ∈ declarationEdits masked) :
    edit.stop ≤ masked.length := by
  obtain ⟨_, _, _, _, isEdit⟩ := exists_bindingEdit_of_mem_declarationEdits member
  exact isEdit.bounds.2.2

theorem inside_signatureEdits (member : edit ∈ signatureEdits masked) : edit.stop ≤ masked.length := by
  cases isSignatureEdit_of_mem member with
  | @parameter opened closed item _ isPair _ isItem isOfItem =>
      have closedInside : closed < masked.length := by
        rcases BracketPairs.closer_of_mem_ofKind isPair with isEarlier | ⟨place, isPlace, isCloser⟩
        · contradiction
        · obtain rfl : closed = place := by simpa using isPlace
          exact lt_length_of_getElem? isCloser
      exact Nat.le_trans (stop_le_of_mem_parameterEdits isPair isItem isOfItem) (Nat.le_of_lt closedInside)
  | result _ _ known =>
      obtain ⟨colon, stop, _, isColon, _, rfl, _⟩ := exists_of_afterParameters known
      exact trimmedEnd_le_length (Nat.le_of_lt (lt_length_of_getElem? isColon))

/-- Every edit of every pass ends within the text it was found in. -/
theorem inside_of_mem_passes {collect : Text -> List Edit} (isPass : collect ∈ passes)
    (member : edit ∈ collect masked) : edit.stop ≤ masked.length := by
  simp only [passes, List.mem_cons, List.not_mem_nil, or_false] at isPass
  rcases isPass with rfl | rfl | rfl | rfl | rfl | rfl | rfl
  · exact inside_typeDeclarationEdits member
  · exact inside_typeArgumentEdits member
  · exact inside_nonNullEdits member
  · exact inside_castEdits member
  · exact inside_classMemberEdits member
  · exact inside_declarationEdits member
  · exact inside_signatureEdits member

/-! ## Rounds -/

/-- A pass whose rounds only delete ends in a round that changes nothing, and before it has made more
rounds than the text has characters. -/
theorem exists_round_of_sublist {collect : Text -> List Edit}
    (deletes : ∀ text, (editOnce collect text).Sublist text) (text : Text) :
    ∃ round ≤ text.length, (editOnce collect)^[round] text = editUntilSettled collect text := by
  induction bound : text.length using Nat.strongRecOn generalizing text with
  | ind length inductionHypothesis =>
      subst bound
      by_cases settled : editOnce collect text = text
      · exact ⟨0, Nat.zero_le _, ((editUntilSettled_eq_self_iff deletes).mpr settled).symm⟩
      · have shorter := length_editOnce_lt deletes settled
        obtain ⟨round, early, reached⟩ := inductionHypothesis _ shorter _ rfl
        refine ⟨round + 1, by omega, ?_⟩
        rw [Function.iterate_succ_apply, reached, editUntilSettled_editOnce deletes]

/-- What makes a pass end on a text: all it finds are deletions within the text, and a round that changes
the text shortens it.  So after some round, no later than there are characters, the next one changes
nothing; the rounds a pass has are never used up, and more of them would lead no further. -/
structure ComesToRest (collect : Text -> List Edit) (text : Text) : Prop where
  deletions : ∀ edit ∈ collect (Source.mask text),
    edit.replacement = [] ∧ edit.start ≤ edit.stop ∧ edit.stop ≤ text.length
  shortens : editOnce collect text ≠ text → (editOnce collect text).length < text.length
  reached : ∃ round ≤ text.length, (editOnce collect)^[round] text = editUntilSettled collect text
  settled : editOnce collect (editUntilSettled collect text) = editUntilSettled collect text
  enough : ∀ rounds, text.length < rounds →
    editWithin collect rounds text = editUntilSettled collect text

/-- Every pass comes to rest on every text. -/
theorem comesToRest_of_mem_passes (collect : Text -> List Edit) (isPass : collect ∈ passes) (text : Text) :
    ComesToRest collect text where
  deletions := by
    intro edit member
    obtain ⟨noReplacement, ordered⟩ := isDeletion_of_mem_passes isPass edit member
    have inside := inside_of_mem_passes isPass member
    rw [Source.length_mask] at inside
    exact ⟨noReplacement, ordered, inside⟩
  shortens := length_editOnce_lt (sublist_editOnce isPass)
  reached := exists_round_of_sublist (sublist_editOnce isPass) text
  settled := isSettled_editUntilSettled (sublist_editOnce isPass) text
  enough := fun _ enough => editWithin_eq_of_enough (sublist_editOnce isPass) enough (Nat.lt_succ_self _)

/-- Nested type arguments take the pass over them two rounds, and a third one finds nothing. -/
theorem comesToRest_nestedArguments :
    typeArgumentEdits ∈ passes ∧ ComesToRest typeArgumentEdits "f<A<B>>(x);\n".toList ∧
      (editOnce typeArgumentEdits)^[2] "f<A<B>>(x);\n".toList = "f(x);\n".toList := by
  have isPass : typeArgumentEdits ∈ passes := by simp [passes]
  exact ⟨isPass, comesToRest_of_mem_passes typeArgumentEdits isPass _, by decide⟩

end Dialect

end SceneBundler
