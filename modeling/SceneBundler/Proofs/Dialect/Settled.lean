import SceneBundler.Dialect.Erasure
import SceneBundler.Proofs.Dialect.Deletion
import SceneBundler.Proofs.Dialect.Enumeration
import SceneBundler.Proofs.Source.Bracket
import SceneBundler.Proofs.Text.Bounds
import SceneBundler.Proofs.Text.Pieces

/-!
Contract: passes of erasure, and when normalizing a text changes nothing.

Owns:
- that every edit of every pass is a deletion that does not end before it begins;
- that each pass runs until it finds nothing more to delete;
- that a text is its own normal form just if it has no unsupported construct, no enumeration to
  convert, and nothing for any pass to delete;
- what has to hold of a normalized text for it to be its own normal form, and one that is not.

Does not own: which stretches a pass deletes.
-/

namespace SceneBundler.Dialect

open Edit (isDeletion_deletion)
open Source (BracketPairs)
open Pattern (isOrdered_of_mem_all isOrdered_of_matchWithin? isOrdered_of_firstWithin?)

variable {masked : Text}

theorem isDeletion_typeDeclarationEdits : ∀ edit ∈ typeDeclarationEdits masked, edit.IsDeletion := by
  intro edit member
  cases isTypeDeclarationEdit_of_mem member with
  | typesOnly => exact isDeletion_statementRemoval (le_statementEnd _)
  | interface isHead paired =>
      have closes := BracketPairs.opener_lt_of_closerOf? paired
      have ordered := (isOrdered_of_mem_all isHead).ordered
      exact isDeletion_statementRemoval (by omega)
  | typeAlias isHead =>
      have ordered := (isOrdered_of_mem_all isHead).ordered
      exact isDeletion_statementRemoval (Nat.le_trans ordered (le_statementEnd _))
  | ambient isHead =>
      have ordered := (isOrdered_of_mem_all isHead).ordered
      exact isDeletion_statementRemoval (Nat.le_trans ordered (le_statementEnd _))

theorem isDeletion_typeArgumentEdits : ∀ edit ∈ typeArgumentEdits masked, edit.IsDeletion := by
  intro edit member
  cases isTypeArgumentEdit_of_mem member with
  | arguments isList known =>
      have inside := (isOrdered_of_mem_all isList).inside known
      exact isDeletion_deletion (by omega)
  | arrow isArrow known => exact isDeletion_deletion ((isOrdered_of_mem_all isArrow).inside known).2.2

theorem isDeletion_nonNullEdits : ∀ edit ∈ nonNullEdits masked, edit.IsDeletion := by
  intro edit member
  obtain ⟨found, isMember | isLineEnd, rfl⟩ := exists_of_mem_nonNullEdits member
  · exact isDeletion_deletion (isOrdered_of_mem_all isMember).ordered
  · exact isDeletion_deletion (isOrdered_of_mem_all isLineEnd).ordered

theorem isDeletion_castEdits : ∀ edit ∈ castEdits masked, edit.IsDeletion := by
  intro edit member
  obtain ⟨found, isCast, rfl⟩ := exists_cast_of_mem_castEdits member
  exact isDeletion_deletion (isOrdered_of_mem_all isCast).ordered

theorem isDeletion_of_isMemberEdit {limit lineStart : Nat} {edit : Edit}
    (isEdit : IsMemberEdit masked limit lineStart edit) : edit.IsDeletion := by
  cases isEdit with
  | modifier isModifier =>
      obtain ⟨_, found, _, foundHere, rfl⟩ :=
        (memberModifiers_induction (fun _ => True) (fun _ _ => trivial) trivial).1 edit isModifier
      exact isDeletion_deletion (isOrdered_of_matchWithin? foundHere).2.ordered
  | mark isField known =>
      exact isDeletion_deletion ((isOrdered_of_matchWithin? isField).2.inside known).2.1
  | ascription => exact isDeletion_annotationRemoval ..

theorem isDeletion_classMemberEdits : ∀ edit ∈ classMemberEdits masked, edit.IsDeletion := by
  intro edit member
  cases isClassEdit_of_mem member with
  | clause _ isClause => exact isDeletion_deletion (isOrdered_of_firstWithin? isClause).ordered
  | member _ _ _ isOfLine => exact isDeletion_of_isMemberEdit isOfLine

theorem isDeletion_declarationEdits : ∀ edit ∈ declarationEdits masked, edit.IsDeletion := by
  intro edit member
  obtain ⟨_, _, _, _, isEdit⟩ := exists_bindingEdit_of_mem_declarationEdits member
  exact isEdit.isDeletion

theorem isDeletion_parameterEdits {pairs : BracketPairs} {item : Nat × Nat} :
    ∀ edit ∈ parameterEdits masked pairs item, edit.IsDeletion := by
  intro edit member
  cases isParameterEdit_of_mem member with
  | modifier _ isModifier => exact isDeletion_deletion (isOrdered_of_matchWithin? isModifier).2.ordered
  | behind _ _ _ isEdit => exact isEdit.isDeletion

theorem isDeletion_signatureEdits : ∀ edit ∈ signatureEdits masked, edit.IsDeletion := by
  intro edit member
  cases isSignatureEdit_of_mem member with
  | parameter _ _ _ isOfItem => exact isDeletion_parameterEdits edit isOfItem
  | result _ _ known =>
      obtain ⟨colon, stop, _, _, _, rfl, _⟩ := exists_of_afterParameters known
      exact isDeletion_deletion (Nat.le_add_right _ _)

/-- Every edit of every pass is a deletion. -/
theorem isDeletion_of_mem_passes {collect : Text -> List Edit} (isPass : collect ∈ passes) :
    ∀ edit ∈ collect masked, edit.IsDeletion := by
  simp only [passes, List.mem_cons, List.not_mem_nil, or_false] at isPass
  rcases isPass with rfl | rfl | rfl | rfl | rfl | rfl | rfl
  · exact isDeletion_typeDeclarationEdits
  · exact isDeletion_typeArgumentEdits
  · exact isDeletion_nonNullEdits
  · exact isDeletion_castEdits
  · exact isDeletion_classMemberEdits
  · exact isDeletion_declarationEdits
  · exact isDeletion_signatureEdits

/-! ## Rounds of a pass -/

/-- One round of a pass. -/
def editOnce (collect : Text -> List Edit) (text : Text) : Text :=
  Edit.applyAll (collect (Source.mask text)) text

/-- Whether a pass has nothing more to do on a text. -/
def IsSettled (collect : Text -> List Edit) (text : Text) : Prop :=
  editOnce collect text = text

instance (collect : Text -> List Edit) (text : Text) : Decidable (IsSettled collect text) :=
  inferInstanceAs (Decidable (editOnce collect text = text))

/-! ## One pass -/

section Pass

variable {collect : Text -> List Edit}

theorem editWithin_succ {rounds : Nat} {text : Text} :
    editWithin collect (rounds + 1) text =
      if editOnce collect text = text then text
      else editWithin collect rounds (editOnce collect text) :=
  rfl

/-- A round that changes a text shortens it. -/
theorem length_editOnce_lt (deletes : ∀ text, (editOnce collect text).Sublist text) {text : Text}
    (changed : editOnce collect text ≠ text) : (editOnce collect text).length < text.length := by
  refine Nat.lt_of_le_of_ne (deletes text).length_le fun sameLength => ?_
  exact changed ((deletes text).eq_of_length sameLength)

/-- More rounds than the text has characters are enough for a pass whose rounds only delete: each
round but the last one shortens the text. -/
theorem editWithin_of_sublist (deletes : ∀ text, (editOnce collect text).Sublist text) {rounds : Nat}
    {text : Text} (enough : text.length < rounds) :
    IsSettled collect (editWithin collect rounds text) ∧
      (editWithin collect rounds text).Sublist text := by
  induction rounds generalizing text with
  | zero => exact absurd enough (Nat.not_lt_zero _)
  | succ rounds inductionHypothesis =>
      rw [editWithin_succ]
      split
      next settled => exact ⟨settled, List.Sublist.refl _⟩
      next changed =>
        have shorter := length_editOnce_lt deletes changed
        obtain ⟨settled, sublist⟩ := @inductionHypothesis (editOnce collect text) (by omega)
        exact ⟨settled, sublist.trans (deletes text)⟩

theorem isSettled_editUntilSettled (deletes : ∀ text, (editOnce collect text).Sublist text)
    (text : Text) : IsSettled collect (editUntilSettled collect text) :=
  (editWithin_of_sublist deletes (Nat.lt_succ_self _)).1

theorem sublist_editUntilSettled (deletes : ∀ text, (editOnce collect text).Sublist text)
    (text : Text) : (editUntilSettled collect text).Sublist text :=
  (editWithin_of_sublist deletes (Nat.lt_succ_self _)).2

theorem editUntilSettled_eq_self_iff (deletes : ∀ text, (editOnce collect text).Sublist text)
    {text : Text} : editUntilSettled collect text = text ↔ IsSettled collect text := by
  constructor
  · intro unchanged
    have settled := isSettled_editUntilSettled deletes text
    rwa [unchanged] at settled
  · intro settled
    rw [editUntilSettled, editWithin_succ]
    exact if_pos settled

theorem editWithin_eq_of_enough (deletes : ∀ text, (editOnce collect text).Sublist text)
    {rounds others : Nat} {text : Text} (enough : text.length < rounds)
    (enoughToo : text.length < others) :
    editWithin collect rounds text = editWithin collect others text := by
  induction rounds generalizing others text with
  | zero => exact absurd enough (Nat.not_lt_zero _)
  | succ rounds inductionHypothesis =>
      cases others with
      | zero => exact absurd enoughToo (Nat.not_lt_zero _)
      | succ others =>
          rw [editWithin_succ, editWithin_succ]
          split
          next => rfl
          next changed =>
            have shorter := length_editOnce_lt deletes changed
            exact inductionHypothesis (by omega) (by omega)

/-- What every round of a pass preserves, the pass preserves. -/
theorem editUntilSettled_preserves {holds : Text -> Prop}
    (round : ∀ text, holds text → holds (editOnce collect text)) {text : Text} (here : holds text) :
    holds (editUntilSettled collect text) := by
  rw [editUntilSettled]
  generalize text.length + 1 = rounds
  induction rounds generalizing text with
  | zero => exact here
  | succ rounds inductionHypothesis =>
      rw [editWithin_succ]
      split
      · exact here
      · exact inductionHypothesis (round text here)

/-- A pass does what is left for it to do after its first round. -/
theorem editUntilSettled_editOnce (deletes : ∀ text, (editOnce collect text).Sublist text)
    (text : Text) :
    editUntilSettled collect (editOnce collect text) = editUntilSettled collect text := by
  rw [editUntilSettled, editUntilSettled, @editWithin_succ collect _ text]
  split
  next settled =>
    rw [settled]
    exact (editUntilSettled_eq_self_iff deletes).mpr settled
  next changed =>
    have shorter := length_editOnce_lt deletes changed
    exact editWithin_eq_of_enough deletes (Nat.lt_succ_self _) shorter

end Pass

theorem sublist_editOnce {collect : Text -> List Edit} (isPass : collect ∈ passes) (text : Text) :
    (editOnce collect text).Sublist text :=
  Edit.sublist_applyAll (isDeletion_of_mem_passes isPass) text

/-! ## All passes -/

/-- A text after some passes in order. -/
def editAll (collects : List (Text -> List Edit)) (text : Text) : Text :=
  collects.foldl (fun current collect => editUntilSettled collect current) text

theorem editAll_concat (collects : List (Text -> List Edit)) (last : Text -> List Edit)
    (text : Text) : editAll (collects ++ [last]) text = editUntilSettled last (editAll collects text) :=
  List.foldl_concat ..

theorem sublist_editAll {collects : List (Text -> List Edit)} (arePasses : collects ⊆ passes)
    (text : Text) : (editAll collects text).Sublist text := by
  induction collects generalizing text with
  | nil => exact List.Sublist.refl _
  | cons collect rest inductionHypothesis =>
      have deletes := sublist_editOnce (arePasses List.mem_cons_self)
      have later := inductionHypothesis (List.subset_of_cons_subset arePasses)
        (editUntilSettled collect text)
      exact later.trans (sublist_editUntilSettled deletes text)

/-- What every round of some passes preserves, the passes preserve. -/
theorem editAll_preserves {holds : Text -> Prop} {collects : List (Text -> List Edit)}
    (round : ∀ collect ∈ collects, ∀ text, holds text → holds (editOnce collect text)) {text : Text}
    (here : holds text) : holds (editAll collects text) := by
  induction collects generalizing text with
  | nil => exact here
  | cons collect rest inductionHypothesis =>
      obtain ⟨roundHere, roundLater⟩ := List.forall_mem_cons.mp round
      exact inductionHypothesis roundLater (editUntilSettled_preserves roundHere here)

/-- Passes that only delete leave a text as it is just if each of them has nothing to do on it: what
one of them deletes no later one restores. -/
theorem editAll_eq_self_iff {collects : List (Text -> List Edit)} (arePasses : collects ⊆ passes)
    (text : Text) : editAll collects text = text ↔ ∀ collect ∈ collects, IsSettled collect text := by
  induction collects generalizing text with
  | nil => simp [editAll]
  | cons collect rest inductionHypothesis =>
      have deletes := sublist_editOnce (arePasses List.mem_cons_self)
      have areLater := List.subset_of_cons_subset arePasses
      have step : editAll (collect :: rest) text = editAll rest (editUntilSettled collect text) := rfl
      rw [List.forall_mem_cons, step]
      constructor
      · intro unchanged
        have here := sublist_editUntilSettled deletes text
        have later := sublist_editAll areLater (editUntilSettled collect text)
        rw [unchanged] at later
        have same := here.antisymm later
        rw [same] at unchanged
        exact ⟨(editUntilSettled_eq_self_iff deletes).mp same, (inductionHypothesis areLater _).mp unchanged⟩
      · intro ⟨settled, settledLater⟩
        rw [(editUntilSettled_eq_self_iff deletes).mpr settled]
        exact (inductionHypothesis areLater _).mpr settledLater

/-! ## Normal forms -/

theorem sort_eq_nil_iff {Item : Type} {le : Item -> Item -> Bool} {items : List Item} :
    Order.sort le items = [] ↔ items = [] := by
  rw [← List.length_eq_zero_iff, (Order.perm_sort items).length_eq, List.length_eq_zero_iff]

theorem normalize_eq (text : Text) :
    normalize text = (editAll passes (convertEnums text).1,
      Order.sort Diagnostic.le (unsupportedConstructs text ++ (convertEnums text).2)) :=
  rfl

/-- A text is its own normal form just if nothing in it is reported, converted or deleted. -/
theorem normalize_eq_self_iff (text : Text) :
    normalize text = (text, []) ↔
      unsupportedConstructs text = [] ∧ convertEnums text = (text, []) ∧
        ∀ collect ∈ passes, IsSettled collect text := by
  rw [normalize_eq, Prod.mk.injEq, sort_eq_nil_iff, List.append_eq_nil_iff]
  constructor
  · intro ⟨unchanged, unreported, noneComputed⟩
    have kept := keyLetters_le_of_sublist
      (sublist_editAll (List.Subset.refl passes) (convertEnums text).1)
    rw [unchanged] at kept
    have notConverted := convertEnums_eq_of_le kept
    rw [notConverted] at unchanged
    exact ⟨unreported, Prod.ext notConverted noneComputed,
      (editAll_eq_self_iff (List.Subset.refl passes) text).mp unchanged⟩
  · intro ⟨unreported, notConverted, settled⟩
    rw [notConverted]
    exact ⟨(editAll_eq_self_iff (List.Subset.refl passes) text).mpr settled, unreported, rfl⟩

/-- Normalizing twice is normalizing once just if the first result has nothing left to report and to
convert, and none of the passes before the last has anything left to delete in it.  The last pass
never has. -/
theorem normalize_normalize_iff (text : Text) :
    normalize (normalize text).1 = ((normalize text).1, []) ↔
      unsupportedConstructs (normalize text).1 = [] ∧
        convertEnums (normalize text).1 = ((normalize text).1, []) ∧
          ∀ collect ∈ passes.dropLast, IsSettled collect (normalize text).1 := by
  have split : passes = passes.dropLast ++ [signatureEdits] := rfl
  have isLast : signatureEdits ∈ passes := by
    rw [split]
    exact List.mem_append_right _ List.mem_cons_self
  have settledLast : IsSettled signatureEdits (normalize text).1 := by
    have erased : (normalize text).1 = editAll passes (convertEnums text).1 := by
      rw [normalize_eq]
    rw [erased, split, editAll_concat]
    exact isSettled_editUntilSettled (sublist_editOnce isLast) _
  rw [normalize_eq_self_iff]
  refine and_congr_right' (and_congr_right' ?_)
  constructor
  · intro settled collect isEarlier
    exact settled collect (split ▸ List.mem_append_left _ isEarlier)
  · intro settled collect isPass
    rw [split] at isPass
    rcases List.mem_append.mp isPass with isEarlier | isThis
    · exact settled collect isEarlier
    · rw [List.mem_singleton.mp isThis]
      exact settledLast

/-- A type alias whose parameter has a default is not recognised as an alias.  The pass over type
arguments then deletes the parameter, and what is left is an alias, which only a second run deletes. -/
theorem normalize_normalize_defaultedAlias :
    normalize "type Box<T = number> = T[];\n".toList = ("type Box = T[];\n".toList, []) ∧
      normalize "type Box = T[];\n".toList = ([], []) := by
  decide

end SceneBundler.Dialect
