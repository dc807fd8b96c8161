import Mathlib.Logic.Relation
import SceneBundler.Proofs.Text.Ordered
import SceneBundler.Text.Edit

/-!
Contract: what deletions leave of a text, and texts cut into pieces that are kept and dropped.

Owns:
- that every applied edit was given, and that applied edits follow one another;
- that deletions leave a part of the text in order, and amount to single ones made one after another;
- the deletions that drop pieces where they stand, and sets of edits that make these, and others only
  inside the dropped pieces;
- that such a set of edits leaves the pieces that are kept;
- that deletions leave a text as it is just if none of them removes a character of it, even where some of
  them overlap.

Does not own: how a set of edits is found.
-/

namespace SceneBundler

namespace Text

theorem drop_eq_slice_append (text : Text) {start stop : Nat} (ordered : start ≤ stop) :
    text.drop start = slice text start stop ++ text.drop stop := by
  have reached : text.drop stop = (text.drop start).drop (stop - start) := by
    rw [List.drop_drop, Nat.add_sub_of_le ordered]
  rw [slice, reached, List.take_append_drop]

theorem take_eq_append_slice (text : Text) {start stop : Nat} (ordered : start ≤ stop) :
    text.take stop = text.take start ++ slice text start stop := by
  rw [slice, ← List.take_add, Nat.add_sub_of_le ordered]

theorem slice_append_slice (text : Text) {start middle stop : Nat} (first : start ≤ middle)
    (second : middle ≤ stop) :
    slice text start stop = slice text start middle ++ slice text middle stop := by
  have reached : text.drop middle = (text.drop start).drop (middle - start) := by
    rw [List.drop_drop, Nat.add_sub_of_le first]
  have room : stop - start = (middle - start) + (stop - middle) := by omega
  rw [slice, slice, slice, reached, room, List.take_add]

end Text

namespace Edit

/-- The removal of a stretch of text that does not end before it begins. -/
def IsDeletion (edit : Edit) : Prop :=
  edit.replacement = [] ∧ edit.start ≤ edit.stop

theorem isDeletion_deletion {start stop : Nat} (ordered : start ≤ stop) :
    (deletion start stop).IsDeletion :=
  ⟨rfl, ordered⟩

theorem applied_subset (cursor : Nat) (edits : List Edit) : applied cursor edits ⊆ edits := by
  induction edits generalizing cursor with
  | nil => exact List.Subset.refl _
  | cons edit rest inductionHypothesis =>
      rw [applied]
      split
      · exact List.subset_cons_of_subset _ (inductionHypothesis cursor)
      · exact List.cons_subset_cons _ (inductionHypothesis edit.stop)

theorem mem_of_mem_sorted {edit : Edit} {edits : List Edit} : edit ∈ sorted edits ↔ edit ∈ edits := by
  rw [sorted, mem_eraseReps, Order.mem_sort]

/-- Whether edits follow one another from an offset on. -/
def Follow : Nat -> List Edit -> Prop
  | _, [] => True
  | cursor, edit :: rest => cursor ≤ edit.start ∧ Follow edit.stop rest

theorem follow_applied (cursor : Nat) (edits : List Edit) : Follow cursor (applied cursor edits) := by
  induction edits generalizing cursor with
  | nil => trivial
  | cons edit rest inductionHypothesis =>
      rw [applied]
      split
      next => exact inductionHypothesis cursor
      next inOrder => exact ⟨Nat.le_of_not_lt inOrder, inductionHypothesis edit.stop⟩

/-- Deletions that follow one another leave a part of the text in order. -/
theorem sublist_splice {text : Text} {cursor : Nat} {edits : List Edit}
    (follow : Follow cursor edits) (deletions : ∀ edit ∈ edits, edit.IsDeletion) :
    (splice text cursor edits).Sublist (text.drop cursor) := by
  induction edits generalizing cursor with
  | nil => exact List.Sublist.refl _
  | cons edit rest inductionHypothesis =>
      obtain ⟨inOrder, followRest⟩ := follow
      obtain ⟨noReplacement, ordered⟩ := deletions edit List.mem_cons_self
      have kept := inductionHypothesis followRest fun other member =>
        deletions other (List.mem_cons_of_mem edit member)
      rw [splice, noReplacement, List.append_nil, Text.drop_eq_slice_append text inOrder,
        Text.drop_eq_slice_append text ordered]
      exact (List.Sublist.refl _).append (kept.trans (List.sublist_append_right _ _))

theorem sublist_applyAll {edits : List Edit} (deletions : ∀ edit ∈ edits, edit.IsDeletion)
    (text : Text) : (applyAll edits text).Sublist text := by
  refine sublist_splice (follow_applied 0 _) fun edit member => deletions edit ?_
  exact mem_of_mem_sorted.mp (applied_subset 0 _ member)

/-- Behind all edits a text is left as it is. -/
theorem suffix_splice {text : Text} {edits : List Edit} {cursor last : Nat} (ordered : cursor ≤ last)
    (within : ∀ edit ∈ edits, edit.stop ≤ last) : text.drop last <:+ splice text cursor edits := by
  induction edits generalizing cursor with
  | nil => exact List.drop_suffix_drop_left text ordered
  | cons edit rest inductionHypothesis =>
      obtain ⟨withinHere, withinRest⟩ := List.forall_mem_cons.mp within
      rw [splice]
      exact (inductionHypothesis withinHere withinRest).trans (List.suffix_append _ _)

theorem suffix_applyAll {edits : List Edit} {text : Text} {last : Nat}
    (within : ∀ edit ∈ edits, edit.stop ≤ last) : text.drop last <:+ applyAll edits text :=
  suffix_splice (Nat.zero_le last) fun edit member =>
    within edit (mem_of_mem_sorted.mp (applied_subset 0 _ member))

/-- Deletions that follow one another amount to single ones, made from the last one on. -/
theorem reflTransGen_splice {relation : Text -> Text -> Prop} {text : Text} {cursor : Nat} {edits : List Edit}
    (follow : Follow cursor edits) (deletions : ∀ edit ∈ edits, edit.IsDeletion)
    (each : ∀ edit ∈ edits, ∀ after,
      relation (text.take edit.stop ++ after) (text.take edit.start ++ after)) :
    Relation.ReflTransGen relation text (text.take cursor ++ splice text cursor edits) := by
  induction edits generalizing cursor with
  | nil => rw [splice, List.take_append_drop]
  | cons edit rest inductionHypothesis =>
      obtain ⟨inOrder, followRest⟩ := follow
      obtain ⟨noReplacement, ordered⟩ := deletions edit List.mem_cons_self
      have before := inductionHypothesis followRest
        (fun other member => deletions other (List.mem_cons_of_mem edit member))
        (fun other member => each other (List.mem_cons_of_mem edit member))
      refine before.tail ?_
      have here := each edit List.mem_cons_self (splice text edit.stop rest)
      rw [Text.take_eq_append_slice text inOrder] at here
      rwa [splice, noReplacement, List.append_nil, ← List.append_assoc]

theorem reflTransGen_applyAll {relation : Text -> Text -> Prop} {text : Text} {edits : List Edit}
    (deletions : ∀ edit ∈ edits, edit.IsDeletion)
    (each : ∀ edit ∈ edits, ∀ after,
      relation (text.take edit.stop ++ after) (text.take edit.start ++ after)) :
    Relation.ReflTransGen relation text (applyAll edits text) := by
  have areGiven {edit : Edit} (member : edit ∈ applied 0 (sorted edits)) : edit ∈ edits :=
    mem_of_mem_sorted.mp (applied_subset 0 _ member)
  have steps := @reflTransGen_splice relation text 0 _ (follow_applied 0 (sorted edits))
    (fun edit member => deletions edit (areGiven member)) (fun edit member => each edit (areGiven member))
  rwa [List.take_zero, List.nil_append] at steps

end Edit

/-! ## Pieces -/

/-- A part of a text, and whether it is kept. -/
structure Piece where
  kept : Bool
  text : Text

namespace Piece

def keep (text : Text) : Piece :=
  ⟨true, text⟩

def drop (text : Text) : Piece :=
  ⟨false, text⟩

/-- A dropped piece, if there is any text in it. -/
def drops (text : Text) : List Piece :=
  if text = [] then [] else [drop text]

/-- The text that pieces make up. -/
def source (pieces : List Piece) : Text :=
  pieces.flatMap Piece.text

/-- The text that the kept pieces make up. -/
def remainder (pieces : List Piece) : Text :=
  pieces.flatMap fun piece => if piece.kept then piece.text else []

/-- The deletions of the dropped pieces, where the first piece stands at an offset. -/
def deletions : (offset : Nat) -> List Piece -> List Edit
  | _, [] => []
  | offset, piece :: rest =>
      let later := deletions (offset + piece.text.length) rest
      if piece.kept then later else Edit.deletion offset (offset + piece.text.length) :: later

section Building

variable (first second : List Piece)

@[simp] theorem source_append : source (first ++ second) = source first ++ source second :=
  List.flatMap_append

@[simp] theorem remainder_append : remainder (first ++ second) = remainder first ++ remainder second :=
  List.flatMap_append

theorem deletions_append (offset : Nat) :
    deletions offset (first ++ second) =
      deletions offset first ++ deletions (offset + (source first).length) second := by
  induction first generalizing offset with
  | nil => rfl
  | cons piece rest inductionHypothesis =>
      have reached : offset + (source (piece :: rest)).length =
          offset + piece.text.length + (source rest).length := by
        rw [source, List.flatMap_cons, List.length_append, ← Nat.add_assoc]
        rfl
      rw [List.cons_append, deletions, deletions, inductionHypothesis, reached]
      cases piece.kept <;> rfl

end Building

section Single

variable (text : Text) (rest : List Piece)

@[simp] theorem source_nil : source [] = [] :=
  rfl

@[simp] theorem remainder_nil : remainder [] = [] :=
  rfl

@[simp] theorem source_keep : source (keep text :: rest) = text ++ source rest :=
  List.flatMap_cons

@[simp] theorem remainder_keep : remainder (keep text :: rest) = text ++ remainder rest :=
  List.flatMap_cons

@[simp] theorem deletions_keep (offset : Nat) :
    deletions offset (keep text :: rest) = deletions (offset + text.length) rest :=
  rfl

@[simp] theorem source_drops : source (drops text) = text := by
  rw [drops]
  split
  next none => exact none.symm
  next => simp [source, drop]

@[simp] theorem remainder_drops : remainder (drops text) = [] := by
  rw [drops]
  split <;> rfl

theorem deletions_drops (offset : Nat) :
    deletions offset (drops text) =
      if text = [] then [] else [Edit.deletion offset (offset + text.length)] := by
  rw [drops]
  split <;> rfl

theorem text_ne_nil_of_mem_drops {text : Text} {piece : Piece} (member : piece ∈ drops text) : piece.text ≠ [] := by
  rw [drops] at member
  split at member
  next => exact absurd member List.not_mem_nil
  next some => rwa [List.mem_singleton.mp member]

end Single

theorem le_of_mem_deletions {offset : Nat} {pieces : List Piece} {edit : Edit}
    (member : edit ∈ deletions offset pieces) : offset ≤ edit.start := by
  induction pieces generalizing offset with
  | nil => exact absurd member List.not_mem_nil
  | cons piece rest inductionHypothesis =>
      rw [deletions] at member
      have later (isLater : edit ∈ deletions (offset + piece.text.length) rest) :
          offset ≤ edit.start := Nat.le_trans (Nat.le_add_right _ _) (inductionHypothesis isLater)
      split at member
      · exact later member
      · rcases List.mem_cons.mp member with rfl | isLater
        · exact Nat.le_refl _
        · exact later isLater

end Piece

namespace Edit

/-- A set of edits that makes given deletions, and in which every other edit begins inside one of
them. -/
structure Covers (edits deletions : List Edit) : Prop where
  makes : ∀ deletion ∈ deletions, deletion ∈ edits
  inside : ∀ edit ∈ edits, edit ∈ deletions ∨
    ∃ deletion ∈ deletions, deletion.start < edit.start ∧ edit.start < deletion.stop

namespace Covers

theorem refl (edits : List Edit) : Covers edits edits :=
  ⟨fun _ member => member, fun _ member => Or.inl member⟩

end Covers

/-! ## Application -/

theorem pairwise_start_sorted (edits : List Edit) :
    (sorted edits).Pairwise fun first second => first.start ≤ second.start := by
  refine List.Pairwise.sublist eraseReps_sublist (Order.pairwise_sort ?_ ?_ ?_ edits)
  · intro first second isLe
    rw [le] at isLe
    split at isLe
    next same => exact Nat.le_of_eq same
    next => exact Nat.le_of_lt (by simpa using isLe)
  · intro first second notLe
    rw [le] at notLe
    split at notLe
    next same => exact Nat.le_of_eq same.symm
    next => simpa using notLe
  · exact fun first second third before after => Nat.le_trans before after

/-- Edits that begin before the cursor are passed over. -/
theorem applied_of_before {cursor : Nat} {before after : List Edit}
    (areBefore : ∀ edit ∈ before, edit.start < cursor) :
    applied cursor (before ++ after) = applied cursor after := by
  induction before with
  | nil => rfl
  | cons edit rest inductionHypothesis =>
      rw [List.cons_append, applied, if_pos (areBefore edit List.mem_cons_self)]
      exact inductionHypothesis fun other member => areBefore other (List.mem_cons_of_mem edit member)

/-- Where no edit begins, the text is kept. -/
theorem splice_applied_of_none {text : Text} {cursor later : Nat} {edits : List Edit}
    (ordered : cursor ≤ later)
    (none : ∀ edit ∈ edits, edit.start < cursor ∨ later ≤ edit.start) :
    splice text cursor (applied cursor edits) =
      Text.slice text cursor later ++ splice text later (applied later edits) := by
  induction edits with
  | nil => exact Text.drop_eq_slice_append text ordered
  | cons edit rest inductionHypothesis =>
      have noneLater := fun other member => none other (List.mem_cons_of_mem edit member)
      rw [applied, applied]
      rcases none edit List.mem_cons_self with before | after
      · rw [if_pos before, if_pos (Nat.lt_of_lt_of_le before ordered)]
        exact inductionHypothesis noneLater
      · rw [if_neg (Nat.not_lt.mpr (Nat.le_trans ordered after)), if_neg (Nat.not_lt.mpr after), splice,
          splice, Text.slice_append_slice text ordered after, List.append_assoc, List.append_assoc,
          List.append_assoc]

/-- The edit that begins at the cursor is applied next, if it is the only one that begins there. -/
theorem applied_eq_cons {edits : List Edit}
    (ordered : edits.Pairwise fun first second => first.start ≤ second.start) {next : Edit}
    (member : next ∈ edits) (longer : next.start < next.stop)
    (alone : ∀ edit ∈ edits, edit.start = next.start → edit = next) :
    applied next.start edits = next :: applied next.stop edits := by
  obtain ⟨before, after, rfl, isFirst⟩ := List.eq_append_cons_of_mem member
  have beforeNext : ∀ edit ∈ before, edit.start < next.start := by
    intro edit isBefore
    have noLater := (List.pairwise_append.mp ordered).2.2 edit isBefore next List.mem_cons_self
    refine Nat.lt_of_le_of_ne noLater fun same => isFirst ?_
    exact alone edit (List.mem_append_left _ isBefore) same ▸ isBefore
  have beforeStop : ∀ edit ∈ before, edit.start < next.stop := fun edit isBefore =>
    Nat.lt_trans (beforeNext edit isBefore) longer
  rw [applied_of_before beforeNext, applied_of_before beforeStop, applied,
    if_neg (Nat.lt_irrefl _), applied, if_pos longer]

/-- Whether a set of edits covers the deletions of the pieces from an offset on, where other edits begin in
front of it. -/
structure CoversFrom (cursor : Nat) (edits : List Edit) (pieces : List Piece) : Prop where
  makes : ∀ deletion ∈ Piece.deletions cursor pieces, deletion ∈ edits
  inside : ∀ edit ∈ edits, edit.start < cursor ∨ edit ∈ Piece.deletions cursor pieces ∨
    ∃ deletion ∈ Piece.deletions cursor pieces, deletion.start < edit.start ∧ edit.start < deletion.stop

namespace CoversFrom

variable {cursor : Nat} {edits : List Edit} {word : Text} {rest : List Piece}

/-- No edit begins in a piece that is kept. -/
theorem begins_outside (covers : CoversFrom cursor edits (Piece.keep word :: rest)) :
    ∀ edit ∈ edits, edit.start < cursor ∨ cursor + word.length ≤ edit.start := by
  intro edit member
  rcases covers.inside edit member with before | isDeletion | ⟨deletion, isDeletion, begins, -⟩
  · exact Or.inl before
  · exact Or.inr (Piece.le_of_mem_deletions isDeletion)
  · exact Or.inr (Nat.le_trans (Piece.le_of_mem_deletions isDeletion) (Nat.le_of_lt begins))

theorem behind_kept (covers : CoversFrom cursor edits (Piece.keep word :: rest)) :
    CoversFrom (cursor + word.length) edits rest where
  makes := covers.makes
  inside edit member :=
    (covers.inside edit member).imp_left fun before => Nat.lt_of_lt_of_le before (Nat.le_add_right _ _)

/-- The only edit that begins where a dropped piece does is the deletion of it. -/
theorem alone (covers : CoversFrom cursor edits (Piece.drop word :: rest)) (nonempty : word ≠ []) :
    ∀ edit ∈ edits, edit.start = cursor → edit = Edit.deletion cursor (cursor + word.length) := by
  intro edit member begins
  have longer := List.length_pos_iff.mpr nonempty
  rcases covers.inside edit member with before | isDeletion | ⟨deletion, isDeletion, after, -⟩
  · omega
  · rcases List.mem_cons.mp isDeletion with isThis | isLater
    · exact isThis
    · have : cursor + word.length ≤ edit.start := Piece.le_of_mem_deletions isLater
      omega
  · rcases List.mem_cons.mp isDeletion with rfl | isLater
    · exact absurd after (Nat.not_lt_of_ge (Nat.le_of_eq begins))
    · have : cursor + word.length ≤ deletion.start := Piece.le_of_mem_deletions isLater
      omega

theorem behind_dropped (covers : CoversFrom cursor edits (Piece.drop word :: rest)) (nonempty : word ≠ []) :
    CoversFrom (cursor + word.length) edits rest where
  makes deletion isLater := covers.makes deletion (List.mem_cons_of_mem _ isLater)
  inside edit member := by
    have longer : cursor < cursor + word.length := Nat.lt_add_of_pos_right (List.length_pos_iff.mpr nonempty)
    rcases covers.inside edit member with before | isDeletion | ⟨deletion, isDeletion, after, within⟩
    · exact Or.inl (Nat.lt_trans before longer)
    · rcases List.mem_cons.mp isDeletion with rfl | isLater
      · exact Or.inl longer
      · exact Or.inr (Or.inl isLater)
    · rcases List.mem_cons.mp isDeletion with rfl | isLater
      · exact Or.inl within
      · exact Or.inr (Or.inr ⟨deletion, isLater, after, within⟩)

end CoversFrom

theorem splice_pieces {text : Text} {edits : List Edit}
    (ordered : edits.Pairwise fun first second => first.start ≤ second.start) {cursor : Nat}
    {pieces : List Piece} (nonempty : ∀ piece ∈ pieces, piece.text ≠ [])
    (ahead : text.drop cursor = Piece.source pieces) (covers : CoversFrom cursor edits pieces) :
    splice text cursor (applied cursor edits) = Piece.remainder pieces := by
  induction pieces generalizing cursor with
  | nil =>
      have noneApplied := @applied_of_before cursor edits [] fun edit member => by
        simpa [Piece.deletions] using covers.inside edit member
      rw [List.append_nil] at noneApplied
      rw [noneApplied]
      exact ahead
  | cons piece rest inductionHypothesis =>
      obtain ⟨kept, word⟩ := piece
      obtain ⟨someWord, nonemptyRest⟩ := List.forall_mem_cons.mp nonempty
      have split : text.drop cursor = word ++ Piece.source rest := ahead
      have aheadRest : text.drop (cursor + word.length) = Piece.source rest := by
        rw [← List.drop_drop, split, List.drop_left]
      cases kept with
      | true =>
          have slice : Text.slice text cursor (cursor + word.length) = word := by
            rw [Text.slice, split, Nat.add_sub_cancel_left, List.take_left]
          have later := inductionHypothesis nonemptyRest aheadRest (CoversFrom.behind_kept covers)
          rw [splice_applied_of_none (Nat.le_add_right _ _) (CoversFrom.begins_outside covers), slice, later]
          exact (Piece.remainder_keep word rest).symm
      | false =>
          have longer : cursor < cursor + word.length :=
            Nat.lt_add_of_pos_right (List.length_pos_iff.mpr someWord)
          have here : applied cursor edits =
              Edit.deletion cursor (cursor + word.length) :: applied (cursor + word.length) edits :=
            applied_eq_cons ordered (covers.makes _ List.mem_cons_self) longer (CoversFrom.alone covers someWord)
          have later := inductionHypothesis nonemptyRest aheadRest (CoversFrom.behind_dropped covers someWord)
          rw [here, splice]
          simpa [Edit.deletion, Text.slice, Piece.remainder] using later

/-- A set of edits that covers the deletions of the dropped pieces leaves the kept ones. -/
theorem applyAll_pieces {edits : List Edit} {pieces : List Piece}
    (nonempty : ∀ piece ∈ pieces, piece.text ≠ [])
    (covers : Covers edits (Piece.deletions 0 pieces)) :
    applyAll edits (Piece.source pieces) = Piece.remainder pieces := by
  refine splice_pieces (pairwise_start_sorted edits) nonempty rfl ⟨fun deletion member => ?_, fun edit member => ?_⟩
  · exact mem_of_mem_sorted.mpr (covers.makes deletion member)
  · exact Or.inr (covers.inside edit (mem_of_mem_sorted.mp member))

end Edit

end SceneBundler

namespace SceneBundler.Edit

variable {text : Text} {cursor : Nat} {edits : List Edit}

/-- Whether an edit begins at a character of a text and goes on beyond it. -/
def Removes (edit : Edit) (text : Text) : Prop :=
  edit.start < edit.stop ∧ edit.start < text.length

/-- The first deletion that removes anything is applied: those before it end where they begin. -/
theorem length_splice_lt (ordered : edits.Pairwise fun first second => first.start ≤ second.start)
    (deletions : ∀ edit ∈ edits, edit.IsDeletion) (behind : ∀ edit ∈ edits, cursor ≤ edit.start)
    (removes : ∃ edit ∈ edits, edit.Removes text) :
    (splice text cursor (applied cursor edits)).length < text.length - cursor := by
  induction edits generalizing cursor with
  | nil =>
      obtain ⟨_, member, _⟩ := removes
      contradiction
  | cons edit rest inductionHypothesis =>
      obtain ⟨beforeRest, orderedRest⟩ := List.pairwise_cons.mp ordered
      have deletionsRest := fun other member => deletions other (List.mem_cons_of_mem edit member)
      obtain ⟨noReplacement, inOrder⟩ := deletions edit List.mem_cons_self
      have reached := behind edit List.mem_cons_self
      obtain ⟨first, isFirst, longer, inside⟩ := removes
      have startsInside : edit.start < text.length := by
        rcases List.mem_cons.mp isFirst with rfl | isLater
        · exact inside
        · exact Nat.lt_of_le_of_lt (beforeRest first isLater) inside
      have kept : (Text.slice text cursor edit.start).length ≤ edit.start - cursor :=
        List.length_take_le _ _
      rw [applied, if_neg (Nat.not_lt.mpr reached), splice, noReplacement, List.append_nil,
        List.length_append]
      by_cases isLonger : edit.start < edit.stop
      · have left : (splice text edit.stop (applied edit.stop rest)).length ≤ text.length - edit.stop := by
          have kept : (splice text edit.stop (applied edit.stop rest)).Sublist (text.drop edit.stop) :=
            sublist_splice (follow_applied edit.stop rest) fun other member =>
              deletionsRest other (applied_subset _ _ member)
          have shorter := kept.length_le
          rwa [List.length_drop] at shorter
        omega
      · have endsHere : edit.stop = edit.start := by omega
        have isLater : first ∈ rest := by
          rcases List.mem_cons.mp isFirst with rfl | isLater
          · exact absurd longer isLonger
          · exact isLater
        have left := @inductionHypothesis edit.stop orderedRest deletionsRest
          (fun other member => endsHere ▸ beforeRest other member) ⟨first, isLater, longer, inside⟩
        omega

theorem splice_eq_drop (follow : Follow cursor edits) (deletions : ∀ edit ∈ edits, edit.IsDeletion)
    (idle : ∀ edit ∈ edits, ¬edit.Removes text) : splice text cursor edits = text.drop cursor := by
  induction edits generalizing cursor with
  | nil => rfl
  | cons edit rest inductionHypothesis =>
      obtain ⟨inOrder, followRest⟩ := follow
      obtain ⟨noReplacement, ordered⟩ := deletions edit List.mem_cons_self
      have here := idle edit List.mem_cons_self
      have sameRest : text.drop edit.stop = text.drop edit.start := by
        by_cases inside : edit.start < text.length
        · have endsHere : edit.stop = edit.start :=
            Nat.le_antisymm (Nat.not_lt.mp fun longer => here ⟨longer, inside⟩) ordered
          rw [endsHere]
        · rw [List.drop_of_length_le (by omega), List.drop_of_length_le (by omega)]
      rw [splice, noReplacement, List.append_nil, inductionHypothesis followRest
        (fun other member => deletions other (List.mem_cons_of_mem edit member))
        (fun other member => idle other (List.mem_cons_of_mem edit member)), sameRest,
        Text.drop_eq_slice_append text inOrder]

/-- Deletions leave a text as it is just if none of them removes a character. -/
theorem applyAll_eq_self_iff (deletions : ∀ edit ∈ edits, edit.IsDeletion) (text : Text) :
    applyAll edits text = text ↔ ∀ edit ∈ edits, ¬edit.Removes text := by
  have deletionsSorted : ∀ edit ∈ sorted edits, edit.IsDeletion := fun edit member =>
    deletions edit (mem_of_mem_sorted.mp member)
  constructor
  · intro unchanged edit member removes
    have shorter := length_splice_lt (pairwise_start_sorted edits) deletionsSorted
      (fun _ _ => Nat.zero_le _) ⟨edit, mem_of_mem_sorted.mpr member, removes⟩
    rw [applyAll] at unchanged
    rw [unchanged, Nat.sub_zero] at shorter
    exact Nat.lt_irrefl _ shorter
  · intro idle
    exact splice_eq_drop (follow_applied 0 _)
      (fun edit member => deletionsSorted edit (applied_subset _ _ member))
      fun edit member => idle edit (mem_of_mem_sorted.mp (applied_subset _ _ member))

end SceneBundler.Edit
