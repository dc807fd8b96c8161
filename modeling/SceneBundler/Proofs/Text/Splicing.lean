import Mathlib.Data.List.Sort
import SceneBundler.Proofs.Text.Joint
import SceneBundler.Text.Pattern

/-!
Contract: what applying a set of edits makes of a text.

Owns:
- the order of edits, in which a set of them is the same however it is given;
- the edits that are made, as the greedy choice in this order;
- the length of an edited text, where the replacements stand in it, and that the two texts agree outside
  replacements and replaced spans;
- that edits apart from one another amount to single ones, made from the last one on;
- that edits of two parts of a text, where none goes over the border, are made in each part on its own.

Does not own: which edits are given.
-/

namespace SceneBundler

namespace Edit

/-! ## The order of edits -/

theorem le_iff {first second : Edit} :
    le first second = true ↔ first.start < second.start ∨ first.start = second.start ∧
      (first.stop < second.stop ∨ first.stop = second.stop ∧
        Text.le first.replacement second.replacement = true) := by
  unfold le
  split
  next sameStart =>
    split
    next sameStop => simp [sameStart, sameStop]
    next otherStop => simp [sameStart, otherStop]
  next otherStart => simp [otherStart]

theorem le_total {first second : Edit} (later : ¬le first second = true) : le second first = true := by
  rw [le_iff] at later ⊢
  have replacements := @Text.le_total first.replacement second.replacement
  grind

theorem le_antisymm {first second : Edit} (earlier : le first second = true)
    (later : le second first = true) : first = second := by
  rw [le_iff] at earlier later
  have replacements := @Text.le_antisymm first.replacement second.replacement
  cases first
  cases second
  grind

theorem le_trans {first second third : Edit} (earlier : le first second = true)
    (later : le second third = true) : le first third = true := by
  rw [le_iff] at earlier later ⊢
  have replacements := @Text.le_trans first.replacement second.replacement third.replacement
  grind

/-- Whether an edit stands in front of another one in the order of application. -/
def comesBefore (first second : Edit) : Bool :=
  le first second && first != second

theorem comesBefore_iff {first second : Edit} :
    comesBefore first second = true ↔ le first second = true ∧ first ≠ second := by
  rw [comesBefore, Bool.and_eq_true, bne_iff_ne]

theorem not_comesBefore_self (edit : Edit) : ¬comesBefore edit edit = true :=
  fun before => (comesBefore_iff.mp before).2 rfl

theorem comesBefore_asymm {first second : Edit} (before : comesBefore first second = true) :
    ¬comesBefore second first = true := by
  intro back
  obtain ⟨earlier, different⟩ := comesBefore_iff.mp before
  exact different (le_antisymm earlier (comesBefore_iff.mp back).1)

theorem start_le_of_comesBefore {first second : Edit} (before : comesBefore first second = true) :
    first.start ≤ second.start := by
  have earlier := le_iff.mp (comesBefore_iff.mp before).1
  omega

theorem pairwise_sorted (edits : List Edit) :
    (sorted edits).Pairwise fun first second => comesBefore first second = true := by
  have ordered : (Order.sort le edits).Pairwise fun first second => le first second = true :=
    @Order.pairwise_sort Edit le _ (fun _ _ earlier => earlier) (fun _ _ later => le_total later)
      (fun _ _ _ => le_trans) edits
  have different : (sorted edits).Nodup := nodup_eraseReps le_antisymm le_trans ordered
  refine (ordered.sublist eraseReps_sublist).imp₂ ?_ different
  exact fun first second earlier other => comesBefore_iff.mpr ⟨earlier, other⟩

/-- A set of edits in strict order is in the order of application. -/
theorem sorted_eq_of_pairwise {edits others : List Edit}
    (ordered : others.Pairwise fun first second => comesBefore first second = true)
    (same : ∀ edit, edit ∈ others ↔ edit ∈ edits) : sorted edits = others := by
  have irreflexive : Std.Irrefl fun first second => comesBefore first second = true :=
    ⟨not_comesBefore_self⟩
  have antisymmetric : Std.Antisymm fun first second => comesBefore first second = true :=
    ⟨fun _ _ before back => absurd back (comesBefore_asymm before)⟩
  refine (pairwise_sorted edits).eq_of_mem_iff ordered fun edit => ?_
  rw [mem_of_mem_sorted, same]

/-- The order of application depends on nothing but which edits there are. -/
theorem sorted_congr {edits others : List Edit} (same : ∀ edit, edit ∈ others ↔ edit ∈ edits) :
    sorted others = sorted edits :=
  sorted_eq_of_pairwise (pairwise_sorted edits) fun edit => by rw [mem_of_mem_sorted, same]

/-! ## The choice of edits -/

/-- How far the chosen edits in front of a given one reach: to the end of the last of them, or to the
cursor where there is none. -/
def reached (cursor : Nat) (chosen : List Edit) (edit : Edit) : Nat :=
  ((chosen.filter fun other => comesBefore other edit).getLast?.map Edit.stop).getD cursor

/-- Whether edits are chosen in order from a set of them, where just those are passed over that begin
before the end of the last one chosen. -/
structure IsChoice (cursor : Nat) (edits chosen : List Edit) : Prop where
  ordered : chosen.Pairwise fun first second => comesBefore first second = true
  given : ∀ edit ∈ chosen, edit ∈ edits
  passesOver : ∀ edit ∈ edits, edit ∉ chosen ↔ edit.start < reached cursor chosen edit

theorem reached_of_none {cursor : Nat} {chosen : List Edit} {edit : Edit}
    (none : ∀ other ∈ chosen, ¬comesBefore other edit = true) : reached cursor chosen edit = cursor := by
  rw [reached, List.filter_eq_nil_iff.mpr none]
  rfl

theorem reached_cons (cursor : Nat) {first edit : Edit} (chosen : List Edit)
    (before : comesBefore first edit = true) :
    reached cursor (first :: chosen) edit = reached first.stop chosen edit := by
  have kept : (first :: chosen).filter (fun other => comesBefore other edit) =
      first :: chosen.filter fun other => comesBefore other edit := List.filter_cons_of_pos before
  rw [reached, kept, List.getLast?_cons, reached]
  cases (chosen.filter fun other => comesBefore other edit).getLast? <;> rfl

section Choice

variable {cursor : Nat} {edit : Edit} {rest chosen : List Edit}

theorem IsChoice.not_comesBefore_first (choice : IsChoice cursor (edit :: rest) chosen)
    (first : ∀ other ∈ rest, comesBefore edit other = true) :
    ∀ other ∈ chosen, ¬comesBefore other edit = true := by
  intro other isChosen
  rcases List.mem_cons.mp (choice.given other isChosen) with rfl | isLater
  · exact not_comesBefore_self other
  · exact comesBefore_asymm (first other isLater)

/-- Nothing is chosen in front of the first edit. -/
theorem IsChoice.reached_first (choice : IsChoice cursor (edit :: rest) chosen)
    (first : ∀ other ∈ rest, comesBefore edit other = true) : reached cursor chosen edit = cursor :=
  reached_of_none (choice.not_comesBefore_first first)

/-- An edit that begins before the cursor is not chosen. -/
theorem isChoice_cons_of_lt (first : ∀ other ∈ rest, comesBefore edit other = true)
    (isBefore : edit.start < cursor) :
    IsChoice cursor (edit :: rest) chosen ↔ IsChoice cursor rest chosen := by
  constructor
  · intro choice
    have notChosen : edit ∉ chosen :=
      (choice.passesOver edit List.mem_cons_self).mpr (by rwa [choice.reached_first first])
    refine ⟨choice.ordered, fun other isChosen => ?_, fun other isLater => ?_⟩
    · refine (List.mem_cons.mp (choice.given other isChosen)).resolve_left fun same => ?_
      exact notChosen (same ▸ isChosen)
    · exact choice.passesOver other (List.mem_cons_of_mem edit isLater)
  · intro choice
    have isFirst : ∀ other ∈ chosen, ¬comesBefore other edit = true := fun other isChosen =>
      comesBefore_asymm (first other (choice.given other isChosen))
    refine ⟨choice.ordered, fun other isChosen => List.mem_cons_of_mem edit (choice.given other isChosen), ?_⟩
    intro other member
    rcases List.mem_cons.mp member with rfl | isLater
    · rw [reached_of_none isFirst]
      refine iff_of_true (fun isChosen => ?_) isBefore
      exact not_comesBefore_self other (first other (choice.given other isChosen))
    · exact choice.passesOver other isLater

/-- An edit that does not is chosen first, and the choice goes on from its end. -/
theorem isChoice_cons_of_le (first : ∀ other ∈ rest, comesBefore edit other = true)
    (isBehind : cursor ≤ edit.start) :
    IsChoice cursor (edit :: rest) chosen ↔
      ∃ later, chosen = edit :: later ∧ IsChoice edit.stop rest later := by
  constructor
  · intro choice
    have isChosen : edit ∈ chosen := by
      refine Classical.not_not.mp fun notChosen => ?_
      have passed := (choice.passesOver edit List.mem_cons_self).mp notChosen
      rw [choice.reached_first first] at passed
      exact absurd passed (Nat.not_lt.mpr isBehind)
    obtain ⟨head, later, rfl⟩ := List.exists_cons_of_ne_nil (List.ne_nil_of_mem isChosen)
    obtain ⟨headBefore, orderedLater⟩ := List.pairwise_cons.mp choice.ordered
    obtain rfl : edit = head := by
      refine (List.mem_cons.mp isChosen).resolve_right fun isLater => ?_
      exact choice.not_comesBefore_first first head List.mem_cons_self (headBefore edit isLater)
    refine ⟨later, rfl, orderedLater, fun other isLater => ?_, fun other isGiven => ?_⟩
    · refine (List.mem_cons.mp (choice.given other (List.mem_cons_of_mem edit isLater))).resolve_left ?_
      rintro rfl
      exact not_comesBefore_self other (headBefore other isLater)
    · have passes := choice.passesOver other (List.mem_cons_of_mem edit isGiven)
      have different : other ≠ edit := (comesBefore_iff.mp (first other isGiven)).2.symm
      rw [reached_cons cursor later (first other isGiven), List.mem_cons, or_iff_right different] at passes
      exact passes
  · rintro ⟨later, rfl, choice⟩
    have isFirst : ∀ other ∈ later, comesBefore edit other = true := fun other isLater =>
      first other (choice.given other isLater)
    refine ⟨List.pairwise_cons.mpr ⟨isFirst, choice.ordered⟩, ?_, fun other member => ?_⟩
    · exact List.forall_mem_cons.mpr
        ⟨List.mem_cons_self, fun other isLater => List.mem_cons_of_mem edit (choice.given other isLater)⟩
    · rcases List.mem_cons.mp member with rfl | isGiven
      · refine iff_of_false (fun notChosen => notChosen List.mem_cons_self) (Nat.not_lt.mpr ?_)
        rw [reached_of_none]
        · exact isBehind
        · exact List.forall_mem_cons.mpr
            ⟨not_comesBefore_self other, fun next isLater => comesBefore_asymm (isFirst next isLater)⟩
      · have different : other ≠ edit := (comesBefore_iff.mp (first other isGiven)).2.symm
        rw [reached_cons cursor later (first other isGiven), List.mem_cons, or_iff_right different]
        exact choice.passesOver other isGiven

end Choice

/-- The one choice of edits from an ordered list is that of the edits that are applied. -/
theorem isChoice_iff {cursor : Nat} {edits chosen : List Edit}
    (ordered : edits.Pairwise fun first second => comesBefore first second = true) :
    IsChoice cursor edits chosen ↔ chosen = applied cursor edits := by
  induction edits generalizing cursor chosen with
  | nil =>
      refine ⟨fun choice => List.eq_nil_iff_forall_not_mem.mpr fun edit isChosen =>
        List.not_mem_nil (choice.given edit isChosen), ?_⟩
      rintro rfl
      exact ⟨List.Pairwise.nil, fun _ isChosen => isChosen, fun _ isGiven => absurd isGiven List.not_mem_nil⟩
  | cons edit rest inductionHypothesis =>
      obtain ⟨first, orderedRest⟩ := List.pairwise_cons.mp ordered
      rw [applied]
      split
      next isBefore => rw [isChoice_cons_of_lt first isBefore, inductionHypothesis orderedRest]
      next notBefore =>
        rw [isChoice_cons_of_le first (Nat.not_lt.mp notBefore)]
        constructor
        · rintro ⟨later, rfl, choice⟩
          rw [(inductionHypothesis orderedRest).mp choice]
        · rintro rfl
          exact ⟨_, rfl, (inductionHypothesis orderedRest).mpr rfl⟩

/-- The edits of a set that are made. -/
def made (edits : List Edit) : List Edit :=
  applied 0 (sorted edits)

theorem isChoice_made_iff {edits chosen : List Edit} : IsChoice 0 edits chosen ↔ chosen = made edits := by
  rw [made, ← isChoice_iff (pairwise_sorted edits)]
  constructor
  · rintro ⟨ordered, given, passesOver⟩
    exact ⟨ordered, fun edit isChosen => mem_of_mem_sorted.mpr (given edit isChosen),
      fun edit isGiven => passesOver edit (mem_of_mem_sorted.mp isGiven)⟩
  · rintro ⟨ordered, given, passesOver⟩
    exact ⟨ordered, fun edit isChosen => mem_of_mem_sorted.mp (given edit isChosen),
      fun edit isGiven => passesOver edit (mem_of_mem_sorted.mpr isGiven)⟩

end Edit

/-! ## Texts outside spans -/

/-- Whether a span covers an offset. -/
def Span.covers (span : Span) (offset : Nat) : Bool :=
  span.start ≤ offset && offset < span.stop

/-- The characters that some spans do not cover, in order, of a text that begins at an offset. -/
def Text.outside (spans : List Span) : (offset : Nat) -> Text -> Text
  | _, [] => []
  | offset, c :: rest =>
      if spans.any (·.covers offset) then Text.outside spans (offset + 1) rest
      else c :: Text.outside spans (offset + 1) rest

namespace Text

variable {spans : List Span} {offset : Nat} {text : Text}

theorem outside_append (spans : List Span) (offset : Nat) (first second : Text) :
    outside spans offset (first ++ second) =
      outside spans offset first ++ outside spans (offset + first.length) second := by
  induction first generalizing offset with
  | nil => rfl
  | cons c rest inductionHypothesis =>
      have reached : offset + (c :: rest).length = offset + 1 + rest.length := by
        rw [List.length_cons]
        omega
      rw [List.cons_append, outside, outside, inductionHypothesis, reached]
      split <;> rfl

/-- A text that no span meets is all outside. -/
theorem outside_eq_self
    (missed : ∀ span ∈ spans, offset + text.length ≤ span.start ∨ span.stop ≤ offset) :
    outside spans offset text = text := by
  induction text generalizing offset with
  | nil => rfl
  | cons c rest inductionHypothesis =>
      rw [List.length_cons] at missed
      have notCovered : spans.any (·.covers offset) = false := by
        refine List.any_eq_false.mpr fun span isSpan => ?_
        have missedHere := missed span isSpan
        simp only [Span.covers, Bool.and_eq_true, decide_eq_true_eq]
        omega
      rw [outside, notCovered, if_neg Bool.false_ne_true, inductionHypothesis]
      intro span isSpan
      have missedHere := missed span isSpan
      omega

/-- Nothing of a text within a span is outside. -/
theorem outside_eq_nil {span : Span} (isSpan : span ∈ spans) (begins : span.start ≤ offset)
    (ends : offset + text.length ≤ span.stop) : outside spans offset text = [] := by
  induction text generalizing offset with
  | nil => rfl
  | cons c rest inductionHypothesis =>
      rw [List.length_cons] at ends
      have covered : spans.any (·.covers offset) = true := by
        refine List.any_eq_true.mpr ⟨span, isSpan, ?_⟩
        simp only [Span.covers, Bool.and_eq_true, decide_eq_true_eq]
        omega
      rw [outside, if_pos covered]
      exact inductionHypothesis (by omega) (by omega)

/-- A span that ends before a text has no part in it. -/
theorem outside_cons_of_le {span : Span} (isBefore : span.stop ≤ offset) :
    outside (span :: spans) offset text = outside spans offset text := by
  induction text generalizing offset with
  | nil => rfl
  | cons c rest inductionHypothesis =>
      have notCovered : span.covers offset = false := by
        simp only [Span.covers, Bool.and_eq_false_iff, decide_eq_false_iff_not]
        omega
      rw [outside, outside, List.any_cons, notCovered, Bool.false_or, inductionHypothesis (by omega)]

/-- Of a text whose middle part the first of some spans covers, the front is outside, and then what of
the back is outside the others. -/
theorem outside_covered {span : Span} {front middle back : Text}
    (begins : offset + front.length = span.start) (ends : span.start + middle.length = span.stop)
    (behind : ∀ other ∈ spans, span.stop ≤ other.start) :
    outside (span :: spans) offset (front ++ middle ++ back) = front ++ outside spans span.stop back := by
  have frontOutside : outside (span :: spans) offset front = front := by
    refine outside_eq_self (List.forall_mem_cons.mpr ⟨Or.inl (Nat.le_of_eq begins), fun other isOther => ?_⟩)
    have isBehind := behind other isOther
    omega
  have middleCovered : outside (span :: spans) span.start middle = [] :=
    outside_eq_nil List.mem_cons_self (Nat.le_refl _) (Nat.le_of_eq ends)
  have backBehind : outside (span :: spans) span.stop back = outside spans span.stop back :=
    outside_cons_of_le (Nat.le_refl _)
  rw [List.append_assoc, outside_append, outside_append, begins, ends, frontOutside, middleCovered,
    backBehind, List.nil_append]

end Text

namespace Edit

/-! ## What stands where -/

/-- Whether an edit replaces a stretch of a text. -/
def Fits (text : Text) (edit : Edit) : Prop :=
  edit.start ≤ edit.stop ∧ edit.stop ≤ text.length

/-- The stretch of text that an edit replaces. -/
def span (edit : Edit) : Span :=
  ⟨edit.start, edit.stop⟩

/-- How much longer a text becomes by edits. -/
def growth : List Edit -> Int
  | [] => 0
  | edit :: rest => (edit.replacement.length : Int) - ((edit.stop : Int) - edit.start) + growth rest

/-- Where the replacements of edits stand that are made in order, after so many characters were added
and removed. -/
def places : (added removed : Nat) -> List Edit -> List Span
  | _, _, [] => []
  | added, removed, edit :: rest =>
      let start := edit.start + added - removed
      ⟨start, start + edit.replacement.length⟩ ::
        places (added + edit.replacement.length) (removed + (edit.stop - edit.start)) rest

section Splice

variable {text : Text} {cursor added removed : Nat} {edits : List Edit}

theorem Fits.length_slice {edit : Edit} (fits : edit.Fits text) (cursor : Nat) :
    (Text.slice text cursor edit.start).length = edit.start - cursor :=
  Text.length_slice (Nat.le_trans fits.1 fits.2)

theorem length_splice (follow : Follow cursor edits) (fit : ∀ edit ∈ edits, edit.Fits text)
    (inside : cursor ≤ text.length) :
    ((splice text cursor edits).length : Int) = (text.length : Int) - cursor + growth edits := by
  induction edits generalizing cursor with
  | nil =>
      rw [splice, List.length_drop, growth]
      omega
  | cons edit rest inductionHypothesis =>
      obtain ⟨inOrder, followRest⟩ := follow
      obtain ⟨fits, fitRest⟩ := List.forall_mem_cons.mp fit
      have later := inductionHypothesis followRest fitRest fits.2
      have ordered := fits.1
      rw [splice, List.length_append, List.length_append, fits.length_slice, growth]
      omega

theorem le_start_of_mem_places (follow : Follow cursor edits) (fit : ∀ edit ∈ edits, edit.Fits text)
    (few : removed ≤ cursor) :
    ∀ place ∈ places added removed edits, cursor + added - removed ≤ place.start := by
  induction edits generalizing cursor added removed with
  | nil => exact List.forall_mem_nil _
  | cons edit rest inductionHypothesis =>
      obtain ⟨inOrder, followRest⟩ := follow
      obtain ⟨⟨ordered, _⟩, fitRest⟩ := List.forall_mem_cons.mp fit
      refine List.forall_mem_cons.mpr ⟨?_, fun place isLater => ?_⟩
      · dsimp only
        omega
      · have later := inductionHypothesis followRest fitRest
          (show removed + (edit.stop - edit.start) ≤ edit.stop by omega) place isLater
        omega

/-- What is kept stands outside the replacements, in order. -/
theorem outside_splice (follow : Follow cursor edits) (fit : ∀ edit ∈ edits, edit.Fits text)
    (few : removed ≤ cursor) :
    Text.outside (places added removed edits) (cursor + added - removed) (splice text cursor edits) =
      Text.outside (edits.map span) cursor (text.drop cursor) := by
  induction edits generalizing cursor added removed with
  | nil =>
      rw [places, splice, List.map_nil, Text.outside_eq_self (List.forall_mem_nil _),
        Text.outside_eq_self (List.forall_mem_nil _)]
  | cons edit rest inductionHypothesis =>
      obtain ⟨inOrder, followRest⟩ := follow
      obtain ⟨fits, fitRest⟩ := List.forall_mem_cons.mp fit
      have ordered := fits.1
      have kept := fits.length_slice cursor
      have fewLater : removed + (edit.stop - edit.start) ≤ edit.stop := by omega
      have later := @inductionHypothesis edit.stop (added + edit.replacement.length)
        (removed + (edit.stop - edit.start)) followRest fitRest fewLater
      have placesBehind := @le_start_of_mem_places text edit.stop (added + edit.replacement.length)
        (removed + (edit.stop - edit.start)) rest followRest fitRest fewLater
      have spansBehind : ∀ other ∈ rest.map span, edit.stop ≤ other.start := by
        intro other isLater
        obtain ⟨next, member, rfl⟩ := List.mem_map.mp isLater
        exact start_le_of_follow followRest (fun _ isNext => (fitRest _ isNext).1) next member
      have behind : edit.stop + (added + edit.replacement.length) - (removed + (edit.stop - edit.start)) =
          edit.start + added - removed + edit.replacement.length := by omega
      rw [behind] at later placesBehind
      have source : text.drop cursor =
          Text.slice text cursor edit.start ++ Text.slice text edit.start edit.stop ++
            text.drop edit.stop := by
        rw [Text.drop_eq_slice_append text inOrder, Text.drop_eq_slice_append text ordered,
          List.append_assoc]
      rw [places, splice, source, List.map_cons, Text.outside_covered _ rfl placesBehind,
        Text.outside_covered _ _ spansBehind]
      · exact congrArg _ later
      · rw [kept]
        exact Nat.add_sub_cancel' inOrder
      · rw [Text.length_slice fits.2]
        exact Nat.add_sub_cancel' ordered
      · rw [kept]
        dsimp only
        omega

/-- Behind a beginning of the length that the cursor stands for, each replacement stands at its place. -/
theorem replacement_splice (follow : Follow cursor edits) (fit : ∀ edit ∈ edits, edit.Fits text)
    (few : removed ≤ cursor) {front : Text} (length : front.length = cursor + added - removed) :
    List.Forall₂ (fun edit place => place.of (front ++ splice text cursor edits) = edit.replacement) edits
      (places added removed edits) := by
  induction edits generalizing cursor added removed front with
  | nil => exact List.Forall₂.nil
  | cons edit rest inductionHypothesis =>
      obtain ⟨inOrder, followRest⟩ := follow
      obtain ⟨fits, fitRest⟩ := List.forall_mem_cons.mp fit
      have ordered := fits.1
      have kept := fits.length_slice cursor
      have begins : (front ++ Text.slice text cursor edit.start).length = edit.start + added - removed := by
        rw [List.length_append, kept, length]
        omega
      have split : front ++ splice text cursor (edit :: rest) =
          front ++ Text.slice text cursor edit.start ++ edit.replacement ++ splice text edit.stop rest := by
        rw [splice, List.append_assoc, List.append_assoc, List.append_assoc]
      rw [split]
      refine List.Forall₂.cons ?_ ?_
      · rw [Span.of, Text.slice, List.append_assoc, List.drop_left' begins, Nat.add_sub_cancel_left,
          List.take_left]
      · refine inductionHypothesis followRest fitRest (by omega) ?_
        rw [List.length_append, begins]
        omega

end Splice

/-! ## Edits apart from one another -/

/-- Whether of any two edits each begins elsewhere, and one ends before the other begins or just there. -/
def AreApart (edits : List Edit) : Prop :=
  ∀ first ∈ edits, ∀ second ∈ edits, first ≠ second →
    first.start ≠ second.start ∧ (first.stop ≤ second.start ∨ second.stop ≤ first.start)

/-- A text with a single edit made. -/
def make (edit : Edit) (text : Text) : Text :=
  text.take edit.start ++ edit.replacement ++ text.drop edit.stop

theorem applied_eq_self {cursor : Nat} {edits : List Edit} (behind : ∀ edit ∈ edits, cursor ≤ edit.start)
    (apart : edits.Pairwise fun first second => first.stop ≤ second.start) :
    applied cursor edits = edits := by
  induction edits generalizing cursor with
  | nil => rfl
  | cons edit rest inductionHypothesis =>
      obtain ⟨endsBefore, apartRest⟩ := List.pairwise_cons.mp apart
      rw [applied, if_neg (Nat.not_lt.mpr (behind edit List.mem_cons_self)),
        inductionHypothesis endsBefore apartRest]

/-- Single edits made from the last one on leave the beginning of the text as it is, so that the offsets
of those in front of them still hold. -/
theorem foldr_make {text : Text} {cursor : Nat} {edits : List Edit}
    (behind : ∀ edit ∈ edits, cursor ≤ edit.start) (fit : ∀ edit ∈ edits, edit.Fits text)
    (apart : edits.Pairwise fun first second => first.stop ≤ second.start) :
    edits.foldr make text = text.take cursor ++ splice text cursor edits := by
  induction edits generalizing cursor with
  | nil => exact (List.take_append_drop cursor text).symm
  | cons edit rest inductionHypothesis =>
      obtain ⟨endsBefore, apartRest⟩ := List.pairwise_cons.mp apart
      obtain ⟨fits, fitRest⟩ := List.forall_mem_cons.mp fit
      have inOrder := behind edit List.mem_cons_self
      have reaches : (text.take edit.stop).length = edit.stop := List.length_take_of_le fits.2
      rw [List.foldr_cons, inductionHypothesis endsBefore fitRest apartRest, make,
        List.take_append_of_le_length (by rw [reaches]; exact fits.1), List.take_take,
        Nat.min_eq_left fits.1, List.drop_left' reaches, splice, Text.take_eq_append_slice text inOrder,
        List.append_assoc, List.append_assoc, List.append_assoc]

theorem AreApart.pairwise_sorted {text : Text} {edits : List Edit} (apart : AreApart edits)
    (fit : ∀ edit ∈ edits, edit.Fits text) :
    (sorted edits).Pairwise fun first second =>
      first.start < second.start ∧ first.stop ≤ second.start := by
  refine (Edit.pairwise_sorted edits).imp_of_mem ?_
  intro first second isFirst isSecond before
  have different := (comesBefore_iff.mp before).2
  have earlier := start_le_of_comesBefore before
  obtain ⟨otherStart, stopsBefore⟩ :=
    apart first (mem_of_mem_sorted.mp isFirst) second (mem_of_mem_sorted.mp isSecond) different
  have ordered := (fit second (mem_of_mem_sorted.mp isSecond)).1
  omega

/-- Applying edits that fit a text depends on nothing but which they are.  Those made are the greedy
choice in the order of edits.  The length changes by what they add and take away; each replacement stands
at the place of its span, and outside of these the edited text has the characters that the text has
outside the spans.  Edits apart from one another are all made, and amount to single ones made from the
last one on. -/
theorem applyAll_isExact {edits : List Edit} {text : Text} (fit : ∀ edit ∈ edits, edit.Fits text) :
    (∀ others : List Edit, (∀ edit, edit ∈ others ↔ edit ∈ edits) →
      applyAll others text = applyAll edits text) ∧
    (∀ chosen, IsChoice 0 edits chosen ↔ chosen = made edits) ∧
    ((applyAll edits text).length : Int) = text.length + growth (made edits) ∧
    Text.outside (places 0 0 (made edits)) 0 (applyAll edits text) =
      Text.outside ((made edits).map span) 0 text ∧
    List.Forall₂ (fun edit place => place.of (applyAll edits text) = edit.replacement) (made edits)
      (places 0 0 (made edits)) ∧
    (AreApart edits →
      (∀ edit ∈ edits, edit ∈ made edits) ∧
      ∃ listing : List Edit, (∀ edit, edit ∈ listing ↔ edit ∈ edits) ∧
        (listing.Pairwise fun first second => second.start < first.start) ∧
        applyAll edits text = listing.foldl (fun current edit => edit.make current) text) := by
  have follow : Follow 0 (made edits) := follow_applied 0 (sorted edits)
  have fitMade : ∀ edit ∈ made edits, edit.Fits text := fun edit isMade =>
    fit edit (mem_of_mem_sorted.mp (applied_subset 0 _ isMade))
  refine ⟨?_, ?_, ?_, ?_, ?_, ?_⟩
  · intro others same
    rw [applyAll, applyAll, sorted_congr same]
  · exact fun chosen => isChoice_made_iff
  · have whole := length_splice follow fitMade (Nat.zero_le text.length)
    rwa [Int.natCast_zero, Int.sub_zero] at whole
  · exact outside_splice follow fitMade (Nat.zero_le 0)
  · exact @replacement_splice text 0 0 0 (made edits) follow fitMade (Nat.zero_le 0) [] rfl
  · intro apart
    have ordered := apart.pairwise_sorted fit
    have endBefore := ordered.imp fun both => both.2
    have fitSorted : ∀ edit ∈ sorted edits, edit.Fits text := fun edit member =>
      fit edit (mem_of_mem_sorted.mp member)
    have allMade : made edits = sorted edits := applied_eq_self (fun _ _ => Nat.zero_le _) endBefore
    refine ⟨fun edit isGiven => ?_, (sorted edits).reverse, fun edit => ?_, ?_, ?_⟩
    · rw [allMade]
      exact mem_of_mem_sorted.mpr isGiven
    · rw [List.mem_reverse, mem_of_mem_sorted]
    · exact List.pairwise_reverse.mpr (ordered.imp fun both => both.1)
    · have single := foldr_make (fun _ _ => Nat.zero_le _) fitSorted endBefore
      rw [List.take_zero, List.nil_append] at single
      rw [List.foldl_reverse, single, applyAll]
      exact congrArg (splice text 0) allMade

/-- Of an insertion at the end of a replaced stretch, a replacement that begins within the stretch and a
repeated edit, the second alone is passed over. -/
theorem applyAll_isExact_overlapping :
    (∀ edit ∈ ([⟨3, 3, ['Z']⟩, ⟨2, 4, ['Y']⟩, ⟨1, 3, ['X']⟩, ⟨1, 3, ['X']⟩] : List Edit),
      edit.Fits "abcdef".toList) ∧
    IsChoice 0 [⟨3, 3, ['Z']⟩, ⟨2, 4, ['Y']⟩, ⟨1, 3, ['X']⟩, ⟨1, 3, ['X']⟩]
      [⟨1, 3, ['X']⟩, ⟨3, 3, ['Z']⟩] ∧
    applyAll [⟨3, 3, ['Z']⟩, ⟨2, 4, ['Y']⟩, ⟨1, 3, ['X']⟩, ⟨1, 3, ['X']⟩] "abcdef".toList =
      "aXZdef".toList := by
  have fit : ∀ edit ∈ ([⟨3, 3, ['Z']⟩, ⟨2, 4, ['Y']⟩, ⟨1, 3, ['X']⟩, ⟨1, 3, ['X']⟩] : List Edit),
      edit.Fits "abcdef".toList := by
    unfold Fits
    decide
  obtain ⟨_, choice, _⟩ := applyAll_isExact fit
  exact ⟨fit, (choice _).mpr (by decide), by decide⟩

/-! ## Edits where their text stands behind another -/

/-- An edit of a text where it stands behind some characters. -/
def shifted (amount : Nat) (edit : Edit) : Edit :=
  ⟨edit.start + amount, edit.stop + amount, edit.replacement⟩

section Order

variable {amount : Nat} {first second : List Edit}

end Order

/-! ## Edits that are applied -/

section Parts

variable {cursor border : Nat} {first second : List Edit} {before after : Text}

theorem applyAll_nil (text : Text) : applyAll [] text = text :=
  List.drop_zero

theorem applyAll_singleton (edit : Edit) (text : Text) :
    applyAll [edit] text = text.take edit.start ++ edit.replacement ++ text.drop edit.stop := by
  have alone : sorted [edit] = [edit] :=
    sorted_eq_of_pairwise (List.pairwise_singleton _ _) fun _ => Iff.rfl
  rw [applyAll, alone, applied, if_neg (Nat.not_lt_zero _), applied, splice, splice, Text.slice,
    List.drop_zero, Nat.sub_zero]

end Parts

end Edit

end SceneBundler
