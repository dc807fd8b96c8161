import SceneBundler.Proofs.Text.Search
import SceneBundler.Proofs.Text.Splicing
import SceneBundler.Source.Position

/-!
Contract: where the characters of an edited text come from.

Owns:
- that what no edit meets is carried to the edited text, and by how many line breaks it is moved;
- that every character which no edit puts in is carried there;
- the same for sets of edits that are applied one after another.

Does not own: which edits are given.
-/

namespace SceneBundler

namespace Edit

/-! ## One set of edits -/

/-- Those of some edits that end in front of an offset. -/
def upTo (edits : List Edit) (offset : Nat) : List Edit :=
  edits.filter fun edit => edit.stop ≤ offset

/-- The number of line breaks that edits take away in front of an offset. -/
def breaksTaken (text : Text) (edits : List Edit) (offset : Nat) : Nat :=
  ((upTo edits offset).flatMap fun edit => Text.slice text edit.start edit.stop).count '\n'

/-- The number of line breaks that edits put in in front of an offset. -/
def breaksGiven (edits : List Edit) (offset : Nat) : Nat :=
  ((upTo edits offset).flatMap fun edit => edit.replacement).count '\n'

/-- Whether a set of edits carries a stretch of a text, as it is, to a place in the edited text. -/
structure Carries (text : Text) (edits : List Edit) (place offset length : Nat) : Prop where
  inside : offset + length ≤ text.length
  misses : ∀ edit ∈ made edits, edit.Misses offset (offset + length)
  reached : (place : Int) = offset + growth (upTo (made edits) offset)

section Splice

variable {text : Text} {cursor place offset length : Nat} {edits : List Edit}

theorem upTo_cons_of_le {edit : Edit} (isBefore : edit.stop ≤ offset) :
    upTo (edit :: edits) offset = edit :: upTo edits offset :=
  List.filter_cons_of_pos (decide_eq_true isBefore)

theorem upTo_eq_nil (behind : ∀ edit ∈ edits, offset < edit.stop) : upTo edits offset = [] :=
  List.filter_eq_nil_iff.mpr fun edit member => by
    have isBehind := behind edit member
    rw [decide_eq_true_eq]
    omega

/-- A stretch that edits miss stands behind what they make of the text in front of it, and the lines there
are those of the text, but for the line breaks that are taken away and put in. -/
theorem exists_splice_of_misses (follow : Follow cursor edits) (ordered : ∀ edit ∈ edits, edit.start ≤ edit.stop)
    (behind : cursor ≤ offset) (nonempty : 0 < length) (inside : offset + length ≤ text.length)
    (misses : ∀ edit ∈ edits, edit.Misses offset (offset + length)) :
    ∃ front back, splice text cursor edits = front ++ (Text.slice text offset (offset + length) ++ back) ∧
      (front.length : Int) = (offset : Int) - cursor + growth (upTo edits offset) ∧
      front.count '\n' + breaksTaken text edits offset =
        (Text.slice text cursor offset).count '\n' + breaksGiven edits offset := by
  induction edits generalizing cursor with
  | nil =>
      refine ⟨Text.slice text cursor offset, text.drop (offset + length), ?_, ?_, rfl⟩
      · rw [splice, Text.drop_eq_slice_append text behind, Text.drop_eq_slice_append text (Nat.le_add_right _ _)]
      · rw [Text.length_slice (by omega), upTo, List.filter_nil, growth]
        omega
  | cons edit rest inductionHypothesis =>
      obtain ⟨inOrder, followRest⟩ := follow
      obtain ⟨isOrdered, orderedRest⟩ := List.forall_mem_cons.mp ordered
      obtain ⟨missed, missesRest⟩ := List.forall_mem_cons.mp misses
      by_cases isBefore : edit.stop ≤ offset
      · have kept := @Text.length_slice text cursor edit.start (by omega)
        obtain ⟨front, back, split, isPlace, counted⟩ :=
          inductionHypothesis followRest orderedRest isBefore missesRest
        have breaks : (Text.slice text cursor offset).count '\n' =
            (Text.slice text cursor edit.start).count '\n' +
              ((Text.slice text edit.start edit.stop).count '\n' +
                (Text.slice text edit.stop offset).count '\n') := by
          rw [Text.slice_append_slice text inOrder (Nat.le_trans isOrdered isBefore),
            Text.slice_append_slice text isOrdered isBefore,
            List.count_append, List.count_append]
        refine ⟨Text.slice text cursor edit.start ++ (edit.replacement ++ front), back, ?_, ?_, ?_⟩
        · rw [splice, split]
          simp only [List.append_assoc]
        · rw [upTo_cons_of_le isBefore, growth, List.length_append, List.length_append, kept]
          omega
        · rw [breaksTaken, breaksGiven, upTo_cons_of_le isBefore, List.flatMap_cons, List.flatMap_cons,
            List.count_append, List.count_append, List.count_append, List.count_append, ← breaksTaken, ← breaksGiven]
          omega
      · -- The edit is made behind the stretch, and so are those that follow it.
        have isBehind : offset + length ≤ edit.start := missed.resolve_left isBefore
        have later : ∀ other ∈ edit :: rest, offset < other.stop := by
          refine List.forall_mem_cons.mpr ⟨by omega, fun other member => ?_⟩
          have starts := start_le_of_follow followRest orderedRest other member
          have ends := orderedRest other member
          omega
        have nothing := upTo_eq_nil later
        refine ⟨Text.slice text cursor offset, Text.slice text (offset + length) edit.start ++
          (edit.replacement ++ splice text edit.stop rest), ?_, ?_, ?_⟩
        · rw [splice, Text.slice_append_slice text behind (Nat.le_trans (Nat.le_add_right offset length) isBehind),
            Text.slice_append_slice text (Nat.le_add_right offset length) isBehind]
          simp only [List.append_assoc]
        · rw [Text.length_slice (by omega), nothing, growth]
          omega
        · rw [breaksTaken, breaksGiven, nothing]
          rfl

/-- A character of a spliced text that no edit puts in stood in the text, and the edits miss it. -/
theorem exists_misses_of_splice (follow : Follow cursor edits) (ordered : ∀ edit ∈ edits, edit.start ≤ edit.stop)
    {place : Nat} {c : Char} (isThere : (splice text cursor edits)[place]? = some c)
    (notGiven : ∀ edit ∈ edits, c ∉ edit.replacement) :
    ∃ offset, cursor ≤ offset ∧ text[offset]? = some c ∧
      (∀ edit ∈ edits, edit.Misses offset (offset + 1)) ∧
      (place : Int) = (offset : Int) - cursor + growth (upTo edits offset) := by
  induction edits generalizing cursor place with
  | nil =>
      rw [splice, List.getElem?_drop] at isThere
      refine ⟨cursor + place, Nat.le_add_right _ _, isThere, List.forall_mem_nil _, ?_⟩
      rw [upTo, List.filter_nil, growth]
      omega
  | cons edit rest inductionHypothesis =>
      obtain ⟨inOrder, followRest⟩ := follow
      obtain ⟨isOrdered, orderedRest⟩ := List.forall_mem_cons.mp ordered
      obtain ⟨notHere, notLater⟩ := List.forall_mem_cons.mp notGiven
      rw [splice, List.append_assoc] at isThere
      by_cases inFront : place < (Text.slice text cursor edit.start).length
      · -- The character is one of those that are kept in front of the edit.
        rw [List.getElem?_append_left inFront, Text.slice, List.getElem?_take, List.getElem?_drop] at isThere
        rw [Text.slice, List.length_take] at inFront
        rw [if_pos (by omega)] at isThere
        have later : ∀ other ∈ edit :: rest, cursor + place < other.start := by
          refine List.forall_mem_cons.mpr ⟨by omega, fun other member => ?_⟩
          have starts := start_le_of_follow followRest orderedRest other member
          omega
        have nothing : upTo (edit :: rest) (cursor + place) = [] :=
          upTo_eq_nil fun other member => Nat.lt_of_lt_of_le (later other member) (ordered other member)
        refine ⟨cursor + place, Nat.le_add_right _ _, isThere, fun other member => Or.inr (later other member), ?_⟩
        rw [nothing, growth]
        omega
      · rw [List.getElem?_append_right (Nat.le_of_not_lt inFront)] at isThere
        by_cases isGiven : place - (Text.slice text cursor edit.start).length < edit.replacement.length
        · rw [List.getElem?_append_left isGiven] at isThere
          exact absurd (List.mem_of_getElem? isThere) notHere
        · rw [List.getElem?_append_right (Nat.le_of_not_lt isGiven)] at isThere
          obtain ⟨offset, behind, stands, misses, reached⟩ :=
            inductionHypothesis followRest orderedRest isThere notLater
          have inside := (List.getElem?_eq_some_iff.mp stands).1
          have kept := @Text.length_slice text cursor edit.start (by omega)
          rw [kept] at inFront isGiven reached
          refine ⟨offset, by omega, stands, List.forall_mem_cons.mpr ⟨Or.inl behind, misses⟩, ?_⟩
          rw [upTo_cons_of_le behind, growth]
          omega

end Splice

section Carries

variable {text : Text} {edits : List Edit} {place offset length : Nat}

theorem ordered_made (ordered : ∀ edit ∈ edits, edit.start ≤ edit.stop) :
    ∀ edit ∈ made edits, edit.start ≤ edit.stop :=
  fun edit isMade => ordered edit (mem_of_mem_sorted.mp (applied_subset 0 _ isMade))

/-- What is carried stands at its place, and the lines in front of it are those of the text, but for the line
breaks that are taken away and put in. -/
theorem Carries.exists_applyAll (carries : Carries text edits place offset length)
    (ordered : ∀ edit ∈ edits, edit.start ≤ edit.stop) (nonempty : 0 < length) :
    ∃ front back, applyAll edits text = front ++ (Text.slice text offset (offset + length) ++ back) ∧
      front.length = place ∧
      Source.lineNumberAt (applyAll edits text) place + breaksTaken text (made edits) offset =
        Source.lineNumberAt text offset + breaksGiven (made edits) offset := by
  have follow : Follow 0 (made edits) := follow_applied 0 (sorted edits)
  obtain ⟨front, back, split, isPlace, counted⟩ := exists_splice_of_misses follow (ordered_made ordered)
    (Nat.zero_le offset) nonempty carries.inside carries.misses
  have reached := carries.reached
  have length : front.length = place := by omega
  have inFront : (applyAll edits text).take place = front := by
    change (splice text 0 (made edits)).take place = front
    rw [split, List.take_left' length]
  refine ⟨front, back, split, length, ?_⟩
  rw [Text.slice, List.drop_zero, Nat.sub_zero] at counted
  rw [Source.lineNumberAt, Source.lineNumberAt, inFront]
  omega

/-- Every character that no edit puts in is carried. -/
theorem exists_carries (ordered : ∀ edit ∈ edits, edit.start ≤ edit.stop) {c : Char}
    (isThere : (applyAll edits text)[place]? = some c) (notGiven : ∀ edit ∈ edits, c ∉ edit.replacement) :
    ∃ offset, Carries text edits place offset 1 ∧ text[offset]? = some c := by
  have follow : Follow 0 (made edits) := follow_applied 0 (sorted edits)
  obtain ⟨offset, _, stands, misses, reached⟩ := exists_misses_of_splice follow (ordered_made ordered) isThere
    (fun edit isMade => notGiven edit (mem_of_mem_sorted.mp (applied_subset 0 _ isMade)))
  have inside := (List.getElem?_eq_some_iff.mp stands).1
  exact ⟨offset, ⟨inside, misses, by omega⟩, stands⟩

end Carries

/-! ## Sets of edits one after another -/

/-- A text with sets of edits applied one after another. -/
def applyEach (steps : List (List Edit)) (text : Text) : Text :=
  steps.foldl (fun current edits => applyAll edits current) text

theorem applyEach_nil (text : Text) : applyEach [] text = text :=
  rfl

theorem applyEach_cons (edits : List Edit) (later : List (List Edit)) (text : Text) :
    applyEach (edits :: later) text = applyEach later (applyAll edits text) :=
  rfl

theorem applyEach_append (steps later : List (List Edit)) (text : Text) :
    applyEach (steps ++ later) text = applyEach later (applyEach steps text) :=
  List.foldl_append

/-- Whether sets of edits, one after another, carry a stretch of a text to a place, and how many line breaks
they take away and put in in front of it. -/
inductive CarriesThrough : (steps : List (List Edit)) -> Text -> (place offset length taken given : Nat) -> Prop
  | none {text : Text} {place length : Nat} (inside : place + length ≤ text.length) :
      CarriesThrough [] text place place length 0 0
  | step {edits : List Edit} {later : List (List Edit)} {text : Text} {place middle offset length : Nat}
      {taken given : Nat} (carries : Carries text edits middle offset length)
      (rest : CarriesThrough later (applyAll edits text) place middle length taken given) :
      CarriesThrough (edits :: later) text place offset length
        (breaksTaken text (made edits) offset + taken) (breaksGiven (made edits) offset + given)

section Steps

variable {text : Text} {steps : List (List Edit)}

theorem CarriesThrough.inside {place offset length taken given : Nat}
    (carries : CarriesThrough steps text place offset length taken given) : offset + length ≤ text.length := by
  cases carries with
  | none inside => exact inside
  | step carries _ => exact carries.inside

/-- What is carried through stands at its place, and the lines in front of it are those of the text, but for
the line breaks that are taken away and put in. -/
theorem CarriesThrough.exists_applyEach {place offset length taken given : Nat}
    (carries : CarriesThrough steps text place offset length taken given)
    (ordered : ∀ edits ∈ steps, ∀ edit ∈ edits, edit.start ≤ edit.stop) (nonempty : 0 < length) :
    ∃ front back, applyEach steps text = front ++ (Text.slice text offset (offset + length) ++ back) ∧
      front.length = place ∧
      Source.lineNumberAt (applyEach steps text) place + taken = Source.lineNumberAt text offset + given := by
  induction carries with
  | @none text place length inside =>
      refine ⟨text.take place, text.drop (place + length), ?_, List.length_take_of_le (by omega), rfl⟩
      rw [← Text.drop_eq_slice_append text (Nat.le_add_right _ _), List.take_append_drop]
      rfl
  | @step edits later text place middle offset length taken given carries rest inductionHypothesis =>
      obtain ⟨orderedHere, orderedLater⟩ := List.forall_mem_cons.mp ordered
      obtain ⟨front, back, split, isMiddle, counted⟩ := carries.exists_applyAll orderedHere nonempty
      have long := @Text.length_slice text offset (offset + length) carries.inside
      have sameStretch : Text.slice (applyAll edits text) middle (middle + length) =
          Text.slice text offset (offset + length) :=
        Text.slice_eq front back split isMiddle.symm (by rw [isMiddle, long]; omega)
      obtain ⟨lead, trail, splitLater, isPlace, countedLater⟩ :=
        inductionHypothesis orderedLater nonempty
      refine ⟨lead, trail, ?_, isPlace, ?_⟩
      · rw [← sameStretch]
        exact splitLater
      · rw [applyEach_cons]
        omega

/-- Every character that no step puts in is carried through. -/
theorem exists_carriesThrough (ordered : ∀ edits ∈ steps, ∀ edit ∈ edits, edit.start ≤ edit.stop) {place : Nat}
    {c : Char} (isThere : (applyEach steps text)[place]? = some c)
    (notGiven : ∀ edits ∈ steps, ∀ edit ∈ edits, c ∉ edit.replacement) :
    ∃ offset taken given, CarriesThrough steps text place offset 1 taken given ∧ text[offset]? = some c := by
  induction steps generalizing text with
  | nil => exact ⟨place, 0, 0, .none (List.getElem?_eq_some_iff.mp isThere).1, isThere⟩
  | cons edits later inductionHypothesis =>
      obtain ⟨orderedHere, orderedLater⟩ := List.forall_mem_cons.mp ordered
      obtain ⟨notHere, notLater⟩ := List.forall_mem_cons.mp notGiven
      obtain ⟨middle, taken, given, rest, stands⟩ :=
        @inductionHypothesis (applyAll edits text) orderedLater isThere notLater
      obtain ⟨offset, carries, standsThere⟩ := exists_carries orderedHere stands notHere
      exact ⟨offset, _, _, .step carries rest, standsThere⟩

end Steps

end Edit

end SceneBundler
