import SceneBundler.Proofs.Text.Blank
import SceneBundler.Source.Bracket
import SceneBundler.Source.Position

/-!
Contract: places and bracket pairs of a masked source with blanks at its end.

Owns:
- that the closer of every bracket pair lies within the text;
- that blanks at the end change no pair, no brace depth, and no place that is looked for;
- what they add to a slice and to the last line.

Does not own: patterns and tags.
-/

namespace SceneBundler

namespace Text

variable {text tail : Text}

theorem not_mem_of_isBlank (blank : Text.isBlank tail = true) (mark : Char)
    (visible : Character.isBlank mark = false) : mark ∉ tail := by
  intro member
  rw [isBlank_iff.mp blank mark member] at visible
  contradiction

/-- A slice of a text with blanks at its end is the slice of the text, and then blanks. -/
theorem slice_append_blanks (blank : Text.isBlank tail = true) (text : Text) (start stop : Nat) :
    ∃ blanks, Text.isBlank blanks = true ∧
      slice (text ++ tail) start stop = slice text start (min stop text.length) ++ blanks := by
  refine ⟨(tail.drop (start - text.length)).take (stop - start - (text.drop start).length), ?_, ?_⟩
  · rw [isBlank_iff] at blank ⊢
    exact fun c member => blank c (List.mem_of_mem_drop (List.mem_of_mem_take member))
  · have sameLength : (text.drop start).take (stop - start) =
        (text.drop start).take (min stop text.length - start) := by
      rw [List.take_eq_take_iff, List.length_drop]
      omega
    rw [slice, slice, List.drop_append, List.take_append, sameLength]

/-- A character that the end of a text does not hold is found where it was. -/
theorem offsetOf?_append {mark : Char} (absent : mark ∉ tail) {offset : Nat}
    (inside : offset ≤ text.length) :
    offsetOf? mark (text ++ tail) offset = offsetOf? mark text offset := by
  have noneBehind : tail.findIdx? (· == mark) = none := by
    rw [List.findIdx?_eq_none_iff]
    intro c member
    rw [beq_eq_false_iff_ne]
    exact fun same => absent (same ▸ member)
  rw [offsetOf?, offsetOf?, List.drop_append_of_le_length inside, List.findIdx?_append, noneBehind]
  simp

end Text

namespace Source

open Character (isBlank)

variable {masked tail : Text}

theorem braceDepthAt_append {offset : Nat} (inside : offset ≤ masked.length) :
    braceDepthAt (masked ++ tail) offset = braceDepthAt masked offset := by
  rw [braceDepthAt, braceDepthAt, List.take_append_of_le_length inside]

/-- With more text behind it, a line ends where it did or beyond the end of the text. -/
theorem lineEndFrom_append {offset : Nat} (inside : offset ≤ masked.length) :
    min (lineEndFrom (masked ++ tail) offset) masked.length = lineEndFrom masked offset := by
  unfold lineEndFrom Text.offsetOf?
  rw [List.drop_append_of_le_length inside, List.findIdx?_append]
  cases found : (masked.drop offset).findIdx? (· == '\n') with
  | some index =>
      have before := (List.findIdx?_eq_some_iff_getElem.mp found).1
      rw [List.length_drop] at before
      simp only [Option.some_or, Option.map_some, Option.getD_some]
      omega
  | none =>
      cases tail.findIdx? (· == '\n') with
      | none => simp
      | some index =>
          simp only [Option.none_or, Option.map_some, Option.map_none, Option.getD_some,
            Option.getD_none, List.length_drop]
          omega

namespace BracketPairs

theorem ofKind_of_no_brackets {kind : BracketKind} (noOpener : kind.opener ∉ tail)
    (noCloser : kind.closer ∉ tail) (openers : List Nat) (offset : Nat) (pairs : BracketPairs) :
    ofKind kind openers offset tail pairs = pairs := by
  induction tail generalizing offset with
  | nil => rfl
  | cons c rest inductionHypothesis =>
      have notOpener : c ≠ kind.opener := fun same => noOpener (by simp [same])
      have notCloser : c ≠ kind.closer := fun same => noCloser (by simp [same])
      rw [ofKind.eq_def]
      dsimp only
      rw [if_neg notOpener, if_neg notCloser]
      exact inductionHypothesis (fun member => noOpener (List.mem_cons_of_mem c member))
        (fun member => noCloser (List.mem_cons_of_mem c member)) _

theorem ofKind_append {kind : BracketKind} (noOpener : kind.opener ∉ tail)
    (noCloser : kind.closer ∉ tail) (openers : List Nat) (offset : Nat) (text : Text)
    (pairs : BracketPairs) :
    ofKind kind openers offset (text ++ tail) pairs = ofKind kind openers offset text pairs := by
  induction text generalizing openers offset pairs with
  | nil => exact ofKind_of_no_brackets noOpener noCloser openers offset pairs
  | cons c rest inductionHypothesis =>
      cases openers <;> simp only [List.cons_append, ofKind, inductionHypothesis]

/-- Blanks at the end of a masked source change no bracket pair. -/
theorem ofText_append_blanks (blank : Text.isBlank tail = true) (masked : Text) :
    ofText (masked ++ tail) = ofText masked := by
  have same : ∀ kind : BracketKind,
      ofKind kind [] 0 (masked ++ tail) [] = ofKind kind [] 0 masked [] := by
    intro kind
    refine ofKind_append ?_ ?_ [] 0 masked []
    · exact Text.not_mem_of_isBlank blank _ (by cases kind <;> decide)
    · exact Text.not_mem_of_isBlank blank _ (by cases kind <;> decide)
  rw [ofText, funext same]
  rfl

/-- Every pair that is found ends at a closer of its kind. -/
theorem closer_of_mem_ofKind {kind : BracketKind} {openers : List Nat} {offset : Nat} {text : Text}
    {pairs : BracketPairs} {pair : Nat × Nat}
    (member : pair ∈ ofKind kind openers offset text pairs) :
    pair ∈ pairs ∨ ∃ place, pair.2 = offset + place ∧ text[place]? = some kind.closer := by
  induction text generalizing openers offset pairs with
  | nil => exact Or.inl member
  | cons c rest inductionHypothesis =>
      have later {openers : List Nat} {pairs : BracketPairs}
          (member : pair ∈ ofKind kind openers (offset + 1) rest pairs) :
          pair ∈ pairs ∨ ∃ place, pair.2 = offset + place ∧ (c :: rest)[place]? = some kind.closer := by
        refine (inductionHypothesis member).imp_right fun ⟨place, isPlace, isCloser⟩ => ?_
        exact ⟨place + 1, by omega, isCloser⟩
      rw [ofKind.eq_def] at member
      dsimp only at member
      split at member
      next => exact later member
      next =>
        split at member
        next closes =>
          split at member
          next => exact later member
          next =>
            rcases later member with isThisOrEarlier | inside
            · rcases List.mem_cons.mp isThisOrEarlier with isThis | isEarlier
              · exact Or.inr ⟨0, by rw [isThis]; rfl, congrArg some closes⟩
              · exact Or.inl isEarlier
            · exact Or.inr inside
        next => exact later member

theorem getElem?_of_closerOf? {text : Text} {opened closed : Nat}
    (paired : (ofText text).closerOf? opened = some closed) :
    ∃ kind : BracketKind, text[closed]? = some kind.closer := by
  obtain ⟨before, after, split, _⟩ := List.lookup_eq_some_iff.mp paired
  have member : (opened, closed) ∈ ofText text := by simp [split]
  obtain ⟨kind, _, isPair⟩ := List.mem_flatMap.mp member
  rcases closer_of_mem_ofKind isPair with isEarlier | ⟨place, isPlace, isCloser⟩
  · exact absurd isEarlier List.not_mem_nil
  · obtain rfl : closed = place := by simpa using isPlace
    exact ⟨kind, isCloser⟩

/-- The closer of every pair lies within the text. -/
theorem lt_of_closerOf? {text : Text} {opened closed : Nat}
    (paired : (ofText text).closerOf? opened = some closed) : closed < text.length := by
  obtain ⟨kind, isCloser⟩ := getElem?_of_closerOf? paired
  exact (List.getElem?_eq_some_iff.mp isCloser).1

end BracketPairs

end Source

end SceneBundler
