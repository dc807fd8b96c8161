import Mathlib.Data.List.Forall2
import SceneBundler.Source.Mask
import SceneBundler.Source.Position

/-!
Contract: the masked view as a text that is written from its first character on.

Owns:
- the masked form of a text read from any state, nearest character last, and its agreement with the record
  of masked characters that the reading keeps;
- the reading of a text with a given text after it, and the cut of a reading in two;
- the relation between a character of the source and its masked form, in which every offset of the view
  stands to the source, and what follows for lengths, line breaks and line numbers.

Does not own: which characters are blanked.
-/

namespace SceneBundler.Source

namespace Reading

/-- The masked form of a text read from a state on. -/
def view (reading : Reading) : Text -> Text
  | [] => []
  | c :: rest => shown (reading.read c rest).1 c :: (reading.advance c rest).view rest

/-- The masked form of a text read from a state on, where more text is to follow. -/
def viewBefore (following : Text) (reading : Reading) : Text -> Text
  | [] => []
  | c :: rest =>
      shown (reading.read c (rest ++ following)).1 c ::
        (reading.advance c (rest ++ following)).viewBefore following rest

/-- The state after a text where more text is to follow. -/
def readBefore (following : Text) (reading : Reading) : Text -> Reading
  | [] => reading
  | c :: rest => (reading.advance c (rest ++ following)).readBefore following rest

theorem before_advance (reading : Reading) (c : Char) (ahead : Text) :
    (reading.advance c ahead).before = shown (reading.read c ahead).1 c :: reading.before :=
  rfl

theorem before_readAll (reading : Reading) (text : Text) :
    (reading.readAll text).before = (reading.view text).reverse ++ reading.before := by
  induction text generalizing reading with
  | nil => rfl
  | cons c rest inductionHypothesis =>
      rw [readAll, inductionHypothesis, before_advance, view, List.reverse_cons]
      simp

theorem view_append (reading : Reading) (first second : Text) :
    reading.view (first ++ second) =
      reading.viewBefore second first ++ (reading.readBefore second first).view second := by
  induction first generalizing reading with
  | nil => rfl
  | cons c rest inductionHypothesis =>
      rw [List.cons_append, view, inductionHypothesis]
      rfl

theorem length_viewBefore (reading : Reading) (following text : Text) :
    (reading.viewBefore following text).length = text.length := by
  induction text generalizing reading with
  | nil => rfl
  | cons c rest inductionHypothesis => exact congrArg Nat.succ (inductionHypothesis _)

theorem readAll_append (reading : Reading) (first second : Text) :
    reading.readAll (first ++ second) = (reading.readBefore second first).readAll second := by
  induction first generalizing reading with
  | nil => rfl
  | cons c rest inductionHypothesis =>
      rw [List.cons_append, readAll, inductionHypothesis]
      rfl

end Reading

/-- The masked view is the masked form of the text read from its beginning on. -/
theorem mask_eq_view (text : Text) : mask text = Reading.initial.view text := by
  rw [mask, Reading.before_readAll]
  simp [Reading.initial]

/-! ## What the view keeps -/

/-- A masked character is the character of the source, or a space in place of a character that is no
line break. -/
def KeepsOrBlanks (source masked : Char) : Prop :=
  masked = source ∨ (masked = ' ' ∧ source ≠ '\n')

namespace KeepsOrBlanks

theorem isLineBreak_iff {source masked : Char} (faithful : KeepsOrBlanks source masked) :
    masked = '\n' ↔ source = '\n' := by
  rcases faithful with same | ⟨blanked, noBreak⟩
  · rw [same]
  · subst blanked
    constructor
    · intro isBreak
      exact absurd isBreak (by decide)
    · intro isBreak
      exact absurd isBreak noBreak

end KeepsOrBlanks

theorem keepsOrBlanks_shown (visible : Bool) (c : Char) :
    KeepsOrBlanks c (Reading.shown visible c) := by
  unfold Reading.shown
  by_cases kept : (visible || c == '\n') = true
  · rw [if_pos kept]
    exact Or.inl rfl
  · rw [if_neg kept]
    refine Or.inr ⟨rfl, ?_⟩
    intro isBreak
    exact kept (by simp [isBreak])

/-- Reading from any state, in the middle of a literal as well, blanks or keeps each character. -/
theorem Reading.forall₂_view (reading : Reading) (text : Text) :
    List.Forall₂ KeepsOrBlanks text (reading.view text) := by
  induction text generalizing reading with
  | nil => exact List.Forall₂.nil
  | cons c rest inductionHypothesis =>
      exact List.Forall₂.cons (keepsOrBlanks_shown _ c) (inductionHypothesis _)

theorem forall₂_mask (text : Text) : List.Forall₂ KeepsOrBlanks text (mask text) := by
  rw [mask_eq_view]
  exact Reading.initial.forall₂_view text

theorem length_mask (text : Text) : (mask text).length = text.length :=
  (forall₂_mask text).length_eq.symm

theorem isBlank_of_forall₂ {source masked : Text}
    (faithful : List.Forall₂ KeepsOrBlanks source masked)
    (blank : Text.isBlank source = true) : Text.isBlank masked = true := by
  induction faithful with
  | nil => rfl
  | cons kept _ inductionHypothesis =>
      simp only [Text.isBlank, List.all_cons, Bool.and_eq_true] at blank inductionHypothesis ⊢
      refine ⟨?_, inductionHypothesis blank.2⟩
      rcases kept with same | ⟨isSpace, _⟩
      · rw [same]
        exact blank.1
      · rw [isSpace]
        decide

/-- Blanks are shown as blanks wherever they are read. -/
theorem isBlank_view (reading : Reading) {text : Text} (blank : Text.isBlank text = true) :
    Text.isBlank (reading.view text) = true :=
  isBlank_of_forall₂ (reading.forall₂_view text) blank

theorem isBlank_mask {text : Text} (blank : Text.isBlank text = true) :
    Text.isBlank (mask text) = true :=
  isBlank_of_forall₂ (forall₂_mask text) blank

/-- Faithful texts have their line breaks at the same offsets, so any beginnings of one length hold as
many. -/
theorem count_break_take {source masked : Text}
    (faithful : List.Forall₂ KeepsOrBlanks source masked) (offset : Nat) :
    (masked.take offset).count '\n' = (source.take offset).count '\n' := by
  induction faithful generalizing offset with
  | nil => rfl
  | cons kept _ inductionHypothesis =>
      cases offset with
      | zero => rfl
      | succ offset =>
          rw [List.take_succ_cons, List.take_succ_cons, List.count_cons, List.count_cons,
            inductionHypothesis]
          simp only [beq_iff_eq, kept.isLineBreak_iff]

theorem getElem?_break_iff {source masked : Text}
    (faithful : List.Forall₂ KeepsOrBlanks source masked) (offset : Nat) :
    masked[offset]? = some '\n' ↔ source[offset]? = some '\n' := by
  induction faithful generalizing offset with
  | nil => rfl
  | cons kept _ inductionHypothesis =>
      cases offset with
      | zero => simpa using kept.isLineBreak_iff
      | succ offset => simpa using inductionHypothesis offset

/-- What is shown and is no space stands in the text. -/
theorem getElem?_of_mask {text : Text} {offset : Nat} {c : Char} (isShown : (mask text)[offset]? = some c)
    (notSpace : c ≠ ' ') : text[offset]? = some c := by
  obtain ⟨inMask, rfl⟩ := List.getElem?_eq_some_iff.mp isShown
  have inText : offset < text.length := length_mask text ▸ inMask
  rcases (List.forall₂_iff_get.mp (forall₂_mask text)).2 offset inText inMask with same | ⟨isSpace, _⟩
  · exact List.getElem?_eq_some_iff.mpr ⟨inText, same.symm⟩
  · exact absurd isSpace notSpace

theorem mem_of_mem_mask {text : Text} {c : Char} (member : c ∈ mask text) (notSpace : c ≠ ' ') : c ∈ text := by
  obtain ⟨offset, isShown⟩ := List.mem_iff_getElem?.mp member
  exact List.mem_of_getElem? (getElem?_of_mask isShown notSpace)

/-- The masked view of a text has its length; at every offset it holds the source's own character, or
a space where the source holds no line break.  So line breaks stand at the same offsets, and every
offset lies on the same line of both. -/
theorem mask_faithful (text : Text) :
    (mask text).length = text.length ∧
      (∀ (offset : Nat) (inMask : offset < (mask text).length) (inText : offset < text.length),
        (mask text)[offset] = text[offset] ∨
          ((mask text)[offset] = ' ' ∧ text[offset] ≠ '\n')) ∧
      (∀ offset : Nat, (mask text)[offset]? = some '\n' ↔ text[offset]? = some '\n') ∧
      ∀ offset, lineNumberAt (mask text) offset = lineNumberAt text offset := by
  refine ⟨length_mask text, ?_, ?_, ?_⟩
  · intro offset inMask inText
    exact (List.forall₂_iff_get.mp (forall₂_mask text)).2 offset inText inMask
  · exact getElem?_break_iff (forall₂_mask text)
  · intro offset
    unfold lineNumberAt
    rw [count_break_take (forall₂_mask text)]

end SceneBundler.Source
