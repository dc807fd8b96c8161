import SceneBundler.Proofs.Dialect.Settled
import SceneBundler.Proofs.Text.Opening
import SceneBundler.Proofs.Text.Pieces
import SceneBundler.Proofs.Typed.Program

/-!
Contract: passes over sources that are written line by line.

Owns:
- that a search for matches which begin only where a line does finds what is found at the lines;
- that a round of a pass leaves what it leaves of each line, if its edits are those of the lines.

Does not own: what is found and edited at a line.
-/

namespace SceneBundler.Typed

open Dialect (editOnce)

theorem lines_append (first second : List Text) : lines (first ++ second) = lines first ++ lines second :=
  List.flatMap_append

theorem lines_cons (text : Text) (others : List Text) :
    lines (text :: others) = text ++ '\n' :: lines others := by
  simp [lines]

/-- Whether a line begins behind a text. -/
def BeginsLine (passed : Text) : Prop :=
  passed.getLast?.all (· == '\n') = true

theorem beginsLine_lines (texts : List Text) : BeginsLine (lines texts) := by
  rcases List.eq_nil_or_concat texts with rfl | ⟨others, last, rfl⟩
  · rfl
  · have isLast : lines (others.concat last) = lines others ++ last ++ ['\n'] := by simp [lines]
    rw [isLast, BeginsLine, List.getLast?_concat]
    rfl

/-- An item of a list, between those before it and those after it. -/
def Among {Item : Type} (items before : List Item) (item : Item) (after : List Item) : Prop :=
  items = before ++ item :: after

section Lines

variable {Item : Type} {write : Item -> Text} {items : List Item}

theorem exists_among_cons {first : Item} {holds : List Item -> Item -> List Item -> Prop} :
    (∃ before item after, Among (first :: items) before item after ∧ holds before item after) ↔
      holds [] first items ∨
        ∃ before item after, Among items before item after ∧ holds (first :: before) item after := by
  constructor
  · rintro ⟨before, item, after, split, here⟩
    cases before with
    | nil =>
        obtain ⟨rfl, rfl⟩ := List.cons.inj split
        exact Or.inl here
    | cons other before =>
        obtain ⟨rfl, splitRest⟩ := List.cons.inj split
        exact Or.inr ⟨before, item, after, splitRest, here⟩
  · rintro (here | ⟨before, item, after, split, here⟩)
    · exact ⟨[], first, items, rfl, here⟩
    · exact ⟨first :: before, item, after, congrArg (first :: ·) split, here⟩

theorem lines_of_among {before : List Item} {item : Item} {after : List Item}
    (among : Among items before item after) :
    lines (items.map write) =
      lines (before.map write) ++ (write item ++ '\n' :: lines (after.map write)) := by
  rw [show items = before ++ item :: after from among, List.map_append, lines_append, List.map_cons,
    lines_cons]

/-! ## Searches -/

/-- What is found where a line begins. -/
def foundAt (pattern : Pattern) (write : Item -> Text) (passed : Text) (item : Item)
    (following : Text) : Option Match :=
  pattern.find (Cursor.between passed (write item ++ '\n' :: following))

theorem mem_all_lines {pattern : Pattern} (nonempty : pattern.mayBeEmpty = false)
    (each : ∀ item ∈ items, ∀ passed following, BeginsLine passed →
      pattern.Finds passed (write item ++ ['\n']) following
        (foundAt pattern write passed item following).toList) {found : Match} :
    found ∈ pattern.all (lines (items.map write)) ↔
      ∃ before item after, Among items before item after ∧
        foundAt pattern write (lines (before.map write)) item (lines (after.map write)) =
          some found := by
  have findsFrom (passed : Text) (begins : BeginsLine passed) : ∃ matches_,
      pattern.Finds passed (lines (items.map write)) [] matches_ ∧
        ∀ found, found ∈ matches_ ↔ ∃ before item after, Among items before item after ∧
          foundAt pattern write (passed ++ lines (before.map write)) item (lines (after.map write)) =
            some found := by
    induction items generalizing passed with
    | nil => exact ⟨[], fun _ => by simp [lines], fun found => by simp [Among]⟩
    | cons item rest inductionHypothesis =>
        have beginsNext : BeginsLine (passed ++ (write item ++ ['\n'])) := by
          rw [← List.append_assoc, BeginsLine, List.getLast?_concat]
          rfl
        obtain ⟨later, findsLater, membership⟩ := inductionHypothesis
          (fun other member => each other (List.mem_cons_of_mem item member)) _ beginsNext
        have findsHere := each item List.mem_cons_self passed (lines (rest.map write)) begins
        refine ⟨(foundAt pattern write passed item (lines (rest.map write))).toList ++ later, ?_,
          fun found => ?_⟩
        · have split : lines ((item :: rest).map write) =
              (write item ++ ['\n']) ++ lines (rest.map write) := by simp [lines]
          rw [split]
          exact Pattern.Finds.append (by rw [List.append_nil]; exact findsHere) findsLater
        · rw [List.mem_append, membership, exists_among_cons]
          simp [lines]
  obtain ⟨matches_, finds, membership⟩ := findsFrom [] rfl
  rw [finds.all_eq fun next => Pattern.not_reads_at_end nonempty rfl, membership]
  simp

/-! ## Rounds -/

theorem mem_deletions_lines {pieces : Item -> List Piece}
    (sources : ∀ item, Piece.source (pieces item) = write item ++ ['\n']) {offset : Nat}
    {edit : Edit} :
    edit ∈ Piece.deletions offset (items.flatMap pieces) ↔
      ∃ before item after, Among items before item after ∧
        edit ∈ Piece.deletions (offset + (lines (before.map write)).length) (pieces item) := by
  induction items generalizing offset with
  | nil => simp [Piece.deletions, Among]
  | cons item rest inductionHypothesis =>
      have shifted (before : List Item) : offset + (lines ((item :: before).map write)).length =
          offset + (write item ++ ['\n']).length + (lines (before.map write)).length := by
        simp only [List.map_cons, lines_cons, List.length_append, List.length_cons, List.length_nil]
        omega
      rw [List.flatMap_cons, Piece.deletions_append, List.mem_append, inductionHypothesis, sources,
        exists_among_cons]
      simp only [shifted]
      rfl

/-- The edits of a source are those of its lines. -/
def EditsLines (edits : List Edit) (write : Item -> Text) (items : List Item)
    (editsOf : Text -> Item -> Text -> List Edit) : Prop :=
  ∀ edit, edit ∈ edits ↔ ∃ before item after, Among items before item after ∧
    edit ∈ editsOf (lines (before.map write)) item (lines (after.map write))

/-- A round of a pass whose edits are those of the lines leaves what these leave of each line. -/
theorem editOnce_lines {collect : Text -> List Edit} {pieces : Item -> List Piece}
    {editsOf : Text -> Item -> Text -> List Edit}
    (unmasked : Source.mask (lines (items.map write)) = lines (items.map write))
    (sources : ∀ item, Piece.source (pieces item) = write item ++ ['\n'])
    (nonempty : ∀ item, ∀ piece ∈ pieces item, piece.text ≠ [])
    (edits : EditsLines (collect (lines (items.map write))) write items editsOf)
    (covers : ∀ item ∈ items, ∀ passed following, BeginsLine passed →
      Edit.Covers (editsOf passed item following) (Piece.deletions passed.length (pieces item))) :
    editOnce collect (lines (items.map write)) =
      items.flatMap fun item => Piece.remainder (pieces item) := by
  have isSource : lines (items.map write) = Piece.source (items.flatMap pieces) := by
    clear unmasked edits covers
    induction items with
    | nil => rfl
    | cons item rest inductionHypothesis =>
        rw [List.flatMap_cons, Piece.source_append, sources, ← inductionHypothesis]
        simp [lines]
  have isRemainder : (items.flatMap fun item => Piece.remainder (pieces item)) =
      Piece.remainder (items.flatMap pieces) := by
    clear unmasked edits covers isSource
    induction items with
    | nil => rfl
    | cons item rest inductionHypothesis =>
        rw [List.flatMap_cons, List.flatMap_cons, Piece.remainder_append, ← inductionHypothesis]
  have coversAll : Edit.Covers (collect (lines (items.map write)))
      (Piece.deletions 0 (items.flatMap pieces)) := by
    have coversAt {before : List Item} {item : Item} {after : List Item}
        (among : Among items before item after) :=
      covers item (among ▸ List.mem_append_right _ List.mem_cons_self) (lines (before.map write))
        (lines (after.map write)) (beginsLine_lines _)
    constructor
    · intro deletion member
      obtain ⟨before, item, after, among, isLocal⟩ := (mem_deletions_lines sources).mp member
      rw [Nat.zero_add] at isLocal
      exact (edits deletion).mpr ⟨before, item, after, among, (coversAt among).makes deletion isLocal⟩
    · intro edit member
      obtain ⟨before, item, after, among, isLocal⟩ := (edits edit).mp member
      have globally {deletion : Edit}
          (isDeletion : deletion ∈ Piece.deletions (lines (before.map write)).length (pieces item)) :
          deletion ∈ Piece.deletions 0 (items.flatMap pieces) :=
        (mem_deletions_lines sources).mpr
          ⟨before, item, after, among, by rwa [Nat.zero_add]⟩
      rcases (coversAt among).inside edit isLocal with isDeletion | ⟨deletion, isDeletion, begins⟩
      · exact Or.inl (globally isDeletion)
      · exact Or.inr ⟨deletion, globally isDeletion, begins⟩
  have nonemptyAll : ∀ piece ∈ items.flatMap pieces, piece.text ≠ [] := by
    intro piece member
    obtain ⟨item, _, isPiece⟩ := List.mem_flatMap.mp member
    exact nonempty item piece isPiece
  rw [editOnce, unmasked, isRemainder, ← Edit.applyAll_pieces nonemptyAll coversAll, ← isSource]

end Lines

end SceneBundler.Typed
