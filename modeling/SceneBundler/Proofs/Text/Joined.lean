import Mathlib.Data.List.Forall2
import SceneBundler.Text.Basic

/-!
Contract: texts put together with a separator in between, and texts taken apart at one.

Owns:
- when nothing comes of putting pieces together;
- what holds of every piece and of two pieces put together, and so of the whole;
- the pieces of a text from those of its rest, and that put together with the separator they are the text;
- the pieces of a text with others put behind it;
- that texts which agree on the separator come apart at the same places.

Does not own: what the pieces hold.
-/

namespace SceneBundler.Text

/-! ## Putting together -/

theorem join_cons_cons (separator first second : Text) (rest : List Text) :
    join separator (first :: second :: rest) =
      first ++ (separator ++ join separator (second :: rest)) := by
  simp [join, List.intersperse]

theorem join_cons_of_ne_nil {separator first : Text} {rest : List Text} (some : rest ≠ []) :
    join separator (first :: rest) = first ++ (separator ++ join separator rest) := by
  cases rest with
  | nil => exact absurd rfl some
  | cons second others => exact join_cons_cons separator first second others

theorem join_eq_nil_iff {separator : Text} {pieces : List Text}
    (visible : ∀ piece ∈ pieces, piece ≠ []) : join separator pieces = [] ↔ pieces = [] := by
  cases pieces with
  | nil => simp [join]
  | cons first rest =>
      have someFirst := visible first List.mem_cons_self
      cases rest <;> simp [join, List.intersperse, someFirst]

/-- What holds of every piece, and of two texts with the separator between them where it holds of both,
holds of the whole. -/
theorem join_of_glue {holds : Text -> Prop} {separator : Text} {pieces : List Text}
    (glue : ∀ first second, holds first → holds second → holds (first ++ (separator ++ second)))
    (some : pieces ≠ []) (every : ∀ piece ∈ pieces, holds piece) : holds (join separator pieces) := by
  induction pieces with
  | nil => contradiction
  | cons first rest inductionHypothesis =>
      have here := every first List.mem_cons_self
      cases rest with
      | nil => simpa [join] using here
      | cons second others =>
          rw [join_cons_cons]
          exact glue first _ here
            (inductionHypothesis (by simp) fun piece member =>
              every piece (List.mem_cons_of_mem first member))

/-! ## Taking apart -/

theorem split_cons_self (separator : Char) (rest : Text) :
    split separator (separator :: rest) = [] :: split separator rest := by
  rw [split, List.foldr_cons, beq_self_eq_true, if_pos rfl]
  rfl

theorem split_cons_of_ne {separator c : Char} (different : c ≠ separator) {rest piece : Text}
    {others : List Text} (same : split separator rest = piece :: others) :
    split separator (c :: rest) = (c :: piece) :: others := by
  rw [split, List.foldr_cons, ← split, same, beq_false_of_ne different]
  rfl

theorem exists_split_eq (separator : Char) (text : Text) :
    ∃ piece others, split separator text = piece :: others := by
  induction text with
  | nil => exact ⟨[], [], rfl⟩
  | cons c rest inductionHypothesis =>
      obtain ⟨piece, others, same⟩ := inductionHypothesis
      by_cases isSeparator : c = separator
      · subst isSeparator
        exact ⟨_, _, split_cons_self c rest⟩
      · exact ⟨_, _, split_cons_of_ne isSeparator same⟩

/-- What stands before the first separator is the first piece. -/
theorem split_append_cons {separator : Char} {first : Text} (absent : separator ∉ first) (rest : Text) :
    split separator (first ++ separator :: rest) = first :: split separator rest := by
  induction first with
  | nil => exact split_cons_self separator rest
  | cons c first inductionHypothesis =>
      rw [List.mem_cons, not_or] at absent
      exact split_cons_of_ne (Ne.symm absent.1) (inductionHypothesis absent.2)

theorem split_of_not_mem {separator : Char} {text : Text} (absent : separator ∉ text) :
    split separator text = [text] := by
  induction text with
  | nil => rfl
  | cons c rest inductionHypothesis =>
      rw [List.mem_cons, not_or] at absent
      exact split_cons_of_ne (Ne.symm absent.1) (inductionHypothesis absent.2)

/-- At a separator between two texts the pieces of the one end and those of the other begin. -/
theorem split_append (separator : Char) (first rest : Text) :
    split separator (first ++ separator :: rest) = split separator first ++ split separator rest := by
  induction first with
  | nil => exact split_cons_self separator rest
  | cons c first inductionHypothesis =>
      obtain ⟨piece, others, same⟩ := exists_split_eq separator first
      rw [same, List.cons_append] at inductionHypothesis
      by_cases isSeparator : c = separator
      · subst isSeparator
        rw [List.cons_append, split_cons_self, inductionHypothesis, split_cons_self, same]
        rfl
      · rw [List.cons_append, split_cons_of_ne isSeparator inductionHypothesis,
          split_cons_of_ne isSeparator same]
        rfl

/-- Pieces without a separator come apart behind a text as they were put together. -/
theorem split_join_cons {separator : Char} {first : Text} {pieces : List Text}
    (absent : ∀ piece ∈ pieces, separator ∉ piece) :
    split separator (join [separator] (first :: pieces)) = split separator first ++ pieces := by
  induction pieces generalizing first with
  | nil => simp [join]
  | cons second others inductionHypothesis =>
      obtain ⟨absentHere, absentLater⟩ := List.forall_mem_cons.mp absent
      rw [join_cons_cons, List.singleton_append, split_append, inductionHypothesis absentLater,
        split_of_not_mem absentHere, List.singleton_append]

theorem not_mem_of_mem_split {separator : Char} {text piece : Text} (member : piece ∈ split separator text) :
    separator ∉ piece := by
  induction text generalizing piece with
  | nil =>
      rw [List.mem_singleton.mp member]
      exact List.not_mem_nil
  | cons c rest inductionHypothesis =>
      obtain ⟨first, others, same⟩ := exists_split_eq separator rest
      by_cases isSeparator : c = separator
      · subst isSeparator
        rw [split_cons_self] at member
        rcases List.mem_cons.mp member with rfl | isLater
        · exact List.not_mem_nil
        · exact inductionHypothesis isLater
      · rw [split_cons_of_ne isSeparator same] at member
        rcases List.mem_cons.mp member with rfl | isLater
        · rw [List.mem_cons, not_or]
          exact ⟨Ne.symm isSeparator, inductionHypothesis (same ▸ List.mem_cons_self)⟩
        · exact inductionHypothesis (same ▸ List.mem_cons_of_mem first isLater)

theorem join_split (separator : Char) (text : Text) :
    join [separator] (split separator text) = text := by
  induction text with
  | nil => rfl
  | cons c rest inductionHypothesis =>
      obtain ⟨piece, others, same⟩ := exists_split_eq separator rest
      rw [same] at inductionHypothesis
      by_cases isSeparator : c = separator
      · subst isSeparator
        rw [split_cons_self, same, join_cons_cons, inductionHypothesis]
        rfl
      · rw [split_cons_of_ne isSeparator same]
        cases others with
        | nil =>
            rw [← inductionHypothesis]
            simp [join]
        | cons second others =>
            rw [join_cons_cons] at inductionHypothesis ⊢
            rw [List.cons_append, inductionHypothesis]

theorem length_split_of_forall₂ {separator : Char} {first second : Text}
    (agree : List.Forall₂ (fun c d => c = separator ↔ d = separator) first second) :
    (split separator first).length = (split separator second).length := by
  induction agree with
  | nil => rfl
  | @cons c d first second here _ inductionHypothesis =>
      obtain ⟨piece, others, same⟩ := exists_split_eq separator first
      obtain ⟨piece', others', same'⟩ := exists_split_eq separator second
      by_cases isSeparator : c = separator
      · have alsoSeparator := here.mp isSeparator
        subst isSeparator alsoSeparator
        rw [split_cons_self, split_cons_self, List.length_cons, List.length_cons,
          inductionHypothesis]
      · rw [split_cons_of_ne isSeparator same,
          split_cons_of_ne (fun also => isSeparator (here.mpr also)) same']
        rw [same, same'] at inductionHypothesis
        exact inductionHypothesis

end SceneBundler.Text
