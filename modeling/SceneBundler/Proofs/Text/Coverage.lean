import SceneBundler.Proofs.Text.Preferred

/-!
Contract: where a pattern is sure to be read, and the places that the matches of a search cover.

Owns:
- the words that a pattern can be read over wherever they stand;
- the matches of a search that begins behind some part of a text;
- that every place from which a pattern can be read begins a match or lies within one;
- that successive matches lie behind one another.

Does not own: what a match captures.
-/

namespace SceneBundler

/-- Whether a match begins at an offset or goes over the character there. -/
def Match.Covers (found : Match) (offset : Nat) : Prop :=
  found.start = offset ∨ found.start ≤ offset ∧ offset < found.stop

namespace Pattern

open Cursor (noting passes_noting)

/-! ## Words that can be read anywhere -/

theorem reads_append_assoc {first second third : Pattern} {cursor next : Cursor} :
    (first ++ second ++ third).Reads cursor next ↔ (first ++ (second ++ third)).Reads cursor next := by
  constructor
  · rintro ⟨last, ⟨middle, readsFirst, readsSecond⟩, readsThird⟩
    exact ⟨middle, readsFirst, last, readsSecond, readsThird⟩
  · rintro ⟨middle, readsFirst, last, readsSecond, readsThird⟩
    exact ⟨last, ⟨middle, readsFirst, readsSecond⟩, readsThird⟩

/-- Whether a pattern can be read over a word, whatever stands around it. -/
def Spans (pattern : Pattern) (word : Text) : Prop :=
  ∀ captures passed ahead, ∃ more,
    pattern.Reads (noting captures passed (word ++ ahead)) (noting more (passed ++ word) ahead)

namespace Spans

theorem append {first second : Pattern} {word other : Text} (spansFirst : first.Spans word)
    (spansSecond : second.Spans other) : (first ++ second).Spans (word ++ other) := by
  intro captures passed ahead
  obtain ⟨between, readsFirst⟩ := spansFirst captures passed (other ++ ahead)
  obtain ⟨more, readsSecond⟩ := spansSecond between (passed ++ word) ahead
  rw [List.append_assoc] at readsSecond
  rw [List.append_assoc]
  exact ⟨more, _, readsFirst, readsSecond⟩

theorem capture {body : Pattern} {word : Text} (spans : body.Spans word) (slot : Nat) :
    (Pattern.capture slot body).Spans word := by
  intro captures passed ahead
  obtain ⟨more, reads⟩ := spans captures passed ahead
  exact ⟨_, _, reads, rfl⟩

theorem maybe {body : Pattern} {word : Text} (spans : body.Spans word) :
    (Pattern.maybe body).Spans word := by
  intro captures passed ahead
  obtain ⟨more, reads⟩ := spans captures passed ahead
  exact ⟨more, Or.inl reads⟩

end Spans

theorem spans_maybe_nil (body : Pattern) : (maybe body).Spans [] := by
  intro captures passed ahead
  rw [List.append_nil]
  exact ⟨captures, Or.inr rfl⟩

theorem spans_run {accepts : Char -> Bool} {least : Nat} {word : Text} (fewest : Bool)
    (accepted : ∀ c ∈ word, accepts c = true) (enough : least ≤ word.length) :
    (run accepts least none fewest).Spans word := by
  intro captures passed ahead
  exact ⟨captures, reads_run accepted enough (passes_noting captures passed word ahead) rfl⟩

theorem spans_word (word : Text) : (Pattern.word word).Spans word := by
  intro captures passed ahead
  exact ⟨captures, reads_word_iff.mpr ⟨passes_noting captures passed word ahead, rfl⟩⟩

theorem spans_one {accepts : Char -> Bool} {c : Char} (accepted : accepts c = true) :
    (one accepts).Spans [c] := by
  intro captures passed ahead
  exact ⟨captures, by simp [Reads, Cursor.step?, noting, accepted]⟩

/-! ## Covered places -/

/-- The successive matches of a pattern behind a part of a text. -/
def searchBehind (pattern : Pattern) (passed ahead : Text) : List Match :=
  (pattern.collect 0 passed.getLast? passed.length ahead []).reverse

theorem all_eq_searchBehind (pattern : Pattern) (text : Text) :
    pattern.all text = pattern.searchBehind [] text :=
  rfl

/-- What was found before stays, behind what is found later. -/
theorem collect_eq_append (pattern : Pattern) (busy : Nat) (previous : Option Char) (offset : Nat)
    (ahead : Text) (found : List Match) :
    pattern.collect busy previous offset ahead found =
      pattern.collect busy previous offset ahead [] ++ found := by
  induction ahead generalizing busy previous offset found with
  | nil =>
      cases busy with
      | zero =>
          rw [collect, collect]
          split <;> rfl
      | succ busy => rfl
  | cons c rest inductionHypothesis =>
      cases busy with
      | zero =>
          rw [collect, collect]
          split
          next match_ _ =>
            rw [inductionHypothesis, inductionHypothesis _ _ _ [match_], List.append_assoc]
            rfl
          next => exact inductionHypothesis 0 (some c) (offset + 1) found
      | succ busy => exact inductionHypothesis busy (some c) (offset + 1) found

theorem mem_collect_of_mem {pattern : Pattern} {busy : Nat} {previous : Option Char} {offset : Nat}
    {ahead : Text} {earlier : List Match} {found : Match} (member : found ∈ earlier) :
    found ∈ pattern.collect busy previous offset ahead earlier := by
  rw [collect_eq_append]
  exact List.mem_append_right _ member

/-- A place from which a pattern can be read is covered by a match that is still to come, or belongs to
the last match. -/
theorem exists_covers_or_lt {pattern : Pattern} {rest : Text} (more : Text) {busy : Nat} {passed : Text}
    {earlier : List Match} {next : Cursor}
    (reads : pattern.Reads (Cursor.between (passed ++ more) rest) next) :
    (∃ found ∈ pattern.collect busy passed.getLast? passed.length (more ++ rest) earlier,
        found.Covers (passed ++ more).length) ∨
      (passed ++ more).length < passed.length + busy := by
  induction more generalizing busy passed earlier with
  | nil =>
      cases busy with
      | zero =>
          rw [List.append_nil] at reads ⊢
          obtain ⟨found, foundHere⟩ := Option.isSome_iff_exists.mp (isSome_find_iff.mpr ⟨next, reads⟩)
          have isHere : found.start = passed.length := by
            obtain ⟨_, _, rfl⟩ := reads_of_find foundHere
            rfl
          refine Or.inl ⟨found, ?_, Or.inl isHere⟩
          change pattern.find ⟨_, rest, _, []⟩ = some found at foundHere
          rw [List.nil_append]
          cases rest with
          | nil =>
              rw [collect, foundHere]
              exact List.mem_cons_self
          | cons c rest =>
              rw [collect, foundHere]
              exact mem_collect_of_mem List.mem_cons_self
      | succ busy =>
          refine Or.inr ?_
          rw [List.append_nil]
          omega
  | cons c more inductionHypothesis =>
      rw [List.append_cons] at reads ⊢
      have length : (passed ++ [c]).length = passed.length + 1 := by simp
      have longer : (passed ++ [c]).length ≤ (passed ++ [c] ++ more).length := by simp
      have later (busy : Nat) (earlier : List Match) :
          (∃ found ∈ pattern.collect busy (some c) (passed.length + 1) (more ++ rest) earlier,
            found.Covers (passed ++ [c] ++ more).length) ∨
          (passed ++ [c] ++ more).length < passed.length + 1 + busy := by
        have there := @inductionHypothesis busy (passed ++ [c]) earlier reads
        rwa [List.getLast?_concat, length] at there
      rw [List.cons_append]
      cases busy with
      | zero =>
          rw [collect]
          split
          next found foundHere =>
            have isHere : found.start = passed.length := by
              obtain ⟨_, _, rfl⟩ := reads_of_find foundHere
              rfl
            rcases later (found.stop - passed.length - 1) (found :: earlier) with covered | within
            · exact Or.inl covered
            · exact Or.inl ⟨found, mem_collect_of_mem List.mem_cons_self, Or.inr (by omega)⟩
          next =>
            rcases later 0 earlier with covered | within
            · exact Or.inl covered
            · omega
      | succ busy =>
          rcases later busy earlier with covered | within
          · exact Or.inl covered
          · exact Or.inr (by omega)

/-- A place from which a pattern can be read begins a match of the search or lies within one. -/
theorem exists_mem_searchBehind {pattern : Pattern} {passed more rest : Text} {next : Cursor}
    (reads : pattern.Reads (Cursor.between (passed ++ more) rest) next) :
    ∃ found ∈ pattern.searchBehind passed (more ++ rest), found.Covers (passed ++ more).length := by
  rcases exists_covers_or_lt more reads with ⟨found, member, covers⟩ | within
  · exact ⟨found, List.mem_reverse.mpr member, covers⟩
  · rw [Nat.add_zero, List.length_append] at within
    omega

/-- Every match of a search is the match at some place behind where it began. -/
theorem find_of_mem_searchBehind {pattern : Pattern} {passed ahead : Text} {found : Match}
    (member : found ∈ pattern.searchBehind passed ahead) :
    ∃ more rest, ahead = more ++ rest ∧
      pattern.find (Cursor.between (passed ++ more) rest) = some found := by
  rcases mem_collect passed (List.mem_reverse.mp member) with isEarlier | later
  · exact absurd isEarlier List.not_mem_nil
  · exact later

/-! ## The order of the matches -/

end Pattern

end SceneBundler
