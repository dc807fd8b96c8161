import SceneBundler.Proofs.Text.Blank
import SceneBundler.Proofs.Text.Search

/-!
Contract: searches for patterns in texts with blanks at their end.

Owns:
- the cursors of a text with more text at its end;
- the patterns that end in a visible word and test no blank apart from the end of the text;
- that such patterns find in a text with blanks at its end what they find in it without them.

Does not own: which patterns are searched for.
-/

namespace SceneBundler

namespace Cursor

/-- A cursor of a text, in the text with more text at its end. -/
def extend (tail : Text) (cursor : Cursor) : Cursor :=
  { cursor with ahead := cursor.ahead ++ tail }

/-- The length of the text that a cursor belongs to. -/
def total (cursor : Cursor) : Nat :=
  cursor.offset + cursor.ahead.length

/-- Whether only blanks are ahead. -/
def BlankAhead (cursor : Cursor) : Prop :=
  Text.isBlank cursor.ahead = true

theorem BlankAhead.of_passes {word : Text} {cursor next : Cursor} (blank : cursor.BlankAhead)
    (passes : Passes word cursor next) : next.BlankAhead := by
  rw [BlankAhead, Text.isBlank_iff] at blank ⊢
  intro c member
  exact blank c (passes.ahead_eq ▸ List.mem_append_right word member)

theorem total_of_passes {word : Text} {cursor next : Cursor} (passes : Passes word cursor next) :
    next.total = cursor.total :=
  passes.conserves

end Cursor

namespace Pattern

open Cursor (Passes BlankAhead)

variable {tail : Text}

/-- Whether two ways of going on agree on a text of some length with and without blanks at its end, and
the one with the blanks accepts no place before blanks only. -/
structure Agree (tail : Text) (total : Nat) (finish extended : Cursor -> Option Cursor) : Prop where
  extends_eq : ∀ cursor, cursor.total = total →
    extended (cursor.extend tail) = (finish cursor).map (Cursor.extend tail)
  blank_eq : ∀ cursor, BlankAhead cursor → extended cursor = none

/-- Whether a pattern tests no blank apart from the end of the text, and does not look ahead. -/
def IgnoresTrailing : Pattern -> Prop
  | sequence first second => first.IgnoresTrailing ∧ second.IgnoresTrailing
  | either first second => first.IgnoresTrailing ∧ second.IgnoresTrailing
  | many body => body.IgnoresTrailing
  | capture _ body => body.IgnoresTrailing
  | between test =>
      ∀ previous c, Character.isBlank c = true → test previous (some c) = test previous none
  | ahead _ _ => False
  | _ => True

/-- Before blanks only, no way through a pattern is accepted if no place before blanks only is. -/
theorem matchThen_of_blankAhead (pattern : Pattern) {cursor : Cursor}
    {finish : Cursor -> Option Cursor} (blank : BlankAhead cursor)
    (rejects : ∀ next, BlankAhead next → finish next = none) :
    pattern.matchThen cursor finish = none := by
  rw [Option.eq_none_iff_forall_ne_some]
  intro final found
  obtain ⟨next, reads, finished⟩ := reads_of_matchThen found
  obtain ⟨word, passes⟩ := passes_of_reads reads
  rw [rejects next (blank.of_passes passes)] at finished
  exact nomatch finished

theorem blankAhead_extend {cursor : Cursor} (blankTail : Text.isBlank tail = true)
    (atEnd : cursor.ahead = []) : BlankAhead (cursor.extend tail) := by
  rw [BlankAhead, Cursor.extend, atEnd]
  exact blankTail

theorem Agree.none_of_atEnd {total : Nat} {finish extended : Cursor -> Option Cursor}
    {cursor : Cursor} (agree : Agree tail total finish extended) (here : cursor.total = total)
    (blankTail : Text.isBlank tail = true) (atEnd : cursor.ahead = []) : finish cursor = none := by
  have same := agree.extends_eq cursor here
  rw [agree.blank_eq _ (blankAhead_extend blankTail atEnd)] at same
  exact Option.map_eq_none_iff.mp same.symm

/-! ## Runs -/

/-- The stops of a run in a text with blanks at its end are those before blanks only, and those of the
text. -/
theorem trail_extend (blankTail : Text.isBlank tail = true) (accepts : Char -> Bool)
    (captures : List (Nat × Span)) (room : Option Nat) (previous : Option Char) (text : Text)
    (offset : Nat) :
    ∃ beyond, (∀ stop ∈ beyond, BlankAhead stop) ∧
      Cursor.trail accepts captures room previous (text ++ tail) offset [] =
        beyond ++
          (Cursor.trail accepts captures room previous text offset []).map (Cursor.extend tail) := by
  induction text generalizing room previous offset with
  | nil =>
      cases tail with
      | nil => exact ⟨[], by simp, rfl⟩
      | cons c rest =>
          have restBlank : Text.isBlank rest = true := by
            simp only [Text.isBlank, List.all_cons, Bool.and_eq_true] at blankTail
            exact blankTail.2
          rw [List.nil_append, Cursor.trail_cons]
          refine ⟨_, ?_, rfl⟩
          intro stop member
          split at member
          next =>
            obtain ⟨word, _, passes, _⟩ := Cursor.passes_of_mem_trail member
            exact @BlankAhead.of_passes _ ⟨some c, rest, offset + 1, captures⟩ _ restBlank
              passes
          next => simp at member
  | cons c rest inductionHypothesis =>
      rw [List.cons_append, Cursor.trail_cons, Cursor.trail_cons]
      split
      next =>
        obtain ⟨beyond, blank, same⟩ :=
          inductionHypothesis (room.map (· - 1)) (some c) (offset + 1)
        refine ⟨beyond, blank, ?_⟩
        rw [same, List.map_append, List.append_assoc]
        rfl
      next => exact ⟨[], by simp, rfl⟩

theorem runStops_extend (blankTail : Text.isBlank tail = true) (accepts : Char -> Bool)
    (least : Nat) (most : Option Nat) (cursor : Cursor) :
    ∃ beyond, (∀ stop ∈ beyond, BlankAhead stop) ∧
      runStops accepts least most (cursor.extend tail) =
        beyond ++ (runStops accepts least most cursor).map (Cursor.extend tail) := by
  obtain ⟨beyond, blank, same⟩ := trail_extend blankTail accepts cursor.captures most
    cursor.previous cursor.ahead cursor.offset
  refine ⟨beyond.filter fun stop => cursor.offset + least ≤ stop.offset, ?_, ?_⟩
  · exact fun stop member => blank stop (List.mem_filter.mp member).1
  · unfold runStops
    simp only [Cursor.extend] at same ⊢
    rw [same, List.filter_append, List.filter_map]
    rfl

theorem findSome?_extend {total : Nat} {finish extended : Cursor -> Option Cursor}
    (agree : Agree tail total finish extended) {stops : List Cursor}
    (totals : ∀ stop ∈ stops, stop.total = total) :
    (stops.map (Cursor.extend tail)).findSome? extended =
      (stops.findSome? finish).map (Cursor.extend tail) := by
  induction stops with
  | nil => rfl
  | cons stop rest inductionHypothesis =>
      have restSame := inductionHypothesis fun other member =>
        totals other (List.mem_cons_of_mem stop member)
      rw [List.map_cons, List.findSome?_cons, List.findSome?_cons,
        agree.extends_eq stop (totals stop List.mem_cons_self), restSame]
      cases finish stop <;> rfl

theorem findSome?_blank {total : Nat} {finish extended : Cursor -> Option Cursor}
    (agree : Agree tail total finish extended) {stops : List Cursor}
    (blank : ∀ stop ∈ stops, BlankAhead stop) : stops.findSome? extended = none := by
  rw [List.findSome?_eq_none_iff]
  exact fun stop member => agree.blank_eq stop (blank stop member)

/-! ## Rounds -/

theorem rounds_of_blankAhead {body : Pattern} {room : Text} {cursor : Cursor}
    {finish : Cursor -> Option Cursor} (blank : BlankAhead cursor)
    (rejects : ∀ next, BlankAhead next → finish next = none) :
    rounds body.matchThen finish room cursor = none := by
  rw [Option.eq_none_iff_forall_ne_some]
  intro final found
  obtain ⟨next, reads, finished⟩ := body.isExact.rounds_sound found
  obtain ⟨word, passes⟩ := passes_of_reads reads
  rw [rejects next (blank.of_passes passes)] at finished
  exact nomatch finished

/-- What the matcher of a body does with and without blanks at the end. -/
def Extends (tail : Text) (pattern : Pattern) : Prop :=
  ∀ {cursor : Cursor} {finish extended : Cursor -> Option Cursor},
    Agree tail cursor.total finish extended →
      pattern.matchThen (cursor.extend tail) extended =
        (pattern.matchThen cursor finish).map (Cursor.extend tail)

theorem rounds_extend {body : Pattern} (bodyExtends : Extends tail body)
    (blankTail : Text.isBlank tail = true) {room : Text} {cursor : Cursor}
    {finish extended : Cursor -> Option Cursor} (agree : Agree tail cursor.total finish extended)
    (enough : cursor.ahead.length ≤ room.length) :
    rounds body.matchThen extended (room ++ tail) (cursor.extend tail) =
      (rounds body.matchThen finish room cursor).map (Cursor.extend tail) := by
  induction room generalizing cursor with
  | nil =>
      have atEnd : cursor.ahead = [] := List.length_eq_zero_iff.mp (Nat.le_zero.mp enough)
      rw [rounds_of_blankAhead (blankAhead_extend blankTail atEnd) agree.blank_eq, rounds,
        agree.none_of_atEnd rfl blankTail atEnd]
      rfl
  | cons c room inductionHypothesis =>
      have again : Agree tail cursor.total
          (fun next =>
            if cursor.offset < next.offset then rounds body.matchThen finish room next else none)
          (fun next =>
            if (cursor.extend tail).offset < next.offset then
              rounds body.matchThen extended (room ++ tail) next
            else none) := by
        refine ⟨?_, ?_⟩
        · intro next here
          by_cases moved : cursor.offset < next.offset
          · have shorter : next.ahead.length ≤ room.length := by
              simp only [Cursor.total, List.length_cons] at here enough
              omega
            simp only [Cursor.extend, moved, if_true]
            exact inductionHypothesis (here ▸ agree) shorter
          · simp [Cursor.extend, moved]
        · intro next blank
          simp only [rounds_of_blankAhead blank agree.blank_eq, ite_self]
      rw [List.cons_append, rounds, rounds, bodyExtends again]
      cases body.matchThen cursor _ with
      | none => exact agree.extends_eq cursor rfl
      | some final => rfl

/-! ## Patterns -/

namespace Extends

variable {first second body : Pattern}

/-- At the end of the text no character is there to be accepted, and with blanks there what follows
rejects each of them. -/
protected theorem one (blankTail : Text.isBlank tail = true) (accepts : Char -> Bool) :
    Extends tail (one accepts) := by
  intro cursor finish extended agree
  rw [matchThen, matchThen]
  cases ahead : cursor.ahead with
  | cons c rest =>
      simp only [Cursor.step?, Cursor.extend, ahead, List.cons_append]
      split
      next =>
        refine agree.extends_eq ⟨some c, rest, cursor.offset + 1, cursor.captures⟩ ?_
        simp only [Cursor.total, ahead, List.length_cons]
        omega
      next => rfl
  | nil =>
      have atEnd : (cursor.step? accepts).bind finish = none := by
        simp [Cursor.step?, ahead]
      rw [atEnd]
      exact matchThen_of_blankAhead (one accepts) (blankAhead_extend blankTail ahead) agree.blank_eq

protected theorem sequence (firstExtends : Extends tail first) (secondExtends : Extends tail second) :
    Extends tail (sequence first second) := by
  intro cursor finish extended agree
  refine firstExtends ⟨?_, ?_⟩
  · intro next here
    exact secondExtends (here ▸ agree)
  · intro next blank
    exact matchThen_of_blankAhead second blank agree.blank_eq

protected theorem either (firstExtends : Extends tail first) (secondExtends : Extends tail second) :
    Extends tail (either first second) := by
  intro cursor finish extended agree
  rw [matchThen, matchThen, firstExtends agree, secondExtends agree]
  cases first.matchThen cursor finish <;> rfl

protected theorem run (blankTail : Text.isBlank tail = true) (accepts : Char -> Bool) (least : Nat)
    (most : Option Nat) (fewest : Bool) : Extends tail (run accepts least most fewest) := by
  intro cursor finish extended agree
  obtain ⟨beyond, blank, same⟩ := runStops_extend blankTail accepts least most cursor
  have totals : ∀ stop ∈ runStops accepts least most cursor, stop.total = cursor.total := by
    intro stop member
    obtain ⟨word, _, passes, _⟩ :=
      Cursor.passes_of_mem_trail (List.mem_filter.mp member).1
    exact @Cursor.total_of_passes _ cursor _ passes
  rw [matchThen_run, matchThen_run, same]
  cases fewest with
  | true =>
      simp only [if_true, List.reverse_append, List.findSome?_append, ← List.map_reverse]
      rw [findSome?_extend agree (fun stop member => totals stop (List.mem_reverse.mp member)),
        findSome?_blank agree (fun stop member => blank stop (List.mem_reverse.mp member)),
        Option.or_none]
  | false =>
      simp only [Bool.false_eq_true, if_false, List.findSome?_append]
      rw [findSome?_extend agree totals, findSome?_blank agree blank, Option.none_or]

protected theorem capture (bodyExtends : Extends tail body) (slot : Nat) :
    Extends tail (capture slot body) := by
  intro cursor finish extended agree
  refine bodyExtends ⟨?_, ?_⟩
  · intro next here
    exact agree.extends_eq
      { next with captures := (slot, ⟨cursor.offset, next.offset⟩) :: next.captures } here
  · intro next blank
    exact agree.blank_eq
      { next with captures := (slot, ⟨cursor.offset, next.offset⟩) :: next.captures } blank

protected theorem between (blankTail : Text.isBlank tail = true)
    {test : Option Char -> Option Char -> Bool} (ignores : (between test).IgnoresTrailing) :
    Extends tail (between test) := by
  intro cursor finish extended agree
  have sameTest : test cursor.previous (cursor.ahead ++ tail).head? =
      test cursor.previous cursor.ahead.head? := by
    cases ahead : cursor.ahead with
    | cons c rest => rfl
    | nil =>
        cases tail with
        | nil => rfl
        | cons c rest =>
            simp only [Text.isBlank, List.all_cons, Bool.and_eq_true] at blankTail
            exact ignores cursor.previous c blankTail.1
  rw [matchThen, matchThen]
  simp only [Cursor.extend, sameTest]
  split
  · exact agree.extends_eq cursor rfl
  · rfl

end Extends

/-- The matcher takes the same way through a text with and without blanks at its end. -/
theorem extends_of_ignoresTrailing (blankTail : Text.isBlank tail = true) {pattern : Pattern}
    (ignores : pattern.IgnoresTrailing) : Extends tail pattern := by
  induction pattern with
  | empty => exact fun agree => agree.extends_eq _ rfl
  | one accepts => exact Extends.one blankTail accepts
  | sequence first second firstHypothesis secondHypothesis =>
      exact Extends.sequence (firstHypothesis ignores.1) (secondHypothesis ignores.2)
  | either first second firstHypothesis secondHypothesis =>
      exact Extends.either (firstHypothesis ignores.1) (secondHypothesis ignores.2)
  | many body bodyHypothesis =>
      intro cursor finish extended agree
      exact rounds_extend (bodyHypothesis ignores) blankTail agree (Nat.le_refl _)
  | run accepts least most fewest => exact Extends.run blankTail accepts least most fewest
  | capture slot body bodyHypothesis => exact Extends.capture (bodyHypothesis ignores) slot
  | between test => exact Extends.between blankTail ignores
  | ahead expected body _ => exact absurd ignores id

/-! ## Searches -/

/-- Whether a pattern matches no differently with blanks at the end of the text, and never before
blanks only. -/
structure EndsVisibly (pattern : Pattern) (tail : Text) : Prop where
  extends_eq : ∀ cursor, pattern.matchThen (cursor.extend tail) some =
    (pattern.matchThen cursor some).map (Cursor.extend tail)
  blank_eq : ∀ cursor, BlankAhead cursor → pattern.matchThen cursor some = none

theorem endsVisibly_char (blankTail : Text.isBlank tail = true) {mark : Char}
    (visible : Character.isBlank mark = false) : EndsVisibly (char mark) tail := by
  have blank_eq : ∀ cursor, BlankAhead cursor → (char mark).matchThen cursor some = none := by
    intro cursor blank
    rw [char, matchThen, Cursor.step?]
    cases ahead : cursor.ahead with
    | nil => rfl
    | cons c rest =>
        rw [BlankAhead, ahead, Text.isBlank_iff] at blank
        have different := Character.ne_of_isBlank (blank c List.mem_cons_self) visible
        simp [different]
  refine ⟨?_, blank_eq⟩
  intro cursor
  cases ahead : cursor.ahead with
  | nil =>
      rw [blank_eq _ (blankAhead_extend blankTail ahead),
        blank_eq cursor (by rw [BlankAhead, ahead]; rfl)]
      rfl
  | cons c rest =>
      rw [char, matchThen, matchThen, Cursor.step?, Cursor.step?, Cursor.extend, ahead]
      simp only [List.cons_append]
      split <;> rfl

theorem endsVisibly_sequence (blankTail : Text.isBlank tail = true) {first second : Pattern}
    (ignores : first.IgnoresTrailing) (ends : EndsVisibly second tail) :
    EndsVisibly (first ++ second) tail := by
  refine ⟨?_, ?_⟩
  · intro cursor
    exact extends_of_ignoresTrailing blankTail ignores
      ⟨fun next _ => ends.extends_eq next, ends.blank_eq⟩
  · intro cursor blank
    exact matchThen_of_blankAhead first blank ends.blank_eq

/-- A word ends visibly if its last character is visible. -/
theorem endsVisibly_word (blankTail : Text.isBlank tail = true) {lead : Text} {mark : Char}
    (visible : Character.isBlank mark = false) : EndsVisibly (word (lead ++ [mark])) tail := by
  induction lead with
  | nil =>
      have ends := endsVisibly_char blankTail visible
      exact ⟨ends.extends_eq, ends.blank_eq⟩
  | cons c rest inductionHypothesis => exact endsVisibly_sequence blankTail trivial inductionHypothesis

section Building

variable {first second : Pattern}

@[simp] theorem ignoresTrailing_append :
    (first ++ second).IgnoresTrailing ↔ first.IgnoresTrailing ∧ second.IgnoresTrailing :=
  Iff.rfl

@[simp] theorem ignoresTrailing_orElse :
    (first <|> second).IgnoresTrailing ↔ first.IgnoresTrailing ∧ second.IgnoresTrailing :=
  Iff.rfl

@[simp] theorem ignoresTrailing_maybe : (maybe first).IgnoresTrailing ↔ first.IgnoresTrailing :=
  ⟨fun both => both.1, fun only => ⟨only, trivial⟩⟩

@[simp] theorem ignoresTrailing_literal (letters : String) : (literal letters).IgnoresTrailing := by
  unfold literal
  generalize letters.toList = letters
  induction letters with
  | nil => trivial
  | cons c rest inductionHypothesis => exact ⟨trivial, inductionHypothesis⟩

@[simp] theorem ignoresTrailing_one (accepts : Char -> Bool) : (one accepts).IgnoresTrailing :=
  trivial

@[simp] theorem ignoresTrailing_run (accepts : Char -> Bool) (least : Nat) (most : Option Nat)
    (fewest : Bool) : (run accepts least most fewest).IgnoresTrailing :=
  trivial

@[simp] theorem ignoresTrailing_capture (slot : Nat) :
    (capture slot first).IgnoresTrailing ↔ first.IgnoresTrailing :=
  Iff.rfl

@[simp] theorem ignoresTrailing_lineStart : lineStart.IgnoresTrailing :=
  fun _ _ _ => rfl

@[simp] theorem ignoresTrailing_wordBoundary : wordBoundary.IgnoresTrailing := by
  intro previous c blank
  simp [Character.isWord_of_isBlank blank]

end Building

variable {pattern : Pattern}

theorem find_extend (ends : EndsVisibly pattern tail) (cursor : Cursor) :
    pattern.find (cursor.extend tail) = pattern.find cursor := by
  rw [find, find, matchAt?, matchAt?, ends.extends_eq, Option.map_map]
  rfl

theorem find_of_blankAhead (ends : EndsVisibly pattern tail) (cursor : Cursor)
    (blank : BlankAhead cursor) : pattern.find cursor = none := by
  rw [find, matchAt?, ends.blank_eq cursor blank]
  rfl

theorem collect_of_isBlank (ends : EndsVisibly pattern tail) {text : Text}
    (blank : Text.isBlank text = true) (busy : Nat) (previous : Option Char) (offset : Nat)
    (found : List Match) : pattern.collect busy previous offset text found = found := by
  induction text generalizing busy previous offset with
  | nil =>
      cases busy with
      | zero => rw [collect, find_of_blankAhead ends ⟨previous, [], offset, []⟩ blank]
      | succ busy => rfl
  | cons c rest inductionHypothesis =>
      have restBlank : Text.isBlank rest = true := by
        simp only [Text.isBlank, List.all_cons, Bool.and_eq_true] at blank
        exact blank.2
      cases busy with
      | zero =>
          rw [collect,
            find_of_blankAhead ends ⟨previous, c :: rest, offset, []⟩ blank]
          exact inductionHypothesis restBlank ..
      | succ busy => exact inductionHypothesis restBlank ..

theorem collect_extend (ends : EndsVisibly pattern tail) (blankTail : Text.isBlank tail = true)
    (text : Text) (busy : Nat) (previous : Option Char) (offset : Nat) (found : List Match) :
    pattern.collect busy previous offset (text ++ tail) found =
      pattern.collect busy previous offset text found := by
  induction text generalizing busy previous offset found with
  | nil =>
      rw [List.nil_append, collect_of_isBlank ends blankTail, collect_of_isBlank ends rfl]
  | cons c rest inductionHypothesis =>
      cases busy with
      | zero =>
          have here := find_extend ends ⟨previous, c :: rest, offset, []⟩
          simp only [Cursor.extend, List.cons_append] at here
          rw [List.cons_append, collect, collect, here]
          cases pattern.find ⟨previous, c :: rest, offset, []⟩ with
          | none => exact inductionHypothesis ..
          | some next => exact inductionHypothesis ..
      | succ busy => exact inductionHypothesis ..

/-- Blanks at the end of a text add no match and change none. -/
theorem all_append_blanks (ends : EndsVisibly pattern tail)
    (blankTail : Text.isBlank tail = true) (text : Text) :
    pattern.all (text ++ tail) = pattern.all text := by
  rw [all, all, collect_extend ends blankTail]

end Pattern

end SceneBundler
