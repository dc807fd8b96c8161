import SceneBundler.Proofs.Source.Behind
import SceneBundler.Proofs.Source.View
import SceneBundler.Proofs.Text.Reach
import SceneBundler.Proofs.Text.Search
import SceneBundler.Proofs.Typed.Quiet

/-!
Contract: block comments and removals of whole statements in a masked source.

Owns:
- where a block comment begins and how far it extends, and that the masked view shows nothing of one but its
  line breaks;
- where a line of the view that shows something can begin or end within a comment: behind the last line
  break of the comment, or behind its first;
- the matches that begin a line which shows something;
- where a statement may stop, and where its removal ends with what is skipped behind it.

Does not own: how far statements extend.
-/

namespace SceneBundler.Source

/-- The number of characters of a block comment behind its opening mark: through the first closing mark, or
else all that is left. -/
def commentLength : Text -> Nat
  | [] => 0
  | '*' :: '/' :: _ => 2
  | _ :: rest => commentLength rest + 1

/-- Whether a stretch of a text is a block comment: the reading of the text, where it comes to the opening
mark, blanks it and goes on in a comment. -/
def IsBlockComment (text : Text) (start stop : Nat) : Prop :=
  ∃ (passed rest : Text) (next : Reading), text = passed ++ '/' :: '*' :: rest ∧
    (Reading.initial.readBefore ('/' :: '*' :: rest) passed).read '/' ('*' :: rest) = (false, next) ∧
    next.region = .hold false 1 .blockComment ∧
    start = passed.length ∧ stop = passed.length + (commentLength rest + 2)

/-- Whether a masked character can stand for a hidden one. -/
def Hidden (shown : Option Char) : Prop :=
  shown = some ' ' ∨ shown = some '\n'

theorem hidden_shown (c : Char) : Hidden (some (Reading.shown false c)) := by
  rcases keepsOrBlanks_shown false c with same | ⟨isSpace, -⟩
  · unfold Reading.shown at same ⊢
    split
    next isBreak => exact Or.inr (congrArg some (eq_of_beq (by simpa using isBreak)))
    next => exact Or.inl rfl
  · exact Or.inl (congrArg some isSpace)

/-- What is blanked at the next character is hidden. -/
theorem hidden_view_zero {reading next : Reading} {c : Char} {rest : Text}
    (blanks : reading.read c rest = (false, next)) : Hidden (reading.view (c :: rest))[0]? := by
  rw [Reading.view, blanks]
  exact hidden_shown c

/-- Behind the next character the view goes on from the state after it. -/
theorem hidden_view_succ {reading next : Reading} {c : Char} {rest : Text} {offset : Nat} {visible : Bool}
    (reads : reading.read c rest = (visible, next))
    (later : ∀ other : Reading, other.region = next.region → Hidden (other.view rest)[offset]?) :
    Hidden (reading.view (c :: rest))[offset + 1]? := by
  rw [Reading.view, List.getElem?_cons_succ]
  refine later _ ?_
  rw [Reading.advance, reads]

theorem read_held {reading : Reading} {resume : Region} (held : reading.region = .hold false 1 resume)
    (c : Char) (rest : Text) : reading.read c rest = (false, { reading with region := resume }) := by
  rw [Reading.read, held]
  rfl

/-- Within a comment nothing is shown through its end. -/
theorem hidden_view_blockComment {reading : Reading} (inComment : reading.region = .blockComment)
    {rest : Text} {offset : Nat} (within : offset < commentLength rest) :
    Hidden (reading.view rest)[offset]? := by
  induction rest using commentLength.induct generalizing reading offset with
  | case1 => exact absurd within (Nat.not_lt_zero offset)
  | case2 rest =>
      have closes : reading.read '*' ('/' :: rest) =
          (false, { reading with region := .hold false 1 .code }) := by
        simp [Reading.read, inComment]
      match offset, within with
      | 0, _ => exact hidden_view_zero closes
      | 1, _ =>
          exact hidden_view_succ closes fun other isHeld => hidden_view_zero (read_held isHeld '/' rest)
  | case3 c rest notClosing inductionHypothesis =>
      have goesOn : reading.read c rest = (false, reading) := by
        have notClosed : ¬ (c = '*' ∧ rest.head? = some '/') := by
          rintro ⟨rfl, closes⟩
          obtain ⟨tail, rfl⟩ := List.head?_eq_some_iff.mp closes
          exact notClosing tail rfl rfl
        simp [Reading.read, inComment, notClosed]
      rw [commentLength.eq_3 _ _ notClosing] at within
      match offset with
      | 0 => exact hidden_view_zero goesOn
      | offset + 1 =>
          exact hidden_view_succ goesOn fun other isSame =>
            inductionHypothesis (isSame.trans inComment) (Nat.lt_of_succ_lt_succ within)

namespace IsBlockComment

variable {text : Text} {start stop : Nat}

/-- The masked view shows nothing of a comment but its line breaks. -/
theorem hidden (isComment : IsBlockComment text start stop) {offset : Nat} (from_ : start ≤ offset)
    (before : offset < stop) : Hidden (mask text)[offset]? := by
  obtain ⟨passed, rest, next, rfl, opens, isHeld, rfl, rfl⟩ := isComment
  obtain ⟨offset, rfl⟩ := Nat.exists_eq_add_of_le from_
  have passedLength := Reading.initial.length_viewBefore ('/' :: '*' :: rest) passed
  rw [mask_eq_view, Reading.view_append, List.getElem?_append_right (by omega), passedLength,
    Nat.add_sub_cancel_left]
  match offset with
  | 0 => exact hidden_view_zero opens
  | 1 =>
      exact hidden_view_succ opens fun other isSame =>
        hidden_view_zero (read_held (isSame.trans isHeld) '*' rest)
  | offset + 2 =>
      refine hidden_view_succ opens fun other isSame => ?_
      refine hidden_view_succ (read_held (isSame.trans isHeld) '*' rest) fun inner inComment => ?_
      exact hidden_view_blockComment inComment (by omega)

theorem lt (isComment : IsBlockComment text start stop) : start < stop := by
  obtain ⟨_, _, _, _, _, _, rfl, rfl⟩ := isComment
  omega

end IsBlockComment

/-! ## Lines of a masked view -/

theorem not_hidden_of_ne {masked : Text} {offset : Nat} {c : Char} (isThere : masked[offset]? = some c)
    (notSpace : c ≠ ' ') (notBreak : c ≠ '\n') : ¬ Hidden masked[offset]? := by
  rintro (isSpace | isBreak)
  · exact notSpace (Option.some.inj (isThere.symm.trans isSpace))
  · exact notBreak (Option.some.inj (isThere.symm.trans isBreak))

/-- Whether the line of an offset shows something in front of the offset. -/
def ShowsBefore (masked : Text) (offset : Nat) : Prop :=
  ∃ shown < offset, ¬ Hidden masked[shown]? ∧
    ∀ between, shown < between → between < offset → masked[between]? ≠ some '\n'

theorem ShowsBefore.of_shown {masked : Text} {shown : Nat} (isShown : ¬ Hidden masked[shown]?) :
    ShowsBefore masked (shown + 1) :=
  ⟨shown, Nat.lt_succ_self shown, isShown, fun between behind before => by omega⟩

theorem ShowsBefore.mono {masked : Text} {offset later : Nat} (shows : ShowsBefore masked offset)
    (ordered : offset ≤ later)
    (sameLine : ∀ between, offset ≤ between → between < later → masked[between]? ≠ some '\n') :
    ShowsBefore masked later := by
  obtain ⟨shown, before, isShown, noBreak⟩ := shows
  refine ⟨shown, Nat.lt_of_lt_of_le before ordered, isShown, fun between behind within => ?_⟩
  rcases Nat.lt_or_ge between offset with earlier | beyond
  · exact noBreak between behind earlier
  · exact sameLine between beyond within

theorem ShowsBefore.next {masked : Text} {offset : Nat} (shows : ShowsBefore masked offset)
    (notBreak : masked[offset]? ≠ some '\n') : ShowsBefore masked (offset + 1) := by
  refine shows.mono (Nat.le_succ offset) fun between behind before => ?_
  obtain rfl : between = offset := by omega
  exact notBreak

/-- Whether an offset begins a line that shows something. -/
def BeginsShownLine (masked : Text) (offset : Nat) : Prop :=
  ∃ shown ≥ offset, ¬ Hidden masked[shown]? ∧
    ∀ between, offset ≤ between + 1 → between < shown →
      (masked[between]? = some '\n' ↔ between + 1 = offset)

/-- Whether an offset is in front of something shown, or behind the last character of a line that shows
something, the line break included. -/
def EndsShownLine (masked : Text) (offset : Nat) : Prop :=
  Hidden masked[offset]? → ∃ shown < offset, ¬ Hidden masked[shown]? ∧
    ∀ between, shown < between → between < offset →
      (masked[between]? = some '\n' ↔ between + 1 = offset)

theorem ShowsBefore.endsShownLine {masked : Text} {offset : Nat} (shows : ShowsBefore masked offset)
    (isBreak : masked[offset]? = some '\n') : EndsShownLine masked (offset + 1) := by
  obtain ⟨shown, before, isShown, noBreak⟩ := shows
  refine fun _ => ⟨shown, Nat.lt_succ_of_lt before, isShown, fun between behind within => ?_⟩
  rcases Nat.lt_succ_iff_lt_or_eq.mp within with earlier | rfl
  · exact iff_of_false (noBreak between behind earlier) (by omega)
  · exact iff_of_true isBreak rfl

/-! ## Lines of a comment -/

/-- Whether an offset is the one behind the first line break of a stretch. -/
def IsBehindFirstBreak (text : Text) (start stop offset : Nat) : Prop :=
  start < offset ∧ offset < stop ∧
    ∀ place, start ≤ place → place < offset → (text[place]? = some '\n' ↔ place + 1 = offset)

/-- Whether an offset is the one behind the last line break of a stretch. -/
def IsBehindLastBreak (text : Text) (start stop offset : Nat) : Prop :=
  start < offset ∧ offset < stop ∧
    ∀ place, offset ≤ place + 1 → place < stop → (text[place]? = some '\n' ↔ place + 1 = offset)

section Lines

variable {text : Text} {start stop offset : Nat}

theorem getElem?_mask_break_iff (text : Text) (offset : Nat) :
    (mask text)[offset]? = some '\n' ↔ text[offset]? = some '\n' :=
  getElem?_break_iff (forall₂_mask text) offset

/-- Where a line that shows something ends within a comment, it shows it in front of the comment. -/
theorem EndsShownLine.isBehindFirstBreak (ends : EndsShownLine (mask text) offset)
    (isComment : IsBlockComment text start stop) (behindStart : start < offset)
    (beforeStop : offset < stop) :
    IsBehindFirstBreak text start stop offset := by
  obtain ⟨shown, before, isShown, onLine⟩ := ends (isComment.hidden (Nat.le_of_lt behindStart) beforeStop)
  have inFront : shown < start := by
    refine Nat.lt_of_not_le fun within => isShown (isComment.hidden within ?_)
    omega
  refine ⟨behindStart, beforeStop, fun place from_ within => ?_⟩
  rw [← getElem?_mask_break_iff]
  exact onLine place (Nat.lt_of_lt_of_le inFront from_) within

/-- Where a line that shows something begins within a comment, it shows it behind the comment. -/
theorem BeginsShownLine.isBehindLastBreak (begins : BeginsShownLine (mask text) offset)
    (isComment : IsBlockComment text start stop) (behindStart : start < offset)
    (beforeStop : offset < stop) :
    IsBehindLastBreak text start stop offset := by
  obtain ⟨shown, from_, isShown, onLine⟩ := begins
  have behind : stop ≤ shown := by
    refine Nat.le_of_not_lt fun within => isShown (isComment.hidden ?_ within)
    omega
  refine ⟨behindStart, beforeStop, fun place onOrBehind within => ?_⟩
  rw [← getElem?_mask_break_iff]
  exact onLine place onOrBehind (Nat.lt_of_lt_of_le within behind)

end Lines

end SceneBundler.Source

namespace SceneBundler

open Source (Hidden ShowsBefore BeginsShownLine EndsShownLine BracketPairs)

namespace Pattern

variable {pattern : Pattern} {masked : Text} {found : Match}

/-- A match of a pattern that begins a line, and comes to a character over spaces only, begins a line that
shows something. -/
theorem beginsShownLine (isLineStart : pattern.leftmost = lineStart) (stops : pattern.mayRepeat ' ' = false)
    (misses : pattern.mayReach ' ' '\n' = false) (member : found ∈ pattern.all masked) :
    BeginsShownLine masked found.start := by
  obtain ⟨passed, ahead, rfl, foundHere⟩ := find_of_mem_all member
  obtain ⟨next, reads, rfl⟩ := reads_of_find foundHere
  have startsLine : passed.getLast?.all (· == '\n') = true := startsLine_of_reads isLineStart reads
  obtain ⟨lead, c, rest, passes, areSpaces, notSpace, notBreak⟩ := exists_lead_of_reads stops misses reads
  obtain rfl : ahead = lead ++ c :: rest ++ next.ahead := passes.ahead_eq
  have isThere : (passed ++ (lead ++ c :: rest ++ next.ahead))[passed.length + lead.length]? = some c := by
    rw [List.append_assoc, List.cons_append, ← List.append_assoc, ← List.length_append,
      Text.getElem?_behind]
  refine ⟨passed.length + lead.length, Nat.le_add_right _ _,
    Source.not_hidden_of_ne isThere notSpace notBreak, fun between onOrBehind before => ?_⟩
  change passed.length ≤ between + 1 at onOrBehind
  change _ ↔ between + 1 = passed.length
  rcases Nat.lt_or_ge between passed.length with inFront | inLead
  · refine iff_of_true ?_ (by omega)
    have isLast : passed.getLast? = some passed[between] := by
      rw [List.getLast?_eq_getElem?, show passed.length - 1 = between by omega,
        List.getElem?_eq_getElem inFront]
    rw [isLast] at startsLine
    rw [List.getElem?_append_left inFront, List.getElem?_eq_getElem inFront]
    exact congrArg some (eq_of_beq startsLine)
  · refine iff_of_false (fun isBreak => ?_) (by omega)
    have inside : between - passed.length < lead.length := by omega
    rw [List.getElem?_append_right inLead, List.append_assoc, List.getElem?_append_left inside] at isBreak
    exact absurd (areSpaces '\n' (List.mem_of_getElem? isBreak)) (by decide)

theorem stop_le_length (member : found ∈ pattern.all masked) : found.stop ≤ masked.length := by
  obtain ⟨passed, ahead, rfl, foundHere⟩ := find_of_mem_all member
  obtain ⟨next, reads, rfl⟩ := reads_of_find foundHere
  obtain ⟨before, split, isOffset⟩ := (Cursor.isIn_between passed ahead).of_reads reads
  change next.offset ≤ (passed ++ ahead).length
  rw [isOffset, split, List.length_append]
  exact Nat.le_add_right _ _

end Pattern

/-- Where a statement may stop: in front of something shown or at the end of the text, behind something
shown, or in front of the line break of a line that shows something. -/
inductive Stops (masked : Text) : Nat -> Prop where
  | before {offset : Nat} (isShown : ¬ Hidden masked[offset]?) : Stops masked offset
  | behind {shown : Nat} (isShown : ¬ Hidden masked[shown]?) : Stops masked (shown + 1)
  | atBreak {offset : Nat} (isBreak : masked[offset]? = some '\n') (shows : ShowsBefore masked offset) :
      Stops masked offset

/-- Whether an edit goes from the beginning of a line that shows something to something shown or through the
end of such a line. -/
structure IsLineRemoval (masked : Text) (edit : Edit) : Prop where
  begins : BeginsShownLine masked edit.start
  ends : EndsShownLine masked edit.stop
  ordered : edit.start ≤ edit.stop

section Ends

variable {masked : Text} {stop offset opened closed : Nat} {accepts : Char -> Bool} {c : Char}

/-- What is not blank is shown. -/
theorem not_hidden_of_visible (isThere : masked[offset]? = some c) (visible : Character.isBlank c = false) :
    ¬ Hidden masked[offset]? :=
  Source.not_hidden_of_ne isThere (by rintro rfl; exact absurd visible (by decide))
    (by rintro rfl; exact absurd visible (by decide))

theorem not_hidden_of_any (visible : masked[offset]?.any Character.isBlank = false) :
    ¬ Hidden masked[offset]? := by
  rintro (isSpace | isBreak)
  · rw [isSpace] at visible
    contradiction
  · rw [isBreak] at visible
    contradiction

theorem not_hidden_of_closerOf? (paired : (BracketPairs.ofText masked).closerOf? opened = some closed) :
    ¬ Hidden masked[closed]? := by
  obtain ⟨kind, isCloser⟩ := BracketPairs.getElem?_of_closerOf? paired
  exact not_hidden_of_visible isCloser (by cases kind <;> decide)

namespace Stops

theorem beyond (isEnd : masked.length ≤ stop) : Stops masked stop := by
  refine .before ?_
  rw [List.getElem?_eq_none isEnd]
  rintro (isSpace | isBreak) <;> contradiction

theorem of_isThere (isThere : masked[offset]? = some c) (notSpace : c ≠ ' ') (notBreak : c ≠ '\n') :
    Stops masked (offset + 1) :=
  .behind (Source.not_hidden_of_ne isThere notSpace notBreak)

theorem closer (paired : (BracketPairs.ofText masked).closerOf? opened = some closed) :
    Stops masked (closed + 1) :=
  .behind (not_hidden_of_closerOf? paired)

/-- What does not stop at a line break ends as a line may. -/
theorem endsShownLine (stops : Stops masked stop) (notBreak : masked[stop]? ≠ some '\n') :
    EndsShownLine masked stop := by
  cases stops with
  | before isShown => exact fun isHidden => absurd isHidden isShown
  | behind isShown => exact fun _ => ⟨_, Nat.lt_succ_self _, isShown, fun between behind before => by omega⟩
  | atBreak isBreak => exact absurd isBreak notBreak

/-- If a line ends with what is skipped behind a statement, it shows something. -/
theorem showsBefore_skip (skipsNoBreak : accepts '\n' = false) (stops : Stops masked stop)
    (isBreak : masked[Text.skip accepts masked stop]? = some '\n') :
    ShowsBefore masked (Text.skip accepts masked stop) := by
  have reached : stop ≤ Text.skip accepts masked stop := Nat.le_add_right _ _
  have sameLine (between : Nat) (behind : stop ≤ between)
      (before : between < Text.skip accepts masked stop) : masked[between]? ≠ some '\n' := by
    intro isBreakHere
    rw [Text.accepts_of_lt_skip behind before isBreakHere] at skipsNoBreak
    contradiction
  cases stops with
  | before isShown =>
      have differs : stop ≠ Text.skip accepts masked stop := fun same =>
        isShown (Or.inr (same ▸ isBreak))
      exact (ShowsBefore.of_shown isShown).mono (by omega) fun between behind before =>
        sameLine between (Nat.le_of_succ_le behind) before
  | behind isShown => exact (ShowsBefore.of_shown isShown).mono reached sameLine
  | atBreak _ shows => exact shows.mono reached sameLine

/-- Skipping spaces and the like behind a statement, and then one line break, ends as a line may. -/
theorem endsShownLine_skip (skipsSpace : accepts ' ' = true) (skipsNoBreak : accepts '\n' = false)
    (stops : Stops masked stop) :
    EndsShownLine masked
      (if masked[Text.skip accepts masked stop]? = some '\n' then Text.skip accepts masked stop + 1
      else Text.skip accepts masked stop) := by
  split
  next isBreak => exact (stops.showsBefore_skip skipsNoBreak isBreak).endsShownLine isBreak
  next notBreak =>
    rintro (isSpace | isBreak)
    · rw [Text.not_accepts_skip isSpace] at skipsSpace
      contradiction
    · exact absurd isBreak notBreak

end Stops

end Ends

end SceneBundler
