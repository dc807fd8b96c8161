import SceneBundler.Proofs.Dialect.Deletion
import SceneBundler.Proofs.Text.Scan

/-!
Contract: nested stretches of a masked text, given by the offsets of their ends.

Owns:
- stretches without brackets, and those that a pattern without brackets matches;
- where the readings of a pattern lie in a text, and what stands between the brackets of a pair;
- that the stretches which statements, annotations and return types cover are nested.

Does not own: which of them a pass deletes.
-/

namespace SceneBundler.Dialect

open Source
open Cursor (Passes)

variable {masked : Text} {start middle stop offset limit : Nat}

/-! ## Stretches without brackets -/

/-- Whether no bracket stands between two offsets. -/
def IsPlainBetween (masked : Text) (start stop : Nat) : Prop :=
  ∀ c ∈ Text.slice masked start stop, isBracket c = false

theorem slice_around {first last : Nat} (masked : Text) (begins : start ≤ first) (ordered : first ≤ last)
    (ends : last ≤ stop) :
    Text.slice masked start stop =
      Text.slice masked start first ++ (Text.slice masked first last ++ Text.slice masked last stop) := by
  rw [Text.slice_append_slice masked begins (Nat.le_trans ordered ends),
    Text.slice_append_slice masked ordered ends]

theorem nested_slice_append (first : start ≤ middle) (second : middle ≤ stop)
    (nestedFirst : Nested (Text.slice masked start middle))
    (nestedSecond : Nested (Text.slice masked middle stop)) :
    Nested (Text.slice masked start stop) := by
  rw [Text.slice_append_slice masked first second]
  exact nestedFirst.append nestedSecond

theorem nested_slice_right (first : start ≤ middle) (second : middle ≤ stop)
    (nested : Nested (Text.slice masked start stop)) (nestedFirst : Nested (Text.slice masked start middle)) :
    Nested (Text.slice masked middle stop) := by
  rw [Text.slice_append_slice masked first second] at nested
  exact nested.of_append_left nestedFirst

namespace IsPlainBetween

theorem nested (plain : IsPlainBetween masked start stop) : Nested (Text.slice masked start stop) :=
  Nested.of_plain plain

theorem refl (masked : Text) (offset : Nat) : IsPlainBetween masked offset offset := by
  intro c member
  rw [Text.slice, Nat.sub_self, List.take_zero] at member
  contradiction

theorem trans (first : start ≤ middle) (second : middle ≤ stop) (plain : IsPlainBetween masked start middle)
    (others : IsPlainBetween masked middle stop) : IsPlainBetween masked start stop := by
  intro c member
  rw [Text.slice_append_slice masked first second] at member
  rcases List.mem_append.mp member with isFirst | isSecond
  · exact plain c isFirst
  · exact others c isSecond

/-- A part of a stretch without brackets holds none. -/
theorem mono {first last : Nat} (begins : start ≤ first) (ordered : first ≤ last) (ends : last ≤ stop)
    (plain : IsPlainBetween masked start stop) : IsPlainBetween masked first last := by
  intro c member
  refine plain c ?_
  rw [slice_around masked begins ordered ends]
  exact List.mem_append_right _ (List.mem_append_left _ member)

theorem one {c : Char} (isThere : masked[offset]? = some c) (plain : isBracket c = false) :
    IsPlainBetween masked offset (offset + 1) := by
  intro d member
  obtain ⟨inside, rfl⟩ := List.getElem?_eq_some_iff.mp isThere
  rw [Text.slice, Nat.add_sub_cancel_left, List.drop_eq_getElem_cons inside, List.take_succ_cons,
    List.take_zero] at member
  rw [List.mem_singleton.mp member]
  exact plain

theorem skip {accepts : Char -> Bool} (plain : ∀ c, accepts c = true → isBracket c = false) (masked : Text)
    (offset : Nat) : IsPlainBetween masked offset (Text.skip accepts masked offset) := by
  intro c member
  have isTaken : Text.slice masked offset (Text.skip accepts masked offset) =
      (masked.drop offset).takeWhile accepts := by
    rw [Text.slice, Text.skip, Nat.add_sub_cancel_left]
    exact (List.prefix_iff_eq_take.mp (List.takeWhile_prefix accepts)).symm
  rw [isTaken] at member
  exact plain c (List.all_eq_true.mp List.all_takeWhile c member)

end IsPlainBetween

/-- What is skipped ends in front of what is not. -/
theorem skip_le {accepts : Char -> Bool} {c : Char} (isThere : masked[limit]? = some c)
    (stops : accepts c = false) (within : offset ≤ limit) : Text.skip accepts masked offset ≤ limit := by
  by_contra beyond
  have inside : limit - offset < ((masked.drop offset).takeWhile accepts).length := by
    rw [Text.skip] at beyond
    omega
  have isLast : (masked.drop offset)[limit - offset]? = some c := by
    rw [List.getElem?_drop, Nat.add_sub_of_le within, isThere]
  have accepted := List.all_eq_true.mp List.all_takeWhile _ (List.getElem_mem inside)
  rw [(List.takeWhile_prefix accepts).getElem inside, (List.getElem?_eq_some_iff.mp isLast).2, stops] at accepted
  contradiction

/-- The brackets of all kinds. -/
def brackets : Text :=
  "()[]\x7b\x7d".toList

theorem isBracket_of_not_mem {c : Char} (other : c ∉ brackets) : isBracket c = false := by
  simp only [isBracket, isOpener, isCloser, Bool.or_eq_false_iff, beq_eq_false_iff_ne]
  refine ⟨⟨⟨?_, ?_⟩, ?_⟩, ⟨?_, ?_⟩, ?_⟩ <;> rintro rfl <;> exact other (by decide)

/-- A class of characters that holds none of the brackets. -/
theorem isBracket_of_accepts {accepts : Char -> Bool} (none : (brackets.all fun mark => !accepts mark) = true)
    (c : Char) (accepted : accepts c = true) : isBracket c = false := by
  refine isBracket_of_not_mem fun isMark => ?_
  have shunned := List.all_eq_true.mp none c isMark
  rw [accepted] at shunned
  contradiction

/-! ## Matches without brackets -/

/-- What is read by a pattern that passes none of some characters holds none of them. -/
theorem not_mem_of_reads {pattern : Pattern} {marks : Text}
    (shunned : (marks.all fun mark => pattern.shuns mark) = true) {cursor next : Cursor}
    (reads : pattern.Reads cursor next) {word : Text} (passes : Passes word cursor next) :
    ∀ c ∈ word, c ∉ marks := by
  intro c member isMark
  obtain ⟨other, absent, passesOther⟩ :=
    Pattern.exists_passes_of_reads (List.all_eq_true.mp shunned c isMark) reads
  exact absent (passes.unique passesOther ▸ member)

/-- Whether no reading of a pattern passes a bracket. -/
def isBracketless (pattern : Pattern) : Bool :=
  brackets.all fun mark => pattern.shuns mark

/-- Whether what is ahead of a cursor stands in a text from the offset of the cursor on; more of the text may
follow it. -/
def LiesIn (masked : Text) (cursor : Cursor) : Prop :=
  cursor.ahead <+: masked.drop cursor.offset

namespace LiesIn

variable {cursor next : Cursor}

theorem of_isIn (isIn : cursor.IsIn masked) : LiesIn masked cursor := by
  obtain ⟨passed, rfl, isOffset⟩ := isIn
  refine ⟨[], ?_⟩
  rw [List.append_nil, isOffset, List.drop_left]

theorem of_passes {word : Text} (liesIn : LiesIn masked cursor) (passes : Passes word cursor next) :
    LiesIn masked next := by
  rw [LiesIn, passes.offset_eq, ← List.drop_drop]
  obtain ⟨following, split⟩ := liesIn
  rw [← split, passes.ahead_eq, List.append_assoc, List.drop_left]
  exact List.prefix_append next.ahead following

theorem of_reads {pattern : Pattern} (liesIn : LiesIn masked cursor) (reads : pattern.Reads cursor next) :
    LiesIn masked next := by
  obtain ⟨word, passes⟩ := Pattern.passes_of_reads reads
  exact liesIn.of_passes passes

/-- What stands between two places of a text is the word between them. -/
theorem slice_of_passes {word : Text} (liesIn : LiesIn masked cursor) (passes : Passes word cursor next) :
    Text.slice masked cursor.offset next.offset = word := by
  obtain ⟨following, split⟩ := liesIn
  rw [Text.slice, passes.offset_eq, Nat.add_sub_cancel_left, ← split, passes.ahead_eq, List.append_assoc,
    List.take_left]

theorem getElem?_of_char {c : Char} (liesIn : LiesIn masked cursor) (reads : (Pattern.char c).Reads cursor next) :
    masked[cursor.offset]? = some c ∧ next.offset = cursor.offset + 1 := by
  obtain ⟨d, isChar, passes, _⟩ := Cursor.passes_of_step? reads
  obtain rfl : d = c := beq_iff_eq.mp isChar
  obtain ⟨following, split⟩ := liesIn
  refine ⟨?_, passes.offset_eq⟩
  rw [← List.head?_drop, ← split, passes.ahead_eq]
  rfl

theorem isPlainBetween {pattern : Pattern} (bracketless : isBracketless pattern = true)
    (liesIn : LiesIn masked cursor) (reads : pattern.Reads cursor next) :
    IsPlainBetween masked cursor.offset next.offset := by
  obtain ⟨word, passes⟩ := Pattern.passes_of_reads reads
  rw [IsPlainBetween, liesIn.slice_of_passes passes]
  exact fun c member => isBracket_of_not_mem (not_mem_of_reads bracketless reads passes c member)

end LiesIn

/-- Whether a match is a reading of a pattern somewhere in a text. -/
def IsReading (pattern : Pattern) (masked : Text) (found : Match) : Prop :=
  ∃ cursor next, LiesIn masked cursor ∧ pattern.Reads cursor next ∧
    found = ⟨cursor.offset, next.offset, next.captures⟩

namespace IsReading

variable {pattern : Pattern} {found : Match}

theorem of_find {cursor : Cursor} (foundHere : pattern.find cursor = some found) (liesIn : LiesIn masked cursor) :
    IsReading pattern masked found := by
  obtain ⟨next, reads, isFound⟩ := Pattern.reads_of_find foundHere
  exact ⟨cursor, next, liesIn, reads, isFound⟩

theorem of_mem_all (member : found ∈ pattern.all masked) : IsReading pattern masked found := by
  obtain ⟨passed, ahead, split, foundHere⟩ := Pattern.find_of_mem_all member
  exact of_find foundHere (.of_isIn (split ▸ Cursor.isIn_between passed ahead))

theorem of_matchWithin? (foundHere : pattern.matchWithin? masked offset limit = some found) :
    IsReading pattern masked found :=
  of_find foundHere (List.take_prefix _ _)

theorem of_firstFrom? {previous : Option Char} {text : Text} (begins : text <+: masked.drop offset)
    (foundFirst : pattern.firstFrom? previous offset text = some found) : IsReading pattern masked found := by
  induction text generalizing previous offset with
  | nil => exact of_find foundFirst List.nil_prefix
  | cons c rest inductionHypothesis =>
      rw [Pattern.firstFrom?] at foundFirst
      split at foundFirst
      next here foundHere =>
        obtain rfl := Option.some.inj foundFirst
        exact of_find foundHere begins
      next =>
        obtain ⟨following, split⟩ := begins
        refine inductionHypothesis ?_ foundFirst
        rw [← List.drop_drop, ← split]
        exact List.prefix_append rest following

theorem of_firstWithin? (foundFirst : pattern.firstWithin? masked start stop = some found) :
    IsReading pattern masked found :=
  of_firstFrom? (List.take_prefix _ _) foundFirst

theorem isPlainBetween (bracketless : isBracketless pattern = true) (isReading : IsReading pattern masked found) :
    IsPlainBetween masked found.start found.stop := by
  obtain ⟨cursor, next, liesIn, reads, rfl⟩ := isReading
  exact liesIn.isPlainBetween bracketless reads

end IsReading

theorem take_slice {length : Nat} (fits : length ≤ stop - start) :
    (Text.slice masked start stop).take length = Text.slice masked start (start + length) := by
  rw [Text.slice, Text.slice, List.take_take, Nat.add_sub_cancel_left, Nat.min_eq_left fits]

/-! ## Stretches between brackets -/

/-- What stands between the two brackets of a pair in a nested text is nested, and so is the pair. -/
theorem exists_nested_of_mem_ofText (nested : Nested masked) {opened closed : Nat}
    (member : (opened, closed) ∈ BracketPairs.ofText masked) :
    ∃ kind : BracketKind, opened < closed ∧ masked[closed]? = some kind.closer ∧
      Nested (Text.slice masked (opened + 1) closed) ∧ Nested (Text.slice masked opened (closed + 1)) := by
  obtain ⟨kind, before, inside, behind, rfl, nestedInside, isPair⟩ :=
    BracketPairs.exists_around_of_mem_ofText nested member
  obtain ⟨rfl, rfl⟩ := Prod.mk.inj isPair
  have isInside := @Text.slice_eq _ inside (before.length + 1) (before.length + 1 + inside.length)
    (before ++ [kind.opener]) (kind.closer :: behind) rfl (by simp) (by simp)
  have isWhole := @Text.slice_eq _ (kind.opener :: (inside ++ [kind.closer])) before.length
    (before.length + 1 + inside.length + 1) before behind rfl rfl (by simp; omega)
  have closes := @Text.getElem?_behind (before ++ kind.opener :: inside) behind kind.closer
  simp only [List.append_assoc, List.cons_append, List.nil_append, List.length_append, List.length_cons]
    at isInside isWhole closes
  refine ⟨kind, by omega, ?_, ?_, ?_⟩
  · rwa [Nat.add_assoc, Nat.add_comm 1]
  · rwa [isInside]
  · rw [isWhole]
    exact nestedInside.bracketed kind

/-- A cut behind a nested part of a stretch. -/
theorem nested_of_nestedBefore {place : Nat} (ordered : start ≤ stop)
    (before : NestedBefore (Text.slice masked start stop) start place) :
    start ≤ place ∧ place ≤ stop ∧ Nested (Text.slice masked start place) := by
  obtain ⟨front, back, split, nestedFront, rfl⟩ := before
  have fits : front.length ≤ stop - start := by
    have shorter : (Text.slice masked start stop).length ≤ stop - start := List.length_take_le _ _
    rw [split, List.length_append] at shorter
    omega
  refine ⟨Nat.le_add_right _ _, by omega, ?_⟩
  rw [← take_slice fits, split, List.take_left]
  exact nestedFront

/-! ## Statements -/

/-- A statement of a nested text is nested. -/
theorem nested_statement (nested : Nested masked) (start : Nat) :
    Nested (Text.slice masked start (statementEnd masked start)) := by
  obtain ⟨opened, _, closes⟩ := nested.exists_openAfter_take start
  obtain ⟨length, reached, nestedStatement⟩ :=
    @exists_statementLength [] opened [] (masked.drop start) closes (Nat.zero_le _) none 0
  have isEnd : statementEnd masked start = start + length := by
    exact congrArg (start + ·) (reached.trans (Nat.zero_add length))
  rw [isEnd, Text.slice, Nat.add_sub_cancel_left]
  exact nestedStatement

theorem isBracket_of_isIndent (c : Char) (indent : Text.isIndent c = true) : isBracket c = false :=
  isBracket_of_accepts (by decide) c indent

theorem isBracket_of_isLayout (c : Char) (layout : isLayout c = true) : isBracket c = false :=
  isBracket_of_accepts (by decide) c layout

theorem isBracket_of_isBlank (c : Char) (blank : Character.isBlank c = true) : isBracket c = false :=
  isBracket_of_accepts (by decide) c blank

/-- A semicolon that goes with what stands in front of it is no bracket. -/
theorem isPlainBetween_semicolon {behind : Nat}
    (isBehind : behind = stop ∨ masked[stop]? = some ';' ∧ behind = stop + 1) :
    stop ≤ behind ∧ IsPlainBetween masked stop behind := by
  rcases isBehind with rfl | ⟨isSemicolon, rfl⟩
  · exact ⟨Nat.le_refl _, .refl masked _⟩
  · exact ⟨Nat.le_succ _, .one isSemicolon (by decide)⟩

/-- What goes with a removed statement is no bracket. -/
theorem nested_statementRemoval (ordered : start ≤ stop) (nested : Nested (Text.slice masked start stop)) :
    Nested (Text.slice masked start (statementRemoval masked start stop).stop) := by
  obtain ⟨behind, isBehind, isRemoval⟩ := statementRemoval_cases masked start stop
  obtain ⟨reached, plain⟩ := isPlainBetween_semicolon isBehind
  have nestedBehind := nested_slice_append ordered reached nested plain.nested
  rcases isRemoval with ⟨endsLine, isRemoval⟩ | ⟨_, isRemoval⟩
  · rw [isRemoval]
    have toEnd := @le_skip masked Text.isIndent behind
    have blanks := IsPlainBetween.skip isBracket_of_isIndent masked behind
    have wholeLine := blanks.trans toEnd (Nat.le_succ _) (.one endsLine (by decide))
    exact nested_slice_append (Nat.le_trans ordered reached) (Nat.le_succ_of_le toEnd) nestedBehind
      wholeLine.nested
  · rw [isRemoval]
    exact nestedBehind

/-! ## Types -/

/-- A stretch without the blanks at its end is nested if the whole stretch is, unless it holds an angle
bracket. -/
theorem nested_trimmed {colon : Nat}
    (nested : holdsAngle none (Text.slice masked colon stop) = false → Nested (Text.slice masked colon stop))
    (noAngle : holdsAngle none (Text.slice masked colon (trimmedEnd masked colon stop)) = false) :
    Nested (Text.slice masked colon (trimmedEnd masked colon stop)) := by
  obtain ⟨blanks, blank, split⟩ := Text.trimEnd_append (Text.slice masked colon stop)
  have fits : (Text.trimEnd (Text.slice masked colon stop)).length ≤ stop - colon := by
    have shorter : (Text.slice masked colon stop).length ≤ stop - colon := List.length_take_le _ _
    rw [split, List.length_append] at shorter
    omega
  have isTrimmed : Text.slice masked colon (trimmedEnd masked colon stop) =
      Text.trimEnd (Text.slice masked colon stop) := by
    have cut := @take_slice masked colon stop _ fits
    rw [← trimmedEnd] at cut
    rw [← cut]
    conv_lhs => arg 2; rw [split]
    rw [List.take_left]
  rw [isTrimmed] at noAngle ⊢
  have plain : ∀ c ∈ blanks, isBracket c = false := fun c member =>
    isBracket_of_isBlank c (Text.isBlank_iff.mp blank c member)
  have blanksAngle : ∀ (previous : Option Char) (blanks : Text), (∀ c ∈ blanks, Character.isBlank c = true) →
      holdsAngle previous blanks = false := by
    intro previous blanks
    induction blanks generalizing previous with
    | nil => exact fun _ => rfl
    | cons c rest inductionHypothesis =>
        intro areBlank
        have blankHere := areBlank c List.mem_cons_self
        have notLess : (c == '<') = false := beq_false_of_ne (Character.ne_of_isBlank blankHere (by decide))
        have notGreater : (c == '>') = false := beq_false_of_ne (Character.ne_of_isBlank blankHere (by decide))
        rw [holdsAngle, notLess, notGreater, inductionHypothesis (some c) fun d member =>
          areBlank d (List.mem_cons_of_mem c member)]
        rfl
  have whole := nested (by
    rw [split, holdsAngle_append, noAngle, blanksAngle _ blanks (Text.isBlank_iff.mp blank)]
    rfl)
  rw [split] at whole
  exact whole.of_append_right (Nested.of_plain plain)

theorem slice_colon {colon length : Nat} (isColon : masked[colon]? = some ':') :
    Text.slice masked colon (colon + 1 + length) = ':' :: (masked.drop (colon + 1)).take length := by
  obtain ⟨inside, isThere⟩ := List.getElem?_eq_some_iff.mp isColon
  rw [Text.slice, List.drop_eq_getElem_cons inside, isThere,
    show colon + 1 + length - colon = length + 1 by omega, List.take_succ_cons]

/-- An annotation without angle brackets is nested, if nothing around it is closed in front of its limit. -/
theorem nested_annotated {colon : Nat} {outer after : List BracketKind} (isColon : masked[colon]? = some ':')
    (opens : openAfter outer (Text.slice masked (colon + 1) limit) = some after)
    (fewer : after.length ≤ outer.length) (stops : String)
    (noAngle : holdsAngle none (Text.slice masked colon
      (trimmedEnd masked colon (typeEnd masked (colon + 1) limit stops))) = false) :
    Nested (Text.slice masked colon (trimmedEnd masked colon (typeEnd masked (colon + 1) limit stops))) := by
  refine nested_trimmed (fun noAngle => ?_) noAngle
  obtain ⟨length, reached, nested⟩ := exists_nested_typeLength stops.toList opens fewer (some ':')
  have isEnd : typeEnd masked (colon + 1) limit stops = colon + 1 + length := by
    rw [typeEnd, if_neg (Nat.succ_ne_zero colon), Nat.add_sub_cancel, isColon]
    exact congrArg (colon + 1 + ·) reached
  rw [isEnd, slice_colon isColon] at noAngle ⊢
  rw [Nested, openAfter_cons_plain (by decide)]
  exact nested noAngle

/-- A return type without angle brackets is nested. -/
theorem nested_returnType (nested : Nested masked) {closed : Nat} {span : Span}
    (known : (afterParameters masked closed).1 = some span)
    (noAngle : holdsAngle none (Text.slice masked span.start span.stop) = false) :
    Nested (Text.slice masked span.start span.stop) := by
  obtain ⟨colon, stop, _, isColon, isEnd, rfl, _⟩ := exists_of_afterParameters known
  refine nested_trimmed (fun noAngle => ?_) noAngle
  rw [returnTypeEnd?, if_neg (Nat.succ_ne_zero colon), Nat.add_sub_cancel, isColon] at isEnd
  obtain ⟨reached, found, rfl⟩ := Option.map_eq_some_iff.mp isEnd
  obtain ⟨opened, _, closes⟩ := nested.exists_openAfter_take (colon + 1)
  have nestedType := exists_nested_returnTypeLength closes found
  rw [slice_colon isColon] at noAngle ⊢
  rw [Nested, openAfter_cons_plain (by decide)]
  exact nestedType noAngle

end SceneBundler.Dialect
