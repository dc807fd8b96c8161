import SceneBundler.Proofs.Balance.Description
import SceneBundler.Proofs.Text.Blank

/-!
Contract: lines of closers, and the brackets of several lines.

Owns:
- the lines that hold closing brackets only, and that the test for such lines accepts just these;
- that such a line opens nothing;
- the masked text of some lines, in which brackets are counted line by line, in whatever order.

Does not own: which lines are removed.
-/

namespace SceneBundler.Balance

open Character (isBlank)
open Source (BracketKind isCloser)

/-! ## Lines of closers -/

/-- A line of closers: blanks and closing brackets, of these at least one, then a semicolon or none, then
blanks. -/
def IsCloserLine (line : Text) : Prop :=
  ∃ brackets mark blanks : Text, line = brackets ++ (mark ++ blanks) ∧
    (∀ c ∈ brackets, isBlank c = true ∨ isCloser c = true) ∧ (∃ c ∈ brackets, isCloser c = true) ∧
    (mark = [] ∨ mark = [';']) ∧ Text.isBlank blanks = true

/-- What may stand between the first closer of a line and what ends its closers. -/
def isBlankOrCloser (c : Char) : Bool :=
  isBlank c || isCloser c

/-- The blanks in front of the first closer are those that trimming takes away. -/
theorem exists_trimStart_eq {brackets : Text} (only : ∀ c ∈ brackets, isBlank c = true ∨ isCloser c = true)
    (some : ∃ c ∈ brackets, isCloser c = true) (following : Text) :
    ∃ c rest, Text.trimStart (brackets ++ following) = c :: (rest ++ following) ∧ isCloser c = true ∧
      ∀ d ∈ rest, isBlankOrCloser d = true := by
  induction brackets with
  | nil =>
      obtain ⟨c, member, _⟩ := some
      exact absurd member List.not_mem_nil
  | cons c rest inductionHypothesis =>
      obtain ⟨here, later⟩ := List.forall_mem_cons.mp only
      by_cases closes : isCloser c = true
      · refine ⟨c, rest, ?_, closes, fun d member => Bool.or_eq_true_iff.mpr (later d member)⟩
        have visible := Source.visible_of_isCloser closes
        exact List.dropWhile_cons_of_neg (by simp [visible])
      · have blank : isBlank c = true := here.resolve_right closes
        have someLater : ∃ d ∈ rest, isCloser d = true := by
          obtain ⟨d, member, closesThere⟩ := some
          rcases List.mem_cons.mp member with rfl | isLater
          · exact absurd closesThere closes
          · exact ⟨d, isLater, closesThere⟩
        obtain ⟨d, others, trimmed, found⟩ := inductionHypothesis later someLater
        refine ⟨d, others, ?_, found⟩
        rw [← trimmed]
        exact List.dropWhile_cons_of_pos blank

theorem isCloserOnly_eq {line : Line} {c : Char} {rest : Text}
    (trimmed : Text.trimStart line.masked = c :: rest) :
    line.isCloserOnly = (isCloser c &&
      Text.isBlank (if (rest.dropWhile isBlankOrCloser).head? = some ';'
        then (rest.dropWhile isBlankOrCloser).tail else rest.dropWhile isBlankOrCloser)) := by
  rw [Line.isCloserOnly, trimmed]
  rfl

theorem isCloserLine_of_isCloserOnly {line : Line} (only : line.isCloserOnly = true) :
    IsCloserLine line.masked := by
  cases trimmed : Text.trimStart line.masked with
  | nil =>
      rw [Line.isCloserOnly, trimmed] at only
      contradiction
  | cons c rest =>
      rw [isCloserOnly_eq trimmed] at only
      obtain ⟨closes, blankBehind⟩ := Bool.and_eq_true_iff.mp only
      have whole : line.masked = (line.masked.takeWhile isBlank ++ c :: rest.takeWhile isBlankOrCloser) ++
          rest.dropWhile isBlankOrCloser := by
        rw [List.append_assoc, List.cons_append, List.takeWhile_append_dropWhile, ← trimmed]
        exact List.takeWhile_append_dropWhile.symm
      have brackets : ∀ d ∈ line.masked.takeWhile isBlank ++ c :: rest.takeWhile isBlankOrCloser,
          isBlank d = true ∨ isCloser d = true := by
        intro d member
        rcases List.mem_append.mp member with isLead | isBracket
        · exact Or.inl (List.all_eq_true.mp List.all_takeWhile d isLead)
        · rcases List.mem_cons.mp isBracket with rfl | isLater
          · exact Or.inr closes
          · exact Bool.or_eq_true_iff.mp (List.all_eq_true.mp List.all_takeWhile d isLater)
      have someCloser : ∃ d ∈ line.masked.takeWhile isBlank ++ c :: rest.takeWhile isBlankOrCloser,
          isCloser d = true :=
        ⟨c, List.mem_append_right _ List.mem_cons_self, closes⟩
      by_cases marked : (rest.dropWhile isBlankOrCloser).head? = some ';'
      · obtain ⟨blanks, behind⟩ := List.head?_eq_some_iff.mp marked
        rw [if_pos marked, behind] at blankBehind
        rw [behind] at whole
        exact ⟨_, [';'], blanks, whole, brackets, someCloser, Or.inr rfl, blankBehind⟩
      · rw [if_neg marked] at blankBehind
        exact ⟨_, [], _, whole, brackets, someCloser, Or.inl rfl, blankBehind⟩

theorem isCloserOnly_of_isCloserLine {line : Line} (isCloserLine : IsCloserLine line.masked) :
    line.isCloserOnly = true := by
  obtain ⟨brackets, mark, blanks, split, only, some, isMark, blank⟩ := isCloserLine
  obtain ⟨c, rest, trimmed, closes, between⟩ := exists_trimStart_eq only some (mark ++ blanks)
  have skipped : (rest ++ (mark ++ blanks)).dropWhile isBlankOrCloser =
      (mark ++ blanks).dropWhile isBlankOrCloser :=
    List.dropWhile_append_of_pos between
  rw [← split] at trimmed
  rw [isCloserOnly_eq trimmed, closes, Bool.true_and, skipped]
  rcases isMark with rfl | rfl
  · have none : blanks.dropWhile isBlankOrCloser = [] :=
      List.dropWhile_eq_nil_iff.mpr fun d member =>
        Bool.or_eq_true_iff.mpr (Or.inl (Text.isBlank_iff.mp blank d member))
    rw [List.nil_append, none]
    rfl
  · have stops : isBlankOrCloser ';' = false := by decide
    rw [List.singleton_append, List.dropWhile_cons_of_neg (by simp [stops])]
    exact blank

/-- The test for lines of closers accepts just these. -/
theorem isCloserOnly_iff {line : Line} : line.isCloserOnly = true ↔ IsCloserLine line.masked :=
  ⟨isCloserLine_of_isCloserOnly, isCloserOnly_of_isCloserLine⟩

namespace IsCloserLine

variable {line : Text}

theorem exists_mem (isCloserLine : IsCloserLine line) : ∃ c ∈ line, isCloser c = true := by
  obtain ⟨brackets, mark, blanks, rfl, _, ⟨c, member, closes⟩, _⟩ := isCloserLine
  exact ⟨c, List.mem_append_left _ member, closes⟩

/-- A line of closers opens nothing. -/
theorem not_mem_opener (isCloserLine : IsCloserLine line) (kind : BracketKind) : kind.opener ∉ line := by
  obtain ⟨brackets, mark, blanks, rfl, only, _, isMark, blank⟩ := isCloserLine
  have visible : isBlank kind.opener = false := by cases kind <;> decide
  have notMark : kind.opener ≠ ';' := by cases kind <;> decide
  intro member
  rcases List.mem_append.mp member with isBracket | isLater
  · rcases only _ isBracket with isBlankHere | closes
    · exact absurd isBlankHere (Bool.eq_false_iff.mp visible)
    · exact absurd closes (Bool.eq_false_iff.mp (by cases kind <;> rfl))
  · rcases List.mem_append.mp isLater with inMark | inBlanks
    · rcases isMark with rfl | rfl
      · contradiction
      · exact notMark (List.mem_singleton.mp inMark)
    · exact absurd (Text.isBlank_iff.mp blank _ inBlanks) (Bool.eq_false_iff.mp visible)

/-- A line of closers is short of each kind by its closers of that kind. -/
theorem ofKind_eq (isCloserLine : IsCloserLine line) (kind : BracketKind) :
    Excess.ofKind kind line = -(line.count kind.closer : Int) := by
  rw [Excess.ofKind, List.count_eq_zero.mpr (isCloserLine.not_mem_opener kind)]
  simp

/-- A line of closers closes more than it opens of some kind. -/
theorem exists_ofKind_neg (isCloserLine : IsCloserLine line) : ∃ kind, Excess.ofKind kind line < 0 := by
  obtain ⟨c, member, closes⟩ := isCloserLine.exists_mem
  obtain ⟨kind, rfl⟩ : ∃ kind : BracketKind, c = kind.closer := by
    simp only [isCloser, Bool.or_eq_true, beq_iff_eq] at closes
    rcases closes with (rfl | rfl) | rfl
    · exact ⟨.round, rfl⟩
    · exact ⟨.square, rfl⟩
    · exact ⟨.curly, rfl⟩
  refine ⟨kind, ?_⟩
  have some := List.count_pos_iff.mpr member
  rw [isCloserLine.ofKind_eq]
  omega

end IsCloserLine

theorem not_isBlank_of_isCloserOnly {line : Line} (only : line.isCloserOnly = true) :
    line.isBlank = false := by
  obtain ⟨c, member, closes⟩ := (isCloserOnly_iff.mp only).exists_mem
  refine Bool.eq_false_iff.mpr fun blank => ?_
  exact absurd (Text.isBlank_iff.mp blank c member) (Bool.eq_false_iff.mp (Source.visible_of_isCloser closes))

/-! ## Several lines -/

theorem ofKind_append (kind : BracketKind) (first second : Text) :
    Excess.ofKind kind (first ++ second) = Excess.ofKind kind first + Excess.ofKind kind second := by
  rw [Excess.ofKind, Excess.ofKind, Excess.ofKind, List.count_append, List.count_append]
  omega

/-- A balanced word opens as many brackets as it closes. -/
theorem ofKind_of_isBalancedWord {kind : BracketKind} {text : Text}
    (balanced : Source.IsBalancedWord kind text) : Excess.ofKind kind text = 0 := by
  rw [Excess.ofKind, balanced.even, Int.sub_self]

/-- The masked text of some lines. -/
def Line.view (lines : List Line) : Text :=
  Text.join ['\n'] (lines.map Line.masked)

/-- The whole masked text is that of all lines. -/
theorem view_ofSource (text : Text) : Line.view (Line.ofSource text) = Source.mask text := by
  rw [Line.view, map_masked_ofSource, Text.join_split]

theorem of_excess (line : Line) (kind : BracketKind) :
    line.excess.of kind = Excess.ofKind kind line.masked :=
  of_ofText kind line.masked

theorem view_nil (kind : BracketKind) : Excess.ofKind kind (Line.view []) = 0 := by
  cases kind <;> rfl

theorem view_singleton (line : Line) : Line.view [line] = line.masked := by
  simp [Line.view, Text.join]

theorem view_cons_cons (first second : Line) (rest : List Line) :
    Line.view (first :: second :: rest) = first.masked ++ '\n' :: Line.view (second :: rest) := by
  rw [Line.view, List.map_cons, List.map_cons, Text.join_cons_cons]
  rfl

/-- The masked text of some lines is that of one line after the other, but for the line breaks. -/
theorem filter_view {keeps : Char -> Bool} (notBreak : keeps '\n' = false) (lines : List Line) :
    (Line.view lines).filter keeps = (lines.flatMap Line.masked).filter keeps := by
  induction lines with
  | nil => rfl
  | cons line rest inductionHypothesis =>
      rw [List.flatMap_cons, List.filter_append, ← inductionHypothesis]
      cases rest with
      | nil =>
          rw [view_singleton]
          exact (List.append_nil _).symm
      | cons second others =>
          rw [view_cons_cons, List.filter_append, List.filter_cons_of_neg (by simp [notBreak])]

theorem count_view {c : Char} (notBreak : c ≠ '\n') (lines : List Line) :
    (Line.view lines).count c = (lines.flatMap Line.masked).count c := by
  have notKept : ('\n' == c) = false := beq_eq_false_iff_ne.mpr (Ne.symm notBreak)
  rw [List.count_eq_length_filter, List.count_eq_length_filter, @filter_view (· == c) notKept]

/-- Fewer lines show nothing else than all of them. -/
theorem mem_view_of_subset {c : Char} (notBreak : c ≠ '\n') {fewer lines : List Line} (among : fewer ⊆ lines)
    (member : c ∈ Line.view fewer) : c ∈ Line.view lines := by
  rw [← List.count_pos_iff, count_view notBreak, List.count_pos_iff, List.mem_flatMap] at member ⊢
  obtain ⟨line, isLine, shows⟩ := member
  exact ⟨line, among isLine, shows⟩

theorem ofKind_view (kind : BracketKind) (lines : List Line) :
    Excess.ofKind kind (Line.view lines) = Excess.ofKind kind (lines.flatMap Line.masked) := by
  have openers := @count_view kind.opener (by cases kind <;> decide) lines
  have closers := @count_view kind.closer (by cases kind <;> decide) lines
  rw [Excess.ofKind, Excess.ofKind, openers, closers]

theorem ofKind_view_append (kind : BracketKind) (first second : List Line) :
    Excess.ofKind kind (Line.view (first ++ second)) =
      Excess.ofKind kind (Line.view first) + Excess.ofKind kind (Line.view second) := by
  rw [ofKind_view, ofKind_view, ofKind_view, List.flatMap_append, ofKind_append]

theorem ofKind_view_cons (kind : BracketKind) (line : Line) (rest : List Line) :
    Excess.ofKind kind (Line.view (line :: rest)) =
      line.excess.of kind + Excess.ofKind kind (Line.view rest) := by
  rw [ofKind_view, ofKind_view, List.flatMap_cons, ofKind_append, of_excess]

/-- Lines of closers open nothing. -/
theorem ofKind_view_closers_le {lines : List Line} (closers : ∀ line ∈ lines, line.isCloserOnly = true)
    (kind : BracketKind) : Excess.ofKind kind (Line.view lines) ≤ 0 := by
  induction lines with
  | nil => exact Int.le_of_eq (view_nil kind)
  | cons line rest inductionHypothesis =>
      obtain ⟨here, later⟩ := List.forall_mem_cons.mp closers
      have ofLine := (isCloserOnly_iff.mp here).ofKind_eq kind
      have ofRest := inductionHypothesis later
      rw [ofKind_view_cons, of_excess]
      omega

theorem ofKind_view_closers_lt {lines : List Line} (closers : ∀ line ∈ lines, line.isCloserOnly = true)
    {line : Line} (isLine : line ∈ lines) {kind : BracketKind} (closes : kind.closer ∈ line.masked) :
    Excess.ofKind kind (Line.view lines) < 0 := by
  obtain ⟨before, after, rfl⟩ := List.append_of_mem isLine
  have ofBefore := ofKind_view_closers_le (List.forall_mem_append.mp closers).1 kind
  have ofAfter := ofKind_view_closers_le
    (List.forall_mem_cons.mp (List.forall_mem_append.mp closers).2).2 kind
  have ofLine := (isCloserOnly_iff.mp (closers line isLine)).ofKind_eq kind
  have some := List.count_pos_iff.mpr closes
  rw [ofKind_view_append, ofKind_view_cons, of_excess]
  omega

/-- Brackets are counted in some lines whatever their order. -/
theorem ofKind_view_perm (kind : BracketKind) {first second : List Line} (same : first.Perm second) :
    Excess.ofKind kind (Line.view first) = Excess.ofKind kind (Line.view second) := by
  have counts := List.perm_iff_count.mp (same.flatMap_right Line.masked)
  rw [ofKind_view, ofKind_view, Excess.ofKind, Excess.ofKind, counts, counts]

end SceneBundler.Balance
