import Mathlib.Data.List.Flatten
import Mathlib.Data.List.Induction
import SceneBundler.Proofs.Balance.OrphanLine
import SceneBundler.Proofs.Source.Written

/-!
Contract: kinds of bracket that are balanced before lines of closers are removed.

Owns:
- that nothing trimmed from the end holds a closer of a kind of which no closer is in excess;
- that a sweep over a source never comes to be short of a kind that is balanced there, and so takes a line
  only where it is short of another kind;
- that the kind stays balanced just if no line that the sweep takes holds a closer of it.

Does not own: kinds that were not balanced before.
-/

namespace SceneBundler.Balance

open Source (BracketKind IsBalancedWord isBalancedWord_congr)

/-! ## Trimming -/

/-- No line with a closer of a kind goes from the end while no closer of that kind is in excess. -/
theorem Trims.spares {excess : Excess} {lines stay gone : List Line} (trims : Trims excess lines stay gone)
    {kind : BracketKind} (enough : 0 ≤ excess.of kind) : ∀ line ∈ gone, kind.closer ∉ line.masked := by
  induction trims with
  | done => exact nofun
  | pass _ _ inductionHypothesis => exact inductionHypothesis enough
  | @take excess line _ _ _ _ only within _ inductionHypothesis =>
      have counted : line.excess.of kind = -(line.masked.count kind.closer : Int) := by
        rw [of_excess]
        exact (isCloserOnly_iff.mp only).ofKind_eq kind
      have bound := within kind
      have none : line.masked.count kind.closer = 0 := by omega
      refine List.forall_mem_cons.mpr ⟨List.count_eq_zero.mp none, inductionHypothesis ?_⟩
      rw [Excess.of_sub]
      omega

/-! ## Sweeping -/

theorem view_isPrefix (before after : List Line) : Line.view before <+: Line.view (before ++ after) := by
  induction before with
  | nil => exact List.nil_prefix
  | cons line rest inductionHypothesis =>
      cases rest with
      | nil =>
          rw [view_singleton]
          cases after with
          | nil => exact ⟨[], (List.append_nil _).trans (view_singleton line).symm⟩
          | cons second others =>
              rw [List.singleton_append, view_cons_cons]
              exact List.prefix_append ..
      | cons second others =>
          rw [List.cons_append, List.cons_append, view_cons_cons, view_cons_cons]
          exact (List.prefix_append_right_inj _).mpr (List.cons_prefix_cons.mpr ⟨rfl, inductionHypothesis⟩)

/-- What a sweep takes opens nothing, so what it keeps is never shorter of a kind than all lines. -/
theorem Sweep.le_excess_ofLines (lines : List Line) (kind : BracketKind) :
    Excess.ofKind kind (Line.view lines) ≤ (ofLines lines).excess.of kind := by
  have goes := goesOver_ofLines lines
  have parted := goes.parts.ofKind_view kind
  have goneOpensNothing := ofKind_view_closers_le goes.closers kind
  rw [ofKind_view_perm kind (List.reverse_perm lines)] at parted
  rw [excess_ofLines]
  omega

/-- Every line that a sweep takes away was found behind the lines in front of it. -/
theorem Sweep.exists_finds {lines : List Line} {line : Line} (isRemoved : line ∈ (ofLines lines).removed) :
    ∃ before after, lines = before ++ line :: after ∧ (ofLines before).finds line = true := by
  induction lines using List.reverseRecOn with
  | nil => contradiction
  | append_singleton earlier last inductionHypothesis =>
      have stepped : ofLines (earlier ++ [last]) = (ofLines earlier).step last := by
        rw [ofLines, List.foldl_append]
        rfl
      have isEarlier (member : line ∈ (ofLines earlier).removed) :
          ∃ before after, earlier ++ [last] = before ++ line :: after ∧ (ofLines before).finds line = true := by
        obtain ⟨before, after, split, found⟩ := inductionHypothesis member
        exact ⟨before, after ++ [last], by rw [split]; simp, found⟩
      rw [stepped] at isRemoved
      rcases step_cases (ofLines earlier) last with ⟨found, next⟩ | ⟨_, afterStatement, next⟩
      · rw [next] at isRemoved
        rcases List.mem_cons.mp isRemoved with rfl | member
        · exact ⟨earlier, [], rfl, found⟩
        · exact isEarlier member
      · rw [next] at isRemoved
        exact isEarlier isRemoved

theorem Sweep.isShort_of_finds {sweep : Sweep} {line : Line} (found : sweep.finds line = true) :
    (sweep.excess.add line.excess).isShort = true :=
  (Bool.and_eq_true_iff.mp (Bool.and_eq_true_iff.mp found).1).2

section Balanced

variable {kind : BracketKind} {text : Text} (balanced : IsBalancedWord kind (Source.mask text))

include balanced

/-- No beginning of the source closes more of the kind than it opens. -/
theorem ofKind_view_nonneg {before after : List Line} (split : Line.ofSource text = before ++ after) :
    0 ≤ Excess.ofKind kind (Line.view before) := by
  have begins := view_isPrefix before after
  rw [← split, view_ofSource] at begins
  have never := balanced.neverShort (Line.view before).length
  rw [← List.prefix_iff_eq_take.mp begins] at never
  rw [Excess.ofKind]
  omega

/-- The sweep is short of the kind nowhere. -/
theorem excess_ofLines_nonneg {before after : List Line} (split : Line.ofSource text = before ++ after) :
    0 ≤ (Sweep.ofLines before).excess.of kind :=
  Int.le_trans (ofKind_view_nonneg balanced split) (Sweep.le_excess_ofLines before kind)

/-- Every line that the sweep takes goes on account of other kinds than one that is balanced. -/
theorem exists_other_of_mem_removed {line : Line} (isRemoved : line ∈ (swept text).removed) :
    ∃ before after, Line.ofSource text = before ++ line :: after ∧
      0 ≤ ((Sweep.ofLines before).excess.add line.excess).of kind ∧
      ∃ other, other ≠ kind ∧ ((Sweep.ofLines before).excess.add line.excess).of other < 0 := by
  obtain ⟨before, after, split, found⟩ := Sweep.exists_finds isRemoved
  have splitBehind : Line.ofSource text = (before ++ [line]) ++ after := by
    rw [split, List.append_assoc, List.singleton_append]
  have enough : 0 ≤ ((Sweep.ofLines before).excess.add line.excess).of kind := by
    have withLine := ofKind_view_nonneg balanced splitBehind
    have sweptBefore := Sweep.le_excess_ofLines before kind
    rw [ofKind_view_append, ofKind_view_cons, view_nil] at withLine
    rw [Excess.of_add]
    omega
  obtain ⟨other, short⟩ := Excess.isShort_iff.mp (Sweep.isShort_of_finds found)
  refine ⟨before, after, split, enough, other, ?_, short⟩
  rintro rfl
  exact Int.not_lt.mpr enough short

theorem not_mem_of_mem_trailingOrphans {line : Line} (isTrailing : line ∈ trailingOrphans text) :
    kind.closer ∉ line.masked := by
  have enough : 0 ≤ (swept text).excess.of kind :=
    excess_ofLines_nonneg balanced (List.append_nil _).symm
  exact (trims_swept text).spares enough line isTrailing

end Balanced

/-! ## What stays balanced -/

theorem bracketsOf_view (kind : BracketKind) (lines : List Line) :
    kind.bracketsOf (Line.view lines) = lines.flatMap fun line => kind.bracketsOf line.masked := by
  have notBreak : ('\n' == kind.opener || '\n' == kind.closer) = false := by cases kind <;> decide
  rw [BracketKind.bracketsOf, filter_view notBreak, List.filter_flatMap]
  rfl

theorem bracketsOf_eq_nil {line : Text} {kind : BracketKind} (isCloserLine : IsCloserLine line)
    (absent : kind.closer ∉ line) : kind.bracketsOf line = [] := by
  refine List.filter_eq_nil_iff.mpr fun c member isBracket => ?_
  rw [Bool.or_eq_true, beq_iff_eq, beq_iff_eq] at isBracket
  rcases isBracket with rfl | rfl
  · exact isCloserLine.not_mem_opener kind member
  · exact absent member

/-- Where no line that is removed holds a closer of a kind, the brackets of that kind are left. -/
theorem bracketsOf_keptLines {text : Text} {kind : BracketKind}
    (absent : ∀ line ∈ orphanLines text, kind.closer ∉ line.masked) :
    kind.bracketsOf (Line.view (keptLines text)) = kind.bracketsOf (Source.mask text) := by
  have parts := parts_ofSource text
  have none : (orphanLines text).flatMap (fun line => kind.bracketsOf line.masked) = [] :=
    List.flatMap_eq_nil_iff.mpr fun line isOrphan =>
      bracketsOf_eq_nil (isCloserOnly_iff.mp (isCloserOnly_of_mem_orphanLines isOrphan)) (absent line isOrphan)
  have alike := parts.perm.flatMap_right fun line => kind.bracketsOf line.masked
  rw [List.flatMap_append, none, List.append_nil] at alike
  rw [← view_ofSource text, bracketsOf_view, bracketsOf_view]
  exact (parts.sublist.flatMap fun line => kind.bracketsOf line.masked).eq_of_length alike.length_eq

/-- Where a source holds no literals, comments and markup, the text that is left shows what the lines that are
kept have shown. -/
theorem mask_removeOrphanLines_of_plain {text : Text}
    (plain : ∀ c ∈ text, Source.opensLiteral c = false ∧ c ≠ '<') :
    Source.mask (removeOrphanLines text).1 = Line.view (keptLines text) := by
  have isOwn {source : Text} (plainSource : ∀ c ∈ source, Source.opensLiteral c = false ∧ c ≠ '<') :
      Source.mask source = source :=
    Source.mask_eq_self_of_no_less (fun c member => (plainSource c member).1)
      fun isThere => (plainSource '<' isThere).2 rfl
  have sameLines : ∀ line ∈ Line.ofSource text, line.text = line.masked := by
    refine List.map_inj_left.mp ?_
    rw [map_text_ofSource, map_masked_ofSource, isOwn plain]
  have among := (parts_ofSource text).sublist.subset
  have left : (removeOrphanLines text).1 = Line.view (keptLines text) := by
    rw [removeOrphanLines_eq, Line.view,
      List.map_congr_left fun line isKept => sameLines line (among isKept)]
  rw [left]
  refine isOwn fun c member => ?_
  by_cases isBreak : c = '\n'
  · rw [isBreak]
    decide
  · have shown := mem_view_of_subset isBreak among member
    rw [view_ofSource, isOwn plain] at shown
    exact plain c shown

/-- A kind of bracket that is balanced in the masked view of a source is balanced in what this shows of the
lines that are kept just if no line that the sweep takes holds a closer of the kind; and so it is in the masked
view of the text that is left where this shows the same brackets of the kind.  What is trimmed from the end
holds no closer of the kind.  The sweep takes a line only where closers of another kind are in excess with it,
and of this kind none. -/
theorem isBalancedWord_removeOrphanLines_iff {text : Text} {kind : BracketKind}
    (balanced : IsBalancedWord kind (Source.mask text)) :
    (IsBalancedWord kind (Line.view (keptLines text)) ↔
        ∀ line ∈ (swept text).removed, kind.closer ∉ line.masked) ∧
      (kind.bracketsOf (Source.mask (removeOrphanLines text).1) =
          kind.bracketsOf (Line.view (keptLines text)) →
        (IsBalancedWord kind (Source.mask (removeOrphanLines text).1) ↔
          ∀ line ∈ (swept text).removed, kind.closer ∉ line.masked)) ∧
      (∀ line ∈ trailingOrphans text, kind.closer ∉ line.masked) ∧
      ∀ line ∈ (swept text).removed, ∃ before after, Line.ofSource text = before ++ line :: after ∧
        0 ≤ ((Sweep.ofLines before).excess.add line.excess).of kind ∧
        ∃ other, other ≠ kind ∧ ((Sweep.ofLines before).excess.add line.excess).of other < 0 := by
  have trailing : ∀ line ∈ trailingOrphans text, kind.closer ∉ line.masked :=
    fun line member => not_mem_of_mem_trailingOrphans balanced member
  have kept : IsBalancedWord kind (Line.view (keptLines text)) ↔
      ∀ line ∈ (swept text).removed, kind.closer ∉ line.masked := by
    constructor
    · intro stays line isRemoved closes
      have isOrphan : line ∈ orphanLines text := List.mem_append_left _ (List.mem_reverse.mpr isRemoved)
      have parted := (parts_ofSource text).ofKind_view kind
      have taken := ofKind_view_closers_lt (fun _ member => isCloserOnly_of_mem_orphanLines member) isOrphan
        closes
      rw [view_ofSource, ofKind_of_isBalancedWord balanced, ofKind_of_isBalancedWord stays] at parted
      omega
    · intro absent
      refine (isBalancedWord_congr (bracketsOf_keptLines fun line isOrphan => ?_)).mpr balanced
      rcases List.mem_append.mp isOrphan with isSwept | isTrailing
      · exact absent line (List.mem_reverse.mp isSwept)
      · exact trailing line (List.mem_reverse.mp isTrailing)
  refine ⟨kept, fun shown => ?_, trailing, fun line isRemoved => ?_⟩
  · rw [isBalancedWord_congr shown]
    exact kept
  · exact exists_other_of_mem_removed balanced isRemoved

/-- A round bracket is taken from a function; its braces stay as they are. -/
theorem isBalancedWord_removeOrphanLines_strayRound :
    IsBalancedWord .curly (Source.mask "function App() \x7b\n  start();\n  )\n\x7d\n".toList) ∧
      IsBalancedWord .curly (Source.mask
        (removeOrphanLines "function App() \x7b\n  start();\n  )\n\x7d\n".toList).1) := by
  have balanced : IsBalancedWord .curly
      (Source.mask "function App() \x7b\n  start();\n  )\n\x7d\n".toList) :=
    Source.isBalanced_iff.mp (by decide +kernel)
  have plain : ∀ c ∈ "function App() \x7b\n  start();\n  )\n\x7d\n".toList,
      Source.opensLiteral c = false ∧ c ≠ '<' := by
    intro c member
    have every : ("function App() \x7b\n  start();\n  )\n\x7d\n".toList.all
        fun c => !Source.opensLiteral c && c != '<') = true := by decide +kernel
    simpa using List.all_eq_true.mp every c member
  have shown := mask_removeOrphanLines_of_plain plain
  have spared := ((isBalancedWord_removeOrphanLines_iff balanced).2.1 (by rw [shown])).mpr (by decide +kernel)
  exact ⟨balanced, spared⟩

/-- The sweep takes the brace that closes a function, on account of the round bracket behind it. -/
theorem not_isBalancedWord_removeOrphanLines_strayCall :
    IsBalancedWord .curly (Source.mask "function App() \x7b\n  start();\n\x7d);\n".toList) ∧
      ¬IsBalancedWord .curly (Source.mask
        (removeOrphanLines "function App() \x7b\n  start();\n\x7d);\n".toList).1) := by
  rw [← Source.isBalanced_iff, ← Source.isBalanced_iff]
  decide +kernel

end SceneBundler.Balance
