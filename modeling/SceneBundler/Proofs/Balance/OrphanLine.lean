import Mathlib.Data.List.Nodup
import Mathlib.Data.List.Perm.Basic
import SceneBundler.Proofs.Balance.CloserLine

/-!
Contract: which lines the removal of orphans takes away, and which it keeps.

Owns:
- what a sweep does with one line, and that it parts any lines into those that stay and those that go;
- the steps by which lines are trimmed from the end;
- that the text that is left is the source without just the lines that are reported, which are lines of
  closers and distinct;
- that trimming takes a line only while closers of some kind are in excess and openers of none, and never
  brings openers into excess;
- that a repair takes all lines of closers away that stand behind a balanced source, and nothing else,
  whichever of them the sweep finds.

Does not own: what is balanced afterwards where lines of closers stand between other lines.
-/

namespace SceneBundler.Balance

open Source (BracketKind isCloser)

/-! ## Lines that stay and lines that go -/

/-- Some lines are parted into those that stay, in their order, and those that go. -/
structure Parts (lines stay gone : List Line) : Prop where
  sublist : stay.Sublist lines
  perm : (stay ++ gone).Perm lines

namespace Parts

variable {lines stay gone : List Line}

theorem whole (lines : List Line) : Parts lines lines [] where
  sublist := List.Sublist.refl lines
  perm := List.Perm.of_eq (List.append_nil lines)

theorem none (lines : List Line) : Parts lines [] lines where
  sublist := List.nil_sublist lines
  perm := List.Perm.refl lines

theorem append {others othersStay othersGone : List Line} (first : Parts lines stay gone)
    (second : Parts others othersStay othersGone) :
    Parts (lines ++ others) (stay ++ othersStay) (gone ++ othersGone) where
  sublist := first.sublist.append second.sublist
  perm := by
    refine List.perm_iff_count.mpr fun line => ?_
    have countFirst := List.perm_iff_count.mp first.perm line
    have countSecond := List.perm_iff_count.mp second.perm line
    simp only [List.count_append] at countFirst countSecond ⊢
    omega

/-- What stays is parted further. -/
theorem trans {stayLonger goneLater : List Line} (first : Parts lines stay gone)
    (second : Parts stay stayLonger goneLater) : Parts lines stayLonger (goneLater ++ gone) where
  sublist := second.sublist.trans first.sublist
  perm := by
    rw [← List.append_assoc]
    exact (second.perm.append_right gone).trans first.perm

theorem reverse (parts : Parts lines stay gone) : Parts lines.reverse stay.reverse gone.reverse where
  sublist := parts.sublist.reverse
  perm := by
    refine List.perm_iff_count.mpr fun line => ?_
    have counts := List.perm_iff_count.mp parts.perm line
    simp only [List.count_append, List.count_reverse] at counts ⊢
    exact counts

theorem mem_of_mem_gone (parts : Parts lines stay gone) {line : Line} (member : line ∈ gone) :
    line ∈ lines :=
  parts.perm.subset (List.mem_append_right stay member)

theorem nodup_gone (parts : Parts lines stay gone) (distinct : lines.Nodup) : gone.Nodup :=
  (List.nodup_append.mp (parts.perm.nodup_iff.mpr distinct)).2.1

/-- Among distinct lines those stay that do not go. -/
theorem stay_eq_filter (parts : Parts lines stay gone) (distinct : lines.Nodup) :
    stay = lines.filter (fun line => !gone.contains line) := by
  have apart := (List.nodup_append.mp (parts.perm.nodup_iff.mpr distinct)).2.2
  have stays : stay.filter (fun line => !gone.contains line) = stay := by
    refine List.filter_eq_self.mpr fun line member => ?_
    rw [Bool.not_eq_true', List.contains_eq_mem, decide_eq_false_iff_not]
    exact fun isGone => apart line member line isGone rfl
  have goes : gone.filter (fun line => !gone.contains line) = [] := by
    refine List.filter_eq_nil_iff.mpr fun line member => ?_
    simp [member]
  have inOrder := parts.sublist.filter (fun line => !gone.contains line)
  have alike := parts.perm.filter (fun line => !gone.contains line)
  rw [stays] at inOrder
  rw [List.filter_append, stays, goes, List.append_nil] at alike
  exact inOrder.eq_of_length alike.length_eq

/-- Distinct lines are parted into some distinct ones of them that go, and the others. -/
theorem of_subset (distinct : lines.Nodup) (distinctGone : gone.Nodup) (among : gone ⊆ lines) :
    Parts lines (lines.filter fun line => !gone.contains line) gone where
  sublist := List.filter_sublist
  perm := by
    have goes : (lines.filter fun line => gone.contains line).Perm gone := by
      refine (List.perm_ext_iff_of_nodup (distinct.filter _) distinctGone).mpr fun line => ?_
      rw [List.mem_filter, List.contains_eq_mem, decide_eq_true_eq]
      exact and_iff_right_of_imp fun isGone => among isGone
    refine List.Perm.trans List.perm_append_comm ?_
    exact (goes.symm.append_right _).trans (List.filter_append_perm (fun line => gone.contains line) lines)

/-- The brackets of what stays and of what goes are together those of all lines. -/
theorem ofKind_view (parts : Parts lines stay gone) (kind : BracketKind) :
    Excess.ofKind kind (Line.view stay) + Excess.ofKind kind (Line.view gone) =
      Excess.ofKind kind (Line.view lines) := by
  rw [← ofKind_view_append]
  exact ofKind_view_perm kind parts.perm

end Parts

/-! ## Lines of a source -/

theorem map_number_ofSource (text : Text) :
    (Line.ofSource text).map Line.number = List.range (Text.split '\n' text).length := by
  have length : ((Text.split '\n' (Source.mask text)).zip (Text.split '\n' text)).length =
      (Text.split '\n' text).length := by
    rw [List.length_zip, length_split_mask, Nat.min_self]
  rw [Line.ofSource, List.map_map]
  change List.map Prod.snd _ = _
  rw [List.zipIdx_map_snd, length, List.range_eq_range']

theorem nodup_ofSource (text : Text) : (Line.ofSource text).Nodup := by
  refine List.Nodup.of_map Line.number ?_
  rw [map_number_ofSource]
  exact List.nodup_range

theorem length_ofSource (text : Text) : (Line.ofSource text).length = (Text.split '\n' text).length := by
  rw [← List.length_map Line.text, map_text_ofSource]

/-- A line of a source has the number of its place, and its masked form is the line of the masked source
there. -/
theorem getElem?_of_mem_ofSource {text : Text} {line : Line} (member : line ∈ Line.ofSource text) :
    line.number < (Text.split '\n' text).length ∧
      (Text.split '\n' (Source.mask text))[line.number]? = some line.masked := by
  obtain ⟨place, isThere⟩ := List.mem_iff_getElem?.mp member
  have inside := (List.getElem?_eq_some_iff.mp isThere).1
  rw [length_ofSource] at inside
  have number := congrArg (Option.map Line.number) isThere
  rw [← List.getElem?_map, map_number_ofSource, List.getElem?_range inside, Option.map_some] at number
  have masked := congrArg (Option.map Line.masked) isThere
  rw [← List.getElem?_map, map_masked_ofSource, Option.map_some] at masked
  rw [← Option.some.inj number]
  exact ⟨inside, masked⟩

theorem eq_of_number_eq {text : Text} {first second : Line} (isFirst : first ∈ Line.ofSource text)
    (isSecond : second ∈ Line.ofSource text) (same : first.number = second.number) : first = second := by
  have distinct : ((Line.ofSource text).map Line.number).Nodup := by
    rw [map_number_ofSource]
    exact List.nodup_range
  exact List.inj_on_of_nodup_map distinct isFirst isSecond same

/-! ## Sweeping -/

namespace Sweep

/-- A sweep keeps a line, or takes it away as an orphan. -/
theorem step_cases (sweep : Sweep) (line : Line) :
    (sweep.finds line = true ∧ sweep.step line = { sweep with removed := line :: sweep.removed }) ∨
    (sweep.finds line = false ∧ ∃ afterStatement, sweep.step line =
      ⟨sweep.excess.add line.excess, afterStatement, line :: sweep.kept, sweep.removed⟩) := by
  rw [step]
  cases sweep.finds line with
  | true => exact Or.inl ⟨rfl, rfl⟩
  | false => exact Or.inr ⟨rfl, _, rfl⟩

theorem isCloserOnly_of_finds {sweep : Sweep} {line : Line} (found : sweep.finds line = true) :
    line.isCloserOnly = true :=
  (Bool.and_eq_true_iff.mp (Bool.and_eq_true_iff.mp found).1).1

/-- What a sweep makes of further lines: it parts them, and counts the brackets of those that stay. -/
structure GoesOver (sweep : Sweep) (lines stay gone : List Line) (after : Sweep) : Prop where
  kept : after.kept = stay ++ sweep.kept
  removed : after.removed = gone ++ sweep.removed
  parts : Parts lines.reverse stay gone
  excess : ∀ kind, after.excess.of kind = sweep.excess.of kind + Excess.ofKind kind (Line.view stay)
  closers : ∀ line ∈ gone, line.isCloserOnly = true

theorem GoesOver.none (sweep : Sweep) : GoesOver sweep [] [] [] sweep where
  kept := rfl
  removed := rfl
  parts := Parts.whole []
  excess := fun kind => by rw [view_nil, Int.add_zero]
  closers := nofun

theorem goesOver_step (sweep : Sweep) (line : Line) :
    ∃ stay gone, GoesOver sweep [line] stay gone (sweep.step line) := by
  rcases step_cases sweep line with ⟨found, stepped⟩ | ⟨_, afterStatement, stepped⟩
  · refine ⟨[], [line], ?_⟩
    rw [stepped]
    refine ⟨rfl, rfl, Parts.none [line], fun kind => ?_, ?_⟩
    · rw [view_nil, Int.add_zero]
    · exact List.forall_mem_singleton.mpr (isCloserOnly_of_finds found)
  · refine ⟨[line], [], ?_⟩
    rw [stepped]
    refine ⟨rfl, rfl, Parts.whole [line], fun kind => ?_, nofun⟩
    rw [ofKind_view_cons, view_nil, Int.add_zero]
    exact Excess.of_add ..

theorem GoesOver.trans {sweep middle after : Sweep} {lines stay gone others othersStay othersGone : List Line}
    (first : GoesOver sweep lines stay gone middle) (second : GoesOver middle others othersStay othersGone after) :
    GoesOver sweep (lines ++ others) (othersStay ++ stay) (othersGone ++ gone) after where
  kept := by rw [second.kept, first.kept, List.append_assoc]
  removed := by rw [second.removed, first.removed, List.append_assoc]
  parts := by
    rw [List.reverse_append]
    exact second.parts.append first.parts
  excess := fun kind => by
    rw [second.excess, first.excess, ofKind_view_append]
    omega
  closers := fun line member =>
    (List.mem_append.mp member).elim (second.closers line) (first.closers line)

/-- A sweep over any lines parts them. -/
theorem exists_goesOver (sweep : Sweep) (lines : List Line) :
    ∃ stay gone, GoesOver sweep lines stay gone (lines.foldl step sweep) := by
  induction lines generalizing sweep with
  | nil => exact ⟨[], [], GoesOver.none sweep⟩
  | cons line rest inductionHypothesis =>
      obtain ⟨stay, gone, stepped⟩ := goesOver_step sweep line
      obtain ⟨restStay, restGone, rested⟩ := inductionHypothesis (sweep.step line)
      exact ⟨_, _, stepped.trans rested⟩

/-- A sweep over all lines parts them, and counts the brackets of those that stay. -/
theorem goesOver_ofLines (lines : List Line) :
    GoesOver initial lines (ofLines lines).kept (ofLines lines).removed (ofLines lines) := by
  obtain ⟨stay, gone, goes⟩ := exists_goesOver initial lines
  have kept : (ofLines lines).kept = stay := goes.kept.trans (List.append_nil stay)
  have removed : (ofLines lines).removed = gone := goes.removed.trans (List.append_nil gone)
  rw [kept, removed]
  exact goes

theorem excess_ofLines (lines : List Line) (kind : BracketKind) :
    (ofLines lines).excess.of kind = Excess.ofKind kind (Line.view (ofLines lines).kept) := by
  have counted := (goesOver_ofLines lines).excess kind
  have nothing : initial.excess.of kind = 0 := by cases kind <;> rfl
  rwa [nothing, Int.zero_add] at counted

end Sweep

/-! ## Trimming -/

theorem Excess.of_sub (whole part : Excess) (kind : BracketKind) :
    (whole.sub part).of kind = whole.of kind - part.of kind := by
  cases kind <;> rfl

theorem Excess.isShort_iff {excess : Excess} : excess.isShort = true ↔ ∃ kind, excess.of kind < 0 := by
  simp only [isShort, Bool.or_eq_true, decide_eq_true_eq]
  constructor
  · rintro ((round | square) | curly)
    · exact ⟨.round, round⟩
    · exact ⟨.square, square⟩
    · exact ⟨.curly, curly⟩
  · rintro ⟨kind, short⟩
    cases kind with
    | round => exact Or.inl (Or.inl short)
    | square => exact Or.inl (Or.inr short)
    | curly => exact Or.inr short

theorem Excess.isBelow_eq_false_iff {first second : Excess} :
    first.isBelow second = false ↔ ∀ kind, second.of kind ≤ first.of kind := by
  simp only [isBelow, Bool.or_eq_false_iff, decide_eq_false_iff_not, Int.not_lt]
  constructor
  · rintro ⟨⟨round, square⟩, curly⟩ kind
    cases kind with
    | round => exact round
    | square => exact square
    | curly => exact curly
  · intro every
    exact ⟨⟨every .round, every .square⟩, every .curly⟩

/-- The steps by which lines, latest first, are trimmed while closers are in excess: blank lines are passed,
and a line of closers goes that closes no more of any kind than is in excess. -/
inductive Trims : Excess -> (lines stay gone : List Line) -> Prop where
  | done {excess : Excess} {lines : List Line} : Trims excess lines lines []
  | pass {excess : Excess} {line : Line} {earlier stay gone : List Line} (blank : line.isBlank = true)
      (rest : Trims excess earlier stay gone) : Trims excess (line :: earlier) (line :: stay) gone
  | take {excess : Excess} {line : Line} {earlier stay gone : List Line} (short : excess.isShort = true)
      (only : line.isCloserOnly = true) (within : ∀ kind, excess.of kind ≤ line.excess.of kind)
      (rest : Trims (excess.sub line.excess) earlier stay gone) :
      Trims excess (line :: earlier) stay (line :: gone)

/-- Lines at the end are trimmed by these steps. -/
theorem trims_trimTrailing (excess : Excess) (lines : List Line) :
    Trims excess lines (trimTrailing excess lines).1 (trimTrailing excess lines).2 := by
  induction lines generalizing excess with
  | nil => exact .done
  | cons line earlier inductionHypothesis =>
      rw [trimTrailing]
      cases short : excess.isShort with
      | false => exact .done
      | true =>
          cases blank : line.isBlank with
          | true => exact .pass blank (inductionHypothesis excess)
          | false =>
              cases only : line.isCloserOnly with
              | false => exact .done
              | true =>
                  cases below : line.excess.isBelow excess with
                  | true => exact .done
                  | false =>
                      exact .take short only (Excess.isBelow_eq_false_iff.mp below)
                        (inductionHypothesis (excess.sub line.excess))

namespace Trims

variable {excess : Excess} {lines stay gone : List Line}

theorem parts (trims : Trims excess lines stay gone) : Parts lines stay gone := by
  induction trims with
  | done => exact Parts.whole _
  | @pass _ line _ _ _ _ _ inductionHypothesis => exact (Parts.whole [line]).append inductionHypothesis
  | @take _ line _ _ _ _ _ _ _ inductionHypothesis => exact (Parts.none [line]).append inductionHypothesis

theorem closers (trims : Trims excess lines stay gone) : ∀ line ∈ gone, line.isCloserOnly = true := by
  induction trims with
  | done => exact nofun
  | pass _ _ inductionHypothesis => exact inductionHypothesis
  | take _ only _ _ inductionHypothesis => exact List.forall_mem_cons.mpr ⟨only, inductionHypothesis⟩

/-- Wherever a line goes, closers of some kind are in excess and openers of none, and so they are without
it. -/
theorem within (trims : Trims excess lines stay gone) {before after : List Line} {line : Line}
    (split : gone = before ++ line :: after) :
    (∃ kind, excess.of kind - Excess.ofKind kind (Line.view before) < 0) ∧
      (∀ kind, excess.of kind - Excess.ofKind kind (Line.view before) ≤ 0) ∧
      ∀ kind, excess.of kind - Excess.ofKind kind (Line.view (before ++ [line])) ≤ 0 := by
  induction trims generalizing before with
  | done => simp at split
  | pass _ _ inductionHypothesis => exact inductionHypothesis split
  | @take excess first _ _ _ short only bound _ inductionHypothesis =>
      cases before with
      | nil =>
          obtain ⟨rfl, _⟩ := List.cons.inj split
          have closes (kind : BracketKind) : first.excess.of kind ≤ 0 := by
            have := (isCloserOnly_iff.mp only).ofKind_eq kind
            rw [of_excess]
            omega
          obtain ⟨kind, isShort⟩ := Excess.isShort_iff.mp short
          refine ⟨⟨kind, ?_⟩, fun kind => ?_, fun kind => ?_⟩
          · rwa [view_nil, Int.sub_zero]
          · have := bound kind
            have := closes kind
            rw [view_nil]
            omega
          · have := bound kind
            rw [List.nil_append, ofKind_view_cons, view_nil]
            omega
      | cons second others =>
          obtain ⟨rfl, splitRest⟩ := List.cons.inj split
          have later (kind : BracketKind) (taken : List Line) :
              (excess.sub first.excess).of kind - Excess.ofKind kind (Line.view taken) =
                excess.of kind - Excess.ofKind kind (Line.view (first :: taken)) := by
            rw [Excess.of_sub, ofKind_view_cons]
            omega
          have rested := inductionHypothesis splitRest
          simp only [later] at rested
          exact rested

end Trims

/-! ## What is removed -/

/-- The sweep over the lines of a source. -/
def swept (text : Text) : Sweep :=
  Sweep.ofLines (Line.ofSource text)

/-- The lines that are trimmed from the end of what a sweep keeps, in the order in which they go. -/
def trailingOrphans (text : Text) : List Line :=
  (trimTrailing (swept text).excess (swept text).kept).2

/-- The lines of a source that are removed, in the order in which they are reported. -/
def orphanLines (text : Text) : List Line :=
  (swept text).removed.reverse ++ (trailingOrphans text).reverse

/-- The lines of a source that are kept. -/
def keptLines (text : Text) : List Line :=
  (trimTrailing (swept text).excess (swept text).kept).1.reverse

theorem removeOrphanLines_eq (text : Text) :
    removeOrphanLines text = (Text.join ['\n'] ((keptLines text).map Line.text),
      (swept text).removed.reverse.map (orphanRemoved "Removed orphaned ") ++
        (trailingOrphans text).reverse.map (orphanRemoved "Removed trailing orphaned ")) :=
  rfl

/-- The reports are on the lines that are removed. -/
theorem map_line_removeOrphanLines (text : Text) :
    (removeOrphanLines text).2.map Diagnostic.line =
      (orphanLines text).map fun line => some (Int.ofNat (line.number + 1)) := by
  rw [removeOrphanLines_eq, orphanLines, List.map_append, List.map_append, List.map_map, List.map_map]
  rfl

theorem parts_swept (text : Text) :
    Parts (Line.ofSource text).reverse (swept text).kept (swept text).removed :=
  (Sweep.goesOver_ofLines _).parts

theorem trims_swept (text : Text) :
    Trims (swept text).excess (swept text).kept (keptLines text).reverse (trailingOrphans text) := by
  rw [keptLines, List.reverse_reverse]
  exact trims_trimTrailing ..

/-- The lines of a source are parted into those that are kept and those that are removed. -/
theorem parts_ofSource (text : Text) : Parts (Line.ofSource text) (keptLines text) (orphanLines text) := by
  have parts := ((parts_swept text).trans (trims_swept text).parts).reverse
  rwa [List.reverse_reverse, List.reverse_reverse, List.reverse_append] at parts

theorem isCloserOnly_of_mem_orphanLines {text : Text} {line : Line} (member : line ∈ orphanLines text) :
    line.isCloserOnly = true := by
  rcases List.mem_append.mp member with isSwept | isTrailing
  · exact (Sweep.goesOver_ofLines _).closers line (List.mem_reverse.mp isSwept)
  · exact (trims_swept text).closers line (List.mem_reverse.mp isTrailing)

/-- The lines of a text without those with some numbers; lines are numbered from one on. -/
def withoutLines (numbers : List Nat) (lines : List Text) : List Text :=
  ((lines.zipIdx 1).filter fun line => !numbers.contains line.2).map Prod.fst

theorem map_numbered_ofSource (text : Text) :
    (Line.ofSource text).map (fun line => (line.text, line.number + 1)) =
      (Text.split '\n' text).zipIdx 1 := by
  have numbers : (Line.ofSource text).map (fun line => line.number + 1) =
      List.range' 1 (Text.split '\n' text).length := by
    have shifted := congrArg (List.map (· + 1)) (map_number_ofSource text)
    rw [List.map_map] at shifted
    rw [List.range'_eq_map_range]
    simpa [Function.comp_def, Nat.add_comm] using shifted
  rw [List.zipIdx_eq_zip_range', ← numbers, ← map_text_ofSource, List.zip_map']

/-- The text that is left is that of the lines with other numbers than the removed ones. -/
theorem map_text_keptLines (text : Text) :
    (keptLines text).map Line.text =
      withoutLines ((orphanLines text).map fun line => line.number + 1) (Text.split '\n' text) := by
  have parts := parts_ofSource text
  have sameLines : (Line.ofSource text).filter (fun line => !(orphanLines text).contains line) =
      (Line.ofSource text).filter
        (fun line => !((orphanLines text).map fun other => other.number + 1).contains (line.number + 1)) := by
    refine List.filter_congr fun line isLine => congrArg Bool.not (Bool.eq_iff_iff.mpr ?_)
    rw [List.contains_iff_mem, List.contains_iff_mem, List.mem_map]
    constructor
    · exact fun isOrphan => ⟨line, isOrphan, rfl⟩
    · rintro ⟨other, isOrphan, same⟩
      rwa [eq_of_number_eq isLine (parts.mem_of_mem_gone isOrphan) (Nat.succ.inj same).symm]
  rw [parts.stay_eq_filter (nodup_ofSource text), sameLines, withoutLines, ← map_numbered_ofSource,
    List.filter_map, List.map_map]
  rfl

/-- The masked text of the lines that a sweep keeps, without some of them. -/
def leftWithout (text : Text) (gone : List Line) : Text :=
  Line.view ((swept text).kept.reverse.filter fun line => !gone.contains line)

/-- The brackets that are left without the lines that were trimmed so far. -/
theorem ofKind_leftWithout {text : Text} {gone others : List Line}
    (isFirst : trailingOrphans text = gone ++ others) (kind : BracketKind) :
    Excess.ofKind kind (leftWithout text gone) =
      (swept text).excess.of kind - Excess.ofKind kind (Line.view gone) := by
  have distinctKept : (swept text).kept.Nodup :=
    (parts_swept text).sublist.nodup (List.nodup_reverse.mpr (nodup_ofSource text))
  have trimmed := (trims_swept text).parts
  have distinct : gone.Nodup := by
    have all := trimmed.nodup_gone distinctKept
    rw [isFirst] at all
    exact (List.nodup_append.mp all).1
  have among : gone ⊆ (swept text).kept.reverse := by
    intro line member
    refine List.mem_reverse.mpr (trimmed.mem_of_mem_gone ?_)
    rw [isFirst]
    exact List.mem_append_left others member
  have whole := (Parts.of_subset (List.nodup_reverse.mpr distinctKept) distinct among).ofKind_view kind
  have counted : (swept text).excess.of kind = Excess.ofKind kind (Line.view (swept text).kept) :=
    Sweep.excess_ofLines _ kind
  rw [ofKind_view_perm kind (List.reverse_perm _), ← counted] at whole
  rw [leftWithout, ← whole]
  omega

/-- The removal of orphans leaves just the lines of a source that it does not report.  The numbers that it
reports are distinct, and those of lines of closers.  Whenever a line is trimmed from the end, closers of some
kind are in excess in what is left, and openers of no kind, neither then nor without the line. -/
theorem removeOrphanLines_removes_reported (text : Text) :
    ∃ numbers : List Nat,
      (removeOrphanLines text).2.map Diagnostic.line =
        numbers.map (fun number => some (Int.ofNat number)) ∧
      (∀ finding ∈ (removeOrphanLines text).2, finding.code = "orphan_closer_removed".toList) ∧
      (removeOrphanLines text).1 = Text.join ['\n'] (withoutLines numbers (Text.split '\n' text)) ∧
      numbers.Nodup ∧
      (∀ number ∈ numbers, 1 ≤ number ∧ number ≤ (Text.split '\n' text).length ∧
        ∃ masked, (Text.split '\n' (Source.mask text))[number - 1]? = some masked ∧ IsCloserLine masked) ∧
      ∀ before line after, trailingOrphans text = before ++ line :: after →
        (∃ kind, Excess.ofKind kind (leftWithout text before) < 0) ∧
          (∀ kind, Excess.ofKind kind (leftWithout text before) ≤ 0) ∧
          ∀ kind, Excess.ofKind kind (leftWithout text (before ++ [line])) ≤ 0 := by
  have parts := parts_ofSource text
  refine ⟨(orphanLines text).map fun line => line.number + 1, ?_, ?_, ?_, ?_, ?_, ?_⟩
  · rw [map_line_removeOrphanLines, List.map_map]
    rfl
  · exact fun finding member => code_of_mem_removeOrphanLines member
  · rw [removeOrphanLines_eq, map_text_keptLines]
  · refine List.Nodup.map_on ?_ (parts.nodup_gone (nodup_ofSource text))
    intro first isFirst second isSecond same
    exact eq_of_number_eq (parts.mem_of_mem_gone isFirst) (parts.mem_of_mem_gone isSecond) (Nat.succ.inj same)
  · intro number member
    obtain ⟨line, isOrphan, rfl⟩ := List.mem_map.mp member
    obtain ⟨inside, isThere⟩ := getElem?_of_mem_ofSource (parts.mem_of_mem_gone isOrphan)
    exact ⟨Nat.succ_pos _, inside, line.masked, isThere,
      isCloserOnly_iff.mp (isCloserOnly_of_mem_orphanLines isOrphan)⟩
  · intro before line after split
    have splitBehind : trailingOrphans text = (before ++ [line]) ++ after := by
      rw [split, List.append_assoc, List.singleton_append]
    simp only [ofKind_leftWithout split, ofKind_leftWithout splitBehind]
    exact (trims_swept text).within split

/-! ## Trimming all of them -/

/-- Where just the brackets of some lines of closers are in excess, these lines are trimmed from the end and
no other. -/
theorem trimTrailing_closers {excess : Excess} {orphans earlier : List Line}
    (closers : ∀ line ∈ orphans, line.isCloserOnly = true)
    (counted : ∀ kind, excess.of kind = Excess.ofKind kind (Line.view orphans)) :
    trimTrailing excess (orphans ++ earlier) = (earlier, orphans) := by
  induction orphans generalizing excess with
  | nil =>
      refine trimTrailing_of_enough (Excess.isShort_eq_false fun kind => ?_) earlier
      exact Int.le_of_eq ((counted kind).trans (view_nil kind)).symm
  | cons line rest inductionHypothesis =>
      obtain ⟨only, onlyRest⟩ := List.forall_mem_cons.mp closers
      have parts (kind : BracketKind) :
          excess.of kind = line.excess.of kind + Excess.ofKind kind (Line.view rest) := by
        rw [counted, ofKind_view_cons]
      have short : excess.isShort = true := by
        obtain ⟨kind, closes⟩ := (isCloserOnly_iff.mp only).exists_ofKind_neg
        have ofRest := ofKind_view_closers_le onlyRest kind
        rw [← of_excess] at closes
        refine Excess.isShort_iff.mpr ⟨kind, ?_⟩
        rw [parts]
        omega
      have notBelow : line.excess.isBelow excess = false := by
        refine Excess.isBelow_eq_false_iff.mpr fun kind => ?_
        have ofRest := ofKind_view_closers_le onlyRest kind
        rw [parts]
        omega
      have rested : trimTrailing (excess.sub line.excess) (rest ++ earlier) = (earlier, rest) := by
        refine inductionHypothesis onlyRest fun kind => ?_
        rw [Excess.of_sub, parts]
        omega
      rw [List.cons_append, trimTrailing, short, not_isBlank_of_isCloserOnly only, only, notBelow, rested]
      rfl

/-! ## Behind a balanced source -/

/-- The lines of a source with other lines behind it that the masked view shows. -/
theorem exists_ofSource_join {source : Text} {orphans : List Text} (oneLine : ∀ line ∈ orphans, '\n' ∉ line)
    (shown : Source.mask (Text.join ['\n'] (source :: orphans)) =
      Text.join ['\n'] (Source.mask source :: orphans)) :
    ∃ lines others, Line.ofSource (Text.join ['\n'] (source :: orphans)) = lines ++ others ∧
      lines.map Line.text = Text.split '\n' source ∧ Line.view lines = Source.mask source ∧
      others.map Line.masked = orphans ∧
      others.map Line.number = List.range' (Text.split '\n' source).length orphans.length := by
  have texts := map_text_ofSource (Text.join ['\n'] (source :: orphans))
  have views := map_masked_ofSource (Text.join ['\n'] (source :: orphans))
  have numbers := map_number_ofSource (Text.join ['\n'] (source :: orphans))
  rw [Text.split_join_cons oneLine] at texts numbers
  rw [shown, Text.split_join_cons oneLine] at views
  have length := length_split_mask source
  refine ⟨(Line.ofSource (Text.join ['\n'] (source :: orphans))).take (Text.split '\n' source).length,
    (Line.ofSource (Text.join ['\n'] (source :: orphans))).drop (Text.split '\n' source).length,
    (List.take_append_drop _ _).symm, ?_, ?_, ?_, ?_⟩
  · rw [List.map_take, texts, List.take_left]
  · rw [Line.view, List.map_take, views, ← length, List.take_left, Text.join_split]
  · rw [List.map_drop, views, ← length, List.drop_left]
  · rw [List.map_drop, numbers, List.length_append, List.range_eq_range', List.drop_range']
    simp

/-- Of the lines of a balanced source and lines of closers behind them just the former are kept: whichever
closers the sweep finds, the others are what is in excess at the end. -/
theorem keptLines_of_split {text source : Text} {lines others : List Line} (balanced : describe source = [])
    (split : Line.ofSource text = lines ++ others) (view : Line.view lines = Source.mask source)
    (closers : ∀ line ∈ others, line.isCloserOnly = true) : keptLines text = lines := by
  obtain ⟨keptSource, _, _⟩ := Sweep.ofLines_of_balanced balanced view
  have even (kind : BracketKind) : (Sweep.ofLines lines).excess.of kind = 0 := by
    rw [Sweep.excess_ofLines, keptSource, ofKind_view_perm kind (List.reverse_perm lines), view]
    exact ofKind_of_isBalancedWord (((balanced_iff_describe_eq_nil source).1.mp balanced).1 kind)
  obtain ⟨stay, gone, goes⟩ := (Sweep.ofLines lines).exists_goesOver others
  have wholeSwept : swept text = others.foldl Sweep.step (Sweep.ofLines lines) := by
    rw [swept, split]
    exact List.foldl_append
  have trimmed : trimTrailing (swept text).excess (swept text).kept = (lines.reverse, stay) := by
    rw [wholeSwept, goes.kept, keptSource]
    refine trimTrailing_closers (fun line member => ?_) fun kind => ?_
    · exact closers line (List.mem_reverse.mp (goes.parts.sublist.subset member))
    · rw [goes.excess, even, Int.zero_add]
  rw [keptLines, trimmed, List.reverse_reverse]

/-- Lines of closers behind a balanced source, which the masked view shows as they are and which leave the view
of the source as it is, are all removed by a repair, and nothing else: the source is left, with one report on
each of these lines, a warning, and no other report. -/
theorem repair_append_closerLines {source : Text} {orphans : List Text} (balanced : describe source = [])
    (areClosers : ∀ line ∈ orphans, IsCloserLine line ∧ '\n' ∉ line)
    (shown : Source.mask (Text.join ['\n'] (source :: orphans)) =
      Text.join ['\n'] (Source.mask source :: orphans)) :
    ∃ findings, repair (Text.join ['\n'] (source :: orphans)) = (source, findings) ∧
      findings.length = orphans.length ∧
      (findings.map Diagnostic.line).Perm
        ((List.range' (Text.split '\n' source).length orphans.length).map
          fun number => some (Int.ofNat (number + 1))) ∧
      ∀ finding ∈ findings, finding.code = "orphan_closer_removed".toList ∧ finding.severity = .warning := by
  obtain ⟨lines, others, split, texts, view, masked, numbers⟩ :=
    exists_ofSource_join (fun line member => (areClosers line member).2) shown
  have closers : ∀ line ∈ others, line.isCloserOnly = true := by
    intro line member
    refine isCloserOnly_iff.mpr (areClosers line.masked ?_).1
    rw [← masked]
    exact List.mem_map_of_mem member
  have kept := keptLines_of_split balanced split view closers
  have left : (removeOrphanLines (Text.join ['\n'] (source :: orphans))).1 = source := by
    rw [removeOrphanLines_eq, kept, texts, Text.join_split]
  have removed : (orphanLines (Text.join ['\n'] (source :: orphans))).Perm others := by
    have parted := (parts_ofSource (Text.join ['\n'] (source :: orphans))).perm
    rw [kept, split] at parted
    exact (List.perm_append_left_iff lines).mp parted
  have reports : ((removeOrphanLines (Text.join ['\n'] (source :: orphans))).2.map Diagnostic.line).Perm
      ((List.range' (Text.split '\n' source).length orphans.length).map
        fun number => some (Int.ofNat (number + 1))) := by
    rw [map_line_removeOrphanLines, ← numbers, List.map_map]
    exact removed.map _
  refine ⟨(removeOrphanLines (Text.join ['\n'] (source :: orphans))).2, ?_, ?_, reports, ?_⟩
  · rw [repair_eq_removeOrphanLines (by rwa [left])]
    exact Prod.ext left rfl
  · have lengths := reports.length_eq
    simpa using lengths
  · intro finding member
    obtain ⟨lead, line, rfl⟩ := exists_eq_orphanRemoved member
    exact ⟨rfl, rfl⟩

/-- Two of these lines are trimmed from the end; the last one is found by the sweep, as the one before it ends in
a semicolon. -/
theorem repair_append_closerLines_three :
    describe "const a = [f(1)];\nb()".toList = [] ∧
      ∃ findings, repair "const a = [f(1)];\nb()\n  )\n\x7d);\n]".toList =
        ("const a = [f(1)];\nb()".toList, findings) ∧ findings.length = 3 := by
  have balanced : describe "const a = [f(1)];\nb()".toList = [] := by decide +kernel
  have closers : ∀ line ∈ ["  )".toList, "\x7d);".toList, "]".toList],
      IsCloserLine line ∧ '\n' ∉ line := by
    intro line member
    refine ⟨(@isCloserOnly_iff ⟨0, line, line⟩).mp ?_, ?_⟩
    · revert line
      decide +kernel
    · revert line
      decide +kernel
  obtain ⟨findings, repaired, count, _⟩ :=
    @repair_append_closerLines "const a = [f(1)];\nb()".toList ["  )".toList, "\x7d);".toList, "]".toList]
      balanced closers (by decide +kernel)
  exact ⟨balanced, findings, repaired, count⟩

end SceneBundler.Balance
