import SceneBundler.Proofs.Imports.Completeness
import SceneBundler.Proofs.Imports.Written

/-!
Contract: the import statements that are left once a source's own are removed.

Owns:
- the removals of a source's statements, and that only an import whose characters a removal brought
  together is left behind them;
- that the statements of a resolved source are those of its manifest and those its remains hold.

Does not own: what a statement binds, and sources that are read otherwise without their statements.
-/

namespace SceneBundler.Imports

open Source (mask)
open Line (opensModule)

/-! ## The removals of statements -/

/-- The removals of a source's import statements. -/
def statementRemovals (text : Text) (catalog : Catalog) : List Edit :=
  ((statementHead.all (mask text)).filterMap (readStatement? text (mask text) catalog)).map (·.2)

theorem removeStatements_fst (text : Text) (catalog : Catalog) :
    (removeStatements text catalog).1 =
      withoutLeadingBreaks (Edit.applyAll (statementRemovals text catalog) text) :=
  rfl

theorem Written.getElem?_closing {view passed rest : Text} {written : Written}
    (split : view = passed ++ (written.text ++ rest)) :
    view[passed.length + written.text.length - 1]? = some written.quote := by
  have here : passed.length + written.text.length - 1 =
      (passed ++ (written.head ++ written.quote :: written.module)).length := by
    simp only [text, List.length_append, List.length_cons, List.length_nil]
    omega
  have reshaped : passed ++ (written.text ++ rest) =
      passed ++ (written.head ++ written.quote :: written.module) ++ written.quote :: rest := by
    simp [text]
  rw [here, split, reshaped, Text.getElem?_behind]

/-- A removal of a statement that stands in a view, and of no more than what its line goes on with. -/
structure IsRemovalOf (view passed : Text) (written : Written) (edit : Edit) : Prop where
  start : edit.start = passed.length
  stop : passed.length + written.text.length ≤ edit.stop
  replacement : edit.replacement = []
  sameLine : ∀ offset, passed.length + written.text.length ≤ offset → offset + 1 < edit.stop →
    view[offset]? ≠ some '\n'

/-- What is removed for a statement is no more than what its line goes on with. -/
theorem isRemovalOf_statementLineRemoval {view passed : Text} {written : Written} :
    IsRemovalOf view passed written
      (statementLineRemoval view passed.length (passed.length + written.text.length)) := by
  have reached : passed.length + written.text.length ≤
      Text.skip (fun c => Text.isIndent c || c == ';') view (passed.length + written.text.length) :=
    Nat.le_add_right _ _
  have notBreak (offset : Nat) (behind : passed.length + written.text.length ≤ offset)
      (before : offset < Text.skip (fun c => Text.isIndent c || c == ';') view
        (passed.length + written.text.length)) : view[offset]? ≠ some '\n' := by
    intro isBreak
    exact absurd (Text.accepts_of_lt_skip behind before isBreak) (by decide)
  unfold statementLineRemoval
  dsimp only
  generalize Text.skip _ view _ = skipped at reached notBreak ⊢
  by_cases endsLine : view[skipped]? = some '\n'
  · rw [if_pos endsLine]
    exact ⟨rfl, Nat.le_succ_of_le reached, rfl,
      fun offset behind before => notBreak offset behind (Nat.lt_of_succ_lt_succ before)⟩
  · rw [if_neg endsLine]
    exact ⟨rfl, reached, rfl, fun offset behind before => notBreak offset behind (Nat.lt_of_succ_lt before)⟩

/-- Every removal is the one of a statement that stands in the view. -/
theorem exists_statementLineRemoval {text : Text} {catalog : Catalog} {edit : Edit}
    (member : edit ∈ statementRemovals text catalog) :
    ∃ found ∈ statementHead.all (mask text), ∃ (passed : Text) (written : Written) (rest : Text),
      mask text = passed ++ (written.text ++ rest) ∧ found.start = passed.length ∧
        edit = statementLineRemoval (mask text) passed.length (passed.length + written.text.length) := by
  obtain ⟨reading, isRead, rfl⟩ := List.mem_map.mp member
  obtain ⟨found, isFound, read⟩ := List.mem_filterMap.mp isRead
  obtain ⟨passed, ahead, view, foundHere⟩ := Pattern.find_of_mem_all isFound
  obtain ⟨head, quote, tail, isBeginning⟩ := exists_isBeginning foundHere
  rw [← view] at isBeginning
  obtain ⟨written, rest, isText, isRemoval⟩ := isBeginning.exists_written read
  exact ⟨found, isFound, passed, written, rest, by rw [isBeginning.split, isText], isBeginning.start, isRemoval⟩

theorem exists_isRemovalOf {text : Text} {catalog : Catalog} {edit : Edit}
    (member : edit ∈ statementRemovals text catalog) :
    ∃ (passed : Text) (written : Written) (rest : Text),
      mask text = passed ++ (written.text ++ rest) ∧ IsRemovalOf (mask text) passed written edit := by
  obtain ⟨_, _, passed, written, rest, split, _, rfl⟩ := exists_statementLineRemoval member
  exact ⟨passed, written, rest, split, isRemovalOf_statementLineRemoval⟩

namespace IsRemovalOf

variable {view passed : Text} {written : Written} {edit : Edit}

theorem longer (isRemoval : IsRemovalOf view passed written edit) : edit.start < edit.stop := by
  have some := List.length_pos_iff.mpr written.ne_nil
  have := isRemoval.start
  have := isRemoval.stop
  omega

theorem isDeletion (isRemoval : IsRemovalOf view passed written edit) : edit.IsDeletion :=
  ⟨isRemoval.replacement, Nat.le_of_lt isRemoval.longer⟩

/-- A line that begins within a removal begins in front of the quote that closes the removed statement. -/
theorem lt_of_startsLine (isRemoval : IsRemovalOf view passed written edit) {rest front ahead : Text}
    (split : view = passed ++ (written.text ++ rest)) (cut : view = front ++ ahead)
    (startsLine : StartsLine front) (before : front.length < edit.stop) :
    front.length < passed.length + written.text.length := by
  by_contra beyond
  have nonempty := List.length_pos_iff.mpr written.ne_nil
  have endsFront : front.getLast? = view[front.length - 1]? := by
    rw [List.getLast?_eq_getElem?, cut, List.getElem?_append_left (by omega)]
  obtain ⟨c, isLast⟩ : ∃ c, front.getLast? = some c := by
    rw [← Option.isSome_iff_exists, List.getLast?_isSome]
    exact List.ne_nil_of_length_pos (by omega)
  have isBreak : view[front.length - 1]? = some '\n' := by
    rw [StartsLine, isLast] at startsLine
    rw [← endsFront, isLast, beq_iff_eq.mp startsLine]
  by_cases behind : passed.length + written.text.length ≤ front.length - 1
  · exact isRemoval.sameLine _ behind (by omega) isBreak
  · -- The line would begin directly behind the closing quote.
    have closing := Written.getElem?_closing split
    rw [show passed.length + written.text.length - 1 = front.length - 1 by omega, isBreak] at closing
    have opens := written.isQuote
    rw [← Option.some.inj closing] at opens
    exact absurd opens (by decide)

/-- A statement that begins within a removal has its first quote within the removed statement. -/
theorem length_le_of_isHead (isRemoval : IsRemovalOf view passed written edit) {rest front head tail : Text}
    {quote : Char} (split : view = passed ++ (written.text ++ rest))
    (cut : view = front ++ (head ++ quote :: tail)) (isHead : IsHead head)
    (startsLine : StartsLine front) (before : front.length < edit.stop) :
    front.length + head.length < passed.length + written.text.length := by
  have inside := isRemoval.lt_of_startsLine split cut startsLine before
  by_contra beyond
  have closing := Written.getElem?_closing split
  rw [cut, List.getElem?_append_right (by omega), List.getElem?_append_left (by omega)] at closing
  have noQuote := isHead.not_opensModule _ (List.mem_of_getElem? closing)
  rw [written.isQuote] at noQuote
  contradiction

end IsRemovalOf

/-! ## What is left -/

section Removal

variable {text : Text} {catalog : Catalog}

/-- An import in what the removals leave has characters that a removal brought together: one that stood in
the view before would have been removed. -/
theorem not_seamless {passed rest : Text} {written : Written}
    (left : Edit.applyAll (statementRemovals text catalog) (mask text) = passed ++ (written.text ++ rest))
    (startsLine : StartsLine passed) :
    ¬Edit.Seamless (Edit.joints (statementRemovals text catalog)) passed.length
      (passed.length + written.text.length) := by
  intro seamless
  have removals : ∀ edit ∈ statementRemovals text catalog, edit.IsDeletion ∧ edit.start < edit.stop ∧
      edit.start ≤ (mask text).length := by
    intro edit member
    obtain ⟨front, removed, others, split, isRemoval⟩ := exists_isRemovalOf member
    refine ⟨isRemoval.isDeletion, isRemoval.longer, ?_⟩
    rw [isRemoval.start, split, List.length_append]
    omega
  obtain ⟨before, others, split, sameLast, misses⟩ := Edit.exists_of_applyAll written.ne_nil
    (fun edit member => (removals edit member).1) (fun edit member => (removals edit member).2.2) left seamless
  have startsBefore : StartsLine ([] ++ before) := by
    rw [List.nil_append, StartsLine, sameLast]
    exact startsLine
  -- The statement was found in the view, so it was removed, or passed over within another removal.
  obtain ⟨found, isFound, front, head, module, behind, isBeginning, absent, inFront, inHead⟩ :=
    @exists_beginning [] before others written startsBefore
  rw [List.nil_append, ← split] at isBeginning
  rw [← split] at isFound
  obtain ⟨_, read⟩ := isBeginning.exists_readStatement? absent text catalog
  have isRemoval : statementLineRemoval (mask text) front.length _ ∈ statementRemovals text catalog :=
    List.mem_map.mpr ⟨_, List.mem_filterMap.mpr ⟨found, isFound, read⟩, rfl⟩
  obtain ⟨made, isMade, beginsInFront, endsBehind⟩ :=
    Edit.exists_made (fun edit member => (removals edit member).2.1) isRemoval
  obtain ⟨place, removed, following, cut, isRemovalOf⟩ :=
    exists_isRemovalOf (Edit.mem_of_mem_sorted.mp (Edit.applied_subset 0 _ isMade))
  change made.start ≤ front.length at beginsInFront
  change front.length < made.stop at endsBehind
  have inside := isRemovalOf.length_le_of_isHead cut isBeginning.split isBeginning.isHead
    isBeginning.startsLine endsBehind
  have stops := isRemovalOf.stop
  have nonempty := List.length_pos_iff.mpr written.ne_nil
  rw [List.nil_append] at inFront inHead
  rcases misses made isMade with isBefore | isBehind <;> omega

/-- Where the removals change nothing about how the rest is read, no statement is left just if none of
what is left was brought together by them. -/
theorem removeStatements_removeStatements_eq_nil_iff
    (follows : mask (Edit.applyAll (statementRemovals text catalog) text) =
      Edit.applyAll (statementRemovals text catalog) (mask text)) :
    (removeStatements (removeStatements text catalog).1 catalog).2 = [] ↔
      ∀ (passed : Text) (written : Written) (rest : Text),
        Edit.applyAll (statementRemovals text catalog) (mask text) = passed ++ (written.text ++ rest) →
        StartsLine passed →
        Edit.Seamless (Edit.joints (statementRemovals text catalog)) passed.length
          (passed.length + written.text.length) := by
  obtain ⟨breaks, allBreaks, split⟩ := exists_breaks (Edit.applyAll (statementRemovals text catalog) text)
  have sameView : HoldsImport (mask (removeStatements text catalog).1) ↔
      HoldsImport (Edit.applyAll (statementRemovals text catalog) (mask text)) := by
    rw [removeStatements_fst, ← follows]
    conv_rhs => rw [split, (Source.isHeading_breaks allBreaks).mask_append]
    rw [holdsImport_breaks_iff allBreaks]
  rw [removeStatements_eq_nil_iff, sameView]
  constructor
  · intro holdsNone passed written rest left startsLine
    exact absurd ⟨passed, written, rest, left, startsLine⟩ holdsNone
  · rintro allSeamless ⟨passed, written, rest, left, startsLine⟩
    exact not_seamless left startsLine (allSeamless passed written rest left startsLine)

end Removal

/-! ## The statements of a resolved source -/

theorem text_resolve (catalog : Catalog) (text : Text) :
    (resolve catalog text).text =
      prependBlock catalog (resolve catalog text).manifest (remains catalog text) := by
  unfold resolve remains
  obtain ⟨written, statements⟩ := removeStatements text catalog
  dsimp only

theorem holdsImport_withoutLeadingBreaks_iff (body : Text) :
    HoldsImport (mask (withoutLeadingBreaks body)) ↔ HoldsImport (mask body) := by
  obtain ⟨breaks, allBreaks, split⟩ := exists_breaks body
  conv_rhs => rw [split, (Source.isHeading_breaks allBreaks).mask_append]
  rw [holdsImport_breaks_iff allBreaks]

/-- Behind a block of lines, a search goes on as behind any beginning of a line: what is read are the lines
and the statements of the rest. -/
theorem exists_statements_block (catalog : Catalog) {lines : List Line} (nonempty : lines ≠ [])
    (readable : ∀ line ∈ lines, line.IsReadable) (body : Text) :
    ∃ statements others,
      (removeStatements (block lines ++ ['\n', '\n'] ++ body) catalog).2 = statements ++ others ∧
      List.Forall₂ (Line.IsReadAs catalog) lines statements ∧
      (others = [] ↔ ¬HoldsImport (mask body)) := by
  have isMasked : mask (block lines ++ ['\n', '\n'] ++ body) =
      shownBlock lines ++ ['\n', '\n'] ++ mask body :=
    ((settles_block nonempty readable).isHeading_line (getLast?_shownBlock nonempty)).mask_append body
  obtain ⟨found, readings, finds, areRead, _, areReadAs⟩ :=
    @exists_readings lines catalog nonempty readable ['\n'] ('\n' :: body)
      ('\n' :: mask body) (Or.inl rfl) [] [] (block lines ++ ['\n', '\n'] ++ body)
      (shownBlock lines ++ ['\n', '\n'] ++ mask body) rfl rfl (by simp) (by simp)
  have reshaped : shownBlock lines ++ ['\n', '\n'] ++ mask body =
      shownBlock lines ++ ['\n'] ++ '\n' :: mask body := by simp
  have all : statementHead.all (shownBlock lines ++ ['\n', '\n'] ++ mask body) =
      found ++ statementHead.searchBehind (shownBlock lines ++ ['\n']) ('\n' :: mask body) := by
    have collected := finds []
    rw [List.append_nil, List.nil_append, Pattern.collect_eq_append _ _ _ _ _ found.reverse] at collected
    rw [reshaped, Pattern.all_eq_searchBehind, Pattern.searchBehind, collected, List.reverse_append,
      List.reverse_reverse]
    rfl
  have startsLine : StartsLine (shownBlock lines ++ ['\n']) := by
    rw [StartsLine, List.getLast?_concat]
    rfl
  have rest := filterMap_readStatement?_eq_nil_iff startsLine ('\n' :: mask body)
    (block lines ++ ['\n', '\n'] ++ body) catalog
  have oneBreak : HoldsImport ('\n' :: mask body) ↔ HoldsImport (mask body) :=
    @holdsImport_breaks_iff ['\n'] _ fun c member => List.mem_singleton.mp member
  rw [← reshaped, oneBreak] at rest
  refine ⟨readings.map (·.1), List.map (·.1) _, ?_, areReadAs, List.map_eq_nil_iff.trans rest⟩
  unfold removeStatements
  rw [isMasked]
  dsimp only
  rw [all, List.filterMap_append, areRead, List.map_append]

theorem exists_statements_prependBlock {catalog : Catalog} (importable : catalog.IsImportable)
    {manifest : Manifest} (isOver : IsOver catalog manifest) (body : Text) :
    ∃ statements others,
      (removeStatements (prependBlock catalog manifest body) catalog).2 = statements ++ others ∧
      List.Forall₂ (Line.IsReadAs catalog) (linesOfManifest catalog manifest) statements ∧
      (others = [] ↔ ¬HoldsImport (mask body)) := by
  rw [prependBlock, importBlock_eq isOver]
  dsimp only
  by_cases noLines : linesOfManifest catalog manifest = []
  · rw [noLines]
    exact ⟨[], _, rfl, .nil, removeStatements_eq_nil_iff⟩
  · have someBlock : (block (linesOfManifest catalog manifest)).isEmpty = false := by
      rw [List.isEmpty_eq_false_iff]
      intro isEmpty
      have last := getLast?_shownBlock noLines
      rw [← (settles_block noLines (isReadable_of_mem_linesOfManifest importable isOver)).mask_eq,
        isEmpty] at last
      contradiction
    rw [if_neg (by simp [someBlock])]
    obtain ⟨statements, others, read, areReadAs, none⟩ := exists_statements_block catalog noLines
      (isReadable_of_mem_linesOfManifest importable isOver) (withoutLeadingBreaks body)
    rw [holdsImport_withoutLeadingBreaks_iff] at none
    exact ⟨statements, others, read, areReadAs, none⟩

/-- The statements of a resolved source are those of its manifest just if its remains hold none. -/
theorem forall₂_isReadAs_resolve_iff {catalog : Catalog} (importable : catalog.IsImportable) (text : Text) :
    List.Forall₂ (Line.IsReadAs catalog) (linesOfManifest catalog (resolve catalog text).manifest)
        (removeStatements (resolve catalog text).text catalog).2 ↔
      (removeStatements (remains catalog text) catalog).2 = [] := by
  have isOver : IsOver catalog (resolve catalog text).manifest := by
    rw [manifest_resolve]
    exact isOver_manifestOf
  obtain ⟨statements, others, read, areReadAs, none⟩ :=
    exists_statements_prependBlock importable isOver (remains catalog text)
  rw [removeStatements_eq_nil_iff, ← none, text_resolve, read]
  constructor
  · intro allReadAs
    have lengths := areReadAs.length_eq.symm.trans allReadAs.length_eq
    rw [List.length_append] at lengths
    exact List.length_eq_zero_iff.mp (by omega)
  · rintro rfl
    rwa [List.append_nil]

/-- Every import that a source wrote is removed, where its removals change nothing about how the rest is
read, just if they bring no import together; and a resolved source then imports what its manifest says and
nothing more, just if its renamings and removed elements bring none together either. -/
theorem imports_removed_iff {catalog : Catalog} (importable : catalog.IsImportable) {text : Text}
    (follows : mask (Edit.applyAll (statementRemovals text catalog) text) =
      Edit.applyAll (statementRemovals text catalog) (mask text)) :
    ((removeStatements (removeStatements text catalog).1 catalog).2 = [] ↔
      ∀ (passed : Text) (written : Written) (rest : Text),
        Edit.applyAll (statementRemovals text catalog) (mask text) = passed ++ (written.text ++ rest) →
        StartsLine passed →
        Edit.Seamless (Edit.joints (statementRemovals text catalog)) passed.length
          (passed.length + written.text.length)) ∧
    (List.Forall₂ (Line.IsReadAs catalog) (linesOfManifest catalog (resolve catalog text).manifest)
        (removeStatements (resolve catalog text).text catalog).2 ↔
      (removeStatements (remains catalog text) catalog).2 = []) :=
  ⟨removeStatements_removeStatements_eq_nil_iff follows, forall₂_isReadAs_resolve_iff importable text⟩

/-- Two imports on lines of their own, and a use of them. -/
def linedImports : Text :=
  "import a from 'a';\nimport b from 'b';\na(b);\n".toList

theorem imports_removed_linedImports :
    mask (Edit.applyAll (statementRemovals linedImports (Catalog.packaged .threejs)) linedImports) =
        Edit.applyAll (statementRemovals linedImports (Catalog.packaged .threejs)) (mask linedImports) ∧
      (removeStatements (removeStatements linedImports (Catalog.packaged .threejs)).1
        (Catalog.packaged .threejs)).2 = [] := by
  have follows : mask (Edit.applyAll (statementRemovals linedImports (Catalog.packaged .threejs)) linedImports) =
      Edit.applyAll (statementRemovals linedImports (Catalog.packaged .threejs)) (mask linedImports) := by
    decide
  have left : Edit.applyAll (statementRemovals linedImports (Catalog.packaged .threejs)) (mask linedImports) =
      "a(b);\n".toList := by decide
  refine ⟨follows, (imports_removed_iff (Catalog.isImportable_packaged .threejs) follows).1.mpr ?_⟩
  intro passed written rest split _
  have isIn : written.quote ∈ "a(b);\n".toList := by
    rw [← left, split]
    simp [Written.text]
  have noQuote : ∀ c ∈ "a(b);\n".toList, opensModule c = false := Text.forall_mem_of_all (by decide)
  have isQuote := written.isQuote
  rw [noQuote written.quote isIn] at isQuote
  exact absurd isQuote Bool.false_ne_true

/-- Two imports on one line: only the first begins a line until it is removed. -/
def joinedImports : Text :=
  ("import * as THREE from 'three'; " ++
    "import { OrbitControls } from 'three/examples/jsm/controls/OrbitControls.js';\n" ++
    "const controls = new OrbitControls(new THREE.Camera());\n").toList

theorem import_left_joinedImports :
    (removeStatements (removeStatements joinedImports (Catalog.packaged .threejs)).1
      (Catalog.packaged .threejs)).2 ≠ [] := by
  decide +kernel

end SceneBundler.Imports
