import SceneBundler.Catalog.Packaged
import SceneBundler.Proofs.Entry.ExportSite
import SceneBundler.Proofs.Entry.Trailing

/-!
Contract: the one default export of a component source.

Owns:
- what it is for a source to have a single entry, and for the entry stage to make one or to leave
  no default export;
- that the entry stage does so just if the removals before it have left no default export, or, where
  what is appended is not read as code, the right one;
- a source in which they leave one.

Does not own: the removal of default exports.
-/

namespace SceneBundler.Entry

open Source (mask showsAppended)
open Text (trimEnd)

/-- The words of a stretch of code without its semicolons. -/
def statementWords (code : Text) : List Text :=
  Text.words (code.map fun c => if c == ';' then ' ' else c)

/-- Whether the masked view of a source has exactly one default export, which is its last statement and
names a candidate of the text before it. -/
def HasSingleEntry (rootContainer source : Text) : Prop :=
  ∃ start name, defaultExports (mask source) = [start] ∧ listedDefaults (mask source) = [] ∧
    statementWords ((mask source).drop start) = ["export".toList, "default".toList, name] ∧
    name ∈ candidateNames (source.take start) rootContainer

/-- What is asked of the entry of a component source: a single entry if nothing is wrong, and no default
export if there is no root. -/
structure IsEntered (rootContainer : Text) (result : Text × List Diagnostic) : Prop where
  single : (∀ finding ∈ result.2, finding.isError = false) → HasSingleEntry rootContainer result.1
  noDefault : (∃ finding ∈ result.2, finding.code = "no_entry_point_candidate".toList) →
    NoDefault (mask result.1)

/-- Whether a source, from which default exports have been removed, is ready for its entry: no default
export is left, or just the right one where a statement behind the source would not be read as
code. -/
def IsReady (catalog : Catalog) (source : Text) : Prop :=
  match rootOf catalog source with
  | none => NoDefault (mask source)
  | some _ =>
      if showsAppended (trimEnd source) then NoDefault (mask source)
      else HasSingleEntry catalog.rootContainer source

/-! ## The last statement -/

theorem statementWords_append_blanks {blanks : Text} (blank : Text.isBlank blanks = true)
    (code : Text) : statementWords (code ++ blanks) = statementWords code := by
  rw [statementWords, List.map_append, Text.words_append_of_isBlank, statementWords]
  rw [Text.isBlank_iff] at blank ⊢
  intro c member
  obtain ⟨d, isHere, rfl⟩ := List.mem_map.mp member
  split
  · decide
  · exact blank d isHere

theorem statementWords_exportOf {name : Text} (isName : IsComponentName name) :
    statementWords (exportOf name) = ["export".toList, "default".toList, name] := by
  obtain ⟨⟨first, others, same, _⟩, names⟩ := isName
  have notBlank : ∀ c ∈ name, Character.isBlank c = false :=
    fun c member => Source.not_isBlank_of_continuesName (names c member)
  have someName : name ≠ [] := by simp [same]
  have kept (word : Text) (absent : ';' ∉ word) :
      word.map (fun c => if c == ';' then ' ' else c) = word := by
    have unchanged : ∀ c ∈ word, (if c == ';' then ' ' else c) = id c := by
      intro c member
      have different : c ≠ ';' := fun same => absent (same ▸ member)
      simp [different]
    rw [List.map_congr_left unchanged, List.map_id]
  have noSemicolon : ';' ∉ name := fun member =>
    Source.ne_of_continuesName (names ';' member) ';' (by decide) rfl
  have lastLetters : ";\n".toList = [';', '\n'] := by decide
  rw [statementWords, exportOf_eq, List.map_append, List.map_cons, List.map_append, List.map_cons,
    List.map_append, kept _ (by decide), kept _ (by decide), kept name noSemicolon,
    lastLetters]
  have blankSpace : Character.isBlank ' ' = true := by decide
  have spaced : (if (' ' == ';') = true then ' ' else ' ') = ' ' := ite_self ' '
  have noMore : Text.words ['\n'] = [] := by decide
  have ended : [';', '\n'].map (fun c => if c == ';' then ' ' else c) = ' ' :: ['\n'] := by
    decide
  rw [spaced, ended, Text.words_word (Text.forall_mem_of_all (by decide)) (by decide)
      blankSpace,
    Text.words_word (Text.forall_mem_of_all (by decide)) (by decide) blankSpace,
    Text.words_word notBlank someName blankSpace, noMore]

/-! ## Text behind a source -/

section Behind

variable {source following : Text}

/-- Behind a source, text that is shown as blanks only makes no difference to its entry. -/
theorem hasSingleEntry_append_iff (rootContainer : Text) {blanks : Text}
    (blank : Text.isBlank blanks = true)
    (shown : mask (source ++ following) = mask source ++ blanks) :
    HasSingleEntry rootContainer (source ++ following) ↔ HasSingleEntry rootContainer source := by
  have sameStart (start : Nat) (inside : defaultExports (mask source) = [start]) :
      (mask source ++ blanks).drop start = (mask source).drop start ++ blanks ∧
        (source ++ following).take start = source.take start := by
    have member : start ∈ defaultExports (mask source) := inside ▸ List.mem_cons_self
    have before := lt_of_mem_exportsFrom member
    rw [Nat.zero_add] at before
    refine ⟨List.drop_append_of_le_length (Nat.le_of_lt before), ?_⟩
    rw [Source.length_mask] at before
    exact List.take_append_of_le_length (Nat.le_of_lt before)
  unfold HasSingleEntry
  rw [shown, defaultExports_append_blanks blank, listedDefaults_append_blanks blank]
  refine exists_congr fun start => exists_congr fun name => and_congr_right fun isOnly => ?_
  obtain ⟨sameDrop, sameTake⟩ := sameStart start isOnly
  rw [sameDrop, sameTake, statementWords_append_blanks blank]

/-- Behind a source, a statement that is read as code and exports a candidate of the source is its
single entry just if there is no other default export. -/
theorem hasSingleEntry_append_exportOf_iff {rootContainer name : Text} (isName : IsComponentName name)
    (isCandidate : name ∈ candidateNames source rootContainer)
    (shown : mask (source ++ '\n' :: '\n' :: exportOf name) =
      mask source ++ '\n' :: '\n' :: exportOf name) :
    HasSingleEntry rootContainer (source ++ '\n' :: '\n' :: exportOf name) ↔
      NoDefault (mask source) := by
  have separate := separate_exportOf isName.isNameText
  have noList : listsDefault ("default".toList ++ ' ' :: (name ++ ";\n".toList)) = false := by
    have letters : "default".toList = 'd' :: "efault".toList := by decide
    rw [letters]
    exact listsDefault_of_ne (by decide) _
  have isDefault : Text.startsWord "default".toList
      ("default".toList ++ ' ' :: (name ++ ";\n".toList)) = true := by
    have isPrefix := List.isPrefixOf_iff_prefix.mpr
      (List.prefix_append "default".toList (' ' :: (name ++ ";\n".toList)))
    have apart : Character.continuesName ' ' = false := by decide
    rw [Text.startsWord, isPrefix, List.drop_left, List.head?_cons, Option.any_some, apart]
    rfl
  have defaults : defaultExports (mask source ++ '\n' :: '\n' :: exportOf name) =
      defaultExports (mask source) ++ [(mask source).length + 2] := by
    rw [defaultExports_append separate, exportsFrom_exportOf isName, if_pos isDefault]
  have lists : listedDefaults (mask source ++ '\n' :: '\n' :: exportOf name) =
      listedDefaults (mask source) := by
    rw [listedDefaults_append separate, exportsFrom_exportOf isName, noList]
    simp
  unfold HasSingleEntry NoDefault
  rw [shown, defaults, lists]
  constructor
  · rintro ⟨start, _, isOnly, noLists, _⟩
    have lengths := congrArg List.length isOnly
    rw [List.length_append, List.length_singleton, List.length_singleton] at lengths
    exact ⟨List.length_eq_zero_iff.mp (by omega), noLists⟩
  · rintro ⟨noDefaults, noLists⟩
    have twoBreaks : mask source ++ '\n' :: '\n' :: exportOf name =
        (mask source ++ ['\n', '\n']) ++ exportOf name := by simp
    have sameBreaks : source ++ '\n' :: '\n' :: exportOf name =
        (source ++ ['\n', '\n']) ++ exportOf name := by simp
    refine ⟨(mask source).length + 2, name, by rw [noDefaults]; rfl, noLists, ?_, ?_⟩
    · rw [twoBreaks, List.drop_left' (by simp), statementWords_exportOf isName]
    · rw [sameBreaks, List.take_left' (by simp [Source.length_mask]),
        candidateNames_append_blanks (by decide)]
      exact isCandidate

end Behind

/-! ## The entry of a source -/

/-- A source is itself without the blanks at its end, and then blanks, and so is its view. -/
theorem exists_mask_eq (source : Text) :
    ∃ blanks view, Text.isBlank blanks = true ∧ Text.isBlank view = true ∧
      source = trimEnd source ++ blanks ∧
      mask (trimEnd source ++ blanks) = mask (trimEnd source) ++ view := by
  obtain ⟨blanks, blank, split⟩ := Text.trimEnd_append source
  exact ⟨blanks, _, blank,
    Source.isBlank_view (Source.Reading.initial.readAll (trimEnd source)) blank, split,
    Source.mask_append_of_inert (Source.inert_of_isBlank blank) _⟩

theorem hasSingleEntry_entered_iff {catalog : Catalog} {source : Text} {root : Candidate}
    (chosen : rootOf catalog source = some root) :
    HasSingleEntry catalog.rootContainer
        (trimEnd source ++ '\n' :: '\n' :: exportOf root.name) ↔ IsReady catalog source := by
  have isName := isComponentName_of_rootOf chosen
  have shown := mask_append_exportOf isName.isNameText (trimEnd source)
  obtain ⟨blanks, view, blank, blankView, split, shownBlanks⟩ := exists_mask_eq source
  have sameView : mask source = mask (trimEnd source) ++ view := by
    rw [← shownBlanks, ← split]
  unfold IsReady
  rw [chosen]
  dsimp only
  cases appended : showsAppended (trimEnd source) with
  | true =>
      have isCandidate : root.name ∈ candidateNames (trimEnd source) catalog.rootContainer := by
        rw [← candidateNames_append_blanks blank, ← split]
        exact List.mem_map_of_mem (mem_of_chooseRoot chosen)
      have whole : (exportOf root.name).map (Source.Reading.shown true) = exportOf root.name :=
        List.map_id'' (fun c => rfl) _
      rw [appended, whole] at shown
      rw [hasSingleEntry_append_exportOf_iff isName isCandidate shown, if_pos rfl, sameView,
        NoDefault, NoDefault, defaultExports_append_blanks blankView,
        listedDefaults_append_blanks blankView]
  | false =>
      rw [appended] at shown
      have blankStatement := Source.isBlank_map_shown ('\n' :: '\n' :: exportOf root.name)
      have ofStatement := hasSingleEntry_append_iff catalog.rootContainer
        blankStatement shown
      have ofBlanks := hasSingleEntry_append_iff catalog.rootContainer
        blankView shownBlanks
      rw [← split] at ofBlanks
      rw [ofStatement, if_neg Bool.false_ne_true, ofBlanks]

/-- What the removal of mount code reports is neither an error nor the lack of an entry. -/
theorem warning_of_mem_stripMountCode {text : Text} {finding : Diagnostic}
    (member : finding ∈ (stripMountCode text).2) :
    finding.isError = false ∧ finding.code ≠ "no_entry_point_candidate".toList := by
  obtain ⟨message, line, same⟩ := eq_of_mem_stripMountCode member
  have differs : "mount_code_removed".toList ≠ "no_entry_point_candidate".toList := by
    decide
  rw [same, Diagnostic.warning]
  exact ⟨rfl, differs⟩

/-- The entry stage makes the one default export of a source, or leaves none, just if the removals
before it leave a source that is ready. -/
theorem isEntered_componentEntry_iff (catalog : Catalog) (text : Text) :
    IsEntered catalog.rootContainer (componentEntry catalog text) ↔
      IsReady catalog (stripped catalog text) := by
  have warnings : ∀ finding ∈ (stripMountCode text).2, finding.isError = false ∧
      finding.code ≠ "no_entry_point_candidate".toList :=
    fun finding member => warning_of_mem_stripMountCode member
  rw [componentEntry_eq]
  generalize (stripMountCode text).2 = reports at warnings ⊢
  generalize stripped catalog text = source
  generalize "No top-level component renders <".toList ++ catalog.rootContainer ++
    ">.".toList = message
  cases chosen : rootOf catalog source with
  | none =>
      have ready : IsReady catalog source ↔ NoDefault (mask source) := by
        rw [IsReady, chosen]
      rw [ready]
      dsimp only
      have last : noEntry message ∈ reports ++ [noEntry message] :=
        List.mem_append_right _ List.mem_cons_self
      constructor
      · exact fun entered => entered.noDefault ⟨noEntry message, last, code_noEntry message⟩
      · intro noDefault
        refine ⟨fun noErrors => ?_, fun _ => noDefault⟩
        have isError := noErrors _ last
        rw [isError_noEntry] at isError
        exact absurd isError (by decide)
  | some root =>
      rw [← hasSingleEntry_entered_iff chosen]
      dsimp only
      constructor
      · exact fun entered => entered.single fun finding member => (warnings finding member).1
      · intro hasEntry
        refine ⟨fun _ => hasEntry, fun ⟨finding, member, isCode⟩ => ?_⟩
        exact absurd isCode (warnings finding member).2

/-- A component with a default export behind its closing brace. -/
def inlineExport : Text :=
  "function App() { return <Canvas />; } export default App;\n".toList

theorem defaultExports_inlineExport :
    (defaultExports
      (mask (componentEntry (Catalog.packaged .reactThreeFiber) inlineExport).1)).length = 2 := by
  decide +kernel

/-- A default export that does not begin its line is not removed, so that the source has two. -/
theorem not_isEntered_inlineExport :
    (componentEntry (Catalog.packaged .reactThreeFiber) inlineExport).2 = [] ∧
      ¬IsEntered (Catalog.packaged .reactThreeFiber).rootContainer
        (componentEntry (Catalog.packaged .reactThreeFiber) inlineExport) := by
  have noFindings : (componentEntry (Catalog.packaged .reactThreeFiber) inlineExport).2 = [] := by
    decide +kernel
  refine ⟨noFindings, fun entered => ?_⟩
  have noErrors : ∀ finding ∈ (componentEntry (Catalog.packaged .reactThreeFiber) inlineExport).2,
      finding.isError = false := by
    rw [noFindings]
    exact nofun
  obtain ⟨start, name, isOnly, _⟩ := entered.single noErrors
  have two := defaultExports_inlineExport
  rw [isOnly] at two
  exact absurd two (by simp)

end SceneBundler.Entry
