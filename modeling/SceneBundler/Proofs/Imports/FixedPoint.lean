import Mathlib.Data.List.DropRight
import SceneBundler.Proofs.Imports.RoundTrip
import SceneBundler.Proofs.Text.Alike

/-!
Contract: resolved sources, resolved again.

Owns:
- import statements that say nothing: they call for no renaming and give no report;
- that the statements of a manifest say nothing once they are read back;
- that a resolution changes nothing about its own result, where the source had no import statements, no
  element was removed, and tags are not renamed.

Does not own: sources with import statements of their own.
-/

namespace SceneBundler.Imports

open Source (mask)

/-! ## Statements that say nothing -/

/-- Statements that call for no renaming, whatever is declared, and give no report. -/
structure IsMute (catalog : Catalog) (statements : List Statement) : Prop where
  noRenamings : ∀ declared, renamingsOf catalog declared statements = []
  noReports : statements.flatMap (statementReports catalog) = []

section Bindings

variable {catalog : Catalog} {found : Export}

/-- The first export of its kind and module is an export itself, if the module has no other. -/
theorem find?_exportsOf (importable : catalog.IsImportable) (isExport : found ∈ catalog.exports)
    (notNamed : found.kind ≠ .asNamed) :
    (catalog.exportsOf found.module).find? (·.kind == found.kind) = some found := by
  have isOfModule : found ∈ catalog.exportsOf found.module :=
    List.mem_filter.mpr ⟨isExport, beq_self_eq_true found.module⟩
  have isSome : ((catalog.exportsOf found.module).find? (·.kind == found.kind)).isSome :=
    List.find?_isSome.mpr ⟨found, isOfModule, beq_self_eq_true found.kind⟩
  obtain ⟨first, isFirst⟩ := Option.isSome_iff_exists.mp isSome
  obtain ⟨firstExport, sameModule⟩ := List.mem_filter.mp (List.mem_of_find?_eq_some isFirst)
  have sameKind : first.kind = found.kind := by simpa using List.find?_some isFirst
  rw [isFirst, importable.single first firstExport found isExport (sameKind ▸ notNamed) sameKind
    (beq_iff_eq.mp sameModule)]

/-- An export that is bound by its own identifier stands for itself. -/
theorem canonicalIdentifier?_bound (importable : catalog.IsImportable)
    (known : catalog.lookup found.identifier = some found) (line : Nat) :
    canonicalIdentifier? catalog (bound line found) = some found.identifier := by
  have isExport := (Catalog.mem_of_lookup known).1
  unfold canonicalIdentifier? bound outerName
  cases isKind : found.kind with
  | asNamed =>
      dsimp only [bindingKind]
      rw [known]
      exact if_pos isKind
  | asDefault =>
      have first := find?_exportsOf importable isExport (by rw [isKind]; decide)
      rw [isKind] at first
      dsimp only [bindingKind]
      rw [first]
      rfl
  | asNamespace =>
      have first := find?_exportsOf importable isExport (by rw [isKind]; decide)
      rw [isKind] at first
      dsimp only [bindingKind]
      rw [first]
      rfl

theorem renaming?_bound (importable : catalog.IsImportable)
    (known : catalog.lookup found.identifier = some found) (line : Nat) (declared : List Text) :
    renaming? catalog declared (bound line found) = none := by
  rw [renaming?, canonicalIdentifier?_bound importable known]
  split
  next => rfl
  next => simp [bound]

theorem bindingReport?_bound (importable : catalog.IsImportable)
    (known : catalog.lookup found.identifier = some found) (line : Nat) (statement : Statement) :
    bindingReport? catalog statement (bound line found) = none := by
  have isName := importable.areNames found (Catalog.mem_of_lookup known).1
  have provided : isProvided catalog (bound line found) = true := by
    rw [isProvided, canonicalIdentifier?_bound importable known]
    simp [isName.ne_nil]
  rw [bindingReport?, if_pos provided]

end Bindings

section Lines

variable {catalog : Catalog} {manifest : Manifest} {line : Line} {statement : Statement}

theorem binds_ne_nil_of_mem_linesOf {module : Text} {exports : List Export}
    (areNames : ∀ found ∈ exports, IsName found.identifier)
    (ofModule : ∀ found ∈ exports, found.module = module) (member : line ∈ linesOf module exports) :
    line.binds ≠ [] := by
  intro isEmpty
  rcases List.mem_append.mp member with isJoint | isWhole
  · split at isJoint
    next => exact absurd isJoint List.not_mem_nil
    next someClause =>
      rw [List.mem_singleton.mp isJoint, Line.binds, readClause_clauseOf areNames ofModule,
        map_bound] at isEmpty
      obtain ⟨noNamed, noDefault⟩ := List.append_eq_nil_iff.mp isEmpty
      refine someClause (List.isEmpty_iff.mpr ?_)
      rw [clauseOf, identifiersOfKind, identifiersOfKind, ← List.map_take, noNamed, noDefault]
      rfl
  · obtain ⟨identifier, isIdentifier, rfl⟩ := List.mem_map.mp isWhole
    have isName := isName_of_mem_identifiersOfKind areNames isIdentifier
    rw [Line.binds, readClause_namespace isName] at isEmpty
    exact List.cons_ne_nil _ _ isEmpty

/-- A line of a manifest binds something, each of it listed, and names a module by its own name. -/
theorem facts_of_mem_linesOfManifest (importable : catalog.IsImportable) (isOver : IsOver catalog manifest)
    (isLine : line ∈ linesOfManifest catalog manifest) :
    line.binds ≠ [] ∧ (∀ found ∈ line.binds, catalog.lookup found.identifier = some found) ∧
      catalog.canonicalModule line.module = line.module := by
  have isBound : ∀ found ∈ line.binds, catalog.lookup found.identifier = some found := by
    intro found member
    have isListed := (perm_binds importable isOver).mem_iff.mp (List.mem_flatMap.mpr ⟨line, isLine, member⟩)
    obtain ⟨entry, isEntry, isFound⟩ := List.mem_flatMap.mp isListed
    exact (mem_listed isOver isEntry isFound).2.2
  obtain ⟨entry, isEntry, isOfEntry⟩ := List.mem_flatMap.mp isLine
  have areNames : ∀ found ∈ listed catalog entry, IsName found.identifier :=
    fun found member => importable.areNames found (mem_listed isOver isEntry member).1
  have ofModule : ∀ found ∈ listed catalog entry, found.module = entry.1 :=
    fun found member => (mem_listed isOver isEntry member).2.1
  obtain ⟨found, isListed⟩ := exists_mem_listed isOfEntry
  have known := mem_listed isOver isEntry isListed
  obtain ⟨_, _, _, isModule⟩ := readClause_of_mem_linesOf areNames ofModule isOfEntry 0
  refine ⟨binds_ne_nil_of_mem_linesOf areNames ofModule isOfEntry, isBound, ?_⟩
  rw [isModule, ← known.2.1]
  exact importable.published found known.1

theorem renamings_of_isReadAs (importable : catalog.IsImportable) (isOver : IsOver catalog manifest)
    (isLine : line ∈ linesOfManifest catalog manifest) (isReadAs : Line.IsReadAs catalog line statement)
    (declared : List Text) : statement.bindings.filterMap (renaming? catalog declared) = [] := by
  obtain ⟨_, isBound, _⟩ := facts_of_mem_linesOfManifest importable isOver isLine
  rw [bindings_of_mem_linesOfManifest importable isOver isLine isReadAs, List.filterMap_map,
    List.filterMap_eq_nil_iff]
  exact fun found member => renaming?_bound importable (isBound found member) statement.line declared

theorem reports_of_isReadAs (importable : catalog.IsImportable) (isOver : IsOver catalog manifest)
    (isLine : line ∈ linesOfManifest catalog manifest) (isReadAs : Line.IsReadAs catalog line statement) :
    statementReports catalog statement = [] := by
  obtain ⟨someBound, isBound, published⟩ := facts_of_mem_linesOfManifest importable isOver isLine
  have bindings := bindings_of_mem_linesOfManifest importable isOver isLine isReadAs
  have sameModule : statement.written = statement.module := by
    rw [isReadAs.written, isReadAs.module, published]
  have someBinding : statement.bindings.isEmpty = false := by
    rw [bindings, List.isEmpty_eq_false_iff]
    exact mt List.map_eq_nil_iff.mp someBound
  have provided : statement.bindings.filterMap (bindingReport? catalog statement) = [] := by
    rw [bindings, List.filterMap_map, List.filterMap_eq_nil_iff]
    exact fun found member =>
      bindingReport?_bound importable (isBound found member) statement.line statement
  unfold statementReports
  rw [if_pos sameModule, someBinding, provided]
  rfl

/-- The statements that a manifest's lines are read as say nothing. -/
theorem isMute_of_areReadAs (importable : catalog.IsImportable) (isOver : IsOver catalog manifest)
    {statements : List Statement}
    (areReadAs : List.Forall₂ (Line.IsReadAs catalog) (linesOfManifest catalog manifest) statements) :
    IsMute catalog statements := by
  have isLine : ∀ statement ∈ statements, ∃ line ∈ linesOfManifest catalog manifest,
      Line.IsReadAs catalog line statement := by
    generalize linesOfManifest catalog manifest = lines at areReadAs
    induction areReadAs with
    | nil => exact fun _ member => absurd member List.not_mem_nil
    | @cons first other lines statements isReadAs _ inductionHypothesis =>
        intro statement member
        rcases List.mem_cons.mp member with isFirst | isLater
        · exact ⟨first, List.mem_cons_self, isFirst ▸ isReadAs⟩
        · obtain ⟨line, isLine, readsLine⟩ := inductionHypothesis statement isLater
          exact ⟨line, List.mem_cons_of_mem first isLine, readsLine⟩
  constructor
  · intro declared
    rw [renamingsOf, List.filterMap_flatMap, List.flatMap_eq_nil_iff]
    intro statement member
    obtain ⟨line, isLine, isReadAs⟩ := isLine statement member
    exact renamings_of_isReadAs importable isOver isLine isReadAs declared
  · rw [List.flatMap_eq_nil_iff]
    intro statement member
    obtain ⟨line, isLine, isReadAs⟩ := isLine statement member
    exact reports_of_isReadAs importable isOver isLine isReadAs

end Lines

/-! ## Resolving twice -/

theorem withoutLeadingBreaks_withoutLeadingBreaks (text : Text) :
    withoutLeadingBreaks (withoutLeadingBreaks text) = withoutLeadingBreaks text :=
  List.dropWhile_idempotent (· == '\n') text

theorem seesLines_statementHead : statementHead.SeesLines := by
  simp [statementHead, Pattern.SeesLines, Pattern.lineStart, Pattern.literal, Pattern.blanks,
    Pattern.indent, Pattern.star, Pattern.oneOf]

/-- A source in which no import statement is read loses the line breaks in front. -/
theorem removeStatements_of_not_occursIn {catalog : Catalog} {text : Text}
    (absent : statementHead.occursIn (mask text) = false) :
    removeStatements text catalog = (withoutLeadingBreaks text, []) := by
  have none : statementHead.all (mask text) = [] :=
    Pattern.all_eq_nil (Pattern.occursIn_eq_false_iff.mp absent)
  rw [removeStatements, none]
  rfl

/-- A resolution is decided by what the import statements leave, where they say nothing. -/
theorem resolve_eq_of_isMute {catalog : Catalog} {first second written : Text}
    {statements others : List Statement}
    (removedFirst : removeStatements first catalog = (written, statements))
    (removedSecond : removeStatements second catalog = (written, others))
    (mute : IsMute catalog statements) (muteOthers : IsMute catalog others) :
    resolve catalog first = resolve catalog second := by
  have recovered (statements : List Statement) (mute : IsMute catalog statements) :
      recoverAliases catalog (declaredNames (mask written)) statements written = written := by
    rw [recoverAliases, mute.noRenamings]
    rfl
  unfold resolve
  rw [removedFirst, removedSecond]
  dsimp only
  rw [recovered statements mute, recovered others muteOthers, mute.noReports, muteOthers.noReports]

/-! ## Removed elements -/

theorem code_of_mem_unknownHookReports {catalog : Catalog} {declared reported : List Text}
    {body masked : Text} {calls : List Match} {report : Diagnostic}
    (member : report ∈ unknownHookReports catalog declared body masked reported calls) :
    report.code = "unknown_hook".toList := by
  induction calls generalizing reported with
  | nil => exact absurd member List.not_mem_nil
  | cons found rest inductionHypothesis =>
      rw [unknownHookReports] at member
      split at member
      next => exact inductionHypothesis member
      next =>
        rcases List.mem_cons.mp member with isHere | isLater
        · rw [isHere]
          rfl
        · exact inductionHypothesis isLater

theorem code_of_mem_emptyManifestReport {catalog : Catalog} {manifest : Manifest} {report : Diagnostic}
    (member : report ∈ emptyManifestReport catalog manifest) :
    report.code = "empty_component_manifest".toList := by
  unfold emptyManifestReport at member
  dsimp only at member
  split at member
  next => rw [List.mem_singleton.mp member]; rfl
  next => exact absurd member List.not_mem_nil

section Elements

variable {catalog : Catalog} {text written : Text}

theorem renameIntrinsicTags_recoverAliases (noIntrinsics : catalog.intrinsicAliases = [])
    (declared : List Text) :
    renameIntrinsicTags catalog declared (recoverAliases catalog declared [] written) = written := by
  rw [renameIntrinsicTags, noIntrinsics]
  rfl

theorem exists_report_of_isHallucinated {declared : List Text} {body : Text} {tag : Source.Tag}
    (isTag : tag ∈ Source.Tag.scan (mask body)) (isUnknown : isHallucinated catalog declared tag = true) :
    ∃ report ∈ (removeHallucinated catalog declared body).2,
      report.code = "hallucinated_component".toList := by
  obtain ⟨position, _, atPosition⟩ := List.mem_iff_getElem.mp isTag
  have isIndexed : (tag, position) ∈ (Source.Tag.scan (mask body)).zipIdx := by
    rw [List.mk_mem_zipIdx_iff_getElem?, List.getElem?_eq_some_iff]
    exact ⟨_, atPosition⟩
  exact ⟨_, List.mem_map.mpr ⟨(tag, position), List.mem_filter.mpr ⟨isIndexed, isUnknown⟩, rfl⟩, rfl⟩

/-- No element is reported as removed just if every tag names a component that is known. -/
theorem noHallucinated_iff (removed : removeStatements text catalog = (written, []))
    (noIntrinsics : catalog.intrinsicAliases = []) :
    (∀ report ∈ (resolve catalog text).diagnostics, report.code ≠ "hallucinated_component".toList) ↔
      ∀ tag ∈ Source.Tag.scan (mask written),
        isHallucinated catalog (declaredNames (mask written)) tag = false := by
  obtain ⟨hooks, manifest, areHooks, diagnostics⟩ : ∃ hooks manifest,
      (∀ report ∈ hooks, report.code = "unknown_hook".toList) ∧
      (resolve catalog text).diagnostics =
        (removeHallucinated catalog (declaredNames (mask written)) written).2 ++ hooks ++
          emptyManifestReport catalog manifest := by
    unfold resolve
    rw [removed]
    dsimp only
    rw [renameIntrinsicTags_recoverAliases noIntrinsics]
    exact ⟨_, _, fun report => code_of_mem_unknownHookReports, rfl⟩
  rw [diagnostics]
  constructor
  · intro noneReported tag isTag
    rw [Bool.eq_false_iff]
    intro isUnknown
    obtain ⟨report, isReported, isElement⟩ := exists_report_of_isHallucinated isTag isUnknown
    exact noneReported report (List.mem_append_left _ (List.mem_append_left _ isReported)) isElement
  · intro allKnown report member isElement
    rcases List.mem_append.mp member with inner | isEmpty
    · rcases List.mem_append.mp inner with isRemoved | isHook
      · obtain ⟨⟨tag, position⟩, isFound, _⟩ := List.mem_map.mp isRemoved
        obtain ⟨isIndexed, isUnknown⟩ := List.mem_filter.mp isFound
        have isTag := List.fst_mem_of_mem_zipIdx isIndexed
        exact Bool.false_ne_true ((allKnown tag isTag).symm.trans isUnknown)
      · exact absurd (isElement.symm.trans (areHooks report isHook)) (by decide)
    · exact absurd (isElement.symm.trans (code_of_mem_emptyManifestReport isEmpty)) (by decide)

theorem removeHallucinated_of_known {declared : List Text} {body : Text}
    (allKnown : ∀ tag ∈ Source.Tag.scan (mask body), isHallucinated catalog declared tag = false) :
    removeHallucinated catalog declared body = (body, []) := by
  unfold removeHallucinated
  dsimp only
  rw [List.filter_eq_nil_iff.mpr]
  · rfl
  · rintro ⟨tag, position⟩ isIndexed
    rw [Bool.not_eq_true]
    exact allKnown tag (List.fst_mem_of_mem_zipIdx isIndexed)

theorem remains_of_known (removed : removeStatements text catalog = (written, []))
    (noIntrinsics : catalog.intrinsicAliases = [])
    (allKnown : ∀ tag ∈ Source.Tag.scan (mask written),
      isHallucinated catalog (declaredNames (mask written)) tag = false) :
    remains catalog text = written := by
  unfold remains
  rw [removed]
  dsimp only
  rw [renameIntrinsicTags_recoverAliases noIntrinsics, removeHallucinated_of_known allKnown]

end Elements

/-! ## A source and its imports -/

/-- What a manifest's imports in front of a source leave and say, where the source has none itself. -/
theorem exists_removeStatements_prependBlock {catalog : Catalog} (importable : catalog.IsImportable)
    {manifest : Manifest} (isOver : IsOver catalog manifest) {text : Text}
    (absent : statementHead.occursIn (mask text) = false) :
    ∃ statements, removeStatements (prependBlock catalog manifest (withoutLeadingBreaks text)) catalog =
        (withoutLeadingBreaks text, statements) ∧ IsMute catalog statements := by
  obtain ⟨breaks, allBreaks, split⟩ := exists_breaks text
  rw [split, (Source.isHeading_breaks allBreaks).mask_append] at absent
  rw [prependBlock, importBlock_eq isOver]
  dsimp only
  split
  next =>
    have removed := @removeStatements_of_not_occursIn catalog _
      (Pattern.not_occursIn_of_breaks seesLines_statementHead allBreaks absent)
    rw [withoutLeadingBreaks_withoutLeadingBreaks] at removed
    exact ⟨[], removed, ⟨fun _ => rfl, rfl⟩⟩
  next someBlock =>
    have nonempty : linesOfManifest catalog manifest ≠ [] := by
      intro isEmpty
      rw [isEmpty] at someBlock
      exact someBlock rfl
    rw [withoutLeadingBreaks_withoutLeadingBreaks]
    obtain ⟨statements, removed, areReadAs⟩ := exists_removeStatements_block catalog nonempty
      (isReadable_of_mem_linesOfManifest importable isOver)
      (Pattern.silent_of_not_occursIn seesLines_statementHead allBreaks absent (by simp))
    rw [withoutLeadingBreaks_withoutLeadingBreaks] at removed
    exact ⟨statements, removed, isMute_of_areReadAs importable isOver areReadAs⟩

/-- A resolution changes nothing about its own result, where no import statement is read in the source,
no element was removed and no tag has another name. -/
theorem resolve_resolve_of_isImportable {catalog : Catalog} (importable : catalog.IsImportable)
    (noIntrinsics : catalog.intrinsicAliases = []) {text : Text}
    (noImports : statementHead.occursIn (mask text) = false)
    (noHallucinated : ∀ report ∈ (resolve catalog text).diagnostics,
      report.code ≠ "hallucinated_component".toList) :
    resolve catalog (resolve catalog text).text = resolve catalog text := by
  have removed := @removeStatements_of_not_occursIn catalog text noImports
  obtain ⟨identifiers, resolved⟩ := exists_prependBlock catalog text
  have allKnown := (noHallucinated_iff removed noIntrinsics).mp noHallucinated
  rw [remains_of_known removed noIntrinsics allKnown] at resolved
  obtain ⟨statements, removedAgain, mute⟩ :=
    exists_removeStatements_prependBlock importable (@isOver_manifestOf catalog identifiers) noImports
  rw [← resolved] at removedAgain
  exact resolve_eq_of_isMute removedAgain removed mute ⟨fun _ => rfl, rfl⟩

/-- For packaged catalogs in which no tag has another name, resolving is done once: the result of a
source without import statements, in which every component is known, resolves to the same text, manifest
and reports. -/
theorem resolve_resolve (framework : Framework)
    (noIntrinsics : (Catalog.packaged framework).intrinsicAliases = []) (text : Text)
    (noImports : statementHead.occursIn (mask text) = false)
    (noHallucinated : ∀ report ∈ (resolve (Catalog.packaged framework) text).diagnostics,
      report.code ≠ "hallucinated_component".toList) :
    resolve (Catalog.packaged framework) (resolve (Catalog.packaged framework) text).text =
      resolve (Catalog.packaged framework) text :=
  resolve_resolve_of_isImportable (Catalog.isImportable_packaged framework) noIntrinsics noImports
    noHallucinated

theorem provides_canvas : (Catalog.packaged .reactThreeFiber).provides "Canvas".toList = true := by
  refine provides_of_mem ⟨"Canvas".toList, "@react-three/fiber".toList, .asNamed⟩ ?_
  exact List.mem_append_left _ (List.mem_append_left _ (List.mem_append_left _
    (List.mem_append_left _ (List.mem_append_right _ List.mem_cons_self))))

/-- A component that shows an empty scene. -/
def emptyScene : Text :=
  "const App = () => <Canvas />;\n".toList

theorem resolve_resolve_emptyScene :
    (Catalog.packaged .reactThreeFiber).intrinsicAliases = [] ∧
    statementHead.occursIn (mask emptyScene) = false ∧
    (∀ report ∈ (resolve (Catalog.packaged .reactThreeFiber) emptyScene).diagnostics,
      report.code ≠ "hallucinated_component".toList) ∧
    resolve (Catalog.packaged .reactThreeFiber) (resolve (Catalog.packaged .reactThreeFiber) emptyScene).text =
      resolve (Catalog.packaged .reactThreeFiber) emptyScene := by
  have noImports : statementHead.occursIn (mask emptyScene) = false := by decide
  have scanned : Source.Tag.scan (mask (withoutLeadingBreaks emptyScene)) =
      [⟨"Canvas".toList, 18, 28, .selfClosing⟩] := by decide
  have noHallucinated : ∀ report ∈ (resolve (Catalog.packaged .reactThreeFiber) emptyScene).diagnostics,
      report.code ≠ "hallucinated_component".toList := by
    refine (noHallucinated_iff (removeStatements_of_not_occursIn noImports) rfl).mpr fun tag isTag => ?_
    rw [scanned, List.mem_singleton] at isTag
    have root : tag.rootIdentifier = "Canvas".toList := by
      rw [isTag]
      decide
    rw [isHallucinated, root, provides_canvas]
    simp
  exact ⟨rfl, noImports, noHallucinated, resolve_resolve .reactThreeFiber rfl emptyScene noImports noHallucinated⟩

end SceneBundler.Imports
