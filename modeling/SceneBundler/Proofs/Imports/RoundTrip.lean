import Mathlib.Data.List.Perm.Basic
import SceneBundler.Proofs.Catalog.Importable
import SceneBundler.Proofs.Imports.Line
import SceneBundler.Proofs.Imports.Manifest

/-!
Contract: written imports, read back.

Owns:
- the lines that import exports of a module, and what they are read as;
- that the manifest of a resolved source lists a catalog's identifiers under their own modules;
- that the imports of every such manifest are written, and read back as one binding for each
  identifier.

Does not own: what a source uses.
-/

namespace SceneBundler.Imports

open Source (staysTop IsQuotable)

/-! ## The lines of a module -/

/-- The lines that import exports from a module. -/
def linesOf (module : Text) (exports : List Export) : List Line :=
  (if (clauseOf exports).isEmpty then [] else [⟨Text.join ", ".toList (clauseOf exports), module⟩]) ++
    (identifiersOfKind .asNamespace exports).map fun identifier => ⟨"* as ".toList ++ identifier, module⟩

theorem text_eq (line : Line) :
    line.text = "import ".toList ++ line.clause ++
      (" from ".toList ++ '\x27' :: line.module ++ "';".toList) := by
  have first : "import ".toList = "import".toList ++ [' '] := by decide
  have last : " from ".toList = [' '] ++ ("from".toList ++ [' ']) := by decide
  have closing : "';".toList = ['\x27', ';'] := by decide
  rw [first, last, closing]
  unfold Line.text Line.head
  generalize "import".toList = word
  generalize "from".toList = mark
  simp

theorem statementsOf_eq (module : Text) (exports : List Export) :
    statementsOf module exports = (linesOf module exports).map Line.text := by
  have lead : "import * as ".toList = "import ".toList ++ "* as ".toList := by decide
  have joint : (if (clauseOf exports).isEmpty then [] else ["import ".toList ++
      Text.join ", ".toList (clauseOf exports) ++ (" from ".toList ++ '\x27' :: module ++ "';".toList)]) =
      (if (clauseOf exports).isEmpty then []
        else [⟨Text.join ", ".toList (clauseOf exports), module⟩]).map Line.text := by
    split
    next => rfl
    next => rw [List.map_singleton, text_eq]
  have whole : (identifiersOfKind .asNamespace exports).map (fun identifier => "import * as ".toList ++
      identifier ++ (" from ".toList ++ '\x27' :: module ++ "';".toList)) =
      ((identifiersOfKind .asNamespace exports).map fun identifier =>
        (⟨"* as ".toList ++ identifier, module⟩ : Line)).map Line.text := by
    rw [List.map_map]
    refine List.map_congr_left fun identifier _ => ?_
    rw [Function.comp_apply, text_eq, lead, List.append_assoc "import ".toList]
  unfold statementsOf linesOf
  rw [List.map_append, ← joint, ← whole]

theorem inClause_of_continuesName {c : Char} (continues : Character.continuesName c = true) :
    inClause c = true := by
  rw [inClause, continues]
  rfl

theorem IsName.inClause {name : Text} (isName : IsName name) :
    ∀ c ∈ name, Imports.inClause c = true :=
  fun c member => inClause_of_continuesName (isName.isNameText c member)

theorem IsName.isSolid {name : Text} (isName : IsName name) : IsSolid name where
  inClause := isName.inClause
  begins := by
    have visible := isName.any_head? []
    rwa [List.append_nil] at visible
  ends := by
    obtain ⟨last, isLast⟩ :=
      Option.ne_none_iff_exists'.mp (mt List.getLast?_eq_none_iff.mp isName.ne_nil)
    exact ⟨last, isLast, isName.isBlank_of_mem (List.mem_of_getLast? isLast)⟩

theorem inClause_comma : ∀ c ∈ ", ".toList, inClause c = true :=
  Text.forall_mem_of_all (by decide)

theorem isSolid_braced {names : List Text} (some : names ≠ []) (areNames : ∀ name ∈ names, IsName name) :
    IsSolid (braced names) where
  inClause := by
    have inside : ∀ c ∈ Text.join ", ".toList names, inClause c = true := by
      refine Text.join_of_glue (fun first second isFirst isSecond => ?_) some
        fun name member => (areNames name member).inClause
      simp only [List.forall_mem_append]
      exact ⟨isFirst, inClause_comma, isSecond⟩
    simp only [braced, List.forall_mem_append]
    exact ⟨⟨Text.forall_mem_of_all (by decide), inside⟩, Text.forall_mem_of_all (by decide)⟩
  begins := by rfl
  ends := ⟨'}', by rw [braced, List.getLast?_append]; rfl, by decide⟩

theorem IsSolid.glue {first second : Text} (isFirst : IsSolid first) (isSecond : IsSolid second) :
    IsSolid (first ++ (", ".toList ++ second)) where
  inClause := by
    simp only [List.forall_mem_append]
    exact ⟨isFirst.inClause, inClause_comma, isSecond.inClause⟩
  begins := by
    obtain ⟨last, isLast, _⟩ := isFirst.ends
    cases same : first with
    | nil => simp [same] at isLast
    | cons c rest =>
        have visible := isFirst.begins
        rw [same] at visible
        exact visible
  ends := by
    obtain ⟨last, isLast, visible⟩ := isSecond.ends
    exact ⟨last, by rw [List.getLast?_append, List.getLast?_append, isLast]; rfl, visible⟩

section Modules

variable {module : Text} {exports : List Export}

theorem isName_of_mem_identifiersOfKind (areNames : ∀ found ∈ exports, IsName found.identifier)
    {kind : ExportKind} {identifier : Text} (member : identifier ∈ identifiersOfKind kind exports) :
    IsName identifier := by
  obtain ⟨found, isExport, _, rfl⟩ := mem_identifiersOfKind.mp member
  exact areNames found isExport

theorem isSolid_clauseOf (areNames : ∀ found ∈ exports, IsName found.identifier)
    (some : clauseOf exports ≠ []) : IsSolid (Text.join ", ".toList (clauseOf exports)) := by
  refine Text.join_of_glue (fun _ _ => IsSolid.glue) some fun piece member => ?_
  rcases List.mem_append.mp member with isDefault | isNamed
  · exact (isName_of_mem_identifiersOfKind areNames (List.mem_of_mem_take isDefault)).isSolid
  · split at isNamed
    next => exact nomatch isNamed
    next someNamed =>
      rw [List.mem_singleton.mp isNamed]
      exact isSolid_braced (by simpa using someNamed) fun name =>
        isName_of_mem_identifiersOfKind areNames

theorem isReadable_namespace {name : Text} (isName : IsName name) (quotable : IsQuotable module) :
    Line.IsReadable ⟨"* as ".toList ++ name, module⟩ where
  stays := by
    have quiet : ∀ c ∈ "* as ".toList, Source.isQuiet c = true := Text.forall_mem_of_all (by decide)
    rw [Source.staysTop_quiet quiet, staysTop_of_isNameText isName.isNameText]
  solid := {
    inClause := List.forall_mem_append.mpr ⟨Text.forall_mem_of_all (by decide), isName.inClause⟩
    begins := by
      have letters : "* as ".toList = ['*', ' ', 'a', 's', ' '] := by decide
      rw [letters]
      rfl
    ends := by
      obtain ⟨last, isLast, visible⟩ := isName.isSolid.ends
      exact ⟨last, by rw [List.getLast?_append, isLast]; rfl, visible⟩ }
  quotable := quotable

theorem isReadable_of_mem_linesOf (areNames : ∀ found ∈ exports, IsName found.identifier)
    (plain : ∀ found ∈ exports, found.IsPlain) (quotable : IsQuotable module) {line : Line}
    (member : line ∈ linesOf module exports) : line.IsReadable := by
  rcases List.mem_append.mp member with isJoint | isWhole
  · split at isJoint
    next => exact nomatch isJoint
    next someClause =>
      have nonempty : clauseOf exports ≠ [] := by simpa using someClause
      rw [List.mem_singleton.mp isJoint]
      exact ⟨staysTop_clauseOf plain nonempty, isSolid_clauseOf areNames nonempty, quotable⟩
  · obtain ⟨identifier, isIdentifier, rfl⟩ := List.mem_map.mp isWhole
    exact isReadable_namespace (isName_of_mem_identifiersOfKind areNames isIdentifier) quotable

/-! ## What the lines of a module bind -/

/-- The export that a binding stands for, by the name and kind it is bound with. -/
def exportOfBinding (binding : Binding) : Export :=
  ⟨binding.localName, binding.module,
    match binding.kind with
    | .asDefault => .asDefault
    | .asNamed => .asNamed
    | .asNamespace => .asNamespace⟩

theorem exportOfBinding_bound (line : Nat) (found : Export) : exportOfBinding (bound line found) = found := by
  obtain ⟨identifier, module, kind⟩ := found
  cases kind <;> rfl

/-- What statements bind, each binding as the export it stands for. -/
def boundExports (statements : List Statement) : List Export :=
  (statements.flatMap (·.bindings)).map exportOfBinding

/-- What a line binds, as exports. -/
def Line.binds (line : Line) : List Export :=
  (readClause line.module 0 line.clause).map exportOfBinding

theorem map_bound (line : Nat) (exports : List Export) :
    (exports.map (bound line)).map exportOfBinding = exports := by
  rw [List.map_map]
  exact (List.map_congr_left fun found _ => exportOfBinding_bound line found).trans (List.map_id _)

theorem readClause_of_mem_linesOf (areNames : ∀ found ∈ exports, IsName found.identifier)
    (ofModule : ∀ found ∈ exports, found.module = module) {line : Line}
    (member : line ∈ linesOf module exports) (number : Nat) :
    ∃ found, readClause module number line.clause = found.map (bound number) ∧ line.binds = found ∧
      line.module = module := by
  rcases List.mem_append.mp member with isJoint | isWhole
  · split at isJoint
    next => exact nomatch isJoint
    next =>
      rw [List.mem_singleton.mp isJoint]
      refine ⟨_, readClause_clauseOf areNames ofModule number, ?_, rfl⟩
      rw [Line.binds, readClause_clauseOf areNames ofModule, map_bound]
  · obtain ⟨identifier, isIdentifier, rfl⟩ := List.mem_map.mp isWhole
    have isName := isName_of_mem_identifiersOfKind areNames isIdentifier
    refine ⟨[⟨identifier, module, .asNamespace⟩], readClause_namespace isName number, ?_, rfl⟩
    rw [Line.binds, readClause_namespace isName]
    exact map_bound 0 [_]

/-- What is read of a line of a module. -/
theorem bindings_of_isReadAs {catalog : Catalog} (areNames : ∀ found ∈ exports, IsName found.identifier)
    (ofModule : ∀ found ∈ exports, found.module = module)
    (published : catalog.canonicalModule module = module) {line : Line}
    (member : line ∈ linesOf module exports) {statement : Statement}
    (isReadAs : Line.IsReadAs catalog line statement) :
    statement.bindings = line.binds.map (bound statement.line) := by
  obtain ⟨found, read, binds, isModule⟩ :=
    readClause_of_mem_linesOf areNames ofModule member statement.line
  rw [isReadAs.bindings, isReadAs.module, isModule, published, read, binds]

theorem perm_kinds (exports : List Export) :
    (exports.filter (·.kind == .asNamed) ++ (exports.filter (·.kind == .asDefault) ++
      exports.filter (·.kind == .asNamespace))).Perm exports := by
  induction exports with
  | nil => exact .nil
  | cons found rest inductionHypothesis =>
      cases isKind : found.kind with
      | asNamed =>
          simp only [List.filter_cons, isKind, beq_self_eq_true, if_pos, reduceCtorEq, beq_iff_eq, if_false]
          exact inductionHypothesis.cons found
      | asDefault =>
          simp only [List.filter_cons, isKind, beq_self_eq_true, if_pos, reduceCtorEq, beq_iff_eq, if_false]
          exact List.perm_middle.trans (inductionHypothesis.cons found)
      | asNamespace =>
          simp only [List.filter_cons, isKind, beq_self_eq_true, if_pos, reduceCtorEq, beq_iff_eq, if_false]
          rw [← List.append_assoc] at inductionHypothesis ⊢
          exact List.perm_middle.trans (inductionHypothesis.cons found)

/-- The lines of a module bind its exports. -/
theorem perm_binds_linesOf (areNames : ∀ found ∈ exports, IsName found.identifier)
    (ofModule : ∀ found ∈ exports, found.module = module)
    (single : (exports.filter (·.kind == .asDefault)).length ≤ 1) :
    ((linesOf module exports).flatMap Line.binds).Perm exports := by
  have joint : (if (clauseOf exports).isEmpty then [] else
      [(⟨Text.join ", ".toList (clauseOf exports), module⟩ : Line)]).flatMap Line.binds =
      jointExports exports := by
    have read := readClause_clauseOf areNames ofModule 0
    split
    next isEmpty =>
      rw [List.isEmpty_iff.mp isEmpty] at read
      exact (List.map_eq_nil_iff.mp read.symm).symm
    next =>
      rw [List.flatMap_singleton, Line.binds, read, map_bound]
  have whole : ((identifiersOfKind .asNamespace exports).map fun identifier =>
      (⟨"* as ".toList ++ identifier, module⟩ : Line)).flatMap Line.binds =
      exports.filter (·.kind == .asNamespace) := by
    have each : ∀ found ∈ exports.filter (·.kind == .asNamespace),
        Line.binds ⟨"* as ".toList ++ found.identifier, module⟩ = [found] := by
      intro found member
      have isName := areNames found (List.mem_filter.mp member).1
      rw [Line.binds, readClause_namespace isName, ← bound_of_kind ofModule 0 member]
      exact map_bound 0 [found]
    rw [identifiersOfKind, List.map_map, List.flatMap_map]
    exact (List.flatMap_congr each).trans (List.flatMap_singleton' _)
  rw [linesOf, List.flatMap_append, joint, whole, jointExports, List.take_of_length_le single,
    List.append_assoc]
  exact perm_kinds exports

end Modules

/-! ## Manifests over a catalog -/

/-- The exports that a manifest lists for a module. -/
def listed (catalog : Catalog) (entry : Text × List Text) : List Export :=
  entry.2.filterMap catalog.lookup

/-- The lines that import a manifest. -/
def linesOfManifest (catalog : Catalog) (manifest : Manifest) : List Line :=
  manifest.modules.flatMap fun entry => linesOf entry.1 (listed catalog entry)

/-- The identifiers of a manifest, each with its module and the way it is bound. -/
def imported (catalog : Catalog) (manifest : Manifest) : List (Text × Text × Option BindingKind) :=
  manifest.modules.flatMap fun entry => entry.2.map fun identifier =>
    (identifier, entry.1, (catalog.lookup identifier).map fun found => bindingKind found.kind)

theorem mapM_eq_ok {Item Result Fault : Type} {step : Item -> Except Fault Result}
    {result : Item -> Result} {items : List Item} (made : ∀ item ∈ items, step item = .ok (result item)) :
    items.mapM step = .ok (items.map result) := by
  induction items with
  | nil => rfl
  | cons first rest inductionHypothesis =>
      rw [List.mapM_cons, made first List.mem_cons_self,
        inductionHypothesis fun item member => made item (List.mem_cons_of_mem first member)]
      rfl

section Manifests

variable {catalog : Catalog} {manifest : Manifest}

theorem mapM_exportOf {identifiers : List Text}
    (provided : ∀ identifier ∈ identifiers, catalog.provides identifier = true) :
    identifiers.mapM (exportOf catalog) = .ok (identifiers.filterMap catalog.lookup) := by
  induction identifiers with
  | nil => rfl
  | cons first rest inductionHypothesis =>
      obtain ⟨found, isFound⟩ := Option.isSome_iff_exists.mp (provided first List.mem_cons_self)
      have made : exportOf catalog first = .ok found := by rw [exportOf, isFound]
      rw [List.mapM_cons, made, inductionHypothesis fun identifier member =>
        provided identifier (List.mem_cons_of_mem first member), List.filterMap_cons, isFound]
      rfl

/-- The imports of a manifest over a catalog can be written, a line for each statement. -/
theorem importBlock_eq (isOver : IsOver catalog manifest) :
    importBlock catalog manifest = .ok (block (linesOfManifest catalog manifest)) := by
  have provided : ∀ entry ∈ manifest.modules, ∀ identifier ∈ entry.2,
      catalog.provides identifier = true := by
    intro entry isEntry identifier member
    obtain ⟨found, isFound, _⟩ := isOver.own entry isEntry identifier member
    rw [Catalog.provides, isFound]
    rfl
  have made : ∀ entry ∈ manifest.modules,
      (do
        let exports ← entry.2.mapM (exportOf catalog)
        return statementsOf entry.1 exports) =
        Except.ok (ε := Text) ((linesOf entry.1 (listed catalog entry)).map Line.text) := by
    intro entry isEntry
    rw [mapM_exportOf (provided entry isEntry), ← statementsOf_eq]
    rfl
  rw [importBlock, mapM_eq_ok made]
  change Except.ok (Text.join ['\n'] (manifest.modules.map fun entry =>
    (linesOf entry.1 (listed catalog entry)).map Line.text).flatten) = _
  rw [block, linesOfManifest, List.map_flatMap, List.flatMap_def]

theorem mem_listed (isOver : IsOver catalog manifest) {entry : Text × List Text}
    (isEntry : entry ∈ manifest.modules) {found : Export} (member : found ∈ listed catalog entry) :
    found ∈ catalog.exports ∧ found.module = entry.1 ∧ catalog.lookup found.identifier = some found := by
  obtain ⟨identifier, isListed, provided⟩ := List.mem_filterMap.mp member
  obtain ⟨other, isOther, sameModule⟩ := isOver.own entry isEntry identifier isListed
  obtain rfl := Option.some.inj (provided.symm.trans isOther)
  have known := Catalog.mem_of_lookup provided
  exact ⟨known.1, sameModule, known.2 ▸ provided⟩

theorem map_identifier_listed (isOver : IsOver catalog manifest) {entry : Text × List Text}
    (isEntry : entry ∈ manifest.modules) :
    (listed catalog entry).map (·.identifier) = entry.2 := by
  have provided := isOver.own entry isEntry
  rw [listed]
  generalize entry.2 = identifiers at provided
  induction identifiers with
  | nil => rfl
  | cons first rest inductionHypothesis =>
      obtain ⟨found, isFound, _⟩ := provided first List.mem_cons_self
      rw [List.filterMap_cons, isFound, List.map_cons, (Catalog.mem_of_lookup isFound).2,
        inductionHypothesis fun identifier member => provided identifier (List.mem_cons_of_mem first member)]

/-- A module has at most one default export, and a manifest lists it at most once. -/
theorem length_defaults_le (importable : catalog.IsImportable) (isOver : IsOver catalog manifest)
    {entry : Text × List Text} (isEntry : entry ∈ manifest.modules) :
    ((listed catalog entry).filter (·.kind == .asDefault)).length ≤ 1 := by
  have nodup : (listed catalog entry).Nodup :=
    List.Nodup.of_map (·.identifier) (map_identifier_listed isOver isEntry ▸ isOver.once entry isEntry)
  have same : ∀ first ∈ (listed catalog entry).filter (·.kind == .asDefault),
      ∀ second ∈ (listed catalog entry).filter (·.kind == .asDefault), first = second := by
    intro first isFirst second isSecond
    obtain ⟨firstListed, firstDefault⟩ := List.mem_filter.mp isFirst
    obtain ⟨secondListed, secondDefault⟩ := List.mem_filter.mp isSecond
    have knownFirst := mem_listed isOver isEntry firstListed
    have knownSecond := mem_listed isOver isEntry secondListed
    have isDefault : first.kind = .asDefault := beq_iff_eq.mp firstDefault
    exact importable.single first knownFirst.1 second knownSecond.1 (by rw [isDefault]; decide)
      (isDefault.trans (beq_iff_eq.mp secondDefault).symm) (knownFirst.2.1.trans knownSecond.2.1.symm)
  have nodupDefaults := nodup.filter (·.kind == .asDefault)
  generalize (listed catalog entry).filter (·.kind == .asDefault) = defaults at same nodupDefaults
  cases defaults with
  | nil => exact Nat.zero_le 1
  | cons first rest =>
      cases rest with
      | nil => exact Nat.le_refl 1
      | cons second others =>
          have repeated := same first List.mem_cons_self second
            (List.mem_cons_of_mem first List.mem_cons_self)
          exact absurd (repeated ▸ List.mem_cons_self) (List.nodup_cons.mp nodupDefaults).1

theorem exists_mem_listed {entry : Text × List Text} {line : Line}
    (isLine : line ∈ linesOf entry.1 (listed catalog entry)) : ∃ found, found ∈ listed catalog entry := by
  refine List.exists_mem_of_ne_nil _ fun isEmpty => ?_
  rw [isEmpty] at isLine
  exact nomatch isLine

theorem isReadable_of_mem_linesOfManifest (importable : catalog.IsImportable)
    (isOver : IsOver catalog manifest) :
    ∀ line ∈ linesOfManifest catalog manifest, line.IsReadable := by
  intro line isLine
  obtain ⟨entry, isEntry, isLine⟩ := List.mem_flatMap.mp isLine
  obtain ⟨found, isListed⟩ := exists_mem_listed isLine
  have known := mem_listed isOver isEntry isListed
  refine isReadable_of_mem_linesOf (fun other member => ?_) (fun other member => ?_) ?_ isLine
  · exact importable.areNames other (mem_listed isOver isEntry member).1
  · exact importable.plain other (mem_listed isOver isEntry member).1
  · exact known.2.1 ▸ (importable.plain found known.1).isQuotable

theorem bindings_of_mem_linesOfManifest (importable : catalog.IsImportable)
    (isOver : IsOver catalog manifest) {line : Line} (isLine : line ∈ linesOfManifest catalog manifest)
    {statement : Statement} (isReadAs : Line.IsReadAs catalog line statement) :
    statement.bindings = line.binds.map (bound statement.line) := by
  obtain ⟨entry, isEntry, isLine⟩ := List.mem_flatMap.mp isLine
  obtain ⟨found, isListed⟩ := exists_mem_listed isLine
  have known := mem_listed isOver isEntry isListed
  refine bindings_of_isReadAs (fun other member => ?_) (fun other member => ?_) ?_ isLine isReadAs
  · exact importable.areNames other (mem_listed isOver isEntry member).1
  · exact (mem_listed isOver isEntry member).2.1
  · exact known.2.1 ▸ importable.published found known.1

/-- The lines of a manifest bind what it lists. -/
theorem perm_binds (importable : catalog.IsImportable) (isOver : IsOver catalog manifest) :
    ((linesOfManifest catalog manifest).flatMap Line.binds).Perm
      (manifest.modules.flatMap (listed catalog)) := by
  rw [linesOfManifest, List.flatMap_assoc]
  refine List.Perm.flatMap_left _ fun entry isEntry => perm_binds_linesOf (fun found member => ?_)
    (fun found member => ?_) (length_defaults_le importable isOver isEntry)
  · exact importable.areNames found (mem_listed isOver isEntry member).1
  · exact (mem_listed isOver isEntry member).2.1

/-- What statements bind that are read of lines. -/
theorem boundExports_eq {lines : List Line} {statements : List Statement}
    (areReadAs : List.Forall₂ (Line.IsReadAs catalog) lines statements)
    (binds : ∀ line ∈ lines, ∀ statement, Line.IsReadAs catalog line statement →
      statement.bindings = line.binds.map (bound statement.line)) :
    boundExports statements = lines.flatMap Line.binds := by
  induction areReadAs with
  | nil => rfl
  | @cons line statement lines statements isReadAs _ inductionHypothesis =>
      have here := binds line List.mem_cons_self statement isReadAs
      have later := inductionHypothesis fun other member => binds other (List.mem_cons_of_mem line member)
      rw [List.flatMap_cons, ← later, boundExports, List.flatMap_cons, List.map_append, here, map_bound]
      rfl

/-- An export, as the identifier, the module, and the way it is bound. -/
def exportFacts (found : Export) : Text × Text × Option BindingKind :=
  (found.identifier, found.module, some (bindingKind found.kind))

/-- A binding, as the name it binds, the module, and the way it is bound. -/
def bindingFacts (binding : Binding) : Text × Text × Option BindingKind :=
  (binding.localName, binding.module, some binding.kind)

theorem exportFacts_exportOfBinding (binding : Binding) :
    exportFacts (exportOfBinding binding) = bindingFacts binding := by
  obtain ⟨localName, module, importedName, kind, line⟩ := binding
  cases kind <;> rfl

theorem imported_eq (isOver : IsOver catalog manifest) :
    imported catalog manifest = (manifest.modules.flatMap (listed catalog)).map exportFacts := by
  rw [imported, List.map_flatMap]
  refine List.flatMap_congr fun entry isEntry => ?_
  have provided := isOver.own entry isEntry
  rw [listed]
  generalize entry.2 = identifiers at provided
  induction identifiers with
  | nil => rfl
  | cons first rest inductionHypothesis =>
      obtain ⟨found, isFound, sameModule⟩ := provided first List.mem_cons_self
      rw [List.map_cons, List.filterMap_cons, isFound, List.map_cons,
        inductionHypothesis fun identifier member => provided identifier (List.mem_cons_of_mem first member),
        exportFacts, (Catalog.mem_of_lookup isFound).2, sameModule]
      rfl

/-- The imports of a manifest over an importable catalog are written, and read back as one binding for
each of its identifiers. -/
theorem exists_read_back (importable : catalog.IsImportable) (isOver : IsOver catalog manifest) :
    ∃ block statements, importBlock catalog manifest = .ok block ∧
      removeStatements block catalog = ([], statements) ∧
      ((statements.flatMap (·.bindings)).map bindingFacts).Perm (imported catalog manifest) := by
  obtain ⟨statements, removed, areReadAs⟩ := exists_removeStatements_block_alone catalog
    (isReadable_of_mem_linesOfManifest importable isOver)
  refine ⟨_, statements, importBlock_eq isOver, removed, ?_⟩
  have bind := boundExports_eq areReadAs fun line isLine statement =>
    bindings_of_mem_linesOfManifest importable isOver isLine
  have facts : (statements.flatMap (·.bindings)).map bindingFacts =
      (boundExports statements).map exportFacts := by
    rw [boundExports, List.map_map]
    exact List.map_congr_left fun binding _ => (exportFacts_exportOfBinding binding).symm
  rw [facts, bind, imported_eq isOver]
  exact (perm_binds importable isOver).map exportFacts

end Manifests

/-! ## Packaged catalogs -/

theorem provides_of_mem {catalog : Catalog} (found : Export) (isExport : found ∈ catalog.exports) :
    catalog.provides found.identifier = true :=
  List.find?_isSome.mpr ⟨found, isExport, beq_self_eq_true _⟩

/-- What is imported in any case is provided: only `React`, and only where it is the default export. -/
theorem provides_implicitImports (framework : Framework) :
    ∀ identifier ∈ (Catalog.packaged framework).implicitImports,
      (Catalog.packaged framework).provides identifier = true := by
  have isReact : (⟨"React".toList, "react".toList, .asDefault⟩ : Export) ∈
      Catalog.listing "react" .asDefault ["React"] := List.mem_singleton_self _
  intro identifier implicit
  cases framework with
  | reactThreeFiber =>
      rw [List.mem_singleton.mp implicit]
      refine provides_of_mem ⟨"React".toList, "react".toList, .asDefault⟩ ?_
      exact List.mem_append_left _ (List.mem_append_left _ (List.mem_append_right _ isReact))
  | reactylon =>
      rw [List.mem_singleton.mp implicit]
      refine provides_of_mem ⟨"React".toList, "react".toList, .asDefault⟩ ?_
      exact List.mem_append_left _ (List.mem_append_left _ (List.mem_append_right _ isReact))
  | threejs => exact nomatch implicit
  | babylonjs => exact nomatch implicit

/-- For every packaged catalog: the manifest of a resolved source lists what is imported in any case, and
otherwise only identifiers of the catalog, under their own modules; and the imports of any manifest that
does so can be written and are read back, with nothing left behind, as exactly one binding for each
identifier. -/
theorem imports_read_back (framework : Framework) :
    (∀ text, IsOver (Catalog.packaged framework) (resolve (Catalog.packaged framework) text).manifest ∧
      ∀ identifier ∈ (Catalog.packaged framework).implicitImports,
        identifier ∈ (resolve (Catalog.packaged framework) text).manifest.identifiers) ∧
    ∀ manifest, IsOver (Catalog.packaged framework) manifest →
      ∃ block statements, importBlock (Catalog.packaged framework) manifest = .ok block ∧
        removeStatements block (Catalog.packaged framework) = ([], statements) ∧
        ((statements.flatMap (·.bindings)).map bindingFacts).Perm
          (imported (Catalog.packaged framework) manifest) := by
  refine ⟨fun text => ⟨?_, fun identifier implicit => ?_⟩, fun manifest isOver => ?_⟩
  · obtain ⟨used, isManifest⟩ := exists_manifestOf_resolve (Catalog.packaged framework) text
    exact isManifest ▸ isOver_manifestOf
  · exact mem_identifiers_of_mem_implicitImports text implicit
      (provides_implicitImports framework identifier implicit)
  · exact exists_read_back (Catalog.isImportable_packaged framework) isOver

theorem imports_read_back_reactylon :
    ("React".toList ∈ (Catalog.packaged .reactylon).implicitImports ∧
      "React".toList ∈ (resolve (Catalog.packaged .reactylon) []).manifest.identifiers) ∧
    IsOver (Catalog.packaged .reactylon)
      ⟨[("@babylonjs/core".toList, ["Vector3".toList]),
        ("react".toList, ["React".toList, "useRef".toList])]⟩ ∧
    ∃ block statements,
      importBlock (Catalog.packaged .reactylon)
          ⟨[("@babylonjs/core".toList, ["Vector3".toList]),
            ("react".toList, ["React".toList, "useRef".toList])]⟩ = .ok block ∧
        removeStatements block (Catalog.packaged .reactylon) = ([], statements) ∧
        ((statements.flatMap (·.bindings)).map bindingFacts).Perm
          (imported (Catalog.packaged .reactylon)
            ⟨[("@babylonjs/core".toList, ["Vector3".toList]),
              ("react".toList, ["React".toList, "useRef".toList])]⟩) := by
  have implicit : "React".toList ∈ (Catalog.packaged .reactylon).implicitImports :=
    List.mem_singleton_self _
  have isOver : IsOver (Catalog.packaged .reactylon)
      ⟨[("@babylonjs/core".toList, ["Vector3".toList]),
        ("react".toList, ["React".toList, "useRef".toList])]⟩ := {
    own := by simp [Catalog.packaged, Catalog.reactylon, Catalog.lookup, Catalog.listing]
    once := by simp }
  exact ⟨⟨implicit, ((imports_read_back .reactylon).1 []).2 _ implicit⟩, isOver,
    (imports_read_back .reactylon).2 _ isOver⟩

end SceneBundler.Imports
