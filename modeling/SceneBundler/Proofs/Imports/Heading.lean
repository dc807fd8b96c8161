import SceneBundler.Imports.Resolution
import SceneBundler.Proofs.Balance.Heading
import SceneBundler.Proofs.Catalog.Importable
import SceneBundler.Proofs.Text.Ordered

/-!
Contract: the import statements in front of a source.

Owns:
- that the statements for plain exports are code which leaves the reading where it was, and adds
  nothing to what is unbalanced;
- that a resolved source is balanced just if what its imports are put in front of is.

Does not own: which imports are written.
-/

namespace SceneBundler

open Source (staysTop isQuiet quoted IsQuotable Settles)

/-! ## Level code -/

namespace Balance

/-- Within braces one of them is still to be closed. -/
theorem tally_of_staysTop (kind : Source.BracketKind) {inside : Bool} {text : Text}
    (stays : staysTop inside text = true) {net lowest left : Int}
    (leaves : left = if inside = true ∧ kind = .curly then net - 1 else net)
    (ordered : lowest ≤ left) : tally kind net lowest text = (left, lowest) := by
  replace stays := Source.StaysTop.of_staysTop stays
  induction stays generalizing net with
  | nil =>
      rw [leaves]
      rfl
  | opens _ inductionHypothesis =>
      have isLeft : left = net := by simpa using leaves
      cases kind with
      | curly =>
          refine @inductionHypothesis (net + 1) ?_
          rw [if_pos ⟨rfl, rfl⟩, isLeft]
          omega
      | round => exact inductionHypothesis leaves
      | square => exact inductionHypothesis leaves
  | @closes rest _ inductionHypothesis =>
      cases kind with
      | curly =>
          have isLeft : left = net - 1 := by simpa using leaves
          have noLower : min lowest (net - 1) = lowest := Int.min_eq_left (isLeft ▸ ordered)
          have step : tally .curly net lowest ('}' :: rest) =
              tally .curly (net - 1) (min lowest (net - 1)) rest := rfl
          rw [step, noLower, inductionHypothesis isLeft]
      | round => exact inductionHypothesis leaves
      | square => exact inductionHypothesis leaves
  | @quiet inside c rest isQuiet _ inductionHypothesis =>
      have notOpener : c ≠ kind.opener :=
        Source.ne_of_isQuiet isQuiet _ (by cases kind <;> decide)
      have notCloser : c ≠ kind.closer :=
        Source.ne_of_isQuiet isQuiet _ (by cases kind <;> decide)
      rw [tally, if_neg notOpener, if_neg notCloser]
      exact inductionHypothesis leaves

theorem not_mem_of_staysTop {inside : Bool} {text : Text} (stays : staysTop inside text = true) :
    '<' ∉ text := by
  replace stays := Source.StaysTop.of_staysTop stays
  induction stays with
  | nil => exact List.not_mem_nil
  | opens _ inductionHypothesis => simpa using inductionHypothesis
  | closes _ inductionHypothesis => simpa using inductionHypothesis
  | quiet isQuiet _ inductionHypothesis =>
      rw [List.mem_cons, not_or]
      exact ⟨(Source.ne_of_isQuiet isQuiet '<' (by decide)).symm, inductionHypothesis⟩

theorem level_of_staysTop {text : Text} (stays : staysTop false text = true) : Level text :=
  ⟨not_mem_of_staysTop stays, fun kind _ _ ordered =>
    tally_of_staysTop kind stays (by simp) ordered⟩

theorem level_quoted_blanks (length : Nat) : Level (quoted (List.replicate length ' ')) := by
  have only : ∀ c ∈ quoted (List.replicate length ' '), c = '\x27' ∨ c = ' ' := by
    intro c member
    simp only [quoted, List.mem_cons, List.mem_append, List.mem_replicate, List.not_mem_nil,
      or_false] at member
    rcases member with isQuote | ⟨_, isBlank⟩ | isQuote
    · exact Or.inl isQuote
    · exact Or.inr isBlank
    · exact Or.inl isQuote
  have absent (mark : Char) (notQuote : mark ≠ '\x27') (notBlank : mark ≠ ' ') :
      mark ∉ quoted (List.replicate length ' ') :=
    fun member => (only mark member).elim notQuote notBlank
  refine ⟨absent '<' (by decide) (by decide), fun kind net lowest _ => ?_⟩
  refine tally_of_no_brackets net lowest (absent _ ?_ ?_) (absent _ ?_ ?_)
  all_goals cases kind <;> decide

end Balance

namespace Imports

/-! ## Statements -/

theorem isQuiet_of_continuesName {c : Char} (continues : Character.continuesName c = true) :
    isQuiet c = true := by
  have marked : ∀ mark ∈ "/'\"\x60<>()[]\x7b\x7d".toList, Character.continuesName mark = false :=
    Text.forall_mem_of_all (by decide)
  unfold isQuiet
  rw [Bool.not_eq_true', List.contains_eq_mem, decide_eq_false_iff_not]
  intro member
  exact Source.ne_of_continuesName continues c (marked c member) rfl

theorem opensString_from (before : Text) :
    Source.opensString ((" from ".toList.reverse ++ before).take Source.lookBack) = true := by
  have letters : " from ".toList.reverse = [' ', 'm', 'o', 'r', 'f', ' '] := by decide
  rw [letters]
  rfl

/-- A statement that is shown in some form, up to its semicolon, and is level. -/
def IsStatement (statement : Text) : Prop :=
  ∃ lead shown, statement = lead ++ [';'] ∧ Settles lead shown ∧ Balance.Level shown

theorem staysTop_import {clause : Text} (stays : staysTop false clause = true) :
    staysTop false ("import ".toList ++ (clause ++ " from ".toList)) = true := by
  have quietStart : ∀ c ∈ "import ".toList, isQuiet c = true :=
    Text.forall_mem_of_all (by decide)
  have quietEnd : staysTop false " from ".toList = true := by decide
  rw [Source.staysTop_quiet quietStart, Source.staysTop_append stays, quietEnd]

/-- The import of what a clause binds from a module, up to its semicolon, settles. -/
theorem settles_import {clause module : Text} (stays : staysTop false clause = true)
    (quotable : IsQuotable module) :
    Settles ("import ".toList ++ (clause ++ " from ".toList) ++ quoted module)
      ("import ".toList ++ (clause ++ " from ".toList) ++
        quoted (List.replicate module.length ' ')) := by
  intro before lineIsBlank
  have takesLead := Source.takes_of_staysTop (staysTop_import stays) before lineIsBlank
  have opens : Source.opensString ((("import ".toList ++ (clause ++ " from ".toList)).reverse ++
      before).take Source.lookBack) = true := by
    have reversed : ("import ".toList ++ (clause ++ " from ".toList)).reverse ++ before =
        " from ".toList.reverse ++ (clause.reverse ++ ("import ".toList.reverse ++ before)) := by
      generalize "import ".toList = first
      generalize " from ".toList = last
      simp
    rw [reversed]
    exact opensString_from _
  refine ⟨false, ?_⟩
  generalize "import ".toList ++ (clause ++ " from ".toList) = lead at takesLead opens ⊢
  rw [List.reverse_append, List.append_assoc]
  exact takesLead.append (Source.takes_quoted quotable opens _)

theorem level_import {clause : Text} (stays : staysTop false clause = true) (length : Nat) :
    Balance.Level ("import ".toList ++ (clause ++ " from ".toList) ++
      quoted (List.replicate length ' ')) := by
  exact (Balance.level_of_staysTop (staysTop_import stays)).append (Balance.level_quoted_blanks length)

theorem isStatement_import {clause module : Text} (stays : staysTop false clause = true)
    (quotable : IsQuotable module) :
    IsStatement ("import ".toList ++ clause ++ (" from ".toList ++ '\x27' :: module ++ "';".toList)) := by
  refine ⟨_, _, ?_, settles_import stays quotable, level_import stays module.length⟩
  have lastLetters : "';".toList = ['\x27', ';'] := by decide
  rw [lastLetters]
  generalize "import ".toList = first
  generalize " from ".toList = last
  simp [quoted]

/-- Statements stay statements with a line break between them. -/
theorem IsStatement.append {first second : Text} (isFirst : IsStatement first)
    (isSecond : IsStatement second) : IsStatement (first ++ (['\n'] ++ second)) := by
  obtain ⟨lead, shown, rfl, settles, level⟩ := isFirst
  obtain ⟨nextLead, nextShown, rfl, nextSettles, nextLevel⟩ := isSecond
  have staysBetween : staysTop false [';', '\n'] = true := by decide
  refine ⟨lead ++ ([';', '\n'] ++ nextLead), shown ++ ([';', '\n'] ++ nextShown), by simp, ?_, ?_⟩
  · exact settles.append ((Source.settles_of_staysTop staysBetween).append nextSettles)
  · exact level.append ((Balance.level_of_staysTop staysBetween).append nextLevel)

section Clauses

variable {module : Text} {exports : List Export}

theorem isNameText_of_mem_identifiersOfKind (plain : ∀ found ∈ exports, found.IsPlain)
    {kind : ExportKind} {identifier : Text} (member : identifier ∈ identifiersOfKind kind exports) :
    Entry.IsNameText identifier := by
  obtain ⟨found, isFound, rfl⟩ := List.mem_map.mp member
  exact (plain found (List.mem_filter.mp isFound).1).isNameText

theorem isQuiet_of_isNameText {identifier : Text} (isNameText : Entry.IsNameText identifier) :
    ∀ c ∈ identifier, isQuiet c = true :=
  fun c member => isQuiet_of_continuesName (isNameText c member)

theorem staysTop_of_isNameText {identifier : Text} (isNameText : Entry.IsNameText identifier) :
    staysTop false identifier = true :=
  Source.staysTop_of_quiet (isQuiet_of_isNameText isNameText)

/-- Names between braces with commas. -/
theorem staysTop_named {named : List Text} (some : named ≠ [])
    (areNames : ∀ identifier ∈ named, Entry.IsNameText identifier) :
    staysTop false (['{', ' '] ++ Text.join ", ".toList named ++ [' ', '}']) = true := by
  have comma : ∀ c ∈ ", ".toList, isQuiet c = true := Text.forall_mem_of_all (by decide)
  have quiet : ∀ c ∈ Text.join ", ".toList named, isQuiet c = true := by
    refine Text.join_of_glue (fun first second quietFirst quietSecond => ?_) some
      fun identifier member => isQuiet_of_isNameText (areNames identifier member)
    simp only [List.forall_mem_append]
    exact ⟨quietFirst, comma, quietSecond⟩
  have inside := Source.staysTop_quiet quiet true [' ', '}']
  rw [List.append_assoc]
  exact inside

theorem staysTop_clauseOf (plain : ∀ found ∈ exports, found.IsPlain) (some : clauseOf exports ≠ []) :
    staysTop false (Text.join ", ".toList (clauseOf exports)) = true := by
  have comma : ∀ c ∈ ", ".toList, isQuiet c = true := Text.forall_mem_of_all (by decide)
  refine @Text.join_of_glue (fun text => staysTop false text = true) _ _
    (fun first second staysFirst staysSecond => ?_) some fun piece member => ?_
  · rw [Source.staysTop_append staysFirst, Source.staysTop_quiet comma, staysSecond]
  · rcases List.mem_append.mp member with isDefault | isNamed
    · exact staysTop_of_isNameText
        (isNameText_of_mem_identifiersOfKind plain (List.mem_of_mem_take isDefault))
    · split at isNamed
      next => exact nomatch isNamed
      next someNamed =>
        rw [List.mem_singleton.mp isNamed]
        exact staysTop_named (by simpa using someNamed) fun identifier isIdentifier =>
          isNameText_of_mem_identifiersOfKind plain isIdentifier

theorem isStatement_of_mem_statementsOf (quotable : IsQuotable module)
    (plain : ∀ found ∈ exports, found.IsPlain) {statement : Text}
    (member : statement ∈ statementsOf module exports) : IsStatement statement := by
  rcases List.mem_append.mp member with isJoint | isWhole
  · split at isJoint
    next => exact nomatch isJoint
    next someClause =>
      rw [List.mem_singleton.mp isJoint]
      exact isStatement_import (staysTop_clauseOf plain (by simpa using someClause)) quotable
  · obtain ⟨identifier, isIdentifier, rfl⟩ := List.mem_map.mp isWhole
    have isNameText := isNameText_of_mem_identifiersOfKind plain isIdentifier
    have quiet : ∀ c ∈ "* as ".toList, isQuiet c = true := Text.forall_mem_of_all (by decide)
    have stays : staysTop false ("* as ".toList ++ identifier) = true := by
      rw [Source.staysTop_quiet quiet, staysTop_of_isNameText isNameText]
    have lead : "import * as ".toList = "import ".toList ++ "* as ".toList := by decide
    rw [lead, List.append_assoc _ _ identifier]
    exact isStatement_import stays quotable

end Clauses

/-! ## The block in front of a source -/

theorem exists_of_bind_eq_ok {Fault Value Result : Type} {first : Except Fault Value}
    {next : Value -> Except Fault Result} {result : Result} (made : first >>= next = .ok result) :
    ∃ value, first = .ok value ∧ next value = .ok result := by
  cases first with
  | error fault => exact nomatch made
  | ok value => exact ⟨value, rfl, made⟩

theorem exists_of_mem_mapM {Item Result Fault : Type} {step : Item -> Except Fault Result}
    {items : List Item} {results : List Result} (made : items.mapM step = .ok results) :
    ∀ result ∈ results, ∃ item ∈ items, step item = .ok result := by
  induction items generalizing results with
  | nil =>
      obtain rfl := Except.ok.inj made
      exact nofun
  | cons first rest inductionHypothesis =>
      rw [List.mapM_cons] at made
      obtain ⟨firstResult, here, later⟩ := exists_of_bind_eq_ok made
      obtain ⟨restResults, others, whole⟩ := exists_of_bind_eq_ok later
      obtain rfl := Except.ok.inj whole
      intro result member
      rcases List.mem_cons.mp member with isFirst | isLater
      · exact ⟨first, List.mem_cons_self, isFirst ▸ here⟩
      · obtain ⟨item, isItem, gives⟩ := inductionHypothesis others result isLater
        exact ⟨item, List.mem_cons_of_mem first isItem, gives⟩

theorem mem_of_exportOf {catalog : Catalog} {identifier : Text} {found : Export}
    (provided : exportOf catalog identifier = .ok found) : found ∈ catalog.exports := by
  unfold exportOf at provided
  split at provided
  next isFound =>
    obtain rfl := Except.ok.inj provided
    exact List.mem_of_find?_eq_some isFound
  next => exact nomatch provided

/-- Every statement of a block imports exports of the catalog from one of the manifest's modules. -/
theorem exists_statements_of_importBlock {catalog : Catalog} {manifest : Manifest} {block : Text}
    (made : importBlock catalog manifest = .ok block) :
    ∃ statements, block = Text.join ['\n'] statements ∧
      ∀ statement ∈ statements, ∃ entry ∈ manifest.modules, ∃ exports,
        (∀ found ∈ exports, found ∈ catalog.exports) ∧
          statement ∈ statementsOf entry.1 exports := by
  obtain ⟨statements, ofModules, whole⟩ := exists_of_bind_eq_ok made
  refine ⟨statements.flatten, (Except.ok.inj whole).symm, fun statement member => ?_⟩
  obtain ⟨ofModule, isOfModule, isStatement⟩ := List.mem_flatten.mp member
  obtain ⟨entry, isEntry, ofEntry⟩ := exists_of_mem_mapM ofModules ofModule isOfModule
  obtain ⟨exports, provided, written⟩ := exists_of_bind_eq_ok ofEntry
  obtain rfl := Except.ok.inj written
  refine ⟨entry, isEntry, exports, fun found isFound => ?_, isStatement⟩
  obtain ⟨identifier, _, isProvided⟩ := exists_of_mem_mapM provided found isFound
  exact mem_of_exportOf isProvided

/-- A block of imports is made of statements, if it is not empty. -/
theorem isStatement_importBlock {catalog : Catalog} {manifest : Manifest} {block : Text}
    (plain : catalog.IsPlain) (quotable : ∀ entry ∈ manifest.modules, IsQuotable entry.1)
    (made : importBlock catalog manifest = .ok block) (some : block ≠ []) : IsStatement block := by
  obtain ⟨statements, rfl, origin⟩ := exists_statements_of_importBlock made
  have someStatement : statements ≠ [] := by
    rintro rfl
    exact some rfl
  refine Text.join_of_glue (fun first second => IsStatement.append) someStatement
    fun statement member => ?_
  obtain ⟨entry, isEntry, exports, provided, isStatement⟩ := origin statement member
  exact isStatement_of_mem_statementsOf (quotable entry isEntry)
    (fun found isFound => plain found (provided found isFound)) isStatement

/-- The modules of a manifest made from a catalog are the catalog's. -/
theorem exists_export_of_mem_manifestOf {catalog : Catalog} {identifiers : List Text}
    {entry : Text × List Text} (member : entry ∈ (manifestOf catalog identifiers).modules) :
    ∃ found ∈ catalog.exports, found.module = entry.1 := by
  obtain ⟨module, isModule, rfl⟩ := List.mem_map.mp (List.mem_filter.mp member).1
  obtain ⟨pair, isPair, rfl⟩ := List.mem_map.mp (Text.mem_sortedSet.mp isModule)
  obtain ⟨found, isFound, rfl⟩ := List.mem_map.mp isPair
  obtain ⟨identifier, _, provided⟩ := List.mem_filterMap.mp isFound
  exact ⟨found, List.mem_of_find?_eq_some provided, rfl⟩

/-- A source is its first line breaks and what is behind them. -/
theorem exists_breaks (body : Text) : ∃ breaks : Text, (∀ c ∈ breaks, c = '\n') ∧
    body = breaks ++ withoutLeadingBreaks body := by
  refine ⟨body.takeWhile (· == '\n'), fun c member => ?_, List.takeWhile_append_dropWhile.symm⟩
  exact beq_iff_eq.mp (List.all_eq_true.mp List.all_takeWhile c member)

theorem level_breaks {breaks : Text} (allBreaks : ∀ c ∈ breaks, c = '\n') : Balance.Level breaks :=
  Balance.level_of_staysTop (Source.staysTop_breaks allBreaks)

/-- The imports of a manifest that a plain catalog provides are a level heading of what is behind
them. -/
theorem exists_isHeading_prependBlock {catalog : Catalog} (plain : catalog.IsPlain)
    (identifiers : List Text) (body : Text) :
    ∃ heading shown, Source.IsHeading heading shown ∧ Balance.Level shown ∧
      prependBlock catalog (manifestOf catalog identifiers) body = heading ++ withoutLeadingBreaks body := by
  have unchanged : ∃ heading shown, Source.IsHeading heading shown ∧ Balance.Level shown ∧
      body = heading ++ withoutLeadingBreaks body := by
    obtain ⟨breaks, allBreaks, split⟩ := exists_breaks body
    exact ⟨breaks, breaks, Source.isHeading_breaks allBreaks, level_breaks allBreaks, split⟩
  unfold prependBlock
  split
  next block made =>
    split
    next => exact unchanged
    next someBlock =>
      have quotable : ∀ entry ∈ (manifestOf catalog identifiers).modules, IsQuotable entry.1 := by
        intro entry isEntry
        obtain ⟨found, isFound, sameModule⟩ := exists_export_of_mem_manifestOf isEntry
        exact sameModule ▸ (plain found isFound).isQuotable
      obtain ⟨lead, shown, rfl, settles, level⟩ :=
        isStatement_importBlock plain quotable made (by simpa using someBlock)
      have levelEnd : Balance.Level (shown ++ [';', '\n', '\n']) :=
        level.append (Balance.level_of_staysTop (by decide))
      exact ⟨lead ++ [';', '\n', '\n'], _, settles.isHeading, levelEnd, by simp⟩
  next => exact unchanged

/-- Behind the imports of a manifest that a plain catalog provides, a source is balanced just if it is
balanced without them. -/
theorem describe_prependBlock_iff {catalog : Catalog} (plain : catalog.IsPlain)
    (identifiers : List Text) (body : Text) :
    Balance.describe (prependBlock catalog (manifestOf catalog identifiers) body) = [] ↔
      Balance.describe body = [] := by
  obtain ⟨heading, shown, isHeading, level, written⟩ :=
    exists_isHeading_prependBlock plain identifiers body
  obtain ⟨breaks, allBreaks, split⟩ := exists_breaks body
  rw [written, Balance.describe_append_heading_iff isHeading level,
    ← Balance.describe_append_heading_iff (Source.isHeading_breaks allBreaks) (level_breaks allBreaks),
    ← split]

/-- What the removals and renamings of a resolution leave, before the imports are put in front. -/
def remains (catalog : Catalog) (text : Text) : Text :=
  let (written, statements) := removeStatements text catalog
  let declared := declaredNames (Source.mask written)
  let recovered := recoverAliases catalog declared statements written
  (removeHallucinated catalog declared (renameIntrinsicTags catalog declared recovered)).1

theorem exists_prependBlock (catalog : Catalog) (text : Text) :
    ∃ identifiers, (resolve catalog text).text =
      prependBlock catalog (manifestOf catalog identifiers) (remains catalog text) := by
  unfold resolve remains
  obtain ⟨written, statements⟩ := removeStatements text catalog
  dsimp only
  generalize renameIntrinsicTags catalog _ _ = intrinsic
  obtain ⟨body, hallucinated⟩ := removeHallucinated catalog _ intrinsic
  exact ⟨_, rfl⟩

/-- A resolved source is balanced just if what the removals and renamings leave is. -/
theorem describe_resolve_iff {catalog : Catalog} (plain : catalog.IsPlain) (text : Text) :
    Balance.describe (resolve catalog text).text = [] ↔
      Balance.describe (remains catalog text) = [] := by
  obtain ⟨identifiers, resolved⟩ := exists_prependBlock catalog text
  rw [resolved, describe_prependBlock_iff plain]

end Imports

end SceneBundler
