import SceneBundler.Proofs.Source.Bracket
import SceneBundler.Proofs.Text.Search
import SceneBundler.Proofs.Typed.Nesting
import SceneBundler.Proofs.Typed.Quiet
import SceneBundler.Proofs.Typed.Signature

/-!
Contract: typed programs as they are normalized.

Owns:
- where the heads of interfaces and aliases match, how far their statements extend, and that the pass which
  deletes them leaves the other statements, as they are;
- the drafts that are left of a program without its interfaces, aliases and type arguments;
- that normalizing a program leaves it without its types and reports nothing.

Does not own: the other passes.
-/

namespace SceneBundler.Typed

open Dialect
open Source (BracketPairs BracketKind isOpener isCloser)

/-! ## Heads -/

section Heads

variable {passed following : Text} (name : Name)

theorem Name.accepts : Pattern.name.Accepts name.text :=
  (Pattern.accepts_one (startsName_of_isNameStart name.starts)).append
    (Pattern.accepts_run (fun c member => continuesName_of_isNamePart (name.parts c member))
      (Nat.zero_le _))

theorem reads_ambientLead {cursor : Cursor} (begins : cursor.previous.all (· == '\n') = true) :
    ambientLead.Reads cursor cursor := by
  have noIndent : Pattern.indent.Reads cursor cursor :=
    Pattern.reads_run (by simp) (Nat.zero_le _) (Cursor.Passes.refl cursor) rfl
  exact ⟨cursor, ⟨cursor, ⟨cursor, ⟨begins, rfl⟩, noIndent⟩, Or.inr rfl⟩, Or.inr rfl⟩

theorem accepts_gap : Pattern.gap.Accepts [' '] :=
  Pattern.accepts_run (Text.forall_mem_of_all (by decide)) (Nat.le_refl 1)

/-- A keyword and a name with a space behind it. -/
def leadText (keyword : Text) : Text :=
  keyword ++ (name.text ++ [' '])

theorem leadText_append (keyword rest : Text) :
    leadText name keyword ++ rest = keyword ++ (name.text ++ ([' '] ++ rest)) := by
  simp [leadText]

theorem not_mem_leadText {keyword : Text} {mark : Char} (absent : mark ∉ keyword)
    (notPart : isNamePart mark = false) (visible : mark ≠ ' ') : mark ∉ leadText name keyword := by
  simp [leadText, absent, name.not_mem notPart, visible]

theorem exists_reads_interfaceHead (begins : BeginsLine passed) :
    ∃ next, interfaceHead.Reads
      (Cursor.between passed (leadText name "interface ".toList ++ '\x7b' :: following)) next := by
  have star : (Pattern.star (· != '\x7b')).Accepts [' '] :=
    Pattern.accepts_run (Text.forall_mem_of_all (by decide)) (Nat.zero_le _)
  have brace : (Pattern.char '\x7b').Accepts ['\x7b'] := Pattern.accepts_one (by decide)
  have ahead : (Cursor.between passed (leadText name "interface ".toList ++ '\x7b' :: following)).ahead =
      "interface".toList ++ ([' '] ++ (name.text ++ ([' '] ++ (['\x7b'] ++ following)))) :=
    leadText_append name "interface ".toList ('\x7b' :: following)
  obtain ⟨_, readsWord, aheadWord⟩ := (Pattern.accepts_literal "interface").exists_reads
    (@reads_ambientLead (Cursor.between passed _) begins) ahead
  obtain ⟨_, readsGap, aheadGap⟩ := accepts_gap.exists_reads readsWord aheadWord
  obtain ⟨_, readsName, aheadName⟩ := name.accepts.exists_reads readsGap aheadGap
  obtain ⟨_, readsStar, aheadStar⟩ := star.exists_reads readsName aheadName
  obtain ⟨next, reads, _⟩ := brace.exists_reads readsStar aheadStar
  exact ⟨next, reads⟩

theorem exists_reads_typeAliasHead (begins : BeginsLine passed) :
    ∃ next, typeAliasHead.Reads
      (Cursor.between passed (leadText name "type ".toList ++ '=' :: ' ' :: following)) next := by
  have blank : Pattern.blanks.Accepts [' '] := Pattern.accepts_run (Text.forall_mem_of_all (by decide)) (Nat.zero_le _)
  have equals : (Pattern.char '=').Accepts ['='] := Pattern.accepts_one (by decide)
  have none {body : Pattern} : (Pattern.maybe body).Accepts [] :=
    fun cursor _ ahead => ⟨cursor, Or.inr rfl, ahead⟩
  have ahead : (Cursor.between passed (leadText name "type ".toList ++ '=' :: ' ' :: following)).ahead =
      "type".toList ++ ([' '] ++ (name.text ++ ([' '] ++ ([] ++ (['='] ++ (' ' :: following)))))) :=
    leadText_append name "type ".toList ('=' :: ' ' :: following)
  obtain ⟨_, readsWord, aheadWord⟩ := (Pattern.accepts_literal "type").exists_reads
    (@reads_ambientLead (Cursor.between passed _) begins) ahead
  obtain ⟨_, readsGap, aheadGap⟩ := accepts_gap.exists_reads readsWord aheadWord
  obtain ⟨_, readsName, aheadName⟩ := name.accepts.exists_reads readsGap aheadGap
  obtain ⟨_, readsBlank, aheadBlank⟩ := blank.exists_reads readsName aheadName
  obtain ⟨_, readsNone, aheadNone⟩ := none.exists_reads readsBlank aheadBlank
  obtain ⟨next, readsEquals, aheadEquals⟩ := equals.exists_reads readsNone aheadNone
  refine ⟨next, next, readsEquals, ?_, rfl⟩
  rw [aheadEquals]
  rfl

theorem find_interfaceHead {found : Match}
    (foundHere : interfaceHead.find
      (Cursor.between passed (leadText name "interface ".toList ++ '\x7b' :: following)) = some found) :
    found.start = passed.length ∧
      found.stop = passed.length + (leadText name "interface ".toList ++ ['\x7b']).length := by
  obtain ⟨next, reads, rfl⟩ := Pattern.reads_of_find foundHere
  have absent : '\x7b' ∉ leadText name "interface ".toList :=
    not_mem_leadText name (by decide) (by decide) (by decide)
  have shuns : (ambientLead ++ Pattern.literal "interface" ++ Pattern.gap ++ Pattern.name ++
      Pattern.star (· != '\x7b')).shuns '\x7b' = true := by
    decide
  exact ⟨rfl, (Pattern.passes_of_reads_char shuns reads absent rfl).offset_eq⟩

theorem find_typeAliasHead {found : Match}
    (foundHere : typeAliasHead.find
      (Cursor.between passed (leadText name "type ".toList ++ '=' :: following)) = some found) :
    found.start = passed.length ∧
      found.stop = passed.length + (leadText name "type ".toList ++ ['=']).length := by
  obtain ⟨next, ⟨middle, reads, _, rfl⟩, rfl⟩ := Pattern.reads_of_find foundHere
  have absent : '=' ∉ leadText name "type ".toList :=
    not_mem_leadText name (by decide) (by decide) (by decide)
  have shuns : (ambientLead ++ Pattern.literal "type" ++ Pattern.gap ++ Pattern.name ++ Pattern.blanks ++
      Pattern.maybe (Pattern.char '<' ++ .run (fun c => c != '=' && c != ';') 0 none true ++
        Pattern.char '>' ++ Pattern.blanks)).shuns '=' = true := by
    decide
  exact ⟨rfl, (Pattern.passes_of_reads_char shuns reads absent rfl).offset_eq⟩

end Heads

/-! ## Extents -/

/-- A statement that takes up its line is removed with it. -/
theorem statementRemoval_line (passed text following : Text) :
    statementRemoval (passed ++ (text ++ '\n' :: following)) passed.length
        (passed.length + text.length) =
      Edit.deletion passed.length (passed.length + (text ++ ['\n']).length) := by
  have split : passed ++ (text ++ '\n' :: following) = (passed ++ text) ++ '\n' :: following := by
    rw [List.append_assoc]
  have stop : passed.length + text.length = (passed ++ text).length := List.length_append.symm
  have skipped := @Text.skip_eq_self (passed ++ text) Text.isIndent ('\n' :: following) rfl
  have notSemicolon : some '\n' ≠ some ';' := by decide
  rw [statementRemoval, split, stop, Text.getElem?_behind, if_neg notSemicolon, skipped, Text.getElem?_behind,
    if_pos rfl]
  simp [Nat.add_assoc]

/-- A statement goes over a type. -/
theorem goesOverStatement_type (full : Bool) (type : TypePhrase) :
    GoesOverStatement 0 0 (type.text full) := by
  refine (type.nested full).goes scans_statement (fun depth c isMark => ?_) fun c isMark => ?_
  · obtain ⟨notOpener, notCloser⟩ := isOpener_of_innerMark isMark
    exact goesOverStatement_mark notOpener notCloser fun isZero => absurd isZero (Nat.succ_ne_zero depth)
  · obtain ⟨notOpener, notCloser⟩ := isOpener_of_innerMark (innerMark_of_outerMark isMark)
    have others : outerMark full ';' = false ∧ outerMark full '\n' = false := by
      cases full <;> decide
    refine goesOverStatement_mark notOpener notCloser fun _ => ⟨fun same => ?_, fun same => ?_⟩
    · rw [markOf, same, others.1] at isMark
      contradiction
    · rw [markOf, same, others.2] at isMark
      contradiction

/-- The statement of an alias ends with its semicolon. -/
theorem statementEnd_synonym (passed : Text) (type : TypePhrase) (following : Text) :
    statementEnd (passed ++ (' ' :: (type.text true ++ ';' :: following))) passed.length =
      passed.length + (' ' :: (type.text true ++ [';'])).length := by
  have blank : GoesOverStatement 0 0 [' '] := goesOverStatement_mark rfl rfl fun _ => by decide
  obtain ⟨last, read⟩ := goesOverStatement_append blank (goesOverStatement_type true type)
    (';' :: following) none 0
  rw [statementEnd, List.drop_left]
  rw [List.singleton_append, List.cons_append] at read
  rw [read, statementLength]
  simp [isOpener, isCloser]

theorem pairsUp_members (kind : BracketKind) (members : List Member) :
    PairsUp kind (members.flatMap (Member.text true)) := by
  induction members with
  | nil => exact pairsUp_marks kind [] rfl
  | cons member others inductionHypothesis =>
      have here := (member.key.pairsUp kind).append (((pairsUp_marks kind [':', ' '] (by decide)).append
        (member.type.pairsUp true kind)).append (pairsUp_marks kind [';', ' '] (by decide)))
      rw [List.flatMap_cons]
      exact here.append inductionHypothesis

/-! ## Edits -/

theorem interfaceText_lead (name : Name) (members : Text) :
    interfaceText name members =
      leadText name "interface ".toList ++ '\x7b' :: ' ' :: (members ++ ['\x7d']) := by
  rw [leadText_append, interfaceText_eq]
  rfl

theorem synonymText_lead (name : Name) (type : Text) :
    synonymText name type =
      leadText name "type ".toList ++ '=' :: ' ' :: (type ++ [';']) := by
  rw [leadText_append, synonymText_eq]
  rfl

/-- Whether a statement is neither an interface nor an alias. -/
def Statement.isKept : Statement -> Bool
  | .interface _ _ => false
  | .synonym _ _ => false
  | .binding _ _ _ => true
  | .function _ _ _ _ => true

section Edits

variable {passed following : Text} {name : Name} {found : Match}

/-- An interface is removed with its line. -/
theorem interface_edit {members : List Member}
    (foundHere : foundAt interfaceHead (Statement.text true) passed (.interface name members) following =
      some found) :
    ((BracketPairs.ofText
        (passed ++ ((Statement.interface name members).text true ++ '\n' :: following))).closerOf?
          (found.stop - 1)).map (fun closed => statementRemoval
            (passed ++ ((Statement.interface name members).text true ++ '\n' :: following)) found.start
              (closed + 1)) =
      some (Edit.deletion passed.length
        (passed.length + ((Statement.interface name members).text true ++ ['\n']).length)) := by
  rw [foundAt, Statement.text_interface, interfaceText_lead, List.append_assoc] at foundHere
  obtain ⟨start, stop⟩ := find_interfaceHead name foundHere
  obtain ⟨inner, pairs, _⟩ := (pairsUp_marks .curly [' '] (by decide)).append
    (pairsUp_members .curly members) ((passed ++ leadText name "interface ".toList).length + 1)
  have closed := @BracketPairs.closerOf?_enclosed .curly (passed ++ leadText name "interface ".toList) _
    ('\n' :: following) _ pairs
  have whole : passed ++ ((Statement.interface name members).text true ++ '\n' :: following) =
      (passed ++ leadText name "interface ".toList) ++ BracketKind.curly.opener ::
        (([' '] ++ members.flatMap (Member.text true)) ++ BracketKind.curly.closer :: '\n' :: following) := by
    rw [Statement.text_interface, interfaceText_lead]
    simp [BracketKind.opener, BracketKind.closer]
  have opened : found.stop - 1 = (passed ++ leadText name "interface ".toList).length := by
    rw [stop]
    simp
  have last : (passed ++ leadText name "interface ".toList).length + 1 +
      ([' '] ++ members.flatMap (Member.text true)).length + 1 =
      passed.length + ((Statement.interface name members).text true).length := by
    rw [Statement.text_interface, interfaceText_lead]
    simp
    omega
  rw [opened, whole, closed, ← whole, Option.map_some, last, start, statementRemoval_line]

/-- An alias is removed with its line. -/
theorem synonym_edit {type : TypePhrase}
    (foundHere : foundAt typeAliasHead (Statement.text true) passed (.synonym name type) following =
      some found) :
    statementRemoval (passed ++ ((Statement.synonym name type).text true ++ '\n' :: following)) found.start
        (statementEnd (passed ++ ((Statement.synonym name type).text true ++ '\n' :: following))
          found.stop) =
      Edit.deletion passed.length
        (passed.length + ((Statement.synonym name type).text true ++ ['\n']).length) := by
  rw [foundAt, Statement.text_synonym, synonymText_lead, List.append_assoc] at foundHere
  obtain ⟨start, stop⟩ := find_typeAliasHead name foundHere
  have whole : passed ++ ((Statement.synonym name type).text true ++ '\n' :: following) =
      (passed ++ (leadText name "type ".toList ++ ['='])) ++
        (' ' :: (type.text true ++ ';' :: '\n' :: following)) := by
    rw [Statement.text_synonym, synonymText_lead]
    simp
  have behind : found.stop = (passed ++ (leadText name "type ".toList ++ ['='])).length := by
    rw [stop]
    simp
  have last : (passed ++ (leadText name "type ".toList ++ ['='])).length +
      (' ' :: (type.text true ++ [';'])).length =
      passed.length + ((Statement.synonym name type).text true).length := by
    rw [Statement.text_synonym, synonymText_lead]
    simp
    omega
  rw [behind, whole, statementEnd_synonym, ← whole, last, start, statementRemoval_line]

end Edits

/-- Which statements the heads are found at. -/
theorem foundAt_interfaceHead {passed following : Text} {statement : Statement} {found : Match}
    (foundHere : foundAt interfaceHead (Statement.text true) passed statement following = some found) :
    ∃ name members, statement = .interface name members := by
  have notRead {c : Char} {rest : Text} (isText : statement.text true = c :: rest)
      (beginsNot : interfaceHead.mayBegin c = false) : False := by
    obtain ⟨next, reads, _⟩ := Pattern.reads_of_find foundHere
    exact Pattern.not_reads_of_mayBegin rfl beginsNot (by rw [isText]; rfl) reads
  cases statement with
  | interface name members => exact ⟨name, members, rfl⟩
  | synonym name type => exact (@notRead 't' _ rfl (by decide)).elim
  | binding name type value => exact (@notRead 'l' _ rfl (by decide)).elim
  | function name parameters result value => exact (@notRead 'f' _ rfl (by decide)).elim

theorem foundAt_typeAliasHead {passed following : Text} {statement : Statement} {found : Match}
    (foundHere : foundAt typeAliasHead (Statement.text true) passed statement following = some found) :
    ∃ name type, statement = .synonym name type := by
  have notRead {c : Char} {rest : Text} (isText : statement.text true = c :: rest)
      (beginsNot : typeAliasHead.mayBegin c = false) : False := by
    obtain ⟨next, reads, _⟩ := Pattern.reads_of_find foundHere
    exact Pattern.not_reads_of_mayBegin rfl beginsNot (by rw [isText]; rfl) reads
  cases statement with
  | interface name members => exact (@notRead 'i' _ rfl (by decide)).elim
  | synonym name type => exact ⟨name, type, rfl⟩
  | binding name type value => exact (@notRead 'l' _ rfl (by decide)).elim
  | function name parameters result value => exact (@notRead 'f' _ rfl (by decide)).elim

theorem mem_all_interfaceHead {program : List Statement} {found : Match} :
    found ∈ interfaceHead.all (written program) ↔
      ∃ before statement after, Among program before statement after ∧
        foundAt interfaceHead (Statement.text true) (lines (before.map (Statement.text true))) statement
          (lines (after.map (Statement.text true))) = some found := by
  refine mem_all_lines rfl fun statement _ passed following _ => ?_
  obtain ⟨c, rest, isText, _⟩ := statement.exists_head true
  refine finds_line rfl isText (statement.not_mem_break true) fun found foundHere => ?_
  obtain ⟨name, members, rfl⟩ := foundAt_interfaceHead foundHere
  rw [foundAt, Statement.text_interface, interfaceText_lead, List.append_assoc] at foundHere
  rw [(find_interfaceHead name foundHere).2, Statement.text_interface, interfaceText_lead]
  simp

theorem mem_all_typeAliasHead {program : List Statement} {found : Match} :
    found ∈ typeAliasHead.all (written program) ↔
      ∃ before statement after, Among program before statement after ∧
        foundAt typeAliasHead (Statement.text true) (lines (before.map (Statement.text true))) statement
          (lines (after.map (Statement.text true))) = some found := by
  refine mem_all_lines rfl fun statement _ passed following _ => ?_
  obtain ⟨c, rest, isText, _⟩ := statement.exists_head true
  refine finds_line rfl isText (statement.not_mem_break true) fun found foundHere => ?_
  obtain ⟨name, type, rfl⟩ := foundAt_typeAliasHead foundHere
  rw [foundAt, Statement.text_synonym, synonymText_lead, List.append_assoc] at foundHere
  rw [(find_typeAliasHead name foundHere).2, Statement.text_synonym, synonymText_lead]
  simp

/-- The deletion of an interface or an alias with its line. -/
def declaredEdits (passed : Text) (statement : Statement) (_ : Text) : List Edit :=
  if statement.isKept then []
  else [Edit.deletion passed.length (passed.length + (statement.text true ++ ['\n']).length)]

theorem editsLines_typeDeclarationEdits (program : List Statement) :
    EditsLines (typeDeclarationEdits (written program)) (Statement.text true) program declaredEdits := by
  have noImport := all_typeOnlyImport program
  have noAmbient : ambientHead.all (written program) = [] :=
    all_written_eq_nil rfl rfl (Text.forall_mem_of_all (by decide)) program
  intro edit
  simp only [typeDeclarationEdits, noImport, noAmbient, List.map_nil, List.nil_append, List.append_nil,
    List.mem_append, List.mem_filterMap, List.mem_map, mem_all_interfaceHead, mem_all_typeAliasHead]
  constructor
  · rintro (⟨found, ⟨before, statement, after, among, foundHere⟩, isEdit⟩ |
        ⟨found, ⟨before, statement, after, among, foundHere⟩, isEdit⟩)
    · obtain ⟨name, members, rfl⟩ := foundAt_interfaceHead foundHere
      rw [written, lines_of_among among, interface_edit foundHere] at isEdit
      exact ⟨before, _, after, among, List.mem_singleton.mpr (Option.some.inj isEdit).symm⟩
    · obtain ⟨name, type, rfl⟩ := foundAt_typeAliasHead foundHere
      rw [written, lines_of_among among, synonym_edit foundHere] at isEdit
      exact ⟨before, _, after, among, List.mem_singleton.mpr isEdit.symm⟩
  · rintro ⟨before, statement, after, among, isEdit⟩
    cases statement with
    | interface name members =>
        obtain ⟨next, reads⟩ := @exists_reads_interfaceHead (lines (before.map (Statement.text true)))
          (' ' :: (members.flatMap (Member.text true) ++ ['\x7d']) ++
            '\n' :: lines (after.map (Statement.text true))) name (beginsLine_lines _)
        obtain ⟨found, isFound⟩ := Option.isSome_iff_exists.mp (Pattern.isSome_find_iff.mpr ⟨next, reads⟩)
        have foundHere : foundAt interfaceHead (Statement.text true)
            (lines (before.map (Statement.text true))) (.interface name members)
              (lines (after.map (Statement.text true))) = some found := by
          rw [foundAt, Statement.text_interface, interfaceText_lead, List.append_assoc]
          exact isFound
        refine Or.inl ⟨found, ⟨before, _, after, among, foundHere⟩, ?_⟩
        rw [written, lines_of_among among, interface_edit foundHere, List.mem_singleton.mp isEdit]
    | synonym name type =>
        obtain ⟨next, reads⟩ := @exists_reads_typeAliasHead (lines (before.map (Statement.text true)))
          ((type.text true ++ [';']) ++ '\n' :: lines (after.map (Statement.text true))) name
            (beginsLine_lines _)
        obtain ⟨found, isFound⟩ := Option.isSome_iff_exists.mp (Pattern.isSome_find_iff.mpr ⟨next, reads⟩)
        have foundHere : foundAt typeAliasHead (Statement.text true)
            (lines (before.map (Statement.text true))) (.synonym name type)
              (lines (after.map (Statement.text true))) = some found := by
          rw [foundAt, Statement.text_synonym, synonymText_lead, List.append_assoc]
          exact isFound
        refine Or.inr ⟨found, ⟨before, _, after, among, foundHere⟩, ?_⟩
        rw [written, lines_of_among among, synonym_edit foundHere, List.mem_singleton.mp isEdit]
    | binding name type value => exact absurd isEdit List.not_mem_nil
    | function name parameters result value => exact absurd isEdit List.not_mem_nil

/-- A round of the pass deletes the interfaces and aliases with their lines. -/
theorem editOnce_typeDeclarationEdits (program : List Statement) :
    editOnce typeDeclarationEdits (written program) = written (program.filter Statement.isKept) := by
  have round := @editOnce_lines Statement (Statement.text true) program typeDeclarationEdits
    (fun statement => [⟨statement.isKept, statement.text true ++ ['\n']⟩]) declaredEdits
    (mask_written program) (fun statement => by simp [Piece.source])
    (fun statement piece member => by
      rw [List.mem_singleton.mp member]
      exact List.append_ne_nil_of_right_ne_nil _ (List.cons_ne_nil _ _))
    (editsLines_typeDeclarationEdits program)
    (fun statement _ passed following _ => by
      rw [declaredEdits, Piece.deletions, Piece.deletions]
      exact Edit.Covers.refl _)
  rw [written, round]
  clear round
  induction program with
  | nil => rfl
  | cons statement others inductionHypothesis =>
      rw [List.flatMap_cons, inductionHypothesis]
      cases isKept : statement.isKept <;>
        simp [Piece.remainder, isKept, written, lines_cons]

/-- The pass deletes the interfaces and aliases with their lines. -/
theorem editUntilSettled_typeDeclarationEdits (program : List Statement) :
    editUntilSettled typeDeclarationEdits (written program) =
      written (program.filter Statement.isKept) := by
  have deletes := @sublist_editOnce typeDeclarationEdits (by simp [passes])
  rw [← editUntilSettled_editOnce deletes, editOnce_typeDeclarationEdits]
  refine (editUntilSettled_eq_self_iff deletes).mpr ?_
  rw [IsSettled, editOnce_typeDeclarationEdits, List.filter_filter]
  simp

/-! ## Drafts of statements -/

/-- A statement as a draft with all its types, unless it is an interface or an alias. -/
def Statement.draft? : Statement -> Option Draft
  | .interface _ _ => none
  | .synonym _ _ => none
  | .binding name type value => some (.binding name (some type) value)
  | .function name parameters result value =>
      some (.function name (parameters.map Parameter.slot) (some result) value)

/-- The drafts of a program. -/
def drafts (program : List Statement) : List Draft :=
  program.filterMap Statement.draft?

/-- Without its type arguments a statement is its draft. -/
theorem Statement.text_draft {statement : Statement} {draft : Draft}
    (isDraft : statement.draft? = some draft) : draft.text false = statement.text false := by
  cases statement with
  | interface | synonym => contradiction
  | binding name type value =>
      obtain rfl := Option.some.inj isDraft
      rfl
  | function name parameters result value =>
      obtain rfl := Option.some.inj isDraft
      rw [Draft.text_function, Statement.text_function, List.map_map]
      rfl

/-- A draft without any types is what is left of its statement. -/
theorem Statement.text_bare (statement : Statement) :
    statement.draft?.map (fun draft => draft.untyped.bare.text false) = statement.erased? := by
  cases statement with
  | interface | synonym => rfl
  | binding name type value => rfl
  | function name parameters result value =>
      have parameter (slot : Slot) : slot.bare.text false = slot.name.text := by
        simp [Slot.bare, Slot.text, Slot.mark, ascribed]
      simp [Statement.draft?, Draft.untyped, Draft.bare, Draft.text_function, Statement.erased?,
        Function.comp_def, parameter, Parameter.slot, ascribed]

theorem lines_kept (program : List Statement) :
    lines ((program.filter Statement.isKept).map (Statement.text false)) =
      draftLines (drafts program) := by
  rw [draftLines, drafts, List.map_filterMap]
  refine congrArg lines ?_
  induction program with
  | nil => rfl
  | cons statement rest inductionHypothesis =>
      cases isDraft : statement.draft? with
      | none =>
          have dropped : statement.isKept = false := by cases statement <;> trivial
          rw [List.filter_cons_of_neg (by simp [dropped]), inductionHypothesis,
            List.filterMap_cons_none (by rw [isDraft]; rfl)]
      | some draft =>
          have kept : statement.isKept = true := by cases statement <;> trivial
          rw [List.filter_cons_of_pos kept, List.map_cons, inductionHypothesis,
            List.filterMap_cons_some (by rw [isDraft]; rfl), Statement.text_draft isDraft]

theorem draftLines_bare (program : List Statement) :
    draftLines (((drafts program).map Draft.untyped).map Draft.bare) = erased program := by
  rw [draftLines, drafts, List.map_map, List.map_map, List.map_filterMap, erased]
  exact congrArg lines (congrArg (fun leaves => List.filterMap leaves program)
    (funext Statement.text_bare))

/-! ## Programs -/

/-- Normalizing a program deletes exactly its types, and there is nothing to report. -/
theorem normalize_written (program : List Statement) :
    Dialect.normalize (written program) = (erased program, []) := by
  have untyped : ∀ draft ∈ (drafts program).map Draft.untyped, draft.untyped = draft := by
    intro draft member
    obtain ⟨typed, _, rfl⟩ := List.mem_map.mp member
    cases typed <;> rfl
  have declared := editUntilSettled_typeDeclarationEdits program
  have angled := (grouped_lines (program.filter Statement.isKept)).editUntilSettled_eq
  rw [lines_kept] at angled
  have nonNull := editUntilSettled_of_nil (drafts program) (by simp [passes])
    (nonNullEdits_draftLines _)
  have cast := editUntilSettled_of_nil (drafts program) (by simp [passes]) (castEdits_draftLines _)
  have member := editUntilSettled_of_nil (drafts program) (by simp [passes])
    (classMemberEdits_draftLines _)
  have variables_ := editUntilSettled_declarationEdits (drafts program)
  have signatures := editUntilSettled_signatureEdits untyped
  rw [draftLines_bare] at signatures
  have erasedAll : passes.foldl (fun current collect => editUntilSettled collect current)
      (written program) = erased program := by
    simp only [passes, List.foldl_cons, List.foldl_nil]
    rw [declared]
    change editUntilSettled signatureEdits (editUntilSettled declarationEdits
      (editUntilSettled classMemberEdits (editUntilSettled castEdits (editUntilSettled nonNullEdits
        (editUntilSettled typeArgumentEdits
          (lines ((program.filter Statement.isKept).map (Statement.text true)))))))) = _
    rw [angled, nonNull, cast, member, variables_, signatures]
  rw [Dialect.normalize, unsupportedConstructs_written, convertEnums_written]
  dsimp only
  rw [erasedAll]
  rfl

end SceneBundler.Typed
