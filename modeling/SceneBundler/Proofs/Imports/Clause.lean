import SceneBundler.Imports.Block
import SceneBundler.Imports.Statement
import SceneBundler.Proofs.Entry.Naming
import SceneBundler.Proofs.Text.Blank
import SceneBundler.Proofs.Text.Joined
import SceneBundler.Proofs.Text.Preferred
import SceneBundler.Proofs.Text.Search

/-!
Contract: the clause of an import statement, read back as it was written.

Owns:
- the binding that an export is read back as;
- that the clause written for exports of a module binds its named exports and one default export,
  and that the clause for a whole module binds that.

Does not own: where a clause stands in a source.
-/

namespace SceneBundler.Imports

open Pattern (Leads Silent)
open Cursor (noting)

/-- A text that is read as one whole name. -/
structure IsName (text : Text) : Prop where
  starts : ∃ first rest, text = first :: rest ∧ Character.startsName first = true
  isNameText : Entry.IsNameText text

/-- The way a statement binds an export. -/
def bindingKind : ExportKind -> BindingKind
  | .asDefault => .asDefault
  | .asNamed => .asNamed
  | .asNamespace => .asNamespace

/-- What a module exports an identifier by. -/
def outerName (found : Export) : Text :=
  match found.kind with
  | .asDefault => "default".toList
  | .asNamed => found.identifier
  | .asNamespace => ['*']

/-- The binding of an export by its own identifier, in a statement on a line. -/
def bound (line : Nat) (found : Export) : Binding :=
  ⟨found.identifier, found.module, outerName found, bindingKind found.kind, line⟩

/-! ## Names -/

namespace IsName

variable {text : Text}

theorem ne_nil (isName : IsName text) : text ≠ [] := by
  obtain ⟨first, rest, rfl, _⟩ := isName.starts
  exact List.cons_ne_nil first rest

theorem not_mem (isName : IsName text) {c : Char} (other : Character.continuesName c = false) :
    c ∉ text := by
  intro member
  rw [isName.isNameText c member] at other
  exact Bool.noConfusion other

theorem isBlank_of_mem (isName : IsName text) {c : Char} (member : c ∈ text) :
    Character.isBlank c = false := by
  rw [← Bool.not_eq_true]
  intro blank
  exact isName.not_mem (Character.continuesName_of_isBlank blank) member

theorem any_head? (isName : IsName text) (ahead : Text) :
    (text ++ ahead).head?.any Character.isBlank = false := by
  obtain ⟨first, rest, split, _⟩ := isName.starts
  have member : first ∈ text := split ▸ List.mem_cons_self
  rw [split, List.cons_append, List.head?_cons, Option.any_some, isName.isBlank_of_mem member]

theorem leads (isName : IsName text) {ahead : Text}
    (ends : ahead.head?.any Character.continuesName = false) (captures : List (Nat × Span))
    (passed : Text) :
    Pattern.name.Leads (noting captures passed (text ++ ahead)) (noting captures (passed ++ text) ahead) := by
  obtain ⟨first, rest, rfl, starts⟩ := isName.starts
  exact Pattern.leads_name captures passed starts
    (fun c member => isName.isNameText c (List.mem_cons_of_mem first member)) ends

theorem isFullMatch (isName : IsName text) : Pattern.name.isFullMatch text = true := by
  have leads := @IsName.leads _ isName [] rfl [] []
  rw [List.append_nil] at leads
  exact Pattern.isFullMatch_of_leads leads rfl

end IsName

/-! ## Names between braces -/

/-- A name with blanks around it. -/
theorem trim_padded {before name after : Text} (isName : IsName name)
    (blankBefore : Text.isBlank before = true) (blankAfter : Text.isBlank after = true) :
    Text.trim (before ++ (name ++ after)) = name :=
  Text.trim_around blankBefore blankAfter
    (fun _ isHead => isName.isBlank_of_mem (List.mem_of_mem_head? isHead))
    (fun _ isLast => isName.isBlank_of_mem (List.mem_of_mem_getLast? isLast))

theorem namedBinding?_padded {before name after : Text} (isName : IsName name)
    (blankBefore : Text.isBlank before = true) (blankAfter : Text.isBlank after = true)
    (module : Text) (line : Nat) :
    namedBinding? module line (before ++ (name ++ after)) =
      some ⟨name, module, name, .asNamed, line⟩ := by
  have noAlias : aliasMark.all name = [] := by
    refine Pattern.all_eq_nil_of_mayBegin (by decide) fun c member => ?_
    have begins : aliasMark.mayBegin c = Character.isBlank c := by
      change ((Character.isBlank c || (false && _)) || (false && _)) = Character.isBlank c
      rw [Bool.false_and, Bool.false_and, Bool.or_false, Bool.or_false]
    rw [begins, isName.isBlank_of_mem member]
  have someName : name.isEmpty = false := by simpa using isName.ne_nil
  rw [namedBinding?, trim_padded isName blankBefore blankAfter, noAlias]
  simp [piecesBetween, someName]

theorem namedBinding?_of_isBlank {blanks : Text} (blank : Text.isBlank blanks = true) (module : Text)
    (line : Nat) : namedBinding? module line blanks = none := by
  have nothing : Text.trim blanks = [] := by
    rw [Text.trim, Text.trimStart_of_isBlank blank]
    rfl
  rw [namedBinding?, nothing]
  rfl

/-- Names with commas between them are read one after another. -/
theorem filterMap_split_join {names : List Text} (areNames : ∀ name ∈ names, IsName name)
    {before after : Text} (blankBefore : Text.isBlank before = true)
    (blankAfter : Text.isBlank after = true) (module : Text) (line : Nat) :
    (Text.split ',' (before ++ (Text.join ", ".toList names ++ after))).filterMap
        (namedBinding? module line) =
      names.map fun name => ⟨name, module, name, .asNamed, line⟩ := by
  have noComma {blanks : Text} (blank : Text.isBlank blanks = true) : ',' ∉ blanks :=
    fun member => Character.ne_of_isBlank (Text.isBlank_iff.mp blank ',' member) (by decide) rfl
  induction names generalizing before with
  | nil =>
      have blank : Text.isBlank (before ++ ([] ++ after)) = true := by
        rw [List.nil_append, Text.isBlank, List.all_append]
        exact Bool.and_eq_true_iff.mpr ⟨blankBefore, blankAfter⟩
      change (Text.split ',' (before ++ ([] ++ after))).filterMap _ = []
      rw [Text.split_of_not_mem (noComma blank), List.filterMap_cons, namedBinding?_of_isBlank blank]
      rfl
  | cons name rest inductionHypothesis =>
      have isName := areNames name List.mem_cons_self
      have areLater : ∀ other ∈ rest, IsName other :=
        fun other member => areNames other (List.mem_cons_of_mem name member)
      cases rest with
      | nil =>
          have absent : ',' ∉ before ++ (name ++ after) := by
            rw [List.mem_append, List.mem_append, not_or, not_or]
            exact ⟨noComma blankBefore, isName.not_mem (by decide), noComma blankAfter⟩
          have single : Text.join ", ".toList [name] = name := by simp [Text.join]
          rw [single, Text.split_of_not_mem absent, List.filterMap_cons,
            namedBinding?_padded isName blankBefore blankAfter]
          rfl
      | cons next others =>
          have absent : ',' ∉ before ++ (name ++ []) := by
            rw [List.mem_append, List.append_nil, not_or]
            exact ⟨noComma blankBefore, isName.not_mem (by decide)⟩
          have comma : ", ".toList = [',', ' '] := by decide
          have onward := @inductionHypothesis areLater [' '] (by decide)
          rw [Text.join_cons_cons]
          have reshaped : before ++ (name ++ (", ".toList ++ Text.join ", ".toList (next :: others)) ++ after) =
              (before ++ (name ++ [])) ++ ',' :: ([' '] ++ (Text.join ", ".toList (next :: others) ++ after)) := by
            rw [comma]
            simp
          rw [reshaped, Text.split_append_cons absent, List.filterMap_cons,
            namedBinding?_padded isName blankBefore (by decide), onward]
          rfl

/-- The names between braces at the end of a clause. -/
def braced (names : List Text) : Text :=
  ['{', ' '] ++ Text.join ", ".toList names ++ [' ', '}']

theorem not_mem_join {names : List Text} {c : Char} (apart : c ∉ ", ".toList)
    (absent : ∀ name ∈ names, c ∉ name) : c ∉ Text.join ", ".toList names := by
  cases names with
  | nil => exact List.not_mem_nil
  | cons first rest =>
      refine @Text.join_of_glue (fun text => c ∉ text) _ _ (fun before after absentBefore absentAfter => ?_)
        (List.cons_ne_nil first rest) absent
      rw [List.mem_append, List.mem_append, not_or, not_or]
      exact ⟨absentBefore, apart, absentAfter⟩

theorem takeNamed_of_no_brace {clause : Text} (absent : '{' ∉ clause) (module : Text) (line : Nat) :
    takeNamed module line clause = ([], clause) := by
  have none : namedClause.first? clause = none := by
    refine Pattern.first?_eq_none_of_mayBegin rfl fun c member => ?_
    have other : c ≠ '{' := fun same => absent (same ▸ member)
    change ((c == '{' || (false && _)) || (false && _)) = false
    rw [Bool.false_and, Bool.false_and, Bool.or_false, Bool.or_false, beq_false_of_ne other]
  rw [takeNamed, none]

/-- The match of the braces at the end of a clause, with what stands between them. -/
def bracesMatch (lead inner : Text) : Match :=
  ⟨lead.length, (lead ++ ['{'] ++ inner ++ ['}']).length,
    [(1, ⟨(lead ++ ['{']).length, (lead ++ ['{']).length + inner.length⟩)]⟩

theorem first?_namedClause {lead inner : Text} (absent : '{' ∉ lead) (noCloser : '}' ∉ inner) :
    namedClause.first? (lead ++ '{' :: (inner ++ ['}'])) = some (bracesMatch lead inner) := by
  refine Pattern.first?_of_find (Pattern.silent_of_mayBegin rfl fun c member => ?_) ?_
  · have other : c ≠ '{' := fun same => absent (same ▸ member)
    change ((c == '{' || (false && _)) || (false && _)) = false
    rw [Bool.false_and, Bool.false_and, Bool.or_false, Bool.or_false, beq_false_of_ne other]
  · have accepted : ∀ c ∈ inner, (c != '}') = true :=
      fun c member => bne_iff_ne.mpr fun same => noCloser (same ▸ member)
    have opens := Pattern.leads_char [] lead '{' (inner ++ ['}'])
    have reads := (@Pattern.leads_run [] (lead ++ ['{']) _ 0 inner ['}'] accepted rfl
      (Nat.zero_le inner.length)).capture rfl 1
    have closes := Pattern.leads_char
      [(1, ⟨(lead ++ ['{']).length, (lead ++ ['{']).length + inner.length⟩)]
      (lead ++ ['{'] ++ inner) '}' []
    exact Pattern.find_of_leads ((opens.append reads).append closes)

theorem captured_bracesMatch (lead inner : Text) :
    (bracesMatch lead inner).captured (lead ++ '{' :: (inner ++ ['}'])) 1 = inner := by
  rw [List.append_cons]
  exact Text.slice_behind _ inner ['}']

theorem without_bracesMatch (lead inner : Text) :
    without (lead ++ '{' :: (inner ++ ['}'])) (bracesMatch lead inner) = lead := by
  simp [without, bracesMatch]

theorem takeNamed_braced {lead : Text} {names : List Text} (absent : '{' ∉ lead)
    (areNames : ∀ name ∈ names, IsName name) (module : Text) (line : Nat) :
    takeNamed module line (lead ++ braced names) =
      (names.map (fun name => ⟨name, module, name, .asNamed, line⟩), lead) := by
  have noCloser : '}' ∉ [' '] ++ (Text.join ", ".toList names ++ [' ']) := by
    have inside : '}' ∉ Text.join ", ".toList names :=
      not_mem_join (by decide) fun name member => (areNames name member).not_mem (by decide)
    simpa using inside
  have reshaped : braced names =
      '{' :: (([' '] ++ (Text.join ", ".toList names ++ [' '])) ++ ['}']) := by
    simp [braced]
  have bindings := @filterMap_split_join names areNames [' '] [' '] (by decide) (by decide) module line
  rw [reshaped, takeNamed, first?_namedClause absent noCloser]
  dsimp only
  rw [captured_bracesMatch, without_bracesMatch, bindings]

/-! ## Whole modules and default exports -/

theorem takeNamespace_of_no_star {clause : Text} (absent : '*' ∉ clause) (module : Text) (line : Nat) :
    takeNamespace module line clause = ([], clause) := by
  have none : namespaceClause.first? clause = none := by
    refine Pattern.first?_eq_none_of_mayBegin rfl fun c member => ?_
    have other : c ≠ '*' := fun same => absent (same ▸ member)
    change ((((c == '*' || (false && _)) || (false && _)) || (false && _)) || (false && _)) = false
    rw [Bool.false_and, Bool.false_and, Bool.false_and, Bool.false_and, Bool.or_false, Bool.or_false,
      Bool.or_false, Bool.or_false, beq_false_of_ne other]
  rw [takeNamespace, none]

theorem takeNamespace_name {name : Text} (isName : IsName name) (module : Text) (line : Nat) :
    takeNamespace module line ("* as ".toList ++ name) =
      ([⟨name, module, ['*'], .asNamespace, line⟩], []) := by
  have found : namespaceClause.first? ("* as ".toList ++ name) =
      some ⟨0, ("* as ".toList ++ name).length, [(1, ⟨5, 5 + name.length⟩)]⟩ := by
    have letters : "* as ".toList = ['*', ' ', 'a', 's', ' '] := by decide
    have word : "as".toList = ['a', 's'] := by decide
    have blanks : ∀ c ∈ [' '], Character.isBlank c = true := Text.forall_mem_of_all (by decide)
    have star := Pattern.leads_char [] [] '*' (' ' :: 'a' :: 's' :: ' ' :: (name ++ []))
    have blank := @Pattern.leads_run [] ['*'] Character.isBlank 0 [' '] ('a' :: 's' :: ' ' :: (name ++ []))
      blanks rfl (Nat.zero_le _)
    have mark := Pattern.leads_word [] ['*', ' '] ['a', 's'] (' ' :: (name ++ []))
    have gap := @Pattern.leads_run [] ['*', ' ', 'a', 's'] Character.isBlank 1 [' '] (name ++ [])
      blanks (isName.any_head? _) (Nat.le_refl 1)
    have named := (@IsName.leads _ isName [] rfl [] ['*', ' ', 'a', 's', ' ']).capture rfl 1
    rw [← word] at mark
    have leads := (((star.append blank).append mark).append gap).append named
    rw [letters]
    rw [List.append_nil] at leads
    refine @Pattern.first?_of_find _ [] _ _ (Pattern.silent_of_mayBegin rfl fun _ member => absurd member List.not_mem_nil) ?_
    exact Pattern.find_of_leads leads
  rw [takeNamespace, found]
  have inside : Match.captured ⟨0, ("* as ".toList ++ name).length, [(1, ⟨5, 5 + name.length⟩)]⟩
      ("* as ".toList ++ name) 1 = name := by
    have whole := @Text.slice_behind ("* as ".toList) name []
    rw [List.append_nil] at whole
    exact whole
  have outside : without ("* as ".toList ++ name)
      ⟨0, ("* as ".toList ++ name).length, [(1, ⟨5, 5 + name.length⟩)]⟩ = [] := by
    simp [without]
  dsimp only
  rw [inside, outside]

/-- A name with commas and blanks behind it. -/
theorem takeDefault_name {name padding : Text} (isName : IsName name)
    (arePadding : ∀ c ∈ padding, isClausePadding c = true) (module : Text) (line : Nat) :
    takeDefault module line (name ++ padding) =
      [⟨name, module, "default".toList, .asDefault, line⟩] := by
  obtain ⟨first, rest, split, _⟩ := isName.starts
  have notPadding {c : Char} (member : c ∈ name) : isClausePadding c = false := by
    rw [← Bool.not_eq_true]
    intro isPadding
    simp only [isClausePadding, Bool.or_eq_true, beq_iff_eq] at isPadding
    rcases isPadding with (((rfl | rfl) | rfl) | rfl) | rfl
    all_goals exact isName.not_mem (by decide) member
  have startsHere : (name ++ padding).dropWhile isClausePadding = name ++ padding := by
    rw [split, List.cons_append, List.dropWhile_cons, notPadding (split ▸ List.mem_cons_self)]
    rfl
  have endsHere : ((name ++ padding).reverse.dropWhile isClausePadding).reverse = name := by
    have passed : ∀ c ∈ padding.reverse, isClausePadding c = true :=
      fun c member => arePadding c (List.mem_reverse.mp member)
    have last : ∀ c ∈ name.reverse.head?, isClausePadding c = false :=
      fun c member => notPadding (List.mem_reverse.mp (List.mem_of_mem_head? member))
    rw [List.reverse_append, List.dropWhile_append_of_pos passed]
    cases backward : name.reverse with
    | nil => exact (List.reverse_eq_nil_iff.mp backward).symm
    | cons c others =>
        rw [backward] at last
        rw [List.dropWhile_cons_of_neg (by simp [last c rfl]), ← backward, List.reverse_reverse]
  unfold takeDefault
  rw [startsHere]
  dsimp only
  rw [endsHere, if_pos isName.isFullMatch]

/-! ## Written clauses -/

section Clauses

variable {module : Text} {exports : List Export}

theorem mem_identifiersOfKind {kind : ExportKind} {identifier : Text} :
    identifier ∈ identifiersOfKind kind exports ↔
      ∃ found ∈ exports, found.kind = kind ∧ found.identifier = identifier := by
  simp [identifiersOfKind, and_assoc]

/-- The exports that a clause binds: those by their names, and the default export. -/
def jointExports (exports : List Export) : List Export :=
  exports.filter (·.kind == .asNamed) ++ (exports.filter (·.kind == .asDefault)).take 1

theorem bound_of_kind {kind : ExportKind} (ofModule : ∀ found ∈ exports, found.module = module)
    (line : Nat) {found : Export} (member : found ∈ exports.filter (·.kind == kind)) :
    bound line found = bound line ⟨found.identifier, module, kind⟩ := by
  obtain ⟨isExport, isKind⟩ := List.mem_filter.mp member
  rw [← ofModule found isExport, ← beq_iff_eq.mp isKind]

/-- A clause whose names between braces follow a default export or nothing. -/
theorem readClause_lead {lead : Text} {names : List Text} {default : List Binding} {line : Nat}
    (noBrace : '{' ∉ lead) (noStar : '*' ∉ lead) (areNames : ∀ name ∈ names, IsName name)
    (isDefault : takeDefault module line lead = default) {clause : Text}
    (written : clause = lead ∧ names = [] ∨ clause = lead ++ braced names) :
    readClause module line clause =
      names.map (fun name => bound line ⟨name, module, .asNamed⟩) ++ default := by
  have taken : takeNamed module line clause =
      (names.map (fun name => bound line ⟨name, module, .asNamed⟩), lead) := by
    rcases written with ⟨rfl, rfl⟩ | rfl
    · exact takeNamed_of_no_brace noBrace module line
    · exact takeNamed_braced noBrace areNames module line
  rw [readClause, taken]
  dsimp only
  rw [takeNamespace_of_no_star noStar]
  dsimp only
  rw [isDefault, List.append_nil]

/-- A clause written for exports of a module is read as their bindings. -/
theorem readClause_clauseOf (areNames : ∀ found ∈ exports, IsName found.identifier)
    (ofModule : ∀ found ∈ exports, found.module = module) (line : Nat) :
    readClause module line (Text.join ", ".toList (clauseOf exports)) =
      (jointExports exports).map (bound line) := by
  have named : ∀ name ∈ identifiersOfKind .asNamed exports, IsName name := by
    intro name member
    obtain ⟨found, isExport, _, rfl⟩ := mem_identifiersOfKind.mp member
    exact areNames found isExport
  have namedBindings : (identifiersOfKind .asNamed exports).map
      (fun name => bound line ⟨name, module, .asNamed⟩) =
      (exports.filter (·.kind == .asNamed)).map (bound line) := by
    rw [identifiersOfKind, List.map_map]
    exact List.map_congr_left fun found member => (bound_of_kind ofModule line member).symm
  have defaultIdentifiers : identifiersOfKind .asDefault exports =
      (exports.filter (·.kind == .asDefault)).map (·.identifier) := rfl
  rw [jointExports, List.map_append, ← namedBindings, clauseOf, defaultIdentifiers]
  generalize identifiersOfKind .asNamed exports = names at named
  cases isDefault : exports.filter (·.kind == .asDefault) with
  | nil =>
      refine @readClause_lead module [] names (([] : List Export).map (bound line)) line List.not_mem_nil
        List.not_mem_nil named rfl _ ?_
      cases names with
      | nil => exact Or.inl ⟨rfl, rfl⟩
      | cons name others => exact Or.inr (by simp [Text.join, braced])
  | cons found others =>
      have member : found ∈ exports.filter (·.kind == .asDefault) := isDefault ▸ List.mem_cons_self
      have isName := areNames found (List.mem_filter.mp member).1
      have single : ((found :: others).take 1).map (bound line) =
          [bound line ⟨found.identifier, module, .asDefault⟩] := by
        rw [← bound_of_kind ofModule line member]
        rfl
      rw [single]
      cases names with
      | nil =>
          have read := @takeDefault_name _ [] isName (fun _ member => absurd member List.not_mem_nil) module line
          rw [List.append_nil] at read
          refine readClause_lead (isName.not_mem (by decide)) (isName.not_mem (by decide)) named read
            (Or.inl ⟨?_, rfl⟩)
          simp [Text.join]
      | cons name rest =>
          have noMark {c : Char} (other : Character.continuesName c = false) (apart : c ∉ ", ".toList) :
              c ∉ found.identifier ++ ", ".toList := by
            rw [List.mem_append, not_or]
            exact ⟨isName.not_mem other, apart⟩
          refine readClause_lead (noMark (by decide) (by decide)) (noMark (by decide) (by decide)) named
            (takeDefault_name isName (Text.forall_mem_of_all (by decide)) module line) (Or.inr ?_)
          simp [Text.join, braced]

/-- The clause for a whole module is read as its binding. -/
theorem readClause_namespace {name : Text} (isName : IsName name) (line : Nat) :
    readClause module line ("* as ".toList ++ name) =
      [bound line ⟨name, module, .asNamespace⟩] := by
  have absent : '{' ∉ "* as ".toList ++ name := by
    rw [List.mem_append, not_or]
    exact ⟨by decide, isName.not_mem (by decide)⟩
  rw [readClause, takeNamed_of_no_brace absent]
  dsimp only
  rw [takeNamespace_name isName]
  rfl

end Clauses

end SceneBundler.Imports
