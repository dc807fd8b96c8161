import SceneBundler.Proofs.Typed.Quiet
import SceneBundler.Proofs.Untyped.Expression

/-!
Contract: what normalization does not find in statements of the plain language.

Owns:
- that a keyword is not followed by a name there, whichever words are used as names;
- that nothing is reported or converted, and that the passes before the one over signatures find nothing;
- that such a statement is its own normal form just if the pass over signatures has nothing to do on it.

Does not own: what the pass over signatures does.
-/

namespace SceneBundler.Untyped

open Dialect
open Cursor (Passes)

variable {text passed word : Text} {cursor middle next : Cursor}

/-! ## Blanks behind words -/

/-- A blank behind anything but a mark stands in front of a mark. -/
theorem Spaced.head_behind_gap (spaced : Spaced text) (split : text = passed ++ cursor.ahead)
    (behind : passed.getLast?.any takesBlanks = false) {accepts : Char -> Bool}
    (blanks : ∀ c, accepts c = true → Character.isBlank c = true)
    (gap : (Pattern.plus accepts).Reads cursor next) : next.ahead.head?.any takesBlanks = true := by
  obtain ⟨gapText, accepted, enough, passes⟩ := Pattern.passes_of_reads_run gap
  rw [passes.ahead_eq] at split
  cases gapText with
  | nil => exact absurd enough (Nat.not_succ_le_zero 0)
  | cons c more =>
      have blank := blanks c (accepted c List.mem_cons_self)
      rcases spaced passed c (more ++ next.ahead) split blank with isBehind | isAhead
      · rw [behind] at isBehind
        contradiction
      · cases more with
        | nil => exact isAhead
        | cons d more =>
            have blankToo := blanks d (accepted d (List.mem_cons_of_mem c List.mem_cons_self))
            have apart : ∀ mark, takesBlanks mark = true → Character.isBlank mark = false := by
              intro mark isMark
              have marks : "?:=>;".toList = ['?', ':', '=', '>', ';'] := rfl
              rw [takesBlanks, marks, List.contains_iff_mem] at isMark
              simp only [List.mem_cons, List.not_mem_nil, or_false] at isMark
              rcases isMark with rfl | rfl | rfl | rfl | rfl <;> decide
            rw [apart d isAhead] at blankToo
            contradiction

/-- A blank behind a word stands in front of a mark. -/
theorem Spaced.head_behind_word (spaced : Spaced text) (split : text = passed ++ cursor.ahead)
    {last : Char} (isLast : word.getLast? = some last) (noMark : takesBlanks last = false)
    (reads : (Pattern.word word).Reads cursor middle) {accepts : Char -> Bool}
    (blanks : ∀ c, accepts c = true → Character.isBlank c = true)
    (gap : (Pattern.plus accepts).Reads middle next) : next.ahead.head?.any takesBlanks = true := by
  obtain ⟨passesWord, _⟩ := Pattern.reads_word_iff.mp reads
  rw [passesWord.ahead_eq, ← List.append_assoc] at split
  refine spaced.head_behind_gap split ?_ blanks gap
  rw [List.getLast?_append, isLast]
  exact noMark

/-- What is read in front of a mark begins with one. -/
theorem not_reads_at_mark {pattern : Pattern} (nonempty : pattern.mayBeEmpty = false)
    (begins : ∀ mark ∈ "?:=>;".toList, pattern.mayBegin mark = false)
    (isMark : cursor.ahead.head?.any takesBlanks = true) : ¬pattern.Reads cursor next := by
  cases isAhead : cursor.ahead with
  | nil =>
      rw [isAhead] at isMark
      contradiction
  | cons c rest =>
      rw [isAhead] at isMark
      exact Pattern.not_reads_of_mayBegin nonempty (begins c (List.contains_iff_mem.mp isMark)) isAhead

/-! ## Keywords -/

theorem all_abstractClass (spaced : Spaced text) : abstractClass.all text = [] := by
  refine Pattern.all_eq_nil fun passed ahead next split reads => ?_
  obtain ⟨_, ⟨_, ⟨_, ⟨_, ⟨_, ⟨_, rfl⟩, word⟩, gap⟩, keyword⟩, _⟩, _⟩ := reads
  have isMark := spaced.head_behind_word split rfl (by decide) word (fun _ blank => blank) gap
  exact not_reads_at_mark rfl (Text.forall_mem_of_all (by decide)) isMark keyword

theorem all_classHead (spaced : Spaced text) : classHead.all text = [] := by
  refine Pattern.all_eq_nil fun passed ahead next split reads => ?_
  obtain ⟨_, ⟨_, ⟨_, ⟨_, ⟨_, ⟨_, rfl⟩, word⟩, gap⟩, name⟩, _⟩, _⟩ := reads
  have isMark := spaced.head_behind_word split rfl (by decide) word (fun _ blank => blank) gap
  exact not_reads_at_mark rfl (Text.forall_mem_of_all (by decide)) isMark name

theorem all_declarationKeyword (spaced : Spaced text) : declarationKeyword.all text = [] := by
  refine Pattern.all_eq_nil fun passed ahead next split reads => ?_
  obtain ⟨here, ⟨_, ⟨_, ⟨_, rfl⟩, keyword⟩, gap⟩, follows, _⟩ := reads
  have ofWord {word : Text} {last : Char} (isLast : word.getLast? = some last)
      (noMark : takesBlanks last = false) {behind : Cursor}
      (reads : (Pattern.word word).Reads (Cursor.between passed ahead) behind)
      (gap : Pattern.gap.Reads behind here) : here.ahead.head?.any takesBlanks = true :=
    spaced.head_behind_word split isLast noMark reads (fun _ blank => blank) gap
  have isMark : here.ahead.head?.any takesBlanks = true := by
    rcases keyword with isConst | isLet | isVar
    · exact ofWord rfl (by decide) isConst gap
    · exact ofWord rfl (by decide) isLet gap
    · exact ofWord rfl (by decide) isVar gap
  obtain ⟨there, begins⟩ := follows.mpr rfl
  have noStart : ∀ mark ∈ "?:=>;".toList,
      (Pattern.one fun c => Character.startsName c || opensBinding c).mayBegin mark = false :=
    Text.forall_mem_of_all (by decide)
  exact not_reads_at_mark rfl noStart isMark begins

theorem all_castSuffix (spaced : Spaced text) : castSuffix.all text = [] := by
  refine Pattern.all_eq_nil fun passed ahead next split reads => ?_
  obtain ⟨_, ⟨_, ⟨_, ⟨_, ⟨_, ⟨behind, rfl⟩, gap⟩, keyword⟩, _⟩, _⟩, _⟩ := reads
  have noMark : passed.getLast?.any takesBlanks = false := by
    rw [← Bool.not_eq_true]
    intro isMark
    change passed.getLast?.any (fun c => Character.continuesName c || c == ')' || c == ']') = true at behind
    cases isLast : passed.getLast? with
    | none =>
        rw [isLast] at isMark
        contradiction
    | some c =>
        rw [isLast, Option.any_some] at isMark behind
        have others : ∀ mark ∈ "?:=>;".toList,
            (Character.continuesName mark || mark == ')' || mark == ']') = false :=
          Text.forall_mem_of_all (by decide)
        rw [others c (List.contains_iff_mem.mp isMark)] at behind
        contradiction
  have isMark := spaced.head_behind_gap split noMark (fun _ => Character.isBlank_of_isIndent) gap
  exact not_reads_at_mark rfl (Text.forall_mem_of_all (by decide)) isMark keyword

/-! ## Angle brackets -/

/-- A character that is read is in the text. -/
theorem mem_of_reads_char {c : Char} (isIn : cursor.IsIn text)
    (reads : (Pattern.char c).Reads cursor next) : c ∈ text := by
  obtain ⟨d, isChar, passes, _⟩ := Cursor.passes_of_step? reads
  obtain ⟨before, split, _⟩ := isIn
  rw [split, passes.ahead_eq, beq_iff_eq.mp isChar]
  exact List.mem_append_right _ List.mem_cons_self

theorem typeArgumentEdits_eq_nil (noAngle : '<' ∉ text) : typeArgumentEdits text = [] := by
  have noArguments : typeArguments.all text = [] := by
    refine Pattern.all_eq_nil fun passed ahead next split reads => ?_
    obtain ⟨_, ⟨_, ⟨_, lead, angle⟩, _⟩, _⟩ := reads
    have isIn := (Cursor.isIn_between passed ahead).of_reads lead
    rw [← split] at isIn
    exact noAngle (mem_of_reads_char isIn angle)
  have noParameters : arrowTypeParameters.all text = [] := by
    refine Pattern.all_eq_nil fun passed ahead next split reads => ?_
    obtain ⟨_, ⟨_, ⟨_, ⟨_, ⟨_, ⟨_, ⟨_, ⟨_, lead, angle⟩, _⟩, _⟩, _⟩, _⟩, _⟩, _⟩, _⟩ := reads
    have isIn := (Cursor.isIn_between passed ahead).of_reads lead
    rw [← split] at isIn
    exact noAngle (mem_of_reads_char isIn angle)
  rw [typeArgumentEdits, noArguments, noParameters]
  rfl

/-! ## Statements -/

variable (expression : Expression)

/-- The one line of a statement begins with its variable, and so with no keyword. -/
theorem all_statement_eq_nil {pattern : Pattern} (isLineStart : pattern.leftmost = Pattern.lineStart)
    (nonempty : pattern.mayBeEmpty = false) (begins : pattern.mayBegin 'v' = false) :
    pattern.all expression.statement = [] := by
  have isLine : expression.statement = Typed.lines [expression.line] := by
    simp [Expression.statement, Typed.lines]
  rw [isLine]
  refine Typed.all_lines_eq_nil isLineStart nonempty fun text member => ?_
  rw [List.mem_singleton.mp member]
  refine ⟨'v', _, rfl, expression.not_mem_line (by decide), fun passed following next => ?_⟩
  exact Pattern.not_reads_of_mayBegin nonempty begins rfl

theorem unsupportedConstructs_statement : unsupportedConstructs expression.statement = [] := by
  have noNamespace : namespaceBlock.all expression.statement = [] :=
    all_statement_eq_nil expression rfl rfl (by decide)
  rw [unsupportedConstructs, expression.mask_statement, noNamespace,
    all_abstractClass expression.spaced_statement]
  rfl

theorem convertEnums_statement :
    convertEnums expression.statement = (expression.statement, []) := by
  have noEnum : enumHead.all expression.statement = [] :=
    all_statement_eq_nil expression rfl rfl (by decide)
  rw [convertEnums, expression.mask_statement, noEnum]
  rfl

theorem typeDeclarationEdits_statement : typeDeclarationEdits expression.statement = [] := by
  have noImport : typeOnlyImport.all expression.statement = [] :=
    all_statement_eq_nil expression rfl rfl (by decide)
  have noInterface : interfaceHead.all expression.statement = [] :=
    all_statement_eq_nil expression rfl rfl (by decide)
  have noAlias : typeAliasHead.all expression.statement = [] :=
    all_statement_eq_nil expression rfl rfl (by decide)
  have noAmbient : ambientHead.all expression.statement = [] :=
    all_statement_eq_nil expression rfl rfl (by decide)
  rw [typeDeclarationEdits, noImport, noInterface, noAlias, noAmbient]
  rfl

/-- None of the passes before the one over signatures finds anything. -/
theorem edits_statement_eq_nil :
    ∀ collect ∈ passes.dropLast, collect expression.statement = [] := by
  intro collect isPass
  have split : passes.dropLast = [typeDeclarationEdits, typeArgumentEdits, nonNullEdits, castEdits,
    classMemberEdits, declarationEdits] := rfl
  have spaced := expression.spaced_statement
  simp only [split, List.mem_cons, List.not_mem_nil, or_false] at isPass
  rcases isPass with rfl | rfl | rfl | rfl | rfl | rfl
  · exact typeDeclarationEdits_statement expression
  · exact typeArgumentEdits_eq_nil (expression.not_mem_statement (by decide) (by decide))
  · exact Typed.nonNullEdits_eq_nil (expression.not_mem_statement (by decide) (by decide))
  · rw [castEdits, all_castSuffix spaced]
    rfl
  · rw [classMemberEdits, all_classHead spaced]
    rfl
  · rw [declarationEdits, all_declarationKeyword spaced]
    rfl

/-- A statement is its own normal form just if the pass over signatures has nothing to do on it. -/
theorem normalize_statement_iff :
    normalize expression.statement = (expression.statement, []) ↔
      IsSettled signatureEdits expression.statement := by
  have settledOf {collect : Text -> List Edit} (isPass : collect ∈ passes.dropLast) :
      IsSettled collect expression.statement := by
    rw [IsSettled, editOnce, expression.mask_statement, edits_statement_eq_nil expression collect isPass]
    rfl
  have split : passes = passes.dropLast ++ [signatureEdits] := rfl
  rw [normalize_eq_self_iff]
  constructor
  · rintro ⟨_, _, settled⟩
    exact settled signatureEdits (split ▸ List.mem_append_right _ (List.mem_singleton_self _))
  · intro settled
    refine ⟨unsupportedConstructs_statement expression, convertEnums_statement expression, ?_⟩
    intro collect isPass
    rw [split] at isPass
    rcases List.mem_append.mp isPass with isEarlier | isLast
    · exact settledOf isEarlier
    · rw [List.mem_singleton.mp isLast]
      exact settled

end SceneBundler.Untyped
