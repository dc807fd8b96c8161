import SceneBundler.Proofs.Typed.Phrase
import SceneBundler.Proofs.Typed.Quiet

/-!
Contract: the pass that deletes the types of variables.

Owns:
- that the keyword of a variable is found where its line begins, and nowhere else;
- that the pass leaves every variable without its type, and the functions as they are.

Does not own: the types of parameters and results.
-/

namespace SceneBundler.Typed

open Dialect
open Source (BracketPairs)
open Text (Lacks)

/-! ## Keywords -/

/-- The tails of the words that statements begin with have none of the words that are looked for. -/
theorem tails_lack {word : Text} (watched : word ∈ watchedWords) :
    ∀ keyword ∈ keywords, ∀ text : Text, Lacks word text → Lacks word (keyword.tail ++ text) := by
  have apart : ∀ keyword ∈ keywords, keyword.tail.getLast?.any Character.isWord = false ∧
      ∀ word ∈ watchedWords, (word.any fun c => !keyword.tail.contains c) = true := by
    decide
  intro keyword isKeyword text lacks
  obtain ⟨ends, absent⟩ := apart keyword isKeyword
  obtain ⟨c, isIn, notIn⟩ := Text.exists_not_mem_of_any (absent word watched)
  have lacksKeyword : Lacks word keyword.tail := Text.lacks_of_not_mem isIn notIn
  exact lacksKeyword.append (isWord_of_mem_watchedWords word watched) lacks (Or.inl ends)

/-- Behind its first character, a statement has none of the words that are looked for. -/
theorem Draft.lacks_tail (draft : Draft) {word : Text} (watched : word ∈ watchedWords) :
    Lacks word (draft.text false).tail := by
  have joins := joins_lacks false watched
  cases draft with
  | binding name type value =>
      exact tails_lack watched "let ".toList (by decide) _ (joins.binding name type value)
  | function name slots result value =>
      exact tails_lack watched "function ".toList (by decide) _
        (joins.function name slots (result.map Result.type) value)

/-- The keyword of a variable is not found in a line that lacks it. -/
theorem silent_declarationKeyword {passed line following : Text}
    (lacks : ∀ word ∈ watchedWords, Lacks word line) :
    declarationKeyword.Silent passed (line ++ ['\n']) following := by
  refine Pattern.silent_line fun more beyond isLine next reads => ?_
  obtain ⟨_, ⟨_, ⟨start, border, word⟩, gap⟩, _⟩ := reads
  have unread {letters : String} (watched : letters.toList ∈ watchedWords)
      {middle behind : Cursor} (readsWord : (Pattern.literal letters).Reads start middle)
      (readsGap : Pattern.gap.Reads middle behind) : False := by
    have facts : ∀ word ∈ watchedWords, word.head?.any Character.isWord = true ∧ '\n' ∉ word := by
      decide
    obtain ⟨isWordFirst, noBreak⟩ := facts _ watched
    obtain ⟨rfl, apart⟩ := Pattern.apart_of_wordBoundary border isWordFirst readsWord
    exact Pattern.not_reads_of_lacks_line (lacks _ watched) isLine noBreak rfl rfl apart
      (fun _ => Character.isWord_of_isBlank) readsWord readsGap
  rcases word with word | word | word
  · exact unread (by decide) word gap
  · exact unread (by decide) word gap
  · exact unread (by decide) word gap

/-- The keyword and the name of a variable. -/
def variableLead (name : Name) : Text :=
  ['l', 'e', 't', ' '] ++ name.text

theorem variableText_lead (name : Name) (ascription initializer : Text) :
    variableText name ascription initializer =
      variableLead name ++ (ascription ++ (initializer ++ [';'])) := by
  rw [variableText_eq, variableLead, List.append_assoc]
  rfl

section Keyword

variable {passed following : Text} (name : Name)

theorem exists_reads_declarationKeyword (begins : BeginsLine passed) :
    ∃ next, declarationKeyword.Reads (Cursor.between passed (variableLead name ++ following)) next := by
  have notWord : passed.getLast?.any Character.isWord = false := by
    rw [BeginsLine] at begins
    cases isLast : passed.getLast? with
    | none => rfl
    | some c =>
        rw [isLast, Option.all_some, beq_iff_eq] at begins
        rw [begins]
        decide
  have border : Pattern.wordBoundary.Reads (Cursor.between passed (variableLead name ++ following))
      (Cursor.between passed (variableLead name ++ following)) := by
    refine ⟨?_, rfl⟩
    change (passed.getLast?.any Character.isWord != Character.isWord 'l') = true
    rw [notWord]
    decide
  have accepts : (Pattern.anyOf [Pattern.literal "const", Pattern.literal "let",
      Pattern.literal "var"]).Accepts "let".toList := by
    intro cursor rest ahead
    obtain ⟨next, reads, aheadNext⟩ := Pattern.accepts_literal "let" cursor rest ahead
    exact ⟨next, Or.inr (Or.inl reads), aheadNext⟩
  have gap : Pattern.gap.Accepts [' '] := Pattern.accepts_run (Text.forall_mem_of_all (by decide)) (Nat.le_refl 1)
  have ahead : (Cursor.between passed (variableLead name ++ following)).ahead =
      "let".toList ++ ([' '] ++ (name.text ++ following)) := by
    simp [Cursor.between, variableLead]
  obtain ⟨_, readsWord, aheadWord⟩ := accepts.exists_reads border ahead
  obtain ⟨next, reads, aheadGap⟩ := gap.exists_reads readsWord aheadWord
  have starts : (Character.startsName name.first || opensBinding name.first) = true := by
    rw [startsName_of_isNameStart name.starts, Bool.true_or]
  obtain ⟨there, peeks, _⟩ := @Pattern.accepts_one (fun c => Character.startsName c || opensBinding c)
    name.first starts next (name.rest ++ following) aheadGap
  exact ⟨next, next, reads, ⟨fun _ => rfl, fun _ => ⟨there, peeks⟩⟩, rfl⟩

theorem find_declarationKeyword {found : Match}
    (foundHere : declarationKeyword.find (Cursor.between passed (variableLead name ++ following)) =
      some found) : found.stop = passed.length + 4 := by
  obtain ⟨next, ⟨_, ⟨_, ⟨start, ⟨_, rfl⟩, word⟩, gap⟩, ⟨_, rfl⟩⟩, rfl⟩ := Pattern.reads_of_find foundHere
  obtain ⟨passesWord, _⟩ : Cursor.Passes "let".toList _ _ ∧ _ := by
    rcases word with word | word | word
    · exact absurd (List.cons.inj (Pattern.reads_word_iff.mp word).1.ahead_eq).1 (by decide)
    · exact Pattern.reads_word_iff.mp word
    · exact absurd (List.cons.inj (Pattern.reads_word_iff.mp word).1.ahead_eq).1 (by decide)
  obtain ⟨blanks, areBlank, enough, passesGap⟩ := Pattern.passes_of_reads_run gap
  have visible := isBlank_of_isNamePart (isNamePart_of_start name.starts)
  have isGap : ' ' :: (name.text ++ following) = blanks ++ next.ahead := by
    have same : "let".toList ++ (' ' :: (name.text ++ following)) =
        "let".toList ++ blanks ++ next.ahead := (passesWord.trans passesGap).ahead_eq
    rw [List.append_assoc] at same
    exact List.append_cancel_left same
  have isBlank : blanks = [' '] := by
    rcases blanks with _ | ⟨c, _ | ⟨d, blanks⟩⟩
    · exact absurd enough (Nat.not_succ_le_zero 0)
    · rw [(List.cons.inj isGap).1]
    · have isFirst := (List.cons.inj (List.cons.inj isGap).2).1
      rw [isFirst, areBlank d (by simp)] at visible
      contradiction
  have reached := (passesWord.trans passesGap).offset_eq
  rw [isBlank] at reached
  exact reached

end Keyword

/-! ## Edits -/

/-- A statement without the type of its variable. -/
def Draft.untyped : Draft -> Draft
  | .binding name _ value => .binding name none value
  | .function name slots result value => .function name slots result value

/-- A line as what the pass keeps of it and what it drops. -/
def Draft.variablePieces : Draft -> List Piece
  | .binding name type value =>
      Piece.keep (variableLead name) ::
        (Piece.drops (ascribed false type) ++ [Piece.keep (initializer false value ++ [';', '\n'])])
  | .function name slots result value =>
      [Piece.keep ((Draft.function name slots result value).text false ++ ['\n'])]

theorem Draft.source_variablePieces (draft : Draft) :
    Piece.source draft.variablePieces = draft.text false ++ ['\n'] := by
  cases draft with
  | binding name type value =>
      rw [Draft.text_binding, variableText_lead]
      simp [Draft.variablePieces]
  | function name slots result value => simp [Draft.variablePieces]

theorem Draft.remainder_variablePieces (draft : Draft) :
    Piece.remainder draft.variablePieces = draft.untyped.text false ++ ['\n'] := by
  cases draft with
  | binding name type value =>
      rw [Draft.untyped, Draft.text_binding, variableText_lead]
      simp [Draft.variablePieces, ascribed]
  | function name slots result value => simp [Draft.variablePieces, Draft.untyped]

theorem Draft.variablePieces_ne_nil (draft : Draft) :
    ∀ piece ∈ draft.variablePieces, piece.text ≠ [] := by
  intro piece member
  cases draft with
  | binding name type value =>
      simp only [Draft.variablePieces, List.mem_cons, List.mem_append, List.not_mem_nil, or_false] at member
      rcases member with rfl | isDropped | rfl
      · exact List.cons_ne_nil _ _
      · exact Piece.text_ne_nil_of_mem_drops isDropped
      · exact List.append_ne_nil_of_right_ne_nil _ (List.cons_ne_nil _ _)
  | function name slots result value =>
      rw [List.mem_singleton.mp member]
      exact List.append_ne_nil_of_right_ne_nil _ (List.cons_ne_nil _ _)

/-- What is read behind the name of a variable decides about the edits of its declaration. -/
theorem declarationEditsOf_eq {masked : Text} {pairs : BracketPairs} {found : Match} {stop marker : Nat}
    {c : Char} (bound : bindingEnd? masked pairs masked.length found.stop = some stop)
    (skipped : Text.skip Text.isIndent masked stop = marker) (isThere : masked[marker]? = some c)
    (notMark : c ≠ '!') :
    declarationEditsOf masked pairs found =
      if c = ':' then
        [annotationRemoval masked marker (typeEnd masked (marker + 1) masked.length "=;,\n")]
      else [] := by
  have unmarked : (masked[marker]? == some '!' && masked[marker + 1]? != some '=') = false := by
    simp [isThere, notMark]
  rw [declarationEditsOf, bound]
  dsimp only
  rw [skipped, unmarked]
  simp [isThere]

theorem isTypeStop_of_variableStops :
    ∀ c, "=;,\n".toList.contains c = true → isTypeStop c = true := by
  intro c member
  simpa [isTypeStop, or_assoc] using member

/-- Behind its type, a variable has a semicolon or an equals sign. -/
theorem exists_initializer (value : Option Value) (following : Text) :
    ∃ blanks c rest, initializer false value ++ (';' :: following) = blanks ++ c :: rest ∧
      (∀ d ∈ blanks, d = ' ') ∧ (c = ';' ∨ c = '=') ∧
        ∀ earlier : Text, isCompoundEquals (earlier ++ blanks).getLast? c rest.head? = false := by
  cases value with
  | none => exact ⟨[], ';', following, rfl, by simp, Or.inl rfl, fun _ => rfl⟩
  | some value =>
      refine ⟨[' '], '=', ' ' :: (value.text false ++ (';' :: following)), ?_, by simp, Or.inr rfl,
        fun earlier => ?_⟩
      · simp [initializer]
      · rw [List.getLast?_concat]
        rfl

section Declarations

variable (passed following : Text) (pairs : BracketPairs) (name : Name)

theorem bindingEnd?_variable {rest : Text} (ends : rest.head?.any Character.continuesName = false) :
    bindingEnd? (passed ++ variableLead name ++ rest) pairs
        (passed ++ variableLead name ++ rest).length (passed.length + 4) =
      some (passed ++ variableLead name).length := by
  have split : passed ++ variableLead name ++ rest =
      (passed ++ ['l', 'e', 't', ' ']) ++ (name.text ++ rest ++ []) := by
    simp [variableLead]
  have start : passed.length + 4 = (passed ++ ['l', 'e', 't', ' ']).length := by simp
  have stop : (passed ++ variableLead name).length =
      (passed ++ ['l', 'e', 't', ' ']).length + name.text.length := by
    simp [variableLead]
    omega
  have limit : ((passed ++ ['l', 'e', 't', ' ']) ++ (name.text ++ rest ++ [])).length =
      (passed ++ ['l', 'e', 't', ' ']).length + (name.text ++ rest).length := by
    simp
    omega
  rw [split, start, stop, limit, bindingEnd?_name _ name [] pairs ends]

/-- The type of a variable is removed with its colon, if the scanner for types stops behind it. -/
theorem declarationEditsOf_typed (type : TypePhrase) (value : Option Value) {found : Match}
    (stop : found.stop = passed.length + 4) :
    declarationEditsOf (passed ++ variableLead name ++
        (ascription false type ++ (initializer false value ++ (';' :: following)))) pairs found =
      [Edit.deletion (passed ++ variableLead name).length
        ((passed ++ variableLead name).length + (ascription false type).length)] := by
  obtain ⟨blanks, c, rest, isBehind, areBlank, isStop, notCompound⟩ := exists_initializer value following
  have whole : ascription false type ++ (initializer false value ++ (';' :: following)) =
      ':' :: (' ' :: type.text false ++ (blanks ++ c :: rest)) := by
    rw [isBehind]
    rfl
  have notPart : Character.continuesName ':' = false := by decide
  have bound := @bindingEnd?_variable passed pairs name
    (':' :: (' ' :: type.text false ++ (blanks ++ c :: rest))) notPart
  rw [← stop] at bound
  have skipped := @Text.skip_eq_self (passed ++ variableLead name) Text.isIndent
    (':' :: (' ' :: type.text false ++ (blanks ++ c :: rest))) rfl
  have isColon := Text.getElem?_behind (passed ++ variableLead name)
    (' ' :: type.text false ++ (blanks ++ c :: rest)) ':'
  have stopsAt : "=;,\n".toList.contains c = true := by
    rcases isStop with rfl | rfl <;> decide
  have removed := @annotationRemoval_ascription "=;,\n" isTypeStop_of_variableStops
    (passed ++ variableLead name) type blanks areBlank (c :: rest) []
    (by simpa using typeLength_stop stopsAt (notCompound (ascription false type)) rest.length)
  have same : ascription false type ++ blanks ++ (c :: rest ++ []) =
      ':' :: (' ' :: type.text false ++ (blanks ++ c :: rest)) := by
    simp [ascription]
  have limit : (passed ++ variableLead name).length + (ascription false type ++ blanks ++ c :: rest).length =
      (passed ++ variableLead name ++ ':' :: (' ' :: type.text false ++ (blanks ++ c :: rest))).length := by
    simp [ascription]
    omega
  rw [same, limit] at removed
  rw [whole, declarationEditsOf_eq bound skipped isColon (by decide), if_pos rfl, removed]

/-- A variable without a type is left alone. -/
theorem declarationEditsOf_untyped (value : Option Value) {found : Match}
    (stop : found.stop = passed.length + 4) :
    declarationEditsOf (passed ++ variableLead name ++
      (initializer false value ++ (';' :: following))) pairs found = [] := by
  obtain ⟨blanks, c, rest, isBehind, areBlank, isStop, _⟩ := exists_initializer value following
  have facts : ∀ c ∈ [' ', ';', '='], Character.continuesName c = false :=
    Text.forall_mem_of_all (by decide)
  have endsName : (blanks ++ c :: rest).head?.any Character.continuesName = false := by
    cases blanks with
    | nil => exact facts c (by rcases isStop with rfl | rfl <;> simp)
    | cons d blanks => exact facts d (by simp [areBlank d])
  have bound := @bindingEnd?_variable passed pairs name (blanks ++ c :: rest) endsName
  rw [← stop] at bound
  have skipped := @Text.skip_behind (passed ++ variableLead name) Text.isIndent blanks (c :: rest)
    (fun d member => by rw [areBlank d member]; rfl) (by rcases isStop with rfl | rfl <;> rfl)
  have isThere := Text.getElem?_behind (passed ++ variableLead name ++ blanks) rest c
  rw [List.append_assoc, List.length_append] at isThere
  have notMark : c ≠ '!' ∧ c ≠ ':' := by
    rcases isStop with rfl | rfl <;> decide
  rw [isBehind, declarationEditsOf_eq bound skipped isThere notMark.1, if_neg notMark.2]

end Declarations

section Lines

variable {passed following : Text}

theorem foundAt_declarationKeyword_binding (begins : BeginsLine passed) (name : Name)
    (type : Option TypePhrase) (value : Option Value) :
    ∃ found, foundAt declarationKeyword (Draft.text false) passed (.binding name type value) following =
      some found ∧ found.stop = passed.length + 4 := by
  rw [foundAt, Draft.text_binding, variableText_lead, List.append_assoc]
  obtain ⟨next, reads⟩ := @exists_reads_declarationKeyword passed
    (ascribed false type ++ (initializer false value ++ [';']) ++ '\n' :: following) name begins
  obtain ⟨found, isFound⟩ := Option.isSome_iff_exists.mp (Pattern.isSome_find_iff.mpr ⟨next, reads⟩)
  exact ⟨found, isFound, find_declarationKeyword name isFound⟩

theorem foundAt_declarationKeyword_function (name : Name) (slots : List Slot) (result : Option Result)
    (value : Value) : foundAt declarationKeyword (Draft.text false) passed
      (.function name slots result value) following = none :=
  Pattern.find_eq_none fun _ => @Pattern.not_reads_of_mayBegin declarationKeyword _ _ 'f' _ rfl
    (by decide) rfl

/-- The keyword of a variable is found at most where its line begins. -/
theorem finds_declarationKeyword (begins : BeginsLine passed) (draft : Draft) :
    declarationKeyword.Finds passed (draft.text false ++ ['\n']) following
      (foundAt declarationKeyword (Draft.text false) passed draft following).toList := by
  obtain ⟨c, line, isText⟩ : ∃ c line, draft.text false = c :: line := by
    cases draft with
    | binding name type value => exact ⟨'l', _, rfl⟩
    | function name slots result value => exact ⟨'f', _, rfl⟩
  have lacks : ∀ word ∈ watchedWords, Lacks word line := by
    intro word watched
    have here := draft.lacks_tail watched
    rwa [isText] at here
  have split : c :: (line ++ ['\n']) ++ following = draft.text false ++ '\n' :: following := by
    simp [isText]
  have finds := @Pattern.finds_of_silent_tail declarationKeyword passed (line ++ ['\n']) following c
    (silent_declarationKeyword lacks) fun found isFound => by
      rw [split] at isFound
      cases draft with
      | binding name type value =>
          obtain ⟨other, isOther, stop⟩ :=
            @foundAt_declarationKeyword_binding passed following begins name type value
          obtain rfl : found = other := Option.some.inj (isFound.symm.trans isOther)
          have longer : 4 ≤ (c :: line).length := by
            rw [← isText, Draft.text_binding, variableText_lead]
            simp [variableLead]
          simp only [List.length_cons, List.length_append, List.length_nil] at longer ⊢
          omega
      | function name slots result value =>
          have notFound := @foundAt_declarationKeyword_function passed following name slots result value
          rw [foundAt, isFound] at notFound
          contradiction
  rw [split] at finds
  rw [isText, List.cons_append]
  exact finds

/-- The edits of the declaration on a line delete what is dropped of the line. -/
theorem declarationEdits_line (begins : BeginsLine passed) (draft : Draft) (pairs : BracketPairs) :
    (foundAt declarationKeyword (Draft.text false) passed draft following).toList.flatMap
        (declarationEditsOf (passed ++ (draft.text false ++ '\n' :: following)) pairs) =
      Piece.deletions passed.length draft.variablePieces := by
  cases draft with
  | binding name type value =>
      obtain ⟨found, isFound, stop⟩ :=
        @foundAt_declarationKeyword_binding passed following begins name type value
      have split : passed ++ ((Draft.binding name type value).text false ++ '\n' :: following) =
          passed ++ variableLead name ++
            (ascribed false type ++ (initializer false value ++ (';' :: '\n' :: following))) := by
        rw [Draft.text_binding, variableText_lead]
        simp
      rw [isFound, Option.toList_some, List.flatMap_singleton, split, Draft.variablePieces,
        Piece.deletions_keep, Piece.deletions_append, Piece.deletions_drops]
      cases type with
      | none => exact declarationEditsOf_untyped passed ('\n' :: following) pairs name value stop
      | some type =>
          rw [← List.length_append]
          exact declarationEditsOf_typed passed ('\n' :: following) pairs name type value stop
  | function name slots result value =>
      rw [foundAt_declarationKeyword_function]
      rfl

end Lines

/-! ## The pass -/

theorem editsLines_declarationEdits (drafts : List Draft) :
    EditsLines (declarationEdits (draftLines drafts)) (Draft.text false) drafts
      fun passed draft _ => Piece.deletions passed.length draft.variablePieces := by
  intro edit
  dsimp only
  have isFound {found : Match} := @mem_all_lines Draft (Draft.text false) drafts declarationKeyword rfl
    (fun draft _ passed following begins => finds_declarationKeyword begins draft) found
  rw [declarationEdits, List.mem_flatMap]
  constructor
  · rintro ⟨found, member, isEdit⟩
    obtain ⟨before, draft, after, among, foundHere⟩ := isFound.mp member
    refine ⟨before, draft, after, among, ?_⟩
    rw [← @declarationEdits_line _ (lines (after.map (Draft.text false))) (beginsLine_lines _) draft
      (BracketPairs.ofText (draftLines drafts)), foundHere, Option.toList_some,
      List.flatMap_singleton, ← lines_of_among among]
    exact isEdit
  · rintro ⟨before, draft, after, among, isEdit⟩
    rw [← @declarationEdits_line _ (lines (after.map (Draft.text false))) (beginsLine_lines _) draft
      (BracketPairs.ofText (draftLines drafts)), ← lines_of_among among] at isEdit
    obtain ⟨found, foundHere, isEdit⟩ := List.mem_flatMap.mp isEdit
    exact ⟨found, isFound.mpr ⟨before, draft, after, among, Option.mem_toList.mp foundHere⟩, isEdit⟩

/-- A round of the pass deletes the types of the variables. -/
theorem editOnce_declarationEdits (drafts : List Draft) :
    editOnce declarationEdits (draftLines drafts) = draftLines (drafts.map Draft.untyped) := by
  have round := editOnce_lines (mask_draftLines drafts) Draft.source_variablePieces
    Draft.variablePieces_ne_nil (editsLines_declarationEdits drafts)
    fun draft _ passed following _ => Edit.Covers.refl _
  rw [draftLines, round, draftLines, List.map_map, lines, List.flatMap_map]
  simp only [Draft.remainder_variablePieces, Function.comp_apply]

/-- The pass deletes the types of the variables. -/
theorem editUntilSettled_declarationEdits (drafts : List Draft) :
    editUntilSettled declarationEdits (draftLines drafts) = draftLines (drafts.map Draft.untyped) := by
  have deletes := @sublist_editOnce declarationEdits (by simp [passes])
  have twice (draft : Draft) : draft.untyped.untyped = draft.untyped := by
    cases draft <;> rfl
  rw [← editUntilSettled_editOnce deletes, editOnce_declarationEdits]
  refine (editUntilSettled_eq_self_iff deletes).mpr ?_
  rw [IsSettled, editOnce_declarationEdits, List.map_map]
  simp only [Function.comp_def, twice]

end SceneBundler.Typed
