import SceneBundler.Proofs.Typed.Parenthesis
import SceneBundler.Proofs.Typed.Variable

/-!
Contract: the pass that deletes the types of parameters and results.

Owns:
- which pairs of parentheses a statement has, and what each of them makes the pass delete;
- that the pass leaves every function without the types of its parameters and its result.

Does not own: what is read of a pair of parentheses.
-/

namespace SceneBundler.Typed

open Dialect
open Source (BracketKind BracketPairs isOpener isCloser)
open Source.BracketPairs (Pairs)

/-! ## Pieces -/

/-- A statement without the types of parameters and results. -/
def Draft.bare : Draft -> Draft
  | .binding name type value => .binding name type value
  | .function name slots _ value => .function name (slots.map Slot.bare) none value

/-- The keyword and the name of a function. -/
def functionLead (name : Name) : Text :=
  ['f', 'u', 'n', 'c', 't', 'i', 'o', 'n', ' '] ++ name.text

/-- The body of a function to the end of its line. -/
def bodyText (value : Value) : Text :=
  [' ', '\x7b', ' ', 'r', 'e', 't', 'u', 'r', 'n', ' '] ++ (value.text false ++ [';', ' ', '\x7d', '\n'])

theorem functionText_lead (name : Name) (parameters : List Text) (result : Text) (value : Value) :
    functionText name parameters result (value.text false) ++ ['\n'] =
      functionLead name ++ '(' :: (Text.join [',', ' '] parameters ++ ')' :: (result ++ bodyText value)) := by
  have body : " \x7b return ".toList = [' ', '\x7b', ' ', 'r', 'e', 't', 'u', 'r', 'n', ' '] := rfl
  have keyword : "function ".toList = ['f', 'u', 'n', 'c', 't', 'i', 'o', 'n', ' '] := rfl
  rw [functionText_eq, body, keyword]
  simp [functionLead, bodyText]

/-- A line as what the pass keeps of it and what it drops. -/
def Draft.signaturePieces : Draft -> List Piece
  | .binding name type value => [Piece.keep ((Draft.binding name type value).text false ++ ['\n'])]
  | .function name slots result value =>
      Piece.keep (functionLead name ++ ['(']) :: (slotPieces slots ++ Piece.keep [')'] ::
        (Piece.drops (ascribed false (result.map Result.type)) ++ [Piece.keep (bodyText value)]))

theorem Draft.source_signaturePieces (draft : Draft) :
    Piece.source draft.signaturePieces = draft.text false ++ ['\n'] := by
  cases draft with
  | binding name type value => simp [Draft.signaturePieces]
  | function name slots result value =>
      rw [Draft.text_function, functionText_lead, Draft.signaturePieces]
      simp [source_slotPieces]

theorem Draft.remainder_signaturePieces (draft : Draft) :
    Piece.remainder draft.signaturePieces = draft.bare.text false ++ ['\n'] := by
  cases draft with
  | binding name type value => simp [Draft.signaturePieces, Draft.bare]
  | function name slots result value =>
      rw [Draft.bare, Draft.text_function, functionText_lead, Draft.signaturePieces, List.map_map]
      simp [remainder_slotPieces, ascribed, Function.comp_def]

theorem Draft.signaturePieces_ne_nil (draft : Draft) :
    ∀ piece ∈ draft.signaturePieces, piece.text ≠ [] := by
  intro piece member
  cases draft with
  | binding name type value =>
      rw [List.mem_singleton.mp member]
      exact List.append_ne_nil_of_right_ne_nil _ (List.cons_ne_nil _ _)
  | function name slots result value =>
      simp only [Draft.signaturePieces, List.mem_cons, List.mem_append, List.not_mem_nil, or_false] at member
      rcases member with rfl | isSlot | rfl | isDropped | rfl
      · exact List.cons_ne_nil _ _
      · exact slotPieces_ne_nil slots piece isSlot
      · exact List.cons_ne_nil _ _
      · exact Piece.text_ne_nil_of_mem_drops isDropped
      · exact List.cons_ne_nil _ _

/-! ## Function types -/

/-- Whether the parentheses in some pieces pair among themselves, and each pair belongs to a function type
in a dropped piece. -/
def HidesPairs (pieces : List Piece) : Prop :=
  ∀ offset, ∃ found, Pairs .round (Piece.source pieces) offset found ∧
    ∀ pair ∈ found, StandsBeforeArrow (Piece.source pieces) offset pair ∧
      ∃ deletion ∈ Piece.deletions offset pieces, deletion.start ≤ pair.1 ∧ pair.2 < deletion.stop

namespace HidesPairs

theorem append {first second : List Piece} (hidesFirst : HidesPairs first)
    (hidesSecond : HidesPairs second) : HidesPairs (first ++ second) := by
  intro offset
  obtain ⟨earlier, pairsEarlier, ofEarlier⟩ := hidesFirst offset
  obtain ⟨later, pairsLater, ofLater⟩ := hidesSecond (offset + (Piece.source first).length)
  rw [Piece.source_append, Piece.deletions_append]
  refine ⟨later ++ earlier, pairsEarlier.append pairsLater, fun pair member => ?_⟩
  rcases List.mem_append.mp member with isLater | isEarlier
  · obtain ⟨stands, deletion, isDeletion, within⟩ := ofLater pair isLater
    exact ⟨stands.append_left _, deletion, List.mem_append_right _ isDeletion, within⟩
  · obtain ⟨stands, deletion, isDeletion, within⟩ := ofEarlier pair isEarlier
    exact ⟨stands.append_right _, deletion, List.mem_append_left _ isDeletion, within⟩

theorem keep {text : Text} (unmarked : '(' ∉ text ∧ ')' ∉ text) : HidesPairs [Piece.keep text] := by
  intro offset
  refine ⟨[], ?_, by simp⟩
  rw [Piece.source_keep, Piece.source_nil, List.append_nil]
  exact Pairs.of_unmarked unmarked.1 unmarked.2 offset

theorem drops {text : Text} (pairsUp : PairsUp .round text) : HidesPairs (Piece.drops text) := by
  intro offset
  obtain ⟨found, pairs, stand⟩ := pairsUp offset
  rw [Piece.source_drops, Piece.deletions_drops]
  refine ⟨found, pairs, fun pair member => ⟨stand pair member rfl, ?_⟩⟩
  obtain ⟨after, before, inside, rfl, rfl⟩ := stand pair member rfl
  have nonempty : before ++ '(' :: (inside ++ ')' :: ' ' :: '=' :: '>' :: ' ' :: after) ≠ [] := by simp
  rw [if_neg nonempty]
  refine ⟨_, List.mem_singleton_self _, Nat.le_add_right _ _, ?_⟩
  simp [Edit.deletion]
  omega

end HidesPairs

theorem pairsUp_ascribed (type : Option TypePhrase) : PairsUp .round (ascribed false type) := by
  cases type with
  | none => exact pairsUp_marks .round [] rfl
  | some type => exact (pairsUp_marks .round [':', ' '] (by decide)).append (type.pairsUp false .round)

theorem hidesPairs_slotPieces (slots : List Slot) : HidesPairs (slotPieces slots) := by
  have ofSlot (slot : Slot) : HidesPairs slot.pieces := by
    have ofName : HidesPairs [Piece.keep slot.name.text] :=
      HidesPairs.keep ⟨slot.name.not_mem (by decide), slot.name.not_mem (by decide)⟩
    have ofMark : HidesPairs (Piece.drops slot.mark) := by
      rcases slot.mark_eq with isMark | isMark
      · exact isMark ▸ HidesPairs.drops (pairsUp_marks .round [] rfl)
      · exact isMark ▸ HidesPairs.drops (PairsUp.of_unmarked (by decide) (by decide))
    exact ofName.append (ofMark.append (HidesPairs.drops (pairsUp_ascribed slot.type)))
  induction slots with
  | nil => exact fun offset => ⟨[], Pairs.of_unmarked List.not_mem_nil List.not_mem_nil offset, by simp⟩
  | cons slot others inductionHypothesis =>
      cases others with
      | nil => exact ofSlot slot
      | cons second others =>
          have ofSeparator : HidesPairs [Piece.keep [',', ' ']] := HidesPairs.keep (by decide)
          exact (ofSlot slot).append (ofSeparator.append inductionHypothesis)

/-! ## Calls -/

/-- Whether a pair of parentheses stands in a text with the end of a call or a statement behind it. -/
def StandsBeforeEnd (text : Text) (offset : Nat) (pair : Nat × Nat) : Prop :=
  ∃ c after, (c = ';' ∨ c = ')') ∧ Stands text offset pair (c :: after)

theorem StandsBeforeEnd.append_left {text : Text} {offset : Nat} {pair : Nat × Nat} (earlier : Text)
    (stands : StandsBeforeEnd text (offset + earlier.length) pair) :
    StandsBeforeEnd (earlier ++ text) offset pair := by
  obtain ⟨c, after, ends, standsHere⟩ := stands
  exact ⟨c, after, ends, standsHere.append_left earlier⟩

theorem StandsBeforeEnd.append_right {text : Text} {offset : Nat} {pair : Nat × Nat}
    (stands : StandsBeforeEnd text offset pair) (following : Text) :
    StandsBeforeEnd (text ++ following) offset pair := by
  obtain ⟨c, after, ends, standsHere⟩ := stands
  exact ⟨c, after ++ following, ends, standsHere.append_right following⟩

theorem StandsBeforeEnd.within {text whole : Text} {offset start : Nat} {pair : Nat × Nat}
    (stands : StandsBeforeEnd text start pair) (earlier following : Text)
    (begins : start = offset + earlier.length) (split : whole = earlier ++ (text ++ following)) :
    StandsBeforeEnd whole offset pair := by
  subst begins split
  exact (stands.append_right following).append_left earlier

/-- The parentheses of a value are those of calls. -/
theorem Value.exists_pairs (value : Value) (offset : Nat) :
    ∃ found, Pairs .round (value.text false) offset found ∧ ∀ pair ∈ found, ∀ c following,
      c = ';' ∨ c = ')' → StandsBeforeEnd (value.text false ++ c :: following) offset pair := by
  induction value generalizing offset with
  | named name =>
      exact ⟨[], Pairs.of_unmarked (name.not_mem (by decide)) (name.not_mem (by decide)) offset, by simp⟩
  | number numeral =>
      have absent {mark : Char} (isMark : mark.isDigit = false ∧ mark ≠ '.') : mark ∉ numeral.text := by
        intro member
        rcases List.mem_cons.mp member with rfl | isLater
        · exact absurd numeral.starts (by simp [isMark.1])
        · rcases numeral.parts mark isLater with isDigit | isPoint
          · exact absurd isDigit (by simp [isMark.1])
          · exact isMark.2 isPoint
      exact ⟨[], Pairs.of_unmarked (absent (by decide)) (absent (by decide)) offset, by simp⟩
  | call function arguments value valueHypothesis =>
      obtain ⟨inner, pairsInner, ofInner⟩ := valueHypothesis (offset + function.text.length + 1)
      have called : Pairs .round function.text offset [] :=
        Pairs.of_unmarked (function.not_mem (by decide)) (function.not_mem (by decide)) offset
      have isText : (Value.call function arguments value).text false =
          function.text ++ '(' :: (value.text false ++ [')']) := by
        simp [Value.text, angled]
      rw [isText]
      refine ⟨_, called.append pairsInner.enclosed, fun pair member c following ends => ?_⟩
      rw [List.append_nil] at member
      rcases List.mem_cons.mp member with rfl | isInner
      · exact ⟨c, following, ends, function.text, value.text false, by simp, rfl⟩
      · have stands := ofInner pair isInner ')' (c :: following) (Or.inr rfl)
        exact stands.within (function.text ++ ['(']) [] (by simp [Nat.add_assoc]) (by simp)

/-! ## Statements -/

/-- The parentheses around the parameters of a function. -/
def parameterPair (offset : Nat) : Draft -> Option (Nat × Nat)
  | .binding _ _ _ => none
  | .function name slots _ _ =>
      let opened := offset + (functionLead name).length
      some (opened, opened + 1 + (Text.join [',', ' '] (slots.map (Slot.text false))).length)

/-- What a pair of parentheses of a line is: that of the parameters of a function, or of a function type
in a dropped piece, or of a call. -/
inductive IsPairOf (draft : Draft) (offset : Nat) (pair : Nat × Nat) : Prop where
  | parameters (same : parameterPair offset draft = some pair)
  | type (stands : StandsBeforeArrow (draft.text false ++ ['\n']) offset pair) (deletion : Edit)
      (isDeletion : deletion ∈ Piece.deletions offset draft.signaturePieces)
      (within : deletion.start ≤ pair.1 ∧ pair.2 < deletion.stop)
  | call (stands : StandsBeforeEnd (draft.text false ++ ['\n']) offset pair)

/-- The parentheses between a value and the text around it. -/
theorem exists_pairs_value {lead tail : Text} (value : Value) (unmarked : '(' ∉ lead ∧ ')' ∉ lead)
    (unmarkedTail : '(' ∉ tail ∧ ')' ∉ tail) (offset : Nat) :
    ∃ found, Pairs .round (lead ++ (value.text false ++ ';' :: tail)) offset found ∧
      ∀ pair ∈ found, StandsBeforeEnd (lead ++ (value.text false ++ ';' :: tail)) offset pair := by
  obtain ⟨found, pairs, ofValue⟩ := value.exists_pairs (offset + lead.length)
  have pairsLead := @Pairs.of_unmarked .round lead unmarked.1 unmarked.2 offset
  have pairsTail := @Pairs.of_unmarked .round (';' :: tail)
    (by simpa [BracketKind.opener] using unmarkedTail.1)
    (by simpa [BracketKind.closer] using unmarkedTail.2)
  refine ⟨_, pairsLead.append (pairs.append (pairsTail _)), fun pair member => ?_⟩
  rw [List.nil_append, List.append_nil] at member
  exact (ofValue pair member ';' tail (Or.inl rfl)).append_left lead

/-- The parentheses of a variable without a type are those of calls. -/
theorem exists_pairs_binding (name : Name) (value : Option Value) (offset : Nat) :
    ∃ found, Pairs .round ((Draft.binding name none value).text false ++ ['\n']) offset found ∧
      ∀ pair ∈ found, StandsBeforeEnd ((Draft.binding name none value).text false ++ ['\n']) offset pair := by
  have opens : '(' ∉ name.text := name.not_mem (by decide)
  have closes : ')' ∉ name.text := name.not_mem (by decide)
  rw [Draft.text_binding, variableText_lead]
  cases value with
  | none =>
      have pairs := @Pairs.of_unmarked .round (variableLead name ++
        (ascribed false none ++ (initializer false none ++ [';'])) ++ ['\n'])
          (by simp [variableLead, ascribed, initializer, opens, BracketKind.opener])
          (by simp [variableLead, ascribed, initializer, closes, BracketKind.closer]) offset
      exact ⟨[], pairs, by simp⟩
  | some value =>
      have here := @exists_pairs_value (variableLead name ++ [' ', '=', ' ']) ['\n'] value
        ⟨by simp [variableLead, opens], by simp [variableLead, closes]⟩ (by decide) offset
      simpa [ascribed, initializer] using here

/-- The deletions of a function are those of its parameters and that of its result. -/
theorem deletions_signaturePieces (name : Name) (slots : List Slot) (result : Option Result)
    (value : Value) (offset : Nat) :
    Piece.deletions offset (Draft.function name slots result value).signaturePieces =
      Piece.deletions (offset + (functionLead name).length + 1) (slotPieces slots) ++
        Piece.deletions
          (offset + (functionLead name).length + 1 + (Piece.source (slotPieces slots)).length + 1)
          (Piece.drops (ascribed false (result.map Result.type))) := by
  have last (reached : Nat) : Piece.deletions reached [Piece.keep (bodyText value)] = [] := rfl
  rw [Draft.signaturePieces, Piece.deletions_keep, Piece.deletions_append, Piece.deletions_keep,
    Piece.deletions_append, last, List.append_nil, List.length_append, ← Nat.add_assoc]
  rfl

/-- The parentheses of a function are those around its parameters, those of function types and those of
calls. -/
theorem exists_pairs_function (name : Name) (slots : List Slot) (result : Option Result) (value : Value)
    (offset : Nat) :
    ∃ found, Pairs .round ((Draft.function name slots result value).text false ++ ['\n']) offset found ∧
      (∀ pair ∈ parameterPair offset (.function name slots result value), pair ∈ found) ∧
        ∀ pair ∈ found, IsPairOf (.function name slots result value) offset pair := by
  have unmarked : '(' ∉ functionLead name ∧ ')' ∉ functionLead name := by
    simp [functionLead, name.not_mem (show isNamePart '(' = false by decide),
      name.not_mem (show isNamePart ')' = false by decide)]
  let parameters := Piece.source (slotPieces slots)
  let type := ascribed false (result.map Result.type)
  have isLine : (Draft.function name slots result value).text false ++ ['\n'] =
      functionLead name ++ (('(' :: (parameters ++ [')'])) ++ (type ++ bodyText value)) := by
    rw [Draft.text_function, functionText_lead]
    simp [parameters, type, source_slotPieces]
  have isParameters : Text.join [',', ' '] (slots.map (Slot.text false)) = parameters :=
    (source_slotPieces slots).symm
  let inside := offset + (functionLead name).length + 1
  have behind : offset + (functionLead name).length + ('(' :: (parameters ++ [')'])).length =
      inside + parameters.length + 1 := by
    simp [inside]
    omega
  have pairsLead := @Pairs.of_unmarked .round (functionLead name) unmarked.1 unmarked.2 offset
  obtain ⟨ofSlots, pairsSlots, hidesSlots⟩ := hidesPairs_slotPieces slots inside
  obtain ⟨ofType, pairsType, hidesType⟩ := HidesPairs.drops
    (pairsUp_ascribed (result.map Result.type)) (inside + parameters.length + 1)
  obtain ⟨ofBody, pairsBody, ofCalls⟩ := @exists_pairs_value
    [' ', '\x7b', ' ', 'r', 'e', 't', 'u', 'r', 'n', ' '] [' ', '\x7d', '\n'] value (by decide)
    (by decide) (inside + parameters.length + 1 + type.length)
  rw [Piece.source_drops] at pairsType hidesType
  have pairsRest := pairsType.append pairsBody
  rw [← behind] at pairsRest
  refine ⟨_, isLine ▸ pairsLead.append (pairsSlots.enclosed.append pairsRest), ?_, fun pair member => ?_⟩
  · intro pair isPair
    rw [parameterPair, Option.mem_some_iff] at isPair
    subst isPair
    rw [isParameters]
    exact List.mem_append_left _ (List.mem_append_right _ List.mem_cons_self)
  · rw [List.append_nil, List.mem_append, List.mem_append] at member
    rcases member with (isBody | isType) | isSlot
    · refine .call ((ofCalls pair isBody).within (functionLead name ++ ('(' :: (parameters ++ [')']) ++ type)) []
        ?_ ?_)
      · simp [inside]
        omega
      · rw [isLine]
        simp [bodyText]
    · obtain ⟨stands, deletion, isDeletion, within⟩ := hidesType pair isType
      refine .type (stands.within (functionLead name ++ '(' :: (parameters ++ [')'])) (bodyText value) ?_ ?_)
        deletion ?_ within
      · simp [inside]
        omega
      · rw [isLine]
        simp [type]
      · rw [deletions_signaturePieces]
        exact List.mem_append_right _ isDeletion
    · rcases List.mem_cons.mp isSlot with isOuter | isInner
      · refine .parameters ?_
        rw [parameterPair, isParameters, isOuter]
      · obtain ⟨stands, deletion, isDeletion, within⟩ := hidesSlots pair isInner
        refine .type (stands.within (functionLead name ++ ['(']) (')' :: (type ++ bodyText value)) ?_ ?_)
          deletion ?_ within
        · simp [inside, Nat.add_assoc]
        · rw [isLine]
          simp [parameters]
        · rw [deletions_signaturePieces]
          exact List.mem_append_left _ isDeletion

/-- The parentheses of a line whose variables have no types. -/
theorem Draft.exists_pairs {draft : Draft} (untyped : draft.untyped = draft) (offset : Nat) :
    ∃ found, Pairs .round (draft.text false ++ ['\n']) offset found ∧
      (∀ pair ∈ parameterPair offset draft, pair ∈ found) ∧
        ∀ pair ∈ found, IsPairOf draft offset pair := by
  cases draft with
  | binding name type value =>
      have noType : type = none := by
        rw [Draft.untyped] at untyped
        injection untyped with _ isNone
        exact isNone.symm
      subst noType
      obtain ⟨found, pairs, ofCalls⟩ := exists_pairs_binding name value offset
      exact ⟨found, pairs, fun _ isNone => absurd isNone (Option.not_mem_none _), fun pair member => IsPairOf.call (ofCalls pair member)⟩
  | function name slots result value => exact exists_pairs_function name slots result value offset

/-! ## Lines -/

/-- The edits of the parentheses on a line. -/
def linePairEdits (passed : Text) (draft : Draft) (following : Text) : List Edit :=
  let masked := passed ++ (draft.text false ++ '\n' :: following)
  (BracketPairs.ofKind .round [] passed.length (draft.text false ++ ['\n']) []).flatMap
    (signatureEditsOf masked (BracketPairs.ofText masked))

section Lines

variable {passed following : Text}

/-- The parentheses around the parameters of a function make the deletions of its line. -/
theorem signatureEditsOf_parameters {draft : Draft} {pair : Nat × Nat} (pairs : BracketPairs)
    (same : parameterPair passed.length draft = some pair) :
    signatureEditsOf (passed ++ (draft.text false ++ '\n' :: following)) pairs pair =
      Piece.deletions passed.length draft.signaturePieces := by
  cases draft with
  | binding name type value => exact absurd same.symm (Option.some_ne_none pair)
  | function name slots result value =>
      rw [parameterPair, Option.some_inj] at same
      subst same
      let keyword : Text := ['f', 'u', 'n', 'c', 't', 'i', 'o', 'n', ' ']
      have isLead : functionLead name = keyword ++ name.text := rfl
      have apart : (passed ++ keyword).getLast?.any Character.continuesName = false := by
        rw [List.getLast?_append]
        exact (by decide : Character.continuesName ' ' = false)
      have edits := @signatureEditsOf_function (passed ++ keyword)
        ([' ', 'r', 'e', 't', 'u', 'r', 'n', ' '] ++ (value.text false ++ [';', ' ', '\x7d']) ++
          '\n' :: following) name apart pairs slots result _ rfl
      have isWhole : passed ++ keyword ++ name.text ++ '(' ::
          (Text.join [',', ' '] (slots.map (Slot.text false)) ++ ')' ::
            (ascribed false (result.map Result.type) ++ ' ' :: '\x7b' ::
              ([' ', 'r', 'e', 't', 'u', 'r', 'n', ' '] ++ (value.text false ++ [';', ' ', '\x7d']) ++
                '\n' :: following))) =
          passed ++ ((Draft.function name slots result value).text false ++ '\n' :: following) := by
        have line := functionText_lead name (slots.map (Slot.text false))
          (ascribed false (result.map Result.type)) value
        have split : (Draft.function name slots result value).text false ++ '\n' :: following =
            (Draft.function name slots result value).text false ++ ['\n'] ++ following := by simp
        rw [split, Draft.text_function, line, isLead]
        simp [bodyText]
      have reached : (passed ++ keyword ++ name.text).length =
          passed.length + (functionLead name).length := by
        rw [isLead, List.append_assoc, List.length_append]
      rw [isWhole, reached] at edits
      rw [edits, deletions_signaturePieces, source_slotPieces]

/-- The edits of a line whose variables have no types make the deletions of the line, and others only
within them. -/
theorem covers_linePairEdits {draft : Draft} (untyped : draft.untyped = draft) :
    Edit.Covers (linePairEdits passed draft following)
      (Piece.deletions passed.length draft.signaturePieces) := by
  obtain ⟨found, pairs, hasParameters, isPair⟩ := Draft.exists_pairs untyped passed.length
  have isWhole : passed ++ (draft.text false ++ '\n' :: following) =
      passed ++ ((draft.text false ++ ['\n']) ++ following) := by
    simp
  rw [linePairEdits, pairs.eq_ofKind]
  constructor
  · intro deletion isDeletion
    cases same : parameterPair passed.length draft with
    | none =>
        cases draft with
        | binding name type value => exact absurd isDeletion List.not_mem_nil
        | function name slots result value => exact absurd same (Option.some_ne_none _)
    | some pair =>
        refine List.mem_flatMap.mpr ⟨pair, hasParameters pair same, ?_⟩
        rwa [signatureEditsOf_parameters _ same]
  · intro edit member
    obtain ⟨pair, isFound, isEdit⟩ := List.mem_flatMap.mp member
    cases isPair pair isFound with
    | parameters same => exact Or.inl (by rwa [signatureEditsOf_parameters _ same] at isEdit)
    | type stands deletion isDeletion within =>
        rw [← Nat.zero_add passed.length] at stands
        have here := (stands.append_right following).append_left passed
        rw [← isWhole] at here
        have bounds := bounds_of_mem_arrow here isEdit
        exact Or.inr ⟨deletion, isDeletion, by omega⟩
    | call stands =>
        rw [← Nat.zero_add passed.length] at stands
        obtain ⟨c, after, ends, here⟩ := (stands.append_right following).append_left passed
        rw [← isWhole] at here
        rw [signatureEditsOf_call _ ends here] at isEdit
        exact absurd isEdit List.not_mem_nil

end Lines

/-! ## The pass -/

/-- The parentheses of lines are those of each line. -/
theorem exists_pairs_lines {drafts : List Draft} (untyped : ∀ draft ∈ drafts, draft.untyped = draft)
    (offset : Nat) :
    ∃ found, Pairs .round (draftLines drafts) offset found ∧ ∀ pair, pair ∈ found ↔
      ∃ before draft after, Among drafts before draft after ∧
        pair ∈ BracketPairs.ofKind .round []
          (offset + (lines (before.map (Draft.text false))).length) (draft.text false ++ ['\n']) [] := by
  induction drafts generalizing offset with
  | nil => exact ⟨[], Pairs.of_unmarked List.not_mem_nil List.not_mem_nil offset, by simp [Among]⟩
  | cons draft rest inductionHypothesis =>
      obtain ⟨here, pairsHere, _⟩ := Draft.exists_pairs (untyped draft List.mem_cons_self) offset
      obtain ⟨later, pairsLater, membership⟩ := inductionHypothesis
        (fun other member => untyped other (List.mem_cons_of_mem draft member))
        (offset + (draft.text false ++ ['\n']).length)
      have shifted (before : List Draft) :
          offset + (lines ((draft :: before).map (Draft.text false))).length =
            offset + (draft.text false ++ ['\n']).length +
              (lines (before.map (Draft.text false))).length := by
        simp only [List.map_cons, lines_cons, List.length_append, List.length_cons, List.length_nil]
        omega
      have split : draftLines (draft :: rest) = (draft.text false ++ ['\n']) ++ draftLines rest := by
        simp [draftLines, lines]
      refine ⟨later ++ here, split ▸ pairsHere.append pairsLater, fun pair => ?_⟩
      rw [List.mem_append, membership, exists_among_cons, or_comm]
      simp only [shifted]
      exact or_congr_left (by rw [← pairsHere.eq_ofKind]; rfl)

theorem editsLines_signatureEdits {drafts : List Draft}
    (untyped : ∀ draft ∈ drafts, draft.untyped = draft) :
    EditsLines (signatureEdits (draftLines drafts)) (Draft.text false) drafts linePairEdits := by
  obtain ⟨found, pairs, membership⟩ := exists_pairs_lines untyped 0
  intro edit
  rw [signatureEdits, pairs.eq_ofKind, List.mem_flatMap]
  constructor
  · rintro ⟨pair, member, isEdit⟩
    obtain ⟨before, draft, after, among, isPair⟩ := (membership pair).mp member
    rw [draftLines, lines_of_among among] at isEdit
    rw [Nat.zero_add] at isPair
    exact ⟨before, draft, after, among, List.mem_flatMap.mpr ⟨pair, isPair, isEdit⟩⟩
  · rintro ⟨before, draft, after, among, isEdit⟩
    obtain ⟨pair, isPair, isEdit⟩ := List.mem_flatMap.mp isEdit
    rw [← lines_of_among among] at isEdit
    refine ⟨pair, (membership pair).mpr ⟨before, draft, after, among, ?_⟩, isEdit⟩
    rwa [Nat.zero_add]

/-- A round of the pass deletes the types of parameters and results. -/
theorem editOnce_signatureEdits {drafts : List Draft}
    (untyped : ∀ draft ∈ drafts, draft.untyped = draft) :
    editOnce signatureEdits (draftLines drafts) = draftLines (drafts.map Draft.bare) := by
  have round := editOnce_lines (mask_draftLines drafts) Draft.source_signaturePieces
    Draft.signaturePieces_ne_nil (editsLines_signatureEdits untyped)
    fun draft member passed following _ => covers_linePairEdits (untyped draft member)
  rw [draftLines, round, draftLines, List.map_map, lines, List.flatMap_map]
  simp only [Draft.remainder_signaturePieces, Function.comp_apply]

/-- The pass deletes the types of parameters and results. -/
theorem editUntilSettled_signatureEdits {drafts : List Draft}
    (untyped : ∀ draft ∈ drafts, draft.untyped = draft) :
    editUntilSettled signatureEdits (draftLines drafts) = draftLines (drafts.map Draft.bare) := by
  have deletes := @sublist_editOnce signatureEdits (by simp [passes])
  have twice (draft : Draft) : draft.bare.bare = draft.bare := by
    cases draft with
    | binding name type value => rfl
    | function name slots result value => simp [Draft.bare, Slot.bare]
  have stays : ∀ draft ∈ drafts.map Draft.bare, draft.untyped = draft := by
    intro draft member
    obtain ⟨typed, isDraft, rfl⟩ := List.mem_map.mp member
    have here := untyped typed isDraft
    cases typed with
    | binding name type value => exact here
    | function name slots result value => rfl
  rw [← editUntilSettled_editOnce deletes, editOnce_signatureEdits untyped]
  refine (editUntilSettled_eq_self_iff deletes).mpr ?_
  rw [IsSettled, editOnce_signatureEdits stays, List.map_map]
  simp only [Function.comp_def, twice]

end SceneBundler.Typed
