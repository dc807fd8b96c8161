import SceneBundler.Dialect.TypeDeclaration
import SceneBundler.Proofs.Dialect.Items
import SceneBundler.Proofs.Source.Bracket
import SceneBundler.Proofs.Text.Bounds

/-!
Contract: what each pass can delete.

Owns:
- for every pass the cases of its edits, each with what was read for it;
- that the edits of a parameter lie within its item;
- that each edit of a signature ends in front of an arrow or a brace.

Does not own: what is left when the edits are made.
-/

namespace SceneBundler.Dialect

open Edit (isDeletion_deletion)
open Source (BracketPairs)
open Pattern (isOrdered_of_matchWithin?)

variable {masked text : Text} {edit : Edit} {start stop limit : Nat}

theorem le_skip (accepts : Char -> Bool) (offset : Nat) : offset ≤ Text.skip accepts masked offset :=
  Nat.le_add_right _ _

/-! ## Types -/

theorem typeEnd_le (stops : String) (ordered : start ≤ limit) : typeEnd masked start limit stops ≤ limit := by
  rw [typeEnd]
  obtain ⟨length, _, isLength, fits, _⟩ := exists_typeLength stops.toList (limit - start) 0
    (if start = 0 then none else masked[start - 1]?) 0 (masked.drop start)
  rw [isLength]
  omega

theorem length_trimEnd_le (text : Text) : (Text.trimEnd text).length ≤ text.length := by
  have dropped := (List.dropWhile_sublist Character.isBlank (l := text.reverse)).length_le
  rw [List.length_reverse] at dropped
  rw [Text.trimEnd, List.length_reverse]
  exact dropped

theorem trimmedEnd_le (ordered : start ≤ stop) : trimmedEnd masked start stop ≤ stop := by
  have room : (Text.slice masked start stop).length ≤ stop - start := List.length_take_le _ _
  have trimmed := length_trimEnd_le (Text.slice masked start stop)
  rw [trimmedEnd]
  omega

theorem isDeletion_annotationRemoval (masked : Text) (colon typeStop : Nat) :
    (annotationRemoval masked colon typeStop).IsDeletion :=
  isDeletion_deletion (Nat.le_add_right _ _)

/-! ## Declarations of types -/

theorem le_statementEnd (start : Nat) : start ≤ statementEnd masked start :=
  Nat.le_add_right _ _

/-- The removal of a statement reaches behind a semicolon, and behind the line break where nothing but
indentation comes before it. -/
theorem statementRemoval_cases (masked : Text) (start stop : Nat) :
    ∃ behind, (behind = stop ∨ masked[stop]? = some ';' ∧ behind = stop + 1) ∧
      ((masked[Text.skip Text.isIndent masked behind]? = some '\n' ∧
          statementRemoval masked start stop =
            Edit.deletion start (Text.skip Text.isIndent masked behind + 1)) ∨
        (masked[Text.skip Text.isIndent masked behind]? ≠ some '\n' ∧
          statementRemoval masked start stop = Edit.deletion start behind)) := by
  refine ⟨if masked[stop]? = some ';' then stop + 1 else stop, ?_, ?_⟩
  · split
    next isSemicolon => exact Or.inr ⟨isSemicolon, rfl⟩
    next => exact Or.inl rfl
  · unfold statementRemoval
    dsimp only
    generalize (if masked[stop]? = some ';' then stop + 1 else stop) = behind
    split
    next isBreak => exact Or.inl ⟨isBreak, rfl⟩
    next notBreak => exact Or.inr ⟨notBreak, rfl⟩

@[simp] theorem start_statementRemoval : (statementRemoval masked start stop).start = start := by
  obtain ⟨behind, _, ⟨_, isRemoval⟩ | ⟨_, isRemoval⟩⟩ := statementRemoval_cases masked start stop
  · rw [isRemoval, Edit.deletion]
  · rw [isRemoval, Edit.deletion]

theorem stop_le_statementRemoval : stop ≤ (statementRemoval masked start stop).stop := by
  obtain ⟨behind, isBehind, ⟨_, isRemoval⟩ | ⟨_, isRemoval⟩⟩ := statementRemoval_cases masked start stop
  · have skipped := @le_skip masked Text.isIndent behind
    rw [isRemoval]
    dsimp only [Edit.deletion]
    omega
  · rw [isRemoval]
    dsimp only [Edit.deletion]
    omega

theorem isDeletion_statementRemoval (ordered : start ≤ stop) :
    (statementRemoval masked start stop).IsDeletion := by
  have reached := @stop_le_statementRemoval masked start stop
  obtain ⟨behind, _, ⟨_, isRemoval⟩ | ⟨_, isRemoval⟩⟩ := statementRemoval_cases masked start stop
  · rw [isRemoval] at reached ⊢
    exact isDeletion_deletion (Nat.le_trans ordered reached)
  · rw [isRemoval] at reached ⊢
    exact isDeletion_deletion (Nat.le_trans ordered reached)

/-- The removals of declarations of types. -/
inductive IsTypeDeclarationEdit (masked : Text) : Edit -> Prop where
  | typesOnly {found : Match} (isImport : found ∈ typeOnlyImport.all masked) :
      IsTypeDeclarationEdit masked (statementRemoval masked found.start (statementEnd masked found.start))
  | interface {found : Match} {closed : Nat} (isHead : found ∈ interfaceHead.all masked)
      (paired : (BracketPairs.ofText masked).closerOf? (found.stop - 1) = some closed) :
      IsTypeDeclarationEdit masked (statementRemoval masked found.start (closed + 1))
  | typeAlias {found : Match} (isHead : found ∈ typeAliasHead.all masked) :
      IsTypeDeclarationEdit masked (statementRemoval masked found.start (statementEnd masked found.stop))
  | ambient {found : Match} (isHead : found ∈ ambientHead.all masked) :
      IsTypeDeclarationEdit masked (statementRemoval masked found.start (statementEnd masked found.stop))

theorem isTypeDeclarationEdit_of_mem (member : edit ∈ typeDeclarationEdits masked) :
    IsTypeDeclarationEdit masked edit := by
  simp only [typeDeclarationEdits, List.mem_append, List.mem_map, List.mem_filterMap,
    Option.map_eq_some_iff] at member
  rcases member with (⟨found, isImport, rfl⟩ | ⟨found, isHead, closed, paired, rfl⟩) |
    ⟨found, isAlias | isAmbient, rfl⟩
  · exact .typesOnly isImport
  · exact .interface isHead paired
  · exact .typeAlias isAlias
  · exact .ambient isAmbient

/-! ## Types within expressions -/

/-- The removals of type arguments and of the type parameters of arrow functions. -/
inductive IsTypeArgumentEdit (masked : Text) : Edit -> Prop where
  | arguments {found : Match} {inner : Span} (isList : found ∈ typeArguments.all masked)
      (known : found.span? 2 = some inner) :
      IsTypeArgumentEdit masked (Edit.deletion (inner.start - 1) found.stop)
  | arrow {found : Match} {lead : Span} (isArrow : found ∈ arrowTypeParameters.all masked)
      (known : found.span? 1 = some lead) :
      IsTypeArgumentEdit masked (Edit.deletion lead.stop found.stop)

theorem isTypeArgumentEdit_of_mem (member : edit ∈ typeArgumentEdits masked) :
    IsTypeArgumentEdit masked edit := by
  simp only [typeArgumentEdits, List.mem_append, List.mem_filterMap, List.mem_filter,
    Option.map_eq_some_iff] at member
  rcases member with ⟨found, ⟨isList, _⟩, inner, known, rfl⟩ | ⟨found, isArrow, lead, known, rfl⟩
  · exact .arguments isList known
  · exact .arrow isArrow known

theorem exists_of_mem_nonNullEdits (member : edit ∈ nonNullEdits masked) :
    ∃ found, (found ∈ nonNullMember.all masked ∨ found ∈ nonNullLineEnd.all masked) ∧
      edit = Edit.deletion found.start found.stop := by
  obtain ⟨found, isMark, rfl⟩ := List.mem_map.mp member
  exact ⟨found, List.mem_append.mp isMark, rfl⟩

theorem exists_cast_of_mem_castEdits (member : edit ∈ castEdits masked) :
    ∃ found ∈ castSuffix.all masked, edit = Edit.deletion found.start found.stop := by
  obtain ⟨found, isCast, rfl⟩ := List.mem_map.mp member
  exact ⟨found, (List.mem_filter.mp isCast).1, rfl⟩

/-! ## Class members -/

/-- What holds where the modifiers of a member begin, and behind each of them if it holds in front of it,
holds in front of every modifier that is deleted, and behind the last one. -/
theorem memberModifiers_induction (holds : Nat -> Prop) {room offset : Nat}
    (step : ∀ {place found}, holds place → memberKeyword.matchWithin? masked place limit = some found →
      holds found.stop) (here : holds offset) :
    (∀ edit ∈ (memberModifiers masked limit room offset).1, ∃ place found, holds place ∧
        memberKeyword.matchWithin? masked place limit = some found ∧
          edit = Edit.deletion found.start found.stop) ∧
      holds (memberModifiers masked limit room offset).2 := by
  induction room generalizing offset with
  | zero => exact ⟨fun edit member => absurd member List.not_mem_nil, here⟩
  | succ room inductionHypothesis =>
      rw [memberModifiers]
      cases foundHere : memberKeyword.matchWithin? masked offset limit with
      | none => exact ⟨fun edit member => absurd member List.not_mem_nil, here⟩
      | some found =>
          obtain ⟨ofLater, last⟩ := inductionHypothesis (step here foundHere)
          dsimp only
          split
          · exact ⟨ofLater, last⟩
          · exact ⟨List.forall_mem_cons.mpr ⟨⟨offset, found, here, foundHere, rfl⟩, ofLater⟩, last⟩

/-- The modifiers of the member that a line begins, and the offset behind them. -/
def modifiersAt (masked : Text) (limit lineStart : Nat) : List Edit × Nat :=
  memberModifiers masked limit (limit - Text.skip Text.isIndent masked lineStart)
    (Text.skip Text.isIndent masked lineStart)

/-- The edits of the class member that a line begins. -/
inductive IsMemberEdit (masked : Text) (limit lineStart : Nat) : Edit -> Prop where
  | modifier {edit : Edit} (isModifier : edit ∈ (modifiersAt masked limit lineStart).1) :
      IsMemberEdit masked limit lineStart edit
  | mark {found : Match} {span : Span}
      (isField : fieldHead.matchWithin? masked (modifiersAt masked limit lineStart).2 limit = some found)
      (known : found.span? 2 = some span) :
      IsMemberEdit masked limit lineStart (Edit.deletion span.start span.stop)
  | ascription {found : Match}
      (isField : fieldHead.matchWithin? masked (modifiersAt masked limit lineStart).2 limit = some found) :
      IsMemberEdit masked limit lineStart
        (annotationRemoval masked (found.stop - 1) (typeEnd masked (found.stop - 1 + 1) limit "=;\n"))

theorem isMemberEdit_of_mem {lineStart : Nat} (member : edit ∈ memberEdits masked limit lineStart) :
    IsMemberEdit masked limit lineStart edit := by
  unfold memberEdits at member
  dsimp only at member
  split at member
  next => contradiction
  split at member
  next => exact .modifier member
  next found isField =>
    rcases List.mem_append.mp member with isEarlier | isAnnotation
    · rcases List.mem_append.mp isEarlier with isModifier | isMark
      · exact .modifier isModifier
      · split at isMark
        next span known => exact List.mem_singleton.mp isMark ▸ .mark isField known
        next => contradiction
    · exact List.mem_singleton.mp isAnnotation ▸ .ascription isField

/-- The edits of classes. -/
inductive IsClassEdit (masked : Text) : Edit -> Prop where
  | clause {found clause : Match} (isHead : found ∈ classHead.all masked)
      (isClause : implementsClause.firstWithin? masked found.start found.stop = some clause) :
      IsClassEdit masked (Edit.deletion clause.start clause.stop)
  | member {found : Match} {closed lineStart : Nat} {edit : Edit} (isHead : found ∈ classHead.all masked)
      (paired : (BracketPairs.ofText masked).closerOf? (found.stop - 1) = some closed)
      (isStart : lineStart ∈ memberLineStarts 0 (found.stop - 1 + 1)
        (Text.slice masked (found.stop - 1 + 1) closed))
      (isOfLine : IsMemberEdit masked closed lineStart edit) : IsClassEdit masked edit

theorem isClassEdit_of_mem (member : edit ∈ classMemberEdits masked) : IsClassEdit masked edit := by
  obtain ⟨found, isHead, isOfClass⟩ := List.mem_flatMap.mp member
  have ofLines {closed : Nat} (paired : (BracketPairs.ofText masked).closerOf? (found.stop - 1) = some closed)
      (isMember : edit ∈ (memberLineStarts 0 (found.stop - 1 + 1)
        (Text.slice masked (found.stop - 1 + 1) closed)).flatMap (memberEdits masked closed)) :
      IsClassEdit masked edit := by
    obtain ⟨lineStart, isStart, isOfLine⟩ := List.mem_flatMap.mp isMember
    exact .member isHead paired isStart (isMemberEdit_of_mem isOfLine)
  dsimp only at isOfClass
  split at isOfClass
  next =>
    split at isOfClass
    next clause foundFirst => exact List.mem_singleton.mp isOfClass ▸ .clause isHead foundFirst
    next => contradiction
  next closed paired =>
    split at isOfClass
    next clause foundFirst =>
      rcases List.mem_cons.mp isOfClass with isClause | isMember
      · exact isClause ▸ .clause isHead foundFirst
      · exact ofLines paired isMember
    next => exact ofLines paired isOfClass

/-! ## Bindings -/

theorem le_of_bindingEnd? {offset : Nat}
    (bound : bindingEnd? masked (BracketPairs.ofText text) limit offset = some stop) :
    offset ≤ stop := by
  rw [bindingEnd?] at bound
  split at bound
  · split at bound
    next closed paired =>
      have behind := BracketPairs.opener_lt_of_closerOf? paired
      split at bound
      · have isStop := Option.some.inj bound
        omega
      · contradiction
    next => contradiction
  · obtain ⟨found, foundHere, rfl⟩ := Option.map_eq_some_iff.mp bound
    obtain ⟨starts, isOrdered⟩ := isOrdered_of_matchWithin? foundHere
    rw [← starts]
    exact isOrdered.ordered

/-- The edits behind a binding: its mark, and the annotation behind the binding or behind the mark. -/
inductive IsBindingEdit (masked : Text) (mark : Char) (stops : String) (bound limit : Nat) : Edit -> Prop where
  | mark (inside : Text.skip Text.isIndent masked bound < limit)
      (isMark : masked[Text.skip Text.isIndent masked bound]? = some mark) :
      IsBindingEdit masked mark stops bound limit
        (Edit.deletion (Text.skip Text.isIndent masked bound) (Text.skip Text.isIndent masked bound + 1))
  | ascription {colon : Nat}
      (isBehind : colon = Text.skip Text.isIndent masked bound ∨
        masked[Text.skip Text.isIndent masked bound]? = some mark ∧
          colon = Text.skip Text.isIndent masked (Text.skip Text.isIndent masked bound + 1))
      (inside : colon < limit) (isColon : masked[colon]? = some ':') :
      IsBindingEdit masked mark stops bound limit
        (annotationRemoval masked colon (typeEnd masked (colon + 1) limit stops))

/-- What is found behind a binding is a mark and an annotation, in whatever way either is told. -/
theorem mem_or_isBindingEdit {earlier : List Edit} {mark : Char} {stops : String} {bound : Nat}
    {marked : Bool} {annotated : Nat -> Prop} [DecidablePred annotated]
    (isMark : marked = true → Text.skip Text.isIndent masked bound < limit ∧
      masked[Text.skip Text.isIndent masked bound]? = some mark)
    (isColon : ∀ colon, annotated colon → colon < limit ∧ masked[colon]? = some ':')
    (member : edit ∈
      let marker := Text.skip Text.isIndent masked bound
      let marks := if marked then [Edit.deletion marker (marker + 1)] else []
      let colon := if marked then Text.skip Text.isIndent masked (marker + 1) else marker
      if annotated colon then
        earlier ++ marks ++ [annotationRemoval masked colon (typeEnd masked (colon + 1) limit stops)]
      else earlier ++ marks) :
    edit ∈ earlier ∨ IsBindingEdit masked mark stops bound limit edit := by
  cases marked with
  | false =>
      simp only [Bool.false_eq_true, if_false, List.append_nil] at member
      split at member
      next isAnnotated =>
        rcases List.mem_append.mp member with isEarlier | isAnnotation
        · exact Or.inl isEarlier
        · obtain ⟨inside, isThere⟩ := isColon _ isAnnotated
          exact Or.inr (List.mem_singleton.mp isAnnotation ▸ .ascription (Or.inl rfl) inside isThere)
      next => exact Or.inl member
  | true =>
      obtain ⟨insideMark, isMark⟩ := isMark rfl
      have ofMarks (isOfMarks : edit ∈ earlier ++ [Edit.deletion (Text.skip Text.isIndent masked bound)
          (Text.skip Text.isIndent masked bound + 1)]) :
          edit ∈ earlier ∨ IsBindingEdit masked mark stops bound limit edit := by
        rcases List.mem_append.mp isOfMarks with isEarlier | isOfMark
        · exact Or.inl isEarlier
        · exact Or.inr (List.mem_singleton.mp isOfMark ▸ .mark insideMark isMark)
      simp only [if_true] at member
      split at member
      next isAnnotated =>
        rcases List.mem_append.mp member with isOfMarks | isAnnotation
        · exact ofMarks isOfMarks
        · obtain ⟨inside, isThere⟩ := isColon _ isAnnotated
          exact Or.inr (List.mem_singleton.mp isAnnotation ▸ .ascription (Or.inr ⟨isMark, rfl⟩) inside isThere)
      next => exact ofMarks member

namespace IsBindingEdit

variable {mark : Char} {stops : String} {bound : Nat}

/-- What is deleted behind a binding begins behind it and ends within its limit. -/
theorem bounds (isEdit : IsBindingEdit masked mark stops bound limit edit) :
    bound ≤ edit.start ∧ edit.start < limit ∧ edit.stop ≤ limit := by
  have toMarker := @le_skip masked Text.isIndent bound
  cases isEdit with
  | mark inside => exact ⟨toMarker, inside, inside⟩
  | @ascription colon isBehind inside isColon =>
      have toColon := @le_skip masked Text.isIndent (Text.skip Text.isIndent masked bound + 1)
      have behind : colon ≤ typeEnd masked (colon + 1) limit stops :=
        Nat.le_trans (Nat.le_succ colon) (Nat.le_add_right _ _)
      have reached : bound ≤ colon := by
        rcases isBehind with rfl | ⟨_, rfl⟩
        · exact toMarker
        · omega
      exact ⟨reached, inside, Nat.le_trans (trimmedEnd_le behind) (typeEnd_le stops inside)⟩

theorem isDeletion (isEdit : IsBindingEdit masked mark stops bound limit edit) : edit.IsDeletion := by
  cases isEdit with
  | mark => exact isDeletion_deletion (Nat.le_succ _)
  | ascription => exact isDeletion_annotationRemoval ..

end IsBindingEdit

/-! ## Variables -/

theorem exists_bindingEdit_of_mem_declarationEditsOf {pairs : BracketPairs} {found : Match}
    (member : edit ∈ declarationEditsOf masked pairs found) :
    ∃ bound, bindingEnd? masked pairs masked.length found.stop = some bound ∧
      IsBindingEdit masked '!' "=;,\n" bound masked.length edit := by
  have inside {offset : Nat} {c : Char} (isThere : masked[offset]? = some c) :
      offset < masked.length ∧ masked[offset]? = some c :=
    ⟨(List.getElem?_eq_some_iff.mp isThere).1, isThere⟩
  unfold declarationEditsOf at member
  split at member
  next => contradiction
  next bound isBound =>
    have isMark (marked : (masked[Text.skip Text.isIndent masked bound]? == some '!' &&
        masked[Text.skip Text.isIndent masked bound + 1]? != some '=') = true) :=
      inside (beq_iff_eq.mp (Bool.and_eq_true_iff.mp marked).1)
    rcases @mem_or_isBindingEdit masked edit masked.length [] '!' "=;,\n" bound _ _ _ isMark
      (fun _ => inside) member with isEarlier | isEdit
    · contradiction
    · exact ⟨bound, isBound, isEdit⟩

theorem exists_bindingEdit_of_mem_declarationEdits (member : edit ∈ declarationEdits masked) :
    ∃ found ∈ declarationKeyword.all masked, ∃ bound,
      bindingEnd? masked (BracketPairs.ofText masked) masked.length found.stop = some bound ∧
        IsBindingEdit masked '!' "=;,\n" bound masked.length edit := by
  obtain ⟨found, isFound, isOfDeclaration⟩ := List.mem_flatMap.mp member
  exact ⟨found, isFound, exists_bindingEdit_of_mem_declarationEditsOf isOfDeclaration⟩

/-! ## Parameters -/

/-- Where the dots or the binding of a parameter may stand: where its item begins, or behind a modifier. -/
inductive BeginsBinding (masked : Text) (start stop : Nat) : Nat -> Prop where
  | plain : BeginsBinding masked start stop (Text.skip isLayout masked start)
  | modified {found : Match}
      (isModifier : parameterModifier.matchWithin? masked (Text.skip isLayout masked start) stop = some found) :
      BeginsBinding masked start stop found.stop

/-- The offset behind the dots of a rest parameter. -/
def behindDots (masked : Text) (offset : Nat) : Nat :=
  if Text.standsAt "...".toList masked offset then offset + 3 else offset

/-- The edits of one parameter. -/
inductive IsParameterEdit (masked : Text) (pairs : BracketPairs) (start stop : Nat) : Edit -> Prop where
  | modifier {found : Match} (inside : Text.skip isLayout masked start < stop)
      (isModifier : parameterModifier.matchWithin? masked (Text.skip isLayout masked start) stop = some found) :
      IsParameterEdit masked pairs start stop (Edit.deletion found.start found.stop)
  | behind {offset bound : Nat} {edit : Edit} (inside : Text.skip isLayout masked start < stop)
      (begins : BeginsBinding masked start stop offset)
      (isBound : bindingEnd? masked pairs stop (behindDots masked offset) = some bound)
      (isEdit : IsBindingEdit masked '?' "=" bound stop edit) : IsParameterEdit masked pairs start stop edit

theorem isParameterEdit_of_mem {pairs : BracketPairs} {item : Nat × Nat}
    (member : edit ∈ parameterEdits masked pairs item) :
    IsParameterEdit masked pairs item.1 item.2 edit := by
  obtain ⟨start, stop⟩ := item
  have told (mark : Char) (offset : Nat)
      (isTold : (decide (offset < stop) && masked[offset]? == some mark) = true) :
      offset < stop ∧ masked[offset]? = some mark := by
    simpa using isTold
  unfold parameterEdits at member
  dsimp only at member
  split at member
  next => contradiction
  next inside =>
    have inside := Nat.lt_of_not_le inside
    cases isModifier : parameterModifier.matchWithin? masked (Text.skip isLayout masked start) stop with
    | none =>
        rw [isModifier] at member
        dsimp only at member
        split at member
        next => contradiction
        next bound isBound =>
          rcases mem_or_isBindingEdit (told '?' _) (told ':') member with isEarlier | isEdit
          · contradiction
          · exact .behind inside .plain isBound isEdit
    | some found =>
        rw [isModifier] at member
        dsimp only at member
        split at member
        next => exact List.mem_singleton.mp member ▸ .modifier inside isModifier
        next bound isBound =>
          rcases mem_or_isBindingEdit (told '?' _) (told ':') member with isEarlier | isEdit
          · exact List.mem_singleton.mp isEarlier ▸ .modifier inside isModifier
          · exact .behind inside (.modified isModifier) isBound isEdit

theorem BeginsBinding.le {offset : Nat} (begins : BeginsBinding masked start stop offset) : start ≤ offset := by
  cases begins with
  | plain => exact le_skip isLayout start
  | modified isModifier =>
      obtain ⟨starts, isOrdered⟩ := isOrdered_of_matchWithin? isModifier
      exact Nat.le_trans (le_skip isLayout start) (starts ▸ isOrdered.ordered)

theorem le_behindDots (masked : Text) (offset : Nat) : offset ≤ behindDots masked offset := by
  rw [behindDots]
  split
  · exact Nat.le_add_right _ _
  · exact Nat.le_refl _

/-- An edit that begins and ends within an item. -/
def LiesWithin (start stop : Nat) (edit : Edit) : Prop :=
  start ≤ edit.start ∧ edit.start < stop ∧ edit.stop ≤ stop

/-- The edits of a parameter lie within its item. -/
theorem liesWithin_of_mem_parameterEdits {item : Nat × Nat}
    (member : edit ∈ parameterEdits masked (BracketPairs.ofText text) item) :
    LiesWithin item.1 item.2 edit := by
  cases isParameterEdit_of_mem member with
  | @modifier found inside isModifier =>
      have begins := @le_skip masked isLayout item.1
      obtain ⟨starts, _⟩ := isOrdered_of_matchWithin? isModifier
      have reached := Pattern.stop_le_of_matchWithin? (Nat.le_of_lt inside) isModifier
      dsimp only [LiesWithin, Edit.deletion]
      omega
  | @behind offset bound edit inside begins isBound isEdit =>
      have toBinding := begins.le
      have toBound := le_of_bindingEnd? isBound
      have dots := le_behindDots masked offset
      obtain ⟨behind, isInside, ends⟩ := isEdit.bounds
      exact ⟨by omega, isInside, ends⟩

/-! ## Signatures -/

/-- What is known behind parameters: a return type and what stands behind it, or what stands behind the
parameters, or nothing where no return type ends that a colon begins. -/
theorem afterParameters_cases (masked : Text) (closed : Nat) :
    ∃ offset, closed < offset ∧
      ((∃ stop, masked[offset]? = some ':' ∧ returnTypeEnd? masked (offset + 1) = some stop ∧
          afterParameters masked closed = (some ⟨offset, trimmedEnd masked offset stop⟩, followerAt masked stop)) ∨
        afterParameters masked closed = (none, followerAt masked offset) ∨
        afterParameters masked closed = (none, .other)) := by
  have begins := @le_skip masked isLayout (closed + 1)
  refine ⟨Text.skip isLayout masked (closed + 1), by omega, ?_⟩
  unfold afterParameters
  dsimp only
  split
  next isColon =>
    cases ended : returnTypeEnd? masked (Text.skip isLayout masked (closed + 1) + 1) with
    | none => exact Or.inr (Or.inr rfl)
    | some stop => exact Or.inl ⟨stop, isColon, rfl, rfl⟩
  next => exact Or.inr (Or.inl rfl)

/-- A return type begins with a colon, and what follows it is known. -/
theorem exists_of_afterParameters {closed : Nat} {span : Span}
    (known : (afterParameters masked closed).1 = some span) :
    ∃ colon stop, closed < colon ∧ masked[colon]? = some ':' ∧ returnTypeEnd? masked (colon + 1) = some stop ∧
      span = ⟨colon, trimmedEnd masked colon stop⟩ ∧ (afterParameters masked closed).2 = followerAt masked stop := by
  obtain ⟨colon, behind, ⟨stop, isColon, ended, isResult⟩ | isResult | isResult⟩ :=
    afterParameters_cases masked closed
  · rw [isResult] at known ⊢
    exact ⟨colon, stop, behind, isColon, ended, (Option.some.inj known).symm, rfl⟩
  · rw [isResult] at known
    contradiction
  · rw [isResult] at known
    contradiction

theorem signatureEditsOf_other {pairs : BracketPairs} {opened closed : Nat} {returned : Option Span}
    (followed : afterParameters masked closed = (returned, .other)) :
    signatureEditsOf masked pairs (opened, closed) = [] := by
  rw [signatureEditsOf]
  dsimp only
  rw [followed]
  rfl

theorem signatureEditsOf_arrow {pairs : BracketPairs} {opened closed : Nat} {returned : Option Span}
    (followed : afterParameters masked closed = (returned, .arrow)) :
    signatureEditsOf masked pairs (opened, closed) =
      (splitTopLevel masked (opened + 1) closed).flatMap (parameterEdits masked pairs) ++
        (returned.map fun span => Edit.deletion span.start span.stop).toList := by
  rw [signatureEditsOf]
  dsimp only
  rw [followed]
  cases returned <;> rfl

/-- The edits of one pair of parentheses are those of its parameters, and the removal of the return type. -/
theorem of_mem_signatureEditsOf {pairs : BracketPairs} {opened closed : Nat}
    (member : edit ∈ signatureEditsOf masked pairs (opened, closed)) :
    isParameterList masked opened (afterParameters masked closed).2 = true ∧
      ((∃ item ∈ splitTopLevel masked (opened + 1) closed, edit ∈ parameterEdits masked pairs item) ∨
        ∃ span, (afterParameters masked closed).1 = some span ∧ edit = Edit.deletion span.start span.stop) := by
  unfold signatureEditsOf at member
  dsimp only at member
  split at member
  next isList =>
    refine ⟨isList, ?_⟩
    rcases List.mem_append.mp member with isParameter | isOfResult
    · exact Or.inl (List.mem_flatMap.mp isParameter)
    · split at isOfResult
      next span known => exact Or.inr ⟨span, known, List.mem_singleton.mp isOfResult⟩
      next => contradiction
  next => contradiction

/-- The edits of signatures. -/
inductive IsSignatureEdit (masked : Text) : Edit -> Prop where
  | parameter {opened closed : Nat} {item : Nat × Nat} {edit : Edit}
      (isPair : (opened, closed) ∈ BracketPairs.ofKind .round [] 0 masked [])
      (isList : isParameterList masked opened (afterParameters masked closed).2 = true)
      (isItem : item ∈ splitTopLevel masked (opened + 1) closed)
      (isOfItem : edit ∈ parameterEdits masked (BracketPairs.ofText masked) item) : IsSignatureEdit masked edit
  | result {opened closed : Nat} {span : Span}
      (isPair : (opened, closed) ∈ BracketPairs.ofKind .round [] 0 masked [])
      (isList : isParameterList masked opened (afterParameters masked closed).2 = true)
      (known : (afterParameters masked closed).1 = some span) :
      IsSignatureEdit masked (Edit.deletion span.start span.stop)

theorem isSignatureEdit_of_mem (member : edit ∈ signatureEdits masked) : IsSignatureEdit masked edit := by
  obtain ⟨⟨opened, closed⟩, isPair, isOfPair⟩ := List.mem_flatMap.mp member
  obtain ⟨isList, ⟨item, isItem, isOfItem⟩ | ⟨span, known, rfl⟩⟩ := of_mem_signatureEditsOf isOfPair
  · exact .parameter isPair isList isItem isOfItem
  · exact .result isPair isList known

/-- The edits of a parameter end in front of the parenthesis behind it. -/
theorem stop_le_of_mem_parameterEdits {opened closed : Nat} {item : Nat × Nat}
    (isPair : (opened, closed) ∈ BracketPairs.ofKind .round [] 0 masked [])
    (isItem : item ∈ splitTopLevel masked (opened + 1) closed)
    (isOfItem : edit ∈ parameterEdits masked (BracketPairs.ofText masked) item) : edit.stop ≤ closed := by
  have opensBefore : opened < closed :=
    BracketPairs.opener_lt_of_mem_ofKind (by simp) (by simp) (opened, closed) isPair
  have itemInside := (bounds_of_mem_splitTopLevel opensBefore isItem).2
  exact Nat.le_trans (liesWithin_of_mem_parameterEdits isOfItem).2.2 itemInside

/-- Parameters are followed by an arrow or a brace. -/
theorem of_isParameterList_followerAt {opened offset : Nat}
    (isList : isParameterList masked opened (followerAt masked offset) = true) :
    Text.standsAt "=>".toList masked offset = true ∨ masked[offset]? = some '\x7b' := by
  rw [followerAt] at isList
  split at isList
  next isArrow => exact Or.inl isArrow
  next =>
    split at isList
    next isBrace => exact Or.inr isBrace
    next => contradiction

/-- Each edit of a signature ends in front of an arrow or a brace. -/
theorem exists_follower_of_mem_signatureEdits (member : edit ∈ signatureEdits masked) :
    ∃ offset, edit.stop ≤ offset ∧
      (Text.standsAt "=>".toList masked offset = true ∨ masked[offset]? = some '\x7b') := by
  cases isSignatureEdit_of_mem member with
  | @parameter opened closed item edit isPair isList isItem isOfItem =>
      have inside := stop_le_of_mem_parameterEdits isPair isItem isOfItem
      obtain ⟨offset, behind, ⟨stop, _, ended, isResult⟩ | isResult | isResult⟩ :=
        afterParameters_cases masked closed
      · rw [isResult] at isList
        obtain ⟨length, _, rfl⟩ := Option.map_eq_some_iff.mp ended
        exact ⟨_, by omega, of_isParameterList_followerAt isList⟩
      · rw [isResult] at isList
        exact ⟨offset, by omega, of_isParameterList_followerAt isList⟩
      · rw [isResult] at isList
        contradiction
  | @result opened closed span isPair isList known =>
      obtain ⟨colon, stop, _, _, ended, rfl, follows⟩ := exists_of_afterParameters known
      obtain ⟨length, _, rfl⟩ := Option.map_eq_some_iff.mp ended
      rw [follows] at isList
      exact ⟨_, trimmedEnd_le (by omega), of_isParameterList_followerAt isList⟩

end SceneBundler.Dialect
