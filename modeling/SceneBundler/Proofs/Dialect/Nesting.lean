import SceneBundler.Proofs.Dialect.Items
import SceneBundler.Proofs.Dialect.Settled
import SceneBundler.Proofs.Dialect.Slices

/-!
Contract: the stretches that the passes delete from a nested text.

Owns:
- the stretches that may hold brackets without their partners: those with an angle bracket, and those
  with the words of interfaces and of clauses about them;
- that every other stretch which a pass deletes is nested.

Does not own: what is left when they are deleted.
-/

namespace SceneBundler.Dialect

open Source
open Cursor (Passes)
open Pattern (char literal gap name blanks maybe)

/-- Whether a stretch may have been read over brackets without their partners: type arguments and the
annotations with angle brackets, and the heads of interfaces and clauses about them. -/
def isOpenEnded (stretch : Text) : Bool :=
  holdsAngle none stretch || Text.occursIn "interface".toList stretch ||
    Text.occursIn "implements".toList stretch

/-- Whether what an edit deletes is nested, unless it is open-ended. -/
def Nests (masked : Text) (edit : Edit) : Prop :=
  isOpenEnded (Text.slice masked edit.start edit.stop) = false → Nested (Text.slice masked edit.start edit.stop)

variable {masked : Text} {start stop offset limit : Nat} {cursor next : Cursor}

namespace Nests

variable {edit : Edit}

theorem of_nested (nested : Nested (Text.slice masked edit.start edit.stop)) : Nests masked edit :=
  fun _ => nested

theorem deletion (plain : IsPlainBetween masked start stop) : Nests masked (Edit.deletion start stop) :=
  of_nested plain.nested

theorem of_angled (nested : holdsAngle none (Text.slice masked edit.start edit.stop) = false →
    Nested (Text.slice masked edit.start edit.stop)) : Nests masked edit := by
  intro bounded
  exact nested (Bool.or_eq_false_iff.mp (Bool.or_eq_false_iff.mp bounded).1).1

theorem of_openEnded (openEnded : isOpenEnded (Text.slice masked edit.start edit.stop) = true) :
    Nests masked edit := by
  intro bounded
  rw [openEnded] at bounded
  contradiction

end Nests

/-! ## Open-ended stretches -/

theorem occursIn_append (front word back : Text) : Text.occursIn word (front ++ (word ++ back)) = true := by
  induction front with
  | nil =>
      cases word with
      | nil => cases back <;> rfl
      | cons c rest =>
          have isFirst : (c :: rest).isPrefixOf (c :: (rest ++ back)) = true :=
            List.isPrefixOf_iff_prefix.mpr (List.prefix_append (c :: rest) back)
          rw [List.nil_append, List.cons_append, Text.occursIn, isFirst, Bool.true_or]
  | cons c rest inductionHypothesis => rw [List.cons_append, Text.occursIn, inductionHypothesis, Bool.or_true]

/-- A stretch over a place where a word is read holds the word. -/
theorem occursIn_of_reads {letters : String} (liesIn : LiesIn masked cursor)
    (reads : (literal letters).Reads cursor next) (begins : start ≤ cursor.offset) (ends : next.offset ≤ stop) :
    Text.occursIn letters.toList (Text.slice masked start stop) = true := by
  obtain ⟨passes, _⟩ := Pattern.reads_word_iff.mp reads
  rw [slice_around masked begins (Pattern.offset_le_of_reads reads) ends, liesIn.slice_of_passes passes]
  exact occursIn_append ..

/-- A stretch over a place where an angle bracket is read is open-ended. -/
theorem isOpenEnded_of_reads (liesIn : LiesIn masked cursor) (reads : (char '<').Reads cursor next)
    (begins : start ≤ cursor.offset) (ends : next.offset ≤ stop) :
    isOpenEnded (Text.slice masked start stop) = true := by
  obtain ⟨c, isAngle, passes, _⟩ := Cursor.passes_of_step? reads
  rw [isOpenEnded, slice_around masked begins (Pattern.offset_le_of_reads reads) ends,
    liesIn.slice_of_passes passes, holdsAngle_append, List.singleton_append, holdsAngle, isAngle]
  simp only [Bool.true_or, Bool.or_true]

/-! ## Declarations of types -/

/-- The removal of a statement deletes a nested stretch if the statement is nested. -/
theorem nests_statementRemoval (ordered : start ≤ stop)
    (nested : isOpenEnded (Text.slice masked start (statementRemoval masked start stop).stop) = false →
      Nested (Text.slice masked start stop)) :
    Nests masked (statementRemoval masked start stop) := by
  intro bounded
  rw [start_statementRemoval] at bounded ⊢
  exact nested_statementRemoval ordered (nested bounded)

/-- An interface is deleted with its keyword. -/
theorem isOpenEnded_interface {found : Match} (isHead : IsReading interfaceHead masked found)
    (behind : found.stop ≤ stop) : isOpenEnded (Text.slice masked found.start stop) = true := by
  obtain ⟨cursor, next, liesIn, ⟨_, ⟨_, ⟨_, ⟨_, ⟨_, readsLead, readsWord⟩, readsGap⟩, readsName⟩, readsHead⟩,
    readsBrace⟩, rfl⟩ := isHead
  have toWord := Pattern.offset_le_of_reads readsLead
  have toGap := Pattern.offset_le_of_reads readsGap
  have toName := Pattern.offset_le_of_reads readsName
  have toHead := Pattern.offset_le_of_reads readsHead
  have toBrace := Pattern.offset_le_of_reads readsBrace
  dsimp only at behind ⊢
  rw [isOpenEnded, occursIn_of_reads (liesIn.of_reads readsLead) readsWord toWord (by omega), Bool.or_true,
    Bool.true_or]

/-- The head of a type alias holds no bracket, unless it has parameters between angle brackets. -/
theorem isPlainBetween_typeAliasHead {found : Match} (isHead : IsReading typeAliasHead masked found)
    (behind : found.stop ≤ stop) (bounded : isOpenEnded (Text.slice masked found.start stop) = false) :
    IsPlainBetween masked found.start found.stop := by
  obtain ⟨cursor, next, liesIn, ⟨_, ⟨_, ⟨behindName, readsLead, readsParameters⟩, readsEquals⟩, ⟨_, rfl⟩⟩,
    rfl⟩ := isHead
  have toName := Pattern.offset_le_of_reads readsLead
  have toEquals := Pattern.offset_le_of_reads readsParameters
  have toEnd := Pattern.offset_le_of_reads readsEquals
  have inName := liesIn.of_reads readsLead
  dsimp only at behind bounded ⊢
  rcases readsParameters with ⟨_, ⟨_, ⟨behindAngle, readsAngle, readsInside⟩, readsClose⟩, readsBlanks⟩ | rfl
  · have toInside := Pattern.offset_le_of_reads readsInside
    have toClose := Pattern.offset_le_of_reads readsClose
    have toBlanks := Pattern.offset_le_of_reads readsBlanks
    rw [isOpenEnded_of_reads inName readsAngle toName (by omega)] at bounded
    contradiction
  · exact (liesIn.isPlainBetween (by decide) readsLead).trans toName toEnd
      (inName.isPlainBetween (by decide) readsEquals)

/-- What stands behind a head without brackets is a statement. -/
theorem nests_declaration (nested : Nested masked) {found : Match} (ordered : found.start ≤ found.stop)
    (isPlain : isOpenEnded (Text.slice masked found.start
        (statementRemoval masked found.start (statementEnd masked found.stop)).stop) = false →
      IsPlainBetween masked found.start found.stop) :
    Nests masked (statementRemoval masked found.start (statementEnd masked found.stop)) := by
  refine nests_statementRemoval (Nat.le_trans ordered (le_statementEnd _)) fun bounded => ?_
  exact nested_slice_append ordered (le_statementEnd _) (isPlain bounded).nested (nested_statement nested _)

theorem nests_typeDeclarationEdits (nested : Nested masked) :
    ∀ edit ∈ typeDeclarationEdits masked, Nests masked edit := by
  intro edit member
  cases isTypeDeclarationEdit_of_mem member with
  | typesOnly => exact nests_statementRemoval (le_statementEnd _) fun _ => nested_statement nested _
  | @interface found closed isHead paired =>
      have closes := BracketPairs.opener_lt_of_closerOf? paired
      have ordered := (Pattern.isOrdered_of_mem_all isHead).ordered
      refine nests_statementRemoval (by omega) fun bounded => ?_
      have reached := @stop_le_statementRemoval masked found.start (closed + 1)
      rw [isOpenEnded_interface (.of_mem_all isHead) (by omega)] at bounded
      contradiction
  | @typeAlias found isHead =>
      refine nests_declaration nested (Pattern.isOrdered_of_mem_all isHead).ordered fun bounded => ?_
      have reached := @stop_le_statementRemoval masked found.start (statementEnd masked found.stop)
      exact isPlainBetween_typeAliasHead (.of_mem_all isHead) (Nat.le_trans (le_statementEnd _) reached) bounded
  | ambient isHead =>
      exact nests_declaration nested (Pattern.isOrdered_of_mem_all isHead).ordered fun _ =>
        (IsReading.of_mem_all isHead).isPlainBetween (by decide)

/-! ## Types within expressions -/

theorem nests_typeArgumentEdits : ∀ edit ∈ typeArgumentEdits masked, Nests masked edit := by
  intro edit member
  cases isTypeArgumentEdit_of_mem member with
  | @arguments found inner isList known =>
      obtain ⟨cursor, next, liesIn, ⟨_, ⟨behindAngle, ⟨behindName, readsName, readsAngle⟩, readsInner⟩,
        readsClose⟩, rfl⟩ := IsReading.of_mem_all isList
      have toClose := Pattern.offset_le_of_reads readsInner
      have toEnd := Pattern.offset_le_of_reads readsClose
      have toInner := ((liesIn.of_reads readsName).getElem?_of_char readsAngle).2
      have isInner : inner.start = behindAngle.offset := by
        have sameSpan := Pattern.lookup_of_reads (show 2 ∉ (char '>').slots by decide) readsClose
        have captured := known.symm.trans (sameSpan.trans (Pattern.lookup_of_reads_capture readsInner))
        rw [Option.some.inj captured]
      refine .of_openEnded (isOpenEnded_of_reads (liesIn.of_reads readsName) readsAngle ?_ ?_)
      · dsimp only [Edit.deletion]
        omega
      · exact Nat.le_trans toClose toEnd
  | arrow isArrow known =>
      obtain ⟨begins, _, ends⟩ := (Pattern.isOrdered_of_mem_all isArrow).inside known
      exact .deletion (((IsReading.of_mem_all isArrow).isPlainBetween (by decide)).mono (by omega) (by omega)
        (Nat.le_refl _))

theorem nests_nonNullEdits : ∀ edit ∈ nonNullEdits masked, Nests masked edit := by
  intro edit member
  obtain ⟨found, isMember | isLineEnd, rfl⟩ := exists_of_mem_nonNullEdits member
  · exact .deletion ((IsReading.of_mem_all isMember).isPlainBetween (by decide))
  · exact .deletion ((IsReading.of_mem_all isLineEnd).isPlainBetween (by decide))

/-- Any number of readings over nested stretches are one. -/
theorem nested_of_reads_many {body : Pattern}
    (nests : ∀ here there, LiesIn masked here → body.Reads here there →
      Nested (Text.slice masked here.offset there.offset))
    (liesIn : LiesIn masked cursor) (reads : (Pattern.many body).Reads cursor next) :
    Nested (Text.slice masked cursor.offset next.offset) := by
  induction reads with
  | refl => exact (IsPlainBetween.refl masked _).nested
  | @tail here there earlier round inductionHypothesis =>
      have readsEarlier : (Pattern.many body).Reads cursor here := earlier
      exact nested_slice_append (Pattern.offset_le_of_reads readsEarlier) (Nat.le_of_lt round.2)
        inductionHypothesis (nests _ _ (liesIn.of_reads readsEarlier) round.1)

theorem nests_castEdits : ∀ edit ∈ castEdits masked, Nests masked edit := by
  intro edit member
  obtain ⟨found, isCast, rfl⟩ := exists_cast_of_mem_castEdits member
  obtain ⟨cursor, next, liesIn, ⟨behindType, ⟨beforeType, readsLead, readsType⟩, ⟨_, rfl⟩⟩, rfl⟩ :=
    IsReading.of_mem_all isCast
  have inType := liesIn.of_reads readsLead
  have plainLead := liesIn.isPlainBetween (by decide) readsLead
  refine .of_nested (nested_slice_append (Pattern.offset_le_of_reads readsLead)
    (Pattern.offset_le_of_reads readsType) plainLead.nested ?_)
  rcases readsType with readsConst | ⟨behindName, readsName, readsArray⟩
  · exact (inType.isPlainBetween (by decide) readsConst).nested
  · have inArray := inType.of_reads readsName
    refine nested_slice_append (Pattern.offset_le_of_reads readsName) (Pattern.offset_le_of_reads readsArray)
      (inType.isPlainBetween (by decide) readsName).nested ?_
    refine nested_of_reads_many (fun here there liesIn reads => ?_) inArray readsArray
    rw [liesIn.slice_of_passes (Pattern.reads_word_iff.mp reads).1]
    decide

/-! ## Class members -/

/-- What is read up to a colon or a mark of an annotation is followed by a nested stretch if the whole is
nested. -/
theorem nests_annotationRemoval {colon : Nat} (isColon : masked[colon]? = some ':')
    (nested : Nested (Text.slice masked (colon + 1) limit)) (stops : String) :
    Nests masked (annotationRemoval masked colon (typeEnd masked (colon + 1) limit stops)) :=
  .of_angled fun noAngle => nested_annotated isColon nested (Nat.le_refl 0) stops noAngle

/-- A clause about interfaces is deleted with its keyword. -/
theorem isOpenEnded_implements {found : Match} (isClause : IsReading implementsClause masked found) :
    isOpenEnded (Text.slice masked found.start found.stop) = true := by
  obtain ⟨cursor, next, liesIn, ⟨_, ⟨_, ⟨_, ⟨_, readsGap, readsWord⟩, readsSpace⟩, readsNames⟩, ⟨_, rfl⟩⟩,
    rfl⟩ := isClause
  have toWord := Pattern.offset_le_of_reads readsGap
  have toNames := Pattern.offset_le_of_reads readsSpace
  have toEnd := Pattern.offset_le_of_reads readsNames
  dsimp only
  rw [isOpenEnded, occursIn_of_reads (liesIn.of_reads readsGap) readsWord toWord (by omega), Bool.or_true]

/-- What is deleted from a class member, given what the body ends with and that the rest of it is nested. -/
theorem nests_of_isMemberEdit {lineStart : Nat} {kind : BracketKind} (closes : masked[limit]? = some kind.closer)
    (within : lineStart ≤ limit) (nested : Nested (Text.slice masked lineStart limit)) {edit : Edit}
    (isEdit : IsMemberEdit masked limit lineStart edit) : Nests masked edit := by
  have toLimit := skip_le closes (show Text.isIndent kind.closer = false by cases kind <;> decide) within
  -- The lead of a member, from the beginning of its line on, is without brackets.
  obtain ⟨ofModifiers, behind, inside, plainLead⟩ := @memberModifiers_induction masked limit
    (fun place => lineStart ≤ place ∧ place ≤ limit ∧ IsPlainBetween masked lineStart place)
    (limit - Text.skip Text.isIndent masked lineStart) _
    (fun {place found} ⟨behind, inside, plain⟩ foundHere => by
      obtain ⟨rfl, isOrdered⟩ := Pattern.isOrdered_of_matchWithin? foundHere
      exact ⟨Nat.le_trans behind isOrdered.ordered, Pattern.stop_le_of_matchWithin? inside foundHere,
        plain.trans behind isOrdered.ordered ((IsReading.of_matchWithin? foundHere).isPlainBetween (by decide))⟩)
    ⟨le_skip Text.isIndent lineStart, toLimit, .skip isBracket_of_isIndent masked lineStart⟩
  cases isEdit with
  | modifier isModifier =>
      obtain ⟨_, found, _, foundHere, rfl⟩ := ofModifiers edit isModifier
      exact .deletion ((IsReading.of_matchWithin? foundHere).isPlainBetween (by decide))
  | mark isField known =>
      obtain ⟨begins, ordered, ends⟩ := (Pattern.isOrdered_of_matchWithin? isField).2.inside known
      have plainHead := (IsReading.of_matchWithin? isField).isPlainBetween (by decide)
      exact .deletion (plainHead.mono begins ordered ends)
  | ascription isField =>
      obtain ⟨starts, isOrdered⟩ := Pattern.isOrdered_of_matchWithin? isField
      have plainHead := (IsReading.of_matchWithin? isField).isPlainBetween (by decide)
      have ends := Pattern.stop_le_of_matchWithin? inside isField
      have ordered := isOrdered.ordered
      obtain ⟨cursor, next, liesIn, ⟨_, ⟨beforeColon, readsLead, readsColon⟩, ⟨_, rfl⟩⟩, rfl⟩ :=
        IsReading.of_matchWithin? isField
      obtain ⟨isColon, isStop⟩ := (liesIn.of_reads readsLead).getElem?_of_char readsColon
      dsimp only at starts plainHead ends ordered ⊢
      rw [starts] at plainHead ordered
      rw [isStop] at plainHead ends ordered ⊢
      rw [Nat.add_sub_cancel]
      refine nests_annotationRemoval isColon ?_ _
      exact nested_slice_right (Nat.le_trans behind ordered) ends nested
        (plainLead.trans behind ordered plainHead).nested

theorem nests_classMemberEdits (nested : Nested masked) :
    ∀ edit ∈ classMemberEdits masked, Nests masked edit := by
  intro edit member
  cases isClassEdit_of_mem member with
  | clause _ isClause => exact .of_openEnded (isOpenEnded_implements (.of_firstWithin? isClause))
  | @member found closed lineStart _ _ paired isStart isOfLine =>
      obtain ⟨kind, behind, closes, nestedBody, _⟩ :=
        exists_nested_of_mem_ofText nested (BracketPairs.mem_of_closerOf? paired)
      have inFront := @nestedBefore_of_mem_memberLineStarts [] [] _ 0 _ lineStart rfl rfl nestedBody isStart
      obtain ⟨begins, within, nestedFront⟩ := nested_of_nestedBefore behind inFront
      exact nests_of_isMemberEdit closes within (nested_slice_right begins within nestedBody nestedFront) isOfLine

/-! ## Variables -/

theorem nests_declarationEdits (nested : Nested masked) :
    ∀ edit ∈ declarationEdits masked, Nests masked edit := by
  intro edit member
  obtain ⟨_, _, bound, _, isEdit⟩ := exists_bindingEdit_of_mem_declarationEdits member
  cases isEdit with
  | mark _ isMark => exact .deletion (.one isMark (by decide))
  | @ascription colon _ _ isColon =>
      -- The annotation is read up to the end of the text.
      obtain ⟨opened, _, closes⟩ := nested.exists_openAfter_take (colon + 1)
      refine .of_angled fun noAngle =>
        @nested_annotated masked masked.length _ opened [] isColon ?_ (Nat.zero_le _) _ noAngle
      rwa [Text.slice, List.take_of_length_le (by rw [List.length_drop])]

/-! ## Signatures -/

/-- A binding is nested, and it ends no later than its limit. -/
theorem nested_of_bindingEnd? (nested : Nested masked) {bound : Nat}
    (isBound : bindingEnd? masked (BracketPairs.ofText masked) limit offset = some bound) :
    offset ≤ bound ∧ bound ≤ limit ∧ Nested (Text.slice masked offset bound) := by
  rw [bindingEnd?] at isBound
  split at isBound
  · split at isBound
    next closed paired =>
      obtain ⟨_, behind, _, _, nestedPair⟩ :=
        exists_nested_of_mem_ofText nested (BracketPairs.mem_of_closerOf? paired)
      split at isBound
      next within =>
        obtain rfl := Option.some.inj isBound
        exact ⟨by omega, within, nestedPair⟩
      next => contradiction
    next => contradiction
  · obtain ⟨found, foundHere, rfl⟩ := Option.map_eq_some_iff.mp isBound
    obtain ⟨starts, isOrdered⟩ := Pattern.isOrdered_of_matchWithin? foundHere
    have plain := (IsReading.of_matchWithin? foundHere).isPlainBetween (by decide)
    obtain ⟨cursor, next, liesIn, reads, isFound⟩ := IsReading.of_matchWithin? foundHere
    refine ⟨starts ▸ isOrdered.ordered, ?_, starts ▸ plain.nested⟩
    by_cases within : offset ≤ limit
    · exact Pattern.stop_le_of_matchWithin? within foundHere
    · -- Nothing is ahead within the limit, so no name is read.
      obtain ⟨next, reads, _⟩ := Pattern.reads_of_find foundHere
      obtain ⟨first, rest, _, _, passes⟩ := Pattern.exists_word_of_reads_name reads
      have ahead : Text.slice masked offset limit = first :: rest ++ next.ahead := passes.ahead_eq
      rw [Text.slice, Nat.sub_eq_zero_of_le (by omega), List.take_zero] at ahead
      contradiction

/-- What is deleted behind a binding in a nested item. -/
theorem nests_of_isBindingEdit {mark : Char} {stops : String} {bound : Nat} (isPlainMark : isBracket mark = false)
    (nested : Nested (Text.slice masked bound stop)) {edit : Edit}
    (isEdit : IsBindingEdit masked mark stops bound stop edit) : Nests masked edit := by
  have toMarker := @le_skip masked Text.isIndent bound
  have plainIndent := IsPlainBetween.skip isBracket_of_isIndent masked bound
  cases isEdit with
  | mark _ isMark => exact .deletion (.one isMark isPlainMark)
  | @ascription colon isBehind inside isColon =>
      have ⟨toColon, plain⟩ : bound ≤ colon ∧ IsPlainBetween masked bound colon := by
        rcases isBehind with rfl | ⟨isMark, rfl⟩
        · exact ⟨toMarker, plainIndent⟩
        · have toColon := @le_skip masked Text.isIndent (Text.skip Text.isIndent masked bound + 1)
          have plainMark := plainIndent.trans toMarker (Nat.le_succ _) (.one isMark isPlainMark)
          exact ⟨by omega, plainMark.trans (Nat.le_succ_of_le toMarker) toColon
            (.skip isBracket_of_isIndent masked _)⟩
      have plainColon := plain.trans toColon (Nat.le_succ colon) (.one isColon (by decide))
      exact nests_annotationRemoval isColon
        (nested_slice_right (Nat.le_succ_of_le toColon) inside nested plainColon.nested) stops

/-- The dots of a rest parameter are no brackets. -/
theorem isPlainBetween_dots (masked : Text) (offset : Nat) :
    IsPlainBetween masked offset (behindDots masked offset) := by
  rw [behindDots]
  split
  next dots =>
    obtain ⟨following, split⟩ := List.isPrefixOf_iff_prefix.mp dots
    have isDots : Text.slice masked offset (offset + 3) = "...".toList := by
      rw [Text.slice, Nat.add_sub_cancel_left, ← split]
      rfl
    rw [IsPlainBetween, isDots]
    exact Text.forall_mem_of_all (by decide)
  next => exact .refl masked offset

/-- A parameter begins with blanks and a modifier, and neither holds a bracket. -/
theorem BeginsBinding.isPlainBetween (begins : BeginsBinding masked start stop offset) :
    IsPlainBetween masked start offset := by
  have plainLayout := IsPlainBetween.skip isBracket_of_isLayout masked start
  cases begins with
  | plain => exact plainLayout
  | modified isModifier =>
      obtain ⟨starts, isOrdered⟩ := Pattern.isOrdered_of_matchWithin? isModifier
      have plain := (IsReading.of_matchWithin? isModifier).isPlainBetween (by decide)
      have ordered := isOrdered.ordered
      rw [starts] at plain ordered
      exact plainLayout.trans (le_skip isLayout start) ordered plain

/-- What follows the binding of a nested item is nested. -/
theorem nested_behind_binding (nested : Nested masked) (nestedItem : Nested (Text.slice masked start stop))
    (begins : BeginsBinding masked start stop offset) {bound : Nat}
    (isBound : bindingEnd? masked (BracketPairs.ofText masked) stop (behindDots masked offset) = some bound) :
    Nested (Text.slice masked bound stop) := by
  have toBinding := Nat.le_trans begins.le (le_behindDots masked offset)
  obtain ⟨toBound, within, nestedBinding⟩ := nested_of_bindingEnd? nested isBound
  have plainLead := begins.isPlainBetween.trans begins.le (le_behindDots masked offset)
    (isPlainBetween_dots masked offset)
  exact nested_slice_right (Nat.le_trans toBinding toBound) within nestedItem
    (nested_slice_append toBinding toBound plainLead.nested nestedBinding)

theorem nests_parameterEdits (nested : Nested masked) {item : Nat × Nat}
    (nestedItem : Nested (Text.slice masked item.1 item.2)) :
    ∀ edit ∈ parameterEdits masked (BracketPairs.ofText masked) item, Nests masked edit := by
  intro edit member
  cases isParameterEdit_of_mem member with
  | modifier _ isModifier => exact .deletion ((IsReading.of_matchWithin? isModifier).isPlainBetween (by decide))
  | behind _ begins isBound isEdit =>
      exact nests_of_isBindingEdit (by decide) (nested_behind_binding nested nestedItem begins isBound) isEdit

/-- The items of a nested list are nested. -/
theorem nested_of_mem_splitTopLevel {item : Nat × Nat} (ordered : start ≤ stop)
    (nested : Nested (Text.slice masked start stop)) (member : item ∈ splitTopLevel masked start stop) :
    Nested (Text.slice masked item.1 item.2) := by
  have isPiece : Text.slice masked item.1 item.2 ∈ itemsBetween masked start stop := List.mem_map_of_mem member
  exact (isItem_of_mem_itemsBetween ordered nested isPiece).nested

theorem nests_signatureEdits (nested : Nested masked) :
    ∀ edit ∈ signatureEdits masked, Nests masked edit := by
  intro edit member
  cases isSignatureEdit_of_mem member with
  | @parameter opened closed item _ isPair _ isItem isOfItem =>
      have isOfText : (opened, closed) ∈ BracketPairs.ofText masked :=
        List.mem_flatMap.mpr ⟨.round, by decide, isPair⟩
      obtain ⟨_, behind, _, nestedInside, _⟩ := exists_nested_of_mem_ofText nested isOfText
      exact nests_parameterEdits nested (nested_of_mem_splitTopLevel behind nestedInside isItem) edit isOfItem
  | result _ _ known => exact .of_angled fun noAngle => nested_returnType nested known noAngle

/-- A pass deletes nested stretches from a nested text, and open-ended ones. -/
theorem nests_of_mem_passes {collect : Text -> List Edit} (isPass : collect ∈ passes) (nested : Nested masked) :
    ∀ edit ∈ collect masked, Nests masked edit := by
  simp only [passes, List.mem_cons, List.not_mem_nil, or_false] at isPass
  rcases isPass with rfl | rfl | rfl | rfl | rfl | rfl | rfl
  · exact nests_typeDeclarationEdits nested
  · exact nests_typeArgumentEdits
  · exact nests_nonNullEdits
  · exact nests_castEdits
  · exact nests_classMemberEdits nested
  · exact nests_declarationEdits nested
  · exact nests_signatureEdits nested

end SceneBundler.Dialect
