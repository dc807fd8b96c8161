import Mathlib.Algebra.Ring.Nat
import SceneBundler.Dialect.Enumeration
import SceneBundler.Proofs.Source.Bracket
import SceneBundler.Proofs.Source.View
import SceneBundler.Proofs.Text.Bounds
import SceneBundler.Proofs.Text.Joined
import SceneBundler.Proofs.Text.Pieces

/-!
Contract: the conversion of enumerations cannot be undone by deleting.

Owns:
- that the members of an enumeration are disjoint parts of it;
- that each object has fewer letters `u` than the enumeration it takes the place of, which has one
  more in its keyword;
- that a conversion which changes a text leaves it with fewer of them.

Does not own: which enumerations are converted.
-/

namespace SceneBundler.Dialect

open Pattern (maybe literal gap)

/-- How often the letter `u` of the keyword `enum` stands in a text. -/
def keyLetters (text : Text) : Nat :=
  text.count 'u'

theorem keyLetters_append (first second : Text) :
    keyLetters (first ++ second) = keyLetters first + keyLetters second :=
  List.count_append

theorem keyLetters_le_of_sublist {first second : Text} (sublist : first.Sublist second) :
    keyLetters first ≤ keyLetters second :=
  sublist.count_le 'u'

/-! ## Slices -/

theorem keyLetters_slice_add (text : Text) {start middle stop : Nat} (first : start ≤ middle)
    (second : middle ≤ stop) :
    keyLetters (Text.slice text start stop) =
      keyLetters (Text.slice text start middle) + keyLetters (Text.slice text middle stop) := by
  rw [Text.slice_append_slice text first second, keyLetters_append]

theorem keyLetters_slice_le (text : Text) {start first last stop : Nat} (begins : start ≤ first)
    (ordered : first ≤ last) (ends : last ≤ stop) :
    keyLetters (Text.slice text first last) ≤ keyLetters (Text.slice text start stop) := by
  rw [keyLetters_slice_add text begins (Nat.le_trans ordered ends),
    keyLetters_slice_add text ordered ends]
  omega

theorem keyLetters_trim_le (text : Text) : keyLetters (Text.trim text) ≤ keyLetters text := by
  have front : (Text.trimStart text).Sublist text := List.dropWhile_sublist _
  have back : (Text.trimEnd (Text.trimStart text)).Sublist (Text.trimStart text) := by
    have dropped := (List.dropWhile_sublist Character.isBlank (l := (Text.trimStart text).reverse)).reverse
    rwa [List.reverse_reverse] at dropped
  exact keyLetters_le_of_sublist (back.trans front)

/-- The masked view hides letters but shows none that the source has not. -/
theorem keyLetters_masked_le (text : Text) (start stop : Nat) :
    keyLetters (Text.slice (Source.mask text) start stop) ≤ keyLetters (Text.slice text start stop) := by
  have shown {source masked : Text} (faithful : List.Forall₂ Source.KeepsOrBlanks source masked) :
      keyLetters masked ≤ keyLetters source := by
    induction faithful with
    | nil => exact Nat.le_refl _
    | cons kept _ inductionHypothesis =>
        rcases kept with same | ⟨blanked, _⟩
        · subst same
          rw [keyLetters, keyLetters, List.count_cons, List.count_cons]
          exact Nat.add_le_add_right inductionHypothesis _
        · subst blanked
          rw [keyLetters, List.count_cons_of_ne (by decide)]
          exact Nat.le_trans inductionHypothesis (List.count_le_count_cons ..)
  exact shown (List.forall₂_take _ (List.forall₂_drop _ (Source.forall₂_mask text)))

theorem keyLetters_ofInt (value : Int) : keyLetters (Text.ofInt value) = 0 := by
  have digits (n : Nat) : keyLetters (Text.ofNat n) = 0 := by
    refine List.count_eq_zero.mpr fun member => ?_
    have isDigit := Nat.isDigit_of_mem_toDigits (by decide) (by decide) member
    exact absurd isDigit (by decide)
  cases value with
  | ofNat n => exact digits n
  | negSucc n =>
      rw [Text.ofInt, keyLetters, List.count_cons_of_ne (by decide)]
      exact digits (n + 1)

/-! ## Members -/

theorem captured_slice {found : Match} (isOrdered : found.IsOrdered) (text : Text) (slot : Nat) :
    keyLetters (found.captured text slot) ≤ keyLetters (Text.slice text found.start found.stop) := by
  unfold Match.captured Match.captured?
  cases known : found.span? slot with
  | none => exact Nat.zero_le _
  | some span =>
      obtain ⟨begins, ordered, ends⟩ := isOrdered.inside known
      exact keyLetters_slice_le text begins ordered ends

/-- The members that are read: with a whole number, with a plain text, or bare, where the members in front of
them give their value. -/
inductive IsMember (text : Text) (next : Option Int) (start stop : Nat) : EnumMember × Option Int -> Prop where
  | number {found : Match} (isKey : enumKey.matchWithin? text start stop = some found)
      (isNumber : wholeNumber.isFullMatch (Text.trim (Text.slice text found.stop stop)) = true) :
      IsMember text next start stop (⟨found.captured text 1, Text.trim (Text.slice text found.stop stop)⟩,
        (Numeral.integer? (Text.trim (Text.slice text found.stop stop))).map (· + 1))
  | string {found : Match} (isKey : enumKey.matchWithin? text start stop = some found)
      (isString : plainString.isFullMatch (Text.trim (Text.slice text found.stop stop)) = true) :
      IsMember text next start stop (⟨found.captured text 1, Text.trim (Text.slice text found.stop stop)⟩, none)
  | bare {found : Match} {value : Int} (isKey : enumKey.matchWithin? text start stop = some found)
      (isNext : next = some value) (isEmpty : Text.trim (Text.slice text found.stop stop) = []) :
      IsMember text next start stop (⟨found.captured text 1, Text.ofInt value⟩, some (value + 1))

theorem isMember_of_readMember? {text : Text} {next : Option Int} {start stop : Nat}
    {result : EnumMember × Option Int} (read : readMember? text next start stop = some result) :
    IsMember text next start stop result := by
  unfold readMember? at read
  split at read
  next => contradiction
  next found isKey =>
    dsimp only at read
    split at read
    · split at read
      next isNumber => exact Option.some.inj read ▸ .number isKey isNumber
      next =>
        split at read
        next isString => exact Option.some.inj read ▸ .string isKey isString
        next => contradiction
    · split at read
      next value =>
        split at read
        next isEmpty => exact Option.some.inj read ▸ .bare isKey rfl (List.isEmpty_iff.mp isEmpty)
        next => contradiction
      next => contradiction

/-- The key and the value of a member are parts of its item that do not meet, or the value is a
numeral. -/
theorem keyLetters_readMember? {text : Text} {next after : Option Int} {start stop : Nat}
    {member : EnumMember} (ordered : start ≤ stop)
    (read : readMember? text next start stop = some (member, after)) :
    keyLetters member.key + keyLetters member.value ≤ keyLetters (Text.slice text start stop) := by
  have keyAndValue {found : Match} (isKey : enumKey.matchWithin? text start stop = some found) :
      keyLetters (found.captured text 1) + keyLetters (Text.trim (Text.slice text found.stop stop)) ≤
        keyLetters (Text.slice text start stop) := by
    obtain ⟨begins, isOrdered⟩ := Pattern.isOrdered_of_matchWithin? isKey
    have key := captured_slice isOrdered text 1
    have value := keyLetters_trim_le (Text.slice text found.stop stop)
    have both := keyLetters_slice_add text (begins ▸ isOrdered.ordered)
      (Pattern.stop_le_of_matchWithin? ordered isKey)
    rw [begins] at key
    omega
  cases isMember_of_readMember? read with
  | number isKey => exact keyAndValue isKey
  | string isKey => exact keyAndValue isKey
  | @bare found value isKey =>
      have numeral := keyLetters_ofInt value
      have keyFits := keyAndValue isKey
      dsimp only
      omega

/-- The letters of items on their own. -/
def itemLetters (text : Text) (items : List (Nat × Nat)) : Nat :=
  (items.map fun item => keyLetters (Text.slice text item.1 item.2)).sum

/-- The letters of the keys and values of members. -/
def memberLetters (members : List EnumMember) : Nat :=
  (members.map fun member => keyLetters member.key + keyLetters member.value).sum

theorem memberLetters_le {text masked : Text} {next : Option Int} {items : List (Nat × Nat)}
    {members : List EnumMember} (ordered : ∀ item ∈ items, item.1 ≤ item.2)
    (read : readMembers? text masked next items = some members) :
    memberLetters members ≤ itemLetters text items := by
  induction items generalizing next members with
  | nil =>
      obtain rfl := Option.some.inj read
      exact Nat.le_refl _
  | cons item rest inductionHypothesis =>
      have orderedRest := fun other isLater => ordered other (List.mem_cons_of_mem item isLater)
      have counted : itemLetters text (item :: rest) =
          keyLetters (Text.slice text item.1 item.2) + itemLetters text rest := List.sum_cons
      rw [readMembers?] at read
      split at read
      · have later := inductionHypothesis orderedRest read
        omega
      · split at read
        · contradiction
        next member after readHere =>
          obtain ⟨others, readRest, rfl⟩ := Option.map_eq_some_iff.mp read
          have here := keyLetters_readMember? (ordered item List.mem_cons_self) readHere
          have later := inductionHypothesis orderedRest readRest
          have together : memberLetters (member :: others) =
              keyLetters member.key + keyLetters member.value + memberLetters others := List.sum_cons
          omega

/-- The items of a list follow one another, so they have no more letters than the list. -/
theorem itemLetters_itemsFrom_le (text : Text) {depth : Int} {start offset : Nat} (rest : Text)
    (ordered : start ≤ offset) :
    (∀ item ∈ itemsFrom depth start offset rest, item.1 ≤ item.2) ∧
      itemLetters text (itemsFrom depth start offset rest) ≤
        keyLetters (Text.slice text start (offset + rest.length)) := by
  induction rest generalizing depth start offset with
  | nil => simpa [itemsFrom, itemLetters] using ordered
  | cons c rest inductionHypothesis =>
      have next : offset + 1 + rest.length = offset + (c :: rest).length := by
        rw [List.length_cons]
        omega
      have onward (deeper : Int) :=
        next ▸ @inductionHypothesis deeper start (offset + 1) (Nat.le_succ_of_le ordered)
      rw [itemsFrom]
      split
      · exact onward _
      · split
        · exact onward _
        · split
          · obtain ⟨orderedLater, later⟩ := @inductionHypothesis depth (offset + 1) (offset + 1)
              (Nat.le_refl _)
            rw [next] at later
            refine ⟨?_, ?_⟩
            · intro item member
              rcases List.mem_cons.mp member with rfl | isLater
              · exact ordered
              · exact orderedLater item isLater
            · have counted : itemLetters text
                  ((start, offset) :: itemsFrom depth (offset + 1) (offset + 1) rest) =
                    keyLetters (Text.slice text start offset) +
                      itemLetters text (itemsFrom depth (offset + 1) (offset + 1) rest) :=
                List.sum_cons
              have whole := keyLetters_slice_add text ordered
                (Nat.le_add_right offset (c :: rest).length)
              have shorter := keyLetters_slice_le text (Nat.le_succ offset)
                (show offset + 1 ≤ offset + (c :: rest).length by rw [List.length_cons]; omega)
                (Nat.le_refl _)
              rw [Nat.succ_eq_add_one] at shorter
              omega
          · exact onward _

/-! ## Objects -/

theorem keyLetters_join {separator : Text} (noLetters : keyLetters separator = 0)
    (pieces : List Text) : keyLetters (Text.join separator pieces) = (pieces.map keyLetters).sum := by
  induction pieces with
  | nil => rfl
  | cons piece rest inductionHypothesis =>
      cases rest with
      | nil => simp [Text.join]
      | cons next others =>
          rw [Text.join_cons_cons, keyLetters_append, keyLetters_append, noLetters,
            inductionHypothesis, List.map_cons, List.sum_cons, List.map_cons, List.sum_cons,
            List.map_cons, List.sum_cons, Nat.zero_add]

theorem keyLetters_frozenObject (members : List EnumMember) :
    keyLetters (frozenObject members) = memberLetters members := by
  have glue : keyLetters ": ".toList = 0 ∧ keyLetters ", ".toList = 0 ∧
      keyLetters "Object.freeze(".toList = 0 := by decide
  have fields : (members.map fun member => member.key ++ ": ".toList ++ member.value).map keyLetters =
      members.map fun member => keyLetters member.key + keyLetters member.value := by
    rw [List.map_map]
    refine List.map_congr_left fun member _ => ?_
    simp only [Function.comp_apply, keyLetters_append, glue.1]
    omega
  have body := keyLetters_join glue.2.1
    (members.map fun member => member.key ++ ": ".toList ++ member.value)
  rw [fields] at body
  unfold frozenObject
  dsimp only
  rw [keyLetters_append, keyLetters_append, glue.2.2, Nat.zero_add]
  split
  next empty =>
    rw [List.isEmpty_iff.mp empty] at body
    exact body
  next =>
    have braces : keyLetters ['{', ' '] = 0 ∧ keyLetters [' ', '}'] = 0 ∧ keyLetters [')'] = 0 := by
      decide
    rw [keyLetters_append, keyLetters_append, body, braces.1, braces.2.1, braces.2.2, Nat.zero_add]
    rfl

/-! ## Conversion -/

/-- Whether an edit leaves fewer letters than it takes away. -/
def Lowers (text : Text) (edit : Edit) : Prop :=
  edit.start ≤ edit.stop ∧
    keyLetters edit.replacement < keyLetters (Text.slice text edit.start edit.stop)

/-- The indentation and the name of an enumeration are parts of its head beside the keyword. -/
theorem keyLetters_enumHead {masked : Text} {found : Match} (isHead : found ∈ enumHead.all masked) :
    keyLetters (found.captured masked 1) + keyLetters (found.captured masked 3) <
      keyLetters (Text.slice masked found.start found.stop) := by
  obtain ⟨passed, ahead, split, foundHere⟩ := Pattern.find_of_mem_all isHead
  obtain ⟨brace, reads, isFound⟩ := Pattern.reads_of_find foundHere
  obtain ⟨blank, ⟨named, ⟨spaced, ⟨keyed, ⟨constant, ⟨declared, ⟨exported, ⟨indented, ⟨start,
    readsStart, readsIndent⟩, readsExport⟩, readsDeclare⟩, readsConst⟩, readsKey⟩, readsGap⟩,
    readsName⟩, readsBlank⟩, readsBrace⟩ := reads
  obtain ⟨_, rfl⟩ := readsStart
  have isIn : (Cursor.between passed ahead).IsIn masked := split ▸ Cursor.isIn_between passed ahead
  have beforeKey := (((isIn.of_reads readsIndent).of_reads readsExport).of_reads
    readsDeclare).of_reads readsConst
  have keyword : keyLetters (Text.slice masked constant.offset keyed.offset) = 1 := by
    have covers := (beforeKey.span_of (Pattern.reads_word_iff.mp readsKey).1).2
    rw [Span.of] at covers
    rw [covers]
    decide
  have kept {slot : Nat} {span : Span} (known : brace.captures.lookup slot = some span) :
      found.captured masked slot = Text.slice masked span.start span.stop := by
    have isKnown : found.span? slot = some span := by
      rw [isFound]
      exact known
    rw [Match.captured, Match.captured?, isKnown]
    rfl
  have lead : brace.captures.lookup 1 =
      some ⟨(Cursor.between passed ahead).offset, indented.offset⟩ := by
    rw [Pattern.lookup_of_reads (by decide) readsBrace, Pattern.lookup_of_reads (by decide) readsBlank,
      Pattern.lookup_of_reads (by decide) readsName, Pattern.lookup_of_reads (by decide) readsGap,
      Pattern.lookup_of_reads (by decide) readsKey, Pattern.lookup_of_reads (by decide) readsConst,
      Pattern.lookup_of_reads (by decide) readsDeclare,
      Pattern.lookup_of_reads (by decide) readsExport, Pattern.lookup_of_reads_capture readsIndent]
  have label : brace.captures.lookup 3 = some ⟨spaced.offset, named.offset⟩ := by
    rw [Pattern.lookup_of_reads (by decide) readsBrace, Pattern.lookup_of_reads (by decide) readsBlank,
      Pattern.lookup_of_reads_capture readsName]
  have toIndented := Pattern.offset_le_of_reads readsIndent
  have toConstant := Nat.le_trans (Pattern.offset_le_of_reads readsExport)
    (Nat.le_trans (Pattern.offset_le_of_reads readsDeclare) (Pattern.offset_le_of_reads readsConst))
  have toKeyed := Pattern.offset_le_of_reads readsKey
  have toSpaced := Pattern.offset_le_of_reads readsGap
  have toNamed := Pattern.offset_le_of_reads readsName
  have toBrace := Nat.le_trans (Pattern.offset_le_of_reads readsBlank)
    (Pattern.offset_le_of_reads readsBrace)
  have toKey := Nat.le_trans toConstant toKeyed
  rw [kept lead, kept label, isFound]
  dsimp only
  have pastIndent := keyLetters_slice_add masked toIndented
    (show indented.offset ≤ brace.offset by omega)
  have pastLead := keyLetters_slice_add masked toConstant (show constant.offset ≤ brace.offset by omega)
  have pastKey := keyLetters_slice_add masked toKeyed (show keyed.offset ≤ brace.offset by omega)
  have pastGap := keyLetters_slice_add masked toSpaced (show spaced.offset ≤ brace.offset by omega)
  have pastName := keyLetters_slice_add masked toNamed toBrace
  omega

/-- The head of an enumeration ends with a character, its brace. -/
theorem stop_pos_of_enumHead {masked : Text} {found : Match} (isHead : found ∈ enumHead.all masked) :
    0 < found.stop := by
  have lowers := keyLetters_enumHead isHead
  rcases Nat.eq_zero_or_pos found.stop with atStart | positive
  · rw [atStart, Text.slice, Nat.zero_sub, List.take_zero] at lowers
    exact absurd lowers (Nat.not_lt_zero _)
  · exact positive

/-- Where an enumeration is converted, its members were read between its braces, and a semicolon directly
behind these goes with it. -/
theorem exists_of_convertEnum {text masked : Text} {pairs : Source.BracketPairs} {found : Match} {edit : Edit}
    (converted : convertEnum text masked pairs found = some (.inl edit)) :
    ∃ closed members stop, pairs.closerOf? (found.stop - 1) = some closed ∧
      readMembers? text masked (some 0) (splitTopLevel masked (found.stop - 1 + 1) closed) = some members ∧
        (stop = closed + 1 ∨ masked[closed + 1]? = some ';' ∧ stop = closed + 1 + 1) ∧
          edit = ⟨found.start, stop,
            found.captured masked 1 ++ (if (found.span? 2).isSome then "export ".toList else []) ++
              "const ".toList ++ found.captured masked 3 ++ " = ".toList ++ frozenObject members ++ [';']⟩ := by
  unfold convertEnum at converted
  dsimp only at converted
  split at converted
  next => contradiction
  next closed paired =>
    split at converted
    next => simp at converted
    next members read =>
      refine ⟨closed, members, _, paired, read, ?_, (Sum.inl.inj (Option.some.inj converted)).symm⟩
      split
      next isSemicolon => exact Or.inr ⟨isSemicolon, rfl⟩
      next => exact Or.inl rfl

theorem lowers_of_convertEnum {text : Text} {found : Match} {edit : Edit}
    (isHead : found ∈ enumHead.all (Source.mask text))
    (converted : convertEnum text (Source.mask text)
      (Source.BracketPairs.ofText (Source.mask text)) found = some (.inl edit)) :
    Lowers text edit := by
  obtain ⟨closed, members, stop, paired, read, isStop, rfl⟩ := exists_of_convertEnum converted
  have head := keyLetters_enumHead isHead
  have shown := keyLetters_masked_le text found.start found.stop
  have ordered := (Pattern.isOrdered_of_mem_all isHead).ordered
  have closes := Source.BracketPairs.opener_lt_of_closerOf? paired
  have positive := stop_pos_of_enumHead isHead
  rw [Nat.sub_add_cancel positive] at read
  obtain ⟨orderedItems, items⟩ := itemLetters_itemsFrom_le text
    (Text.slice (Source.mask text) found.stop closed) (Nat.le_refl found.stop)
  have inside := memberLetters_le orderedItems read
  have bodyLength : (Text.slice (Source.mask text) found.stop closed).length ≤
      closed - found.stop := List.length_take_le _ _
  have body := keyLetters_slice_le text (Nat.le_refl found.stop)
    (Nat.le_add_right found.stop (Text.slice (Source.mask text) found.stop closed).length)
    (show _ ≤ closed by omega)
  have glue : keyLetters "export ".toList = 0 ∧ keyLetters "const ".toList = 0 ∧
      keyLetters " = ".toList = 0 ∧ keyLetters [';'] = 0 := by decide
  have noExport (exported : Bool) :
      keyLetters (if exported = true then "export ".toList else []) = 0 := by
    cases exported
    · rfl
    · exact glue.1
  have behind : closed ≤ stop := by
    rcases isStop with rfl | ⟨_, rfl⟩
    · exact Nat.le_succ _
    · omega
  have headAndBody := keyLetters_slice_add text ordered (show found.stop ≤ closed by omega)
  have covered := keyLetters_slice_le text (Nat.le_refl found.start)
    (show found.start ≤ closed by omega) behind
  refine ⟨?_, ?_⟩
  · dsimp only
    omega
  · simp only [keyLetters_append, noExport, glue.2.1, glue.2.2.1, glue.2.2.2,
      keyLetters_frozenObject]
    omega

/-- The text behind the cursor loses a letter with every edit made. -/
theorem keyLetters_splice {text : Text} {cursor : Nat} {edits : List Edit}
    (follow : Edit.Follow cursor edits) (lower : ∀ edit ∈ edits, Lowers text edit) :
    keyLetters (Edit.splice text cursor edits) + edits.length ≤ keyLetters (text.drop cursor) := by
  induction edits generalizing cursor with
  | nil => exact Nat.le_refl _
  | cons edit rest inductionHypothesis =>
      obtain ⟨inOrder, followRest⟩ := follow
      obtain ⟨ordered, lowers⟩ := lower edit List.mem_cons_self
      have later := inductionHypothesis followRest fun other member =>
        lower other (List.mem_cons_of_mem edit member)
      rw [Edit.splice, Text.drop_eq_slice_append text inOrder, Text.drop_eq_slice_append text ordered,
        List.length_cons, keyLetters_append, keyLetters_append, keyLetters_append, keyLetters_append]
      omega

/-- A text with no fewer letters after its enumerations are converted has none to convert. -/
theorem convertEnums_eq_of_le {text : Text}
    (noFewer : keyLetters text ≤ keyLetters (convertEnums text).1) : (convertEnums text).1 = text := by
  have lower : ∀ edit ∈ (((enumHead.all (Source.mask text)).filterMap
      (convertEnum text (Source.mask text) (Source.BracketPairs.ofText (Source.mask text)))).filterMap
        fun outcome => outcome.getLeft?), Lowers text edit := by
    intro edit member
    obtain ⟨outcome, isOutcome, isEdit⟩ := List.mem_filterMap.mp member
    obtain ⟨found, isHead, converted⟩ := List.mem_filterMap.mp isOutcome
    obtain rfl := Sum.getLeft?_eq_some_iff.mp isEdit
    exact lowers_of_convertEnum isHead converted
  unfold convertEnums at noFewer ⊢
  dsimp only at noFewer ⊢
  generalize List.filterMap _ _ = edits at lower noFewer ⊢
  have lost := @keyLetters_splice text 0 _ (Edit.follow_applied 0 (Edit.sorted edits))
    fun edit member => lower edit (Edit.mem_of_mem_sorted.mp (Edit.applied_subset 0 _ member))
  rw [List.drop_zero] at lost
  unfold Edit.applyAll at noFewer ⊢
  have noneApplied : Edit.applied 0 (Edit.sorted edits) = [] := by
    refine List.length_eq_zero_iff.mp ?_
    omega
  rw [noneApplied]
  exact List.drop_zero

end SceneBundler.Dialect
