import SceneBundler.Proofs.Dialect.Nesting
import SceneBundler.Proofs.Dialect.Settled
import SceneBundler.Proofs.Dialect.Slices
import SceneBundler.Proofs.Source.Written
import SceneBundler.Proofs.Text.Joined

/-!
Contract: normalizing a text whose brackets nest in each other.

Owns:
- that the object of a converted enumeration is shown as nested code, and takes the place of a nested
  stretch;
- that a round of a pass leaves the brackets nested if the same brackets are open at both ends of every
  open-ended stretch it deletes;
- that normalizing does so if every round of every pass does;
- a comparison that is deleted as type arguments with a closing parenthesis and an opening one.

Does not own: which enumerations are converted, and which stretches the passes delete.
-/

namespace SceneBundler.Dialect

open Source
open Cursor (Passes)
open Pattern (char name)

/-! ## Keys and values -/

section Objects

variable {text masked word : Text} {cursor next : Cursor}

/-- Characters that code takes as something other than a word. -/
def loudMarks : Text :=
  "/'\"\x60<>()[]\x7b\x7d".toList

theorem isQuiet_of_not_mem {c : Char} (notLoud : c ∉ loudMarks) : isQuiet c = true := by
  rw [isQuiet, Bool.not_eq_true', List.contains_eq_mem, decide_eq_false_iff_not]
  exact notLoud

theorem isQuiet_of_reads {pattern : Pattern} (shunned : (loudMarks.all fun mark => pattern.shuns mark) = true)
    (reads : pattern.Reads cursor next) (passes : Passes word cursor next) : ∀ c ∈ word, isQuiet c = true :=
  fun c member => isQuiet_of_not_mem (not_mem_of_reads shunned reads passes c member)

theorem isBare_of_reads_quotedBy {quote : Char} (isMark : isQuote quote = true)
    (reads : (quotedBy quote).Reads cursor next) (passes : Passes word cursor next) : IsBare word := by
  obtain ⟨_, ⟨_, readsOpen, readsInside⟩, readsClose⟩ := reads
  obtain ⟨first, isFirst, passesOpen, _⟩ := Cursor.passes_of_step? readsOpen
  obtain ⟨inside, accepted, _, passesInside⟩ := Pattern.passes_of_reads_run readsInside
  obtain ⟨last, isLast, passesClose, _⟩ := Cursor.passes_of_step? readsClose
  obtain rfl : first = quote := beq_iff_eq.mp isFirst
  obtain rfl : last = first := beq_iff_eq.mp isLast
  rw [passes.unique ((passesOpen.trans passesInside).trans passesClose), List.append_assoc]
  refine isBare_quoted isMark fun c member => ?_
  obtain ⟨⟨notQuote, notEscape⟩, notBreak⟩ := by simpa using accepted c member
  exact ⟨notEscape, notQuote, notBreak⟩

theorem isBare_of_reads_plainString (reads : plainString.Reads cursor next) (passes : Passes word cursor next) :
    IsBare word := by
  rcases reads with readsSingle | readsDouble
  · exact isBare_of_reads_quotedBy rfl readsSingle passes
  · exact isBare_of_reads_quotedBy rfl readsDouble passes

theorem exists_reads_of_isFullMatch {pattern : Pattern} (isMatch : pattern.isFullMatch text = true) :
    ∃ next, pattern.Reads (Cursor.start text) next ∧ Passes text (Cursor.start text) next := by
  obtain ⟨final, matched⟩ := Option.isSome_iff_exists.mp isMatch
  obtain ⟨next, reads, finished⟩ := Pattern.reads_of_matchThen matched
  obtain ⟨word, passes⟩ := Pattern.passes_of_reads reads
  split at finished
  next atEnd =>
    have isWhole : text = word := by
      have ahead : text = word ++ next.ahead := passes.ahead_eq
      rw [ahead, List.isEmpty_iff.mp atEnd, List.append_nil]
    exact ⟨next, reads, isWhole ▸ passes⟩
  next => contradiction

theorem isBare_ofInt (value : Int) : IsBare (Text.ofInt value) := by
  have digits (n : Nat) : ∀ c ∈ Text.ofNat n, isQuiet c = true := by
    intro c member
    refine isQuiet_of_not_mem fun isMark => ?_
    have isDigit := Nat.isDigit_of_mem_toDigits (by decide) (by decide) member
    have noDigit : ∀ mark ∈ loudMarks, mark.isDigit = false := Text.forall_mem_of_all (by decide)
    rw [noDigit c isMark] at isDigit
    contradiction
  cases value with
  | ofNat n => exact isBare_of_quiet (digits n)
  | negSucc n =>
      refine isBare_of_quiet fun c member => ?_
      rcases List.mem_cons.mp member with rfl | isLater
      · decide
      · exact digits (n + 1) c isLater

theorem captured_eq_slice {found : Match} {slot : Nat} {span : Span} (known : found.span? slot = some span)
    (text : Text) : found.captured text slot = Text.slice text span.start span.stop := by
  rw [Match.captured, Match.captured?, known]
  rfl

theorem isBare_key {found : Match} (isKey : IsReading enumKey text found) : IsBare (found.captured text 1) := by
  obtain ⟨cursor, next, liesIn, ⟨_, ⟨behindKey, ⟨beforeKey, readsLead, readsKey⟩, readsSpace⟩, readsMark⟩,
    rfl⟩ := isKey
  have isSpan : next.captures.lookup 1 = some ⟨beforeKey.offset, behindKey.offset⟩ := by
    rw [Pattern.lookup_of_reads (by decide) readsMark, Pattern.lookup_of_reads (by decide) readsSpace,
      Pattern.lookup_of_reads_capture readsKey]
  rw [@captured_eq_slice ⟨cursor.offset, next.offset, next.captures⟩ 1 _ isSpan]
  obtain ⟨word, passes⟩ := Pattern.passes_of_reads readsKey
  rw [(liesIn.of_reads readsLead).slice_of_passes passes]
  obtain ⟨inner, readsName | readsString, rfl⟩ := readsKey
  · exact isBare_of_quiet (isQuiet_of_reads (by decide) readsName (passes.of_fields rfl rfl rfl))
  · exact isBare_of_reads_plainString readsString (passes.of_fields rfl rfl rfl)

/-- Whether the key and the value of a member are words or literals. -/
def IsWritten (member : EnumMember) : Prop :=
  IsBare member.key ∧ IsBare member.value

theorem isWritten_readMember? {start stop : Nat} {value after : Option Int} {member : EnumMember}
    (read : readMember? text value start stop = some (member, after)) : IsWritten member := by
  cases isMember_of_readMember? read with
  | number isKey isNumber =>
      obtain ⟨next, reads, passes⟩ := exists_reads_of_isFullMatch isNumber
      exact ⟨isBare_key (.of_matchWithin? isKey), isBare_of_quiet (isQuiet_of_reads (by decide) reads passes)⟩
  | string isKey isString =>
      obtain ⟨next, reads, passes⟩ := exists_reads_of_isFullMatch isString
      exact ⟨isBare_key (.of_matchWithin? isKey), isBare_of_reads_plainString reads passes⟩
  | @bare found value isKey => exact ⟨isBare_key (.of_matchWithin? isKey), isBare_ofInt value⟩

theorem isWritten_readMembers? {value : Option Int} {items : List (Nat × Nat)} {members : List EnumMember}
    (read : readMembers? text masked value items = some members) : ∀ member ∈ members, IsWritten member := by
  induction items generalizing value members with
  | nil =>
      rw [← Option.some.inj read]
      exact fun _ isMember => absurd isMember List.not_mem_nil
  | cons item rest inductionHypothesis =>
      obtain ⟨start, stop⟩ := item
      rw [readMembers?] at read
      split at read
      next => exact inductionHypothesis read
      next =>
        split at read
        next => contradiction
        next first after isFirst =>
          obtain ⟨others, readOthers, rfl⟩ := Option.map_eq_some_iff.mp read
          intro member isMember
          rcases List.mem_cons.mp isMember with rfl | isOther
          · exact isWritten_readMember? isFirst
          · exact inductionHypothesis readOthers member isOther

/-! ## Objects -/

theorem isBare_fields {members : List EnumMember} (some : members ≠ [])
    (written : ∀ member ∈ members, IsWritten member) :
    IsBare (Text.join ", ".toList (members.map fun member => member.key ++ ": ".toList ++ member.value)) := by
  refine Text.join_of_glue (fun first second => IsBare.glue (by decide : ',' ∈ ",:".toList))
    (by simpa using some) fun piece isPiece => ?_
  obtain ⟨member, isMember, rfl⟩ := List.mem_map.mp isPiece
  obtain ⟨isKey, isValue⟩ := written member isMember
  rw [List.append_assoc]
  exact isKey.glue (by decide : ':' ∈ ",:".toList) isValue

/-- What stands between the braces of a frozen object is shown without brackets. -/
theorem exists_inside_frozenObject {members : List EnumMember} (written : ∀ member ∈ members, IsWritten member) :
    ∃ inside shown, frozenObject members = "Object.freeze(\x7b".toList ++ (inside ++ "\x7d)".toList) ∧
      (∀ c ∈ shown, isBracket c = false) ∧ ∀ before, ShownBehind ('\x7b' :: before) inside shown := by
  unfold frozenObject
  dsimp only
  split
  next =>
    exact ⟨[], [], rfl, fun _ member => absurd member List.not_mem_nil, fun before =>
      .plain (fun _ member => absurd member List.not_mem_nil) _⟩
  next isSome =>
    have some : members ≠ [] := by
      rintro rfl
      exact isSome rfl
    obtain ⟨shown, plain, shows⟩ := isBare_fields some written
    have space (before : Text) : ShownBehind before [' '] [' '] :=
      .plain (Text.forall_mem_of_all (by decide)) before
    refine ⟨[' '] ++ (Text.join ", ".toList
      (members.map fun member => member.key ++ ": ".toList ++ member.value) ++ [' ']),
      [' '] ++ (shown ++ [' ']), by simp, ?_, fun before => ?_⟩
    · intro c member
      simp only [List.mem_append, List.mem_singleton] at member
      rcases member with rfl | isField | rfl
      · decide
      · exact plain c isField
      · decide
    · exact (space _).append ((shows _ (takesOperand_mark (by decide) before)).append (space _))

/-- The masked view of a frozen object behind plain code is nested. -/
theorem nested_mask_frozenObject {lead : Text} {members : List EnumMember}
    (quiet : ∀ c ∈ lead, isQuiet c = true) (written : ∀ member ∈ members, IsWritten member) :
    Nested (mask (lead ++ (frozenObject members ++ [';']))) := by
  obtain ⟨inside, shown, isObject, plain, shows⟩ := exists_inside_frozenObject written
  have showsAll : ShownBehind [] (lead ++ ("Object.freeze(\x7b".toList ++ (inside ++ "\x7d);".toList)))
      (lead ++ ("Object.freeze(\x7b".toList ++ (shown ++ "\x7d);".toList))) :=
    (ShownBehind.plain (fun c member => inert_of_isQuiet (quiet c member)) []).append
      ((ShownBehind.plain (Text.forall_mem_of_all (by decide)) _).append
        ((shows _).append (.plain (Text.forall_mem_of_all (by decide)) _)))
  have isText : frozenObject members ++ [';'] =
      "Object.freeze(\x7b".toList ++ (inside ++ "\x7d);".toList) := by
    rw [isObject]
    simp
  have nestedObject : Nested ("Object.freeze(\x7b".toList ++ (shown ++ "\x7d);".toList)) := by
    rw [Nested, openAfter_append, show openAfter [] "Object.freeze(\x7b".toList = some [.curly, .round] by decide,
      Option.bind_some, openAfter_append, openAfter_plain plain]
    rfl
  rw [isText, showsAll.mask_eq]
  exact (Nested.of_plain fun c member => isBracket_of_isQuiet (quiet c member)).append nestedObject

/-! ## Conversion -/

/-- What the head of an enumeration captures opens and closes nothing. -/
theorem capturesOnly_enumHead : enumHead.CapturesOnly fun captured => ∀ c ∈ captured, isQuiet c = true := by
  have indentation : Pattern.CapturesOnly (fun captured => ∀ c ∈ captured, isQuiet c = true)
      (Pattern.capture 1 Pattern.indent) :=
    ⟨trivial, fun _ _ _ reads passes => isQuiet_of_reads (by decide) reads passes⟩
  have export_ : Pattern.CapturesOnly (fun captured => ∀ c ∈ captured, isQuiet c = true)
      (Pattern.capture 2 (Pattern.literal "export" ++ Pattern.gap)) :=
    ⟨⟨Pattern.capturesOnly_literal _, trivial⟩,
      fun _ _ _ reads passes => isQuiet_of_reads (by decide) reads passes⟩
  have label : Pattern.CapturesOnly (fun captured => ∀ c ∈ captured, isQuiet c = true) (Pattern.capture 3 name) :=
    ⟨⟨trivial, trivial⟩, fun _ _ _ reads passes => isQuiet_of_reads (by decide) reads passes⟩
  simpa [enumHead, indentation, label, Pattern.lineStart, Pattern.gap, Pattern.plus, Pattern.blanks,
    Pattern.star, char] using export_

/-- The head of an enumeration holds no bracket but its brace. -/
theorem isPlainBetween_enumHead {found : Match} (isHead : IsReading enumHead masked found) :
    found.start < found.stop ∧ IsPlainBetween masked found.start (found.stop - 1) := by
  obtain ⟨cursor, next, liesIn, ⟨_, readsLead, readsBrace⟩, rfl⟩ := isHead
  have toBrace := Pattern.offset_le_of_reads readsLead
  have isEnd := ((liesIn.of_reads readsLead).getElem?_of_char readsBrace).2
  dsimp only
  rw [isEnd, Nat.add_sub_cancel]
  exact ⟨Nat.lt_succ_of_le toBrace, liesIn.isPlainBetween (by decide) readsLead⟩

/-- The object that an enumeration is turned into is nested, and takes the place of a nested stretch. -/
theorem nested_convertEnum (nested : Nested masked) {found : Match} (isHead : found ∈ enumHead.all masked)
    {edit : Edit}
    (converted : convertEnum text masked (BracketPairs.ofText masked) found = some (.inl edit)) :
    edit.start ≤ edit.stop ∧ Nested (Text.slice masked edit.start edit.stop) ∧
      Nested (mask edit.replacement) := by
  obtain ⟨ordered, plainHead⟩ := isPlainBetween_enumHead (.of_mem_all isHead)
  obtain ⟨closed, members, stop, paired, read, isStop, rfl⟩ := exists_of_convertEnum converted
  obtain ⟨_, behind, _, _, nestedBraces⟩ :=
    exists_nested_of_mem_ofText nested (BracketPairs.mem_of_closerOf? paired)
  obtain ⟨reached, plain⟩ := isPlainBetween_semicolon isStop
  have toBrace : found.start ≤ found.stop - 1 := by omega
  have toCloser : found.start ≤ closed + 1 := by omega
  have nestedHead := nested_slice_append toBrace (by omega) plainHead.nested nestedBraces
  refine ⟨Nat.le_trans toCloser reached, nested_slice_append toCloser reached nestedHead plain.nested, ?_⟩
  have quietIndent := Pattern.captured_of_mem_all capturesOnly_enumHead
    (show enumHead.Captures 1 by simp [enumHead]) isHead
  have quietName := Pattern.captured_of_mem_all capturesOnly_enumHead
    (show enumHead.Captures 3 by simp [enumHead]) isHead
  have quietExport : ∀ c ∈ (if (found.span? 2).isSome then "export ".toList else []), isQuiet c = true := by
    split <;> exact Text.forall_mem_of_all (by decide)
  have quietConst : ∀ c ∈ "const ".toList, isQuiet c = true := Text.forall_mem_of_all (by decide)
  have quietEquals : ∀ c ∈ " = ".toList, isQuiet c = true := Text.forall_mem_of_all (by decide)
  rw [List.append_assoc]
  refine nested_mask_frozenObject (fun c member => ?_) (isWritten_readMembers? read)
  simp only [List.mem_append] at member
  rcases member with (((isIndent | isExport) | isConst) | isName) | isEquals
  · exact quietIndent c isIndent
  · exact quietExport c isExport
  · exact quietConst c isConst
  · exact quietName c isName
  · exact quietEquals c isEquals

end Objects

variable {collect : Text -> List Edit} {edits : List Edit} {text : Text}

/-! ## Edits of a text and of its view -/

/-- An edit of the masked view: the replacement is shown as on its own. -/
def maskedEdit (edit : Edit) : Edit :=
  { edit with replacement := mask edit.replacement }

/-- Whether the masked view of an edited text is the masked view edited in the same places. -/
def ViewFollows (edits : List Edit) (text : Text) : Prop :=
  mask (Edit.applyAll edits text) =
    Edit.splice (mask text) 0 ((Edit.applied 0 (Edit.sorted edits)).map maskedEdit)

instance (edits : List Edit) (text : Text) : Decidable (ViewFollows edits text) :=
  inferInstanceAs (Decidable (_ = _))

theorem follow_map_maskedEdit {cursor : Nat} (follow : Edit.Follow cursor edits) :
    Edit.Follow cursor (edits.map maskedEdit) := by
  induction edits generalizing cursor with
  | nil => trivial
  | cons edit rest inductionHypothesis => exact ⟨follow.1, inductionHypothesis follow.2⟩

/-- A text with a nested view keeps one if level stretches make room for what is shown nested. -/
theorem nested_of_viewFollows (nested : Nested (mask text)) (follows : ViewFollows edits text)
    (areLevel : ∀ edit ∈ Edit.applied 0 (Edit.sorted edits),
      IsLevel (mask text) edit.start edit.stop ∧ Nested (mask edit.replacement)) :
    Nested (mask (Edit.applyAll edits text)) := by
  rw [follows]
  refine openAfter_splice nested rfl (follow_map_maskedEdit (Edit.follow_applied 0 _)) fun edit member => ?_
  obtain ⟨made, isMade, rfl⟩ := List.mem_map.mp member
  exact areLevel made isMade

/-! ## Rounds -/

/-- Whether the masked view follows a round of a pass, and the same brackets are open at both ends of every
open-ended stretch which the round deletes. -/
def KeepsNesting (collect : Text -> List Edit) (text : Text) : Prop :=
  ViewFollows (collect (mask text)) text ∧
    ∀ edit ∈ Edit.applied 0 (Edit.sorted (collect (mask text))),
      isOpenEnded (Text.slice (mask text) edit.start edit.stop) = true →
        IsLevel (mask text) edit.start edit.stop

instance (collect : Text -> List Edit) (text : Text) : Decidable (KeepsNesting collect text) :=
  inferInstanceAs (Decidable (_ ∧ ∀ edit ∈ _, _ → _))

theorem nested_editOnce (isPass : collect ∈ passes) (nested : Nested (mask text))
    (keeps : KeepsNesting collect text) : Nested (mask (editOnce collect text)) := by
  obtain ⟨follows, openEnded⟩ := keeps
  refine nested_of_viewFollows nested follows fun edit isMade => ?_
  have member : edit ∈ collect (mask text) := Edit.mem_of_mem_sorted.mp (Edit.applied_subset 0 _ isMade)
  obtain ⟨noReplacement, ordered⟩ := isDeletion_of_mem_passes isPass edit member
  refine ⟨?_, by rw [noReplacement]; exact .nil⟩
  cases isOpen : isOpenEnded (Text.slice (mask text) edit.start edit.stop) with
  | true => exact openEnded edit isMade isOpen
  | false => exact (nests_of_mem_passes isPass nested edit member isOpen).isLevel ordered

/-- The texts that the rounds of a pass begin with. -/
def roundTexts (collect : Text -> List Edit) : (rounds : Nat) -> Text -> List Text
  | 0, _ => []
  | rounds + 1, text =>
      text :: if editOnce collect text = text then [] else roundTexts collect rounds (editOnce collect text)

theorem nested_editWithin (isPass : collect ∈ passes) {rounds : Nat} (nested : Nested (mask text))
    (keeps : ∀ current ∈ roundTexts collect rounds text, KeepsNesting collect current) :
    Nested (mask (editWithin collect rounds text)) := by
  induction rounds generalizing text with
  | zero => exact nested
  | succ rounds inductionHypothesis =>
      rw [roundTexts, List.forall_mem_cons] at keeps
      obtain ⟨keepsHere, keepsLater⟩ := keeps
      rw [editWithin_succ]
      by_cases settled : editOnce collect text = text
      · rw [if_pos settled]
        exact nested
      · rw [if_neg settled] at keepsLater ⊢
        exact inductionHypothesis (nested_editOnce isPass nested keepsHere) keepsLater

/-- The rounds of some passes in order, each pass with the text that the round begins with. -/
def roundsOf : (collects : List (Text -> List Edit)) -> Text -> List ((Text -> List Edit) × Text)
  | [], _ => []
  | collect :: rest, text =>
      (roundTexts collect (text.length + 1) text).map (fun current => (collect, current)) ++
        roundsOf rest (editUntilSettled collect text)

theorem nested_editAll {collects : List (Text -> List Edit)} (arePasses : collects ⊆ passes)
    (nested : Nested (mask text)) (keeps : ∀ round ∈ roundsOf collects text, KeepsNesting round.1 round.2) :
    Nested (mask (editAll collects text)) := by
  induction collects generalizing text with
  | nil => exact nested
  | cons collect rest inductionHypothesis =>
      rw [roundsOf, List.forall_mem_append] at keeps
      have step : editAll (collect :: rest) text = editAll rest (editUntilSettled collect text) := rfl
      rw [step]
      refine inductionHypothesis (List.subset_of_cons_subset arePasses) ?_ keeps.2
      exact nested_editWithin (arePasses List.mem_cons_self) nested fun current member =>
        keeps.1 (collect, current) (List.mem_map_of_mem member)

/-! ## Normalizing -/

/-- The edits that turn the enumerations of a text into objects. -/
def enumEdits (text : Text) : List Edit :=
  let outcomes := (enumHead.all (mask text)).filterMap
    (convertEnum text (mask text) (BracketPairs.ofText (mask text)))
  outcomes.filterMap fun outcome => outcome.getLeft?

theorem nested_convertEnums (nested : Nested (mask text)) (follows : ViewFollows (enumEdits text) text) :
    Nested (mask (convertEnums text).1) := by
  refine nested_of_viewFollows nested follows fun edit isMade => ?_
  have member : edit ∈ enumEdits text := Edit.mem_of_mem_sorted.mp (Edit.applied_subset 0 _ isMade)
  obtain ⟨outcome, isOutcome, isEdit⟩ := List.mem_filterMap.mp member
  obtain ⟨found, isHead, converted⟩ := List.mem_filterMap.mp isOutcome
  obtain rfl := Sum.getLeft?_eq_some_iff.mp isEdit
  obtain ⟨ordered, nestedStretch, nestedObject⟩ := nested_convertEnum nested isHead converted
  exact ⟨nestedStretch.isLevel ordered, nestedObject⟩

/-- Normalizing leaves every bracket of a nested text with its partner if the masked view follows the edits and
the same brackets are open at both ends of every open-ended stretch that is deleted. -/
theorem allPaired_normalize (nested : Nested (mask text)) (enumerations : ViewFollows (enumEdits text) text)
    (rounds : ∀ round ∈ roundsOf passes (convertEnums text).1, KeepsNesting round.1 round.2) :
    Nested (mask (normalize text).1) ∧ BracketPairs.AllPaired (mask (normalize text).1) := by
  have erased : (normalize text).1 = editAll passes (convertEnums text).1 := by rw [normalize_eq]
  have nestedResult := nested_editAll (List.Subset.refl passes) (nested_convertEnums nested enumerations) rounds
  rw [erased]
  exact ⟨nestedResult, BracketPairs.allPaired_of_nested nestedResult⟩

/-- An enumeration with a quoted key, an annotation with brackets and a type argument. -/
def quotedEnum : Text :=
  "enum E \x7b A, \x27b\x27 = \"x\" \x7d\nlet a: T[] = f<U>(x);\n".toList

theorem allPaired_normalize_quotedEnum :
    (normalize quotedEnum).1 =
        "const E = Object.freeze(\x7b A: 0, \x27b\x27: \"x\" \x7d);\nlet a = f(x);\n".toList ∧
      Nested (mask (normalize quotedEnum).1) ∧ BracketPairs.AllPaired (mask (normalize quotedEnum).1) :=
  ⟨by decide +kernel, allPaired_normalize (by decide +kernel) (by decide +kernel) (by decide +kernel)⟩

/-- A comparison in front of a body that holds an arrow. -/
def comparedArrow : Text :=
  "if (i<n) \x7b list.map(x => x) \x7d\n".toList

/-- What stands between the angle bracket of a comparison and that of an arrow is taken for type arguments: the
parenthesis that closes the condition is deleted with the ones that open the body and a call in it. -/
theorem not_allPaired_normalize_comparedArrow :
    BracketPairs.AllPaired (mask comparedArrow) ∧ normalize comparedArrow = ("if (i x) \x7d\n".toList, []) ∧
      ¬BracketPairs.AllPaired (mask (normalize comparedArrow).1) := by
  have normalized : normalize comparedArrow = ("if (i x) \x7d\n".toList, []) := by decide +kernel
  refine ⟨BracketPairs.allPaired_of_nested (by decide +kernel), normalized, fun paired => ?_⟩
  rw [normalized] at paired
  obtain ⟨opened, member⟩ := (paired .curly 9).2 (by decide +kernel)
  have noPairs : BracketPairs.ofKind .curly [] 0 (mask "if (i x) \x7d\n".toList) [] = [] := by decide +kernel
  rw [noPairs] at member
  contradiction

end SceneBundler.Dialect
