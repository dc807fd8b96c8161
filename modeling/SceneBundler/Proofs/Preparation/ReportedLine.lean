import SceneBundler.Proofs.Balance.OrphanLine
import SceneBundler.Proofs.Imports.Aliases
import SceneBundler.Proofs.Imports.Removed
import SceneBundler.Proofs.Text.Carried

/-!
Contract: the lines on which a preparation reports tags and hooks.

Owns:
- the sets of edits by which a resolution gets from its source to what it reports on;
- that the line of a report on a tag or hook is that of its place there, so that it is the line in the
  source but for the line breaks that were taken away and put in in front of it;
- that the line of a report on an unclosed tag is the line in the source but for the lines that were
  removed in front of it.

Does not own: which tags and hooks are reported.
-/

namespace SceneBundler

/-! ## Lines -/

/-- Whether a line of a text, counted from one, holds a word. -/
def HoldsOnLine (text word : Text) (line : Nat) : Prop :=
  ∃ numbered ∈ (Text.split '\n' text).zipIdx 1, numbered.2 = line ∧ word <:+: numbered.1

instance (text word : Text) (line : Nat) : Decidable (HoldsOnLine text word line) :=
  inferInstanceAs <| Decidable <|
    ∃ numbered ∈ (Text.split '\n' text).zipIdx 1, numbered.2 = line ∧ word <:+: numbered.1

theorem holdsOnLine_iff {text word : Text} {line : Nat} :
    HoldsOnLine text word line ↔
      ∃ before content after, Text.split '\n' text = before ++ content :: after ∧ line = before.length + 1 ∧
        word <:+: content := by
  constructor
  · rintro ⟨⟨content, number⟩, member, rfl, isIn⟩
    obtain ⟨front, back, split⟩ := List.append_of_mem member
    obtain ⟨before, _, isSplit, _, isBack⟩ := List.zipIdx_eq_append_iff.mp split
    obtain ⟨_, after, rfl, isHere, _⟩ := List.zipIdx_eq_cons_iff.mp isBack.symm
    obtain ⟨rfl, rfl⟩ := Prod.mk.inj isHere
    exact ⟨before, content, after, isSplit, Nat.add_comm 1 before.length, isIn⟩
  · rintro ⟨before, content, after, split, rfl, isIn⟩
    refine ⟨(content, before.length + 1), ?_, rfl, isIn⟩
    rw [split, List.zipIdx_append, List.zipIdx_cons, Nat.add_comm 1]
    exact List.mem_append_right _ List.mem_cons_self

theorem split_word_append {word back first : Text} {others : List Text} (noBreak : '\n' ∉ word)
    (split : Text.split '\n' back = first :: others) :
    Text.split '\n' (word ++ back) = (word ++ first) :: others := by
  induction word with
  | nil => exact split
  | cons c word inductionHypothesis =>
      rw [List.mem_cons, not_or] at noBreak
      exact Text.split_cons_of_ne (Ne.symm noBreak.1) (inductionHypothesis noBreak.2)

/-- A word without a line break is on the line of the offset at which it stands. -/
theorem holdsOnLine_lineNumberAt {text word front back : Text} (noBreak : '\n' ∉ word)
    (split : text = front ++ (word ++ back)) : HoldsOnLine text word (Source.lineNumberAt text front.length) := by
  subst split
  rw [Source.lineNumberAt, List.take_left, holdsOnLine_iff]
  induction front with
  | nil =>
      obtain ⟨first, others, split⟩ := Text.exists_split_eq '\n' back
      exact ⟨[], word ++ first, others, @split_word_append word back first others noBreak split, rfl,
        (List.prefix_append word first).isInfix⟩
  | cons c front inductionHypothesis =>
      obtain ⟨before, content, after, split, isLine, isIn⟩ := inductionHypothesis
      by_cases isBreak : c = '\n'
      · subst isBreak
        refine ⟨[] :: before, content, after, ?_, ?_, isIn⟩
        · rw [List.cons_append, Text.split_cons_self, split, List.cons_append]
        · rw [List.count_cons_self, isLine, List.length_cons]
      · rw [List.count_cons_of_ne isBreak]
        cases before with
        | nil =>
            refine ⟨[], c :: content, after, ?_, isLine, isIn.trans (List.suffix_cons c content).isInfix⟩
            rw [List.cons_append, Text.split_cons_of_ne isBreak split]
            rfl
        | cons first before =>
            refine ⟨(c :: first) :: before, content, after, ?_, isLine, isIn⟩
            rw [List.cons_append, Text.split_cons_of_ne isBreak split]
            rfl

namespace Edit

/-- Whether a number is that of the line on which a word stands in what sets of edits make of a text: the
word's line in the text, where the edits leave the word as it is, but for the line breaks that they take away
and put in in front of it; and so for its first character, if they put in none like it. -/
structure KeepsLine (steps : List (List Edit)) (text word : Text) (place line : Nat) : Prop where
  isLine : line = Source.lineNumberAt (applyEach steps text) place
  stands : ∃ front back, applyEach steps text = front ++ (word ++ back) ∧ front.length = place
  whole : ∀ offset taken given, CarriesThrough steps text place offset word.length taken given →
    HoldsOnLine text word (Source.lineNumberAt text offset) ∧
      line + taken = Source.lineNumberAt text offset + given
  first : ∀ c, word.head? = some c → (∀ edits ∈ steps, ∀ edit ∈ edits, c ∉ edit.replacement) →
    ∃ offset taken given, CarriesThrough steps text place offset 1 taken given ∧ text[offset]? = some c ∧
      line + taken = Source.lineNumberAt text offset + given

theorem keepsLine {steps : List (List Edit)} {text edited word front back : Text}
    (ordered : ∀ edits ∈ steps, ∀ edit ∈ edits, edit.start ≤ edit.stop)
    (isEdited : applyEach steps text = edited) (nonempty : word ≠ []) (noBreak : '\n' ∉ word)
    (split : edited = front ++ (word ++ back)) :
    KeepsLine steps text word front.length (Source.lineNumberAt edited front.length) := by
  subst isEdited
  refine ⟨rfl, ⟨front, back, split, rfl⟩, ?_, ?_⟩
  · intro offset taken given carries
    obtain ⟨lead, trail, same, length, counted⟩ :=
      carries.exists_applyEach ordered (List.length_pos_iff.mpr nonempty)
    refine ⟨?_, counted⟩
    have inside := carries.inside
    have long := @Text.length_slice text offset (offset + word.length) inside
    have isWord : Text.slice text offset (offset + word.length) = word := by
      rw [split] at same
      obtain ⟨_, behind⟩ := List.append_inj same length.symm
      exact (List.append_inj behind (by rw [long]; omega)).1.symm
    have cut : text = text.take offset ++ (word ++ text.drop (offset + word.length)) := by
      rw [← isWord, long, Nat.add_sub_cancel_left, ← Text.drop_eq_slice_append text (Nat.le_add_right _ _),
        List.take_append_drop]
    have isOffset : (text.take offset).length = offset := List.length_take_of_le (by omega)
    have holds := holdsOnLine_lineNumberAt noBreak cut
    rwa [isOffset] at holds
  · intro c isFirst notGiven
    have isThere : (applyEach steps text)[front.length]? = some c := by
      rw [split, List.getElem?_append_right (Nat.le_refl _), Nat.sub_self, ← List.head?_eq_getElem?,
        List.head?_append_of_ne_nil _ nonempty, isFirst]
    obtain ⟨offset, taken, given, carries, stands⟩ := exists_carriesThrough ordered isThere notGiven
    obtain ⟨_, _, _, _, counted⟩ := carries.exists_applyEach ordered Nat.one_pos
    exact ⟨offset, taken, given, carries, stands, counted⟩

end Edit

/-! ## Words of a view -/

namespace Source

theorem eq_of_keepsOrBlanks {source masked : Text} (faithful : List.Forall₂ KeepsOrBlanks source masked)
    (noSpace : ' ' ∉ masked) : source = masked := by
  induction faithful with
  | nil => rfl
  | cons kept _ inductionHypothesis =>
      rw [List.mem_cons, not_or] at noSpace
      rw [inductionHypothesis noSpace.2, kept.resolve_right fun both => noSpace.1 both.1.symm]

/-- A word without a space that is shown stands in the text. -/
theorem exists_of_mask {text passed word rest : Text} (split : mask text = passed ++ (word ++ rest))
    (noSpace : ' ' ∉ word) : ∃ front back, text = front ++ (word ++ back) ∧ front.length = passed.length := by
  have faithful := forall₂_mask text
  rw [split] at faithful
  have inFront := (List.forall₂_take_append _ _ _ faithful).length_eq
  have behind := List.forall₂_drop_append _ _ _ faithful
  have isWord := eq_of_keepsOrBlanks (List.forall₂_take_append _ _ _ behind) noSpace
  refine ⟨text.take passed.length, (text.drop passed.length).drop word.length, ?_, inFront⟩
  conv_lhs => rw [← List.take_append_drop passed.length text,
    ← List.take_append_drop word.length (text.drop passed.length), isWord]

namespace Tag

theorem ne_of_continues {c : Char} (continues : TagName.continues c = true) (mark : Char)
    (isMark : TagName.continues mark = false) : c ≠ mark := by
  intro same
  rw [same, isMark] at continues
  contradiction

/-- A tag that does not close stands in the text with its name. -/
theorem exists_of_mem_scan {text : Text} {tag : Tag} (member : tag ∈ scan (mask text))
    (opens : tag.kind ≠ .closing) :
    ∃ front back, text = front ++ ('<' :: tag.name ++ back) ∧ front.length = tag.start ∧
      '\n' ∉ '<' :: tag.name := by
  obtain ⟨passed, lead, inner, rest, split, shape⟩ := exists_hasShape_of_mem_scan member
  obtain ⟨rfl, _⟩ := shape.slash.resolve_right fun closes => opens closes.2
  have absent (mark : Char) (isMark : TagName.continues mark = false) : mark ∉ tag.name :=
    fun isIn => ne_of_continues (shape.named mark isIn) mark isMark rfl
  have noSpace : ' ' ∉ '<' :: tag.name := by
    rw [List.mem_cons, not_or]
    exact ⟨by decide, absent ' ' (by decide)⟩
  have noBreak : '\n' ∉ '<' :: tag.name := by
    rw [List.mem_cons, not_or]
    exact ⟨by decide, absent '\n' (by decide)⟩
  obtain ⟨front, back, stands, length⟩ := @exists_of_mask text passed ('<' :: tag.name) _ split noSpace
  exact ⟨front, back, stands, by rw [length, shape.start], noBreak⟩

end Tag

end Source

/-! ## The steps of a resolution -/

namespace Imports

open Source (mask Tag)

variable {catalog : Catalog} {text : Text}

/-- The sets of edits that take a source to the one whose elements are looked at. -/
def retagging (catalog : Catalog) (text : Text) : List (List Edit) :=
  [statementRemovals text catalog,
    [Edit.deletion 0 ((Edit.applyAll (statementRemovals text catalog) text).takeWhile (· == '\n')).length],
    renamingEdits (mask (unimported catalog text)) (renamings catalog text),
    intrinsicEdits catalog (ownNames catalog text) (mask (recovered catalog text))]

/-- The sets of edits that take a source to the one whose calls are looked at. -/
def clearing (catalog : Catalog) (text : Text) : List (List Edit) :=
  retagging catalog text ++ [elementRemovals catalog (ownNames catalog text) (mask (retagged catalog text))]

theorem withoutLeadingBreaks_eq_applyAll (text : Text) :
    withoutLeadingBreaks text = Edit.applyAll [Edit.deletion 0 (text.takeWhile (· == '\n')).length] text := by
  calc text.dropWhile (· == '\n')
      = (text.takeWhile (· == '\n') ++ text.dropWhile (· == '\n')).drop (text.takeWhile (· == '\n')).length :=
        List.drop_left.symm
    _ = text.drop (text.takeWhile (· == '\n')).length := by rw [List.takeWhile_append_dropWhile]

theorem renamingEdits_nil (masked : Text) : renamingEdits masked [] = [] := by
  refine List.eq_nil_iff_forall_not_mem.mpr fun edit member => ?_
  obtain ⟨entry, isEntry, _⟩ := stands_of_mem_renamingEdits member
  exact List.not_mem_nil isEntry

theorem recovered_eq_applyAll (catalog : Catalog) (text : Text) :
    recovered catalog text =
      Edit.applyAll (renamingEdits (mask (unimported catalog text)) (renamings catalog text))
        (unimported catalog text) := by
  cases none : renamings catalog text with
  | nil =>
      rw [renamingEdits_nil]
      have isEmpty : (renamingsOf catalog (ownNames catalog text) (removeStatements text catalog).2).isEmpty = true :=
        List.isEmpty_iff.mpr none
      exact if_pos isEmpty
  | cons entry others =>
      rw [← none]
      have isRenaming : entry ∈ renamings catalog text := none ▸ List.mem_cons_self
      exact recovered_eq isRenaming

theorem retagged_eq_applyAll (catalog : Catalog) (text : Text) :
    retagged catalog text =
      Edit.applyAll (intrinsicEdits catalog (ownNames catalog text) (mask (recovered catalog text)))
        (recovered catalog text) := by
  rw [retagged, renameIntrinsicTags]
  split
  next isEmpty =>
    have none : catalog.intrinsicAliases = [] := List.isEmpty_iff.mp isEmpty
    have noEdits : intrinsicEdits catalog (ownNames catalog text) (mask (recovered catalog text)) = [] := by
      refine List.filterMap_eq_nil_iff.mpr fun tag _ => ?_
      rw [none]
      rfl
    rw [noEdits]
    rfl
  next => rfl

theorem applyEach_retagging (catalog : Catalog) (text : Text) :
    Edit.applyEach (retagging catalog text) text = retagged catalog text := by
  have isUnimported : unimported catalog text =
      withoutLeadingBreaks (Edit.applyAll (statementRemovals text catalog) text) := removeStatements_fst text catalog
  rw [withoutLeadingBreaks_eq_applyAll] at isUnimported
  rw [retagging, Edit.applyEach_cons, Edit.applyEach_cons, ← isUnimported, Edit.applyEach_cons,
    ← recovered_eq_applyAll, Edit.applyEach_cons, ← retagged_eq_applyAll, Edit.applyEach_nil]

theorem applyEach_clearing (catalog : Catalog) (text : Text) :
    Edit.applyEach (clearing catalog text) text = remains catalog text := by
  rw [clearing, Edit.applyEach_append, applyEach_retagging, Edit.applyEach_cons, Edit.applyEach_nil, remains_eq,
    removeHallucinated_fst]

theorem ordered_retagging :
    ∀ edits ∈ retagging catalog text, ∀ edit ∈ edits, edit.start ≤ edit.stop := by
  simp only [retagging, List.forall_mem_cons]
  refine ⟨?_, ?_, ?_, ?_, nofun⟩
  · intro edit member
    obtain ⟨_, _, _, _, isRemoval⟩ := exists_isRemovalOf member
    exact Nat.le_of_lt isRemoval.longer
  · exact ⟨Nat.zero_le _, nofun⟩
  · intro edit member
    obtain ⟨_, _, _, _, _, start, stop, _⟩ := stands_of_mem_renamingEdits member
    omega
  · intro edit member
    obtain ⟨tag, _, isEdit⟩ := List.mem_filterMap.mp member
    obtain ⟨intrinsic, _, isEdit⟩ := Option.bind_eq_some_iff.mp isEdit
    split at isEdit
    next => exact nomatch isEdit
    next =>
      obtain rfl := Option.some.inj isEdit
      exact Nat.le_add_right _ _

theorem ordered_clearing : ∀ edits ∈ clearing catalog text, ∀ edit ∈ edits, edit.start ≤ edit.stop := by
  rw [clearing, List.forall_mem_append]
  refine ⟨ordered_retagging, List.forall_mem_singleton.mpr fun edit member => ?_⟩
  exact (keepsNames_elementRemovals edit member).ordered

/-- The report on an element of an unknown component. -/
def elementReport (catalog : Catalog) (name : Text) (line : Nat) : Diagnostic :=
  .warning .resolve "hallucinated_component"
    ('<' :: name ++ "> is not exported by ".toList ++ catalog.framework.tag ++
      "; the element was removed.".toList) (some line)

/-- The report on an unknown hook. -/
def hookReport (catalog : Catalog) (hook : Text) (line : Nat) : Diagnostic :=
  .warning .resolve "unknown_hook"
    ("Hook ".toList ++ Diagnostic.named hook ++ " is not provided by ".toList ++ catalog.framework.tag ++ ['.'])
    (some line)

/-- A report on an element is on the line of its tag. -/
theorem exists_keepsLine_of_mem_removeHallucinated {finding : Diagnostic}
    (member : finding ∈ (removeHallucinated catalog (ownNames catalog text) (retagged catalog text)).2) :
    ∃ name place line, finding = elementReport catalog name line ∧
      Edit.KeepsLine (retagging catalog text) text ('<' :: name) place line := by
  obtain ⟨⟨tag, position⟩, isFound, rfl⟩ := List.mem_map.mp member
  obtain ⟨isIndexed, isUnknown⟩ := List.mem_filter.mp isFound
  have opens : tag.kind ≠ .closing := by
    intro closes
    simp [isHallucinated, closes] at isUnknown
  obtain ⟨front, back, split, isStart, noBreak⟩ :=
    Tag.exists_of_mem_scan (List.fst_mem_of_mem_zipIdx isIndexed) opens
  have sameLine := (Source.mask_faithful (retagged catalog text)).2.2.2 tag.start
  have keeps := Edit.keepsLine ordered_retagging (applyEach_retagging catalog text) (List.cons_ne_nil '<' tag.name)
    noBreak split
  rw [isStart, ← sameLine] at keeps
  exact ⟨tag.name, tag.start, _, rfl, keeps⟩

/-- The name that is called stands in front of the parenthesis. -/
theorem exists_of_mem_call {masked : Text} {found : Match} (member : found ∈ call.all masked) :
    ∃ passed rest, masked = passed ++ (found.captured masked 1 ++ rest) ∧ passed.length = found.start ∧
      found.captured masked 1 ≠ [] ∧ ∀ c ∈ found.captured masked 1, Character.continuesName c = true := by
  obtain ⟨passed, ahead, rfl, foundHere⟩ := Pattern.find_of_mem_all member
  obtain ⟨next, reads, isMatch⟩ := Pattern.reads_of_find foundHere
  obtain ⟨behindBlanks, ⟨behindName, ⟨_, ⟨_, rfl⟩, readsName⟩, readsBlanks⟩, readsParenthesis⟩ := reads
  have kept : next.captures.lookup 1 = some ⟨passed.length, behindName.offset⟩ := by
    rw [Pattern.lookup_of_reads (by decide) readsParenthesis, Pattern.lookup_of_reads (by decide) readsBlanks,
      Pattern.lookup_of_reads_capture readsName]
    rfl
  obtain ⟨inner, readsName, rfl⟩ := readsName
  obtain ⟨first, others, starts, continues, passes⟩ := Pattern.exists_word_of_reads_name readsName
  have reached : inner.offset = passed.length + (first :: others).length := passes.offset_eq
  have split : ahead = (first :: others) ++ inner.ahead := passes.ahead_eq
  have isName : Text.slice (passed ++ ahead) passed.length (passed.length + (first :: others).length) =
      first :: others := by rw [split, Text.slice_behind]
  have isCaptured : found.captured (passed ++ ahead) 1 = first :: others := by
    simp only [isMatch, Match.captured, Match.captured?, Match.span?, kept, Option.map_some, Option.getD_some,
      Span.of, reached, isName]
  rw [isCaptured]
  exact ⟨passed, inner.ahead, by rw [split], by rw [isMatch]; rfl, List.cons_ne_nil first others,
    List.forall_mem_cons.mpr ⟨Pattern.continuesName_of_startsName starts, continues⟩⟩

/-- A report on a hook is on the line of the call. -/
theorem exists_keepsLine_of_mem_unknownHookReports {declared reported : List Text} {calls : List Match}
    (areCalls : ∀ found ∈ calls, found ∈ call.all (mask (remains catalog text))) {finding : Diagnostic}
    (member : finding ∈ unknownHookReports catalog declared (remains catalog text) (mask (remains catalog text))
      reported calls) :
    ∃ hook place line, finding = hookReport catalog hook line ∧
      Edit.KeepsLine (clearing catalog text) text hook place line := by
  induction calls generalizing reported with
  | nil => exact absurd member List.not_mem_nil
  | cons found rest inductionHypothesis =>
      obtain ⟨isCall, areRest⟩ := List.forall_mem_cons.mp areCalls
      rw [unknownHookReports] at member
      split at member
      next => exact inductionHypothesis areRest member
      next =>
        rcases List.mem_cons.mp member with isHere | isLater
        · obtain ⟨passed, behind, shown, isStart, nonempty, continues⟩ := exists_of_mem_call isCall
          have absent (mark : Char) (isMark : Character.continuesName mark = false) :
              mark ∉ found.captured (mask (remains catalog text)) 1 :=
            fun isIn => Source.ne_of_continuesName (continues mark isIn) mark isMark rfl
          obtain ⟨front, back, split, length⟩ := Source.exists_of_mask shown (absent ' ' (by decide))
          have keeps := Edit.keepsLine ordered_clearing (applyEach_clearing catalog text) nonempty
            (absent '\n' (by decide)) split
          rw [length, isStart] at keeps
          exact ⟨_, found.start, _, isHere, keeps⟩
        · exact inductionHypothesis areRest isLater

theorem diagnostics_resolve (catalog : Catalog) (text : Text) :
    (resolve catalog text).diagnostics =
      (removeStatements text catalog).2.flatMap (statementReports catalog) ++
        (removeHallucinated catalog (ownNames catalog text) (retagged catalog text)).2 ++
        unknownHookReports catalog (ownNames catalog text) (remains catalog text) (mask (remains catalog text)) []
          (call.all (mask (remains catalog text))) ++
        emptyManifestReport catalog (resolve catalog text).manifest :=
  rfl

theorem code_of_mem_statementReports {statement : Statement} {report : Diagnostic}
    (member : report ∈ statementReports catalog statement) :
    report.code ∈ ["legacy_module_name".toList, "side_effect_import_dropped".toList,
      "unknown_import_dropped".toList] := by
  unfold statementReports at member
  dsimp only at member
  rcases List.mem_append.mp member with inFront | isBinding
  · rcases List.mem_append.mp inFront with isRenamed | isDropped
    · split at isRenamed
      next => exact absurd isRenamed List.not_mem_nil
      next =>
        rw [List.mem_singleton.mp isRenamed]
        exact List.mem_cons_self
    · split at isDropped
      next =>
        rw [List.mem_singleton.mp isDropped]
        exact List.mem_cons_of_mem _ List.mem_cons_self
      next => exact absurd isDropped List.not_mem_nil
  · obtain ⟨binding, _, isReport⟩ := List.mem_filterMap.mp isBinding
    unfold bindingReport? at isReport
    split at isReport
    next => exact nomatch isReport
    next =>
      rw [← Option.some.inj isReport]
      exact List.mem_cons_of_mem _ (List.mem_cons_of_mem _ List.mem_cons_self)

/-- The reports of a resolution on elements and on hooks are told by their codes. -/
theorem mem_of_code {finding : Diagnostic} (member : finding ∈ (resolve catalog text).diagnostics) :
    (finding.code = "hallucinated_component".toList →
      finding ∈ (removeHallucinated catalog (ownNames catalog text) (retagged catalog text)).2) ∧
    (finding.code = "unknown_hook".toList →
      finding ∈ unknownHookReports catalog (ownNames catalog text) (remains catalog text)
        (mask (remains catalog text)) [] (call.all (mask (remains catalog text)))) := by
  rw [diagnostics_resolve, List.mem_append, List.mem_append, List.mem_append] at member
  rcases member with ((isStatement | isElement) | isHook) | isEmpty
  · obtain ⟨statement, _, isReport⟩ := List.mem_flatMap.mp isStatement
    have others := code_of_mem_statementReports isReport
    constructor
    · intro isElement
      rw [isElement] at others
      exact absurd others (by decide)
    · intro isHook
      rw [isHook] at others
      exact absurd others (by decide)
  · obtain ⟨name, _, line, isReport, _⟩ := exists_keepsLine_of_mem_removeHallucinated isElement
    have code : finding.code = "hallucinated_component".toList := by
      rw [isReport]
      rfl
    rw [code]
    exact ⟨fun _ => isElement, fun isHook => absurd isHook (by decide)⟩
  · have code := code_of_mem_unknownHookReports isHook
    rw [code]
    exact ⟨fun isElement => absurd isElement (by decide), fun _ => isHook⟩
  · have code := code_of_mem_emptyManifestReport isEmpty
    rw [code]
    exact ⟨fun isElement => absurd isElement (by decide), fun isHook => absurd isHook (by decide)⟩

end Imports

/-! ## What a repair reports on -/

namespace Balance

open Source (mask Tag)

variable {text : Text}

/-- How many lines a repair reports as removed in front of a line. -/
def orphansAbove (text : Text) (line : Nat) : Nat :=
  (removeOrphanLines text).2.countP fun report => report.line.any (· < (line : Int))

theorem orphansAbove_succ (text : Text) (number : Nat) :
    orphansAbove text (number + 1) = (orphanLines text).countP fun line => line.number < number := by
  have counted : orphansAbove text (number + 1) =
      ((removeOrphanLines text).2.map Diagnostic.line).countP fun place =>
        place.any (· < ((number + 1 : Nat) : Int)) := by
    rw [List.countP_map]
    rfl
  rw [counted, map_line_removeOrphanLines, List.countP_map]
  refine List.countP_congr fun line _ => ?_
  simp only [Function.comp_apply, Option.any_some, decide_eq_true_eq, Int.ofNat_eq_natCast]
  omega

/-- Among lines in order, those with smaller numbers than one stand in front of it. -/
theorem countP_number_lt {lines before after : List Line} {line : Line} (split : lines = before ++ line :: after)
    (ordered : lines.Pairwise fun first second => first.number < second.number) :
    lines.countP (fun other => other.number < line.number) = before.length := by
  subst split
  obtain ⟨_, orderedBehind, inOrder⟩ := List.pairwise_append.mp ordered
  obtain ⟨isBehind, _⟩ := List.pairwise_cons.mp orderedBehind
  have inFront : before.countP (fun other => other.number < line.number) = before.length :=
    List.countP_eq_length.mpr fun other member => decide_eq_true (inOrder other member line List.mem_cons_self)
  have notBehind : (line :: after).countP (fun other => other.number < line.number) = 0 := by
    refine List.countP_eq_zero.mpr (List.forall_mem_cons.mpr ⟨?_, fun other member => ?_⟩)
    · simp
    · have later := isBehind other member
      rw [decide_eq_true_eq]
      omega
  rw [List.countP_append, inFront, notBehind]
  rfl

theorem pairwise_number_ofSource (text : Text) :
    (Line.ofSource text).Pairwise fun first second => first.number < second.number := by
  have ordered := @List.pairwise_lt_range (Text.split '\n' text).length
  rwa [← map_number_ofSource, List.pairwise_map] at ordered

/-- The lines of what a repair keeps are those of the source without the removed ones. -/
theorem split_removeOrphanLines (kept : keptLines text ≠ []) :
    Text.split '\n' (removeOrphanLines text).1 = (keptLines text).map Line.text := by
  have noBreak : ∀ content ∈ (keptLines text).map Line.text, '\n' ∉ content := by
    intro content member
    obtain ⟨line, isKept, rfl⟩ := List.mem_map.mp member
    have isSource := List.mem_map_of_mem (f := Line.text) ((parts_ofSource text).sublist.subset isKept)
    rw [map_text_ofSource] at isSource
    exact Text.not_mem_of_mem_split isSource
  rw [removeOrphanLines_eq]
  cases isCons : (keptLines text).map Line.text with
  | nil => exact absurd (List.map_eq_nil_iff.mp isCons) kept
  | cons first others =>
      rw [isCons] at noBreak
      obtain ⟨noBreakHere, noBreakLater⟩ := List.forall_mem_cons.mp noBreak
      rw [Text.split_join_cons noBreakLater, Text.split_of_not_mem noBreakHere]
      rfl

theorem exists_holdsOnLine_of_removeOrphanLines {word : Text} (nonempty : word ≠ []) {line : Nat}
    (holds : HoldsOnLine (removeOrphanLines text).1 word line) :
    ∃ removed, HoldsOnLine text word (line + removed) ∧ removed = orphansAbove text (line + removed) := by
  obtain ⟨before, content, after, split, rfl, isIn⟩ := holdsOnLine_iff.mp holds
  have kept : keptLines text ≠ [] := by
    intro none
    have isNil : (removeOrphanLines text).1 = [] := by
      rw [removeOrphanLines_eq, none]
      rfl
    rw [isNil] at split
    have isContent : content ∈ ([[]] : List Text) := by
      change content ∈ Text.split '\n' []
      rw [split]
      exact List.mem_append_right before List.mem_cons_self
    rw [List.mem_singleton.mp isContent, List.infix_nil] at isIn
    exact nonempty isIn
  rw [split_removeOrphanLines kept] at split
  obtain ⟨keptBefore, keptBehind, isKept, rfl, keptHere⟩ := List.map_eq_append_iff.mp split
  obtain ⟨stays, keptAfter, rfl, rfl, rfl⟩ := List.map_eq_cons_iff.mp keptHere
  have parts := parts_ofSource text
  have isLine : stays ∈ Line.ofSource text := parts.sublist.subset (by rw [isKept]; simp)
  obtain ⟨front, back, isSource⟩ := List.append_of_mem isLine
  have ordered := pairwise_number_ofSource text
  have countAll := countP_number_lt isSource ordered
  have countKept := countP_number_lt isKept (ordered.sublist parts.sublist)
  have together := parts.perm.countP_eq fun other => decide (other.number < stays.number)
  have isNumber : stays.number = front.length := by
    have inside : front.length < (Text.split '\n' text).length := by
      rw [← length_ofSource, isSource, List.length_append, List.length_cons]
      omega
    have numbered := congrArg (·[front.length]?) (map_number_ofSource text)
    rw [List.getElem?_range inside, isSource, List.map_append, List.map_cons, List.getElem?_append_right (by simp),
      List.length_map, Nat.sub_self] at numbered
    exact Option.some.inj numbered
  rw [List.countP_append, countAll, countKept] at together
  have number : keptBefore.length + 1 + (orphanLines text).countP (fun other => other.number < stays.number) =
      stays.number + 1 := by omega
  refine ⟨(orphanLines text).countP fun other => other.number < stays.number, ?_, ?_⟩
  · rw [List.length_map, number, holdsOnLine_iff]
    refine ⟨front.map Line.text, stays.text, back.map Line.text, ?_, ?_, isIn⟩
    · rw [← map_text_ofSource, isSource, List.map_append, List.map_cons]
    · rw [List.length_map, isNumber]
  · rw [List.length_map, number, orphansAbove_succ]

/-- The report on a tag that is never closed. -/
def tagReport (name : Text) (line : Nat) : Diagnostic :=
  .warning .repair "unclosed_tag_self_closed"
    ("Tag <".toList ++ name ++ "> has no closing tag and was made self-closing.".toList) (some line)

theorem exists_of_mem_closeDanglingTags {finding : Diagnostic} (member : finding ∈ (closeDanglingTags text).2) :
    ∃ name line, finding = tagReport name line ∧ HoldsOnLine text ('<' :: name) line := by
  unfold closeDanglingTags at member
  dsimp only at member
  obtain ⟨tag, isDangling, rfl⟩ := List.mem_map.mp member
  obtain ⟨⟨other, position⟩, isIndexed, isTag⟩ := List.mem_filterMap.mp isDangling
  dsimp only at isTag
  split at isTag
  next opening =>
    obtain rfl := Option.some.inj isTag
    simp only [Bool.and_eq_true, decide_eq_true_eq] at opening
    have opens : other.kind ≠ .closing := by
      rw [opening.1.1]
      exact nofun
    obtain ⟨front, back, split, isStart, noBreak⟩ :=
      Tag.exists_of_mem_scan (List.fst_mem_of_mem_zipIdx isIndexed) opens
    have holds := holdsOnLine_lineNumberAt noBreak split
    rw [isStart, ← (Source.mask_faithful text).2.2.2] at holds
    exact ⟨other.name, _, rfl, holds⟩
  next => exact nomatch isTag

/-- The reports of a repair on tags are told by their code. -/
theorem mem_of_code {finding : Diagnostic} (member : finding ∈ (repair text).2)
    (isTag : finding.code = "unclosed_tag_self_closed".toList) :
    finding ∈ (closeDanglingTags (removeOrphanLines text).1).2 := by
  unfold repair at member
  dsimp only at member
  rcases List.mem_append.mp member with inFront | isImbalance
  · rcases List.mem_append.mp inFront with isOrphan | isDangling
    · rw [code_of_mem_removeOrphanLines isOrphan] at isTag
      exact absurd isTag (by decide)
    · exact isDangling
  · split at isImbalance
    next => exact absurd isImbalance List.not_mem_nil
    next =>
      rw [List.mem_singleton.mp isImbalance] at isTag
      change "structural_imbalance".toList = _ at isTag
      exact absurd isTag (by decide)

end Balance

namespace Preparation

open Imports (elementReport hookReport retagging clearing)
open Balance (tagReport orphansAbove)

/-- A resolution reports an element or a hook on the line of its place in what its edits made of the source:
where they leave the word as it is, this is the word's line in the source but for the line breaks that they
take away and put in in front of it.  A repair reports a tag on its line in the source but for the lines that
are reported as removed in front of it. -/
theorem line_of_reports (catalog : Catalog) (text : Text) :
    (∀ finding ∈ (Imports.resolve catalog text).diagnostics, finding.code = "hallucinated_component".toList →
      ∃ name place line, finding = elementReport catalog name line ∧
        Edit.KeepsLine (retagging catalog text) text ('<' :: name) place line) ∧
    (∀ finding ∈ (Imports.resolve catalog text).diagnostics, finding.code = "unknown_hook".toList →
      ∃ hook place line, finding = hookReport catalog hook line ∧
        Edit.KeepsLine (clearing catalog text) text hook place line) ∧
    ∀ finding ∈ (Balance.repair text).2, finding.code = "unclosed_tag_self_closed".toList →
      ∃ name line removed, finding = tagReport name line ∧ HoldsOnLine text ('<' :: name) (line + removed) ∧
        removed = orphansAbove text (line + removed) := by
  refine ⟨fun finding member isElement => ?_, fun finding member isHook => ?_, fun finding member isTag => ?_⟩
  · exact Imports.exists_keepsLine_of_mem_removeHallucinated ((Imports.mem_of_code member).1 isElement)
  · exact Imports.exists_keepsLine_of_mem_unknownHookReports (fun _ isCall => isCall)
      ((Imports.mem_of_code member).2 isHook)
  · obtain ⟨name, line, isReport, holds⟩ := Balance.exists_of_mem_closeDanglingTags
      (Balance.mem_of_code member isTag)
    obtain ⟨removed, holdsThere, counted⟩ :=
      Balance.exists_holdsOnLine_of_removeOrphanLines (List.cons_ne_nil '<' name) holds
    exact ⟨name, line, removed, isReport, holdsThere, counted⟩

/-- An element behind an import that is removed with its line. -/
def elementBehindImport : Text :=
  "import * as THREE from 'three';\nconst A = () => <Foo />;\n".toList

/-- A tag behind an orphan that is removed with its line. -/
def tagBehindOrphan : Text :=
  "foo();\n)\n<Foo>;\n".toList

/-- The element is reported on the line of the import, and the tag on that of the orphan. -/
theorem not_holdsOnLine_behind_removed :
    elementReport (Catalog.packaged .reactThreeFiber) "Foo".toList 1 ∈
        (Imports.resolve (Catalog.packaged .reactThreeFiber) elementBehindImport).diagnostics ∧
      ¬HoldsOnLine elementBehindImport "<Foo".toList 1 ∧
      tagReport "Foo".toList 2 ∈ (Balance.repair tagBehindOrphan).2 ∧
      ¬HoldsOnLine tagBehindOrphan "<Foo".toList 2 := by
  refine ⟨by decide +kernel, by decide +kernel, by decide +kernel, by decide +kernel⟩

end Preparation

end SceneBundler
