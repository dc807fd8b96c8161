import SceneBundler.Proofs.Applied.Call
import SceneBundler.Proofs.Dialect.Deletion
import SceneBundler.Proofs.Untyped.Quiet

/-!
Contract: what normalization does not find in calls.

Owns:
- that a pattern which begins a line, and needs a gap behind a keyword, finds nothing in a line that begins
  with a name and goes on without a gap;
- that nothing of a call is reported or converted, and no declaration is found in it;
- that a call without type arguments is left as it is by all passes.

Does not own: what becomes of the type arguments of a call.
-/

namespace SceneBundler.Applied

open Character (continuesName startsName)
open Dialect
open Pattern (literal gap blanks indent)
open Source (mask)

/-! ## Names without a gap behind them -/

/-- Whether there is no blank behind the name that a text begins with, or in front of it. -/
def Gapless (text : Text) : Prop :=
  (text.dropWhile continuesName).head?.any Character.isBlank = false

/-- A pattern that leads from such a place only to such a place. -/
def StaysGapless (pattern : Pattern) : Prop :=
  ∀ cursor next, Gapless cursor.ahead → pattern.Reads cursor next → Gapless next.ahead

/-- A pattern that cannot be read at such a place. -/
def NeedsGap (pattern : Pattern) : Prop :=
  ∀ cursor next, Gapless cursor.ahead → ¬pattern.Reads cursor next

theorem gapless_append {word rest : Text} {mark : Char} (continues : ∀ c ∈ word, continuesName c = true)
    (notName : continuesName mark = false) (visible : Character.isBlank mark = false) :
    Gapless (word ++ mark :: rest) := by
  rw [Gapless, List.dropWhile_append_of_pos continues, List.dropWhile_cons, notName]
  exact visible

theorem Gapless.of_append {word rest : Text} (gapless : Gapless (word ++ rest))
    (continues : ∀ c ∈ word, continuesName c = true) : Gapless rest := by
  rwa [Gapless, List.dropWhile_append_of_pos continues] at gapless

theorem Gapless.not_isBlank {c : Char} {rest : Text} (gapless : Gapless (c :: rest)) :
    Character.isBlank c = false := by
  rw [← Bool.not_eq_true]
  intro blank
  rw [Gapless, List.dropWhile_cons, Character.continuesName_of_isBlank blank] at gapless
  rw [show Character.isBlank c = false from gapless] at blank
  contradiction

variable {first second body : Pattern}

theorem NeedsGap.staysGapless (needsGap : NeedsGap first) : StaysGapless first :=
  fun cursor next gapless reads => absurd reads (needsGap cursor next gapless)

theorem needsGap_gap : NeedsGap gap := by
  intro cursor next gapless reads
  obtain ⟨word, areBlank, enough, passes⟩ := Pattern.passes_of_reads_run reads
  cases word with
  | nil => exact absurd enough (Nat.not_succ_le_zero 0)
  | cons c word =>
      rw [passes.ahead_eq] at gapless
      have blank := areBlank c List.mem_cons_self
      rw [gapless.not_isBlank] at blank
      contradiction

theorem NeedsGap.then (needsGap : NeedsGap first) (second : Pattern) : NeedsGap (first ++ second) :=
  fun cursor _ gapless ⟨middle, reads, _⟩ => needsGap cursor middle gapless reads

theorem StaysGapless.then_needsGap (stays : StaysGapless first) (needsGap : NeedsGap second) :
    NeedsGap (first ++ second) :=
  fun cursor next gapless ⟨middle, readsFirst, readsSecond⟩ =>
    needsGap middle next (stays cursor middle gapless readsFirst) readsSecond

theorem NeedsGap.either (needsFirst : NeedsGap first) (needsSecond : NeedsGap second) :
    NeedsGap (.either first second) :=
  fun cursor next gapless reads =>
    reads.elim (needsFirst cursor next gapless) (needsSecond cursor next gapless)

theorem StaysGapless.then (staysFirst : StaysGapless first) (staysSecond : StaysGapless second) :
    StaysGapless (first ++ second) :=
  fun cursor next gapless ⟨middle, readsFirst, readsSecond⟩ =>
    staysSecond middle next (staysFirst cursor middle gapless readsFirst) readsSecond

theorem StaysGapless.either (staysFirst : StaysGapless first) (staysSecond : StaysGapless second) :
    StaysGapless (.either first second) :=
  fun cursor next gapless reads =>
    reads.elim (staysFirst cursor next gapless) (staysSecond cursor next gapless)

theorem StaysGapless.maybe (stays : StaysGapless body) : StaysGapless (Pattern.maybe body) :=
  stays.either fun _ _ gapless same => same ▸ gapless

theorem StaysGapless.capture (stays : StaysGapless body) (slot : Nat) :
    StaysGapless (.capture slot body) := by
  rintro cursor _ gapless ⟨inner, reads, rfl⟩
  exact stays cursor inner gapless reads

theorem staysGapless_lineStart : StaysGapless Pattern.lineStart :=
  fun _ _ gapless ⟨_, same⟩ => same ▸ gapless

theorem staysGapless_literal {letters : String} (continues : letters.toList.all continuesName = true) :
    StaysGapless (literal letters) := by
  intro cursor next gapless reads
  have passes := (Pattern.reads_word_iff.mp reads).1
  rw [passes.ahead_eq] at gapless
  exact gapless.of_append (List.all_eq_true.mp continues)

theorem staysGapless_indent : StaysGapless indent := by
  intro cursor next gapless reads
  have same : next = cursor := by
    refine Pattern.eq_of_reads_run ?_ reads
    cases isAhead : cursor.ahead with
    | nil => rfl
    | cons c rest =>
        rw [isAhead] at gapless
        rw [List.head?_cons, Option.any_some, ← Bool.not_eq_true]
        intro isIndent
        have blank := Character.isBlank_of_isIndent isIndent
        rw [gapless.not_isBlank] at blank
        contradiction
  exact same ▸ gapless

/-- A keyword with a gap behind it. -/
theorem needsGap_keyword {letters : String} (continues : letters.toList.all continuesName = true) :
    NeedsGap (literal letters ++ gap) :=
  (staysGapless_literal continues).then_needsGap needsGap_gap

theorem StaysGapless.keyword {letters : String} (stays : StaysGapless first)
    (continues : letters.toList.all continuesName = true) : NeedsGap (first ++ literal letters ++ gap) :=
  (stays.then (staysGapless_literal continues)).then_needsGap needsGap_gap

/-! ## Declarations and blocks -/

/-- The beginning of a line with an optional keyword. -/
theorem staysGapless_lead {letters : String} (continues : letters.toList.all continuesName = true) :
    StaysGapless (Pattern.lineStart ++ indent ++ Pattern.maybe (literal letters ++ gap)) :=
  (staysGapless_lineStart.then staysGapless_indent).then (needsGap_keyword continues).staysGapless.maybe

theorem needsGap_typeOnlyImport : NeedsGap typeOnlyImport := by
  have ofImport : NeedsGap (literal "import" ++ gap ++ literal "type" ++ Pattern.wordBoundary) :=
    ((needsGap_keyword (by decide)).then _).then _
  have ofExport : NeedsGap (literal "export" ++ gap ++ literal "type" ++ blanks ++ Pattern.char '\x7b') :=
    (((needsGap_keyword (by decide)).then _).then _).then _
  exact (staysGapless_lineStart.then staysGapless_indent).then_needsGap (ofImport.either ofExport)

theorem staysGapless_ambientLead : StaysGapless ambientLead :=
  (staysGapless_lead (by decide)).then (needsGap_keyword (by decide)).staysGapless.maybe

theorem needsGap_interfaceHead : NeedsGap interfaceHead :=
  (((staysGapless_ambientLead.keyword (by decide)).then _).then _).then _

theorem needsGap_typeAliasHead : NeedsGap typeAliasHead :=
  (((((staysGapless_ambientLead.keyword (by decide)).then _).then _).then _).then _).then _

theorem needsGap_ambientHead : NeedsGap ambientHead :=
  ((staysGapless_lead (by decide)).keyword (by decide)).then _

theorem needsGap_namespaceBlock : NeedsGap namespaceBlock := by
  have keywords : StaysGapless (.either (literal "namespace") (literal "module")) :=
    (staysGapless_literal (by decide)).either (staysGapless_literal (by decide))
  exact (((((staysGapless_lead (by decide)).then keywords).then_needsGap needsGap_gap).then _).then _).then _

theorem needsGap_enumHead : NeedsGap enumHead := by
  have optional {letters : String} (continues : letters.toList.all continuesName = true) :
      StaysGapless (Pattern.maybe (literal letters ++ gap)) := (needsGap_keyword continues).staysGapless.maybe
  have lead : StaysGapless (Pattern.lineStart ++ .capture 1 indent ++
      Pattern.maybe (.capture 2 (literal "export" ++ gap))) :=
    (staysGapless_lineStart.then (staysGapless_indent.capture 1)).then
      ((needsGap_keyword (by decide)).staysGapless.capture 2).maybe
  exact (((((lead.then (optional (by decide))).then (optional (by decide))).keyword
    (by decide)).then _).then _).then _

/-- In a text of one line, a pattern that begins a line and needs a gap finds nothing behind a name without
one. -/
theorem all_eq_nil_of_needsGap {pattern : Pattern} (isLineStart : pattern.leftmost = Pattern.lineStart)
    (needsGap : NeedsGap pattern) {text : Text} (gapless : Gapless text)
    (oneLine : ∀ before after, text = before ++ '\n' :: after → after = []) : pattern.all text = [] := by
  refine Pattern.all_eq_nil fun passed ahead next split reads => needsGap _ next ?_ reads
  have startsLine : passed.getLast?.all (· == '\n') = true := Pattern.startsLine_of_reads isLineStart reads
  rcases List.eq_nil_or_concat passed with rfl | ⟨before, last, rfl⟩
  · rwa [split] at gapless
  · rw [List.concat_eq_append, List.getLast?_concat, Option.all_some, beq_iff_eq] at startsLine
    rw [oneLine before ahead (by rw [split, startsLine]; simp)]
    rfl

/-! ## One line -/

/-- Whether no more than one line begins in a text. -/
def IsLine (text : Text) : Prop :=
  ∀ before after, text = before ++ '\n' :: after → after = []

/-- A line of the characters of calls. -/
structure IsCallLine (text : Text) : Prop where
  marks : ∀ c ∈ text, isCallMark c = true
  isLine : IsLine text

theorem isCallLine_of_peelable {text : Text} (peelable : Peelable text) : IsCallLine text where
  marks := peelable.marks
  isLine := by
    intro before after split
    cases after with
    | nil => rfl
    | cons c after => exact absurd rfl (peelable.follows_of_split before '\n' c after split).noBreak

namespace IsCallLine

variable {text next : Text}

theorem sublist (isCallLine : IsCallLine text) (sublist : next.Sublist text) : IsCallLine next where
  marks := fun c member => isCallLine.marks c (sublist.subset member)
  isLine := by
    rintro before after rfl
    obtain ⟨front, back, rfl, isBreak, later⟩ :=
      List.cons_sublist_iff.mp ((List.sublist_append_right before _).trans sublist)
    obtain ⟨earlier, others, rfl⟩ := List.mem_iff_append.mp isBreak
    have none := isCallLine.isLine earlier (others ++ back) (by simp)
    rw [(List.append_eq_nil_iff.mp none).2] at later
    exact List.sublist_nil.mp later

/-- The only blanks in front of other characters are spaces. -/
theorem eq_space (isCallLine : IsCallLine text) {before after : Text} {c d : Char}
    (split : text = before ++ c :: d :: after) (blank : Character.isBlank c = true) : c = ' ' := by
  have isMark := isCallLine.marks c (by simp [split])
  have marks : ∀ mark ∈ "<>[](),|:=; \n".toList, Character.isBlank mark = true → mark = ' ' ∨ mark = '\n' :=
    Text.forall_mem_of_all (by decide)
  rw [isCallMark, Character.continuesName_of_isBlank blank, Bool.false_or, List.contains_iff_mem] at isMark
  refine (marks c isMark blank).resolve_right ?_
  rintro rfl
  exact List.cons_ne_nil d after (isCallLine.isLine before (d :: after) split)

theorem flat (isCallLine : IsCallLine text) : ∀ c ∈ text, Source.isFlat c = true :=
  fun c member => isFlat_of_isCallMark (isCallLine.marks c member)

end IsCallLine

theorem isLine_mask {text : Text} (isLine : IsLine text) : IsLine (mask text) := by
  intro before after split
  have isBreak : (mask text)[before.length]? = some '\n' := by rw [split, Text.getElem?_behind]
  rw [Source.getElem?_break_iff (Source.forall₂_mask text)] at isBreak
  obtain ⟨inside, isThere⟩ := List.getElem?_eq_some_iff.mp isBreak
  have isDropped := isLine (text.take before.length) (text.drop (before.length + 1)) (by
    rw [← isThere, ← List.drop_eq_getElem_cons inside, List.take_append_drop])
  have lengths := congrArg List.length split
  have beyond := List.drop_eq_nil_iff.mp isDropped
  rw [Source.length_mask, List.length_append, List.length_cons] at lengths
  exact List.length_eq_zero_iff.mp (by omega)

section Calls

variable {accepts : Text -> Prop} {text : Text}

/-- Within such a text, blanks stand next to marks. -/
theorem takesSpace_of_isBlank (sound : Sound accepts text) {before after : Text} {c d : Char}
    (split : text = before ++ c :: d :: after) (blank : Character.isBlank c = true) :
    before.getLast?.any takesSpace = true ∨ takesSpace d = true := by
  have spaced := sound.spaced
  obtain rfl := (isCallLine_of_peelable sound.toPeelable).eq_space split blank
  rw [split] at spaced
  simpa using takesSpace_of_isSpaced spaced

/-- Between two words of such a text there are more than blanks. -/
theorem all_abstractClass_mask (sound : Sound accepts text) : abstractClass.all (mask text) = [] := by
  refine Pattern.all_eq_nil fun passed ahead next split reads => ?_
  obtain ⟨_, ⟨behind, ⟨there, ⟨here, ⟨_, ⟨_, rfl⟩, word⟩, readsGap⟩, keyword⟩, _⟩, _⟩ := reads
  obtain ⟨blanks, areBlank, enough, passesGap⟩ := Pattern.passes_of_reads_run readsGap
  have isAhead : ahead = "abstract".toList ++ (blanks ++ "class".toList) ++ behind.ahead := by
    rw [List.append_assoc, List.append_assoc, ← (Pattern.reads_word_iff.mp keyword).1.ahead_eq,
      ← passesGap.ahead_eq, ← (Pattern.reads_word_iff.mp word).1.ahead_eq]
    rfl
  have noEnd : '>' ∉ [] ++ 'a' :: ("bstract".toList ++ (blanks ++ "class".toList)) := by
    have notBlank : '>' ∉ blanks := fun isIn => absurd (areBlank '>' isIn) (by decide)
    simp [notBlank]
  obtain ⟨before, after, _, isText, _⟩ := Source.exists_stretch_of_mask sound.flat
    (show mask text = passed ++
        ([] ++ 'a' :: ("bstract".toList ++ (blanks ++ "class".toList)) ++ behind.ahead) by
      rw [split, isAhead]
      rfl) noEnd (Text.forall_mem_of_all (by decide)) (by decide)
  obtain ⟨c, d, rest, isGap, noMark⟩ : ∃ c d rest, blanks ++ "class".toList = c :: d :: rest ∧
      Character.isBlank c = true ∧ takesSpace d = false := by
    have blankMarks : ∀ mark ∈ ",|:=>".toList, Character.isBlank mark = false :=
      Text.forall_mem_of_all (by decide)
    cases blanks with
    | nil => exact absurd enough (Nat.not_succ_le_zero 0)
    | cons c more =>
        cases more with
        | nil => exact ⟨c, 'c', _, rfl, areBlank c List.mem_cons_self, by decide⟩
        | cons d more =>
            refine ⟨c, d, _, rfl, areBlank c List.mem_cons_self, ?_⟩
            rw [← Bool.not_eq_true, takesSpace, List.contains_iff_mem]
            intro isMark
            have blank := areBlank d (by simp)
            exact absurd blank (by rw [blankMarks d isMark]; exact Bool.false_ne_true)
  have isSplit : text = (before ++ "abstract".toList) ++ c :: d :: (rest ++ after) := by
    have isStretch : text = before ++ ("abstract".toList ++ (blanks ++ "class".toList) ++ after) := isText
    rw [isStretch, isGap]
    simp
  rcases takesSpace_of_isBlank sound isSplit noMark.1 with isBehind | isAhead
  · have isLast : "abstract".toList.getLast? = some 't' := rfl
    rw [List.getLast?_append, isLast, Option.some_or] at isBehind
    exact absurd isBehind (by decide)
  · rw [noMark.2] at isAhead
    contradiction

/-- Such a text that begins with a name and an opening bracket behind it is shown with both. -/
theorem gapless_mask (sound : Sound accepts text) {name : Name} {mark : Char} {rest : Text}
    (split : text = name.text ++ mark :: rest) (opens : mark = '<' ∨ mark = '(') : Gapless (mask text) := by
  have marks : continuesName mark = false ∧ Character.isBlank mark = false ∧ mark ≠ '>' := by
    rcases opens with rfl | rfl <;> decide
  have isWhole : text = (name.text ++ [mark]) ++ rest := by simp [split]
  have notName : '>' ∉ name.text := name.isWord.not_mem (by decide)
  obtain ⟨next, _, _, view⟩ := @Source.Reading.view_append_of_shows Source.Reading.initial
    (name.text ++ [mark]) rest Source.Reading.isFlat_initial Source.Reading.shows_initial
    (fun c member => sound.flat c (by rw [isWhole]; exact List.mem_append_left rest member))
    (by simp [notName, marks.2.2.symm])
  rw [Source.mask_eq_view, isWhole, view, List.append_assoc]
  exact gapless_append name.isWord.continues marks.1 marks.2.1

/-- Nothing of such a text is reported, converted or taken for a declaration of types. -/
theorem normalize_eq_of_gapless (sound : Sound accepts text) (gapless : Gapless (mask text)) :
    normalize text = (editAll passes.tail text, []) := by
  have isLine := isLine_mask (isCallLine_of_peelable sound.toPeelable).isLine
  have noNamespace := all_eq_nil_of_needsGap rfl needsGap_namespaceBlock gapless isLine
  have noEnum := all_eq_nil_of_needsGap rfl needsGap_enumHead gapless isLine
  have unreported : unsupportedConstructs text = [] := by
    rw [unsupportedConstructs, noNamespace, all_abstractClass_mask sound]
    rfl
  have unconverted : convertEnums text = (text, []) := by
    rw [convertEnums, noEnum]
    rfl
  have noTypes : typeDeclarationEdits (mask text) = [] := by
    rw [typeDeclarationEdits, all_eq_nil_of_needsGap rfl needsGap_typeOnlyImport gapless isLine,
      all_eq_nil_of_needsGap rfl needsGap_interfaceHead gapless isLine,
      all_eq_nil_of_needsGap rfl needsGap_typeAliasHead gapless isLine,
      all_eq_nil_of_needsGap rfl needsGap_ambientHead gapless isLine]
    rfl
  have isFirst : typeDeclarationEdits ∈ passes := by simp [passes]
  have untouched : editUntilSettled typeDeclarationEdits text = text := by
    refine (editUntilSettled_eq_self_iff (sublist_editOnce isFirst)).mpr ?_
    rw [IsSettled, editOnce, noTypes]
    rfl
  have isCons : passes = typeDeclarationEdits :: passes.tail := rfl
  have noReports : Order.sort Diagnostic.le ([] ++ ([] : List Diagnostic)) = [] := sort_eq_nil_iff.mpr rfl
  rw [normalize_eq, unreported, unconverted, noReports, isCons, editAll, List.foldl_cons, untouched]
  rfl

end Calls

/-! ## Calls without type arguments -/

section BareCalls

variable (name : Name)

theorem bareCall_sound {accepts : Text -> Prop} : Sound accepts (bareCall name) := by
  have isName : IsType accepts name.text := name.isType
  exact isName.close (.of_not_mem (by decide)) (by decide)

/-- The characters of a call without type arguments that are in no name. -/
theorem not_mem_bareCall {mark : Char} (notName : continuesName mark = false)
    (other : mark ∉ "();\n".toList) : mark ∉ bareCall name := by
  have others : mark ∉ "(x);\n".toList := by
    intro member
    have areOthers : ∀ c ∈ "(x);\n".toList, c ∈ "();\n".toList ∨ continuesName c = true :=
      Text.forall_mem_of_all (by decide)
    rcases areOthers mark member with isOther | continues
    · exact other isOther
    · exact absurd continues (by rw [notName]; exact Bool.false_ne_true)
  exact List.not_mem_append (name.isWord.not_mem notName) others

theorem mask_bareCall : mask (bareCall name) = bareCall name := by
  have sound : Sound (fun _ => True) (bareCall name) := bareCall_sound name
  refine Source.mask_eq_self_of_no_less (fun c member => ?_) (not_mem_bareCall name (by decide) (by decide))
  have flat := sound.flat c member
  simp only [Source.isFlat, Bool.and_eq_true, Bool.not_eq_true'] at flat
  exact flat.1.1

theorem spaced_bareCall : Untyped.Spaced (bareCall name) := by
  have visible : Untyped.Spaced name.text := Untyped.Spaced.of_visible fun c member => by
    rw [← Bool.not_eq_true]
    intro blank
    have continues := name.isWord.continues c member
    rw [Character.continuesName_of_isBlank blank] at continues
    contradiction
  exact visible.append (by decide)

/-- No parameters are found without an arrow and a brace. -/
theorem signatureEdits_eq_nil {text : Text} (noEquals : '=' ∉ text) (noBrace : '\x7b' ∉ text) :
    signatureEdits text = [] := by
  rw [List.eq_nil_iff_forall_not_mem]
  intro edit member
  obtain ⟨offset, _, isArrow | isBrace⟩ := exists_follower_of_mem_signatureEdits member
  · rw [Text.standsAt, List.isPrefixOf_iff_prefix] at isArrow
    exact noEquals (List.mem_of_mem_drop (isArrow.subset (by decide)))
  · exact noBrace (List.mem_of_getElem? isBrace)

/-- All passes leave a call without type arguments as it is. -/
theorem isSettled_bareCall : ∀ collect ∈ passes.tail, IsSettled collect (bareCall name) := by
  have spaced := spaced_bareCall name
  intro collect isPass
  have nothing : collect (bareCall name) = [] := by
    have split : passes.tail = [typeArgumentEdits, nonNullEdits, castEdits, classMemberEdits, declarationEdits,
      signatureEdits] := rfl
    simp only [split, List.mem_cons, List.not_mem_nil, or_false] at isPass
    rcases isPass with rfl | rfl | rfl | rfl | rfl | rfl
    · exact Untyped.typeArgumentEdits_eq_nil (not_mem_bareCall name (by decide) (by decide))
    · exact Typed.nonNullEdits_eq_nil (not_mem_bareCall name (by decide) (by decide))
    · rw [castEdits, Untyped.all_castSuffix spaced]
      rfl
    · rw [classMemberEdits, Untyped.all_classHead spaced]
      rfl
    · rw [declarationEdits, Untyped.all_declarationKeyword spaced]
      rfl
    · exact signatureEdits_eq_nil (not_mem_bareCall name (by decide) (by decide))
        (not_mem_bareCall name (by decide) (by decide))
  rw [IsSettled, editOnce, mask_bareCall, nothing]
  rfl

end BareCalls

end SceneBundler.Applied
