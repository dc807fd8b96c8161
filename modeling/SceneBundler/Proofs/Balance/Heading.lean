import SceneBundler.Balance.Imbalance
import SceneBundler.Catalog.Packaged
import SceneBundler.Proofs.Entry.ExportSite
import SceneBundler.Proofs.Source.Heading
import SceneBundler.Proofs.Source.Locality
import SceneBundler.Proofs.Source.View
import SceneBundler.Proofs.Text.Joined

/-!
Contract: the balance of a source with more text around it.

Owns:
- the masked texts whose brackets balance and that hold no tag, and that what is unbalanced in a masked source
  is the same with such a text behind it;
- that a source is described as unbalanced just if anything is unbalanced in its masked view;
- that the tags behind text without tags are those of the masked source, moved on;
- that a source is balanced with a balanced heading just if it is without it;
- that the statement which starts a source adds nothing to what is unbalanced in it, whether the masked view
  shows the statement or not.

Does not own: which text is put around a source, and what the removals of the entry stage leave.
-/

namespace SceneBundler.Balance

open Character (isBlank)
open Source (BracketKind Tag)

/-- Masked text that adds nothing to what is unbalanced before it. -/
structure Neutral (following : Text) : Prop where
  blankFirst : ∀ c ∈ following.head?, isBlank c = true
  noLess : '<' ∉ following
  noGreater : '>' ∉ following
  evens : ∀ kind net lowest, lowest ≤ net → tally kind net lowest following = (net, lowest)

/-! ## Brackets -/

theorem tally_append (kind : BracketKind) (net lowest : Int) (first second : Text) :
    tally kind net lowest (first ++ second) =
      tally kind (tally kind net lowest first).1 (tally kind net lowest first).2 second := by
  induction first generalizing net lowest with
  | nil => rfl
  | cons c rest inductionHypothesis =>
      rw [List.cons_append, tally, tally]
      split
      · exact inductionHypothesis ..
      · split
        · exact inductionHypothesis ..
        · exact inductionHypothesis ..

/-- The least difference is no greater than the last one. -/
theorem lowest_le_net {kind : BracketKind} {net lowest : Int} (text : Text)
    (ordered : lowest ≤ net) :
    (tally kind net lowest text).2 ≤ (tally kind net lowest text).1 := by
  induction text generalizing net lowest with
  | nil => exact ordered
  | cons c rest inductionHypothesis =>
      rw [tally]
      split
      · exact inductionHypothesis (by omega)
      · split
        · exact inductionHypothesis (Int.min_le_right _ _)
        · exact inductionHypothesis ordered

theorem tally_of_no_brackets {kind : BracketKind} {text : Text} (net lowest : Int)
    (noOpener : kind.opener ∉ text) (noCloser : kind.closer ∉ text) :
    tally kind net lowest text = (net, lowest) := by
  induction text with
  | nil => rfl
  | cons c rest inductionHypothesis =>
      have notOpener : c ≠ kind.opener := fun same => noOpener (by simp [same])
      have notCloser : c ≠ kind.closer := fun same => noCloser (by simp [same])
      rw [tally, if_neg notOpener, if_neg notCloser]
      exact inductionHypothesis (fun member => noOpener (List.mem_cons_of_mem c member))
        (fun member => noCloser (List.mem_cons_of_mem c member))

section Behind

variable {following : Text}

theorem excess_append (neutral : Neutral following) (kind : BracketKind) (masked : Text) :
    excess kind (masked ++ following) = excess kind masked := by
  unfold excess
  rw [tally_append, neutral.evens kind _ _ (lowest_le_net masked (Int.le_refl 0))]

/-! ## Everything that is unbalanced -/

theorem lineNumberAt_append {masked : Text} {offset : Nat} (inside : offset ≤ masked.length) :
    Source.lineNumberAt (masked ++ following) offset = Source.lineNumberAt masked offset := by
  rw [Source.lineNumberAt, List.take_append_of_le_length inside, Source.lineNumberAt]

theorem problems_append (neutral : Neutral following) (masked : Text) :
    problems (masked ++ following) = problems masked := by
  have sameBrackets : bracketProblem? (masked ++ following) = bracketProblem? masked := by
    funext kind
    unfold bracketProblem?
    rw [excess_append neutral]
  have sameTags : ∀ tag ∈ Tag.unbalanced (Tag.scan masked),
      tagProblem (masked ++ following) tag = tagProblem masked tag := by
    intro tag member
    have inside := Tag.start_lt_of_mem_scan (Tag.mem_of_mem_unbalanced member)
    unfold tagProblem
    rw [lineNumberAt_append (Nat.le_of_lt inside)]
  unfold problems
  rw [sameBrackets, Tag.scan_append neutral.blankFirst neutral.noLess neutral.noGreater,
    List.map_congr_left sameTags]

end Behind

theorem neutral_of_no_brackets {following : Text}
    (blankFirst : ∀ c ∈ following.head?, isBlank c = true)
    (unmarked : ∀ mark ∈ "<>()[]\x7b\x7d".toList, mark ∉ following) : Neutral following := by
  refine ⟨blankFirst, unmarked '<' (by decide), unmarked '>' (by decide), ?_⟩
  intro kind net lowest _
  refine tally_of_no_brackets net lowest (unmarked _ ?_) (unmarked _ ?_)
  · cases kind <;> decide
  · cases kind <;> decide

theorem neutral_of_isBlank {following : Text} (blank : Text.isBlank following = true) :
    Neutral following := by
  have everyBlank := Text.isBlank_iff.mp blank
  refine neutral_of_no_brackets (fun c isFirst => everyBlank c (List.mem_of_head? isFirst)) ?_
  intro mark isMark member
  have visible : ∀ mark ∈ "<>()[]\x7b\x7d".toList, isBlank mark = false :=
    Text.forall_mem_of_all (by decide)
  exact absurd (everyBlank mark member) (Bool.eq_false_iff.mp (visible mark isMark))

end SceneBundler.Balance

namespace SceneBundler

open Character (continuesName)

/-! ## Descriptions -/

/-- A source has an empty description just if nothing is unbalanced in its masked view. -/
theorem Balance.describe_eq_nil_iff {text : Text} :
    describe text = [] ↔ problems (Source.mask text) = [] := by
  refine Text.join_eq_nil_iff fun problem member => ?_
  rcases List.mem_append.mp member with isBracket | isTag
  · obtain ⟨kind, _, found⟩ := List.mem_filterMap.mp isBracket
    unfold bracketProblem? at found
    dsimp only at found
    split at found
    next => exact nomatch found
    next =>
      rw [← Option.some.inj found]
      simp
  · obtain ⟨tag, _, rfl⟩ := List.mem_map.mp isTag
    have letters : "unpaired ".toList = 'u' :: "npaired ".toList := by decide
    unfold tagProblem
    rw [letters]
    simp

namespace Source.Tag

/-! ## Tags behind other text -/

/-- A tag at a place further on. -/
def moved (distance : Nat) (tag : Tag) : Tag :=
  { tag with start := distance + tag.start, stop := distance + tag.stop }

theorem at?_moved (distance offset : Nat) {first second : Option Char}
    (alike : first.any continuesName = second.any continuesName) (ahead : Text) :
    at? first (distance + offset) ahead = (at? second offset ahead).map (moved distance) := by
  unfold at?
  rw [alike]
  dsimp only
  generalize (ahead.head? == some '/') = closing
  generalize (if closing = true then 1 else 0) = lead
  split
  next => rfl
  next =>
    split
    next => simp [moved, Nat.add_assoc]
    next =>
      cases TagName.read? (ahead.drop lead) with
      | none => rfl
      | some name =>
          dsimp only
          cases tail? 0 false 0 ((ahead.drop lead).drop name.length) with
          | none => rfl
          | some rest => simp [moved, Nat.add_assoc]

theorem collect_moved (distance : Nat) (busy offset : Nat) {first second : Option Char}
    (alike : first.any continuesName = second.any continuesName) (text : Text) (found : List Tag) :
    collect busy first (distance + offset) text (found.map (moved distance)) =
      (collect busy second offset text found).map (moved distance) := by
  induction text generalizing busy offset first second found with
  | nil => cases busy <;> rfl
  | cons c rest inductionHypothesis =>
      cases busy with
      | succ busy => exact inductionHypothesis busy (offset + 1) rfl found
      | zero =>
          rw [collect, collect, at?_moved distance offset alike]
          split
          next =>
            cases isTag : at? second offset rest with
            | none => exact inductionHypothesis 0 (offset + 1) rfl found
            | some tag =>
                have sameBusy : (moved distance tag).stop - (distance + offset) - 1 =
                    tag.stop - offset - 1 := by
                  simp only [moved]
                  omega
                simp only [Option.map_some, sameBusy, ← List.map_cons]
                exact inductionHypothesis _ (offset + 1) rfl (tag :: found)
          next => exact inductionHypothesis 0 (offset + 1) rfl found

theorem collect_append_of_no_less {heading : Text} (noLess : '<' ∉ heading)
    (previous : Option Char) (offset : Nat) (masked : Text) (found : List Tag) :
    collect 0 previous offset (heading ++ masked) found =
      collect 0 (heading.getLast?.or previous) (offset + heading.length) masked found := by
  induction heading generalizing previous offset with
  | nil => rfl
  | cons c rest inductionHypothesis =>
      have notLess : c ≠ '<' := fun same => noLess (by simp [same])
      have restNoLess : '<' ∉ rest := fun member => noLess (List.mem_cons_of_mem c member)
      rw [List.cons_append, collect, if_neg notLess, inductionHypothesis restNoLess,
        List.getLast?_cons, List.length_cons]
      congr 1
      · cases rest.getLast? <;> rfl
      · omega

/-- Behind text without tags that ends in no name, the tags are those of the masked source. -/
theorem scan_append_of_no_less {heading : Text} (noLess : '<' ∉ heading)
    (apart : heading.getLast?.any continuesName = false) (masked : Text) :
    scan (heading ++ masked) = (scan masked).map (moved heading.length) := by
  rw [scan, scan, collect_append_of_no_less noLess, Option.or_none, Nat.zero_add,
    List.map_reverse]
  exact congrArg List.reverse (collect_moved heading.length 0 0 apart masked [])

theorem StackStep.moved {tag : Tag} {stack next left : List Tag} (step : StackStep tag stack next left)
    (distance : Nat) : StackStep (moved distance tag) (stack.map (Tag.moved distance))
      (next.map (Tag.moved distance)) (left.map (Tag.moved distance)) := by
  cases step with
  | selfClosing isSelf => exact .selfClosing isSelf
  | opening opens => exact .opening opens
  | closing closes sameName => exact .closing closes sameName
  | unpaired closes otherName =>
      refine .unpaired closes fun innermost isFirst => ?_
      rw [List.head?_map] at isFirst
      obtain ⟨first, wasFirst, rfl⟩ := Option.map_eq_some_iff.mp isFirst
      exact otherName first wasFirst

theorem unpaired_moved (distance : Nat) (stack tags : List Tag) :
    unpaired (stack.map (moved distance)) (tags.map (moved distance)) =
      (unpaired stack tags).map (moved distance) := by
  induction tags generalizing stack with
  | nil => simp [unpaired]
  | cons first rest inductionHypothesis =>
      obtain ⟨next, left, step⟩ := exists_stackStep first stack
      rw [List.map_cons, unpaired_cons (step.moved distance), inductionHypothesis, unpaired_cons step,
        List.map_append]

theorem unbalanced_eq_nil_iff {tags : List Tag} : unbalanced tags = [] ↔ unpaired [] tags = [] := by
  rw [← List.length_eq_zero_iff, ← List.length_eq_zero_iff, unbalanced,
    (Order.perm_sort (unpaired [] tags)).length_eq]

end Source.Tag

namespace Balance

/-- Masked text that adds nothing to what is unbalanced behind it. -/
structure Level (heading : Text) : Prop where
  noLess : '<' ∉ heading
  evens : ∀ kind net lowest, lowest ≤ net → tally kind net lowest heading = (net, lowest)

theorem Level.append {first second : Text} (levelFirst : Level first) (levelSecond : Level second) :
    Level (first ++ second) := by
  refine ⟨?_, ?_⟩
  · rw [List.mem_append]
    exact fun member => member.elim levelFirst.noLess levelSecond.noLess
  · intro kind net lowest ordered
    rw [tally_append, levelFirst.evens kind net lowest ordered]
    exact levelSecond.evens kind net lowest ordered

/-- Behind a level heading, the tags of a source are those it has on its own. -/
theorem scan_mask_append_heading {heading shown : Text}
    (isHeading : Source.IsHeading heading shown) (level : Level shown) (source : Text) :
    Source.Tag.scan (Source.mask (heading ++ source)) =
      (Source.Tag.scan (Source.mask source)).map (Source.Tag.moved shown.length) := by
  rw [isHeading.mask_append, Source.Tag.scan_append_of_no_less level.noLess isHeading.apart]

/-- A source is balanced behind a level heading just if it is balanced on its own. -/
theorem describe_append_heading_iff {heading shown : Text}
    (isHeading : Source.IsHeading heading shown) (level : Level shown) (source : Text) :
    describe (heading ++ source) = [] ↔ describe source = [] := by
  have sameBrackets : bracketProblem? (shown ++ Source.mask source) =
      bracketProblem? (Source.mask source) := by
    funext kind
    unfold bracketProblem? excess
    rw [tally_append, level.evens kind 0 0 (Int.le_refl 0)]
  have unpairedTags := Source.Tag.unpaired_moved shown.length []
    (Source.Tag.scan (Source.mask source))
  rw [List.map_nil] at unpairedTags
  rw [describe_eq_nil_iff, describe_eq_nil_iff, problems, problems,
    List.append_eq_nil_iff, List.append_eq_nil_iff, List.map_eq_nil_iff, List.map_eq_nil_iff,
    Source.Tag.unbalanced_eq_nil_iff, Source.Tag.unbalanced_eq_nil_iff,
    scan_mask_append_heading isHeading level, unpairedTags, List.map_eq_nil_iff,
    isHeading.mask_append, sameBrackets]

end Balance

/-! ## The statement that starts a source -/

/-- A statement that, set off by an empty line, neither changes how a source is read nor what is
unbalanced in it. -/
structure Entry.Harmless (statement : Text) : Prop where
  inert : Source.Inert ('\n' :: '\n' :: statement)
  plain : Source.staysPlain true statement = true
  neutral : Balance.Neutral ('\n' :: '\n' :: statement)

namespace Balance

/-- What is unbalanced in a source is what is unbalanced in it without the blanks at its end. -/
theorem describe_trimEnd (source : Text) : describe (Text.trimEnd source) = describe source := by
  obtain ⟨blanks, blank, split⟩ := Text.trimEnd_append source
  have shown : Source.mask source = Source.mask (Text.trimEnd source) ++
      (Source.Reading.initial.readAll (Text.trimEnd source)).view blanks := by
    rw [← Source.mask_append_of_inert (Source.inert_of_isBlank blank), ← split]
  unfold describe
  rw [shown, problems_append (neutral_of_isBlank (Source.isBlank_view _ blank))]

/-- A harmless statement behind a source leaves it as unbalanced as it is. -/
theorem describe_append_statement {statement : Text} (harmless : Entry.Harmless statement)
    (source : Text) :
    describe (Text.trimEnd source ++ '\n' :: '\n' :: statement) = describe source := by
  have neutral : Neutral ('\n' :: '\n' :: statement.map
      (Source.Reading.shown (Source.showsAppended (Text.trimEnd source)))) := by
    cases Source.showsAppended (Text.trimEnd source) with
    | true =>
        have same : statement.map (Source.Reading.shown true) = statement :=
          List.map_id'' (fun c => rfl) statement
        rw [same]
        exact harmless.neutral
    | false =>
        exact neutral_of_isBlank (Source.isBlank_map_shown ('\n' :: '\n' :: statement))
  rw [← describe_trimEnd source, describe, describe,
    Source.mask_append_statement harmless.inert harmless.plain, problems_append neutral]

end Balance

namespace Entry

open Source (staysPlain lineIsBlankAfter not_mem_around_name)

theorem harmless_exportOf {name : Text} (isName : IsNameText name) : Harmless (exportOf name) := by
  refine ⟨inert_exportOf isName, staysPlain_exportOf isName,
    Balance.neutral_of_no_brackets break_of_mem_head? ?_⟩
  have among : ∀ mark ∈ "<>()[]\x7b\x7d".toList, mark ∈ "/<>()[]\x7b\x7d".toList :=
    Text.forall_mem_of_all (by decide)
  exact fun mark isMark => not_mem_exportOf isName (among mark isMark)

/-- The statement that calls a function without arguments. -/
def callOnly (name : Text) : Text :=
  name ++ "();\n".toList

theorem tally_callOnly {name : Text} (isName : IsNameText name) (kind : Source.BracketKind)
    {net lowest : Int} (ordered : lowest ≤ net) :
    Balance.tally kind net lowest ('\n' :: '\n' :: callOnly name) = (net, lowest) := by
  have noBracket (mark : Char) (isMark : Character.continuesName mark = false)
      (notBreak : mark ≠ '\n') : mark ∉ '\n' :: '\n' :: name := by
    intro member
    simp only [List.mem_cons, notBreak, false_or] at member
    exact Source.ne_of_continuesName (isName mark member) mark isMark rfl
  have inName : Balance.tally kind net lowest ('\n' :: '\n' :: name) = (net, lowest) := by
    refine Balance.tally_of_no_brackets net lowest (noBracket _ ?_ ?_) (noBracket _ ?_ ?_)
    all_goals cases kind <;> decide
  have letters : "();\n".toList = ['(', ')', ';', '\n'] := by decide
  have split : '\n' :: '\n' :: callOnly name = ('\n' :: '\n' :: name) ++ "();\n".toList := rfl
  rw [split, Balance.tally_append, inName, letters]
  cases kind with
  | round =>
      simp [Balance.tally, Source.BracketKind.opener, Source.BracketKind.closer,
        Int.min_eq_left ordered]
  | square => simp [Balance.tally, Source.BracketKind.opener, Source.BracketKind.closer]
  | curly => simp [Balance.tally, Source.BracketKind.opener, Source.BracketKind.closer]

theorem harmless_callOnly {name : Text} (isName : IsNameText name) (nonempty : name ≠ []) :
    Harmless (callOnly name) := by
  have breakFirst : ∀ c ∈ ('\n' :: '\n' :: callOnly name).head?, Character.isBlank c = true := by
    intro c isFirst
    obtain rfl := Option.some.inj isFirst
    decide
  have foreign : ∀ mark ∈ "/<>".toList, mark ∉ '\n' :: '\n' :: callOnly name := by
    have everyMark : ∀ mark ∈ "/<>".toList, Character.continuesName mark = false ∧
        mark ∉ "();\n".toList ∧ mark ≠ '\n' :=
      Text.forall_mem_of_all (by decide)
    intro mark isMark member
    obtain ⟨isMark, notAfter, notBreak⟩ := everyMark mark isMark
    have elsewhere : mark ∉ [] ++ name ++ "();\n".toList :=
      not_mem_around_name isName isMark List.not_mem_nil notAfter
    rw [callOnly] at member
    simp only [List.mem_cons, notBreak, false_or] at member
    exact elsewhere member
  have visible := Source.lineIsBlankAfter_of_name true isName (Or.inr nonempty)
  have tail : staysPlain false "();\n".toList = true := by decide
  refine ⟨⟨breakFirst, foreign '/' (by decide), foreign '>' (by decide), ?_⟩, ?_,
    ⟨breakFirst, foreign '<' (by decide), foreign '>' (by decide), ?_⟩⟩
  · unfold callOnly
    cases name with
    | nil => exact absurd rfl nonempty
    | cons c rest =>
        have continues := isName c List.mem_cons_self
        have notParen := Source.ne_of_continuesName continues '(' (by decide)
        have notBlank := Source.not_isBlank_of_continuesName continues
        have breakIsBlank : Character.isBlank '\n' = true := by decide
        simp [Text.trimStart, List.dropWhile, breakIsBlank, notBlank, notParen]
  · rw [callOnly, Source.staysPlain_append, Source.staysPlain_of_name true isName, visible, tail]
    rfl
  · exact fun kind net lowest ordered => tally_callOnly isName kind ordered

/-- The text that the entry stage adds its statement to, or leaves as it is. -/
def withoutStatement (catalog : Catalog) (text : Text) : Text :=
  match catalog.entryStyle with
  | .component => stripped catalog text
  | .script => text

theorem describe_componentEntry (catalog : Catalog) (text : Text) :
    Balance.describe (componentEntry catalog text).1 =
      Balance.describe (stripped catalog text) := by
  rw [componentEntry_eq]
  cases chosen : rootOf catalog (stripped catalog text) with
  | none => dsimp only
  | some root =>
      dsimp only
      exact Balance.describe_append_statement (harmless_exportOf (isComponentName_of_rootOf chosen).isNameText) _

/-- A script is left as it is, or called at its end. -/
theorem scriptEntry_cases (catalog : Catalog) (text : Text) :
    (scriptEntry catalog text).1 = text ∨
      (scriptEntry catalog text).1 =
        Text.trimEnd text ++ '\n' :: '\n' :: callOnly catalog.rootName := by
  unfold scriptEntry
  dsimp only
  split
  next => exact Or.inl rfl
  next =>
    split
    next => exact Or.inl rfl
    next =>
      split
      next => exact Or.inl rfl
      next => exact Or.inr (List.append_assoc ..)

theorem describe_scriptEntry {catalog : Catalog} (isName : IsNameText catalog.rootName)
    (nonempty : catalog.rootName ≠ []) (text : Text) :
    Balance.describe (scriptEntry catalog text).1 = Balance.describe text := by
  rcases scriptEntry_cases catalog text with kept | called
  · rw [kept]
  · rw [called, Balance.describe_append_statement (harmless_callOnly isName nonempty)]

/-- The statement of the entry stage neither adds to what is unbalanced in a source nor mends it. -/
theorem describe_synthesize (framework : Framework) (text : Text) :
    Balance.describe (synthesize (Catalog.packaged framework) text).1 =
      Balance.describe (withoutStatement (Catalog.packaged framework) text) := by
  have isName : IsNameText (Catalog.packaged framework).rootName := by
    refine Text.forall_mem_of_all ?_
    cases framework <;> decide
  have nonempty : (Catalog.packaged framework).rootName ≠ [] := by
    cases framework <;> decide
  unfold synthesize withoutStatement
  cases (Catalog.packaged framework).entryStyle with
  | component => exact describe_componentEntry _ text
  | script => exact describe_scriptEntry isName nonempty text

end Entry

end SceneBundler
