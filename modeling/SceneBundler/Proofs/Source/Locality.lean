import SceneBundler.Proofs.Source.View
import SceneBundler.Proofs.Text.Blank
import SceneBundler.Proofs.Text.Ordered
import SceneBundler.Source.Tag

/-!
Contract: the reading of a source and of its tags does not depend on inert text behind it.

Owns:
- the texts that cannot change how what stands before them is read;
- that each look ahead of the reading finds the same with and without such a text behind;
- the masked view of a source with such a text behind;
- that each tag of a masked source is recognised as it is without text behind it that has no angle brackets,
  and begins within the text it was found in;
- what one tag does to the stack of the tags that are open.

Does not own: how that text itself is read, and which tags have partners.
-/

namespace SceneBundler

open Character (isBlank)

/-- Text behind a source that no look ahead can see: it begins with a blank if it is not empty, ends no
regular expression and no tag head, and opens no parameter list. -/
structure Source.Inert (following : Text) : Prop where
  blankFirst : ∀ c ∈ following.head?, isBlank c = true
  noSlash : '/' ∉ following
  noAngle : '>' ∉ following
  noCall : (Text.trimStart following).head? ≠ some '('

namespace TagName

theorem continues_of_isBlank {c : Char} (blank : isBlank c = true) : continues c = false := by
  unfold continues
  rw [Character.continuesName_of_isBlank blank]
  simp [Character.ne_of_isBlank blank (d := '.') (by decide),
    Character.ne_of_isBlank blank (d := ':') (by decide),
    Character.ne_of_isBlank blank (d := '-') (by decide)]

theorem read?_append {named following : Text}
    (blankFirst : ∀ c ∈ following.head?, isBlank c = true) :
    read? (named ++ following) = read? named := by
  have noneContinues : following.takeWhile continues = [] := by
    cases following with
    | nil => rfl
    | cons c rest => simp [continues_of_isBlank (blankFirst c rfl)]
  cases named with
  | nil =>
      cases following with
      | nil => rfl
      | cons c rest => simp [read?, Character.startsName_of_isBlank (blankFirst c rfl)]
  | cons c rest =>
      have sameName : (rest ++ following).takeWhile continues = rest.takeWhile continues := by
        rw [List.takeWhile_append, noneContinues, List.append_nil]
        split
        next whole => exact ((List.takeWhile_prefix _).eq_of_length whole).symm
        next => rfl
      rw [List.cons_append, read?, read?, sameName]

/-- A tag's name begins as a name does, and goes on as far as it can. -/
theorem exists_cons_of_read? {text name : Text} (isName : read? text = some name) :
    ∃ c rest, Character.startsName c = true ∧ text = c :: rest ∧ name = c :: rest.takeWhile continues := by
  cases text with
  | nil => simp [read?] at isName
  | cons c rest =>
      rw [read?] at isName
      split at isName
      next starts => exact ⟨c, rest, starts, rfl, (Option.some.inj isName).symm⟩
      next => contradiction

theorem prefix_of_read? {text name : Text} (isName : read? text = some name) : name <+: text := by
  obtain ⟨c, rest, _, rfl, rfl⟩ := exists_cons_of_read? isName
  exact List.cons_prefix_cons.mpr ⟨rfl, List.takeWhile_prefix _⟩

end TagName

namespace Source

/-! ## Single looks ahead -/

theorem Inert.head?_append {following : Text} (inert : Inert following) (ahead : Text) (mark : Char)
    (visible : isBlank mark = false) :
    ((ahead ++ following).head? == some mark) = (ahead.head? == some mark) :=
  Text.head?_append_eq_mark inert.blankFirst ahead mark visible

theorem regexLength?_eq_none {following : Text} (noSlash : '/' ∉ following)
    (escaped inClass : Bool) (passed : Nat) :
    regexLength? escaped inClass passed following = none := by
  induction following generalizing escaped inClass passed with
  | nil => cases escaped <;> rfl
  | cons c rest inductionHypothesis =>
      have restNoSlash : '/' ∉ rest := fun member => noSlash (List.mem_cons_of_mem c member)
      have notSlash : c ≠ '/' := fun same => noSlash (by simp [same])
      cases escaped with
      | true => exact inductionHypothesis restNoSlash ..
      | false =>
          rw [regexLength?]
          simp only [notSlash, decide_false, Bool.false_and, Bool.false_eq_true, if_false,
            inductionHypothesis restNoSlash, ite_self]

theorem regexLength?_append {following : Text} (noSlash : '/' ∉ following)
    (escaped inClass : Bool) (passed : Nat) (text : Text) :
    regexLength? escaped inClass passed (text ++ following) =
      regexLength? escaped inClass passed text := by
  induction text generalizing escaped inClass passed with
  | nil =>
      rw [List.nil_append, regexLength?_eq_none noSlash]
      cases escaped <;> rfl
  | cons c rest inductionHypothesis =>
      cases escaped with
      | true => exact inductionHypothesis ..
      | false => simp only [List.cons_append, regexLength?, inductionHypothesis]

theorem headLength?_eq_none {following : Text} (noAngle : '>' ∉ following) (quote : Option Char)
    (depth passed : Nat) : headLength? quote depth passed following = none := by
  induction following generalizing quote depth passed with
  | nil => cases quote <;> rfl
  | cons c rest inductionHypothesis =>
      have restNoAngle : '>' ∉ rest := fun member => noAngle (List.mem_cons_of_mem c member)
      have notAngle : (c == '>') = false := by
        rw [beq_eq_false_iff_ne]
        exact fun same => noAngle (by simp [same])
      cases quote with
      | some quote => exact inductionHypothesis restNoAngle ..
      | none =>
          cases depth <;>
            simp only [headLength?, notAngle, Bool.and_false, Bool.false_eq_true, if_false,
              inductionHypothesis restNoAngle, ite_self]

theorem headLength?_append {following : Text} (noAngle : '>' ∉ following) (quote : Option Char)
    (depth passed : Nat) (text : Text) :
    headLength? quote depth passed (text ++ following) = headLength? quote depth passed text := by
  induction text generalizing quote depth passed with
  | nil =>
      rw [List.nil_append, headLength?_eq_none noAngle]
      cases quote <;> rfl
  | cons c rest inductionHypothesis =>
      cases quote with
      | some quote => exact inductionHypothesis ..
      | none =>
          cases depth <;> simp only [List.cons_append, headLength?, inductionHypothesis]

/-- A tag head ends within the text it is looked for in. -/
theorem headLength?_le {quote : Option Char} {depth passed length : Nat} {text : Text}
    (found : headLength? quote depth passed text = some length) :
    length ≤ passed + text.length := by
  induction text generalizing quote depth passed with
  | nil => cases quote <;> simp [headLength?] at found
  | cons c rest inductionHypothesis =>
      have further {quote : Option Char} {depth : Nat}
          (found : headLength? quote depth (passed + 1) rest = some length) :
          length ≤ passed + (c :: rest).length := by
        have bound := inductionHypothesis found
        simp only [List.length_cons]
        omega
      cases quote with
      | some quote => exact further found
      | none =>
          rw [headLength?.eq_def] at found
          dsimp only at found
          split at found
          next => exact further found
          next =>
            split at found
            next => exact further found
            next =>
              split at found
              next =>
                cases depth with
                | zero => contradiction
                | succ outer => exact further found
              next =>
                split at found
                next =>
                  obtain rfl := Option.some.inj found
                  simp only [List.length_cons]
                  omega
                next =>
                  split at found
                  next => contradiction
                  next => exact further found

theorem isTypeParameterList_append {following : Text} (inert : Inert following)
    (attributes after : Text) :
    isTypeParameterList attributes (after ++ following) =
      isTypeParameterList attributes after := by
  have sameCall : ((Text.trimStart (after ++ following)).head? == some '(') =
      ((Text.trimStart after).head? == some '(') := by
    cases blank : Text.isBlank after with
    | true =>
        rw [Text.trimStart_append_of_isBlank blank, Text.trimStart_of_isBlank blank]
        simpa using inert.noCall
    | false =>
        rw [Text.trimStart_append_of_not_isBlank blank]
        exact inert.head?_append _ _ (by decide)
  rw [isTypeParameterList, isTypeParameterList, sameCall]

theorem headStart?_append {following : Text} (inert : Inert following) (ahead : Text) :
    headStart? (ahead ++ following) = headStart? ahead := by
  unfold headStart?
  dsimp only
  rw [inert.head?_append ahead '/' (by decide)]
  generalize closes : (ahead.head? == some '/') = closing
  have fits : (if closing = true then 1 else 0) ≤ ahead.length := by
    cases ahead with
    | nil => simp_all
    | cons c rest => split <;> simp
  rw [List.drop_append_of_le_length fits]
  generalize ahead.drop (if closing = true then 1 else 0) = named
  rw [inert.head?_append named '>' (by decide),
    TagName.read?_append inert.blankFirst]
  cases isName : TagName.read? named with
  | none => rfl
  | some name =>
      have nameFits := (TagName.prefix_of_read? isName).length_le
      simp only [List.drop_append_of_le_length nameFits, headLength?_append inert.noAngle]
      cases isHead : headLength? none 0 0 (named.drop name.length) with
      | none => rfl
      | some length =>
          have headFits := headLength?_le isHead
          rw [Nat.zero_add] at headFits
          have attributesFit : length - 1 ≤ (named.drop name.length).length := by omega
          simp only [List.drop_append_of_le_length headFits,
            List.take_append_of_le_length attributesFit, isTypeParameterList_append inert]

/-! ## The reading of one character -/

namespace Reading

variable {following : Text}

theorem readPlain_append (inert : Inert following) (reading : Reading) (c : Char) (ahead : Text) :
    reading.readPlain c (ahead ++ following) = reading.readPlain c ahead := by
  unfold readPlain
  simp only [inert.head?_append ahead '/' (by decide),
    inert.head?_append ahead '*' (by decide), bne,
    inert.head?_append ahead '>' (by decide),
    regexLength?_append inert.noSlash, headStart?_append inert]

theorem readHead_append (inert : Inert following) (reading : Reading) (c : Char) (ahead : Text) :
    reading.readHead c (ahead ++ following) = reading.readHead c ahead := by
  unfold readHead
  simp only [inert.head?_append ahead '>' (by decide), readPlain_append inert]

theorem readElement_append (inert : Inert following) (reading : Reading) (c : Char)
    (ahead : Text) : reading.readElement c (ahead ++ following) = reading.readElement c ahead := by
  unfold readElement readText
  simp only [headStart?_append inert, readPlain_append inert]

theorem readCode_append (inert : Inert following) (reading : Reading) (c : Char) (ahead : Text) :
    reading.readCode c (ahead ++ following) = reading.readCode c ahead := by
  unfold readCode
  simp only [readHead_append inert, readElement_append inert, readPlain_append inert]

theorem read_append (inert : Inert following) (reading : Reading) (c : Char) (ahead : Text) :
    reading.read c (ahead ++ following) = reading.read c ahead := by
  unfold read
  simp only [readCode_append inert, inert.head?_append ahead '\x7b' (by decide),
    inert.head?_append ahead '/' (by decide)]

theorem advance_append (inert : Inert following) (reading : Reading) (c : Char) (ahead : Text) :
    reading.advance c (ahead ++ following) = reading.advance c ahead := by
  rw [advance, read_append inert, advance]

/-! ## The reading of a text -/

theorem viewBefore_eq (inert : Inert following) (reading : Reading) (text : Text) :
    reading.viewBefore following text = reading.view text := by
  induction text generalizing reading with
  | nil => rfl
  | cons c rest inductionHypothesis =>
      rw [viewBefore, view, read_append inert, advance_append inert, inductionHypothesis]

theorem readBefore_eq (inert : Inert following) (reading : Reading) (text : Text) :
    reading.readBefore following text = reading.readAll text := by
  induction text generalizing reading with
  | nil => rfl
  | cons c rest inductionHypothesis =>
      rw [readBefore, readAll, advance_append inert, inductionHypothesis]

/-- With inert text behind it, a text is read as it is on its own. -/
theorem view_append_of_inert (inert : Inert following) (reading : Reading) (text : Text) :
    reading.view (text ++ following) =
      reading.view text ++ (reading.readAll text).view following := by
  rw [view_append, viewBefore_eq inert, readBefore_eq inert]

theorem readAll_append_of_inert (inert : Inert following) (reading : Reading) (text : Text) :
    reading.readAll (text ++ following) = (reading.readAll text).readAll following := by
  rw [readAll_append, readBefore_eq inert]

end Reading

/-- The masked view of a source with inert text behind it. -/
theorem mask_append_of_inert {following : Text} (inert : Inert following) (text : Text) :
    mask (text ++ following) = mask text ++ (Reading.initial.readAll text).view following := by
  rw [mask_eq_view, mask_eq_view, Reading.view_append_of_inert inert]

theorem inert_of_isBlank {following : Text} (blank : Text.isBlank following = true) :
    Inert following := by
  have everyBlank := Text.isBlank_iff.mp blank
  refine ⟨?_, ?_, ?_, ?_⟩
  · intro c isFirst
    exact everyBlank c (List.mem_of_head? isFirst)
  · exact fun member => absurd (everyBlank _ member) (by decide)
  · exact fun member => absurd (everyBlank _ member) (by decide)
  · rw [Text.trimStart_of_isBlank blank]
    exact nofun

end Source

end SceneBundler

namespace SceneBundler.Source.Tag

open Character (isBlank)

section Behind

variable {following : Text}

theorem tail?_eq_none (noGreater : '>' ∉ following) (depth : Nat) (slash : Bool) (passed : Nat) :
    tail? depth slash passed following = none := by
  induction following generalizing depth slash passed with
  | nil => rfl
  | cons c rest inductionHypothesis =>
      have restNoGreater : '>' ∉ rest := fun member => noGreater (List.mem_cons_of_mem c member)
      have notGreater : (c == '>') = false := by
        rw [beq_eq_false_iff_ne]
        exact fun same => noGreater (by simp [same])
      cases depth <;>
        simp only [tail?, notGreater, Bool.and_false, Bool.false_eq_true, if_false,
          inductionHypothesis restNoGreater, ite_self]

theorem tail?_append (noGreater : '>' ∉ following) (depth : Nat) (slash : Bool) (passed : Nat)
    (text : Text) :
    tail? depth slash passed (text ++ following) = tail? depth slash passed text := by
  induction text generalizing depth slash passed with
  | nil =>
      rw [List.nil_append, tail?_eq_none noGreater]
      rfl
  | cons c rest inductionHypothesis =>
      cases depth <;> simp only [List.cons_append, tail?, inductionHypothesis]

theorem at?_append (blankFirst : ∀ c ∈ following.head?, isBlank c = true)
    (noGreater : '>' ∉ following) (previous : Option Char) (offset : Nat) (ahead : Text) :
    at? previous offset (ahead ++ following) = at? previous offset ahead := by
  unfold at?
  dsimp only
  rw [Text.head?_append_eq_mark blankFirst ahead '/' (by decide)]
  generalize closes : (ahead.head? == some '/') = closing
  have fits : (if closing = true then 1 else 0) ≤ ahead.length := by
    cases ahead with
    | nil => simp_all
    | cons c rest => split <;> simp
  rw [List.drop_append_of_le_length fits]
  generalize ahead.drop (if closing = true then 1 else 0) = named
  rw [Text.head?_append_eq_mark blankFirst named '>' (by decide),
    TagName.read?_append blankFirst]
  cases isName : TagName.read? named with
  | none => rfl
  | some name =>
      have nameFits := (TagName.prefix_of_read? isName).length_le
      simp only [List.drop_append_of_le_length nameFits, tail?_append noGreater]

theorem collect_of_no_less (noLess : '<' ∉ following) (busy : Nat) (previous : Option Char)
    (offset : Nat) (found : List Tag) : collect busy previous offset following found = found := by
  induction following generalizing busy previous offset with
  | nil => cases busy <;> rfl
  | cons c rest inductionHypothesis =>
      have restNoLess : '<' ∉ rest := fun member => noLess (List.mem_cons_of_mem c member)
      have notLess : c ≠ '<' := fun same => noLess (by simp [same])
      cases busy with
      | zero =>
          rw [collect, if_neg notLess]
          exact inductionHypothesis restNoLess ..
      | succ busy => exact inductionHypothesis restNoLess ..

theorem collect_append (blankFirst : ∀ c ∈ following.head?, isBlank c = true)
    (noLess : '<' ∉ following) (noGreater : '>' ∉ following) (busy : Nat)
    (previous : Option Char) (offset : Nat) (text : Text) (found : List Tag) :
    collect busy previous offset (text ++ following) found =
      collect busy previous offset text found := by
  induction text generalizing busy previous offset found with
  | nil =>
      rw [List.nil_append, collect_of_no_less noLess]
      cases busy <;> rfl
  | cons c rest inductionHypothesis =>
      cases busy with
      | zero =>
          simp only [List.cons_append, collect, at?_append blankFirst noGreater,
            inductionHypothesis]
      | succ busy => exact inductionHypothesis ..

/-- Text without angle brackets behind a masked source adds no tag and changes none. -/
theorem scan_append (blankFirst : ∀ c ∈ following.head?, isBlank c = true)
    (noLess : '<' ∉ following) (noGreater : '>' ∉ following) (masked : Text) :
    scan (masked ++ following) = scan masked := by
  rw [scan, scan, collect_append blankFirst noLess noGreater]

end Behind

/-! ## Places of tags -/

theorem bounds_of_at? {previous : Option Char} {offset : Nat} {ahead : Text} {tag : Tag}
    (isTag : at? previous offset ahead = some tag) : tag.start = offset ∧ tag.start < tag.stop := by
  unfold at? at isTag
  dsimp only at isTag
  generalize (if (ahead.head? == some '/') = true then 1 else 0) = lead at isTag
  split at isTag
  next => contradiction
  next =>
    split at isTag
    next =>
      obtain rfl := Option.some.inj isTag
      exact ⟨rfl, by dsimp only; omega⟩
    next =>
      split at isTag
      next => contradiction
      next =>
        split at isTag
        next => contradiction
        next =>
          obtain rfl := Option.some.inj isTag
          exact ⟨rfl, by dsimp only; omega⟩

theorem start_of_at? {previous : Option Char} {offset : Nat} {ahead : Text} {tag : Tag}
    (isTag : at? previous offset ahead = some tag) : tag.start = offset :=
  (bounds_of_at? isTag).1

theorem start_lt_stop_of_at? {previous : Option Char} {offset : Nat} {ahead : Text} {tag : Tag}
    (isTag : at? previous offset ahead = some tag) : tag.start < tag.stop :=
  (bounds_of_at? isTag).2

theorem start_lt_of_mem_collect {busy : Nat} {previous : Option Char} {offset : Nat} {text : Text}
    {found : List Tag} {tag : Tag} (member : tag ∈ collect busy previous offset text found) :
    tag ∈ found ∨ tag.start < offset + text.length := by
  induction text generalizing busy previous offset found with
  | nil => cases busy <;> exact Or.inl member
  | cons c rest inductionHypothesis =>
      have beyond {busy : Nat} {found : List Tag}
          (member : tag ∈ collect busy (some c) (offset + 1) rest found) :
          tag ∈ found ∨ tag.start < offset + (c :: rest).length := by
        rcases inductionHypothesis member with isFound | isLater
        · exact Or.inl isFound
        · refine Or.inr ?_
          rw [List.length_cons]
          omega
      cases busy with
      | succ busy => exact beyond member
      | zero =>
          rw [collect] at member
          split at member
          next =>
            split at member
            next this isTag =>
              rcases beyond member with isThisOrFound | isLater
              · rcases List.mem_cons.mp isThisOrFound with isThis | isFound
                · refine Or.inr ?_
                  rw [isThis, start_of_at? isTag, List.length_cons]
                  omega
                · exact Or.inl isFound
              · exact Or.inr isLater
            next => exact beyond member
          next => exact beyond member

/-- Every tag of a masked source begins within it. -/
theorem start_lt_of_mem_scan {masked : Text} {tag : Tag} (member : tag ∈ scan masked) :
    tag.start < masked.length := by
  rcases start_lt_of_mem_collect (List.mem_reverse.mp member) with isEarlier | inside
  · simp at isEarlier
  · simpa using inside

/-! ## The stack of open tags -/

/-- What a tag does to the stack of the tags that are open, and what it leaves without a partner. -/
inductive StackStep (tag : Tag) : (stack next left : List Tag) -> Prop where
  | selfClosing {stack : List Tag} (isSelf : tag.kind = .selfClosing) : StackStep tag stack stack []
  | opening {stack : List Tag} (opens : tag.kind = .opening) : StackStep tag stack (tag :: stack) []
  | closing {innermost : Tag} {outer : List Tag} (closes : tag.kind = .closing)
      (sameName : innermost.name = tag.name) : StackStep tag (innermost :: outer) outer []
  | unpaired {stack : List Tag} (closes : tag.kind = .closing)
      (otherName : ∀ innermost ∈ stack.head?, innermost.name ≠ tag.name) : StackStep tag stack stack [tag]

theorem exists_stackStep (tag : Tag) (stack : List Tag) : ∃ next left, StackStep tag stack next left := by
  cases isKind : tag.kind with
  | selfClosing => exact ⟨_, _, .selfClosing isKind⟩
  | opening => exact ⟨_, _, .opening isKind⟩
  | closing =>
      cases stack with
      | nil => exact ⟨_, _, .unpaired isKind nofun⟩
      | cons innermost outer =>
          by_cases sameName : innermost.name = tag.name
          · exact ⟨_, _, .closing isKind sameName⟩
          · refine ⟨_, _, .unpaired isKind fun other isFirst => ?_⟩
            rwa [← Option.some.inj isFirst]

theorem unpaired_cons {tag : Tag} {stack next left : List Tag} (step : StackStep tag stack next left)
    (rest : List Tag) : unpaired stack (tag :: rest) = left ++ unpaired next rest := by
  rw [unpaired.eq_def]
  dsimp only
  cases step with
  | selfClosing isSelf => rw [isSelf, List.nil_append]
  | opening opens => rw [opens, List.nil_append]
  | closing closes sameName =>
      rw [closes]
      exact if_pos sameName
  | unpaired closes otherName =>
      rw [closes]
      cases stack with
      | nil => rfl
      | cons innermost outer => exact if_neg (otherName innermost rfl)

/-- Where no tag is left without a partner, the first one leaves none, and none behind it is. -/
theorem exists_stackStep_of_paired {tag : Tag} {stack rest : List Tag} (paired : unpaired stack (tag :: rest) = []) :
    ∃ next, StackStep tag stack next [] ∧ unpaired next rest = [] := by
  obtain ⟨next, left, step⟩ := exists_stackStep tag stack
  rw [unpaired_cons step] at paired
  obtain ⟨rfl, pairedRest⟩ := List.append_eq_nil_iff.mp paired
  exact ⟨next, step, pairedRest⟩

theorem StackStep.subset {tag : Tag} {stack next left : List Tag} (step : StackStep tag stack next left) :
    next ⊆ tag :: stack ∧ left ⊆ [tag] := by
  cases step with
  | selfClosing _ => exact ⟨List.subset_cons_self _ _, List.nil_subset _⟩
  | opening _ => exact ⟨List.Subset.refl _, List.nil_subset _⟩
  | closing _ _ => exact ⟨List.subset_cons_of_subset _ (List.subset_cons_self _ _), List.nil_subset _⟩
  | unpaired _ _ => exact ⟨List.subset_cons_self _ _, List.Subset.refl _⟩

theorem mem_of_mem_unpaired {stack tags : List Tag} {tag : Tag}
    (member : tag ∈ unpaired stack tags) : tag ∈ stack ∨ tag ∈ tags := by
  induction tags generalizing stack with
  | nil => exact Or.inl (by simpa [unpaired] using member)
  | cons first rest inductionHypothesis =>
      obtain ⟨next, left, step⟩ := exists_stackStep first stack
      rw [unpaired_cons step] at member
      rcases List.mem_append.mp member with isLeft | isLater
      · exact Or.inr (List.mem_singleton.mp (step.subset.2 isLeft) ▸ List.mem_cons_self)
      · rcases inductionHypothesis isLater with isOpen | isRest
        · rcases List.mem_cons.mp (step.subset.1 isOpen) with isFirst | wasOpen
          · exact Or.inr (isFirst ▸ List.mem_cons_self)
          · exact Or.inl wasOpen
        · exact Or.inr (List.mem_cons_of_mem first isRest)

theorem mem_of_mem_unbalanced {tags : List Tag} {tag : Tag} (member : tag ∈ unbalanced tags) :
    tag ∈ tags :=
  (mem_of_mem_unpaired (Order.mem_sort.mp member)).resolve_left List.not_mem_nil

end SceneBundler.Source.Tag
