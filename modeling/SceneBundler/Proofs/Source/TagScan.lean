import SceneBundler.Proofs.Source.BalancedWord
import SceneBundler.Proofs.Source.Locality
import SceneBundler.Proofs.Text.Scan

/-!
Contract: the tags of a masked source as the scan finds them.

Owns:
- tags that are recognised where they stand, whatever else stands around them;
- that the scan finds just those of them that begin within no other tag it finds;
- what stands in a masked text for a tag: its `<`, perhaps a slash, its name, and what follows through its
  `>`;
- that the braces of a tag are balanced, and that what could end it stands within them;
- that the tags of a scan stand one behind another, each written from its `<` through its `>`;
- that the tag which closes another one stands behind it.

Does not own: how a tag is recognised.
-/

namespace SceneBundler.Source.Tag

/-- A tag that is recognised where it stands in a masked text, within another tag or not. -/
def IsRecognised (masked : Text) (tag : Tag) : Prop :=
  ∃ passed ahead, masked = passed ++ '<' :: ahead ∧
    at? passed.getLast? passed.length ahead = some tag

/-- A tag that begins behind the `<` of another tag and before its end. -/
def BeginsWithin (tag other : Tag) : Prop :=
  other.start < tag.start ∧ tag.start < other.stop

theorem collect_eq_append (busy : Nat) (previous : Option Char) (offset : Nat) (text : Text)
    (found : List Tag) :
    collect busy previous offset text found = collect busy previous offset text [] ++ found := by
  induction text generalizing busy previous offset found with
  | nil => simp [collect]
  | cons c rest inductionHypothesis =>
      cases busy with
      | succ busy => exact inductionHypothesis busy (some c) (offset + 1) found
      | zero =>
          rw [collect, collect]
          split
          next =>
            split
            next tag isTag =>
              rw [inductionHypothesis _ _ _ (tag :: found), inductionHypothesis _ _ _ [tag],
                List.append_assoc]
              rfl
            next => exact inductionHypothesis 0 (some c) (offset + 1) found
          next => exact inductionHypothesis 0 (some c) (offset + 1) found

/-- What a scan of the text behind a cut finds, latest first, when it goes over `busy` characters
before it looks for tags: recognised tags apart from each other, and every tag that begins in none of
them. -/
structure Scans (passed ahead : Text) (busy : Nat) (tags : List Tag) : Prop where
  recognised : ∀ tag ∈ tags, ∃ more rest, ahead = more ++ '<' :: rest ∧ busy ≤ more.length ∧
    at? (passed ++ more).getLast? (passed ++ more).length rest = some tag
  apart : tags.Pairwise fun later earlier => earlier.stop ≤ later.start
  complete : ∀ more rest tag, ahead = more ++ '<' :: rest →
    at? (passed ++ more).getLast? (passed ++ more).length rest = some tag →
      more.length < busy ∨ tag ∈ tags ∨ ∃ other ∈ tags, tag.BeginsWithin other

namespace Scans

variable {passed rest : Text} {busy : Nat} {tags : List Tag} {c : Char}

/-- The tags that are recognised behind a character are recognised with it. -/
theorem recognised_cons (scans : Scans (passed ++ [c]) rest busy tags) : ∀ tag ∈ tags,
    ∃ more following, c :: rest = more ++ '<' :: following ∧ busy < more.length ∧
      at? (passed ++ more).getLast? (passed ++ more).length following = some tag := by
  intro tag member
  obtain ⟨more, following, split, reached, isTag⟩ := scans.recognised tag member
  refine ⟨c :: more, following, by rw [split]; rfl, Nat.lt_succ_of_le reached, ?_⟩
  rwa [List.append_cons]

theorem nil (passed : Text) (busy : Nat) : Scans passed [] busy [] where
  recognised := fun _ member => absurd member List.not_mem_nil
  apart := .nil
  complete := by
    intro more following tag split
    simp at split

/-- A character of a tag that was found already. -/
theorem pass (scans : Scans (passed ++ [c]) rest busy tags) :
    Scans passed (c :: rest) (busy + 1) tags where
  recognised := scans.recognised_cons
  apart := scans.apart
  complete := by
    intro more following tag split isTag
    cases more with
    | nil => exact Or.inl (Nat.succ_pos busy)
    | cons d others =>
        obtain ⟨rfl, isRest⟩ := List.cons.inj split
        rw [List.append_cons] at isTag
        exact (scans.complete others following tag isRest isTag).imp_left Nat.succ_lt_succ

/-- A character that begins no tag. -/
theorem skip (scans : Scans (passed ++ [c]) rest 0 tags)
    (noTag : c = '<' → at? passed.getLast? passed.length rest = none) :
    Scans passed (c :: rest) 0 tags where
  recognised := by
    intro tag member
    obtain ⟨more, following, split, _, isTag⟩ := scans.recognised_cons tag member
    exact ⟨more, following, split, Nat.zero_le _, isTag⟩
  apart := scans.apart
  complete := by
    intro more following tag split isTag
    cases more with
    | nil =>
        obtain ⟨isLess, rfl⟩ := List.cons.inj split
        rw [List.append_nil, noTag isLess] at isTag
        contradiction
    | cons d others =>
        obtain ⟨rfl, isRest⟩ := List.cons.inj split
        rw [List.append_cons] at isTag
        exact (scans.complete others following tag isRest isTag).imp_left (absurd · (Nat.not_lt_zero _))

/-- The `<` of a tag. -/
theorem take {found : Tag} (isFound : at? passed.getLast? passed.length rest = some found)
    (scans : Scans (passed ++ ['<']) rest (found.stop - passed.length - 1) tags) :
    Scans passed ('<' :: rest) 0 (tags ++ [found]) where
  recognised := by
    intro tag member
    rcases List.mem_append.mp member with isLater | isHere
    · obtain ⟨more, following, split, _, isTag⟩ := scans.recognised_cons tag isLater
      exact ⟨more, following, split, Nat.zero_le _, isTag⟩
    · obtain rfl := List.mem_singleton.mp isHere
      exact ⟨[], rest, rfl, Nat.zero_le _, by rwa [List.append_nil]⟩
  apart := by
    refine List.pairwise_append.mpr ⟨scans.apart, List.pairwise_singleton _ _, ?_⟩
    intro tag isLater other isHere
    obtain rfl := List.mem_singleton.mp isHere
    obtain ⟨more, following, _, reached, isTag⟩ := scans.recognised_cons tag isLater
    rw [start_of_at? isTag, List.length_append]
    omega
  complete := by
    intro more following tag split isTag
    right
    cases more with
    | nil =>
        obtain ⟨_, rfl⟩ := List.cons.inj split
        rw [List.append_nil, isFound] at isTag
        obtain rfl := Option.some.inj isTag
        exact Or.inl (List.mem_append_right _ (List.mem_singleton_self _))
    | cons d others =>
        obtain ⟨rfl, isRest⟩ := List.cons.inj split
        have start := start_of_at? isTag
        have foundStart := start_of_at? isFound
        rw [List.length_append, List.length_cons] at start
        rw [List.append_cons] at isTag
        rcases scans.complete others following tag isRest isTag with inFound | isLater | inLater
        · have within : tag.BeginsWithin found := ⟨by omega, by omega⟩
          exact Or.inr ⟨found, List.mem_append_right _ (List.mem_singleton_self _), within⟩
        · exact Or.inl (List.mem_append_left _ isLater)
        · obtain ⟨other, isOther, within⟩ := inLater
          exact Or.inr ⟨other, List.mem_append_left _ isOther, within⟩

end Scans

theorem scans_collect (passed ahead : Text) (busy : Nat) :
    Scans passed ahead busy (collect busy passed.getLast? passed.length ahead []) := by
  induction ahead generalizing passed busy with
  | nil =>
      cases busy with
      | zero => exact Scans.nil passed 0
      | succ busy => exact Scans.nil passed (busy + 1)
  | cons c rest inductionHypothesis =>
      have behind (busy : Nat) : Scans (passed ++ [c]) rest busy
          (collect busy (some c) (passed.length + 1) rest []) := by
        have scans := inductionHypothesis (passed ++ [c]) busy
        rwa [List.getLast?_concat, List.length_append, List.length_singleton] at scans
      cases busy with
      | succ busy => exact (behind busy).pass
      | zero =>
          rw [collect]
          split
          next isLess =>
            subst isLess
            split
            next found isFound =>
              rw [collect_eq_append]
              exact Scans.take isFound (behind _)
            next noTag => exact (behind 0).skip fun _ => noTag
          next other => exact (behind 0).skip fun isLess => absurd isLess other

variable {masked : Text} {tag : Tag}

theorem isRecognised_of_mem_scan (member : tag ∈ scan masked) : IsRecognised masked tag := by
  obtain ⟨more, rest, split, _, isTag⟩ :=
    (scans_collect [] masked 0).recognised tag (List.mem_reverse.mp member)
  exact ⟨more, rest, split, isTag⟩

/-- No tag that the scan finds begins within another one. -/
theorem not_beginsWithin_of_mem_scan {other : Tag} (member : tag ∈ scan masked)
    (isOther : other ∈ scan masked) : ¬tag.BeginsWithin other := by
  rintro ⟨after, before⟩
  have apart := List.pairwise_iff_getElem.mp (scans_collect [] masked 0).apart
  obtain ⟨position, inside, rfl⟩ := List.mem_iff_getElem.mp (List.mem_reverse.mp member)
  obtain ⟨otherPosition, otherInside, rfl⟩ := List.mem_iff_getElem.mp (List.mem_reverse.mp isOther)
  rcases Nat.lt_trichotomy position otherPosition with isLater | same | isEarlier
  · exact Nat.not_lt.mpr (apart position otherPosition inside otherInside isLater) before
  · subst same
    exact Nat.lt_irrefl _ after
  · obtain ⟨_, _, _, isTag⟩ := isRecognised_of_mem_scan member
    have ends := start_lt_stop_of_at? isTag
    exact Nat.not_lt.mpr (apart otherPosition position otherInside inside isEarlier) (after.trans ends)

/-- The scan finds just the tags that begin within no other tag it finds. -/
theorem mem_scan_iff : tag ∈ scan masked ↔
    IsRecognised masked tag ∧ ∀ other ∈ scan masked, ¬tag.BeginsWithin other := by
  constructor
  · exact fun member => ⟨isRecognised_of_mem_scan member, fun other => not_beginsWithin_of_mem_scan member⟩
  · rintro ⟨⟨passed, ahead, split, isTag⟩, outside⟩
    rcases (scans_collect [] masked 0).complete passed ahead tag split isTag with
      busy | member | ⟨other, isOther, within⟩
    · exact absurd busy (Nat.not_lt_zero _)
    · exact List.mem_reverse.mpr member
    · exact absurd within (outside other (List.mem_reverse.mpr isOther))

end SceneBundler.Source.Tag

namespace SceneBundler

namespace TagName

/-- A tag's name is read through its last character. -/
theorem exists_of_read? {text name : Text} (isName : read? text = some name) :
    ∃ rest, text = name ++ rest ∧ rest.head?.any continues = false ∧ ∀ c ∈ name, continues c = true := by
  obtain ⟨c, rest, starts, rfl, rfl⟩ := exists_cons_of_read? isName
  refine ⟨rest.dropWhile continues, by rw [List.cons_append, List.takeWhile_append_dropWhile], ?_, ?_⟩
  · cases ends : rest.dropWhile continues with
    | nil => rfl
    | cons d later =>
        have stops := @List.head_dropWhile_not _ continues rest (by simp [ends])
        simpa [ends] using stops
  · intro d member
    rcases List.mem_cons.mp member with rfl | isLater
    · rw [continues, Pattern.continuesName_of_startsName starts]
      rfl
    · exact List.all_eq_true.mp List.all_takeWhile d isLater

theorem ne_nil_of_read? {text name : Text} (isName : read? text = some name) : name ≠ [] := by
  obtain ⟨c, rest, _, _, rfl⟩ := exists_cons_of_read? isName
  exact List.cons_ne_nil _ _

theorem continuesName_of_continues {c : Char} (stops : continues c = false) :
    Character.continuesName c = false := by
  simp only [continues, Bool.or_eq_false_iff] at stops
  exact stops.1.1.1

end TagName

namespace Source.Tag

/-- A character that ends a tag, begins another one, or ends a statement. -/
def isTagMark (c : Char) : Bool :=
  c == '<' || c == '>' || c == ';'

/-- Whether a text can stand between the name of a tag and its `>`, behind some open braces: its braces
close these and pair among themselves, and what could end a tag stands within braces. -/
structure IsAttributes (depth : Nat) (inner : Text) : Prop where
  closes : isBalancedFrom .curly depth inner = true
  within : ∀ front c back, inner = front ++ c :: back → isTagMark c = true →
    front.count '}' < depth + front.count '{'

namespace IsAttributes

variable {depth : Nat} {c : Char} {inner : Text}

theorem nil : IsAttributes 0 [] where
  closes := rfl
  within := by simp

/-- One more character in front, behind as many open braces as it leaves the others behind. -/
theorem behind (attributes : IsAttributes depth inner) {outer : Nat}
    (closes : isBalancedFrom .curly outer (c :: inner) = true)
    (counted : depth + [c].count '}' = outer + [c].count '{') (inside : isTagMark c = true → 0 < outer) :
    IsAttributes outer (c :: inner) where
  closes := closes
  within := by
    intro front d back split isMark
    cases front with
    | nil =>
        obtain rfl := (List.cons.inj split).1
        simpa using inside isMark
    | cons e front =>
        obtain ⟨rfl, isInner⟩ := List.cons.inj split
        have within := attributes.within front d back isInner isMark
        rw [← List.singleton_append, List.count_append, List.count_append]
        omega

theorem open_brace (attributes : IsAttributes (depth + 1) inner) : IsAttributes depth ('{' :: inner) :=
  attributes.behind attributes.closes rfl nofun

theorem close_brace (attributes : IsAttributes depth inner) : IsAttributes (depth + 1) ('}' :: inner) :=
  attributes.behind attributes.closes rfl nofun

/-- Any other character can stand there within braces, and outside them if it is no mark of a tag. -/
theorem cons (attributes : IsAttributes depth inner) (noOpener : c ≠ '{') (noCloser : c ≠ '}')
    (inside : isTagMark c = true → 0 < depth) : IsAttributes depth (c :: inner) := by
  refine attributes.behind ?_ ?_ inside
  · rw [isBalancedFrom_cons, if_neg (show c ≠ BracketKind.curly.opener from noOpener),
      if_neg (show c ≠ BracketKind.curly.closer from noCloser)]
    exact attributes.closes
  · rw [List.count_cons_of_ne noCloser, List.count_cons_of_ne noOpener]
    rfl

end IsAttributes

/-- The end of a tag is the first `>` outside its braces, and whether it closes itself tells the character
in front. -/
theorem exists_of_tail? {depth passed length : Nat} {slash ends : Bool} {text : Text}
    (isTail : tail? depth slash passed text = some (length, ends)) :
    ∃ inner rest, text = inner ++ '>' :: rest ∧ length = passed + inner.length + 1 ∧
      IsAttributes depth inner ∧ ends = (inner.getLast?.map (· == '/')).getD slash := by
  induction text generalizing depth slash passed with
  | nil => contradiction
  | cons c rest inductionHypothesis =>
      have later {outer : Nat}
          (keeps : ∀ inner, IsAttributes outer inner → IsAttributes depth (c :: inner))
          (isTail : tail? outer (c == '/') (passed + 1) rest = some (length, ends)) :
          ∃ inner following, c :: rest = inner ++ '>' :: following ∧ length = passed + inner.length + 1 ∧
            IsAttributes depth inner ∧ ends = (inner.getLast?.map (· == '/')).getD slash := by
        obtain ⟨inner, following, split, reached, attributes, isEnd⟩ := inductionHypothesis isTail
        refine ⟨c :: inner, following, by rw [split]; rfl, ?_, keeps inner attributes, ?_⟩
        · rw [reached, List.length_cons]
          omega
        · rw [isEnd, List.getLast?_cons]
          cases inner.getLast? <;> rfl
      rw [tail?.eq_def] at isTail
      dsimp only at isTail
      split at isTail
      next opens =>
        subst opens
        exact later (fun _ attributes => attributes.open_brace) isTail
      next noOpener =>
        split at isTail
        next closes =>
          subst closes
          cases depth with
          | zero => contradiction
          | succ outer => exact later (fun _ attributes => attributes.close_brace) isTail
        next noCloser =>
          split at isTail
          next ended =>
            obtain ⟨isOutside, isEnd⟩ := Bool.and_eq_true_iff.mp ended
            obtain rfl := beq_iff_eq.mp isEnd
            obtain rfl := of_decide_eq_true isOutside
            obtain ⟨reached, isSlash⟩ := Prod.mk.inj (Option.some.inj isTail)
            exact ⟨[], rest, rfl, by rw [← reached]; rfl, .nil, isSlash.symm⟩
          next goesOn =>
            split at isTail
            next => contradiction
            next noMark =>
              refine later (fun _ attributes => attributes.cons noOpener noCloser fun isMark => ?_) isTail
              by_contra isOutside
              obtain rfl := Nat.eq_zero_of_not_pos isOutside
              simp_all [isTagMark]

/-- What stands for a tag at a cut of a text. -/
structure HasShape (tag : Tag) (passed lead inner rest : Text) : Prop where
  apart : passed.getLast?.any Character.continuesName = false
  slash : lead = [] ∧ tag.kind ≠ .closing ∨ lead = ['/'] ∧ tag.kind = .closing
  start : tag.start = passed.length
  stop : tag.stop = (passed ++ '<' :: (lead ++ (tag.name ++ (inner ++ ['>'])))).length
  named : ∀ c ∈ tag.name, TagName.continues c = true
  ends : (inner ++ '>' :: rest).head?.any TagName.continues = false

/-- What stands behind the name of a tag, and whether the tag closes itself. -/
structure HasAttributes (tag : Tag) (inner : Text) : Prop where
  isAttributes : IsAttributes 0 inner
  fragment : tag.name = [] → inner = []
  selfCloses : tag.kind = .selfClosing ↔ tag.kind ≠ .closing ∧ inner.getLast? = some '/'

theorem exists_hasShape {passed ahead : Text} {tag : Tag}
    (isTag : at? passed.getLast? passed.length ahead = some tag) :
    ∃ lead inner rest, ahead = lead ++ (tag.name ++ (inner ++ '>' :: rest)) ∧
      tag.HasShape passed lead inner rest ∧ tag.HasAttributes inner := by
  rw [at?] at isTag
  split at isTag
  next => contradiction
  next apart =>
    have isApart : passed.getLast?.any Character.continuesName = false := by simpa using apart
    obtain ⟨lead, named, split, closes⟩ : ∃ lead named, ahead = lead ++ named ∧
        (lead = [] ∧ (ahead.head? == some '/') = false ∨ lead = ['/'] ∧ (ahead.head? == some '/') = true) := by
      by_cases closes : (ahead.head? == some '/') = true
      · obtain ⟨rest, rfl⟩ := List.head?_eq_some_iff.mp (beq_iff_eq.mp closes)
        exact ⟨['/'], rest, rfl, Or.inr ⟨rfl, closes⟩⟩
      · exact ⟨[], ahead, rfl, Or.inl ⟨rfl, by simpa using closes⟩⟩
    have leadLength : (if (ahead.head? == some '/') = true then 1 else 0) = lead.length := by
      rcases closes with ⟨rfl, opens⟩ | ⟨rfl, closes⟩
      · rw [opens]
        rfl
      · rw [closes]
        rfl
    dsimp only at isTag
    rw [leadLength, show ahead.drop lead.length = named by rw [split, List.drop_left]] at isTag
    split at isTag
    next isFragment =>
      obtain ⟨rest, rfl⟩ := List.head?_eq_some_iff.mp (beq_iff_eq.mp isFragment)
      obtain rfl := Option.some.inj isTag
      refine ⟨lead, [], rest, split, ⟨isApart, ?_, rfl, ?_, nofun, rfl⟩, .nil, fun _ => rfl, ?_⟩
      · rcases closes with ⟨isLead, closes⟩ | ⟨isLead, closes⟩
        · exact Or.inl ⟨isLead, by simp [closes]⟩
        · exact Or.inr ⟨isLead, by simp [closes]⟩
      · simp
        omega
      · dsimp only
        cases ahead.head? == some '/' <;> simp
    next =>
      split at isTag
      next => contradiction
      next name isName =>
        obtain ⟨behind, isNamed, stops, continues⟩ := TagName.exists_of_read? isName
        rw [isNamed, List.drop_left] at isTag
        split at isTag
        next => contradiction
        next length slash isTail =>
          obtain ⟨inner, rest, rfl, reached, attributes, isSlash⟩ := exists_of_tail? isTail
          obtain rfl := Option.some.inj isTag
          refine ⟨lead, inner, rest, by rw [split, isNamed], ⟨isApart, ?_, rfl, ?_, continues, stops⟩,
            attributes, fun noName => absurd noName (TagName.ne_nil_of_read? isName), ?_⟩
          · rcases closes with ⟨isLead, closes⟩ | ⟨isLead, closes⟩
            · refine Or.inl ⟨isLead, ?_⟩
              simp only [closes]
              cases slash <;> simp
            · refine Or.inr ⟨isLead, ?_⟩
              simp [closes]
          · simp [reached]
            omega
          · subst isSlash
            dsimp only
            cases inner.getLast? with
            | none => cases ahead.head? == some '/' <;> simp
            | some last => by_cases isSlash : last = '/' <;> cases ahead.head? == some '/' <;> simp [isSlash]

theorem exists_hasShape_of_mem_scan {masked : Text} {tag : Tag} (member : tag ∈ scan masked) :
    ∃ passed lead inner rest, masked = passed ++ '<' :: (lead ++ (tag.name ++ (inner ++ '>' :: rest))) ∧
      tag.HasShape passed lead inner rest := by
  obtain ⟨passed, ahead, rfl, isTag⟩ := isRecognised_of_mem_scan member
  obtain ⟨lead, inner, rest, rfl, shape, _⟩ := exists_hasShape isTag
  exact ⟨passed, lead, inner, rest, rfl, shape⟩

namespace HasShape

variable {tag : Tag} {passed lead inner rest : Text}

theorem nameStart_eq (shape : tag.HasShape passed lead inner rest) :
    tag.nameStart = (passed ++ '<' :: lead).length := by
  rw [nameStart, shape.start, List.length_append]
  rcases shape.slash with ⟨rfl, opens⟩ | ⟨rfl, closes⟩
  · rw [if_neg opens]
    rfl
  · rw [if_pos closes]
    rfl

/-- The mark in front of the name of a tag is part of no name. -/
theorem exists_mark (shape : tag.HasShape passed lead inner rest) :
    ∃ mark, (passed ++ '<' :: lead).getLast? = some mark ∧ TagName.continues mark = false := by
  rcases shape.slash with ⟨rfl, _⟩ | ⟨rfl, _⟩
  · exact ⟨'<', by simp, by decide⟩
  · exact ⟨'/', by simp, by decide⟩

end HasShape

/-! ## Tags in order -/

theorem pairwise_scan (masked : Text) :
    (scan masked).Pairwise fun first second => first.stop ≤ second.start :=
  List.pairwise_reverse.mpr (scans_collect [] masked 0).apart

/-! ## Spans -/

/-- Whether a stretch of text is what is written for a tag: a `<`, a slash if the tag closes another one, the
whole name, and balanced braces outside which no mark stands in front of the `>` at its end. -/
structure IsSpanOf (tag : Tag) (span : Text) : Prop where
  written : ∃ inner, (inner ++ ['>']).head?.any TagName.continues = false ∧
    span = '<' :: ((if tag.kind = .closing then ['/'] else []) ++ (tag.name ++ (inner ++ ['>'])))
  balanced : IsBalancedWord .curly span
  alone : ∀ front c back, span = front ++ c :: back → front ≠ [] → back ≠ [] → isTagMark c = true →
    0 < braceDepthAt span front.length
  closes : tag.kind = .closing ↔ ['<', '/'] <+: span
  selfCloses : tag.kind = .selfClosing ↔ tag.kind ≠ .closing ∧ ['/', '>'] <:+ span

section Spans

variable {tag : Tag} {passed lead inner rest : Text}

/-- Neither a slash nor the letters of a name are braces or marks. -/
theorem HasShape.not_mark (shape : tag.HasShape passed lead inner rest) :
    ∀ c ∈ lead ++ tag.name, isTagMark c = false ∧ c ≠ '{' ∧ c ≠ '}' := by
  intro c member
  rcases List.mem_append.mp member with isLead | isNamed
  · rcases shape.slash with ⟨rfl, _⟩ | ⟨rfl, _⟩
    · contradiction
    · rw [List.mem_singleton.mp isLead]
      decide
  · have continues := shape.named c isNamed
    refine ⟨?_, ?_, ?_⟩
    · by_contra isMark
      simp only [isTagMark, Bool.not_eq_false, Bool.or_eq_true, beq_iff_eq] at isMark
      rcases isMark with (rfl | rfl) | rfl <;> exact absurd continues (by decide)
    · rintro rfl
      exact absurd continues (by decide)
    · rintro rfl
      exact absurd continues (by decide)

theorem suffix_slash_iff {text : Text} : ['/', '>'] <:+ text ++ ['>'] ↔ text.getLast? = some '/' := by
  rw [List.getLast?_eq_some_iff]
  constructor
  · rintro ⟨front, split⟩
    refine ⟨front, ?_⟩
    rw [show front ++ ['/', '>'] = front ++ ['/'] ++ ['>'] by simp] at split
    exact (List.append_cancel_right split).symm
  · rintro ⟨front, rfl⟩
    exact ⟨front, by simp⟩

/-- The head of a tag adds nothing to the depth of the braces behind it. -/
theorem braceDepthAt_behind_head {head : Text} (noOpener : '{' ∉ head) (noCloser : '}' ∉ head)
    (inside behind : Text) :
    braceDepthAt ('<' :: (head ++ (inside ++ behind))) ('<' :: (head ++ inside)).length =
      inside.count '{' - inside.count '}' := by
  have isFront : ('<' :: (head ++ (inside ++ behind))).take ('<' :: (head ++ inside)).length =
      '<' :: (head ++ inside) := by
    rw [← List.append_assoc head]
    exact List.take_left
  rw [braceDepthAt, isFront, List.count_cons_of_ne (by decide), List.count_cons_of_ne (by decide),
    List.count_append, List.count_append, List.count_eq_zero.mpr noOpener, List.count_eq_zero.mpr noCloser,
    Nat.zero_add, Nat.zero_add]

/-- The head of a tag and the `>` at its end are no braces. -/
theorem isBalancedWord_of_inner {head : Text} (noBraces : ∀ c ∈ head, c ≠ '{' ∧ c ≠ '}')
    (isBalanced : IsBalancedWord .curly inner) : IsBalancedWord .curly ('<' :: (head ++ (inner ++ ['>']))) := by
  have noneInHead : BracketKind.curly.bracketsOf head = [] := by
    refine List.filter_eq_nil_iff.mpr fun c member => ?_
    obtain ⟨noOpener, noCloser⟩ := noBraces c member
    simp [BracketKind.opener, BracketKind.closer, noOpener, noCloser]
  refine (isBalancedWord_congr ?_).mp isBalanced
  rw [BracketKind.bracketsOf] at noneInHead ⊢
  rw [BracketKind.bracketsOf, List.filter_cons_of_neg (by decide), List.filter_append, noneInHead,
    List.filter_append, List.filter_cons_of_neg (by decide), List.filter_nil, List.append_nil, List.nil_append]

/-- A mark between the `<` and the `>` of a tag stands within braces of its attributes. -/
theorem braceDepthAt_pos_of_isTagMark {head : Text}
    (noMark : ∀ c ∈ head, isTagMark c = false ∧ c ≠ '{' ∧ c ≠ '}') (attributes : IsAttributes 0 inner)
    {front back : Text} {c : Char} (split : '<' :: (head ++ (inner ++ ['>'])) = front ++ c :: back)
    (someFront : front ≠ []) (someBack : back ≠ []) (isMark : isTagMark c = true) :
    0 < braceDepthAt ('<' :: (head ++ (inner ++ ['>']))) front.length := by
  obtain ⟨first, front, rfl⟩ := List.exists_cons_of_ne_nil someFront
  obtain ⟨back, last, rfl⟩ := (List.eq_nil_or_concat back).resolve_left someBack
  obtain ⟨rfl, split⟩ := List.cons.inj split
  have isWhole : head ++ inner ++ ['>'] = front ++ c :: back ++ [last] := by simpa using split
  obtain ⟨isInner, -⟩ := List.append_inj' isWhole rfl
  have reached : head.length ≤ front.length := by
    by_contra before
    obtain ⟨extra, isHead, isRest⟩ := Text.exists_between isInner.symm (by omega)
    cases extra with
    | nil => simp [isHead] at before
    | cons d extra =>
        obtain ⟨rfl, -⟩ := List.cons.inj isRest
        have plain := (noMark c (by simp [isHead])).1
        rw [isMark] at plain
        contradiction
  obtain ⟨extra, rfl, rfl⟩ := Text.exists_between isInner reached
  have inside := attributes.within extra c back rfl isMark
  have noOpener : '{' ∉ head := fun member => (noMark _ member).2.1 rfl
  have noCloser : '}' ∉ head := fun member => (noMark _ member).2.2 rfl
  rw [List.append_assoc extra, braceDepthAt_behind_head noOpener noCloser]
  omega

/-- Only the slash of a closing tag stands directly behind its `<`: a name has no slash, and the `>` of a
fragment stands there itself. -/
theorem HasShape.closing_iff (shape : tag.HasShape passed lead inner rest) (attributes : tag.HasAttributes inner) :
    tag.kind = .closing ↔ ['<', '/'] <+: '<' :: (lead ++ (tag.name ++ (inner ++ ['>']))) := by
  rcases shape.slash with ⟨rfl, opens⟩ | ⟨rfl, closes⟩
  · refine iff_of_false opens ?_
    rintro ⟨more, split⟩
    obtain ⟨-, isSlash⟩ := List.cons.inj split
    cases isName : tag.name with
    | nil =>
        rw [isName, attributes.fragment isName] at isSlash
        exact absurd (List.cons.inj isSlash).1 (by decide)
    | cons c name =>
        rw [isName] at isSlash
        have continues := shape.named c (by simp [isName])
        rw [← (List.cons.inj isSlash).1] at continues
        exact absurd continues (by decide)
  · exact iff_of_true closes ⟨_, rfl⟩

/-- In a tag that does not close another one, only the attributes end with a slash. -/
theorem HasShape.ends_slash_iff (shape : tag.HasShape passed lead inner rest) (opens : tag.kind ≠ .closing) :
    ['/', '>'] <:+ '<' :: (lead ++ (tag.name ++ (inner ++ ['>']))) ↔ inner.getLast? = some '/' := by
  obtain ⟨rfl, -⟩ := shape.slash.resolve_right fun isClosing => opens isClosing.2
  rw [show '<' :: ([] ++ (tag.name ++ (inner ++ ['>']))) = '<' :: (tag.name ++ inner) ++ ['>'] by simp,
    suffix_slash_iff, ← List.cons_append, List.getLast?_append]
  cases isLast : inner.getLast? with
  | some last => rfl
  | none =>
      refine iff_of_false (fun isSlash => ?_) nofun
      have member : '/' ∈ '<' :: tag.name := List.mem_of_getLast? isSlash
      have isNamed := List.mem_of_ne_of_mem (by decide) member
      exact absurd (shape.named _ isNamed) (by decide)

theorem isSpanOf_of_hasShape (shape : tag.HasShape passed lead inner rest) (attributes : tag.HasAttributes inner) :
    IsSpanOf tag ('<' :: (lead ++ (tag.name ++ (inner ++ ['>'])))) where
  written := by
    refine ⟨inner, ?_, ?_⟩
    · have ends := shape.ends
      cases inner <;> exact ends
    · rcases shape.slash with ⟨rfl, opens⟩ | ⟨rfl, closes⟩
      · rw [if_neg opens]
      · rw [if_pos closes]
  balanced := by
    rw [← List.append_assoc lead]
    exact isBalancedWord_of_inner (fun c member => (shape.not_mark c member).2)
      (isBalanced_iff.mp attributes.isAttributes.closes)
  alone := by
    rw [← List.append_assoc lead]
    exact fun _ _ _ => braceDepthAt_pos_of_isTagMark shape.not_mark attributes.isAttributes
  closes := shape.closing_iff attributes
  selfCloses := by
    rw [attributes.selfCloses]
    exact and_congr_right fun opens => (shape.ends_slash_iff opens).symm

end Spans

/-- The scan of a masked text ends with tags one behind another, each of them written from its start to its
end; and it finds every tag that is recognised where it stands and begins in none that is found. -/
theorem scan_isOrdered (masked : Text) :
    (scan masked).Pairwise (fun first second => first.start < second.start ∧ first.stop ≤ second.start) ∧
    (∀ tag ∈ scan masked, tag.start < tag.stop ∧ tag.stop ≤ masked.length ∧
      IsSpanOf tag (Text.slice masked tag.start tag.stop)) ∧
    ∀ tag, IsRecognised masked tag → tag ∈ scan masked ∨ ∃ other ∈ scan masked, tag.BeginsWithin other := by
  have spans (tag : Tag) (member : tag ∈ scan masked) : tag.start < tag.stop ∧ tag.stop ≤ masked.length ∧
      IsSpanOf tag (Text.slice masked tag.start tag.stop) := by
    obtain ⟨passed, ahead, rfl, isTag⟩ := isRecognised_of_mem_scan member
    obtain ⟨lead, inner, rest, rfl, shape, attributes⟩ := exists_hasShape isTag
    have split : passed ++ '<' :: (lead ++ (tag.name ++ (inner ++ '>' :: rest))) =
        passed ++ ('<' :: (lead ++ (tag.name ++ (inner ++ ['>']))) ++ rest) := by simp
    have stop := shape.stop
    rw [List.length_append] at stop
    have isSpan := isSpanOf_of_hasShape shape attributes
    rw [split, Text.slice_eq passed rest rfl shape.start stop]
    refine ⟨start_lt_stop_of_at? isTag, ?_, isSpan⟩
    rw [stop, List.length_append, List.length_append, Nat.add_le_add_iff_left]
    exact Nat.le_add_right _ _
  refine ⟨(pairwise_scan masked).imp_of_mem fun isFirst _ apart => ?_, spans, fun tag isTag => ?_⟩
  · exact ⟨Nat.lt_of_lt_of_le (spans _ isFirst).1 apart, apart⟩
  · by_contra isLost
    obtain ⟨notFound, outside⟩ := not_or.mp isLost
    exact notFound (mem_scan_iff.mpr ⟨isTag, fun other isOther within => outside ⟨other, isOther, within⟩⟩)

/-! ## Closing tags -/

theorem le_of_closingPosition? {name : Text} {depth position found : Nat} {tags : List Tag}
    (isFound : closingPosition? name depth position tags = some found) : position ≤ found := by
  induction tags generalizing depth position with
  | nil => contradiction
  | cons tag rest inductionHypothesis =>
      rw [closingPosition?.eq_def] at isFound
      dsimp only at isFound
      split at isFound
      next =>
        split at isFound
        next => exact Nat.le_of_succ_le (inductionHypothesis isFound)
        next => exact Nat.le_of_succ_le (inductionHypothesis isFound)
        next =>
          cases depth with
          | zero => exact Nat.le_of_eq (Option.some.inj isFound)
          | succ outer => exact Nat.le_of_succ_le (inductionHypothesis isFound)
      next => exact Nat.le_of_succ_le (inductionHypothesis isFound)

theorem lt_of_findClosing? {tags : List Tag} {position found : Nat}
    (isFound : findClosing? tags position = some found) : position < found := by
  rw [findClosing?] at isFound
  split at isFound
  next => contradiction
  next => exact le_of_closingPosition? isFound

end Source.Tag

end SceneBundler
