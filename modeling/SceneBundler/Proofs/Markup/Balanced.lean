import SceneBundler.Proofs.Balance.Settled
import SceneBundler.Proofs.Markup.View

/-!
Contract: written markup is balanced.

Owns:
- that the brackets of shown markup balance and that its tags pair;
- that a source which declares an element is balanced and needs no repair, unless an opening tag is
  followed by an opening parenthesis;
- an element of the latter kind that is not balanced.

Does not own: what is shown of markup.
-/

namespace SceneBundler.Markup

open Character (continuesName)
open Source (BracketKind Tag)
open Balance (tally)

/-! ## Brackets -/

/-- Whether the brackets of a text balance. -/
def IsEven (text : Text) : Prop :=
  ∀ kind net lowest, lowest ≤ net → tally kind net lowest text = (net, lowest)

theorem IsEven.append {first second : Text} (evenFirst : IsEven first) (evenSecond : IsEven second) :
    IsEven (first ++ second) := by
  intro kind net lowest ordered
  rw [Balance.tally_append, evenFirst kind net lowest ordered]
  exact evenSecond kind net lowest ordered

theorem isEven_of_unmarked {text : Text} (unmarked : ∀ mark ∈ "()[]\x7b\x7d".toList, mark ∉ text) :
    IsEven text := by
  intro kind net lowest _
  refine Balance.tally_of_no_brackets net lowest (unmarked _ ?_) (unmarked _ ?_)
  · cases kind <;> decide
  · cases kind <;> decide

theorem Name.not_mem (name : Name) {mark : Char} (isMark : mark.isAlpha = false) :
    mark ∉ name.text := by
  intro member
  rw [name.letters mark member] at isMark
  contradiction

/-- No tag of a name holds a mark that is no letter, but for those it is made of. -/
theorem Name.not_mem_tags (name : Name) {mark : Char} (isMark : mark.isAlpha = false)
    (foreign : mark ∉ "</ >".toList) :
    mark ∉ name.openingTag ∧ mark ∉ name.closingTag ∧ mark ∉ name.singleTag := by
  have others : mark ≠ '<' ∧ mark ≠ '/' ∧ mark ≠ ' ' ∧ mark ≠ '>' := by
    have letters : "</ >".toList = ['<', '/', ' ', '>'] := by decide
    rw [letters] at foreign
    simpa using foreign
  simp [openingTag, closingTag, singleTag, name.not_mem isMark, others]

theorem Name.isEven_tags (name : Name) :
    IsEven name.openingTag ∧ IsEven name.closingTag ∧ IsEven name.singleTag := by
  have foreign : ∀ mark ∈ "()[]\x7b\x7d".toList, mark.isAlpha = false ∧ mark ∉ "</ >".toList :=
    Text.forall_mem_of_all (by decide)
  have apart (mark : Char) (isMark : mark ∈ "()[]\x7b\x7d".toList) :=
    name.not_mem_tags (foreign mark isMark).1 (foreign mark isMark).2
  exact ⟨isEven_of_unmarked fun mark isMark => (apart mark isMark).1,
    isEven_of_unmarked fun mark isMark => (apart mark isMark).2.1,
    isEven_of_unmarked fun mark isMark => (apart mark isMark).2.2⟩

theorem isEven_container (identifier : Identifier) : IsEven identifier.container := by
  have foreign : ∀ mark ∈ "()[]\x7b\x7d".toList, isIdentifierPart mark = false :=
    Text.forall_mem_of_all (by decide)
  have even : IsEven identifier.text := by
    refine isEven_of_unmarked fun mark isMark member => ?_
    have notPart := foreign mark isMark
    rw [identifier.parts mark member] at notPart
    exact Bool.noConfusion notPart
  intro kind net lowest ordered
  have split : identifier.container = ['\x7b'] ++ (identifier.text ++ ['\x7d']) := rfl
  rw [split, Balance.tally_append, Balance.tally_append]
  cases kind with
  | round => 
      have inside := even .round net lowest ordered
      simp [tally, inside, BracketKind.opener, BracketKind.closer]
  | square => 
      have inside := even .square net lowest ordered
      simp [tally, inside, BracketKind.opener, BracketKind.closer]
  | curly =>
      have inside := even .curly (net + 1) lowest (by omega)
      simp [tally, inside, BracketKind.opener, BracketKind.closer, Int.min_eq_left ordered]

theorem not_mem_blanked {mark : Char} (visible : mark ≠ ' ') (text : Text) : mark ∉ blanked text :=
  fun member => visible (List.eq_of_mem_replicate member)

theorem isEven_blanked (text : Text) : IsEven (blanked text) := by
  have visible : ∀ mark ∈ "()[]\x7b\x7d".toList, mark ≠ ' ' :=
    Text.forall_mem_of_all (by decide)
  exact isEven_of_unmarked fun mark isMark => not_mem_blanked (visible mark isMark) text

theorem isEven_around (name : Name) {inner : Text} (even : IsEven inner) :
    IsEven (name.around inner) :=
  name.isEven_tags.1.append (even.append name.isEven_tags.2.1)

theorem isEven_children (children : Children) : IsEven (children.written blanked) := by
  induction children with
  | none => exact fun _ _ _ _ => rfl
  | paired name inner after evenInner evenAfter => exact (isEven_around name evenInner).append evenAfter
  | single name after evenAfter => exact name.isEven_tags.2.2.append evenAfter
  | container identifier after evenAfter => exact (isEven_container identifier).append evenAfter
  | run text after evenAfter => exact (isEven_blanked text.text).append evenAfter

theorem isEven_element (element : Element) : IsEven (element.written blanked) := by
  cases element with
  | paired name inner => exact isEven_around name (isEven_children inner)
  | single name => exact name.isEven_tags.2.2

/-! ## Tags -/

/-- Whether the tags of a text, wherever it stands behind no name, pair among themselves, and a name
directly behind the text is none of its own. -/
def Nests (text : Text) : Prop :=
  ∀ previous : Option Char, previous.any continuesName = false →
    (text.getLast?.or previous).any continuesName = false ∧
    ∀ offset, ∃ tags : List Tag,
      (∀ stack rest, Tag.unpaired stack (tags ++ rest) = Tag.unpaired stack rest) ∧
      ∀ following found, Tag.collect 0 previous offset (text ++ following) found =
        Tag.collect 0 (text.getLast?.or previous) (offset + text.length) following
          (tags.reverse ++ found)

theorem Nests.append {first second : Text} (nestsFirst : Nests first) (nestsSecond : Nests second) :
    Nests (first ++ second) := by
  intro previous apart
  obtain ⟨apartBetween, tagsFirst⟩ := nestsFirst previous apart
  obtain ⟨apartBehind, tagsSecond⟩ := nestsSecond _ apartBetween
  rw [List.getLast?_append, Option.or_assoc]
  refine ⟨apartBehind, fun offset => ?_⟩
  obtain ⟨tags, paired, collected⟩ := tagsFirst offset
  obtain ⟨others, pairedOthers, collectedOthers⟩ := tagsSecond (offset + first.length)
  refine ⟨tags ++ others, ?_, ?_⟩
  · intro stack rest
    rw [List.append_assoc, paired, pairedOthers]
  · intro following found
    rw [List.append_assoc, collected, collectedOthers, List.reverse_append, List.append_assoc,
      List.length_append, Nat.add_assoc]

theorem nests_of_no_less {text : Text} (noLess : '<' ∉ text)
    (apart : text.getLast?.any continuesName = false) : Nests text := by
  intro previous apartBefore
  refine ⟨?_, fun offset => ⟨[], fun _ _ => rfl, ?_⟩⟩
  · cases last : text.getLast? with
    | none => exact apartBefore
    | some c => rwa [last] at apart
  · intro following found
    rw [Tag.collect_append_of_no_less noLess]
    rfl

/-- The characters of a tag behind its first are passed over. -/
theorem collect_busy (text : Text) (previous : Option Char) (offset : Nat) (following : Text)
    (found : List Tag) :
    Tag.collect text.length previous offset (text ++ following) found =
      Tag.collect 0 (text.getLast?.or previous) (offset + text.length) following found := by
  induction text generalizing previous offset with
  | nil => rfl
  | cons c rest inductionHypothesis =>
      rw [List.length_cons, List.cons_append, Tag.collect, inductionHypothesis, List.getLast?_cons]
      congr 1
      · cases rest.getLast? <;> rfl
      · omega

theorem collect_less {previous : Option Char} {offset : Nat} {ahead following : Text} {tag : Tag}
    (isTag : Tag.at? previous offset (ahead ++ following) = some tag)
    (stop : tag.stop = offset + 1 + ahead.length) (found : List Tag) :
    Tag.collect 0 previous offset ('<' :: ahead ++ following) found =
      Tag.collect 0 (('<' :: ahead).getLast?.or previous) (offset + ('<' :: ahead).length) following
        (tag :: found) := by
  have busy : tag.stop - offset - 1 = ahead.length := by omega
  rw [List.cons_append, Tag.collect, if_pos rfl, isTag]
  dsimp only
  rw [busy, collect_busy, List.getLast?_cons, List.length_cons]
  congr 1
  · cases ahead.getLast? <;> rfl
  · omega

/-- A tag of a name as it stands at an offset. -/
def Name.tagAt (name : Name) (kind : Source.TagKind) (ahead : Text) (offset : Nat) : Tag :=
  ⟨name.text, offset, offset + 1 + ahead.length, kind⟩

theorem at?_openingTag (name : Name) {previous : Option Char}
    (apart : previous.any continuesName = false) (offset : Nat) (following : Text) :
    Tag.at? previous offset ((name.text ++ ['>']) ++ following) =
      some (name.tagAt .opening (name.text ++ ['>']) offset) := by
  obtain ⟨c, rest, isText, letter⟩ := name.exists_cons
  have notSlash : c ≠ '/' := ne_of_isAlpha letter '/' (by decide)
  have notEnd : c ≠ '>' := ne_of_isAlpha letter '>' (by decide)
  have isName := read?_name name '>' (by decide) following
  have first : (name.text ++ '>' :: following).head? = some c := by rw [isText]; rfl
  have tail : Tag.tail? 0 false 0 ('>' :: following) = some (1, false) := rfl
  rw [List.append_assoc, List.singleton_append]
  unfold Tag.at?
  simp [apart, first, notSlash, notEnd, isName, tail, Name.tagAt, Nat.add_assoc]

theorem at?_singleTag (name : Name) {previous : Option Char}
    (apart : previous.any continuesName = false) (offset : Nat) (following : Text) :
    Tag.at? previous offset ((name.text ++ [' ', '/', '>']) ++ following) =
      some (name.tagAt .selfClosing (name.text ++ [' ', '/', '>']) offset) := by
  obtain ⟨c, rest, isText, letter⟩ := name.exists_cons
  have notSlash : c ≠ '/' := ne_of_isAlpha letter '/' (by decide)
  have notEnd : c ≠ '>' := ne_of_isAlpha letter '>' (by decide)
  have isName := read?_name name ' ' (by decide) ('/' :: '>' :: following)
  have first : (name.text ++ ' ' :: '/' :: '>' :: following).head? = some c := by rw [isText]; rfl
  have tail : Tag.tail? 0 false 0 (' ' :: '/' :: '>' :: following) = some (3, true) := rfl
  rw [List.append_assoc, List.cons_append, List.cons_append, List.singleton_append]
  unfold Tag.at?
  simp [apart, first, notSlash, notEnd, isName, tail, Name.tagAt, Nat.add_assoc]

theorem at?_closingTag (name : Name) {previous : Option Char}
    (apart : previous.any continuesName = false) (offset : Nat) (following : Text) :
    Tag.at? previous offset (('/' :: (name.text ++ ['>'])) ++ following) =
      some (name.tagAt .closing ('/' :: (name.text ++ ['>'])) offset) := by
  obtain ⟨c, rest, isText, letter⟩ := name.exists_cons
  have notEnd : c ≠ '>' := ne_of_isAlpha letter '>' (by decide)
  have isName := read?_name name '>' (by decide) following
  have first : (name.text ++ '>' :: following).head? = some c := by rw [isText]; rfl
  have tail : Tag.tail? 0 false 0 ('>' :: following) = some (1, false) := rfl
  rw [List.cons_append, List.append_assoc, List.singleton_append]
  unfold Tag.at?
  simp [apart, first, notEnd, isName, tail, Name.tagAt]
  omega

theorem apart_behind_tag : (some '>').any continuesName = false := by
  decide

theorem getLast?_tags (name : Name) (previous : Option Char) :
    name.openingTag.getLast?.or previous = some '>' ∧
    name.closingTag.getLast?.or previous = some '>' ∧
    name.singleTag.getLast?.or previous = some '>' := by
  simp [Name.openingTag, Name.closingTag, Name.singleTag, List.getLast?_cons, List.getLast?_append]

theorem nests_singleTag (name : Name) : Nests name.singleTag := by
  intro previous apart
  have last := (getLast?_tags name previous).2.2
  refine ⟨last ▸ apart_behind_tag, fun offset => ?_⟩
  refine ⟨[name.tagAt .selfClosing (name.text ++ [' ', '/', '>']) offset], fun _ _ => rfl, ?_⟩
  intro following found
  exact collect_less (at?_singleTag name apart offset following) rfl found

theorem unpaired_around (name : Name) {tags : List Tag}
    (paired : ∀ stack rest, Tag.unpaired stack (tags ++ rest) = Tag.unpaired stack rest)
    (ahead behind : Text) (offset reached : Nat) (stack rest : List Tag) :
    Tag.unpaired stack (name.tagAt .opening ahead offset ::
      (tags ++ [name.tagAt .closing behind reached]) ++ rest) = Tag.unpaired stack rest := by
  have opened (others : List Tag) : Tag.unpaired stack (name.tagAt .opening ahead offset :: others) =
      Tag.unpaired (name.tagAt .opening ahead offset :: stack) others := by
    simp [Tag.unpaired, Name.tagAt]
  rw [List.cons_append, List.append_assoc, opened, paired, List.singleton_append]
  simp [Tag.unpaired, Name.tagAt]

theorem nests_around (name : Name) {inner : Text} (nests : Nests inner) :
    Nests (name.around inner) := by
  intro previous apart
  obtain ⟨apartInside, tagsInside⟩ := nests (some '>') apart_behind_tag
  have lastBehind : (name.around inner).getLast?.or previous = some '>' := by
    rw [Name.around, List.getLast?_append, List.getLast?_append, Option.or_assoc, Option.or_assoc]
    exact (getLast?_tags name _).2.1
  rw [lastBehind]
  refine ⟨apart_behind_tag, fun offset => ?_⟩
  obtain ⟨tags, paired, collected⟩ := tagsInside (offset + name.openingTag.length)
  refine ⟨_, unpaired_around name paired (name.text ++ ['>']) ('/' :: (name.text ++ ['>'])) offset
    (offset + name.openingTag.length + inner.length), ?_⟩
  intro following found
  have openingRead := collect_less (at?_openingTag name apart offset
    (inner ++ (name.closingTag ++ following))) rfl found
  have closingRead := collect_less (at?_closingTag name apartInside
    (offset + name.openingTag.length + inner.length) following) rfl
  have lastOpening := (getLast?_tags name previous).1
  have lastClosing := (getLast?_tags name (inner.getLast?.or (some '>'))).2.1
  rw [Name.openingTag] at lastOpening
  rw [Name.closingTag] at lastClosing
  rw [lastOpening] at openingRead
  rw [lastClosing] at closingRead
  have split : name.around inner ++ following =
      name.openingTag ++ (inner ++ (name.closingTag ++ following)) := by
    simp [Name.around]
  have reached : offset + name.openingTag.length + inner.length + name.closingTag.length =
      offset + (name.around inner).length := by
    simp only [Name.around, List.length_append]
    omega
  rw [split, ← reached]
  refine openingRead.trans ((collected _ _).trans ((closingRead _).trans ?_))
  simp only [List.reverse_cons, List.reverse_append, List.reverse_nil, List.append_assoc]
  rfl

theorem nests_container (identifier : Identifier) : Nests identifier.container := by
  have notPart : isIdentifierPart '<' = false := by decide
  refine nests_of_no_less ?_ ?_
  · intro member
    have inside : '<' ∈ identifier.text := by
      simpa [Identifier.container] using member
    rw [identifier.parts '<' inside] at notPart
    contradiction
  · have last : identifier.container.getLast? = some '\x7d' := by
      simp [Identifier.container, List.getLast?_cons]
    rw [last]
    decide

theorem nests_blanked (text : Text) : Nests (blanked text) := by
  refine nests_of_no_less (not_mem_blanked (by decide) text) ?_
  rw [blanked, List.getLast?_replicate]
  split
  · rfl
  · decide

theorem nests_children (children : Children) : Nests (children.written blanked) := by
  induction children with
  | none => exact nests_of_no_less List.not_mem_nil rfl
  | paired name inner after nestsInner nestsAfter =>
      exact (nests_around name nestsInner).append nestsAfter
  | single name after nestsAfter => exact (nests_singleTag name).append nestsAfter
  | container identifier after nestsAfter => exact (nests_container identifier).append nestsAfter
  | run text after nestsAfter => exact (nests_blanked text.text).append nestsAfter

theorem nests_element (element : Element) : Nests (element.written blanked) := by
  cases element with
  | paired name inner => exact nests_around name (nests_children inner)
  | single name => exact nests_singleTag name

theorem Nests.unpaired_eq_nil {text : Text} (nests : Nests text) :
    Tag.unpaired [] (Tag.scan text) = [] := by
  obtain ⟨tags, paired, collected⟩ := (nests none rfl).2 0
  have scanned := collected [] []
  rw [List.append_nil, List.append_nil] at scanned
  have none := paired [] []
  rw [List.append_nil] at none
  rw [Tag.scan, scanned]
  simpa [Tag.collect, Tag.unpaired] using none

/-! ## Documents -/

theorem problems_document (element : Element) :
    Balance.problems ("const el = ".toList ++ (element.written blanked ++ [';', '\n'])) = [] := by
  have unmarked : ∀ mark ∈ "()[]\x7b\x7d".toList,
      mark ∉ "const el = ".toList ∧ mark ∉ [';', '\n'] := Text.forall_mem_of_all (by decide)
  have even := (isEven_of_unmarked fun mark isMark => (unmarked mark isMark).1).append
    ((isEven_element element).append
      (isEven_of_unmarked fun mark isMark => (unmarked mark isMark).2))
  have lead : Nests "const el = ".toList :=
    nests_of_no_less (by decide) (by decide)
  have tail : Nests [';', '\n'] := nests_of_no_less (by decide) (by decide)
  have nests := lead.append ((nests_element element).append tail)
  refine Balance.problems_eq_nil_iff.mpr ⟨fun kind => ?_, nests.unpaired_eq_nil⟩
  rw [Balance.excess_eq_zero_iff, even kind 0 0 (Int.le_refl 0)]
  exact ⟨rfl, rfl⟩

/-- A source that declares an element with no opening parenthesis behind an opening tag is balanced, and
its repair leaves it as it is. -/
theorem document_is_balanced (element : Element) (callFree : element.isCallFree = true) :
    Balance.describe element.document = [] ∧
      Balance.repair element.document = (element.document, []) := by
  have balanced : Balance.describe element.document = [] := by
    rw [Balance.describe_eq_nil_iff, mask_document callFree]
    exact problems_document element
  exact ⟨balanced, Balance.repair_of_balanced balanced⟩

/-- An element with elements, text, a container and an element that closes itself inside it. -/
def notice : Element :=
  let name (text : Text) (nonempty : text ≠ []) (letters : ∀ c ∈ text, c.isAlpha = true) : Name :=
    ⟨text, nonempty, letters⟩
  .paired (name "div".toList (by decide) (Text.forall_mem_of_all (by decide)))
    (.paired (name "b".toList (by decide) (Text.forall_mem_of_all (by decide)))
      (.run ⟨"it's (almost) done".toList, by decide, Text.forall_mem_of_all (by decide)⟩ .none)
      (.container ⟨"count".toList, by decide, Text.forall_mem_of_all (by decide)⟩
        (.single (name "br".toList (by decide) (Text.forall_mem_of_all (by decide))) .none)))

theorem notice_is_balanced :
    notice.document = "const el = <div><b>it's (almost) done</b>\x7bcount\x7d<br /></div>;\n".toList ∧
      notice.isCallFree = true ∧ Balance.describe notice.document = [] ∧
        Balance.repair notice.document = (notice.document, []) := by
  have callFree : notice.isCallFree = true := by decide
  exact ⟨by decide, callFree, document_is_balanced notice callFree⟩

/-- An element whose inner opening tag is followed by an opening parenthesis. -/
def aside : Element :=
  .paired ⟨"p".toList, by decide, Text.forall_mem_of_all (by decide)⟩
    (.paired ⟨"b".toList, by decide, Text.forall_mem_of_all (by decide)⟩
      (.run ⟨"(optional)".toList, by decide, Text.forall_mem_of_all (by decide)⟩ .none) .none)

/-- The inner opening tag is taken for a list of type parameters, so it is hidden with the text around
it and its closing tag stands alone. -/
theorem aside_is_not_balanced :
    aside.document = "const el = <p><b>(optional)</b></p>;\n".toList ∧
      Balance.describe aside.document = "unpaired </b> on line 1".toList ∧
        Balance.repair aside.document ≠ (aside.document, []) := by
  decide

end SceneBundler.Markup
