import SceneBundler.Proofs.Source.Embedded
import SceneBundler.Proofs.Text.Blank
import SceneBundler.Text.Basic

/-!
Contract: markup as a tree, its source text, and the masked view of this text.

Owns:
- elements with tag names of ASCII letters, whose children are elements, one-line text and single
  identifiers in braces, and how each of them is written;
- the elements in which no opening tag is followed by an opening parenthesis;
- that each tag of an element is read as a tag, unless it looks like a list of type parameters;
- that the masked view of an element blanks its text and keeps its tags and containers;
- the masked view of a source that declares an element.

Does not own: what is unbalanced in that view.
-/

namespace SceneBundler.Markup

open Character (isBlank)
open Source (Frame Reading Region HeadStart headStart? headLength? isQuiet)
open Source.Reading (Takes)

/-- A tag name of ASCII letters. -/
structure Name where
  text : Text
  nonempty : text ≠ []
  letters : ∀ c ∈ text, c.isAlpha = true

/-- A character that an identifier can hold: an ASCII letter or digit, an underscore, a dollar sign, or
a character beyond ASCII. -/
def isIdentifierPart (c : Char) : Bool :=
  Character.isAsciiWord c || 0x80 ≤ c.toNat

/-- An identifier.  Nothing is asked of it but the characters it consists of. -/
structure Identifier where
  text : Text
  nonempty : text ≠ []
  parts : ∀ c ∈ text, isIdentifierPart c = true

/-- A character that text between tags can hold: one that neither ends the line nor belongs to a tag or
a container. -/
def isTextPart (c : Char) : Bool :=
  !"<>\x7b\x7d\n".toList.contains c

/-- One-line text between tags. -/
structure Run where
  text : Text
  nonempty : text ≠ []
  parts : ∀ c ∈ text, isTextPart c = true

/-- The children of an element in order: each constructor is a first child with those after it. -/
inductive Children where
  | none
  | paired (name : Name) (inner after : Children)
  | single (name : Name) (after : Children)
  | container (identifier : Identifier) (after : Children)
  | run (text : Run) (after : Children)

/-- An element with children, or one that closes itself. -/
inductive Element where
  | paired (name : Name) (inner : Children)
  | single (name : Name)

/-! ## Writing -/

namespace Name

def openingTag (name : Name) : Text :=
  '<' :: (name.text ++ ['>'])

def closingTag (name : Name) : Text :=
  '<' :: '/' :: (name.text ++ ['>'])

def singleTag (name : Name) : Text :=
  '<' :: (name.text ++ [' ', '/', '>'])

/-- Text between the two tags of a name. -/
def around (name : Name) (inner : Text) : Text :=
  name.openingTag ++ (inner ++ name.closingTag)

end Name

def Identifier.container (identifier : Identifier) : Text :=
  '\x7b' :: (identifier.text ++ ['\x7d'])

/-- Children as they are written, with the text between tags in a given form. -/
def Children.written (form : Text -> Text) : Children -> Text
  | none => []
  | paired name inner after => name.around (inner.written form) ++ after.written form
  | single name after => name.singleTag ++ after.written form
  | container identifier after => identifier.container ++ after.written form
  | run text after => form text.text ++ after.written form

/-- An element as it is written, with the text between tags in a given form. -/
def Element.written (form : Text -> Text) : Element -> Text
  | paired name inner => name.around (inner.written form)
  | single name => name.singleTag

/-- A source that declares an element. -/
def Element.document (element : Element) : Text :=
  "const el = ".toList ++ (element.written id ++ [';', '\n'])

/-! ## Parentheses behind tags -/

/-- Whether a text begins with an opening parenthesis after any blanks. -/
def startsCall (text : Text) : Bool :=
  (Text.trimStart text).head? == some '('

/-- Whether no opening tag among children is followed by an opening parenthesis. -/
def Children.isCallFree : Children -> Bool
  | none => true
  | paired _ inner after => !startsCall (inner.written id) && (inner.isCallFree && after.isCallFree)
  | single _ after => after.isCallFree
  | container _ after => after.isCallFree
  | run _ after => after.isCallFree

/-- Whether no opening tag of an element is followed by an opening parenthesis. -/
def Element.isCallFree : Element -> Bool
  | paired _ inner => !startsCall (inner.written id) && inner.isCallFree
  | single _ => true

/-! ## Heads of tags -/

theorem Name.exists_cons (name : Name) : ∃ c rest, name.text = c :: rest ∧ c.isAlpha = true := by
  cases isText : name.text with
  | nil => exact absurd isText name.nonempty
  | cons c rest => exact ⟨c, rest, rfl, name.letters c (by rw [isText]; exact List.mem_cons_self)⟩

theorem ne_of_isAlpha {c : Char} (letter : c.isAlpha = true) (mark : Char)
    (isMark : mark.isAlpha = false) : c ≠ mark := by
  intro same
  rw [same, isMark] at letter
  contradiction

theorem continues_of_isAlpha {c : Char} (letter : c.isAlpha = true) :
    TagName.continues c = true := by
  have isWord := Character.isWord_of_isAlphanum (Character.isAlphanum_of_isAlpha letter)
  simp [TagName.continues, Character.continuesName, isWord]

theorem read?_name (name : Name) (mark : Char) (ends : TagName.continues mark = false)
    (following : Text) : TagName.read? (name.text ++ mark :: following) = some name.text := by
  obtain ⟨c, rest, isText, letter⟩ := name.exists_cons
  have letters : ∀ d ∈ rest, TagName.continues d = true := by
    intro d member
    exact continues_of_isAlpha (name.letters d (by rw [isText]; exact List.mem_cons_of_mem c member))
  have starts : Character.startsName c = true := by
    simp [Character.startsName, letter]
  rw [isText, List.cons_append, TagName.read?, if_pos starts,
    List.takeWhile_append_of_pos letters, List.takeWhile_cons_of_neg (by simp [ends]),
    List.append_nil]

theorem headStart?_openingTag (name : Name) {following : Text}
    (noCall : startsCall following = false) :
    headStart? (name.text ++ '>' :: following) = some ⟨name.text, false, name.text.length⟩ := by
  obtain ⟨c, rest, isText, letter⟩ := name.exists_cons
  have notSlash : c ≠ '/' := ne_of_isAlpha letter '/' (by decide)
  have notEnd : c ≠ '>' := ne_of_isAlpha letter '>' (by decide)
  have isName := read?_name name '>' (by decide) following
  have notTypes : Source.isTypeParameterList [] following = false := by
    have noTail : Source.typeParameterTail.startsText [] = false := by decide
    rw [Source.isTypeParameterList, noTail]
    simpa [startsCall] using noCall
  have headEnd : headLength? none 0 0 ('>' :: following) = some 1 := by
    simp [headLength?, Source.isQuote]
  have first : (name.text ++ '>' :: following).head? = some c := by rw [isText]; rfl
  unfold headStart?
  dsimp only
  simp only [first, Option.some_beq_some, beq_false_of_ne notSlash, Bool.false_eq_true, if_false,
    List.drop_zero, beq_false_of_ne notEnd, isName, List.drop_left, headEnd]
  simp [notTypes, Text.trim, Text.trimStart, Text.trimEnd]

theorem headStart?_singleTag (name : Name) (following : Text) :
    headStart? (name.text ++ ' ' :: '/' :: '>' :: following) =
      some ⟨name.text, false, name.text.length⟩ := by
  obtain ⟨c, rest, isText, letter⟩ := name.exists_cons
  have notSlash : c ≠ '/' := ne_of_isAlpha letter '/' (by decide)
  have notEnd : c ≠ '>' := ne_of_isAlpha letter '>' (by decide)
  have isName := read?_name name ' ' (by decide) ('/' :: '>' :: following)
  have notTypes : Source.isTypeParameterList ['/'] following = false := by
    have noTail : Source.typeParameterTail.startsText ['/'] = false := by decide
    rw [Source.isTypeParameterList, noTail]
    rfl
  have headEnd : headLength? none 0 0 (' ' :: '/' :: '>' :: following) = some 3 := by
    have blankStays : Source.headRejects.contains ' ' = false := by decide
    have slashStays : Source.headRejects.contains '/' = false := by decide
    simp only [headLength?, blankStays, slashStays]
    rfl
  have attributes : Text.trim [' ', '/'] = ['/'] := by decide
  have first : (name.text ++ ' ' :: '/' :: '>' :: following).head? = some c := by rw [isText]; rfl
  unfold headStart?
  dsimp only
  simp only [first, Option.some_beq_some, beq_false_of_ne notSlash, Bool.false_eq_true, if_false,
    List.drop_zero, beq_false_of_ne notEnd, isName, List.drop_left, headEnd]
  simp [attributes, notTypes]

theorem headStart?_closingTag (name : Name) (following : Text) :
    headStart? ('/' :: (name.text ++ '>' :: following)) =
      some ⟨name.text, true, 1 + name.text.length⟩ := by
  obtain ⟨c, rest, isText, letter⟩ := name.exists_cons
  have notEnd : c ≠ '>' := ne_of_isAlpha letter '>' (by decide)
  have isName := read?_name name '>' (by decide) following
  have headEnd : headLength? none 0 0 ('>' :: following) = some 1 := by
    simp [headLength?, Source.isQuote]
  have first : (name.text ++ '>' :: following).head? = some c := by rw [isText]; rfl
  unfold headStart?
  simp [first, notEnd, isName, headEnd]

/-! ## Reading children -/

/-- Reading a line of code or markup that is not blank, outside all braces and templates. -/
def inline (region : Region) (before : Text) (heads elements : List Frame) : Reading :=
  ⟨region, before, false, heads, elements, [], 0⟩

/-- Whether a tag that stands here is read as one: between the tags of an element, or where an operand
is expected. -/
def TakesTags (reading : Reading) : Prop :=
  ∀ ahead start, headStart? ahead = some start → reading.read '<' ahead = (true, reading.enterHead start)

/-- Frames of elements that stand outside all braces. -/
def AreOutside (frames : List Frame) : Prop :=
  ∀ frame ∈ frames, frame.depth = 0

theorem takesTags_inElement {frame : Frame} {outer : List Frame} (outside : frame.depth = 0)
    (before : Text) : TakesTags (inline .code before [] (frame :: outer)) := by
  intro ahead start isHead
  simp [inline, Reading.read, Reading.readCode, Reading.inHead, Reading.inElement, outside,
    Reading.readElement, isHead]

theorem takes_held {text : Text} (noBreak : '\n' ∉ text) (resume : Region) (before : Text)
    (heads elements : List Frame) :
    Takes (inline (.hold true text.length resume) before heads elements) text text
      (inline resume (text.reverse ++ before) heads elements) := by
  induction text generalizing before with
  | nil => exact Takes.nil _
  | cons c rest inductionHypothesis =>
      have notBreak : c ≠ '\n' := fun same => noBreak (by simp [same])
      have step (ahead : Text) :
          (inline (.hold true (c :: rest).length resume) before heads elements).advance c ahead =
            inline (.hold true rest.length resume) (c :: before) heads elements := by
        simp [inline, Region.hold, Reading.advance, Reading.read, Reading.shown, notBreak]
      have reversed : (c :: rest).reverse ++ before = rest.reverse ++ c :: before := by simp
      rw [reversed]
      exact Takes.cons step rfl
        (inductionHypothesis (fun member => noBreak (List.mem_cons_of_mem c member)) _)

theorem Name.noBreak (name : Name) : '\n' ∉ name.text :=
  fun member => absurd (name.letters '\n' member) (by decide)

/-- What is read of a text before a given one. -/
def TakesBefore (following : Text) (reading : Reading) (text shown : Text) (next : Reading) : Prop :=
  reading.viewBefore following text = shown ∧ reading.readBefore following text = next

theorem TakesBefore.append {following : Text} {reading middle next : Reading}
    {first second firstShown secondShown : Text}
    (takesFirst : TakesBefore (second ++ following) reading first firstShown middle)
    (takesSecond : TakesBefore following middle second secondShown next) :
    TakesBefore following reading (first ++ second) (firstShown ++ secondShown) next := by
  refine ⟨?_, ?_⟩
  · rw [Reading.viewBefore_append, takesFirst.1, takesFirst.2, takesSecond.1]
  · rw [Reading.readBefore_append, takesFirst.2, takesSecond.2]

/-- The first character of a tag, where the tag is read as one. -/
theorem takesBefore_less {following ahead : Text} {before : Text} {elements : List Frame}
    {start : HeadStart} (takesTags : TakesTags (inline .code before [] elements))
    (isHead : headStart? (ahead ++ following) = some start) {shown : Text} {next : Reading}
    (takesRest : TakesBefore following
      (inline (.hold true start.length .code) ('<' :: before) [⟨0, start.name, start.closing⟩] elements)
      ahead shown next) :
    TakesBefore following (inline .code before [] elements) ('<' :: ahead) ('<' :: shown) next := by
  have stepped : (inline .code before [] elements).advance '<' (ahead ++ following) =
      inline (.hold true start.length .code) ('<' :: before) [⟨0, start.name, start.closing⟩]
        elements := by
    rw [Reading.advance, takesTags _ _ isHead]
    simp [inline, Reading.enterHead, Reading.shown]
  refine ⟨?_, ?_⟩
  · rw [Reading.viewBefore, stepped, takesRest.1, takesTags _ _ isHead]
    rfl
  · rw [Reading.readBefore, stepped, takesRest.2]

theorem takesBefore_openingTag (name : Name) {before : Text} {elements : List Frame}
    (takesTags : TakesTags (inline .code before [] elements)) {following : Text}
    (noCall : startsCall following = false) :
    TakesBefore following (inline .code before [] elements) name.openingTag name.openingTag
      (inline .code (name.openingTag.reverse ++ before) [] (⟨0, name.text, false⟩ :: elements)) := by
  have isHead : headStart? ((name.text ++ ['>']) ++ following) =
      some ⟨name.text, false, name.text.length⟩ := by
    rw [List.append_assoc]
    exact headStart?_openingTag name noCall
  have reversed : name.openingTag.reverse ++ before =
      '>' :: (name.text.reverse ++ '<' :: before) := by
    simp [Name.openingTag]
  rw [reversed]
  refine takesBefore_less takesTags isHead ?_
  refine TakesBefore.append (takes_held name.noBreak .code _ _ _ _) ?_
  have step (ahead : Text) :
      (inline .code (name.text.reverse ++ '<' :: before) [⟨0, name.text, false⟩] elements).advance
        '>' ahead =
      inline .code ('>' :: (name.text.reverse ++ '<' :: before)) [] (⟨0, name.text, false⟩ :: elements) := by
    simp [inline, Reading.advance, Reading.read, Reading.readCode, Reading.inHead, Reading.readHead,
      Source.isQuote, Reading.leaveHead, Reading.shown]
  exact Takes.cons step rfl (Takes.nil _) following

/-- Reading the head of a tag, with some characters of it shown. -/
def inTag (reading : Reading) (name : Name) (region : Region) (shown : Text) : Reading :=
  { reading with
    region
    before := shown.reverse ++ reading.before
    lineIsBlank := false
    heads := ⟨reading.depth, name.text, false⟩ :: reading.heads }

theorem takes_inTag (reading : Reading) (name : Name) {text : Text} (noBreak : '\n' ∉ text) (shown : Text) :
    Takes (inTag reading name (.hold true text.length .code) shown) text text
      (inTag reading name .code (shown ++ text)) := by
  induction text generalizing shown with
  | nil =>
      rw [List.append_nil]
      exact Takes.nil _
  | cons c rest inductionHypothesis =>
      have notBreak : c ≠ '\n' := fun same => noBreak (by simp [same])
      have step (ahead : Text) :
          (inTag reading name (.hold true (c :: rest).length .code) shown).advance c ahead =
            inTag reading name (.hold true rest.length .code) (shown ++ [c]) := by
        simp [inTag, Region.hold, Reading.advance, Reading.read, Reading.shown, notBreak]
      rw [List.append_cons]
      apply Takes.cons step
      · simp [inTag]
      · exact inductionHypothesis (fun member => noBreak (List.mem_cons_of_mem c member)) _

/-- A tag that closes itself is shown as it is wherever it is read as a tag. -/
theorem takes_past_singleTag {reading : Reading} (isCode : reading.region = .code)
    (takesTags : TakesTags reading) (name : Name) :
    Takes reading name.singleTag name.singleTag (reading.past name.singleTag false) := by
  intro following
  have reads : reading.read '<' (name.text ++ [' ', '/', '>'] ++ following) =
      (true, reading.enterHead ⟨name.text, false, name.text.length⟩) := by
    apply takesTags
    rw [List.append_assoc]
    exact headStart?_singleTag name following
  have opens : reading.advance '<' (name.text ++ [' ', '/', '>'] ++ following) =
      inTag reading name (.hold true name.text.length .code) ['<'] := by
    have visible : isBlank '<' = false := by decide
    rw [Reading.advance, reads]
    simp [Reading.enterHead, inTag, Reading.shown, visible]
  have closes : TakesBefore following (inTag reading name .code ('<' :: name.text)) [' ', '/', '>']
      [' ', '/', '>'] (reading.past name.singleTag false) := by
    constructor
    · simp [Reading.viewBefore, Reading.advance, Reading.read, Reading.readCode, inTag, Reading.inHead,
        Reading.readHead, Source.isQuote, Reading.shown, Reading.leaveHead, Region.hold]
    · simp [Reading.readBefore, Reading.advance, Reading.read, Reading.readCode, inTag, Reading.inHead,
        Reading.readHead, Source.isQuote, Reading.shown, Reading.leaveHead, Region.hold, Reading.past,
        Name.singleTag, isCode]
  have whole := TakesBefore.append (takes_inTag reading name name.noBreak ['<'] ([' ', '/', '>'] ++ following))
    closes
  constructor
  · show Reading.viewBefore following reading ('<' :: (name.text ++ [' ', '/', '>'])) = _
    rw [Reading.viewBefore, opens, whole.1, reads]
    rfl
  · show Reading.readBefore following reading ('<' :: (name.text ++ [' ', '/', '>'])) = _
    rw [Reading.readBefore, opens, whole.2]

theorem takes_singleTag (name : Name) {before : Text} {elements : List Frame}
    (takesTags : TakesTags (inline .code before [] elements)) :
    Takes (inline .code before [] elements) name.singleTag name.singleTag
      (inline .code (name.singleTag.reverse ++ before) [] elements) :=
  takes_past_singleTag rfl takesTags name

/-- In code, a tag is read as one where an operand is expected. -/
theorem takesTags_of_expectsOperand {reading : Reading} (inCode : reading.InCode)
    (expects : Source.expectsOperand reading.window = true) : TakesTags reading := by
  intro ahead start isHead
  rw [inCode.read_eq]
  simp [Reading.readPlain, Source.isQuote, expects, isHead]

theorem takesBefore_closingTag (name : Name) (before : Text) (outer : List Frame)
    (following : Text) :
    TakesBefore following (inline .code before [] (⟨0, name.text, false⟩ :: outer))
      name.closingTag name.closingTag
      (inline .code (name.closingTag.reverse ++ before) [] outer) := by
  have isHead : headStart? (('/' :: name.text ++ ['>']) ++ following) =
      some ⟨name.text, true, 1 + name.text.length⟩ := by
    rw [List.append_assoc]
    exact headStart?_closingTag name following
  have reversed : name.closingTag.reverse ++ before =
      '>' :: (('/' :: name.text).reverse ++ '<' :: before) := by
    simp [Name.closingTag]
  have noBreak : '\n' ∉ '/' :: name.text := by
    simp [name.noBreak]
  have sameLength : 1 + name.text.length = ('/' :: name.text).length := by
    rw [List.length_cons]
    omega
  rw [reversed]
  refine takesBefore_less (takesTags_inElement rfl before) isHead ?_
  dsimp only
  rw [sameLength]
  refine TakesBefore.append (takes_held noBreak .code _ _ _ _) ?_
  have step (ahead : Text) :
      (inline .code (('/' :: name.text).reverse ++ '<' :: before) [⟨0, name.text, true⟩]
        (⟨0, name.text, false⟩ :: outer)).advance '>' ahead =
      inline .code ('>' :: (('/' :: name.text).reverse ++ '<' :: before)) [] outer := by
    simp [inline, Reading.advance, Reading.read, Reading.readCode, Reading.inHead, Reading.readHead,
      Source.isQuote, Reading.leaveHead, Reading.shown, Source.outsideNamed?]
  exact Takes.cons step rfl (Takes.nil _) following

/-! ## Children -/

/-- Text of the same length that holds only spaces. -/
def blanked (text : Text) : Text :=
  List.replicate text.length ' '

theorem takes_run {text : Text} (parts : ∀ c ∈ text, isTextPart c = true) {frame : Frame}
    {outer : List Frame} (outside : frame.depth = 0) (before : Text) :
    Takes (inline .code before [] (frame :: outer)) text (blanked text)
      (inline .code ((blanked text).reverse ++ before) [] (frame :: outer)) := by
  induction text generalizing before with
  | nil => exact Takes.nil _
  | cons c rest inductionHypothesis =>
      have here := parts c List.mem_cons_self
      have ne {mark : Char} (isMark : isTextPart mark = false) : c ≠ mark := by
        intro same
        rw [same, isMark] at here
        contradiction
      have notLess : c ≠ '<' := ne (by decide)
      have notOpener : c ≠ '\x7b' := ne (by decide)
      have notCloser : c ≠ '\x7d' := ne (by decide)
      have notBreak : c ≠ '\n' := ne (by decide)
      have step (ahead : Text) : (inline .code before [] (frame :: outer)).advance c ahead =
          inline .code (' ' :: before) [] (frame :: outer) := by
        simp [inline, Reading.advance, Reading.read, Reading.readCode, Reading.inHead,
          Reading.inElement, outside, Reading.readElement, Reading.readText, Reading.leavesMarkup,
          Reading.shown, notLess, notOpener, notCloser, notBreak]
      have reversed : (blanked (c :: rest)).reverse ++ before =
          (blanked rest).reverse ++ ' ' :: before := by
        simp [blanked, List.replicate_succ]
      rw [reversed]
      exact Takes.cons step rfl
        (inductionHypothesis (fun d member => parts d (List.mem_cons_of_mem c member)) _)

theorem isQuiet_of_isIdentifierPart {c : Char} (part : isIdentifierPart c = true) :
    isQuiet c = true := by
  have loud : ∀ mark ∈ "/'\"\x60<>()[]\x7b\x7d".toList, isIdentifierPart mark = false :=
    Text.forall_mem_of_all (by decide)
  rw [isQuiet, Bool.not_eq_true', ← Bool.not_eq_true, List.contains_iff_mem]
  intro member
  rw [loud c member] at part
  contradiction

/-- Reading a line within one brace between the tags of elements. -/
def inBrace (before : Text) (elements : List Frame) : Reading :=
  ⟨.code, before, false, [], elements, [], 1⟩

theorem takes_identifier {text : Text} (parts : ∀ c ∈ text, isIdentifierPart c = true)
    {elements : List Frame} (outside : AreOutside elements) (before : Text) :
    Takes (inBrace before elements) text text (inBrace (text.reverse ++ before) elements) := by
  induction text generalizing before with
  | nil => exact Takes.nil _
  | cons c rest inductionHypothesis =>
      have here := parts c List.mem_cons_self
      have quiet := isQuiet_of_isIdentifierPart here
      have notBreak : c ≠ '\n' := by
        intro same
        rw [same] at here
        exact absurd here (by decide)
      have apart : (inBrace before elements).inElement = false := by
        cases elements with
        | nil => rfl
        | cons frame outer =>
            have isOutside := outside frame List.mem_cons_self
            simp [inBrace, Reading.inElement, isOutside]
      have step (ahead : Text) : (inBrace before elements).advance c ahead =
          inBrace (c :: before) elements := by
        have plain : (inBrace before elements).read c ahead = (true, inBrace before elements) := by
          rw [← Source.readPlain_of_isQuiet quiet (inBrace before elements) ahead]
          change (inBrace before elements).readCode c ahead = _
          rw [Reading.readCode, apart]
          rfl
        rw [Reading.advance, plain]
        simp [inBrace, Reading.shown, notBreak]
      have reversed : (c :: rest).reverse ++ before = rest.reverse ++ c :: before := by simp
      rw [reversed]
      exact Takes.cons step rfl
        (inductionHypothesis (fun d member => parts d (List.mem_cons_of_mem c member)) _)

theorem takes_container (identifier : Identifier) {frame : Frame} {outer : List Frame}
    (outside : AreOutside (frame :: outer)) (before : Text) :
    Takes (inline .code before [] (frame :: outer)) identifier.container identifier.container
      (inline .code (identifier.container.reverse ++ before) [] (frame :: outer)) := by
  have isOutside := outside frame List.mem_cons_self
  have stepOpen (ahead : Text) : (inline .code before [] (frame :: outer)).advance '\x7b' ahead =
      inBrace ('\x7b' :: before) (frame :: outer) := by
    simp [inline, inBrace, Reading.advance, Reading.read, Reading.readCode, Reading.inHead,
      Reading.inElement, isOutside, Reading.readElement, Reading.readText, Reading.deeper,
      Reading.shown]
  have stepClose (ahead : Text) :
      (inBrace (identifier.text.reverse ++ '\x7b' :: before) (frame :: outer)).advance '\x7d' ahead =
        inline .code ('\x7d' :: (identifier.text.reverse ++ '\x7b' :: before)) [] (frame :: outer) := by
    simp [inline, inBrace, Reading.advance, Reading.read, Reading.readCode, Reading.inHead,
      Reading.inElement, isOutside, Reading.readPlain, Reading.shallower, Source.isQuote,
      Reading.shown]
  have reversed : identifier.container.reverse ++ before =
      '\x7d' :: (identifier.text.reverse ++ '\x7b' :: before) := by
    simp [Identifier.container]
  rw [reversed]
  exact Takes.cons stepOpen rfl
    ((takes_identifier identifier.parts outside _).append (Takes.cons stepClose rfl (Takes.nil _)))

theorem startsCall_append_of_less (text following : Text) :
    startsCall (text ++ '<' :: following) = startsCall text := by
  unfold startsCall
  cases blank : Text.isBlank text with
  | true =>
      rw [Text.trimStart_append_of_isBlank blank, Text.trimStart_of_isBlank blank]
      rfl
  | false =>
      rw [Text.trimStart_append_of_not_isBlank blank]
      cases visible : Text.trimStart text with
      | nil =>
          have isBlank : Text.isBlank text = true :=
            List.all_eq_true.mpr (List.dropWhile_eq_nil_iff.mp visible)
          rw [isBlank] at blank
          contradiction
      | cons c rest => rfl

theorem takes_around (name : Name) {inner shown before : Text} {elements : List Frame}
    (takesTags : TakesTags (inline .code before [] elements)) (noCall : startsCall inner = false)
    (takesInner : ∀ before, Takes (inline .code before [] (⟨0, name.text, false⟩ :: elements)) inner
      shown (inline .code (shown.reverse ++ before) [] (⟨0, name.text, false⟩ :: elements))) :
    Takes (inline .code before [] elements) (name.around inner) (name.around shown)
      (inline .code ((name.around shown).reverse ++ before) [] elements) := by
  intro following
  have noCallBehind : startsCall ((inner ++ name.closingTag) ++ following) = false := by
    rw [List.append_assoc, Name.closingTag, List.cons_append, startsCall_append_of_less]
    exact noCall
  have opening := takesBefore_openingTag name takesTags noCallBehind
  have closing := takesBefore_closingTag name (shown.reverse ++ (name.openingTag.reverse ++ before))
    elements following
  have inside : TakesBefore following _ (inner ++ name.closingTag) _ _ :=
    TakesBefore.append (takesInner (name.openingTag.reverse ++ before) _) closing
  have reversed : (name.around shown).reverse ++ before =
      name.closingTag.reverse ++ (shown.reverse ++ (name.openingTag.reverse ++ before)) := by
    simp [Name.around]
  rw [reversed]
  exact opening.append inside

/-- Between the tags of an element, children are shown with their text blanked, and the reading is
where it was. -/
theorem takes_children {children : Children} (callFree : children.isCallFree = true) {frame : Frame}
    {outer : List Frame} (outside : AreOutside (frame :: outer)) (before : Text) :
    Takes (inline .code before [] (frame :: outer)) (children.written id) (children.written blanked)
      (inline .code ((children.written blanked).reverse ++ before) [] (frame :: outer)) := by
  induction children generalizing frame outer before with
  | none => exact Takes.nil _
  | paired name inner after innerHypothesis afterHypothesis =>
      simp only [Children.isCallFree, Bool.and_eq_true, Bool.not_eq_true'] at callFree
      obtain ⟨noCall, innerFree, afterFree⟩ := callFree
      have deeper : AreOutside (⟨0, name.text, false⟩ :: frame :: outer) := by
        intro other member
        rcases List.mem_cons.mp member with isThis | isOuter
        · rw [isThis]
        · exact outside other isOuter
      have takesTags := @takesTags_inElement frame outer (outside frame List.mem_cons_self) before
      have here := takes_around name takesTags noCall (innerHypothesis innerFree deeper)
      rw [Children.written, Children.written, List.reverse_append, List.append_assoc]
      exact here.append (afterHypothesis afterFree outside _)
  | single name after afterHypothesis =>
      have takesTags := @takesTags_inElement frame outer (outside frame List.mem_cons_self) before
      rw [Children.written, Children.written, List.reverse_append, List.append_assoc]
      exact (takes_singleTag name takesTags).append (afterHypothesis callFree outside _)
  | container identifier after afterHypothesis =>
      rw [Children.written, Children.written, List.reverse_append, List.append_assoc]
      exact (takes_container identifier outside before).append (afterHypothesis callFree outside _)
  | run text after afterHypothesis =>
      rw [Children.written, Children.written, List.reverse_append, List.append_assoc]
      exact (takes_run text.parts (outside frame List.mem_cons_self) before).append
        (afterHypothesis callFree outside _)

/-! ## Documents -/

theorem takesTags_code {before : Text}
    (expects : Source.expectsOperand (before.take Source.lookBack) = true) :
    TakesTags (inline .code before [] []) := by
  intro ahead start isHead
  have window : (inline .code before [] []).window = before.take Source.lookBack := rfl
  simp [inline, Reading.read, Reading.readCode, Reading.inHead, Reading.inElement,
    Reading.readPlain, Source.isQuote] at window ⊢
  simp [window, expects, isHead]

theorem takes_element {element : Element} (callFree : element.isCallFree = true) {before : Text}
    (expects : Source.expectsOperand (before.take Source.lookBack) = true) :
    Takes (inline .code before [] []) (element.written id) (element.written blanked)
      (inline .code ((element.written blanked).reverse ++ before) [] []) := by
  cases element with
  | paired name inner =>
      simp only [Element.isCallFree, Bool.and_eq_true, Bool.not_eq_true'] at callFree
      refine takes_around name (takesTags_code expects) callFree.1 ?_
      refine takes_children callFree.2 ?_
      intro frame member
      rw [List.mem_singleton.mp member]
  | single name => exact takes_singleTag name (takesTags_code expects)

/-- The masked view of a source that declares an element keeps all but the text between tags. -/
theorem mask_document {element : Element} (callFree : element.isCallFree = true) :
    Source.mask element.document =
      "const el = ".toList ++ (element.written blanked ++ [';', '\n']) := by
  have lead := Source.takes_of_staysTop
    (by decide : Source.staysTop false "const el = ".toList = true) [] true
  have visible : Source.lineIsBlankAfter true "const el = ".toList = false := by decide
  have expects : Source.expectsOperand
      (("const el = ".toList.reverse ++ []).take Source.lookBack) = true := by decide
  have tail := Source.takes_of_staysTop (by decide : Source.staysTop false [';', '\n'] = true)
    ((element.written blanked).reverse ++ ("const el = ".toList.reverse ++ [])) false
  rw [visible] at lead
  have whole := lead.append ((takes_element callFree expects).append tail)
  have shown := Reading.view_append Reading.initial element.document []
  rw [List.append_nil] at shown
  rw [Source.mask_eq_view, shown, Reading.view, List.append_nil]
  exact (whole []).1

end SceneBundler.Markup
