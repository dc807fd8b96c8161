import SceneBundler.Text.Pattern
import SceneBundler.Source.TagName

/-!
Contract: the masked view of JavaScript, JSX or TypeScript source.

Owns:
- the reading state that tells code from quoted text, template text, comments, regular expressions
  and JSX text;
- the rule by which each character of the source is kept or blanked.

The masked view has the length of the source and the same line breaks; every other character is
either the source's own or a space.  Quotes, backticks, the marks of a template substitution and the
slashes of a regular expression are kept; what they enclose is blanked, and so are comments and the
text between JSX tags.

Does not own: what is then looked for in the masked view.
-/

namespace SceneBundler.Source

/-- A JSX tag head or an open JSX element, and the brace depth it stands at. -/
structure Frame where
  depth : Int
  name : Text
  closing : Bool
deriving DecidableEq, Repr

/-- What kind of text is being read.  A `held` stretch was decided ahead of time: this many
characters beyond the next one are still to be kept or blanked before reading resumes. -/
inductive Region where
  | code
  | quoted (quote : Char)
  | template
  | lineComment
  | blockComment
  | held (visible : Bool) (beyond : Nat) (resume : Region)
deriving DecidableEq, Repr

namespace Region

/-- Keep or blank the next `count` characters and then resume. -/
def hold (visible : Bool) (count : Nat) (resume : Region) : Region :=
  match count with
  | 0 => resume
  | beyond + 1 => held visible beyond resume

end Region

/-- The state of reading a source from its first character on.  `before` holds the masked characters
read so far, nearest first; `lineIsBlank` says whether the source line read so far holds only
blanks; frames and template depths are innermost first. -/
structure Reading where
  region : Region
  before : Text
  lineIsBlank : Bool
  heads : List Frame
  elements : List Frame
  templateDepths : List Int
  depth : Int
deriving Repr

/-! ## What a character opens -/

/-- Words after which an operand is expected. -/
def wordsBeforeOperand : List Text :=
  ["return", "case", "typeof", "in", "of", "else", "yield", "await", "from", "import", "export",
    "default", "void", "delete", "throw", "new"].map String.toList

/-- Characters after which an operand is expected. -/
def marksBeforeOperand : Text :=
  "(,=:[!&|?\x7b\x7d;+-*%>~^".toList

/-- The number of masked characters that are looked back at to decide what a quote, a slash or an
angle bracket opens. -/
def lookBack : Nat := 64

/-- Whether the word that ends a look-back window, given nearest character first, calls for an
operand. -/
def endsWithOperandWord (window : Text) : Bool :=
  wordsBeforeOperand.contains (window.takeWhile Character.isAsciiWord).reverse

/-- Whether a quote after the given characters, nearest first, opens a string: not directly after an
operand. -/
def opensString (window : Text) : Bool :=
  match window.dropWhile Character.isBlank with
  | [] => true
  | c :: rest =>
      if Character.isAsciiWord c then endsWithOperandWord (c :: rest)
      else c != ')' && c != ']'

/-- Whether a slash or an angle bracket after the given characters, nearest first, stands where an
operand is expected, and so opens a regular expression or markup. -/
def expectsOperand (window : Text) : Bool :=
  match window.dropWhile Character.isBlank with
  | [] => true
  | c :: rest =>
      marksBeforeOperand.contains c ||
        (Character.isAsciiWord c && endsWithOperandWord (c :: rest))

/-- The number of characters of a regular expression between its slashes, when it ends on its line;
a slash in a character class or after a backslash does not end it. -/
def regexLength? : (escaped inClass : Bool) -> (passed : Nat) -> Text -> Option Nat
  | _, _, _, [] => none
  | true, inClass, passed, _ :: rest => regexLength? false inClass (passed + 1) rest
  | false, inClass, passed, c :: rest =>
      if c = '\n' then none
      else if c = '\\' then regexLength? true inClass (passed + 1) rest
      else if c = '[' then regexLength? false true (passed + 1) rest
      else if c = ']' then regexLength? false false (passed + 1) rest
      else if c = '/' && !inClass then some passed
      else regexLength? false inClass (passed + 1) rest

/-- Characters that cannot stand in a tag head outside braces and quotes. -/
def headRejects : Text :=
  ",;()<[]".toList

/-- A single or double quote. -/
def isQuote (c : Char) : Bool :=
  c == '\x27' || c == '\x22'

/-- The number of characters from the end of a tag's name through the `>` that ends its head, when
the head is well formed: quotes closed, braces balanced, no operator outside them. -/
def headLength? : (quote : Option Char) -> (depth passed : Nat) -> Text -> Option Nat
  | _, _, _, [] => none
  | some quote, depth, passed, c :: rest =>
      headLength? (if c = quote then none else some quote) depth (passed + 1) rest
  | none, depth, passed, c :: rest =>
      if isQuote c then headLength? (some c) depth (passed + 1) rest
      else if c = '{' then headLength? none (depth + 1) (passed + 1) rest
      else if c = '}' then
        match depth with
        | 0 => none
        | outer + 1 => headLength? none outer (passed + 1) rest
      else if depth = 0 && c == '>' then some (passed + 1)
      else if depth = 0 && headRejects.contains c then none
      else headLength? none depth (passed + 1) rest

/-- What the attributes of a type parameter list look like: a constraint or a default. -/
def typeParameterTail : Pattern :=
  (Pattern.literal "extends" ++ Pattern.wordBoundary) <|> Pattern.char '='

/-- Whether what looks like a tag head is the type parameter list of a function: it goes on with a
constraint or a default, or it is bare and followed by a parameter list. -/
def isTypeParameterList (attributes following : Text) : Bool :=
  typeParameterTail.startsText attributes ||
    (attributes.isEmpty && (Text.trimStart following).head? == some '(')

/-- The beginning of a tag head: its name, whether it is a closing tag, and the number of characters
from after the `<` through the name. -/
structure HeadStart where
  name : Text
  closing : Bool
  length : Nat

/-- The tag head that the text after a `<` begins, if it does not make it an operator. -/
def headStart? (ahead : Text) : Option HeadStart :=
  let closing := ahead.head? == some '/'
  let lead := if closing then 1 else 0
  let named := ahead.drop lead
  if named.head? == some '>' then some ⟨[], closing, lead⟩
  else
    match TagName.read? named with
    | none => none
    | some name =>
        let afterName := named.drop name.length
        match headLength? none 0 0 afterName with
        | none => none
        | some length =>
            let attributes := Text.trim (afterName.take (length - 1))
            if !closing && isTypeParameterList attributes (afterName.drop length) then none
            else some ⟨name, closing, lead + name.length⟩

/-- The frames around the innermost one that a closing tag names, at the closing tag's depth. -/
def outsideNamed? (closer : Frame) : List Frame -> Option (List Frame)
  | [] => none
  | frame :: outer =>
      if frame.depth ≠ closer.depth then none
      else if frame.name = closer.name then some outer
      else outsideNamed? closer outer

namespace Reading

/-- Before the first character. -/
def initial : Reading :=
  ⟨.code, [], true, [], [], [], 0⟩

/-- The masked characters looked back at. -/
def window (reading : Reading) : Text :=
  reading.before.take lookBack

/-- Whether a tag head is being read at the current brace depth. -/
def inHead (reading : Reading) : Bool :=
  reading.heads.head?.any (·.depth == reading.depth)

/-- Whether the children of an element are being read at the current brace depth. -/
def inElement (reading : Reading) : Bool :=
  reading.elements.head?.any (·.depth == reading.depth)

/-- One brace deeper. -/
def deeper (reading : Reading) : Reading :=
  { reading with depth := reading.depth + 1 }

/-- One brace less deep, without the heads and elements of the braces that were left. -/
def shallower (reading : Reading) : Reading :=
  let depth := reading.depth - 1
  { reading with
    depth := depth
    heads := reading.heads.dropWhile fun frame => depth < frame.depth
    elements := reading.elements.dropWhile fun frame => depth < frame.depth }

/-- Within the tag head that starts here. -/
def enterHead (reading : Reading) (start : HeadStart) : Reading :=
  { reading with
    region := .hold true start.length .code
    heads := ⟨reading.depth, start.name, start.closing⟩ :: reading.heads }

/-- After the end of the current tag head: a closing tag ends the element it names with all its
unclosed children, any other tag opens an element unless it closes itself. -/
def leaveHead (reading : Reading) (selfClosing : Bool) : Reading :=
  match reading.heads with
  | [] => reading
  | head :: outer =>
      let elements :=
        if head.closing then (outsideNamed? head reading.elements).getD reading.elements
        else if selfClosing then reading.elements
        else head :: reading.elements
      { reading with heads := outer, elements := elements }

/-- Read a character of code outside markup: whether it is kept, and the state after it. -/
def readPlain (reading : Reading) (c : Char) (ahead : Text) : Bool × Reading :=
  if c = '/' && ahead.head? == some '/' then
    (false, { reading with region := .lineComment })
  else if c = '/' && ahead.head? == some '*' then
    (false, { reading with region := .hold false 1 .blockComment })
  else if c = '\x60' then
    (true, { reading with region := .template })
  else if c = '}' && reading.templateDepths.head? == some reading.depth then
    (true, { reading with
      region := .template
      templateDepths := reading.templateDepths.tail })
  else if isQuote c && opensString reading.window then
    (true, { reading with region := .quoted c })
  else if c = '/' && ahead.head? != some '>' && expectsOperand reading.window then
    match regexLength? false false 0 ahead with
    | some length =>
        (true, { reading with region := .hold false length (.hold true 1 .code) })
    | none => (true, reading)
  else if c = '<' && expectsOperand reading.window then
    match headStart? ahead with
    | some start => (true, reading.enterHead start)
    | none => (true, reading)
  else if c = '{' then (true, reading.deeper)
  else if c = '}' then (true, reading.shallower)
  else (true, reading)

/-- Read a character of a tag head. -/
def readHead (reading : Reading) (c : Char) (ahead : Text) : Bool × Reading :=
  if isQuote c then (true, { reading with region := .quoted c })
  else if c = '>' then (true, reading.leaveHead false)
  else if c = '/' && ahead.head? == some '>' then
    (true, { reading.leaveHead true with region := .hold true 1 .code })
  else if c = '}' then { reading with heads := reading.heads.tail }.readPlain c ahead
  else if c = '{' then (true, reading.deeper)
  else (true, reading)

/-- Whether a character ends markup whose closing tag is missing: a `)` or `;` that opens a line. -/
def leavesMarkup (reading : Reading) (c : Char) : Bool :=
  (c == ')' || c == ';') && reading.lineIsBlank

/-- Read a character of JSX text that starts no tag. -/
def readText (reading : Reading) (c : Char) (ahead : Text) : Bool × Reading :=
  if c = '{' then (true, reading.deeper)
  else if c ≠ '}' && !reading.leavesMarkup c then (false, reading)
  else
    let elements := reading.elements.dropWhile fun frame => frame.depth == reading.depth
    { reading with elements := elements }.readPlain c ahead

/-- Read a character between the tags of an element. -/
def readElement (reading : Reading) (c : Char) (ahead : Text) : Bool × Reading :=
  if c = '<' then
    match headStart? ahead with
    | some start => (true, reading.enterHead start)
    | none => reading.readText c ahead
  else reading.readText c ahead

/-- Read a character outside literals and comments. -/
def readCode (reading : Reading) (c : Char) (ahead : Text) : Bool × Reading :=
  if reading.inHead then reading.readHead c ahead
  else if reading.inElement then reading.readElement c ahead
  else reading.readPlain c ahead

/-- Read one character, given those after it: whether it is kept, and the state after it.  A line
break ends a comment to the end of the line and an unclosed string. -/
def read (reading : Reading) (c : Char) (ahead : Text) : Bool × Reading :=
  match reading.region with
  | .code => reading.readCode c ahead
  | .held visible beyond resume =>
      (visible, { reading with region := .hold visible beyond resume })
  | .quoted quote =>
      if c = '\\' then (false, { reading with region := .hold false 1 (.quoted quote) })
      else if c = quote then (true, { reading with region := .code })
      else if c = '\n' then { reading with region := .code }.readCode c ahead
      else (false, reading)
  | .template =>
      if c = '\\' then (false, { reading with region := .hold false 1 .template })
      else if c = '\x60' then (true, { reading with region := .code })
      else if c = '$' && ahead.head? == some '{' then
        (true, { reading with
          region := .hold true 1 .code
          templateDepths := reading.depth :: reading.templateDepths })
      else (false, reading)
  | .lineComment =>
      if c = '\n' then { reading with region := .code }.readCode c ahead
      else (false, reading)
  | .blockComment =>
      if c = '*' && ahead.head? == some '/' then
        (false, { reading with region := .hold false 1 .code })
      else (false, reading)

/-- A character as the masked view shows it. -/
def shown (visible : Bool) (c : Char) : Char :=
  if visible || c == '\n' then c else ' '

/-- Read one character and note down its masked form. -/
def advance (reading : Reading) (c : Char) (ahead : Text) : Reading :=
  let (visible, next) := reading.read c ahead
  { next with
    before := shown visible c :: reading.before
    lineIsBlank := c == '\n' || (reading.lineIsBlank && Character.isBlank c) }

/-- Read a text to its end. -/
def readAll (reading : Reading) : Text -> Reading
  | [] => reading
  | c :: rest => (reading.advance c rest).readAll rest

end Reading

/-- The masked view of a source text. -/
def mask (text : Text) : Text :=
  (Reading.initial.readAll text).before.reverse

end SceneBundler.Source
