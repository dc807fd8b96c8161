import SceneBundler.Dialect.Expression
import SceneBundler.Dialect.Extent
import SceneBundler.Source.Position

/-!
Contract: type annotations of class members, variables, parameters and results.

Owns:
- the access modifiers, definite marks, optional marks and annotations of class members;
- the clause that says what a class implements;
- the annotations of variable declarations;
- which parentheses hold parameters, and the annotations of those and of the result.

Does not own: how far a type extends.
-/

namespace SceneBundler.Dialect

open Pattern (literal char name blanks gap indent oneOf maybe star wordBoundary anyOf)
open Source (BracketPairs)

/-- A brace or bracket that begins a destructuring pattern. -/
def opensBinding (c : Char) : Bool :=
  c == '[' || c == '{'

/-- The removal of the annotation from a colon on. -/
def annotationRemoval (masked : Text) (colon typeStop : Nat) : Edit :=
  Edit.deletion colon (trimmedEnd masked colon typeStop)

/-! ## Class members -/

/-- The head of a class through its brace. -/
def classHead : Pattern :=
  wordBoundary ++ literal "class" ++ gap ++ name ++ star (fun c => c != '{' && c != ';') ++ char '{'

/-- The clause that says what a class implements. -/
def implementsClause : Pattern :=
  gap ++ literal "implements" ++ gap ++ .run (· != '{') 1 none true ++
    .ahead true (blanks ++ char '{')

/-- A modifier of a class member, kept as 1. -/
def memberKeyword : Pattern :=
  .capture 1 (anyOf (["public", "private", "protected", "readonly", "override", "static"].map
    literal)) ++ Pattern.plus Text.isIndent ++
    .ahead true (.one fun c => c == '#' || Character.startsName c || c == '[')

/-- A class field through the colon of its annotation; its mark is kept as 2. -/
def fieldHead : Pattern :=
  maybe (char '#') ++ name ++ indent ++ maybe (.capture 2 (oneOf ['!', '?'])) ++ indent ++
    char ':' ++ Pattern.notBefore (· == ':')

/-- The lead of an abstract member. -/
def abstractMember : Pattern :=
  indent ++ literal "abstract" ++ gap

/-- The offsets of the lines of a class body that begin outside nested brackets. -/
def memberLineStarts (depth : Int) (offset : Nat) : Text -> List Nat
  | [] => []
  | c :: rest =>
      if c = '\n' && depth == 0 then (offset + 1) :: memberLineStarts depth (offset + 1) rest
      else if Source.isOpener c then memberLineStarts (depth + 1) (offset + 1) rest
      else if Source.isCloser c then memberLineStarts (depth - 1) (offset + 1) rest
      else memberLineStarts depth (offset + 1) rest

/-- The removals of the modifiers from an offset on, and the offset after all of them; `static`
stays. -/
def memberModifiers (masked : Text) (limit : Nat) : (room offset : Nat) -> List Edit × Nat
  | 0, offset => ([], offset)
  | room + 1, offset =>
      match memberKeyword.matchWithin? masked offset limit with
      | none => ([], offset)
      | some found =>
          let (edits, stop) := memberModifiers masked limit room found.stop
          if found.captured masked 1 = "static".toList then (edits, stop)
          else (Edit.deletion found.start found.stop :: edits, stop)

/-- The edits of the class member that a line begins; an abstract member is left alone. -/
def memberEdits (masked : Text) (limit lineStart : Nat) : List Edit :=
  if (abstractMember.matchWithin? masked lineStart limit).isSome then []
  else
    let start := Text.skip Text.isIndent masked lineStart
    let (modifiers, offset) := memberModifiers masked limit (limit - start) start
    match fieldHead.matchWithin? masked offset limit with
    | none => modifiers
    | some found =>
        let mark := match found.span? 2 with
          | some span => [Edit.deletion span.start span.stop]
          | none => []
        let colon := found.stop - 1
        modifiers ++ mark ++
          [annotationRemoval masked colon (typeEnd masked (colon + 1) limit "=;\n")]

/-- The edits of every class: its clause of what it implements, and its members. -/
def classMemberEdits (masked : Text) : List Edit :=
  let pairs := BracketPairs.ofText masked
  (classHead.all masked).flatMap fun found =>
    let clause := match implementsClause.firstWithin? masked found.start found.stop with
      | some clause => [Edit.deletion clause.start clause.stop]
      | none => []
    let opened := found.stop - 1
    match pairs.closerOf? opened with
    | none => clause
    | some closed =>
        let lines := memberLineStarts 0 (opened + 1) (Text.slice masked (opened + 1) closed)
        clause ++ lines.flatMap (memberEdits masked closed)

/-! ## Variables -/

/-- The keyword of a variable declaration before its first binding. -/
def declarationKeyword : Pattern :=
  wordBoundary ++ anyOf [literal "const", literal "let", literal "var"] ++ gap ++
    .ahead true (.one fun c => Character.startsName c || opensBinding c)

/-- The offset after the binding at an offset: a name, or a destructuring pattern whose bracket is
closed.  The binding uses no character from `limit` on. -/
def bindingEnd? (masked : Text) (pairs : BracketPairs) (limit offset : Nat) : Option Nat :=
  if masked[offset]?.any opensBinding then
    match pairs.closerOf? offset with
    | some closed => if closed < limit then some (closed + 1) else none
    | none => none
  else (name.matchWithin? masked offset limit).map (·.stop)

/-- The edits of one variable declaration: its definite mark and its annotation. -/
def declarationEditsOf (masked : Text) (pairs : BracketPairs) (found : Match) : List Edit :=
  match bindingEnd? masked pairs masked.length found.stop with
  | none => []
  | some stop =>
      let marker := Text.skip Text.isIndent masked stop
      let marked := masked[marker]? == some '!' && masked[marker + 1]? != some '='
      let mark := if marked then [Edit.deletion marker (marker + 1)] else []
      let colon := if marked then Text.skip Text.isIndent masked (marker + 1) else marker
      if masked[colon]? = some ':' then
        mark ++
          [annotationRemoval masked colon (typeEnd masked (colon + 1) masked.length "=;,\n")]
      else mark

/-- The edits of every variable declaration. -/
def declarationEdits (masked : Text) : List Edit :=
  let pairs := BracketPairs.ofText masked
  (declarationKeyword.all masked).flatMap (declarationEditsOf masked pairs)

/-! ## Signatures -/

/-- A space, a tab or a line break. -/
def isLayout (c : Char) : Bool :=
  c == ' ' || c == '\t' || c == '\r' || c == '\n'

/-- What follows a closing parenthesis and a return type after it. -/
inductive Follower where
  | arrow
  | brace
  | other
deriving DecidableEq, Repr

/-- What stands at an offset. -/
def followerAt (masked : Text) (offset : Nat) : Follower :=
  if Text.standsAt "=>".toList masked offset then .arrow
  else if masked[offset]? = some '{' then .brace
  else .other

/-- The span of the return type after a closing parenthesis, and what follows.  A colon that no return
type ends is followed by nothing known. -/
def afterParameters (masked : Text) (closed : Nat) : Option Span × Follower :=
  let offset := Text.skip isLayout masked (closed + 1)
  if masked[offset]? = some ':' then
    match returnTypeEnd? masked (offset + 1) with
    | none => (none, .other)
    | some stop =>
        (some ⟨offset, trimmedEnd masked offset stop⟩, followerAt masked stop)
  else (none, followerAt masked offset)

/-- The keyword and the name of a function up to the end of the text. -/
def functionBeforeParen : Pattern :=
  wordBoundary ++ literal "function" ++ wordBoundary ++ blanks ++ maybe (char '*') ++ blanks ++
    maybe name ++ blanks ++ Pattern.textEnd

/-- How far back from a parenthesis the keyword of its function is looked for. -/
def functionLookBack : Nat := 96

/-- Words that are followed by parentheses and a brace without naming a method. -/
def nonMethodWords : List Text :=
  expressionKeywords ++
    ["if", "for", "while", "switch", "with", "do", "throw", "function"].map String.toList

/-- The word whose last character is at an offset. -/
def wordEndingAt (masked : Text) (offset : Nat) : Text :=
  (((masked.take (offset + 1)).reverse).takeWhile Character.continuesName).reverse

/-- Whether the parentheses opened at an offset hold parameters: an arrow follows, or a body follows
and a function or method name stands before. -/
def isParameterList (masked : Text) (opened : Nat) : Follower -> Bool
  | .arrow => true
  | .other => false
  | .brace =>
      (functionBeforeParen.firstWithin? masked (opened - functionLookBack) opened).isSome ||
        match Source.previousSignificant? masked opened with
        | none => false
        | some (c, offset) =>
            Character.continuesName c && !nonMethodWords.contains (wordEndingAt masked offset)

/-- A modifier of a constructor parameter. -/
def parameterModifier : Pattern :=
  anyOf (["public", "private", "protected", "readonly", "override"].map literal) ++ gap ++
    .ahead true (.one fun c => Character.startsName c || opensBinding c)

/-- The edits of one parameter: its modifier, optional mark and annotation. -/
def parameterEdits (masked : Text) (pairs : BracketPairs) (item : Nat × Nat) : List Edit :=
  let (start, stop) := item
  let offset := Text.skip isLayout masked start
  if stop ≤ offset then []
  else
    let (modifier, offset) :=
      match parameterModifier.matchWithin? masked offset stop with
      | some found => ([Edit.deletion found.start found.stop], found.stop)
      | none => ([], offset)
    let offset := if Text.standsAt "...".toList masked offset then offset + 3 else offset
    match bindingEnd? masked pairs stop offset with
    | none => modifier
    | some bound =>
        let marker := Text.skip Text.isIndent masked bound
        let marked := marker < stop && masked[marker]? == some '?'
        let mark := if marked then [Edit.deletion marker (marker + 1)] else []
        let colon := if marked then Text.skip Text.isIndent masked (marker + 1) else marker
        if colon < stop && masked[colon]? == some ':' then
          modifier ++ mark ++
            [annotationRemoval masked colon (typeEnd masked (colon + 1) stop "=")]
        else modifier ++ mark

/-- The edits of one pair of parentheses. -/
def signatureEditsOf (masked : Text) (pairs : BracketPairs) (pair : Nat × Nat) : List Edit :=
  let (opened, closed) := pair
  let (returned, follower) := afterParameters masked closed
  if isParameterList masked opened follower then
    let result := match returned with
      | some span => [Edit.deletion span.start span.stop]
      | none => []
    (splitTopLevel masked (opened + 1) closed).flatMap (parameterEdits masked pairs) ++ result
  else []

/-- The edits of every parameter list. -/
def signatureEdits (masked : Text) : List Edit :=
  let pairs := BracketPairs.ofText masked
  (BracketPairs.ofKind .round [] 0 masked []).flatMap (signatureEditsOf masked pairs)

end SceneBundler.Dialect
