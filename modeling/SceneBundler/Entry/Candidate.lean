import SceneBundler.Source.Bracket
import SceneBundler.Source.Mask
import SceneBundler.Source.Position
import SceneBundler.Source.Tag
import SceneBundler.Text.Pattern

/-!
Contract: components that can be the root of a program.

Owns: the components defined outside all braces, those among them that render the root container,
and the choice between several.

Does not own: how the choice is exported.
-/

namespace SceneBundler.Entry

open Pattern (literal char blanks gap indent maybe star lineStart anyOf capture)
open Source (BracketPairs Tag)

/-- A component and the span of its definition. -/
structure Candidate where
  name : Text
  start : Nat
  stop : Nat
deriving DecidableEq, Repr

/-- A capitalized name, kept as 1. -/
def componentName : Pattern :=
  capture 1 (.one Char.isUpper ++ star Character.continuesName)

/-- The beginning of a line with an optional `export`. -/
def exportLead : Pattern :=
  lineStart ++ indent ++ maybe (literal "export" ++ gap)

/-- A variable with a component name, through the equals sign. -/
def componentVariable : Pattern :=
  exportLead ++ anyOf [literal "const", literal "let", literal "var"] ++ gap ++ componentName ++
    blanks ++ char '=' ++ blanks

/-- A component function, through the parenthesis of its parameters. -/
def functionComponent : Pattern :=
  exportLead ++ maybe (literal "async" ++ gap) ++ literal "function" ++ gap ++ componentName ++
    blanks ++ char '('

/-- A component variable set to a function, through the parenthesis of its parameters. -/
def functionExpressionComponent : Pattern :=
  componentVariable ++ literal "function" ++ Pattern.wordBoundary ++ star (· != '(') ++ char '('

/-- Characters other than parentheses. -/
def outsideParens : Pattern :=
  star fun c => c != '(' && c != ')'

/-- Parenthesised parameters, with parentheses nested at most once. -/
def arrowParameters : Pattern :=
  char '(' ++ outsideParens ++
    .many (char '(' ++ outsideParens ++ char ')' ++ outsideParens) ++ char ')'

/-- A component variable set to an arrow function, plain or wrapped, through the arrow. -/
def arrowComponent : Pattern :=
  componentVariable ++
    maybe (maybe (literal "React" ++ blanks ++ char '.' ++ blanks) ++
      (literal "memo" <|> literal "forwardRef") ++ blanks ++ char '(' ++ blanks) ++
    maybe (literal "async" ++ blanks) ++ (arrowParameters <|> Pattern.name) ++ blanks ++
    literal "=>"

/-- A component class, through its brace. -/
def classComponent : Pattern :=
  exportLead ++ literal "class" ++ gap ++ componentName ++ star (fun c => c != '{' && c != ';') ++
    char '{'

/-- Whether an offset lies outside all braces. -/
def isTopLevel (masked : Text) (offset : Nat) : Bool :=
  Source.braceDepthAt masked offset == 0

/-- The end of a function whose parameters open at an offset: after the first brace pair beyond its
parameters. -/
def functionEnd? (masked : Text) (pairs : BracketPairs) (opened : Nat) : Option Nat :=
  (pairs.closerOf? opened).bind fun closed =>
    (Text.offsetOf? '{' masked closed).bind fun body => (pairs.closerOf? body).map (· + 1)

/-- The end of an arrow function whose body begins after an offset: of its brackets, or else of its
line. -/
def arrowEnd (masked : Text) (pairs : BracketPairs) (afterArrow : Nat) : Nat :=
  let body := Text.skip Character.isBlank masked afterArrow
  let bracketed := masked[body]?.any fun c => c == '(' || c == '{'
  match if bracketed then pairs.closerOf? body else none with
  | some closed => closed + 1
  | none => Source.lineEndFrom masked body

/-- The components that one pattern finds outside all braces, where `stop?` says where the definition
ends. -/
def componentsOf (masked : Text) (pattern : Pattern) (stop? : Match -> Option Nat) :
    List Candidate :=
  (pattern.all masked).filterMap fun found =>
    if isTopLevel masked found.start then
      (stop? found).map fun stop => ⟨found.captured masked 1, found.start, stop⟩
    else none

/-- Candidates of which each start is taken once, by the last candidate given for it. -/
def lastByStart : List Candidate -> List Candidate
  | [] => []
  | candidate :: rest =>
      if rest.any (·.start == candidate.start) then lastByStart rest
      else candidate :: lastByStart rest

/-- The components defined outside all braces, in order. -/
def topLevelComponents (masked : Text) : List Candidate :=
  let pairs := BracketPairs.ofText masked
  let ofFunction (found : Match) := functionEnd? masked pairs (found.stop - 1)
  let found :=
    componentsOf masked functionComponent ofFunction ++
      componentsOf masked functionExpressionComponent ofFunction ++
      componentsOf masked arrowComponent (fun found => some (arrowEnd masked pairs found.stop)) ++
      componentsOf masked classComponent
        (fun found => (pairs.closerOf? (found.stop - 1)).map (· + 1))
  Order.sort (fun first second => first.start ≤ second.start) (lastByStart found)

/-- Whether a stretch of masked source opens an element of the root container. -/
def renders (rootContainer masked : Text) : Bool :=
  (Tag.scan masked).any fun tag => tag.name == rootContainer && tag.kind != .closing

/-- The components that render the root container, in order. -/
def candidates (text rootContainer : Text) : List Candidate :=
  let masked := Source.mask text
  (topLevelComponents masked).filter fun component =>
    renders rootContainer (Text.slice masked component.start component.stop)

/-- The root among candidates: the one with the conventional name, or else the first. -/
def chooseRoot (rootName : Text) (found : List Candidate) : Option Candidate :=
  (found.find? (·.name == rootName)).or found.head?

end SceneBundler.Entry
