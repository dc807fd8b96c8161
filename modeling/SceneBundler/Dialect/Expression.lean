import SceneBundler.Source.Bracket
import SceneBundler.Text.Edit
import SceneBundler.Text.Pattern

/-!
Contract: type syntax within expressions.

Owns: type arguments and the type parameters of arrow functions, non-null marks, and casts.

Does not own: annotations of declarations and signatures.
-/

namespace SceneBundler.Dialect

open Pattern (literal char name blanks gap indent oneOf maybe star plus after)

/-- Words that stand before an operand and so name no function or type. -/
def expressionKeywords : List Text :=
  ["return", "typeof", "instanceof", "in", "of", "new", "case", "void", "delete", "yield", "await",
    "else"].map String.toList

/-! ## Type arguments -/

/-- A name, kept as 1, directly followed by angle brackets whose contents, kept as 2, hold none. -/
def typeArguments : Pattern :=
  Pattern.notAfter Character.continuesName ++ .capture 1 name ++ char '<' ++
    .capture 2 (star fun c => c != '<' && c != '>') ++ char '>'

/-- The type parameter of an arrow function after an equals sign; the blanks before it are kept
as 1. -/
def arrowTypeParameters : Pattern :=
  after (· == '=') ++ .capture 1 blanks ++ char '<' ++ name ++
    maybe (gap ++ literal "extends" ++ gap ++
      plus fun c => Character.continuesName c || c == '.') ++
    blanks ++ maybe (char ',') ++ blanks ++ char '>' ++ .ahead true (blanks ++ char '(')

/-- What the contents of type arguments begin with. -/
def typeContentStart : Pattern :=
  blanks ++ .one fun c => Character.startsName c || "[\x7b('\x22".toList.contains c

/-- Operators that no type contains. -/
def nonTypeTokens : List Text :=
  ["&&", "||", "==", "!=", ";", "+", "-", "*", "/", "%", "!"].map String.toList

/-- Whether angle brackets after a name hold type arguments rather than comparing values. -/
def isTypeArgumentList (masked : Text) (found : Match) : Bool :=
  let inner := found.captured masked 2
  !expressionKeywords.contains (found.captured masked 1) && typeContentStart.startsText inner &&
    !nonTypeTokens.any (fun token => Text.occursIn token inner) &&
    masked[found.stop]?.all fun c => !(Character.continuesName c || c == '<')

/-- The removals of type arguments and of the type parameters of arrow functions. -/
def typeArgumentEdits (masked : Text) : List Edit :=
  let ofCalls := ((typeArguments.all masked).filter (isTypeArgumentList masked)).filterMap
    fun found => (found.span? 2).map fun inner => Edit.deletion (inner.start - 1) found.stop
  let ofArrows := (arrowTypeParameters.all masked).filterMap fun found =>
    (found.span? 1).map fun lead => Edit.deletion lead.stop found.stop
  ofCalls ++ ofArrows

/-! ## Non-null marks -/

/-- A non-null mark between an operand and what goes on with it or ends it. -/
def nonNullMember : Pattern :=
  after (fun c => Character.continuesName c || c == ')' || c == ']') ++ char '!' ++
    .ahead true (oneOf ".[;,)]\x7d".toList)

/-- A non-null mark at the end of a line. -/
def nonNullLineEnd : Pattern :=
  after (fun c => c == ')' || c == ']') ++ char '!' ++ .ahead true (indent ++ Pattern.lineEnd)

/-- The removals of non-null marks. -/
def nonNullEdits (masked : Text) : List Edit :=
  (nonNullMember.all masked ++ nonNullLineEnd.all masked).map fun found =>
    Edit.deletion found.start found.stop

/-! ## Casts -/

/-- A cast to a named type, an array of one, or `const`, where a closer or separator follows. -/
def castSuffix : Pattern :=
  after (fun c => Character.continuesName c || c == ')' || c == ']') ++ plus Text.isIndent ++
    (literal "as" <|> literal "satisfies") ++ plus Text.isIndent ++
    ((literal "const" ++ Pattern.wordBoundary) <|>
      (.one Character.startsName ++ star (fun c => Character.continuesName c || c == '.') ++
        .many (literal "[]"))) ++
    .ahead true (indent ++ oneOf ")];,\x7d".toList)

/-- The head of an import or export list through its brace. -/
def moduleSpecifiers : Pattern :=
  Pattern.wordBoundary ++ (literal "import" <|> literal "export") ++ gap ++
    maybe (literal "type" ++ gap) ++ maybe (name ++ blanks ++ char ',' ++ blanks) ++ char '{'

/-- The removals of casts; the renamings in import and export lists are no casts. -/
def castEdits (masked : Text) : List Edit :=
  let pairs := Source.BracketPairs.ofText masked
  let lists := (moduleSpecifiers.all masked).filterMap fun found =>
    (pairs.closerOf? (found.stop - 1)).map fun closed => (found.stop - 1, closed)
  let casts := (castSuffix.all masked).filter fun found =>
    !lists.any fun (opened, closed) => opened < found.start && found.start < closed
  casts.map fun found => Edit.deletion found.start found.stop

end SceneBundler.Dialect
