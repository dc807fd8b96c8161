import SceneBundler.Dialect.Extent
import SceneBundler.Text.Pattern

/-!
Contract: statements that exist at type level only.

Owns: recognising type-only imports and exports, interfaces, type aliases and ambient declarations,
and their removal as whole statements.

Does not own: annotations within other statements.
-/

namespace SceneBundler.Dialect

open Pattern (literal char name blanks gap indent oneOf maybe star lineStart wordBoundary)

/-- An import or export of types only. -/
def typeOnlyImport : Pattern :=
  lineStart ++ indent ++
    ((literal "import" ++ gap ++ literal "type" ++ wordBoundary) <|>
      (literal "export" ++ gap ++ literal "type" ++ blanks ++ char '{'))

/-- An optional `export` and an optional `declare` at the beginning of a line. -/
def ambientLead : Pattern :=
  lineStart ++ indent ++ maybe (literal "export" ++ gap) ++
    maybe (literal "declare" ++ gap)

/-- The head of an interface through its brace. -/
def interfaceHead : Pattern :=
  ambientLead ++ literal "interface" ++ gap ++ name ++ star (· != '{') ++ char '{'

/-- A type alias through its equals sign. -/
def typeAliasHead : Pattern :=
  ambientLead ++ literal "type" ++ gap ++ name ++ blanks ++
    maybe
      (char '<' ++ .run (fun c => c != '=' && c != ';') 0 none true ++ char '>' ++ blanks) ++
    char '=' ++ Pattern.notBefore fun c => c == '=' || c == '>'

/-- The lead of an ambient declaration other than an interface or a type alias. -/
def ambientHead : Pattern :=
  lineStart ++ indent ++ maybe (literal "export" ++ gap) ++ literal "declare" ++ gap ++
    .ahead false ((literal "interface" <|> literal "type") ++ wordBoundary)

/-- The removals of statements that exist at type level only. -/
def typeDeclarationEdits (masked : Text) : List Edit :=
  let pairs := Source.BracketPairs.ofText masked
  let imports := (typeOnlyImport.all masked).map fun found =>
    statementRemoval masked found.start (statementEnd masked found.start)
  let interfaces := (interfaceHead.all masked).filterMap fun found =>
    (pairs.closerOf? (found.stop - 1)).map fun closed =>
      statementRemoval masked found.start (closed + 1)
  let others := (typeAliasHead.all masked ++ ambientHead.all masked).map fun found =>
    statementRemoval masked found.start (statementEnd masked found.stop)
  imports ++ interfaces ++ others

end SceneBundler.Dialect
