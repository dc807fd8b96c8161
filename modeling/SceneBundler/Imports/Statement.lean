import SceneBundler.Catalog.Basic
import SceneBundler.Source.Mask
import SceneBundler.Source.Position
import SceneBundler.Text.Edit

/-!
Contract: the import statements of a source.

Owns:
- recognising an import statement and the names it binds;
- the source without its import statements.

Does not own: which of the names a framework provides.
-/

namespace SceneBundler.Imports

open Pattern (literal char name blanks gap indent maybe star lineStart capture)

/-- How a name is bound by an import statement. -/
inductive BindingKind where
  | asDefault
  | asNamed
  | asNamespace
deriving DecidableEq, Repr

/-- A name that an import statement binds: the name in the source, and the name the module exports
it by. -/
structure Binding where
  localName : Text
  module : Text
  importedName : Text
  kind : BindingKind
  line : Nat
deriving DecidableEq, Repr

/-- An import statement: the module as written, its real name, and the bindings. -/
structure Statement where
  written : Text
  module : Text
  bindings : List Binding
  line : Nat
deriving DecidableEq, Repr

/-- The characters between `import` and `from`. -/
def inClause (c : Char) : Bool :=
  Character.continuesName c || Character.isBlank c || "*\x7b\x7d,".toList.contains c

/-- An import statement through the opening quote of its module, which is kept as 2; what it binds is
kept as 1. -/
def statementHead : Pattern :=
  lineStart ++ indent ++ literal "import" ++ blanks ++
    maybe (capture 1 (.run inClause 1 none true) ++ blanks ++ literal "from" ++ blanks) ++
    capture 2 (Pattern.oneOf ['\x27', '\x22'])

/-- The names between braces, kept as 1. -/
def namedClause : Pattern :=
  char '{' ++ capture 1 (star (· != '}')) ++ char '}'

/-- A whole module under a name, which is kept as 1. -/
def namespaceClause : Pattern :=
  char '*' ++ blanks ++ literal "as" ++ gap ++ capture 1 name

/-- What stands between a name and the name it is bound to. -/
def aliasMark : Pattern :=
  gap ++ literal "as" ++ gap

/-- The pieces of a text between matches, where the first piece begins at `start`. -/
def piecesBetween (text : Text) : (start : Nat) -> List Match -> List Text
  | start, [] => [text.drop start]
  | start, found :: rest => Text.slice text start found.start :: piecesBetween text found.stop rest

/-- The binding of one name between braces. -/
def namedBinding? (module : Text) (line : Nat) (specifier : Text) : Option Binding :=
  let trimmed := Text.trim specifier
  let parts := piecesBetween trimmed 0 (aliasMark.all trimmed)
  let imported := parts.headD []
  if imported.isEmpty then none
  else some ⟨parts.getLastD imported, module, imported, .asNamed, line⟩

/-- A text without one of its matches. -/
def without (text : Text) (found : Match) : Text :=
  text.take found.start ++ text.drop found.stop

/-- The bindings between braces, and the clause without the braces. -/
def takeNamed (module : Text) (line : Nat) (clause : Text) : List Binding × Text :=
  match namedClause.first? clause with
  | none => ([], clause)
  | some found =>
      ((Text.split ',' (found.captured clause 1)).filterMap (namedBinding? module line),
        without clause found)

/-- The binding of the whole module, and the clause without it. -/
def takeNamespace (module : Text) (line : Nat) (clause : Text) : List Binding × Text :=
  match namespaceClause.first? clause with
  | none => ([], clause)
  | some found =>
      ([⟨found.captured clause 1, module, ['*'], .asNamespace, line⟩], without clause found)

/-- A comma or a layout character. -/
def isClausePadding (c : Char) : Bool :=
  c == ' ' || c == '\t' || c == '\r' || c == '\n' || c == ','

/-- The binding of the default export, if that is all that is left of a clause. -/
def takeDefault (module : Text) (line : Nat) (clause : Text) : List Binding :=
  let trimmed := ((clause.dropWhile isClausePadding).reverse.dropWhile isClausePadding).reverse
  if name.isFullMatch trimmed then [⟨trimmed, module, "default".toList, .asDefault, line⟩] else []

/-- The bindings of a clause: the names between braces, the whole module, the default export. -/
def readClause (module : Text) (line : Nat) (clause : Text) : List Binding :=
  let (named, afterNamed) := takeNamed module line clause
  let (whole, rest) := takeNamespace module line afterNamed
  named ++ whole ++ takeDefault module line rest

/-- The removal of a statement with the semicolons and blanks after it and the line break. -/
def statementLineRemoval (masked : Text) (start stop : Nat) : Edit :=
  let stop := Text.skip (fun c => Text.isIndent c || c == ';') masked stop
  Edit.deletion start (if masked[stop]? = some '\n' then stop + 1 else stop)

/-- The statement that a match begins, and its removal; nothing where the quote is never closed. -/
def readStatement? (text masked : Text) (catalog : Catalog) (found : Match) :
    Option (Statement × Edit) :=
  let opened := found.stop - 1
  match found.captured masked 2 with
  | [] => none
  | quote :: _ =>
      match Text.offsetOf? quote masked (opened + 1) with
      | none => none
      | some closed =>
          let written := Text.slice text (opened + 1) closed
          let module := catalog.canonicalModule written
          let line := Source.lineNumberAt text found.start
          some
            (⟨written, module, readClause module line (found.captured masked 1), line⟩,
              statementLineRemoval masked found.start (closed + 1))

/-- A text without the line breaks it begins with. -/
def withoutLeadingBreaks (text : Text) : Text :=
  text.dropWhile (· == '\n')

/-- A source without its import statements, and the statements. -/
def removeStatements (text : Text) (catalog : Catalog) : Text × List Statement :=
  let masked := Source.mask text
  let found := (statementHead.all masked).filterMap (readStatement? text masked catalog)
  (withoutLeadingBreaks (Edit.applyAll (found.map (·.2)) text), found.map (·.1))

end SceneBundler.Imports
