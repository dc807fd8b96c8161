import SceneBundler.Dialect.Annotation
import SceneBundler.Dialect.Enumeration
import SceneBundler.Dialect.TypeDeclaration

/-!
Contract: TypeScript source turned into plain JavaScript.

Owns:
- the passes, each of which reads the masked view and deletes from the source until nothing is left
  for it to delete;
- the reports on constructs that plain JavaScript has no form for.

Does not own: the single passes.
-/

namespace SceneBundler.Dialect

open Pattern (literal char name blanks gap indent maybe star lineStart wordBoundary)

/-- A namespace or module block through its brace; its name is kept as 1. -/
def namespaceBlock : Pattern :=
  lineStart ++ indent ++ maybe (literal "export" ++ gap) ++
    (literal "namespace" <|> literal "module") ++ gap ++
    .capture 1 (.one Character.startsName ++
      star fun c => Character.continuesName c || c == '.') ++
    blanks ++ char '{'

/-- The head of an abstract class; its name is kept as 1. -/
def abstractClass : Pattern :=
  wordBoundary ++ literal "abstract" ++ gap ++ literal "class" ++ gap ++ .capture 1 name

/-- Reports on constructs that are left as they are. -/
def unsupportedConstructs (text : Text) : List Diagnostic :=
  let masked := Source.mask text
  let namespaces := (namespaceBlock.all masked).map fun found =>
    .warning .normalize "unsupported_namespace"
      ("Namespace ".toList ++ Diagnostic.named (found.captured masked 1) ++
        " has no JavaScript equivalent and was left unchanged.".toList)
      (Source.lineNumberAt text found.start)
  let classes := (abstractClass.all masked).map fun found =>
    .warning .normalize "unsupported_abstract_class"
      ("Abstract class ".toList ++ Diagnostic.named (found.captured masked 1) ++
        " was left unchanged.".toList)
      (Source.lineNumberAt text found.start)
  namespaces ++ classes

/-- Make the edits that a pass finds, at most `rounds` times, until they change nothing. -/
def editWithin (collect : Text -> List Edit) : (rounds : Nat) -> Text -> Text
  | 0, text => text
  | rounds + 1, text =>
      let edited := Edit.applyAll (collect (Source.mask text)) text
      if edited = text then text else editWithin collect rounds edited

/-- Make the edits that a pass finds until they change nothing. -/
def editUntilSettled (collect : Text -> List Edit) (text : Text) : Text :=
  editWithin collect (text.length + 1) text

/-- The passes in order. -/
def passes : List (Text -> List Edit) :=
  [typeDeclarationEdits, typeArgumentEdits, nonNullEdits, castEdits, classMemberEdits,
    declarationEdits, signatureEdits]

/-- A source without its TypeScript syntax, and reports on what was left. -/
def normalize (text : Text) : Text × List Diagnostic :=
  let unsupported := unsupportedConstructs text
  let (converted, computed) := convertEnums text
  let erased := passes.foldl (fun current collect => editUntilSettled collect current) converted
  (erased, Order.sort Diagnostic.le (unsupported ++ computed))

end SceneBundler.Dialect
