import SceneBundler.Catalog.Basic
import SceneBundler.Diagnostic
import SceneBundler.Source.Position
import SceneBundler.Source.Tag
import SceneBundler.Text.Pattern

/-!
Contract: the identifiers that a source uses.

Owns: identifiers in tags, calls, member accesses, lists of values and extends clauses, and the
report on hooks that nobody provides.

Does not own: where the identifiers come from.
-/

namespace SceneBundler.Imports

open Pattern (literal char name blanks gap wordBoundary capture oneOf)
open Source (Tag)

/-- A name, kept as 1, that is not part of a longer name or member access. -/
def freeName : Pattern :=
  Pattern.notAfter (fun c => Character.continuesName c || c == '.') ++ capture 1 name

/-- A call of a name. -/
def call : Pattern :=
  freeName ++ blanks ++ char '('

/-- An access to a member of a name. -/
def memberAccess : Pattern :=
  freeName ++ blanks ++ char '.' ++ Pattern.notBefore (· == '.')

/-- A name that stands alone between separators or brackets. -/
def valueReference : Pattern :=
  Pattern.after (fun c => "(,[\x7b".toList.contains c) ++ blanks ++ capture 1 name ++ blanks ++
    .ahead true (oneOf ",)]\x7d".toList)

/-- The name that a class extends. -/
def extendsClause : Pattern :=
  wordBoundary ++ literal "extends" ++ gap ++ capture 1 name

/-- The identifiers that a masked source uses. -/
def usedIdentifiers (masked : Text) : List Text :=
  let ofTags := ((Tag.scan masked).filter fun tag => tag.kind != .closing && tag.isComponent).map
    Tag.rootIdentifier
  ofTags ++ [call, memberAccess, valueReference, extendsClause].flatMap fun pattern =>
    (pattern.all masked).map fun found => found.captured masked 1

/-- The name of a hook: `use` and a capitalized word. -/
def hookName : Pattern :=
  literal "use" ++ .one Char.isUpper ++ Pattern.star Character.continuesName

/-- The reports on the hooks that are called but neither provided nor declared, one for each at its
first call. -/
def unknownHookReports (catalog : Catalog) (declared : List Text) (body masked : Text) :
    (reported : List Text) -> List Match -> List Diagnostic
  | _, [] => []
  | reported, found :: rest =>
      let hook := found.captured masked 1
      if !hookName.isFullMatch hook || catalog.provides hook || declared.contains hook ||
          reported.contains hook then
        unknownHookReports catalog declared body masked reported rest
      else
        .warning .resolve "unknown_hook"
            ("Hook ".toList ++ Diagnostic.named hook ++ " is not provided by ".toList ++
              catalog.framework.tag ++ ['.'])
            (some (Source.lineNumberAt body found.start)) ::
          unknownHookReports catalog declared body masked (hook :: reported) rest

end SceneBundler.Imports
