import SceneBundler.Catalog.Basic
import SceneBundler.Diagnostic
import SceneBundler.Source.Mask
import SceneBundler.Source.Position
import SceneBundler.Source.Tag
import SceneBundler.Text.Edit

/-!
Contract: the JSX elements of a source against a catalog.

Owns:
- capitalized tags that stand for a framework's host elements;
- elements of components that nobody declares or exports.

Does not own: identifiers outside tags.
-/

namespace SceneBundler.Imports

open Source (Tag)

/-- A source whose tags have their intrinsic names. -/
def renameIntrinsicTags (catalog : Catalog) (declared : List Text) (body : Text) : Text :=
  if catalog.intrinsicAliases.isEmpty then body
  else
    let edits := (Tag.scan (Source.mask body)).filterMap fun tag =>
      (catalog.intrinsicAliases.lookup tag.name).bind fun intrinsic =>
        if declared.contains tag.name then none
        else some ⟨tag.nameStart, tag.nameStart + tag.name.length, intrinsic⟩
    Edit.applyAll edits body

/-- Whether a tag opens an element of a component that is neither exported nor declared. -/
def isHallucinated (catalog : Catalog) (declared : List Text) (tag : Tag) : Bool :=
  tag.kind != .closing && tag.isComponent && !catalog.provides tag.rootIdentifier &&
    !declared.contains tag.rootIdentifier

/-- The end of the element that a tag at a position opens: its closing tag's, or else its own. -/
def elementEnd (tags : List Tag) (position : Nat) (tag : Tag) : Nat :=
  if tag.kind = .opening then
    match (Tag.findClosing? tags position).bind fun closing => tags[closing]? with
    | some closing => closing.stop
    | none => tag.stop
  else tag.stop

/-- The removal of an element, with its lines where it stands alone on them. -/
def elementRemoval (masked : Text) (start stop : Nat) : Edit :=
  let lineStart := Source.lineStartBefore masked start
  let lineEnd := Source.lineEndFrom masked stop
  if Text.isBlank (Text.slice masked lineStart start) &&
      Text.isBlank (Text.slice masked stop lineEnd) then
    Edit.deletion lineStart (min (lineEnd + 1) masked.length)
  else Edit.deletion start stop

/-- A source without the elements of unknown components, and a report on each. -/
def removeHallucinated (catalog : Catalog) (declared : List Text) (body : Text) :
    Text × List Diagnostic :=
  let masked := Source.mask body
  let tags := Tag.scan masked
  let found := tags.zipIdx.filter fun (tag, _) => isHallucinated catalog declared tag
  (Edit.applyAll
      (found.map fun (tag, position) =>
        elementRemoval masked tag.start (elementEnd tags position tag))
      body,
    found.map fun (tag, _) =>
      .warning .resolve "hallucinated_component"
        ('<' :: tag.name ++ "> is not exported by ".toList ++ catalog.framework.tag ++
          "; the element was removed.".toList)
        (some (Source.lineNumberAt masked tag.start)))

end SceneBundler.Imports
