import SceneBundler.Balance.OrphanLine
import SceneBundler.Text.Edit

/-!
Contract: repair of brackets and tags that do not balance.

Owns:
- making component tags self-closing whose closing tag never comes;
- the order of repairs, and the report on what is still unbalanced.

Does not own: which lines are orphans.
-/

namespace SceneBundler.Balance

open Source (Tag)

/-- The opening tags of components that no later tag closes. -/
def danglingTags (tags : List Tag) : List Tag :=
  tags.zipIdx.filterMap fun (tag, position) =>
    if tag.kind = .opening && tag.isComponent && (Tag.findClosing? tags position).isNone then
      some tag
    else none

/-- The edit that makes a tag self-closing. -/
def selfClosing (text : Text) (tag : Tag) : Edit :=
  let place := tag.stop - 1
  let blankBefore := text[place - 1]?.any Character.isBlank
  ⟨place, place, if blankBefore then ['/'] else [' ', '/']⟩

/-- A source whose dangling component tags close themselves, and a report on each. -/
def closeDanglingTags (text : Text) : Text × List Diagnostic :=
  let masked := Source.mask text
  let dangling := danglingTags (Tag.scan masked)
  (Edit.applyAll (dangling.map (selfClosing text)) text,
    dangling.map fun tag =>
      .warning .repair "unclosed_tag_self_closed"
        ("Tag <".toList ++ tag.name ++
          "> has no closing tag and was made self-closing.".toList)
        (some (Source.lineNumberAt masked tag.start)))

/-- A source after all repairs, with the reports on them and on what they could not settle. -/
def repair (text : Text) : Text × List Diagnostic :=
  let (swept, orphans) := removeOrphanLines text
  let (closed, dangling) := closeDanglingTags swept
  let imbalance := describe closed
  let remaining :=
    if imbalance.isEmpty then []
    else
      [.error .repair "structural_imbalance"
        ("Source is still unbalanced after repair: ".toList ++ imbalance ++ ['.'])]
  (closed, orphans ++ dangling ++ remaining)

end SceneBundler.Balance
