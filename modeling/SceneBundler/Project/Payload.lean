import SceneBundler.Json.Printer
import SceneBundler.Project.Bundle

/-!
Contract: projects as JSON.

Owns: the value that stands for a project, and its two written forms.

Does not own: sending it.
-/

namespace SceneBundler.Bundle

open Json (Value)

/-- One file as a value. -/
def fileValue (file : ProjectFile) : Value :=
  .object [("content".toList, .string file.content), ("isBinary".toList, .boolean file.isBinary)]

/-- A project as a value: its files by path.  Of files with one path the last one counts, in the
place of the first. -/
def payload (bundle : Bundle) : Value :=
  .object [("files".toList,
    Value.ofFields (bundle.files.map fun file => (file.path, fileValue file)))]

/-- The payload for people to read, with a line break at its end. -/
def payloadText (bundle : Bundle) : Text :=
  Json.printIndented bundle.payload ++ ['\n']

/-- The payload as it is sent. -/
def requestBody (bundle : Bundle) : Text :=
  Json.printCompact bundle.payload

end SceneBundler.Bundle
