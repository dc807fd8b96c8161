import SceneBundler.Diagnostic
import SceneBundler.Imports.Manifest

/-!
Contract: what a run over the stages has come to.

Owns: the text after the last stage, the findings of all stages so far, whether the last stage
changed the text, and the manifest once there is one.

Does not own: the stages.
-/

namespace SceneBundler

/-- The state of a run between two stages. -/
structure Outcome where
  text : Text
  diagnostics : List Diagnostic
  changed : Bool
  manifest : Option Manifest
deriving DecidableEq, Repr

namespace Outcome

/-- The run before its first stage. -/
def initial (text : Text) : Outcome :=
  ⟨text, [], false, none⟩

/-- The run after a stage: its text, its findings after those made before, and its manifest if it has
one. -/
def advance (outcome : Outcome) (text : Text) (found : List Diagnostic)
    (manifest : Option Manifest) : Outcome :=
  { text := text
    diagnostics := outcome.diagnostics ++ found
    changed := text != outcome.text
    manifest := manifest.or outcome.manifest }

/-- The findings that block the run. -/
def errors (outcome : Outcome) : List Diagnostic :=
  outcome.diagnostics.filter Diagnostic.isError

/-- The findings that do not. -/
def warnings (outcome : Outcome) : List Diagnostic :=
  outcome.diagnostics.filter fun diagnostic => !diagnostic.isError

end Outcome

end SceneBundler
