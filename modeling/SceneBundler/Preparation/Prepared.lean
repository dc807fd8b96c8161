import SceneBundler.Preparation.Run
import SceneBundler.Preparation.Verdict
import SceneBundler.Project.Assembly

/-!
Contract: projects made ready from sources.

Owns: the step from a source to its project, or to the first reason why there is none.

Does not own: the stages, and the checks of assembly.
-/

namespace SceneBundler

/-- A project and the outcome of the run that it was made from. -/
structure Prepared where
  bundle : Bundle
  outcome : Outcome
deriving DecidableEq, Repr

/-- Why a source has no project. -/
inductive PreparationFault where
  | stage (failure : StageFailure)
  | assembly (fault : AssemblyFault)
deriving DecidableEq, Repr

/-- A fault as a sentence. -/
def PreparationFault.message : PreparationFault -> Text
  | stage failure => failure.finding.message
  | assembly fault => fault.message

namespace Prepared

/-- The findings that did not keep the project from being made. -/
def warnings (prepared : Prepared) : List Diagnostic :=
  prepared.outcome.warnings

/-- The project of a source. -/
def ofSource (framework : Framework) (text : Text) (allowUnverified : Bool) :
    Except PreparationFault Prepared :=
  let outcome := Outcome.ofSource framework text
  match outcome.failure? allowUnverified with
  | some failure => .error (.stage failure)
  | none =>
      match Bundle.assemble framework outcome.text outcome.manifest outcome.isBalanced with
      | .error fault => .error (.assembly fault)
      | .ok bundle => .ok ⟨bundle, outcome⟩

end Prepared

end SceneBundler
