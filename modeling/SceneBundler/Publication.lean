import SceneBundler.Preparation.Prepared
import SceneBundler.Sandbox.Submission

/-!
Contract: from a source to a sandbox.

Owns: preparing a project and submitting it, where nothing is sent unless there is a project.

Does not own: either step.
-/

namespace SceneBundler

/-- Why a source has no sandbox. -/
inductive PublicationFault where
  | preparation (fault : PreparationFault)
  | submission (fault : Sandbox.SubmissionFault)
deriving DecidableEq, Repr

/-- A sandbox made from a source, and the findings that did not keep it from being made. -/
structure Publication where
  submission : Sandbox.Submission
  warnings : List Diagnostic
deriving DecidableEq, Repr

/-- What came of publishing a source, and what was done on the line for it. -/
structure Published where
  result : Except PublicationFault Publication
  events : List Sandbox.Event

namespace Published

/-- A project submitted. -/
def ofPrepared (configuration : Configuration) (exchange : Sandbox.Exchange) (prepared : Prepared) :
    Published :=
  let submitted := Sandbox.submit configuration prepared.bundle exchange
  let result :=
    match submitted.result with
    | .error fault => .error (.submission fault)
    | .ok submission => .ok ⟨submission, prepared.warnings⟩
  ⟨result, submitted.events⟩

/-- A source prepared and submitted. -/
def ofSource (configuration : Configuration) (exchange : Sandbox.Exchange) (framework : Framework)
    (text : Text) : Published :=
  match Prepared.ofSource framework text false with
  | .error fault => ⟨.error (.preparation fault), []⟩
  | .ok prepared => ofPrepared configuration exchange prepared

end Published

end SceneBundler
