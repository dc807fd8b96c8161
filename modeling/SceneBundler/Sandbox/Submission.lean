import SceneBundler.Number.Shortest
import SceneBundler.Sandbox.Body
import SceneBundler.Sandbox.Exchange
import SceneBundler.Sandbox.Marker

/-!
Contract: submitting a project to the sandbox service.

Owns: the one exchange of a submission, and what its outcome is called.

Does not own: finding an identifier, and reading a body.
-/

namespace SceneBundler.Sandbox

/-- A created sandbox. -/
structure Submission where
  identifier : Text
  status : Int
  viewerUrl : Text
  embedUrl : Text
deriving DecidableEq, Repr

/-- Why no sandbox was created. -/
inductive SubmissionFault where
  | timedOut (timeout : Binary64)
  | unreachable (url description : Text)
  | rejected (status : Int) (excerpt : Text)
  /-- The service was content, but named no sandbox. -/
  | malformed (status : Int) (excerpt : Text)
  /-- The service was content, but its answer goes beyond the bounds of reading. -/
  | excessive (excess : Json.Excess)
deriving DecidableEq, Repr

namespace SubmissionFault

/-- The name of a fault in reports; one that is not foreseen there has none. -/
def name? : SubmissionFault -> Option Text
  | timedOut _ => some "SubmissionTimeout".toList
  | unreachable _ _ => some "TransportError".toList
  | rejected _ _ => some "SubmissionRejected".toList
  | malformed _ _ => some "MalformedResponse".toList
  | excessive _ => none

/-- A fault as a sentence. -/
def message : SubmissionFault -> Text
  | timedOut timeout =>
      "Sandbox service did not answer within ".toList ++ timeout.general ++
        "s. Raise SCENEPACK_REQUEST_TIMEOUT_SECONDS or retry later.".toList
  | unreachable url description =>
      "Failed to reach sandbox service at ".toList ++ url ++ ": ".toList ++ description ++ ['.']
  | rejected status excerpt =>
      "Sandbox service rejected the submission with HTTP ".toList ++ Text.ofInt status ++
        ": ".toList ++ excerpt
  | malformed status _ =>
      "Sandbox service answered HTTP ".toList ++ Text.ofInt status ++
        " without a sandbox identifier. The response format may have changed.".toList
  | excessive excess => excess.message

/-- The status of the answer, where there was one, and the excerpt of its body. -/
def answer? : SubmissionFault -> Option (Int × Text)
  | rejected status excerpt => some (status, excerpt)
  | malformed status excerpt => some (status, excerpt)
  | _ => none

/-- The fault of a connection. -/
def ofConnection (configuration : Configuration) (problem : ConnectionProblem) : SubmissionFault :=
  if problem.isTimeout then timedOut configuration.timeout
  else unreachable (defineUrl configuration) problem.description

end SubmissionFault

/-- The identifier that an answer gives.  A redirection gives one by its address only, and a success
by its body only. -/
def answeredIdentifier (configuration : Configuration) (status : Int) (headers : List (Text × Text))
    (body : Text) : Except SubmissionFault Text :=
  let shown := excerpt configuration.excerptLength body
  let redirected :=
    if 300 ≤ status && status < 400 then redirectIdentifier? headers else none
  match redirected with
  | some identifier => .ok identifier
  | none =>
      if 200 ≤ status && status < 300 then
        match Sandbox.identifier body with
        | .ok (some found) => .ok found
        | .ok none => .error (.malformed status shown)
        | .error excess => .error (.excessive excess)
      else .error (.rejected status shown)

/-- The sandbox with an identifier. -/
def Submission.ofIdentifier (configuration : Configuration) (status : Int) (identifier : Text) :
    Submission :=
  { identifier := identifier
    status := status
    viewerUrl := Sandbox.viewerUrl configuration.origin identifier
    embedUrl := Sandbox.embedUrl configuration.origin identifier }

/-- What came of a submission, and what was done for it in order. -/
structure Submitted where
  result : Except SubmissionFault Submission
  events : List Event

/-- What an answer comes to once it is read and closed. -/
def settle (configuration : Configuration) (response : Response) (taken : List Octets)
    (exhausted : Bool) : Except SubmissionFault Submission :=
  match if exhausted then response.problem else none with
  | some problem => .error (.ofConnection configuration problem)
  | none =>
      (answeredIdentifier configuration response.status response.headers
        (boundedText bodyLimit taken.flatten)).map
        (Submission.ofIdentifier configuration response.status)

/-- A project submitted: one request, and its answer read and closed. -/
def submit (configuration : Configuration) (bundle : Bundle) (exchange : Exchange) : Submitted :=
  let posted := Event.posted (.ofBundle configuration bundle)
  match exchange with
  | .unanswered problem => ⟨.error (.ofConnection configuration problem), [posted]⟩
  | .answered response =>
      let (taken, exhausted) := takenChunks bodyLimit response.chunks
      ⟨settle configuration response taken exhausted,
        posted :: taken.map Event.chunkTaken ++ [.closed]⟩

end SceneBundler.Sandbox
