import SceneBundler.Configuration
import SceneBundler.Project.Payload
import SceneBundler.Text.Utf8

/-!
Contract: one exchange with the sandbox service.

Owns: the request that creates a sandbox, what can come back, and the record of what was done.

Does not own: what an answer means.
-/

namespace SceneBundler.Sandbox

/-- What kind of thing went wrong on the line. -/
inductive ProblemKind where
  /-- The time for connecting or for an answer was up. -/
  | timeLimit
  /-- The connection failed; while a body is read, the time being up is reported in this way too. -/
  | connection (timeWasUp : Bool)
  | other
deriving DecidableEq, Repr

/-- Something that went wrong on the line, described in words. -/
structure ConnectionProblem where
  kind : ProblemKind
  description : Text
deriving DecidableEq, Repr

/-- Whether the time was up, however that is reported. -/
def ConnectionProblem.isTimeout (problem : ConnectionProblem) : Bool :=
  match problem.kind with
  | .timeLimit => true
  | .connection timeWasUp => timeWasUp
  | .other => false

/-- An answer: its status and headers, its body in chunks, and the problem with which the body
breaks off after them, if it does. -/
structure Response where
  status : Int
  headers : List (Text × Text)
  chunks : List Octets
  problem : Option ConnectionProblem
deriving DecidableEq, Repr

/-- What comes of a request. -/
inductive Exchange where
  | unanswered (problem : ConnectionProblem)
  | answered (response : Response)
deriving DecidableEq, Repr

/-- A request.  Redirections are reported rather than followed, and the body of the answer is read
in chunks. -/
structure Request where
  url : Text
  headers : List (Text × Text)
  timeout : Binary64
  followsRedirections : Bool
  readsInChunks : Bool
  body : Text
deriving DecidableEq, Repr

/-- What a submission does on the line. -/
inductive Event where
  | posted (request : Request)
  | chunkTaken (chunk : Octets)
  | closed
deriving DecidableEq, Repr

/-- Where sandboxes are created. -/
def defineUrl (configuration : Configuration) : Text :=
  configuration.origin ++ "/api/v1/sandboxes/define".toList

/-- Where a sandbox is viewed. -/
def viewerUrl (origin identifier : Text) : Text :=
  origin ++ "/s/".toList ++ identifier

/-- Where a sandbox is shown within another page. -/
def embedUrl (origin identifier : Text) : Text :=
  origin ++ "/embed/".toList ++ identifier

/-- The header that shows a key; an empty key is not shown. -/
def authorization (key : Text) : List (Text × Text) :=
  if key.isEmpty then [] else [("Authorization".toList, "Bearer ".toList ++ key)]

/-- The request that creates a sandbox from a project. -/
def Request.ofBundle (configuration : Configuration) (bundle : Bundle) : Request :=
  { url := defineUrl configuration
    headers :=
      [("Content-Type".toList, "application/json".toList),
        ("Accept".toList, "text/html,application/json".toList)] ++
        (configuration.apiKey.map authorization).getD []
    timeout := configuration.timeout
    followsRedirections := false
    readsInChunks := true
    body := bundle.requestBody }

end SceneBundler.Sandbox
