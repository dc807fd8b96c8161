import SceneBundler.Proofs.Sandbox.Answer
import SceneBundler.Proofs.Text.Blank
import SceneBundler.Sandbox.Submission

/-!
Contract: what a submission comes to.

Owns:
- the problem that a submission meets, and the identifier that its answer gives;
- the requests and the closings of a submission;
- for each way in which a submission can end, when it ends in that way.

Does not own: the text of the reports.
-/

namespace SceneBundler.Sandbox

/-- The problem that a submission meets: the one that its request came to, or the one with which the body
of the answer breaks off, where that is within the part of the body that is looked at. -/
def Exchange.problem? : Exchange -> Option ConnectionProblem
  | .unanswered problem => some problem
  | .answered response => if bodyLength response.chunks < bodyLimit then response.problem else none

namespace Response

variable (response : Response)

/-- The text of the part of a body that is looked at. -/
def text : Text :=
  Utf8.decodeLenient (response.chunks.flatten.take bodyLimit)

/-- Whether the service was satisfied. -/
def Succeeds : Prop :=
  200 ≤ response.status ∧ response.status < 300

/-- Whether the service refers to another address. -/
def Redirects : Prop :=
  300 ≤ response.status ∧ response.status < 400

/-- Whether an answer gives an identifier: a redirection by its address, a success by its body. -/
def Gives (identifier : Text) : Prop :=
  (response.Redirects ∧ redirectIdentifier? response.headers = some identifier) ∨
    (response.Succeeds ∧ Sandbox.identifier response.text = .ok (some identifier))

end Response

section Answers

variable {configuration : Configuration} {response : Response} {text : Text}

theorem answeredIdentifier_of_redirects {identifier : Text} (redirects : response.Redirects)
    (given : redirectIdentifier? response.headers = some identifier) :
    answeredIdentifier configuration response.status response.headers text = .ok identifier := by
  have inRange : (300 ≤ response.status && response.status < 400) = true := by
    simpa [Response.Redirects] using redirects
  simp only [answeredIdentifier, if_pos inRange, given]

theorem answeredIdentifier_of_succeeds (succeeds : response.Succeeds) :
    answeredIdentifier configuration response.status response.headers text =
      match Sandbox.identifier text with
      | .ok (some found) => .ok found
      | .ok none => .error (.malformed response.status (excerpt configuration.excerptLength text))
      | .error excess => .error (.excessive excess) := by
  have outOfRange : ¬ (300 ≤ response.status && response.status < 400) = true := by
    have := succeeds.2
    simp only [Bool.and_eq_true, decide_eq_true_eq]
    omega
  have inRange : (200 ≤ response.status && response.status < 300) = true := by
    simpa [Response.Succeeds] using succeeds
  rcases inBody : Sandbox.identifier text with excess | _ | found <;>
    simp only [answeredIdentifier, if_neg outOfRange, if_pos inRange, inBody]

theorem answeredIdentifier_of_neither (fails : ¬ response.Succeeds)
    (notGiven : response.Redirects → redirectIdentifier? response.headers = none) :
    answeredIdentifier configuration response.status response.headers text =
      .error (.rejected response.status (excerpt configuration.excerptLength text)) := by
  have outOfRange : ¬ (200 ≤ response.status && response.status < 300) = true := by
    simpa [Response.Succeeds] using fails
  unfold answeredIdentifier
  by_cases redirects : response.Redirects
  · have inRange : (300 ≤ response.status && response.status < 400) = true := by
      simpa [Response.Redirects] using redirects
    simp only [if_pos inRange, notGiven redirects, if_neg outOfRange]
  · have notRedirecting : ¬ (300 ≤ response.status && response.status < 400) = true := by
      simpa [Response.Redirects] using redirects
    simp only [if_neg notRedirecting, if_neg outOfRange]

end Answers

/-! ## The end of a submission -/

section Submissions

variable {configuration : Configuration} {bundle : Bundle} {exchange : Exchange} {response : Response}

theorem settle_takenChunks (configuration : Configuration) (response : Response) :
    settle configuration response (takenChunks bodyLimit response.chunks).1
        (takenChunks bodyLimit response.chunks).2 =
      match (Exchange.answered response).problem? with
      | some problem => .error (.ofConnection configuration problem)
      | none =>
          (answeredIdentifier configuration response.status response.headers response.text).map
            (Submission.ofIdentifier configuration response.status) := by
  unfold settle Exchange.problem? Response.text
  have positive : 0 < bodyLimit := by decide
  have exhausted := exhausted_takenChunks_iff positive response.chunks
  rw [boundedText_takenChunks]
  by_cases short : bodyLength response.chunks < bodyLimit
  · cases isProblem : response.problem <;>
      simp only [exhausted.mpr short, if_pos short, if_true, isProblem]
  · simp only [mt exhausted.mp short, if_neg short]
    rfl

theorem problem?_of_whole (whole : response.problem = none) :
    (Exchange.answered response).problem? = none := by
  rw [Exchange.problem?, whole, ite_self]

theorem result_of_problem {problem : ConnectionProblem} (met : exchange.problem? = some problem) :
    (submit configuration bundle exchange).result = .error (.ofConnection configuration problem) := by
  cases exchange with
  | unanswered other =>
      obtain rfl := Option.some.inj met
      rfl
  | answered response =>
      have settled := settle_takenChunks configuration response
      rw [met] at settled
      exact settled

theorem result_of_answer (unhindered : (Exchange.answered response).problem? = none) :
    (submit configuration bundle (.answered response)).result =
      (answeredIdentifier configuration response.status response.headers response.text).map
        (Submission.ofIdentifier configuration response.status) := by
  have settled := settle_takenChunks configuration response
  rw [unhindered] at settled
  exact settled

end Submissions

/-! ## The ways in which a submission ends -/

/-- How a submission to which something comes back ends, in one of six ways. -/
inductive Ends (configuration : Configuration) (exchange : Exchange) :
    Except SubmissionFault Submission -> Prop where
  | timedOut {problem : ConnectionProblem} (met : exchange.problem? = some problem)
      (timeWasUp : problem.isTimeout = true) :
      Ends configuration exchange (.error (.timedOut configuration.timeout))
  | unreachable {problem : ConnectionProblem} (met : exchange.problem? = some problem)
      (timeWasLeft : problem.isTimeout = false) :
      Ends configuration exchange (.error (.unreachable (defineUrl configuration) problem.description))
  | succeeds {response : Response} {identifier : Text} (answered : exchange = .answered response)
      (unhindered : exchange.problem? = none) (given : response.Gives identifier) :
      Ends configuration exchange (.ok (.ofIdentifier configuration response.status identifier))
  | malformed {response : Response} (answered : exchange = .answered response)
      (unhindered : exchange.problem? = none) (satisfied : response.Succeeds)
      (unnamed : Sandbox.identifier response.text = .ok none) :
      Ends configuration exchange
        (.error (.malformed response.status (excerpt configuration.excerptLength response.text)))
  | excessive {response : Response} {excess : Json.Excess} (answered : exchange = .answered response)
      (unhindered : exchange.problem? = none) (satisfied : response.Succeeds)
      (unreadable : Sandbox.identifier response.text = .error excess) :
      Ends configuration exchange (.error (.excessive excess))
  | rejected {response : Response} (answered : exchange = .answered response)
      (unhindered : exchange.problem? = none) (dissatisfied : ¬ response.Succeeds)
      (unrecognised : response.Redirects → redirectIdentifier? response.headers = none) :
      Ends configuration exchange
        (.error (.rejected response.status (excerpt configuration.excerptLength response.text)))

section Endings

variable {configuration : Configuration} {bundle : Bundle} {exchange : Exchange}

/-- A submission ends in no two ways. -/
theorem result_of_ends {result : Except SubmissionFault Submission}
    (ends : Ends configuration exchange result) :
    (submit configuration bundle exchange).result = result := by
  cases ends with
  | timedOut met timeWasUp => rw [result_of_problem met, SubmissionFault.ofConnection, if_pos timeWasUp]
  | unreachable met timeWasLeft =>
      rw [result_of_problem met, SubmissionFault.ofConnection, timeWasLeft]
      rfl
  | succeeds answered unhindered given =>
      subst answered
      rw [result_of_answer unhindered]
      rcases given with ⟨redirects, inAddress⟩ | ⟨satisfied, inBody⟩
      · rw [answeredIdentifier_of_redirects redirects inAddress]
        rfl
      · rw [answeredIdentifier_of_succeeds satisfied, inBody]
        rfl
  | malformed answered unhindered satisfied unnamed =>
      subst answered
      rw [result_of_answer unhindered, answeredIdentifier_of_succeeds satisfied, unnamed]
      rfl
  | excessive answered unhindered satisfied unreadable =>
      subst answered
      rw [result_of_answer unhindered, answeredIdentifier_of_succeeds satisfied, unreadable]
      rfl
  | rejected answered unhindered dissatisfied unrecognised =>
      subst answered
      rw [result_of_answer unhindered, answeredIdentifier_of_neither dissatisfied unrecognised]
      rfl

end Endings

/-! ## What is done on the line -/

end SceneBundler.Sandbox
