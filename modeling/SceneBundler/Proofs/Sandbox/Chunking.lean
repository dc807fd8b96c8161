import SceneBundler.Proofs.Sandbox.Classification

/-!
Contract: a body in chunks and the same body in one piece.

Owns:
- what is read of a body: the octets that are looked at, or the problem that is met before there are as many;
- that a submission is settled by its status, its headers and what is read;
- that what is read, and what a submission comes to, does not depend on how the body is cut into chunks.

Does not own: what the octets say.
-/

namespace SceneBundler.Sandbox

/-- What is read of a body: the octets that are looked at, or the problem that is met before there are as many
of them. -/
def Response.read (response : Response) : Except ConnectionProblem Octets :=
  let (taken, exhausted) := takenChunks bodyLimit response.chunks
  match if exhausted then response.problem else none with
  | some problem => .error problem
  | none => .ok (taken.flatten.take bodyLimit)

namespace Response

variable {response other : Response}

theorem read_eq (response : Response) :
    response.read =
      match (Exchange.answered response).problem? with
      | some problem => .error problem
      | none => .ok (response.chunks.flatten.take bodyLimit) := by
  have positive : 0 < bodyLimit := by decide
  have exhausted := exhausted_takenChunks_iff positive response.chunks
  have metWhere : (if (takenChunks bodyLimit response.chunks).2 then response.problem else none) =
      (Exchange.answered response).problem? := by
    rw [Exchange.problem?]
    exact if_congr exhausted rfl rfl
  unfold read
  dsimp only
  rw [metWhere, take_flatten_takenChunks]

theorem problem?_eq_none_iff :
    (Exchange.answered response).problem? = none ↔
      response.problem = none ∨ bodyLimit ≤ bodyLength response.chunks := by
  rw [Exchange.problem?, ite_eq_right_iff]
  by_cases short : bodyLength response.chunks < bodyLimit
  · simp only [short, true_imp_iff, Nat.not_le.mpr short, or_false]
  · simp only [short, false_imp_iff, Nat.not_lt.mp short, or_true]

theorem problem?_eq_some_iff {problem : ConnectionProblem} :
    (Exchange.answered response).problem? = some problem ↔
      response.problem = some problem ∧ bodyLength response.chunks < bodyLimit := by
  rw [Exchange.problem?, Option.ite_none_right_eq_some, and_comm]

/-- The octets that are looked at are read just if no problem is met before, and they are the first ones of
all chunks together. -/
theorem read_eq_ok_iff {octets : Octets} :
    response.read = .ok octets ↔
      (response.problem = none ∨ bodyLimit ≤ bodyLength response.chunks) ∧
        octets = response.chunks.flatten.take bodyLimit := by
  rw [read_eq, ← problem?_eq_none_iff]
  cases (Exchange.answered response).problem? with
  | none => simp only [Except.ok.injEq, true_and, eq_comm]
  | some problem => simp only [reduceCtorEq, false_and]

/-- The problem of a body is met just if all its chunks together are shorter than what is looked at. -/
theorem read_eq_error_iff {problem : ConnectionProblem} :
    response.read = .error problem ↔
      response.problem = some problem ∧ bodyLength response.chunks < bodyLimit := by
  rw [read_eq, ← problem?_eq_some_iff]
  cases (Exchange.answered response).problem? with
  | none => simp only [reduceCtorEq]
  | some met => simp only [Except.error.injEq, Option.some.injEq]

theorem read_of_same_octets (sameOctets : other.chunks.flatten = response.chunks.flatten)
    (sameProblem : other.problem = response.problem ∨ bodyLimit ≤ bodyLength response.chunks) :
    other.read = response.read := by
  have sameLength : bodyLength other.chunks = bodyLength response.chunks := by
    rw [bodyLength, sameOctets, bodyLength]
  have sameMet : (Exchange.answered other).problem? = (Exchange.answered response).problem? := by
    rw [Exchange.problem?, Exchange.problem?, sameLength]
    rcases sameProblem with isSame | isLong
    · rw [isSame]
    · rw [if_neg (Nat.not_lt.mpr isLong), if_neg (Nat.not_lt.mpr isLong)]
  rw [read_eq, read_eq, sameMet, sameOctets]

end Response

section Submissions

variable (configuration : Configuration) (bundle : Bundle) (response : Response)

/-- A submission is settled by the status, the headers and what is read of the body. -/
theorem result_of_read :
    (submit configuration bundle (.answered response)).result =
      match response.read with
      | .error problem => .error (.ofConnection configuration problem)
      | .ok octets =>
          (answeredIdentifier configuration response.status response.headers
            (boundedText bodyLimit octets)).map
            (Submission.ofIdentifier configuration response.status) := by
  rw [Response.read_eq]
  cases met : (Exchange.answered response).problem? with
  | some problem => exact result_of_problem met
  | none =>
      have sameText : boundedText bodyLimit (response.chunks.flatten.take bodyLimit) = response.text := by
        rw [boundedText, leading_natCast, List.take_take, Nat.min_self, Response.text]
      dsimp only
      rw [result_of_answer met, sameText]

/-- What is read of a body in chunks, what a submission makes of it, and that both are the same for every
other way in which the octets can come in. -/
structure IsReadAsOne : Prop where
  octets (octets : Octets) :
    response.read = .ok octets ↔
      (response.problem = none ∨ bodyLimit ≤ bodyLength response.chunks) ∧
        octets = response.chunks.flatten.take bodyLimit
  problem (problem : ConnectionProblem) :
    response.read = .error problem ↔
      response.problem = some problem ∧ bodyLength response.chunks < bodyLimit
  result :
    (submit configuration bundle (.answered response)).result =
      match response.read with
      | .error problem => .error (.ofConnection configuration problem)
      | .ok octets =>
          (answeredIdentifier configuration response.status response.headers
            (boundedText bodyLimit octets)).map
            (Submission.ofIdentifier configuration response.status)
  rechunked (other : Response) (sameStatus : other.status = response.status)
      (sameHeaders : other.headers = response.headers)
      (sameOctets : other.chunks.flatten = response.chunks.flatten)
      (sameProblem : other.problem = response.problem ∨ bodyLimit ≤ bodyLength response.chunks) :
    other.read = response.read ∧
      (submit configuration bundle (.answered other)).result =
        (submit configuration bundle (.answered response)).result

/-- What is read of a body are its first octets, however they come in chunks, and a problem only where they
are too few.  Two answers that differ in nothing but their chunks come to the same. -/
theorem submit_isReadAsOne : IsReadAsOne configuration bundle response where
  octets _ := Response.read_eq_ok_iff
  problem _ := Response.read_eq_error_iff
  result := result_of_read configuration bundle response
  rechunked other sameStatus sameHeaders sameOctets sameProblem := by
    have sameRead := Response.read_of_same_octets sameOctets sameProblem
    refine ⟨sameRead, ?_⟩
    rw [result_of_read, result_of_read, sameRead, sameStatus, sameHeaders]

end Submissions

end SceneBundler.Sandbox
