import SceneBundler.Project.Payload
import SceneBundler.Proofs.Json.RoundTrip

/-!
Contract: the payload of a project as it is read by the other side.

Owns:
- the last file of a project with a path;
- that the payload written for people and the one that is sent are read as one value, which has each
  path once and with it the last file that has the path.

Does not own: the projects that frameworks make.
-/

namespace SceneBundler.Bundle

open Json (Value)

/-- The last file with a path. -/
def lastFile? (bundle : Bundle) (path : Text) : Option ProjectFile :=
  bundle.files.reverse.find? fun file => file.path == path

/-- The files of a project by path, as the payload has them. -/
def payloadFiles (bundle : Bundle) : List (Text × Value) :=
  Value.collected (bundle.files.map fun file => (file.path, fileValue file))

theorem payload_eq (bundle : Bundle) :
    bundle.payload = .object [("files".toList, .object bundle.payloadFiles)] :=
  rfl

theorem names_payloadFiles (bundle : Bundle) :
    bundle.payloadFiles.map Prod.fst = bundle.paths.eraseDups := by
  rw [payloadFiles, Value.names_collected, List.map_map]
  rfl

theorem lookup_map_fileValue (files : List ProjectFile) (path : Text) :
    (files.map fun file => (file.path, fileValue file)).lookup path =
      (files.find? fun file => file.path == path).map fileValue := by
  induction files with
  | nil => rfl
  | cons file rest inductionHypothesis =>
      by_cases same : file.path = path
      · simp [same]
      · have different : path ≠ file.path := fun equal => same equal.symm
        simp [same, List.lookup_cons, beq_eq_false_iff_ne.mpr different, inductionHypothesis]

theorem lookup_payloadFiles (bundle : Bundle) (path : Text) :
    bundle.payloadFiles.lookup path = (bundle.lastFile? path).map fileValue := by
  rw [payloadFiles, Value.lookup_collected, ← List.map_reverse, lookup_map_fileValue, lastFile?]

/-! ## Reading -/

theorem isReadable_fileValue (depth : Nat) (file : ProjectFile) :
    (fileValue file).IsReadable (depth + 1) := by
  refine .object (by simp) ?_
  intro field member
  rcases List.mem_cons.mp member with isContent | isMark
  · rw [isContent]
    exact .string file.content
  · rw [List.mem_singleton.mp isMark]
    exact .boolean file.isBinary

theorem isReadable_payload (depth : Nat) (bundle : Bundle) :
    bundle.payload.IsReadable (depth + 3) := by
  have areFiles : ∀ field ∈ bundle.payloadFiles, field.2.IsReadable (depth + 1) := by
    intro field member
    obtain ⟨file, -, rfl⟩ := List.mem_map.mp (Value.mem_of_mem_collected member)
    exact isReadable_fileValue depth file
  rw [payload_eq]
  refine .object (List.nodup_singleton _) ?_
  intro field member
  rw [List.mem_singleton.mp member]
  exact .object (Value.nodup_names_collected _) areFiles

/-- Both written forms of a project are read as one value: an object of nothing but its files.  Each path
is there once, in the place of its first file, and has the content and the mark of its last file. -/
theorem read_payload (bundle : Bundle) :
    ∃ files : List (Text × Value),
      Json.read bundle.payloadText = .ok (.object [("files".toList, .object files)]) ∧
      Json.read bundle.requestBody = .ok (.object [("files".toList, .object files)]) ∧
      files.map Prod.fst = bundle.paths.eraseDups ∧
      ∀ path : Text, files.lookup path = (bundle.lastFile? path).map fun file =>
        .object [("content".toList, .string file.content), ("isBinary".toList, .boolean file.isBinary)] := by
  have readable : bundle.payload.IsReadable Json.greatestDepth := isReadable_payload 987 bundle
  refine ⟨bundle.payloadFiles, ?_, ?_, names_payloadFiles bundle, lookup_payloadFiles bundle⟩
  · exact Json.read_printValue readable (.indented 2) (List.forall_mem_singleton.mpr rfl)
  · have nothingBehind : ∀ c ∈ ([] : Text), Json.isSpace c = true := by simp
    have read := Json.read_printValue readable .compact nothingBehind
    rwa [List.append_nil] at read

end SceneBundler.Bundle
