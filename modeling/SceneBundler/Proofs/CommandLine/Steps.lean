import Mathlib.Data.List.Infix
import SceneBundler.CommandLine.Report
import SceneBundler.Proofs.Configuration.Settings
import SceneBundler.Proofs.Project.Placement

/-!
Contract: the steps of a command in front of its work, and the lines printed about its ending.

Owns:
- the words that the line on a failure begins with, and that output begins as such a line does just if its
  first line is one;
- what output has to say about each ending;
- when the settings, a written path and a source break a command off;
- that each of these steps yields what it is for, breaks off, or ends with the line on a failure.

Does not own: what is done with a source.
-/

namespace SceneBundler.CommandLine

/-- What the lines on failures begin with. -/
def failureMarks : List Text :=
  ["config_error=".toList, "source_error=".toList, "framework_error=".toList, "pipeline_error=".toList,
    "bundle_error=".toList, "submission_error=".toList]

/-- Whether a text begins as the line on a failure does. -/
def ReportsFailure (text : Text) : Prop :=
  ∃ mark ∈ failureMarks, mark <+: text

theorem reportsFailure_append {mark : Text} (isMark : mark ∈ failureMarks) (rest : Text) :
    ReportsFailure (mark ++ rest) :=
  ⟨mark, isMark, List.prefix_append mark rest⟩

theorem ReportsFailure.append {text : Text} (reports : ReportsFailure text) (rest : Text) :
    ReportsFailure (text ++ rest) := by
  obtain ⟨mark, isMark, begins⟩ := reports
  exact ⟨mark, isMark, begins.trans (List.prefix_append text rest)⟩

/-- What output has to say about an ending: a success says nothing of a failure, a failure is what comes
first, and where a command breaks off it has said nothing. -/
inductive Shows : Ending -> Text -> Prop where
  | success {lines : List Text} (quiet : ∀ line ∈ lines, ¬ ReportsFailure line) :
      Shows (.exit 0) (Report.linesOf lines)
  | failure {line : Text} {rest : List Text} (reports : ReportsFailure line) :
      Shows (.exit 1) (Report.linesOf (line :: rest))
  | breakdown {breakdown : Breakdown} : Shows (.brokeOff breakdown) []

theorem Shows.code {ending : Ending} {output : Text} (shows : Shows ending output) {code : Nat}
    (isExit : ending = .exit code) : code = 0 ∨ code = 1 := by
  cases shows with
  | success => exact Or.inl (Ending.exit.inj isExit).symm
  | failure => exact Or.inr (Ending.exit.inj isExit).symm
  | breakdown => contradiction

end SceneBundler.CommandLine

namespace SceneBundler

namespace CommandLine

variable {machine : Machine}

/-- How a step in front of the work of a command ends: it yields what it is for, it has a reason to break
off, or it ends the command with the line on a failure. -/
inductive StepEnds (machine : Machine) {α : Type} (isYield : α -> Prop) (isReason : Breakdown -> Prop) :
    Except Report α -> Prop where
  | yields {value : α} (isValue : isYield value) : StepEnds machine isYield isReason (.ok value)
  | breaksOff {breakdown : Breakdown} (breaks : isReason breakdown) :
      StepEnds machine isYield isReason (.error (.broken machine breakdown))
  | fails {line : Text} (reports : ReportsFailure line) :
      StepEnds machine isYield isReason (.error (.failed machine [line]))

/-! ## The settings of a machine -/

theorem readConfiguration_ends (machine : Machine) :
    StepEnds machine (Configuration.ofVariables machine.environment = .ok ·)
      (fun breakdown =>
        ∃ fault, breakdown = .invalidAddress fault ∧ Configuration.HasNoAddress machine.environment fault)
      (readConfiguration machine) := by
  unfold readConfiguration
  split
  next configuration configured => exact .yields configured
  next fault isFault =>
    exact .breaksOff ⟨fault, rfl, Configuration.ofVariables_eq_invalidAddress_iff.mp isFault⟩
  next fault _ _ => exact .fails (reportsFailure_append (by decide) fault.message)

/-! ## Paths -/

/-- What can be wrong with a written path so that it stands for no path of a file: it begins in a home
directory that is unknown or impossible, or another part of it is impossible. -/
inductive Machine.PathBreaks (machine : Machine) (written : Text) : Breakdown -> Prop where
  | impossibleOwner {owner : Text} (begins : (Path.ofText written).homeOwner? = some owner)
      (impossible : FileTree.isImpossible [owner] = true) : PathBreaks machine written .impossiblePath
  | unknownHome {owner : Text} (begins : (Path.ofText written).homeOwner? = some owner)
      (possible : FileTree.isImpossible [owner] = false) (unknown : machine.homeOf? owner = none) :
      PathBreaks machine written .unknownHome
  | impossiblePart {path : Path} (isPath : machine.pathOf written = .ok path)
      (impossible : FileTree.isImpossible path.parts = true) : PathBreaks machine written .impossiblePath

theorem pathBreaks_of_pathOf {written : Text} {breakdown : Breakdown}
    (isBroken : machine.pathOf written = .error breakdown) : machine.PathBreaks written breakdown := by
  rw [Machine.pathOf] at isBroken
  split at isBroken
  next => contradiction
  next owner begins =>
    split at isBroken
    next impossible => exact Except.error.inj isBroken ▸ .impossibleOwner begins impossible
    next possible =>
      split at isBroken
      next => contradiction
      next unknown =>
        exact Except.error.inj isBroken ▸ .unknownHome begins (eq_false_of_ne_true possible) unknown

/-- Where a path breaks, either its home directory is at fault or one of its parts. -/
theorem pathOf_of_pathBreaks {written : Text} {breakdown : Breakdown}
    (breaks : machine.PathBreaks written breakdown) :
    machine.pathOf written = .error breakdown ∨
      breakdown = .impossiblePath ∧ ∃ path, machine.pathOf written = .ok path ∧
        FileTree.isImpossible path.parts = true := by
  cases breaks with
  | impossibleOwner begins impossible =>
      refine Or.inl ?_
      rw [Machine.pathOf]
      simp only [begins, if_pos impossible]
  | unknownHome begins possible unknown =>
      refine Or.inl ?_
      rw [Machine.pathOf]
      simp only [begins, possible, unknown, Bool.false_eq_true, if_false]
  | impossiblePart isPath impossible => exact Or.inr ⟨rfl, _, isPath, impossible⟩

/-- Whether the source at a written path is a text. -/
def Machine.HasSource (machine : Machine) (written text : Text) : Prop :=
  ∃ path octets decoded, machine.pathOf written = .ok path ∧
    machine.tree.read machine.workingDirectory path = .ok octets ∧ Utf8.decode octets = .ok decoded ∧
    unifyBreaks decoded = text

/-- What can be wrong with a source so that nothing is said about it: its path stands for none of a file, or
what is found there is no text. -/
inductive Machine.SourceBreaks (machine : Machine) (written : Text) : Breakdown -> Prop where
  | path {breakdown : Breakdown} (breaks : machine.PathBreaks written breakdown) :
      SourceBreaks machine written breakdown
  | notText {path : Path} {octets : Octets} {fault : Utf8.Fault}
      (isPath : machine.pathOf written = .ok path)
      (isFile : machine.tree.read machine.workingDirectory path = .ok octets)
      (isFault : Utf8.decode octets = .error fault) : SourceBreaks machine written (.sourceNotText fault)

theorem readSource_of_hasSource {written text : Text} (hasSource : machine.HasSource written text) :
    readSource machine written = .ok text := by
  obtain ⟨path, octets, decoded, isPath, isFile, isText, rfl⟩ := hasSource
  simp only [readSource, isPath, isFile, isText]

theorem readSource_of_sourceBreaks {written : Text} {breakdown : Breakdown}
    (breaks : machine.SourceBreaks written breakdown) :
    readSource machine written = .error (.broken machine breakdown) := by
  cases breaks with
  | path breaks =>
      rcases pathOf_of_pathBreaks breaks with isBroken | ⟨rfl, path, isPath, impossible⟩
      · simp only [readSource, isBroken]
      · have isObstacle := FileTree.read_of_impossible machine.tree machine.workingDirectory impossible
        simp only [readSource, isPath, isObstacle, if_true]
  | notText isPath isFile isFault => simp only [readSource, isPath, isFile, isFault]

theorem readSource_ends (machine : Machine) (written : Text) :
    StepEnds machine (machine.HasSource written) (machine.SourceBreaks written)
      (readSource machine written) := by
  cases isPath : machine.pathOf written with
  | error breakdown =>
      have breaks : machine.SourceBreaks written breakdown := .path (pathBreaks_of_pathOf isPath)
      rw [readSource_of_sourceBreaks breaks]
      exact .breaksOff breaks
  | ok path =>
      cases isFile : machine.tree.read machine.workingDirectory path with
      | error obstacle =>
          by_cases isImpossible : obstacle.problem = .impossiblePath
          · have impossible := FileTree.isImpossible_of_read isFile isImpossible
            have breaks : machine.SourceBreaks written .impossiblePath :=
              .path (.impossiblePart isPath impossible)
            rw [readSource_of_sourceBreaks breaks]
            exact .breaksOff breaks
          · simp only [readSource, isPath, isFile, if_neg isImpossible, List.append_assoc]
            exact .fails (ReportsFailure.append ⟨"source_error=".toList, by decide, by decide⟩ _)
      | ok octets =>
          cases isText : Utf8.decode octets with
          | error fault =>
              have breaks : machine.SourceBreaks written (.sourceNotText fault) :=
                .notText isPath isFile isText
              rw [readSource_of_sourceBreaks breaks]
              exact .breaksOff breaks
          | ok decoded =>
              have hasSource : machine.HasSource written (unifyBreaks decoded) :=
                ⟨path, octets, decoded, isPath, isFile, isText, rfl⟩
              rw [readSource_of_hasSource hasSource]
              exact .yields hasSource

/-! ## Frameworks -/

theorem readFramework_of_resolve {name : Text} {framework : Framework}
    (resolved : Framework.resolve name = .ok framework) :
    readFramework machine name = .ok framework := by
  rw [readFramework, resolved]

/-- Looking for a framework gives no reason to break off. -/
theorem readFramework_ends (machine : Machine) (name : Text) :
    StepEnds machine (Framework.resolve name = .ok ·) (fun _ => False) (readFramework machine name) := by
  cases resolved : Framework.resolve name with
  | ok framework =>
      rw [readFramework_of_resolve resolved]
      exact .yields rfl
  | error fault =>
      rw [readFramework, resolved]
      exact .fails (reportsFailure_append (by decide) fault.message)

end CommandLine

end SceneBundler
