import SceneBundler.Proofs.CommandLine.Reporting
import SceneBundler.Proofs.Project.Placement

/-!
Contract: the files that a command leaves behind.

Owns:
- that a command which writes a project leaves all files as they were unless there is a prepared project, and
  then what the writing of that project makes of them;
- that the project is written below its directory.

Does not own: what a project holds.
-/

namespace SceneBundler

namespace CommandLine

variable {machine : Machine}

theorem StepEnds.isYield_of_ok {α : Type} {isYield : α -> Prop} {isReason : Breakdown -> Prop}
    {step : Except Report α} (ends : StepEnds machine isYield isReason step) {value : α}
    (isValue : step = .ok value) : isYield value := by
  cases ends with
  | yields isYielded => exact Except.ok.inj isValue ▸ isYielded
  | breaksOff => contradiction
  | fails => contradiction

/-- A report that ends a command in front of its work leaves all files as they were. -/
theorem StepEnds.tree_eq {α : Type} {isYield : α -> Prop} {isReason : Breakdown -> Prop}
    {step : Except Report α} (ends : StepEnds machine isYield isReason step) {report : Report}
    (ended : step = .error report) : report.tree = machine.tree := by
  cases ends with
  | yields => contradiction
  | breaksOff breaks => exact Except.error.inj ended ▸ rfl
  | fails reports => exact Except.error.inj ended ▸ rfl

theorem tree_eq_of_outputPlace {written : Text} {report : Report}
    (ended : outputPlace machine written = .error report) : report.tree = machine.tree := by
  rw [outputPlace] at ended
  split at ended
  next => exact Except.error.inj ended ▸ rfl
  next =>
    split at ended
    next => exact Except.error.inj ended ▸ rfl
    next => contradiction

/-- Where files have changed, no step has ended the command. -/
theorem exists_value_of_tree_ne {α : Type} {step : Except Report α} {next : α -> Except Report Report}
    (keeps : ∀ report, step = .error report → report.tree = machine.tree)
    (changed : (Report.ofSteps (step >>= next)).tree ≠ machine.tree) :
    ∃ value, step = .ok value ∧ (Report.ofSteps (next value)).tree ≠ machine.tree := by
  cases isStep : step with
  | error report =>
      rw [isStep] at changed
      exact absurd (keeps report isStep) changed
  | ok value =>
      rw [isStep] at changed
      exact ⟨value, rfl, changed⟩

theorem tree_writeProject {directory : List Text} {framework : Framework} {text : Text}
    {allowUnverified : Bool} {prepared : Prepared}
    (isPrepared : Prepared.ofSource framework text allowUnverified = .ok prepared) :
    (writeProject machine directory framework text allowUnverified).tree =
      (prepared.bundle.write directory machine.tree).tree := by
  rw [writeProject, isPrepared]
  dsimp only
  split <;> rfl

theorem exists_prepared_of_tree_ne {directory : List Text} {framework : Framework} {text : Text}
    {allowUnverified : Bool}
    (changed : (writeProject machine directory framework text allowUnverified).tree ≠ machine.tree) :
    ∃ prepared, Prepared.ofSource framework text allowUnverified = .ok prepared := by
  cases isPrepared : Prepared.ofSource framework text allowUnverified with
  | error fault =>
      rw [writeProject, isPrepared] at changed
      exact absurd rfl changed
  | ok prepared => exact ⟨prepared, rfl⟩

/-- A command that writes a project changes files only by writing one that was prepared. -/
theorem tree_run_bundle {name source output : Text} {allowUnverified : Bool}
    (changed : ((Command.bundle name source output allowUnverified).run machine).tree ≠ machine.tree) :
    ∃ text place framework prepared,
      readSource machine source = .ok text ∧ outputPlace machine output = .ok place ∧
        Framework.resolve name = .ok framework ∧
        Prepared.ofSource framework text allowUnverified = .ok prepared ∧
        ((Command.bundle name source output allowUnverified).run machine).tree =
          (prepared.bundle.write place machine.tree).tree := by
  rw [Command.run] at changed ⊢
  obtain ⟨configuration, configured, changed⟩ :=
    exists_value_of_tree_ne (fun _ => (readConfiguration_ends machine).tree_eq) changed
  obtain ⟨text, hasText, changed⟩ :=
    exists_value_of_tree_ne (fun _ => (readSource_ends machine source).tree_eq) changed
  obtain ⟨place, isPlace, changed⟩ := exists_value_of_tree_ne (fun _ => tree_eq_of_outputPlace) changed
  obtain ⟨framework, isFramework, changed⟩ :=
    exists_value_of_tree_ne (fun _ => (readFramework_ends machine name).tree_eq) changed
  obtain ⟨prepared, isPrepared⟩ := exists_prepared_of_tree_ne changed
  refine ⟨text, place, framework, prepared, hasText, isPlace,
    (readFramework_ends machine name).isYield_of_ok isFramework, isPrepared, ?_⟩
  rw [configured, ofSteps_ok_bind, hasText, ofSteps_ok_bind, isPlace, ofSteps_ok_bind, isFramework,
    ofSteps_ok_bind, ofSteps_pure]
  exact tree_writeProject isPrepared

end CommandLine

open CommandLine (Command Machine readSource outputPlace)

/-- The files of a project are written below the directory as its `IsWrittenBelow` says, and a command that
writes a project changes no file unless it is prepared. -/
theorem Bundle.write_isWrittenBelow {directory : List Text} (noUp : Path.up ∉ directory) (tree : FileTree)
    (bundle : Bundle) :
    Writing.IsWrittenBelow directory tree bundle.files (bundle.write directory tree) ∧
      ∀ (machine : Machine) (name source output : Text) (allowUnverified : Bool),
        ((Command.bundle name source output allowUnverified).run machine).tree ≠ machine.tree →
          ∃ text place framework prepared,
            readSource machine source = .ok text ∧ outputPlace machine output = .ok place ∧
              Framework.resolve name = .ok framework ∧
              Prepared.ofSource framework text allowUnverified = .ok prepared ∧
              ((Command.bundle name source output allowUnverified).run machine).tree =
                (prepared.bundle.write place machine.tree).tree :=
  ⟨Writing.ofFiles_isWrittenBelow noUp tree bundle.files, fun _ _ _ _ _ => CommandLine.tree_run_bundle⟩

/-- Of two spellings of one path the second decides, and the path behind them leaves the directory. -/
theorem Bundle.write_isWrittenBelow_twoSpellings :
    let directory := ["tmp".toList, "out".toList]
    let tree : FileTree := ⟨[(["tmp".toList], .directory)]⟩
    let files : List ProjectFile :=
      [.text "a//b" "x".toList, .text "./a/b" "y".toList, .text "c/../d" "z".toList]
    let writing := Bundle.write ⟨"threejs".toList, files, "a//b".toList, true⟩ directory tree
    let place := directory ++ ["a".toList, "b".toList]
    Path.up ∉ directory ∧ writing.written = [place, place] ∧
      writing.fault = some (.outside (.toPlace directory) "c/../d".toList) ∧
      writing.tree.read [] (.toPlace place) = .ok [121] ∧ Writing.StaysBelow directory tree writing := by
  intro directory tree files writing place
  have noUp : Path.up ∉ directory := by decide
  have whole : Writing.IsWrittenBelow directory tree files writing :=
    (write_isWrittenBelow noUp tree ⟨"threejs".toList, files, "a//b".toList, true⟩).1
  have areWritten : writing.written = [place, place] := by decide
  have isDone : ProjectFile.lastAt? directory (writing.done files) place =
      some (.text "./a/b" "y".toList) := by decide
  obtain ⟨file, isLast, isRead⟩ := whole.readable place (areWritten ▸ List.mem_cons_self)
  obtain rfl := Option.some.inj (isDone.symm.trans isLast)
  have ends := whole.refused (files.take 2) [] (.text "c/../d" "z".toList) rfl (Or.inr (by decide))
  refine ⟨noUp, areWritten, (congrArg Writing.fault ends).trans (by decide), isRead, (whole.below rfl).mpr ?_⟩
  rintro ⟨first, isFirst, noParts, -⟩
  obtain rfl := Option.some.inj isFirst
  exact absurd noParts (by decide)

/-- A file without a part that counts takes the place of a directory that is missing. -/
theorem Bundle.not_staysBelow_pathless :
    let directory := ["tmp".toList, "out".toList]
    let tree : FileTree := ⟨[(["tmp".toList], .directory)]⟩
    let writing := Bundle.write ⟨"threejs".toList, [.text "" "x".toList], [], false⟩ directory tree
    writing.fault = none ∧ ¬ Writing.StaysBelow directory tree writing := by
  refine ⟨by decide, fun below => ?_⟩
  obtain ⟨names, isBelow, -, same⟩ := below ["tmp".toList, "out".toList] (by decide)
  exact isBelow (List.self_eq_append_right.mp same)

end SceneBundler
