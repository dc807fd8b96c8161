import SceneBundler.Outcome

/-!
Contract: which findings of a run leave no usable program.

Owns: the kinds of such findings in the order in which they are asked for, and the failure that the
first of them stands for.

Does not own: making the findings.
-/

namespace SceneBundler

/-- The ways in which a run can leave no usable program, in the order of the stages that find
them. -/
inductive Blocker where
  | structuralImbalance
  | emptyComponentManifest
  | noEntryPointCandidate
deriving DecidableEq, Repr

namespace Blocker

/-- Every blocker in order. -/
def all : List Blocker :=
  [structuralImbalance, emptyComponentManifest, noEntryPointCandidate]

/-- The code of the finding that a blocker is found by. -/
def code : Blocker -> Text
  | structuralImbalance => "structural_imbalance".toList
  | emptyComponentManifest => "empty_component_manifest".toList
  | noEntryPointCandidate => "no_entry_point_candidate".toList

/-- The name of a blocker in reports. -/
def name : Blocker -> Text
  | structuralImbalance => "StructuralImbalance".toList
  | emptyComponentManifest => "EmptyComponentManifest".toList
  | noEntryPointCandidate => "NoEntryPointCandidate".toList

/-- Whether a blocker still counts.  An imbalance is tolerated on request; the others never are. -/
def counts (allowUnverified : Bool) (blocker : Blocker) : Bool :=
  !(allowUnverified && blocker == structuralImbalance)

end Blocker

/-- A run that left no usable program: why, the finding that says so, and all findings of the run. -/
structure StageFailure where
  blocker : Blocker
  finding : Diagnostic
  diagnostics : List Diagnostic
deriving DecidableEq, Repr

namespace Outcome

/-- The blocking finding of a kind. -/
def blocking? (outcome : Outcome) (blocker : Blocker) : Option Diagnostic :=
  outcome.errors.find? fun finding => finding.code == blocker.code

/-- The failure of a run: the first blocker that counts and was found. -/
def failure? (outcome : Outcome) (allowUnverified : Bool) : Option StageFailure :=
  (Blocker.all.filter (Blocker.counts allowUnverified)).findSome? fun blocker =>
    (outcome.blocking? blocker).map fun finding => ⟨blocker, finding, outcome.diagnostics⟩

/-- Whether a run found no imbalance. -/
def isBalanced (outcome : Outcome) : Bool :=
  (outcome.blocking? .structuralImbalance).isNone

end Outcome

end SceneBundler
