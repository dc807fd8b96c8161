import SceneBundler.Text.Basic

/-!
Contract: findings of the transform stages.

Owns: what a finding says, whether it blocks the run, and the line it is shown on.

Does not own: which findings a stage makes.
-/

namespace SceneBundler

/-- The four transforms that a source goes through, in this order. -/
inductive Stage where
  | normalize
  | repair
  | resolve
  | entry
deriving DecidableEq, Repr

namespace Stage

/-- The name of a stage in findings. -/
def name : Stage -> Text
  | normalize => "dialect_normalizer".toList
  | repair => "structural_repair".toList
  | resolve => "usage_resolver".toList
  | entry => "entry_point".toList

end Stage

/-- Whether a finding leaves a usable program. -/
inductive Severity where
  | warning
  | error
deriving DecidableEq, Repr

namespace Severity

/-- The word for a severity. -/
def name : Severity -> Text
  | warning => "warning".toList
  | error => "error".toList

end Severity

/-- One finding: the stage that made it, a stable code, a sentence for people, and the line of the
stage's input it is about, when known. -/
structure Diagnostic where
  stage : Text
  code : Text
  severity : Severity
  message : Text
  line : Option Int
deriving DecidableEq, Repr

namespace Diagnostic

/-- A finding about something a stage dealt with. -/
def warning (stage : Stage) (code : String) (message : Text) (line : Option Nat) : Diagnostic :=
  ⟨stage.name, code.toList, .warning, message, line.map Int.ofNat⟩

/-- A finding about something that leaves no usable program. -/
def error (stage : Stage) (code : String) (message : Text) : Diagnostic :=
  ⟨stage.name, code.toList, .error, message, none⟩

/-- Whether a finding blocks the run. -/
def isError (diagnostic : Diagnostic) : Bool :=
  diagnostic.severity == .error

/-- A finding on one line. -/
def render (diagnostic : Diagnostic) : Text :=
  let place :=
    match diagnostic.line with
    | some line => ':' :: Text.ofInt line
    | none => []
  '[' :: diagnostic.stage ++ place ++ "] ".toList ++ diagnostic.code ++ ": ".toList ++
    diagnostic.message

/-- The order of findings by line, those without a line first, and then by code. -/
def le (first second : Diagnostic) : Bool :=
  let firstLine := first.line.getD 0
  let secondLine := second.line.getD 0
  if firstLine = secondLine then Text.le first.code second.code else firstLine < secondLine

/-- A text between single quotes. -/
def named (text : Text) : Text :=
  '\x27' :: text ++ ['\x27']

end Diagnostic

end SceneBundler
