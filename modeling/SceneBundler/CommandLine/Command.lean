import SceneBundler.CommandLine.Argument
import SceneBundler.CommandLine.Help

/-!
Contract: the commands and what their arguments have to be.

Owns: the commands with their options, which options are required, and what a list of arguments
asks for.

Does not own: doing what is asked for.
-/

namespace SceneBundler.CommandLine

/-- What the program can be asked to do. -/
inductive Command where
  /-- Submit a scene and show where it is to be seen. -/
  | process (framework source : Text)
  /-- Write the project of a scene below a directory. -/
  | bundle (framework source outputDirectory : Text) (allowUnverified : Bool)
  /-- List the frameworks with their aliases. -/
  | frameworks
deriving DecidableEq, Repr

/-- What a list of arguments asks for. -/
inductive Invocation where
  | command (command : Command)
  | help (text : Text)
  | misuse
deriving DecidableEq, Repr

/-- The option that names the framework. -/
def frameworkOption : Text := "--framework".toList

/-- The option that names the source file. -/
def sourceOption : Text := "--source".toList

/-- The option that names the output directory. -/
def outputOption : Text := "--output-dir".toList

/-- The option that admits unbalanced sources. -/
def allowOption : Text := "--allow-unverified".toList

/-- The command that values of options make up, if none is missing. -/
abbrev Construction := List (Text × Text) -> Option Command

/-- A kind of command: its name, its options, its help, and how values make it up. -/
structure CommandKind where
  name : Text
  options : Options
  help : Text
  construct : Construction

/-- Submitting a scene. -/
def processKind : CommandKind :=
  { name := "process".toList
    options := ⟨[frameworkOption, sourceOption], []⟩
    help := processHelp
    construct := fun given => do
      let framework ← given.lookup frameworkOption
      let source ← given.lookup sourceOption
      return .process framework source }

/-- Writing a project. -/
def bundleKind : CommandKind :=
  { name := "bundle".toList
    options := ⟨[frameworkOption, sourceOption, outputOption], [allowOption]⟩
    help := bundleHelp
    construct := fun given => do
      let framework ← given.lookup frameworkOption
      let source ← given.lookup sourceOption
      let directory ← given.lookup outputOption
      return .bundle framework source directory (given.lookup allowOption).isSome }

/-- Listing the frameworks. -/
def frameworksKind : CommandKind :=
  { name := "frameworks".toList
    options := ⟨[], []⟩
    help := frameworksHelp
    construct := fun _ => some .frameworks }

/-- Every kind of command. -/
def commandKinds : List CommandKind :=
  [processKind, bundleKind, frameworksKind]

/-- What the arguments after the name of a command ask for.  Arguments too many, there or before the
name, and missing options are misuse; asking for help comes before either. -/
def CommandKind.invocation (kind : CommandKind) (excessBefore : Bool) (arguments : List Text) :
    Invocation :=
  match Assignment.ofArguments kind.options arguments with
  | .help => .help kind.help
  | .misused => .misuse
  | .values given excess =>
      match kind.construct given with
      | some command => if excess || excessBefore then .misuse else .command command
      | none => .misuse

/-- What a list of arguments asks for; `excess` says whether options that are not known were passed
over on the way to the name of the command. -/
def invocationAfter (excess : Bool) : List Text -> Invocation
  | [] => .misuse
  | argument :: rest =>
      match Argument.ofText [shortHelp, longHelp] argument with
      | .option name value => if asksForHelp name value then .help programHelp else .misuse
      | .unknown => invocationAfter true rest
      | .other name =>
          match commandKinds.find? fun kind => kind.name == name with
          | some kind => kind.invocation excess rest
          | none => .misuse
      | _ => .misuse

/-- What a list of arguments asks for. -/
def Invocation.ofArguments (arguments : List Text) : Invocation :=
  invocationAfter false arguments

end SceneBundler.CommandLine
