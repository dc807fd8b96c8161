import SceneBundler.CommandLine.Command
import SceneBundler.Catalog.Naming
import SceneBundler.Project.Writing
import SceneBundler.Publication

/-!
Contract: running a command.

Owns:
- what a command finds around it, and what it leaves behind: printed lines, files, and how it ends;
- the order in which settings, source, output directory and framework are looked at;
- the line that each failure is reported with.

Does not own: preparing, submitting and writing.
-/

namespace SceneBundler.CommandLine

/-- What a command finds around it: variables, files, the directory it starts in, the home directories
on record, that of the user who runs it and those of users by name, and what comes of a request to the
service. -/
structure Machine where
  environment : Variables
  tree : FileTree
  workingDirectory : List Text
  home : Text
  homes : List (Text × Text)
  exchange : Sandbox.Exchange

/-- Why a command broke off without a report. -/
inductive Breakdown where
  /-- The source file holds no text. -/
  | sourceNotText (fault : Utf8.Fault)
  | invalidAddress (fault : AddressFault)
  /-- A path is none that a file can have. -/
  | impossiblePath
  /-- A path begins in a home directory that is not known. -/
  | unknownHome
  /-- The service gave an answer that goes beyond the bounds of reading. -/
  | excessiveAnswer (excess : Json.Excess)
deriving DecidableEq, Repr

/-- A breakdown as a sentence. -/
def Breakdown.message : Breakdown -> Text
  | sourceNotText fault => fault.message
  | invalidAddress fault => fault.message
  | impossiblePath => WriteFault.message .impossiblePath
  | unknownHome => "Could not determine home directory.".toList
  | excessiveAnswer excess => excess.message

/-- How a command ends. -/
inductive Ending where
  | exit (code : Nat)
  | brokeOff (breakdown : Breakdown)
deriving DecidableEq, Repr

/-- What a command leaves behind. -/
structure Report where
  ending : Ending
  output : Text
  tree : FileTree
  events : List Sandbox.Event

namespace Report

/-- The report of a command that did nothing but print and end. -/
def plain (machine : Machine) (ending : Ending) (output : Text) : Report :=
  ⟨ending, output, machine.tree, []⟩

/-- Lines, each with a line break after it. -/
def linesOf (lines : List Text) : Text :=
  lines.flatMap (· ++ ['\n'])

/-- The report of a failure. -/
def failed (machine : Machine) (lines : List Text) : Report :=
  plain machine (.exit 1) (linesOf lines)

/-- The report of a breakdown. -/
def broken (machine : Machine) (breakdown : Breakdown) : Report :=
  plain machine (.brokeOff breakdown) []

end Report

/-- The lines on findings, each with a word before it. -/
def findingLines (word : String) (findings : List Diagnostic) : List Text :=
  findings.map fun finding => word.toList ++ '=' :: finding.render

/-- The lines on a source that has no project. -/
def preparationLines : PreparationFault -> List Text
  | .stage failure =>
      ("pipeline_error=".toList ++ failure.blocker.name ++ ": ".toList ++ failure.finding.message) ::
        findingLines "diagnostic" failure.diagnostics
  | .assembly fault => ["bundle_error=".toList ++ fault.message]

/-- The lines on a project that was not accepted, for the reason with a name. -/
def submissionLines (name : Text) (fault : Sandbox.SubmissionFault) : List Text :=
  ("submission_error=".toList ++ name ++ ": ".toList ++ fault.message) ::
    match fault.answer? with
    | some (status, _) => ["http_status=".toList ++ Text.ofInt status]
    | none => []

/-- The report on a source that was not published. -/
def unpublished (machine : Machine) : PublicationFault -> Report
  | .preparation fault => .failed machine (preparationLines fault)
  | .submission (.excessive excess) => .broken machine (.excessiveAnswer excess)
  | .submission fault => .failed machine (submissionLines (fault.name?.getD []) fault)

/-- The line on a framework: its tag and its aliases. -/
def frameworkLine (framework : Framework) : Text :=
  let aliases := Text.join ", ".toList (Catalog.packaged framework).aliases
  framework.tag ++ '\t' :: (if aliases.isEmpty then ['-'] else aliases)

/-- A scene published, and where it is to be seen. -/
def publish (machine : Machine) (configuration : Configuration) (framework : Framework)
    (text : Text) : Report :=
  let published := Published.ofSource configuration machine.exchange framework text
  match published.result with
  | .error fault => { unpublished machine fault with events := published.events }
  | .ok publication =>
      let lines :=
        ["viewer_url=".toList ++ publication.submission.viewerUrl,
          "embed_url=".toList ++ publication.submission.embedUrl] ++
          findingLines "warning" publication.warnings
      ⟨.exit 0, Report.linesOf lines, machine.tree, published.events⟩

/-- The lines on a project that was written. -/
def writtenLines (prepared : Prepared) (places : List (List Text)) : List Text :=
  findingLines "warning" prepared.warnings ++
    ["verified=".toList ++ (if prepared.bundle.verified then "true" else "false").toList,
      "entry_path=".toList ++ prepared.bundle.entryPath] ++
    places.map fun place => "file=".toList ++ (Path.toPlace place).toText

/-- The project of a scene written below a directory. -/
def writeProject (machine : Machine) (directory : List Text) (framework : Framework) (text : Text)
    (allowUnverified : Bool) : Report :=
  match Prepared.ofSource framework text allowUnverified with
  | .error fault => .failed machine (preparationLines fault)
  | .ok prepared =>
      let writing := prepared.bundle.write directory machine.tree
      let report (ending : Ending) (lines : List Text) : Report :=
        ⟨ending, Report.linesOf lines, writing.tree, []⟩
      match writing.fault with
      | some .impossiblePath => report (.brokeOff .impossiblePath) []
      | some fault => report (.exit 1) ["bundle_error=".toList ++ fault.message]
      | none => report (.exit 0) (writtenLines prepared writing.written)

/-- The characters of a text with one kind of line break, on top of those done already, nearest
first; `afterReturn` says whether a carriage return came just before. -/
def unifyBreaksOnto (afterReturn : Bool) (done : Text) : Text -> Text
  | [] => done.reverse
  | c :: rest =>
      if c = '\r' then unifyBreaksOnto true ('\n' :: done) rest
      else if c = '\n' && afterReturn then unifyBreaksOnto false done rest
      else unifyBreaksOnto false (c :: done) rest

/-- A text with one kind of line break: a carriage return, with the line feed after it if there is
one, becomes a line feed. -/
def unifyBreaks (text : Text) : Text :=
  unifyBreaksOnto false [] text

/-- The home directory of an owner.  For the user who runs the program a variable goes before the
record, and what itself begins with a tilde is no directory. -/
def Machine.homeOf? (machine : Machine) (owner : Text) : Option Text :=
  let recorded :=
    if owner.isEmpty then some ((Configuration.value? machine.environment "HOME").getD machine.home)
    else machine.homes.lookup owner
  (recorded.map Path.homeText).filter fun home => home.head? != some '~'

/-- The path that is written, with the home directory that it begins in. -/
def Machine.pathOf (machine : Machine) (written : Text) : Except Breakdown Path :=
  let path := Path.ofText written
  match path.homeOwner? with
  | none => .ok path
  | some owner =>
      if FileTree.isImpossible [owner] then .error .impossiblePath
      else
        match machine.homeOf? owner with
        | some home => .ok (path.withHome home)
        | none => .error .unknownHome

/-- The source at a path, or the report on why it cannot be had. -/
def readSource (machine : Machine) (written : Text) : Except Report Text :=
  match machine.pathOf written with
  | .error breakdown => .error (.broken machine breakdown)
  | .ok path =>
      match machine.tree.read machine.workingDirectory path with
      | .error obstacle =>
          if obstacle.problem = .impossiblePath then .error (.broken machine .impossiblePath)
          else
            .error (.failed machine
              ["source_error=Failed to read source file ".toList ++ path.toText ++ ": ".toList ++
                obstacle.message ++ ['.']])
      | .ok octets =>
          match Utf8.decode octets with
          | .error fault => .error (.broken machine (.sourceNotText fault))
          | .ok text => .ok (unifyBreaks text)

/-- The place of the output directory, or the report on why there is none. -/
def outputPlace (machine : Machine) (written : Text) : Except Report (List Text) :=
  match machine.pathOf written with
  | .error breakdown => .error (.broken machine breakdown)
  | .ok path =>
      if FileTree.isImpossible path.parts then .error (.broken machine .impossiblePath)
      else .ok (path.resolve machine.workingDirectory)

/-- The settings, or the report on why there are none. -/
def readConfiguration (machine : Machine) : Except Report Configuration :=
  match Configuration.ofVariables machine.environment with
  | .ok configuration => .ok configuration
  | .error (.invalidAddress fault) => .error (.broken machine (.invalidAddress fault))
  | .error fault => .error (.failed machine ["config_error=".toList ++ fault.message])

/-- The framework of a name, or the report on why there is none. -/
def readFramework (machine : Machine) (name : Text) : Except Report Framework :=
  match Framework.resolve name with
  | .ok framework => .ok framework
  | .error fault => .error (.failed machine ["framework_error=".toList ++ fault.message])

/-- The report of steps of which each may end the command. -/
def Report.ofSteps (steps : Except Report Report) : Report :=
  match steps with
  | .ok report => report
  | .error report => report

/-- A command run. -/
def Command.run (machine : Machine) : Command -> Report
  | .frameworks =>
      .plain machine (.exit 0) (Report.linesOf (Framework.all.map frameworkLine))
  | .process name source =>
      .ofSteps do
        let configuration ← readConfiguration machine
        let text ← readSource machine source
        let framework ← readFramework machine name
        return publish machine configuration framework text
  | .bundle name source directory allowUnverified =>
      .ofSteps do
        let _ ← readConfiguration machine
        let text ← readSource machine source
        let place ← outputPlace machine directory
        let framework ← readFramework machine name
        return writeProject machine place framework text allowUnverified

/-- What arguments ask for, done.  Help counts as done; misuse has an exit code of its own. -/
def run (machine : Machine) (arguments : List Text) : Report :=
  match Invocation.ofArguments arguments with
  | .command command => command.run machine
  | .help text => .plain machine (.exit 0) text
  | .misuse => .plain machine (.exit 2) []

end SceneBundler.CommandLine
