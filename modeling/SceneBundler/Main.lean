import SceneBundler.CommandLine.Report

/-!
Contract: the program on the machine it is started on.

Owns: gathering what a command may look at, and carrying out what its report says.

Does not own: anything that a command decides.  Nothing here opens a connection: to a command that
submits, the service is out of reach.
-/

namespace SceneBundler.Session

open CommandLine

/-- The variables that are looked at. -/
def variableNames : List String :=
  ["SCENEPACK_SANDBOX_ORIGIN", "SCENEPACK_SANDBOX_API_KEY", "SCENEPACK_REQUEST_TIMEOUT_SECONDS",
    "SCENEPACK_EXCERPT_LENGTH", "HOME"]

/-- The written form of the place that names lead to. -/
def located (place : List Text) : String :=
  String.ofList (Path.toPlace place).toText

/-- Every place on the way along the parts of a path, the end included. -/
def placesAlong : (here : List Text) -> List Text -> List (List Text)
  | here, [] => [here]
  | here, part :: rest =>
      here :: placesAlong (if part = Path.up then here.dropLast else here ++ [part]) rest

/-- The places that reading the source of a command looks at. -/
def sourcePlaces (machine : Machine) : Invocation -> List (List Text)
  | .command (.process _ source) | .command (.bundle _ source _ _) =>
      match machine.pathOf source with
      | .ok path => placesAlong (if path.isAbsolute then [] else machine.workingDirectory) path.parts
      | .error _ => []
  | _ => []

/-- What is found at a place; what can be neither listed nor read counts as absent. -/
def nodeAt (place : List Text) : IO (Option Node) := do
  let here := (← IO.currentDir) / located place
  if ← here.isDir then return some .directory
  if ← here.pathExists then
    let content ← IO.FS.readBinFile here
    return some (.file content.toList)
  return none

/-- The tree of what is found at some places. -/
def treeAt (places : List (List Text)) : IO FileTree := do
  let entries ← places.eraseDups.filterMapM fun place => do
    return (← nodeAt place).map fun node => (place, node)
  return ⟨entries⟩

/-- The variables that are set. -/
def gatherVariables : IO Variables :=
  variableNames.filterMapM fun name => do
    return (← IO.getEnv name).map fun value => (name.toList, value.toList)

/-- The home directories on record, in lines of fields with colons in between. -/
def gatherHomes : IO (List (Text × Text)) := do
  let record ← try IO.FS.readFile "/etc/passwd" catch _ => pure ""
  return (Text.split '\n' record.toList).filterMap fun line =>
    let fields := Text.split ':' line
    fields[5]?.map fun home => (fields.headD [], home)

/-- The machine with the parts of its tree that a command looks at.  Where a command writes is seen
from a first run against a tree without those places. -/
def gatherMachine (arguments : List Text) : IO Machine := do
  let machine : Machine :=
    { environment := ← gatherVariables
      tree := ⟨[]⟩
      workingDirectory := (Path.ofText (toString (← IO.currentDir)).toList).parts
      home := ['/']
      homes := ← gatherHomes
      exchange := .unanswered ⟨.connection false, "no connection".toList⟩ }
  let looked := sourcePlaces machine (Invocation.ofArguments arguments)
  let tried := run { machine with tree := ← treeAt looked } arguments
  let written := tried.tree.entries.map Prod.fst
  return { machine with tree := ← treeAt (looked ++ written) }

/-- What a report adds to a tree, carried out; directories come before what is in them. -/
def store (known : FileTree) (result : FileTree) : IO Unit :=
  result.entries.reverse.forM fun (place, node) => do
    if known.node? place != some node then
      match node with
      | .directory => IO.FS.createDir (located place)
      | .file content => IO.FS.writeBinFile (located place) ⟨content.toArray⟩

end SceneBundler.Session

open SceneBundler in
/-- The program: what its arguments ask for, done. -/
def main (arguments : List String) : IO UInt32 := do
  let arguments := arguments.map String.toList
  let machine ← Session.gatherMachine arguments
  let report := CommandLine.run machine arguments
  Session.store machine.tree report.tree
  IO.print (String.ofList report.output)
  match report.ending with
  | .exit code => return UInt32.ofNat code
  | .brokeOff breakdown =>
      IO.eprintln (String.ofList breakdown.message)
      return 1
