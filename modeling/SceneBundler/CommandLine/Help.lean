import SceneBundler.Project.Page

/-!
Contract: the help texts of the command line.

Owns: what each command says of itself.

Does not own: when it is said.
-/

namespace SceneBundler.CommandLine

open Page (lines)

/-- The lines on the options that several commands share. -/
def sharedOptionLines : List String := [
  "options:",
  "  -h, --help            show this help message and exit",
  "  --framework FRAMEWORK",
  "                        Target framework: one of react-three-fiber, reactylon,",
  "                        threejs, babylonjs or an alias",
  "  --source SOURCE       Path to the generated source file"]

/-- The help on the program. -/
def programHelp : Text :=
  lines [
    "usage: scenepack [-h] \x7bprocess,bundle,frameworks\x7d ...",
    "",
    "Package generated 3D scene code into runnable sandboxes",
    "",
    "positional arguments:",
    "  \x7bprocess,bundle,frameworks\x7d",
    "    process             Transform source, submit it, and print the sandbox",
    "                        viewer URL",
    "    bundle              Transform source and write the sandbox project locally",
    "    frameworks          List supported frameworks and aliases",
    "",
    "options:",
    "  -h, --help            show this help message and exit"]

/-- The help on submitting a scene. -/
def processHelp : Text :=
  lines
    (["usage: scenepack process [-h] --framework FRAMEWORK --source SOURCE", ""] ++
      sharedOptionLines)

/-- The help on writing a project. -/
def bundleHelp : Text :=
  lines
    (["usage: scenepack bundle [-h] --framework FRAMEWORK --source SOURCE",
      "                        --output-dir OUTPUT_DIR [--allow-unverified]", ""] ++
      sharedOptionLines ++
      ["  --output-dir OUTPUT_DIR",
        "                        Directory to write project files",
        "  --allow-unverified    Write the project even when brackets or tags stay",
        "                        unbalanced"])

/-- The help on listing the frameworks. -/
def frameworksHelp : Text :=
  lines [
    "usage: scenepack frameworks [-h]",
    "",
    "options:",
    "  -h, --help  show this help message and exit"]

end SceneBundler.CommandLine
