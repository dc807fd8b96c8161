import SceneBundler.Files.Tree
import SceneBundler.Project.Bundle

/-!
Contract: writing the files of a project below a directory.

Owns:
- the refusal of paths that would leave the directory;
- the order of writing, where each file is written before the next one is looked at.

Does not own: what a write does to a tree.
-/

namespace SceneBundler

/-- Why a file of a project was not written. -/
inductive WriteFault where
  /-- The path would leave the directory. -/
  | outside (directory : Path) (path : Text)
  | unwritable (target : Path) (obstacle : Obstacle)
  /-- The path is none that a file can have. -/
  | impossiblePath
deriving DecidableEq, Repr

/-- A fault as a sentence. -/
def WriteFault.message : WriteFault -> Text
  | outside directory path =>
      "Refusing to write bundle file outside ".toList ++ directory.toText ++ ": ".toList ++ path ++
        ['.']
  | unwritable target obstacle =>
      "Failed to write bundle file ".toList ++ target.toText ++ ": ".toList ++ obstacle.message ++
        ['.']
  | impossiblePath => "embedded null byte".toList

/-- The fault of a write that met an obstacle. -/
def WriteFault.ofObstacle (target : Path) (obstacle : Obstacle) : WriteFault :=
  if obstacle.problem = .impossiblePath then .impossiblePath else .unwritable target obstacle

namespace ProjectFile

/-- A tree with a file of a project below a directory, and the place where it was written. -/
def write (directory : List Text) (tree : FileTree) (file : ProjectFile) :
    Except WriteFault (FileTree × List Text) :=
  let path := Path.ofText file.path
  if path.isAbsolute || path.leadsUp then .error (.outside (.toPlace directory) file.path)
  else
    let names := directory ++ path.parts
    let target := Path.toPlace names
    match tree.ensureDirectory names.dropLast.reverse with
    | .error obstacle => .error (.ofObstacle target obstacle)
    | .ok prepared =>
        match prepared.writeFile names (Utf8.encode file.content) with
        | .error obstacle => .error (.ofObstacle target obstacle)
        | .ok written => .ok (written, names)

end ProjectFile

/-- What came of writing files: the tree, the places that were written in order, and the fault that
ended the writing before its time. -/
structure Writing where
  tree : FileTree
  written : List (List Text)
  fault : Option WriteFault
deriving DecidableEq, Repr

/-- Files written one after another as long as there is no fault. -/
def Writing.ofFiles (directory : List Text) (tree : FileTree) : List ProjectFile -> Writing
  | [] => ⟨tree, [], none⟩
  | file :: rest =>
      match file.write directory tree with
      | .error fault => ⟨tree, [], some fault⟩
      | .ok (next, place) =>
          let later := ofFiles directory next rest
          { later with written := place :: later.written }

/-- A project written below a directory. -/
def Bundle.write (bundle : Bundle) (directory : List Text) (tree : FileTree) : Writing :=
  Writing.ofFiles directory tree bundle.files

end SceneBundler
