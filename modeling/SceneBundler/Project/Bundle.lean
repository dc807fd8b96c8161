import SceneBundler.Text.Basic

/-!
Contract: the files of a sandbox project.

Owns: files with their paths in a fixed order, the entry among them, and whether the source was
found to be balanced.

Does not own: what the files hold.
-/

namespace SceneBundler

/-- One file of a project. -/
structure ProjectFile where
  path : Text
  content : Text
  /-- Whether the content refers to binary data. -/
  isBinary : Bool
deriving DecidableEq, Repr

/-- A file that holds text. -/
def ProjectFile.text (path : String) (content : Text) : ProjectFile :=
  ⟨path.toList, content, false⟩

/-- A project: the framework it is for, its files in order, the path of its entry file, and whether
brackets and tags of its source balance. -/
structure Bundle where
  framework : Text
  files : List ProjectFile
  entryPath : Text
  verified : Bool
deriving DecidableEq, Repr

namespace Bundle

/-- The paths in order. -/
def paths (bundle : Bundle) : List Text :=
  bundle.files.map ProjectFile.path

/-- The first file with a path. -/
def file? (bundle : Bundle) (path : Text) : Option ProjectFile :=
  bundle.files.find? fun file => file.path == path

end Bundle

end SceneBundler
