import SceneBundler.Files.Path
import SceneBundler.Text.Utf8

/-!
Contract: trees of files and directories.

Owns:
- looking up a path, reading a file, making directories and writing files;
- what can be in the way of each, and how it is reported.

Does not own: which files are read and written.
-/

namespace SceneBundler

/-- What can be found at a place of a tree. -/
inductive Node where
  | directory
  | file (content : Octets)
deriving DecidableEq, Repr

/-- A tree of files: what is found at each place, a place being the names that lead to it from the
root.  The root itself is always a directory. -/
structure FileTree where
  entries : List (List Text × Node)
deriving DecidableEq, Repr

/-- What can be in the way of an access. -/
inductive FileProblem where
  | notFound
  | alreadyExists
  | notDirectory
  | isDirectory
  | nameTooLong
  /-- The path holds a character that no path can hold. -/
  | impossiblePath
deriving DecidableEq, Repr

namespace FileProblem

/-- The number and the words by which a problem is known. -/
def description : FileProblem -> Nat × Text
  | notFound => (2, "No such file or directory".toList)
  | alreadyExists => (17, "File exists".toList)
  | notDirectory => (20, "Not a directory".toList)
  | isDirectory => (21, "Is a directory".toList)
  | nameTooLong => (36, "File name too long".toList)
  | impossiblePath => (22, "Invalid argument".toList)

end FileProblem

/-- A problem met at a path. -/
structure Obstacle where
  problem : FileProblem
  path : Path
deriving DecidableEq, Repr

/-- An obstacle as a sentence without its full stop. -/
def Obstacle.message (obstacle : Obstacle) : Text :=
  let (number, words) := obstacle.problem.description
  "[Errno ".toList ++ Text.ofNat number ++ "] ".toList ++ words ++ ": ".toList ++
    Text.quoted obstacle.path.toText

namespace FileTree

/-- The greatest number of octets in a name. -/
def longestName : Nat := 255

/-- Whether a name has more octets than a name may have. -/
def isTooLong (name : Text) : Bool :=
  longestName < (Utf8.encode name).length

/-- Whether a path holds the character that ends every path. -/
def isImpossible (parts : List Text) : Bool :=
  parts.any fun part => part.contains (Char.ofNat 0)

/-- What is found at a place. -/
def node? (tree : FileTree) : List Text -> Option Node
  | [] => some .directory
  | place => tree.entries.lookup place

/-- Whether a place is a directory. -/
def isDirectory (tree : FileTree) (place : List Text) : Bool :=
  tree.node? place == some .directory

/-- The place that parts of a path lead to from a place.  Everything on the way has to be a
directory; the place itself may be free. -/
def walk (tree : FileTree) : (here : List Text) -> List Text -> Except FileProblem (List Text)
  | here, [] => .ok here
  | here, part :: rest =>
      match tree.node? here with
      | none => .error .notFound
      | some (.file _) => .error .notDirectory
      | some .directory =>
          if part = Path.up then tree.walk here.dropLast rest
          else if isTooLong part then .error .nameTooLong
          else tree.walk (here ++ [part]) rest

/-- The place that a path leads to. -/
def place (tree : FileTree) (workingDirectory : List Text) (path : Path) :
    Except FileProblem (List Text) :=
  if isImpossible path.parts then .error .impossiblePath
  else tree.walk (if path.isAbsolute then [] else workingDirectory) path.parts

/-- The content of the file at a path. -/
def read (tree : FileTree) (workingDirectory : List Text) (path : Path) :
    Except Obstacle Octets :=
  match tree.place workingDirectory path with
  | .error problem => .error ⟨problem, path⟩
  | .ok place =>
      match tree.node? place with
      | none => .error ⟨.notFound, path⟩
      | some .directory => .error ⟨.isDirectory, path⟩
      | some (.file content) => .ok content

/-- A tree with something at a place, whatever was there before. -/
def put (tree : FileTree) (place : List Text) (node : Node) : FileTree :=
  ⟨(place, node) :: tree.entries.filter fun entry => entry.1 != place⟩

/-- A tree with a new directory, the directory above it being there already. -/
def makeDirectory (tree : FileTree) (names : List Text) : Except FileProblem FileTree :=
  match tree.place [] (.toPlace names) with
  | .error problem => .error problem
  | .ok place =>
      if (tree.node? place).isSome then .error .alreadyExists
      else .ok (tree.put place .directory)

/-- A tree in which a place, given by its names from the innermost out, is a directory; directories
above it are made where they are missing. -/
def ensureDirectory (tree : FileTree) : (innermostFirst : List Text) -> Except Obstacle FileTree
  | [] => .ok tree
  | name :: above =>
      let names := (name :: above).reverse
      let settle (known : FileTree) (problem : FileProblem) : Except Obstacle FileTree :=
        if known.isDirectory names then .ok known else .error ⟨problem, .toPlace names⟩
      match tree.makeDirectory names with
      | .ok made => .ok made
      | .error .notFound =>
          match tree.ensureDirectory above with
          | .error obstacle => .error obstacle
          | .ok prepared =>
              match prepared.makeDirectory names with
              | .ok made => .ok made
              | .error problem => settle prepared problem
      | .error problem => settle tree problem

/-- A tree with a file of some content, new or in place of the file that was there. -/
def writeFile (tree : FileTree) (names : List Text) (content : Octets) :
    Except Obstacle FileTree :=
  let path := Path.toPlace names
  match tree.place [] path with
  | .error problem => .error ⟨problem, path⟩
  | .ok place =>
      if tree.isDirectory place then .error ⟨.isDirectory, path⟩
      else .ok (tree.put place (.file content))

/-- The files below a directory, each with the path that leads to it from there, ordered by path. -/
def filesBelow (tree : FileTree) (directory : List Text) : List (Text × Octets) :=
  let found := tree.entries.filterMap fun (place, node) =>
    match node with
    | .directory => none
    | .file content =>
        if directory.isPrefixOf place && directory != place then
          some (Text.join ['/'] (place.drop directory.length), content)
        else none
  Order.sort (fun first second => Text.le first.1 second.1) found

end FileTree

end SceneBundler
