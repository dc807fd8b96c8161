import SceneBundler.Text.Basic

/-!
Contract: paths as they are written.

Owns:
- the parts of a path, where empty parts and single dots count for nothing;
- the difference between absolute and relative paths, and the written form of either;
- the home directory at the beginning of a path.

Does not own: what is found at a path.
-/

namespace SceneBundler

/-- A path: how many slashes it begins with, at most two, and its parts in order. -/
structure Path where
  slashes : Nat
  parts : List Text
deriving DecidableEq, Repr

namespace Path

/-- The part that leads one level up. -/
def up : Text := "..".toList

/-- The parts of a written path that count. -/
def partsOf (text : Text) : List Text :=
  (Text.split '/' text).filter fun part => !part.isEmpty && part != ['.']

/-- A path from its written form.  Two slashes at the beginning are told apart from one; more than
two are the same as one. -/
def ofText (text : Text) : Path :=
  let leading := (text.takeWhile (· == '/')).length
  ⟨if leading ≤ 2 then leading else 1, partsOf text⟩

/-- The absolute path to a place that is given by the names that lead to it. -/
def toPlace (names : List Text) : Path :=
  ⟨1, names⟩

/-- Whether a path begins at the root. -/
def isAbsolute (path : Path) : Bool :=
  path.slashes != 0

/-- Whether a path has a part that leads up. -/
def leadsUp (path : Path) : Bool :=
  path.parts.contains up

/-- The written form of a path. -/
def toText (path : Path) : Text :=
  if path.slashes = 0 && path.parts.isEmpty then ['.']
  else List.replicate path.slashes '/' ++ Text.join ['/'] path.parts

/-- The names that lead from the root to the place of a path, where every part that leads up takes
back the name before it. -/
def resolve (directory : List Text) (path : Path) : List Text :=
  path.parts.foldl
    (fun names part => if part = up then names.dropLast else names ++ [part])
    (if path.isAbsolute then [] else directory)

/-- Whose home directory a path begins in: nothing after the tilde stands for the user who runs the
program. -/
def homeOwner? (path : Path) : Option Text :=
  match path.slashes, path.parts with
  | 0, ('~' :: owner) :: _ => some owner
  | _, _ => none

/-- A home directory as it is written, without slashes at its end. -/
def homeText (home : Text) : Text :=
  let bare := (home.reverse.dropWhile (· == '/')).reverse
  if bare.isEmpty then ['/'] else bare

/-- A path with a home directory in place of its first part. -/
def withHome (home : Text) (path : Path) : Path :=
  let start := ofText home
  { start with parts := start.parts ++ path.parts.tail }

end Path

end SceneBundler
