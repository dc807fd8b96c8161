import SceneBundler.Text.Basic

/-!
Contract: the frameworks that scenes are written for.

Owns: their tags, in the order in which they are listed.

Does not own: what a framework provides.
-/

namespace SceneBundler

/-- The supported frameworks. -/
inductive Framework where
  | reactThreeFiber
  | reactylon
  | threejs
  | babylonjs
deriving DecidableEq, Repr

namespace Framework

/-- Every framework in the order of listing. -/
def all : List Framework :=
  [reactThreeFiber, reactylon, threejs, babylonjs]

/-- The tag a framework is named by. -/
def tag : Framework -> Text
  | reactThreeFiber => "react-three-fiber".toList
  | reactylon => "reactylon".toList
  | threejs => "threejs".toList
  | babylonjs => "babylonjs".toList

/-- The framework with a tag. -/
def ofTag? (name : Text) : Option Framework :=
  all.find? (·.tag == name)

/-- The tags with commas in between. -/
def tagList : Text :=
  Text.join ", ".toList (all.map tag)

end Framework

end SceneBundler
