import SceneBundler.Text.Basic

/-!
Contract: the names of JSX tags.

Owns: which characters a tag name starts and continues with, and reading one.

Does not own: the tags themselves.
-/

namespace SceneBundler.TagName

/-- The characters a tag name continues with: those of a name, and the dots, colons and hyphens of
member, namespaced and custom elements. -/
def continues (c : Char) : Bool :=
  Character.continuesName c || c == '.' || c == ':' || c == '-'

/-- The tag name at the beginning of a text. -/
def read? : Text -> Option Text
  | [] => none
  | c :: rest =>
      if Character.startsName c then some (c :: rest.takeWhile continues) else none

/-- The name a member tag is resolved through: the part before the first dot. -/
def root (name : Text) : Text :=
  name.takeWhile (· != '.')

/-- Capitalized names stand for components; all others are host elements. -/
def isComponent (name : Text) : Bool :=
  name.head?.any Char.isUpper

end SceneBundler.TagName
