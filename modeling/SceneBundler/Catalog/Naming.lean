import SceneBundler.Catalog.Packaged

/-!
Contract: frameworks by the names that people use.

Owns: finding the framework of a tag or alias, and what is said when there is none.

Does not own: the aliases themselves.
-/

namespace SceneBundler

/-- What can be wrong with the name of a framework. -/
inductive NamingFault where
  | unsupportedTag (name : Text)
  | unknownName (name : Text)
deriving DecidableEq, Repr

/-- A fault as a sentence. -/
def NamingFault.message : NamingFault -> Text
  | unsupportedTag name =>
      "Unsupported framework '".toList ++ name ++ "'. Use one of: ".toList ++
        Framework.tagList ++ ['.']
  | unknownName name =>
      "Unknown framework '".toList ++ name ++ "'. Use one of: ".toList ++
        Framework.tagList ++ ['.']

namespace Framework

/-- A text with its ASCII capitals in lower case.  The aliases hold no other letters, and no other
letter has one of theirs as its lower case. -/
def folded (text : Text) : Text :=
  text.map Char.toLower

/-- Whether a framework goes by a name, in any letter case. -/
def hasAlias (framework : Framework) (name : Text) : Bool :=
  (Catalog.packaged framework).aliases.any fun known => folded known == folded name

/-- The framework with a tag, or one that goes by the name; blanks around it do not matter. -/
def resolve (name : Text) : Except NamingFault Framework :=
  let trimmed := Text.trim name
  match ofTag? trimmed with
  | some framework => .ok framework
  | none =>
      match all.find? fun framework => framework.hasAlias trimmed with
      | some framework => .ok framework
      | none => .error (.unknownName name)

end Framework

/-- The packaged catalog of the framework with a tag; aliases are not accepted. -/
def Catalog.load (tag : Text) : Except NamingFault Catalog :=
  match Framework.ofTag? tag with
  | some framework => .ok (packaged framework)
  | none => .error (.unsupportedTag tag)

end SceneBundler
