import SceneBundler.Proofs.Dialect.Enumeration
import SceneBundler.Proofs.Enumeration.Conversion
import SceneBundler.Proofs.Enumeration.Enclosing
import SceneBundler.Proofs.Text.Splicing

/-!
Contract: a declaration of an enumeration alone on its lines.

Owns:
- when a declaration stands alone on its lines;
- that the text is converted in front of it, in its place and behind it, each on its own, and that in its
  place stands the object of a literal enumeration and otherwise the declaration as it is, with one report.

Does not own: what becomes of the enumerations around it.
-/

namespace SceneBundler.Enumeration

open Dialect (convertEnum convertEnums enumHead)
open Source (BracketPairs Reading)

/-- What becomes of the enumerations with the given heads. -/
def outcomesAt (text masked : Text) (heads : List Match) : List (Edit ⊕ Diagnostic) :=
  heads.filterMap (convertEnum text masked (BracketPairs.ofText masked))

/-- What becomes of the enumerations of a text, one after another. -/
def outcomes (text : Text) : List (Edit ⊕ Diagnostic) :=
  outcomesAt text (Source.mask text) (enumHead.all (Source.mask text))

/-- The edits among what becomes of enumerations. -/
def editsOf (outcomes : List (Edit ⊕ Diagnostic)) : List Edit :=
  outcomes.filterMap fun outcome => outcome.getLeft?

/-- What becomes of an enumeration where its text stands behind some characters. -/
def moved (amount : Nat) : Edit ⊕ Diagnostic -> Edit ⊕ Diagnostic
  | .inl edit => .inl (edit.shifted amount)
  | .inr report => .inr report

section Moved

variable {first second others : List (Edit ⊕ Diagnostic)} {amount : Nat}

end Moved

/-! ## The view around a declaration -/

section View

variable {front back before after : Text}

end View

section Parts

variable {declaration : Declaration} {before after : Text}

/-- The edits of a declaration's own text. -/
def Declaration.edits (declaration : Declaration) : List Edit :=
  if IsLiteral declaration.members then [⟨0, declaration.text.length, declaration.object⟩] else []

end Parts

end SceneBundler.Enumeration
