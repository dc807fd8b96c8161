import SceneBundler.Proofs.Dialect.Balanced
import SceneBundler.Proofs.Enumeration.Declaration
import SceneBundler.Proofs.Enumeration.View
import SceneBundler.Proofs.Text.Preferred
import SceneBundler.Proofs.Text.Search

/-!
Contract: one item of an enumeration as it is read.

Owns:
- the key of an item and what stands behind its equals sign;
- that an item is read as the member it was written for.

Does not own: how the items of an enumeration are told apart.
-/

namespace SceneBundler

namespace Enumeration

open Pattern (Leads)
open Cursor (noting)
open Dialect (enumKey plainString quotedBy readMember? wholeNumber)

/-! ## Quotations -/

theorem Quotation.visible (quotation : Quotation) : Character.isBlank quotation.quote = false := by
  rcases quotation.isMark with isMark | isMark <;> rw [isMark] <;> decide

theorem Key.startsVisible (key : Key) (ahead : Text) :
    (key.text ++ ahead).head?.any Character.isBlank = false := by
  cases key with
  | plain name => exact name.2.any_head? ahead
  | quoted quotation => exact quotation.visible

/-- What comes before the setting of a member. -/
def Member.lead (member : Member) : Text :=
  member.before.1 ++ (member.key.text ++ member.after.1)

theorem Member.text_eq (member : Member) : member.text = member.lead ++ settingText member.setting := by
  simp [Member.text, Member.lead]

/-- Where blanks follow a name, the name ends. -/
theorem any_head?_blanks (blanks : Blanks) {ahead : Text}
    (ends : ahead.head?.any Character.continuesName = false) :
    (blanks.1 ++ ahead).head?.any Character.continuesName = false := by
  obtain ⟨blanks, blank⟩ := blanks
  cases blanks with
  | nil => exact ends
  | cons c rest => exact Character.continuesName_of_isBlank (Text.isBlank_iff.mp blank c List.mem_cons_self)

theorem WholeNumber.visible {number : WholeNumber} : ∀ c ∈ number.text, Character.isBlank c = false := by
  intro c member
  rcases number.mem_text member with rfl | digit
  · decide
  · rw [← Bool.not_eq_true]
    intro blank
    have continues := Character.continuesName_of_isBlank blank
    rw [Character.continuesName, Character.isWord_of_isAlphanum (Character.isAlphanum_of_isDigit digit)]
      at continues
    contradiction

section Reading

variable {next : Option Int} (passed following : Text) {member : Member}

end Reading

end Enumeration

end SceneBundler
