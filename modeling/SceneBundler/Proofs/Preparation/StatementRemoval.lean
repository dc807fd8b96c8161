import SceneBundler.Proofs.Dialect.Settled
import SceneBundler.Proofs.Dialect.Slices
import SceneBundler.Proofs.Entry.LineRemoval
import SceneBundler.Proofs.Imports.Removed
import SceneBundler.Proofs.Source.LineRemoval

/-!
Contract: removals of whole statements and block comments.

Owns:
- that the declaration of a type is removed from the beginning of its line, and through the end of its last
  one where nothing else is shown there;
- that the removal of an import statement goes through its line as the others do;
- which block comments a removal takes or leaves as a whole, and how much it takes of the others.

Does not own: how far the other statements extend.
-/

namespace SceneBundler

open Source (mask Hidden ShowsBefore EndsShownLine IsBlockComment IsBehindFirstBreak IsBehindLastBreak
  BeginsShownLine)

/-! ## Declarations of types -/

namespace Dialect

variable {masked : Text} {start stop : Nat} {edit : Edit}

theorem continuesPastBreak_cons {c : Char} (blank : Character.isBlank c = true) (last : Option Char)
    (rest : Text) : continuesPastBreak last (c :: rest) = continuesPastBreak last rest := by
  have trimmed : Text.trimStart (c :: rest) = Text.trimStart rest := List.dropWhile_cons_of_pos blank
  rw [continuesPastBreak, continuesPastBreak, trimmed]

/-- Whether a scan for the end of a statement may come to an offset: something of the line was read, or the
statement goes on past the next line break. -/
def MayBeAt (masked : Text) (offset depth : Nat) (last : Option Char) : Prop :=
  last = none ∨ ShowsBefore masked offset ∨ 0 < depth ∨ continuesPastBreak last (masked.drop offset) = true

/-- Where the scan for the end of a statement passes a character, it may be behind it. -/
theorem MayBeAt.next {c : Char} {rest : Text} {offset depth : Nat} {last : Option Char}
    (mayBeHere : MayBeAt masked offset depth last) (isRest : masked.drop offset = c :: rest)
    (passes : c = '\n' → 0 < depth ∨ continuesPastBreak last rest = true) :
    MayBeAt masked (offset + 1) depth (if Character.isBlank c then last else some c) := by
  obtain ⟨isThere, isNext⟩ := Text.of_drop_eq_cons isRest
  by_cases blank : Character.isBlank c = true
  · rw [if_pos blank, MayBeAt, isNext]
    by_cases isBreak : c = '\n'
    · exact Or.inr (Or.inr (passes isBreak))
    · have notBreak : masked[offset]? ≠ some '\n' := fun isBreakHere =>
        isBreak (Option.some.inj (isThere.symm.trans isBreakHere))
      rw [MayBeAt, isRest, continuesPastBreak_cons blank] at mayBeHere
      exact mayBeHere.imp_right (Or.imp_left fun shows => shows.next notBreak)
  · rw [if_neg blank]
    exact Or.inr (Or.inl (.of_shown (not_hidden_of_visible isThere (Bool.eq_false_iff.mpr blank))))

/-- A statement stops where one may. -/
theorem exists_stops_statementLength {text : Text} {offset depth : Nat} {last : Option Char}
    (isRest : masked.drop offset = text) (mayBeHere : MayBeAt masked offset depth last) (passed : Nat) :
    ∃ length, statementLength depth last passed text = passed + length ∧
      Stops masked (offset + length) := by
  induction text generalizing offset depth last passed with
  | nil => exact ⟨0, rfl, .beyond (by simpa using isRest)⟩
  | cons c rest inductionHypothesis =>
      obtain ⟨isThere, isNext⟩ := Text.of_drop_eq_cons isRest
      have later {depth : Nat} {last : Option Char} (mayBeNext : MayBeAt masked (offset + 1) depth last) :
          ∃ length, statementLength depth last (passed + 1) rest = passed + length ∧
            Stops masked (offset + length) := by
        obtain ⟨length, isLength, stops⟩ := inductionHypothesis isNext mayBeNext (passed + 1)
        exact ⟨length + 1, by omega, by rwa [Nat.add_assoc, Nat.add_comm 1] at stops⟩
      rcases statementPasses_or_ends last c rest depth with ⟨next, passes⟩ | ⟨taken, ends⟩
      · rw [statementLength_passes passes]
        refine later ?_
        cases passes with
        | opens _ => exact Or.inr (Or.inr (Or.inl (Nat.succ_pos depth)))
        | closes closes =>
            exact Or.inr (Or.inl (.of_shown (not_hidden_of_visible isThere (Source.visible_of_isCloser closes))))
        | goesOn _ _ _ notBreak =>
            refine mayBeHere.next isRest fun isBreak => ?_
            rcases Nat.eq_zero_or_pos depth with outside | inside
            · exact Or.inr (notBreak outside isBreak)
            · exact Or.inl inside
      · refine ⟨taken, statementLength_ends ends passed, ?_⟩
        cases ends with
        | closer closes => exact .before (not_hidden_of_visible isThere (Source.visible_of_isCloser closes))
        | semicolon isEnd =>
            subst isEnd
            exact .of_isThere isThere (by decide) (by decide)
        | lineBreak isBreak stopsHere =>
            subst isBreak
            refine .atBreak isThere ?_
            rcases mayBeHere with rfl | shows | inside | goesOn
            · contradiction
            · exact shows
            · contradiction
            · rw [isRest, continuesPastBreak_cons (by decide), stopsHere] at goesOn
              contradiction

theorem stops_statementEnd (masked : Text) (start : Nat) : Stops masked (statementEnd masked start) := by
  obtain ⟨length, isLength, stops⟩ :=
    @exists_stops_statementLength masked (masked.drop start) start 0 none rfl (Or.inl rfl) 0
  rw [Nat.zero_add] at isLength
  rwa [statementEnd, isLength]

/-- The removal of a statement ends as a line may. -/
theorem endsShownLine_statementRemoval (stops : Stops masked stop) :
    EndsShownLine masked (statementRemoval masked start stop).stop := by
  obtain ⟨behind, isBehind, isRemoval⟩ := statementRemoval_cases masked start stop
  have stops : Stops masked behind := by
    rcases isBehind with rfl | ⟨isSemicolon, rfl⟩
    · exact stops
    · exact .of_isThere isSemicolon (by decide) (by decide)
  rcases isRemoval with ⟨isBreak, isRemoval⟩ | ⟨notBreak, isRemoval⟩
  · rw [isRemoval]
    exact (stops.showsBefore_skip (by decide) isBreak).endsShownLine isBreak
  · rw [isRemoval]
    refine stops.endsShownLine fun isBreak => notBreak ?_
    have notSkipped : Text.skip Text.isIndent masked behind = behind := by
      obtain ⟨inside, isHere⟩ := List.getElem?_eq_some_iff.mp isBreak
      rw [Text.skip, List.drop_eq_getElem_cons inside, isHere]
      rfl
    rwa [notSkipped]

theorem isLineRemoval_typeDeclarationEdits (member : edit ∈ typeDeclarationEdits masked) :
    IsLineRemoval masked edit := by
  have ordered := (isDeletion_typeDeclarationEdits edit member).2
  cases isTypeDeclarationEdit_of_mem member with
  | typesOnly isImport =>
      refine ⟨?_, endsShownLine_statementRemoval (stops_statementEnd masked _), ordered⟩
      rw [start_statementRemoval]
      exact Pattern.beginsShownLine rfl (by decide) (by decide) isImport
  | interface isHead paired =>
      refine ⟨?_, endsShownLine_statementRemoval (.closer paired), ordered⟩
      rw [start_statementRemoval]
      exact Pattern.beginsShownLine rfl (by decide) (by decide) isHead
  | typeAlias isHead =>
      refine ⟨?_, endsShownLine_statementRemoval (stops_statementEnd masked _), ordered⟩
      rw [start_statementRemoval]
      exact Pattern.beginsShownLine rfl (by decide) (by decide) isHead
  | ambient isHead =>
      refine ⟨?_, endsShownLine_statementRemoval (stops_statementEnd masked _), ordered⟩
      rw [start_statementRemoval]
      exact Pattern.beginsShownLine rfl (by decide) (by decide) isHead

end Dialect

/-! ## Imports -/

namespace Imports

variable {text : Text} {catalog : Catalog} {edit : Edit}

theorem isLineRemoval_statementRemovals (member : edit ∈ statementRemovals text catalog) :
    IsLineRemoval (mask text) edit := by
  obtain ⟨found, isFound, passed, written, rest, split, isStart, rfl⟩ := exists_statementLineRemoval member
  have nonempty := List.length_pos_iff.mpr written.ne_nil
  have isQuote := written.isQuote
  have behindQuote : Stops (mask text) (passed.length + written.text.length - 1 + 1) :=
    .of_isThere (Written.getElem?_closing split) (by rintro same; rw [same] at isQuote; contradiction)
      (by rintro same; rw [same] at isQuote; contradiction)
  rw [Nat.sub_add_cancel (by omega)] at behindQuote
  refine ⟨?_, behindQuote.endsShownLine_skip (by decide) (by decide), ?_⟩
  · have begins : BeginsShownLine (mask text) found.start :=
      Pattern.beginsShownLine rfl (by decide) (by decide) isFound
    rwa [isStart] at begins
  · have isRemoval := @isRemovalOf_statementLineRemoval (mask text) passed written
    exact Nat.le_trans (Nat.le_add_right _ _) isRemoval.stop

end Imports

/-! ## Comments -/

/-- The removals of whole statements that the stages compute from the masked view of a text: declarations of
types, import statements, mount code, and default exports that leave nothing. -/
inductive IsStatementRemoval (text : Text) : Edit -> Prop where
  | typeDeclaration {edit : Edit} (member : edit ∈ Dialect.typeDeclarationEdits (mask text)) :
      IsStatementRemoval text edit
  | importStatement {edit : Edit} {catalog : Catalog}
      (member : edit ∈ Imports.statementRemovals text catalog) : IsStatementRemoval text edit
  | mountCode {edit : Edit} (member : edit ∈ Entry.mountEdits (mask text)) : IsStatementRemoval text edit
  | defaultExport {edit : Edit} {start stop : Nat} (member : edit ∈ Entry.defaultExportEdits (mask text))
      (isRemoval : edit = Entry.removalThroughLine (mask text) start stop) : IsStatementRemoval text edit

theorem IsStatementRemoval.isLineRemoval {text : Text} {edit : Edit}
    (isRemoval : IsStatementRemoval text edit) : IsLineRemoval (mask text) edit := by
  cases isRemoval with
  | typeDeclaration member => exact Dialect.isLineRemoval_typeDeclarationEdits member
  | importStatement member => exact Imports.isLineRemoval_statementRemovals member
  | mountCode member => exact Entry.isLineRemoval_mountEdits member
  | defaultExport member isRemoval => exact Entry.isLineRemoval_defaultExportEdits member isRemoval

/-- Whether an edit takes all of a stretch or nothing of it. -/
def Edit.KeepsWhole (edit : Edit) (start stop : Nat) : Prop :=
  (edit.start ≤ start ∧ stop ≤ edit.stop) ∨ edit.stop ≤ start ∨ stop ≤ edit.start

/-- The removal of a statement takes or leaves a block comment as a whole, unless it ends with the first line
of the comment, which then begins behind the statement, or begins with the last line of the comment, which
then ends in front of it. -/
theorem keepsWhole_comment_iff {text : Text} {edit : Edit} {start stop : Nat}
    (isRemoval : IsStatementRemoval text edit) (isComment : IsBlockComment text start stop) :
    edit.KeepsWhole start stop ↔
      ¬ IsBehindFirstBreak text start stop edit.stop ∧ ¬ IsBehindLastBreak text start stop edit.start := by
  obtain ⟨begins, ends, ordered⟩ := isRemoval.isLineRemoval
  have nonempty := isComment.lt
  constructor
  · intro whole
    unfold Edit.KeepsWhole at whole
    exact ⟨fun ⟨behind, before, _⟩ => by omega, fun ⟨behind, before, _⟩ => by omega⟩
  · rintro ⟨notFirst, notLast⟩
    have startOutside : ¬ (start < edit.start ∧ edit.start < stop) := fun ⟨behind, before⟩ =>
      notLast (begins.isBehindLastBreak isComment behind before)
    have stopOutside : ¬ (start < edit.stop ∧ edit.stop < stop) := fun ⟨behind, before⟩ =>
      notFirst (ends.isBehindFirstBreak isComment behind before)
    unfold Edit.KeepsWhole
    omega

/-- A type alias with a comment on its line behind it. -/
def linedComment : Text :=
  "type A = number; /* first */\nlet x = 1;\n".toList

theorem keepsWhole_linedComment :
    IsStatementRemoval linedComment (.deletion 0 29) ∧ IsBlockComment linedComment 17 28 ∧
      (Edit.deletion 0 29).KeepsWhole 17 28 := by
  have isRemoval : IsStatementRemoval linedComment (.deletion 0 29) := .typeDeclaration (by decide +kernel)
  have isComment : IsBlockComment linedComment 17 28 :=
    ⟨"type A = number; ".toList, " first */\nlet x = 1;\n".toList, _, by decide, rfl, by decide, by decide,
      by decide⟩
  refine ⟨isRemoval, isComment, (keepsWhole_comment_iff isRemoval isComment).mpr ⟨?_, ?_⟩⟩
  · exact fun ⟨_, inside, _⟩ => absurd inside (by decide)
  · exact fun ⟨inside, _, _⟩ => absurd inside (by decide)

/-- A type alias with a comment that begins on its line and ends on the next one. -/
def brokenComment : Text :=
  "type A = number; /* first\n second */\nlet x = 1;\n".toList

/-- The removal of the alias goes through the first line break behind it, which lies within the comment. -/
theorem not_keepsWhole_brokenComment :
    IsStatementRemoval brokenComment (.deletion 0 26) ∧ IsBlockComment brokenComment 17 36 ∧
      ¬ (Edit.deletion 0 26).KeepsWhole 17 36 := by
  refine ⟨.typeDeclaration (by decide +kernel), ?_, ?_⟩
  · exact ⟨"type A = number; ".toList, " first\n second */\nlet x = 1;\n".toList, _, by decide, rfl,
      by decide, by decide, by decide⟩
  · unfold Edit.KeepsWhole
    decide

end SceneBundler
