import SceneBundler.Dialect.Annotation
import SceneBundler.Proofs.Source.Nested

/-!
Contract: how far statements, types and class members extend in a nested text.

Owns:
- what one character does to the scans of a statement and of a type;
- that what is read for a statement, for a type without angle brackets and for a line of a class body is
  nested itself;
- how many brackets are open behind a character, for the lists that count them.

Does not own: where these begin.
-/

namespace SceneBundler.Dialect

open Source

/-! ## Statements -/

theorem isOpener_of_isCloser {c : Char} (closes : isCloser c = true) : isOpener c = false := by
  simp only [isCloser, Bool.or_eq_true, beq_iff_eq] at closes
  rcases closes with (rfl | rfl) | rfl <;> decide

/-- The characters that a statement goes on behind, at a depth of brackets. -/
inductive StatementPasses (last : Option Char) (c : Char) (rest : Text) : (depth next : Nat) -> Prop where
  | opens {depth : Nat} (opens : isOpener c = true) : StatementPasses last c rest depth (depth + 1)
  | closes {outer : Nat} (closes : isCloser c = true) : StatementPasses last c rest (outer + 1) outer
  | goesOn {depth : Nat} (notOpener : isOpener c = false) (notCloser : isCloser c = false)
      (notEnd : depth = 0 → c ≠ ';') (notBreak : depth = 0 → c = '\n' → continuesPastBreak last rest = true) :
      StatementPasses last c rest depth depth

/-- The characters that a statement ends at outside brackets, and whether they are taken with it. -/
inductive StatementEnds (last : Option Char) (c : Char) (rest : Text) : (depth taken : Nat) -> Prop where
  | closer (closes : isCloser c = true) : StatementEnds last c rest 0 0
  | semicolon (isEnd : c = ';') : StatementEnds last c rest 0 1
  | lineBreak (isBreak : c = '\n') (stops : continuesPastBreak last rest = false) : StatementEnds last c rest 0 0

section Steps

variable {last : Option Char} {c : Char} {rest : Text} {depth next taken : Nat}

theorem statementPasses_or_ends (last : Option Char) (c : Char) (rest : Text) (depth : Nat) :
    (∃ next, StatementPasses last c rest depth next) ∨ ∃ taken, StatementEnds last c rest depth taken := by
  by_cases opens : isOpener c = true
  · exact Or.inl ⟨_, .opens opens⟩
  by_cases closes : isCloser c = true
  · cases depth with
    | zero => exact Or.inr ⟨_, .closer closes⟩
    | succ outer => exact Or.inl ⟨_, .closes closes⟩
  have goesOn := @StatementPasses.goesOn last c rest depth (eq_false_of_ne_true opens) (eq_false_of_ne_true closes)
  cases depth with
  | succ outer => exact Or.inl ⟨_, goesOn (fun outside => nomatch outside) fun outside => nomatch outside⟩
  | zero =>
      by_cases isEnd : c = ';'
      · exact Or.inr ⟨_, .semicolon isEnd⟩
      by_cases stops : c = '\n' ∧ continuesPastBreak last rest = false
      · exact Or.inr ⟨_, .lineBreak stops.1 stops.2⟩
      · exact Or.inl ⟨_, goesOn (fun _ => isEnd) fun _ isBreak => eq_true_of_ne_false fun ends => stops ⟨isBreak, ends⟩⟩

theorem statementLength_passes (passes : StatementPasses last c rest depth next) (passed : Nat) :
    statementLength depth last passed (c :: rest) =
      statementLength next (if Character.isBlank c then last else some c) (passed + 1) rest := by
  rw [statementLength.eq_def]
  dsimp only
  cases passes with
  | opens opens => rw [if_pos opens]
  | closes closes => rw [if_neg (by simp [isOpener_of_isCloser closes]), if_pos closes]
  | goesOn notOpener notCloser notEnd notBreak =>
      rw [if_neg (by simp [notOpener]), if_neg (by simp [notCloser]), if_neg, if_neg]
      · simp only [Bool.and_eq_true, decide_eq_true_eq, beq_iff_eq, Bool.not_eq_true']
        rintro ⟨⟨isBreak, outside⟩, stops⟩
        rw [notBreak outside isBreak] at stops
        contradiction
      · simp only [Bool.and_eq_true, decide_eq_true_eq, beq_iff_eq]
        exact fun ⟨isEnd, outside⟩ => notEnd outside isEnd

theorem statementLength_ends (ends : StatementEnds last c rest depth taken) (passed : Nat) :
    statementLength depth last passed (c :: rest) = passed + taken := by
  rw [statementLength.eq_def]
  dsimp only
  cases ends with
  | closer closes =>
      rw [if_neg (by simp [isOpener_of_isCloser closes]), if_pos closes]
      rfl
  | semicolon isEnd =>
      subst isEnd
      rfl
  | lineBreak isBreak stops =>
      subst isBreak
      rw [stops]
      rfl

end Steps

section Statements

variable {opened outer after : List BracketKind} {text : Text}

/-- A statement is read to a place where all that was opened in it is closed. -/
theorem exists_statementLength (opens : openAfter (opened ++ outer) text = some after)
    (fewer : after.length ≤ outer.length) (last : Option Char) (passed : Nat) :
    ∃ length, statementLength opened.length last passed text = passed + length ∧
      openAfter opened (text.take length) = some [] := by
  induction text generalizing opened last passed with
  | nil =>
      have none : opened = [] := by
        rw [← Option.some.inj opens, List.length_append] at fewer
        exact List.length_eq_zero_iff.mp (by omega)
      rw [none]
      exact ⟨0, rfl, rfl⟩
  | cons c rest inductionHypothesis =>
      have later {others : List BracketKind} {next : Option Char}
          (opens : openAfter (others ++ outer) rest = some after) :
          ∃ length, statementLength others.length next (passed + 1) rest = passed + (length + 1) ∧
            openAfter others (rest.take length) = some [] := by
        obtain ⟨length, reached, closes⟩ := inductionHypothesis opens next (passed + 1)
        exact ⟨length, by rw [reached]; omega, closes⟩
      rcases isBracket_cases c with ⟨kind, rfl⟩ | ⟨kind, rfl⟩ | plain
      · rw [openAfter_opener] at opens
        obtain ⟨length, reached, closes⟩ := @later (kind :: opened) _ opens
        refine ⟨length + 1, (statementLength_passes (.opens (isOpener_opener kind)) passed).trans reached, ?_⟩
        rwa [List.take_succ_cons, openAfter_opener]
      · cases opened with
        | nil => exact ⟨0, statementLength_ends (.closer (isCloser_closer kind)) passed, rfl⟩
        | cons innermost others =>
            obtain ⟨rfl, opensRest⟩ := openAfter_closer_iff.mp opens
            obtain ⟨length, reached, closes⟩ := @later others _ opensRest
            refine ⟨length + 1, (statementLength_passes (.closes (isCloser_closer _)) passed).trans reached, ?_⟩
            rw [List.take_succ_cons]
            exact openAfter_closer_iff.mpr ⟨rfl, closes⟩
      · rw [openAfter_cons_plain plain] at opens
        have notOpener := isOpener_of_isBracket plain
        have notCloser := isCloser_of_isBracket plain
        generalize isDepth : opened.length = depth
        rcases statementPasses_or_ends last c rest depth with ⟨next, passes⟩ | ⟨taken, ends⟩
        · rw [statementLength_passes passes]
          cases passes with
          | opens isOpened => exact absurd (notOpener.symm.trans isOpened) Bool.false_ne_true
          | closes isClosed => exact absurd (notCloser.symm.trans isClosed) Bool.false_ne_true
          | goesOn _ _ _ _ =>
              subst isDepth
              obtain ⟨length, reached, closes⟩ := @later opened _ opens
              exact ⟨length + 1, reached, by rwa [List.take_succ_cons, openAfter_cons_plain plain]⟩
        · refine ⟨taken, statementLength_ends ends passed, ?_⟩
          cases ends with
          | closer isClosed => exact absurd (notCloser.symm.trans isClosed) Bool.false_ne_true
          | semicolon _ =>
              rw [List.length_eq_zero_iff.mp isDepth]
              exact openAfter_cons_plain plain []
          | lineBreak _ _ =>
              rw [List.length_eq_zero_iff.mp isDepth]
              rfl

end Statements

/-! ## Types -/

/-- Whether a text holds an angle bracket, given the character in front of it; the `>` of an arrow is
none. -/
def holdsAngle : (previous : Option Char) -> Text -> Bool
  | _, [] => false
  | previous, c :: rest => c == '<' || (c == '>' && previous != some '=') || holdsAngle (some c) rest

section Types

variable {opened outer after : List BracketKind} {text : Text}

theorem holdsAngle_append (previous : Option Char) (first second : Text) :
    holdsAngle previous (first ++ second) =
      (holdsAngle previous first || holdsAngle (first.getLast?.or previous) second) := by
  induction first generalizing previous with
  | nil => rfl
  | cons c rest inductionHypothesis =>
      have last : (c :: rest).getLast?.or previous = rest.getLast?.or (some c) := by
        cases rest with
        | nil => rfl
        | cons d others =>
            rw [List.getLast?_cons_cons]
            cases isLast : (d :: others).getLast? with
            | none => simp at isLast
            | some e => rfl
      rw [List.cons_append, holdsAngle, holdsAngle, inductionHypothesis, last]
      simp only [Bool.or_assoc]

/-- The number of brackets and angle brackets open behind a type; nothing where it closes more than it opens. -/
def typeDepth? : (depth : Nat) -> (previous : Option Char) -> Text -> Option Nat
  | depth, _, [] => some depth
  | depth, previous, c :: rest =>
      if opensType c then typeDepth? (depth + 1) (some c) rest
      else if closesType previous c then
        match depth with
        | 0 => none
        | outer + 1 => typeDepth? outer (some c) rest
      else typeDepth? depth (some c) rest

/-- What a character does to the number of brackets and angle brackets that are open in a type. -/
inductive TypePasses (previous : Option Char) (c : Char) : (depth next : Nat) -> Prop where
  | opens {depth : Nat} (opens : opensType c = true) : TypePasses previous c depth (depth + 1)
  | closes {outer : Nat} (notOpener : opensType c = false) (closes : closesType previous c = true) :
      TypePasses previous c (outer + 1) outer
  | goesOn {depth : Nat} (notOpener : opensType c = false) (notCloser : closesType previous c = false) :
      TypePasses previous c depth depth

section Steps

variable {depth next : Nat} {previous : Option Char} {c : Char} {rest : Text}

theorem typePasses_or_closes (previous : Option Char) (c : Char) (depth : Nat) :
    (∃ next, TypePasses previous c depth next) ∨
      depth = 0 ∧ opensType c = false ∧ closesType previous c = true := by
  by_cases opens : opensType c = true
  · exact Or.inl ⟨_, .opens opens⟩
  have notOpener := eq_false_of_ne_true opens
  by_cases closes : closesType previous c = true
  · cases depth with
    | zero => exact Or.inr ⟨rfl, notOpener, closes⟩
    | succ outer => exact Or.inl ⟨_, .closes notOpener closes⟩
  · exact Or.inl ⟨_, .goesOn notOpener (eq_false_of_ne_true closes)⟩

theorem typeDepth?_passes (passes : TypePasses previous c depth next) (rest : Text) :
    typeDepth? depth previous (c :: rest) = typeDepth? next (some c) rest := by
  rw [typeDepth?.eq_def]
  dsimp only
  cases passes with
  | opens opens => rw [if_pos opens]
  | closes notOpener closes => rw [notOpener, if_neg Bool.false_ne_true, if_pos closes]
  | goesOn notOpener notCloser => rw [notOpener, notCloser, if_neg Bool.false_ne_true, if_neg Bool.false_ne_true]

theorem typeDepth?_closes (notOpener : opensType c = false) (closes : closesType previous c = true) (rest : Text) :
    typeDepth? 0 previous (c :: rest) = none := by
  rw [typeDepth?.eq_def]
  dsimp only
  rw [notOpener, if_neg Bool.false_ne_true, if_pos closes]

theorem typeLength_passes {stops : Text} (passes : TypePasses previous c depth next)
    (goesOn : depth = 0 → stops.contains c = true → isCompoundEquals previous c rest.head? = true)
    (room passed : Nat) :
    typeLength stops (room + 1) depth previous passed (c :: rest) =
      typeLength stops room next (some c) (passed + 1) rest := by
  have notStopped : ¬(decide (depth = 0) && stops.contains c && !isCompoundEquals previous c rest.head?) = true := by
    rw [Bool.and_eq_true, Bool.and_eq_true, decide_eq_true_eq, Bool.not_eq_true', and_assoc]
    rintro ⟨outside, isStop, notCompound⟩
    exact absurd (goesOn outside isStop) (Bool.eq_false_iff.mp notCompound)
  rw [typeLength.eq_def]
  dsimp only
  rw [if_neg notStopped]
  cases passes with
  | opens opens => rw [if_pos opens]
  | closes notOpener closes => rw [notOpener, if_neg Bool.false_ne_true, if_pos closes]
  | goesOn notOpener notCloser => rw [notOpener, notCloser, if_neg Bool.false_ne_true, if_neg Bool.false_ne_true]

theorem typeLength_stop {stops : Text} (stopsAt : stops.contains c = true)
    (notCompound : isCompoundEquals previous c rest.head? = false) (room passed : Nat) :
    typeLength stops (room + 1) 0 previous passed (c :: rest) = passed := by
  rw [typeLength.eq_def]
  dsimp only
  rw [stopsAt, notCompound]
  rfl

theorem typeLength_closes (stops : Text) (notOpener : opensType c = false) (closes : closesType previous c = true)
    (room passed : Nat) : typeLength stops (room + 1) 0 previous passed (c :: rest) = passed := by
  rw [typeLength.eq_def]
  dsimp only
  rw [notOpener, if_neg Bool.false_ne_true, if_pos closes]
  exact ite_self passed

/-- Outside brackets, a return type goes on behind what begins no arrow and no body and ends no statement. -/
theorem returnTypeLength?_passes {seen : Bool} (passes : TypePasses previous c depth next)
    (goesOn : depth = 0 → c ≠ ';' ∧ c ≠ ',' ∧ c ≠ '=' ∧ (c = '\x7b' → seen = false)) (room passed : Nat) :
    returnTypeLength? (room + 1) depth seen previous passed (c :: rest) =
      returnTypeLength? room next (seen || !Character.isBlank c) (some c) (passed + 1) rest := by
  have notArrow : ¬(decide (depth = 0) && c == '=' && rest.head? == some '>') = true := by
    simp only [Bool.and_eq_true, decide_eq_true_eq, beq_iff_eq]
    exact fun ⟨⟨outside, isEquals⟩, _⟩ => (goesOn outside).2.2.1 isEquals
  have notBody : ¬(decide (depth = 0) && c == '\x7b' && seen) = true := by
    simp only [Bool.and_eq_true, decide_eq_true_eq, beq_iff_eq]
    rintro ⟨⟨outside, isBrace⟩, wasSeen⟩
    rw [(goesOn outside).2.2.2 isBrace] at wasSeen
    contradiction
  have notEnd : ¬(decide (depth = 0) && (c == ';' || c == ',' || c == '=')) = true := by
    simp only [Bool.and_eq_true, Bool.or_eq_true, decide_eq_true_eq, beq_iff_eq]
    rintro ⟨outside, (isSemicolon | isComma) | isEquals⟩
    · exact (goesOn outside).1 isSemicolon
    · exact (goesOn outside).2.1 isComma
    · exact (goesOn outside).2.2.1 isEquals
  rw [returnTypeLength?.eq_def]
  dsimp only
  rw [if_neg notArrow, if_neg notBody, if_neg notEnd]
  cases passes with
  | opens opens => rw [if_pos opens]
  | closes notOpener closes => rw [notOpener, if_neg Bool.false_ne_true, if_pos closes]
  | goesOn notOpener notCloser => rw [notOpener, notCloser, if_neg Bool.false_ne_true, if_neg Bool.false_ne_true]

end Steps

/-- A type is read to a place where nothing is open in it, or as far as there is room. -/
theorem exists_typeLength (stops : Text) (room depth : Nat) (previous : Option Char) (passed : Nat) (text : Text) :
    ∃ length reached, typeLength stops room depth previous passed text = passed + length ∧ length ≤ room ∧
      typeDepth? depth previous (text.take length) = some reached ∧
      (reached = 0 ∨ text.take length = text.take room) := by
  induction room generalizing depth previous passed text with
  | zero => exact ⟨0, depth, rfl, Nat.le_refl 0, rfl, Or.inr rfl⟩
  | succ room inductionHypothesis =>
      cases text with
      | nil => exact ⟨0, depth, rfl, Nat.zero_le _, rfl, Or.inr rfl⟩
      | cons c rest =>
          have ended (isHere : typeLength stops (room + 1) 0 previous passed (c :: rest) = passed) :
              ∃ length reached, typeLength stops (room + 1) 0 previous passed (c :: rest) = passed + length ∧
                length ≤ room + 1 ∧ typeDepth? 0 previous ((c :: rest).take length) = some reached ∧
                (reached = 0 ∨ (c :: rest).take length = (c :: rest).take (room + 1)) :=
            ⟨0, 0, isHere, Nat.zero_le _, rfl, Or.inl rfl⟩
          rcases typePasses_or_closes previous c depth with ⟨next, passes⟩ | ⟨rfl, notOpener, closes⟩
          · by_cases stopped : depth = 0 ∧ stops.contains c = true ∧ isCompoundEquals previous c rest.head? = false
            · obtain ⟨rfl, stopsAt, notCompound⟩ := stopped
              exact ended (typeLength_stop stopsAt notCompound room passed)
            · have goesOn (outside : depth = 0) (stopsAt : stops.contains c = true) :=
                eq_true_of_ne_false fun notCompound => stopped ⟨outside, stopsAt, notCompound⟩
              obtain ⟨length, reached, isLength, fits, isDepth, isOver⟩ :=
                inductionHypothesis next (some c) (passed + 1) rest
              refine ⟨length + 1, reached, ?_, Nat.succ_le_succ fits, ?_, ?_⟩
              · rw [typeLength_passes passes goesOn, isLength]
                omega
              · rw [List.take_succ_cons, typeDepth?_passes passes, isDepth]
              · exact isOver.imp id fun isWhole => by rw [List.take_succ_cons, List.take_succ_cons, isWhole]
          · exact ended (typeLength_closes stops notOpener closes room passed)

/-- Where a return type is found, it ends in front of an arrow or a body outside all brackets, or goes on
behind the next character. -/
theorem returnTypeLength?_cases {room depth passed found : Nat} {seen : Bool} {previous : Option Char} {c : Char}
    {rest : Text} (isFound : returnTypeLength? (room + 1) depth seen previous passed (c :: rest) = some found) :
    (depth = 0 ∧ found = passed ∧ (c = '=' ∧ rest.head? = some '>' ∨ c = '\x7b')) ∨
      ∃ next, TypePasses previous c depth next ∧
        returnTypeLength? room next (seen || !Character.isBlank c) (some c) (passed + 1) rest = some found := by
  rw [returnTypeLength?.eq_def] at isFound
  dsimp only at isFound
  split at isFound
  next isArrow =>
    split at isFound
    next =>
      simp only [Bool.and_eq_true, decide_eq_true_eq, beq_iff_eq] at isArrow
      exact Or.inl ⟨isArrow.1.1, (Option.some.inj isFound).symm, Or.inl ⟨isArrow.1.2, isArrow.2⟩⟩
    next => contradiction
  next =>
    split at isFound
    next isBody =>
      simp only [Bool.and_eq_true, decide_eq_true_eq, beq_iff_eq] at isBody
      exact Or.inl ⟨isBody.1.1, (Option.some.inj isFound).symm, Or.inr isBody.1.2⟩
    next =>
      split at isFound
      next => contradiction
      next =>
        rcases typePasses_or_closes previous c depth with ⟨next, passes⟩ | ⟨rfl, notOpener, closes⟩
        · refine Or.inr ⟨next, passes, ?_⟩
          cases passes with
          | opens opens => rwa [if_pos opens] at isFound
          | closes notOpener closes => rwa [notOpener, if_neg Bool.false_ne_true, if_pos closes] at isFound
          | goesOn notOpener notCloser =>
              rwa [notOpener, notCloser, if_neg Bool.false_ne_true, if_neg Bool.false_ne_true] at isFound
        · rw [notOpener, if_neg Bool.false_ne_true, if_pos closes] at isFound
          contradiction

/-- A return type is read to a place where nothing is open in it. -/
theorem exists_returnTypeLength {room depth passed found : Nat} {seen : Bool} {previous : Option Char} {text : Text}
    (isFound : returnTypeLength? room depth seen previous passed text = some found) :
    ∃ length, found = passed + length ∧ typeDepth? depth previous (text.take length) = some 0 := by
  induction room generalizing depth seen previous passed text with
  | zero => simp [returnTypeLength?] at isFound
  | succ room inductionHypothesis =>
      cases text with
      | nil => simp [returnTypeLength?] at isFound
      | cons c rest =>
          rcases returnTypeLength?_cases isFound with ⟨rfl, isHere, -⟩ | ⟨next, passes, isLater⟩
          · exact ⟨0, isHere, rfl⟩
          · obtain ⟨length, isLength, isDepth⟩ := inductionHypothesis isLater
            exact ⟨length + 1, by rw [isLength]; omega, by rw [List.take_succ_cons, typeDepth?_passes passes, isDepth]⟩

theorem le_of_returnTypeLength? {room depth passed reached : Nat} {seen : Bool} {previous : Option Char}
    {text : Text} (found : returnTypeLength? room depth seen previous passed text = some reached) :
    passed ≤ reached := by
  obtain ⟨length, isReached, _⟩ := exists_returnTypeLength found
  exact isReached ▸ Nat.le_add_right passed length

/-- Without angle brackets, what is open behind a type is counted as it is. -/
theorem exists_openAfter_of_typeDepth? {depth : Nat} {previous : Option Char}
    (opens : openAfter (opened ++ outer) text = some after)
    (isDepth : typeDepth? opened.length previous text = some depth) (noAngle : holdsAngle previous text = false) :
    ∃ reached, openAfter opened text = some reached ∧ reached.length = depth := by
  induction text generalizing opened previous with
  | nil => exact ⟨opened, rfl, Option.some.inj isDepth⟩
  | cons c rest inductionHypothesis =>
      rw [holdsAngle, Bool.or_eq_false_iff, Bool.or_eq_false_iff] at noAngle
      obtain ⟨⟨notLess, notGreater⟩, noneLater⟩ := noAngle
      rcases isBracket_cases c with ⟨kind, rfl⟩ | ⟨kind, rfl⟩ | plain
      · have isOpened : opensType kind.opener = true := by cases kind <;> rfl
        rw [typeDepth?_passes (.opens isOpened)] at isDepth
        rw [openAfter_opener] at opens ⊢
        exact @inductionHypothesis (kind :: opened) _ opens isDepth noneLater
      · have notOpened : opensType kind.closer = false := by cases kind <;> rfl
        have isClosed : closesType previous kind.closer = true := by cases kind <;> rfl
        cases opened with
        | nil =>
            rw [List.length_nil, typeDepth?_closes notOpened isClosed] at isDepth
            contradiction
        | cons innermost others =>
            rw [List.length_cons, typeDepth?_passes (.closes notOpened isClosed)] at isDepth
            obtain ⟨rfl, opensRest⟩ := openAfter_closer_iff.mp opens
            obtain ⟨reached, isReached, isLength⟩ := inductionHypothesis opensRest isDepth noneLater
            exact ⟨reached, openAfter_closer_iff.mpr ⟨rfl, isReached⟩, isLength⟩
      · have notOpened : opensType c = false := by
          rw [opensType, isOpener_of_isBracket plain, notLess]
          rfl
        have notClosed : closesType previous c = false := by
          rw [closesType, isCloser_of_isBracket plain, notGreater]
          rfl
        rw [typeDepth?_passes (.goesOn notOpened notClosed)] at isDepth
        rw [openAfter_cons_plain plain] at opens ⊢
        exact inductionHypothesis opens isDepth noneLater

/-- A type that is read up to where nothing around it is closed is nested, unless it holds an angle bracket. -/
theorem exists_nested_typeLength (stops : Text) {room : Nat} (opens : openAfter outer (text.take room) = some after)
    (fewer : after.length ≤ outer.length) (previous : Option Char) :
    ∃ length, typeLength stops room 0 previous 0 text = length ∧
      (holdsAngle previous (text.take length) = false → Nested (text.take length)) := by
  obtain ⟨length, depth, isLength, fits, isDepth, ended⟩ := exists_typeLength stops room 0 previous 0 text
  refine ⟨length, isLength.trans (Nat.zero_add length), fun noAngle => ?_⟩
  have opensWhole := opens
  rw [← List.take_append_drop length (text.take room), List.take_take, Nat.min_eq_left fits, openAfter_append]
    at opens
  obtain ⟨next, opensType, _⟩ := Option.bind_eq_some_iff.mp opens
  obtain ⟨reached, isReached, isCount⟩ :=
    @exists_openAfter_of_typeDepth? [] outer _ _ _ _ opensType isDepth noAngle
  have isEmpty : reached.length = 0 := by
    rcases ended with isOutside | isWhole
    · exact isCount.trans isOutside
    · -- Where there is no more room, what was opened in the type is closed as what is around it stays open.
      have whole := openAfter_outer isReached outer
      rw [isWhole, List.nil_append, opensWhole] at whole
      rw [Option.some.inj whole, List.length_append] at fewer
      omega
  rw [Nested, isReached, List.length_eq_zero_iff.mp isEmpty]

/-- A return type is nested, unless it holds an angle bracket. -/
theorem exists_nested_returnTypeLength {room found : Nat} {seen : Bool} {previous : Option Char}
    (opens : openAfter outer text = some after)
    (isFound : returnTypeLength? room 0 seen previous 0 text = some found) :
    holdsAngle previous (text.take found) = false → Nested (text.take found) := by
  intro noAngle
  obtain ⟨length, isLength, isDepth⟩ := exists_returnTypeLength isFound
  rw [isLength, Nat.zero_add] at noAngle ⊢
  rw [← List.take_append_drop length text, openAfter_append] at opens
  obtain ⟨next, opensType, _⟩ := Option.bind_eq_some_iff.mp opens
  obtain ⟨reached, isReached, isEmpty⟩ :=
    @exists_openAfter_of_typeDepth? [] outer _ _ _ _ opensType isDepth noAngle
  rw [Nested, isReached, List.length_eq_zero_iff.mp isEmpty]

end Types

/-! ## Lines and items -/

section Lists

variable {opened : List BracketKind} {passed rest : Text} {c : Char} {depth : Int}

/-- How many brackets are open behind a character. -/
def depthBehind (depth : Int) (c : Char) : Int :=
  if isOpener c then depth + 1 else if isCloser c then depth - 1 else depth

/-- A character in a text whose brackets close changes the number of those that are open as they are
counted. -/
theorem exists_openAfter_concat (opens : openAfter [] passed = some opened) (isDepth : depth = opened.length)
    (closes : openAfter opened (c :: rest) = some []) :
    ∃ next : List BracketKind, openAfter [] (passed ++ [c]) = some next ∧ depthBehind depth c = next.length ∧
      openAfter next rest = some [] := by
  obtain ⟨next, step, closesRest⟩ := Option.bind_eq_some_iff.mp closes
  refine ⟨next, ?_, ?_, closesRest⟩
  · rw [openAfter_append, opens, Option.bind_some, openAfter, step]
    rfl
  rw [depthBehind, isDepth]
  rcases isBracket_cases c with ⟨kind, rfl⟩ | ⟨kind, rfl⟩ | plain
  · rw [openStep_opener] at step
    rw [isOpener_opener, if_pos rfl, ← Option.some.inj step, List.length_cons, Int.natCast_succ]
  · rw [isOpener_closer, if_neg Bool.false_ne_true, isCloser_closer, if_pos rfl]
    cases opened with
    | nil =>
        rw [openStep_closer_nil] at step
        contradiction
    | cons innermost others =>
        rw [openStep_closer] at step
        obtain ⟨_, rfl⟩ : innermost = kind ∧ others = next := by simpa using step
        rw [List.length_cons, Int.natCast_succ, Int.add_sub_cancel]
  · rw [openStep_plain plain] at step
    rw [isOpener_of_isBracket plain, if_neg Bool.false_ne_true, isCloser_of_isBracket plain,
      if_neg Bool.false_ne_true, Option.some.inj step]

theorem nested_of_outside (opens : openAfter [] passed = some opened) (isDepth : depth = opened.length)
    (outside : (depth == 0) = true) : Nested passed := by
  rw [isDepth, beq_iff_eq] at outside
  have none : opened = [] := List.length_eq_zero_iff.mp (by omega)
  rwa [none] at opens

/-- A cut of a text at an offset, behind a nested part of it. -/
def NestedBefore (text : Text) (base place : Nat) : Prop :=
  ∃ before after, text = before ++ after ∧ Nested before ∧ place = base + before.length

theorem memberLineStarts_cons (depth : Int) (offset : Nat) (c : Char) (rest : Text) :
    memberLineStarts depth offset (c :: rest) =
      (if c = '\n' && depth == 0 then [offset + 1] else []) ++
        memberLineStarts (depthBehind depth c) (offset + 1) rest := by
  rw [memberLineStarts, depthBehind]
  by_cases isBreak : c = '\n'
  · subst isBreak
    have notOpener : isOpener '\n' = false := rfl
    have notCloser : isCloser '\n' = false := rfl
    rw [notOpener, notCloser]
    split <;> rfl
  · simp only [isBreak, decide_false, Bool.false_and, Bool.false_eq_true, if_false, List.nil_append]
    split_ifs <;> rfl

theorem itemsFrom_cons (depth : Int) (start offset : Nat) (c : Char) (rest : Text) :
    itemsFrom depth start offset (c :: rest) =
      if c = ',' && depth == 0 then
        (start, offset) :: itemsFrom (depthBehind depth c) (offset + 1) (offset + 1) rest
      else itemsFrom (depthBehind depth c) start (offset + 1) rest := by
  rw [itemsFrom, depthBehind]
  by_cases isComma : c = ','
  · subst isComma
    have notOpener : isOpener ',' = false := rfl
    have notCloser : isCloser ',' = false := rfl
    rw [notOpener, notCloser]
    rfl
  · simp only [isComma, decide_false, Bool.false_and, Bool.false_eq_true, if_false]
    split_ifs <;> rfl

theorem nestedBefore_append (nested : Nested passed) (base : Nat) (rest : Text) :
    NestedBefore (passed ++ rest) base (base + passed.length) :=
  ⟨passed, rest, rfl, nested, rfl⟩

theorem add_length_concat (base : Nat) (passed : Text) (c : Char) :
    base + passed.length + 1 = base + (passed ++ [c]).length := by
  rw [List.length_append, List.length_singleton, Nat.add_assoc]

/-- What stands in front of a line of a class body is nested. -/
theorem nestedBefore_of_mem_memberLineStarts {base place : Nat} (opens : openAfter [] passed = some opened)
    (isDepth : depth = opened.length) (closes : openAfter opened rest = some [])
    (member : place ∈ memberLineStarts depth (base + passed.length) rest) :
    NestedBefore (passed ++ rest) base place := by
  induction rest generalizing opened passed depth with
  | nil => contradiction
  | cons c rest inductionHypothesis =>
      obtain ⟨next, opensNext, isNext, closesNext⟩ := exists_openAfter_concat opens isDepth closes
      rw [memberLineStarts_cons, add_length_concat] at member
      rw [List.append_cons]
      rcases List.mem_append.mp member with isHere | isLater
      · split at isHere
        next ends =>
          obtain ⟨isBreak, outside⟩ := Bool.and_eq_true_iff.mp ends
          have isPlain : depthBehind depth c = depth := by
            rw [show c = '\n' by simpa using isBreak]
            rfl
          rw [List.mem_singleton.mp isHere]
          exact nestedBefore_append (nested_of_outside opensNext isNext (by rwa [isPlain])) base rest
        next => contradiction
      · exact inductionHypothesis opensNext isNext closesNext isLater

end Lists

end SceneBundler.Dialect
