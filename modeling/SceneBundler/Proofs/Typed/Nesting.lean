import SceneBundler.Proofs.Dialect.Stretch
import SceneBundler.Proofs.Source.Bracket
import SceneBundler.Proofs.Typed.Program

/-!
Contract: texts whose brackets nest, and the scanners that go over them.

Owns:
- texts of marks and of brackets around such texts, where every closing parenthesis is followed by an
  arrow;
- that the scanners for the end of a statement, of a type and of a return type, and the one for the
  items of a list, go over such a text;
- which brackets pair in it.

Does not own: which types are written as such texts.
-/

namespace SceneBundler.Typed

open Dialect
open Source (BracketKind BracketPairs isOpener isCloser)
open Source.BracketPairs (Pairs)

/-- Texts in which brackets nest: `outer` says which marks stand outside of them, `inner` which within.
Parentheses hold the parameter of a function type. -/
inductive Nested (inner : Char -> Bool) : (outer : Char -> Bool) -> Text -> Prop where
  | nil {outer : Char -> Bool} : Nested inner outer []
  | mark {outer : Char -> Bool} {c : Char} {rest : Text} :
      outer c = true -> Nested inner outer rest -> Nested inner outer (c :: rest)
  | square {outer : Char -> Bool} {inside rest : Text} :
      Nested inner inner inside -> Nested inner outer rest ->
        Nested inner outer ('[' :: (inside ++ ']' :: rest))
  | curly {outer : Char -> Bool} {inside rest : Text} :
      Nested inner inner inside -> Nested inner outer rest ->
        Nested inner outer ('\x7b' :: (inside ++ '\x7d' :: rest))
  | function {outer : Char -> Bool} {inside rest : Text} :
      Nested inner inner inside -> Nested inner outer rest ->
        Nested inner outer ('(' :: (inside ++ ')' :: ' ' :: '=' :: '>' :: ' ' :: rest))

namespace Nested

variable {inner outer : Char -> Bool} {text : Text}

theorem marks {word : Text} (areMarks : ∀ c ∈ word, outer c = true) : Nested inner outer word := by
  induction word with
  | nil => exact nil
  | cons c rest inductionHypothesis =>
      exact mark (areMarks c List.mem_cons_self)
        (inductionHypothesis fun d member => areMarks d (List.mem_cons_of_mem c member))

theorem append {second : Text} (nestedFirst : Nested inner outer text)
    (nestedSecond : Nested inner outer second) : Nested inner outer (text ++ second) := by
  induction nestedFirst with
  | nil => exact nestedSecond
  | mark isMark _ inductionHypothesis => exact mark isMark (inductionHypothesis nestedSecond)
  | square inside _ _ inductionHypothesis =>
      rw [List.cons_append, List.append_assoc]
      exact square inside (inductionHypothesis nestedSecond)
  | curly inside _ _ inductionHypothesis =>
      rw [List.cons_append, List.append_assoc]
      exact curly inside (inductionHypothesis nestedSecond)
  | function inside _ _ inductionHypothesis =>
      rw [List.cons_append, List.append_assoc]
      exact function inside (inductionHypothesis nestedSecond)

theorem mono {wider : Char -> Bool} (nested : Nested inner outer text)
    (widens : ∀ c, outer c = true → wider c = true) : Nested inner wider text := by
  induction nested with
  | nil => exact nil
  | mark isMark _ inductionHypothesis => exact mark (widens _ isMark) (inductionHypothesis widens)
  | square inside _ _ inductionHypothesis => exact square inside (inductionHypothesis widens)
  | curly inside _ _ inductionHypothesis => exact curly inside (inductionHypothesis widens)
  | function inside _ _ inductionHypothesis => exact function inside (inductionHypothesis widens)

end Nested

/-! ## Scanners -/

/-- A way of going over texts from one depth of brackets to another, a stretch at a time. -/
structure Scans (goes : Nat -> Nat -> Text -> Prop) : Prop where
  stays : ∀ depth, goes depth depth []
  onward : ∀ {depth middle reached first second}, goes depth middle first ->
    goes middle reached second -> goes depth reached (first ++ second)
  opens : ∀ {c} depth, isOpener c = true -> goes depth (depth + 1) [c]
  closes : ∀ {c} depth, isCloser c = true -> goes (depth + 1) depth [c]
  arrow : ∀ depth, goes depth depth [' ', '=', '>', ' ']

/-- A scanner goes over a text whose brackets nest if it goes over its marks. -/
theorem Nested.goes {inner outer : Char -> Bool} {text : Text} {goes : Nat -> Nat -> Text -> Prop}
    (nested : Nested inner outer text) (scans : Scans goes)
    (innerMarks : ∀ depth c, inner c = true → goes (depth + 1) (depth + 1) [c]) {depth : Nat}
    (outerMarks : ∀ c, outer c = true → goes depth depth [c]) : goes depth depth text := by
  induction nested generalizing depth with
  | nil => exact scans.stays depth
  | mark isMark _ restHypothesis => exact scans.onward (outerMarks _ isMark) (restHypothesis outerMarks)
  | square _ _ insideHypothesis restHypothesis | curly _ _ insideHypothesis restHypothesis =>
      exact scans.onward (scans.opens depth rfl)
        (scans.onward (insideHypothesis (innerMarks depth))
          (scans.onward (scans.closes depth rfl) (restHypothesis outerMarks)))
  | function _ _ insideHypothesis restHypothesis =>
      exact scans.onward (scans.opens depth rfl)
        (scans.onward (insideHypothesis (innerMarks depth))
          (scans.onward (scans.closes depth rfl)
            (scans.onward (scans.arrow depth) (restHypothesis outerMarks))))

/-! ### Statements -/

def GoesOverStatement (depth reached : Nat) (text : Text) : Prop :=
  ∀ following last passed, ∃ lastRead,
    statementLength depth last passed (text ++ following) =
      statementLength reached lastRead (passed + text.length) following

theorem goesOverStatement_mark {c : Char} {depth : Nat} (notOpener : isOpener c = false)
    (notCloser : isCloser c = false) (goesOn : depth = 0 → c ≠ ';' ∧ c ≠ '\n') :
    GoesOverStatement depth depth [c] := by
  intro following last passed
  exact ⟨_, statementLength_passes (.goesOn notOpener notCloser (fun outside => (goesOn outside).1)
    fun outside isBreak => absurd isBreak (goesOn outside).2) passed⟩

theorem goesOverStatement_append {depth middle reached : Nat} {first second : Text}
    (goesFirst : GoesOverStatement depth middle first)
    (goesSecond : GoesOverStatement middle reached second) :
    GoesOverStatement depth reached (first ++ second) := by
  intro following last passed
  obtain ⟨between, firstRead⟩ := goesFirst (second ++ following) last passed
  obtain ⟨lastRead, secondRead⟩ := goesSecond following between (passed + first.length)
  refine ⟨lastRead, ?_⟩
  rw [List.append_assoc, firstRead, secondRead, List.length_append, Nat.add_assoc]

theorem scans_statement : Scans GoesOverStatement where
  stays _ _ last _ := ⟨last, rfl⟩
  onward := goesOverStatement_append
  opens _ opens _ _ passed := ⟨_, statementLength_passes (.opens opens) passed⟩
  closes _ closes _ _ passed := ⟨_, statementLength_passes (.closes closes) passed⟩
  arrow depth := by
    have mark {c : Char} (level : isOpener c = false ∧ isCloser c = false ∧ c ≠ ';' ∧ c ≠ '\n') :=
      @goesOverStatement_mark c depth level.1 level.2.1 fun _ => level.2.2
    exact goesOverStatement_append (mark (c := ' ') (by decide))
      (goesOverStatement_append (mark (c := '=') (by decide))
        (goesOverStatement_append (mark (c := '>') (by decide)) (mark (c := ' ') (by decide))))

/-! ### Types -/

theorem opensType_of_isCloser {c : Char} (closes : isCloser c = true) : opensType c = false := by
  simp only [isCloser, Bool.or_eq_true, beq_iff_eq] at closes
  rcases closes with (rfl | rfl) | rfl <;> decide

/-- The characters that a type annotation may end at. -/
def isTypeStop (c : Char) : Bool :=
  c == '=' || c == ';' || c == ',' || c == '\n'

theorem isTypeStop_of_bracket {c : Char} (bracket : isOpener c = true ∨ isCloser c = true) :
    isTypeStop c = false := by
  simp only [isOpener, isCloser, Bool.or_eq_true, beq_iff_eq] at bracket
  rcases bracket with ((rfl | rfl) | rfl) | ((rfl | rfl) | rfl) <;> decide

def GoesOverType (stops : Text) (depth reached : Nat) (text : Text) : Prop :=
  ∀ following room previous passed, text.length ≤ room →
    typeLength stops room depth previous passed (text ++ following) =
      typeLength stops (room - text.length) reached (text.getLast?.or previous)
        (passed + text.length) following

section Types

variable {stops : Text}

theorem goesOverType_append {depth middle reached : Nat} {first second : Text}
    (goesFirst : GoesOverType stops depth middle first)
    (goesSecond : GoesOverType stops middle reached second) :
    GoesOverType stops depth reached (first ++ second) := by
  intro following room previous passed enough
  rw [List.length_append] at enough ⊢
  rw [List.append_assoc, goesFirst _ _ _ _ (by omega), goesSecond _ _ _ _ (by omega),
    List.getLast?_append, Option.or_assoc, Nat.sub_sub, Nat.add_assoc]

/-- The step of the scanner for types over a character that it does not stop at. -/
theorem typeLength_onward {depth next : Nat} {previous : Option Char} {c : Char}
    (passes : TypePasses previous c depth next) (stopsNot : depth = 0 → stops.contains c = false)
    (room passed : Nat) (rest : Text) :
    typeLength stops (room + 1) depth previous passed (c :: rest) =
      typeLength stops room next (some c) (passed + 1) rest := by
  refine typeLength_passes passes (fun outside stopsAt => ?_) room passed
  rw [stopsNot outside] at stopsAt
  contradiction

theorem goesOverType_mark {c : Char} {depth : Nat} (notOpener : opensType c = false)
    (notCloser : isCloser c = false) (notAngle : c ≠ '>')
    (goesOn : depth = 0 → stops.contains c = false) : GoesOverType stops depth depth [c] := by
  intro following room previous passed enough
  obtain ⟨room, rfl⟩ : ∃ less, room = less + 1 := ⟨room - 1, by simp at enough; omega⟩
  have closesNot : closesType previous c = false := by simp [closesType, notCloser, notAngle]
  exact typeLength_onward (.goesOn notOpener closesNot) goesOn room passed following

theorem stops_eq_false (stopsOnly : ∀ c, stops.contains c = true → isTypeStop c = true) {c : Char}
    (other : isTypeStop c = false) : stops.contains c = false := by
  rw [← Bool.not_eq_true]
  intro stopsAt
  rw [stopsOnly c stopsAt] at other
  contradiction

/-- The arrow of a function type is neither an end nor a closing angle bracket. -/
theorem goesOverType_arrow (stopsOnly : ∀ c, stops.contains c = true → isTypeStop c = true)
    (depth : Nat) : GoesOverType stops depth depth [' ', '=', '>', ' '] := by
  have stopsNot {c : Char} (other : isTypeStop c = false) := stops_eq_false stopsOnly other
  have blank : GoesOverType stops depth depth [' '] :=
    goesOverType_mark rfl rfl (by decide) fun _ => stopsNot rfl
  have arrow : GoesOverType stops depth depth ['=', '>'] := by
    intro following room previous passed enough
    obtain ⟨room, rfl⟩ : ∃ less, room = less + 2 := ⟨room - 2, by simp at enough; omega⟩
    have compound : isCompoundEquals previous '=' (some '>') = true := by simp [isCompoundEquals]
    have equals : TypePasses previous '=' depth depth := .goesOn rfl rfl
    have angle : TypePasses (some '=') '>' depth depth := .goesOn rfl rfl
    exact (@typeLength_passes _ _ _ _ ('>' :: following) stops equals (fun _ _ => compound) (room + 1) passed).trans
      (typeLength_onward angle (fun _ => stopsNot rfl) room (passed + 1) following)
  exact goesOverType_append blank (goesOverType_append arrow blank)

theorem scans_type (stopsOnly : ∀ c, stops.contains c = true → isTypeStop c = true) :
    Scans (GoesOverType stops) where
  stays _ _ _ _ _ _ := rfl
  onward := goesOverType_append
  opens {c} depth opens following room previous passed enough := by
    obtain ⟨room, rfl⟩ : ∃ less, room = less + 1 := ⟨room - 1, by simp at enough; omega⟩
    have stopsNot := stops_eq_false stopsOnly (isTypeStop_of_bracket (Or.inl opens))
    have opensHere : opensType c = true := by simp [opensType, opens]
    exact typeLength_onward (.opens opensHere) (fun _ => stopsNot) room passed following
  closes {c} depth closes following room previous passed enough := by
    obtain ⟨room, rfl⟩ : ∃ less, room = less + 1 := ⟨room - 1, by simp at enough; omega⟩
    have stopsNot := stops_eq_false stopsOnly (isTypeStop_of_bracket (Or.inr closes))
    have closesHere : closesType previous c = true := by simp [closesType, closes]
    exact typeLength_onward (.closes (opensType_of_isCloser closes) closesHere) (fun _ => stopsNot) room passed
      following
  arrow := goesOverType_arrow stopsOnly

end Types

/-! ### Return types within brackets -/

/-- Going over a text inside the brackets of a return type, of which something was read. -/
def GoesOverResult (depth reached : Nat) (text : Text) : Prop :=
  ∀ following room previous passed, text.length ≤ room →
    returnTypeLength? room (depth + 1) true previous passed (text ++ following) =
      returnTypeLength? (room - text.length) (reached + 1) true (text.getLast?.or previous)
        (passed + text.length) following

theorem goesOverResult_append {depth middle reached : Nat} {first second : Text}
    (goesFirst : GoesOverResult depth middle first)
    (goesSecond : GoesOverResult middle reached second) :
    GoesOverResult depth reached (first ++ second) := by
  intro following room previous passed enough
  rw [List.length_append] at enough ⊢
  rw [List.append_assoc, goesFirst _ _ _ _ (by omega), goesSecond _ _ _ _ (by omega),
    List.getLast?_append, Option.or_assoc, Nat.sub_sub, Nat.add_assoc]

/-- The step of the scanner for return types inside brackets. -/
theorem returnTypeLength?_inside {depth next : Nat} {previous : Option Char} {c : Char}
    (passes : TypePasses previous c (depth + 1) next) (room passed : Nat) (rest : Text) :
    returnTypeLength? (room + 1) (depth + 1) true previous passed (c :: rest) =
      returnTypeLength? room next true (some c) (passed + 1) rest :=
  returnTypeLength?_passes passes (fun outside => absurd outside (Nat.succ_ne_zero depth)) room passed

theorem goesOverResult_mark {c : Char} (depth : Nat) (notOpener : opensType c = false)
    (notCloser : isCloser c = false) (notAngle : c ≠ '>') : GoesOverResult depth depth [c] := by
  intro following room previous passed enough
  obtain ⟨room, rfl⟩ : ∃ less, room = less + 1 := ⟨room - 1, by simp at enough; omega⟩
  have closesNot : closesType previous c = false := by simp [closesType, notCloser, notAngle]
  exact returnTypeLength?_inside (.goesOn notOpener closesNot) room passed following

theorem scans_result : Scans GoesOverResult where
  stays _ _ _ _ _ _ := rfl
  onward := goesOverResult_append
  opens {c} depth opens following room previous passed enough := by
    obtain ⟨room, rfl⟩ : ∃ less, room = less + 1 := ⟨room - 1, by simp at enough; omega⟩
    have opensHere : opensType c = true := by simp [opensType, opens]
    exact returnTypeLength?_inside (.opens opensHere) room passed following
  closes {c} depth closes following room previous passed enough := by
    obtain ⟨room, rfl⟩ : ∃ less, room = less + 1 := ⟨room - 1, by simp at enough; omega⟩
    have closesHere : closesType previous c = true := by simp [closesType, closes]
    exact returnTypeLength?_inside (.closes (opensType_of_isCloser closes) closesHere) room passed following
  arrow depth := by
    have blank := @goesOverResult_mark ' ' depth rfl rfl (by decide)
    have arrow : GoesOverResult depth depth ['=', '>'] := by
      intro following room previous passed enough
      obtain ⟨room, rfl⟩ : ∃ less, room = less + 2 := ⟨room - 2, by simp at enough; omega⟩
      have equals : TypePasses previous '=' (depth + 1) (depth + 1) := .goesOn rfl rfl
      have angle : TypePasses (some '=') '>' (depth + 1) (depth + 1) := .goesOn rfl rfl
      exact (returnTypeLength?_inside equals (room + 1) passed ('>' :: following)).trans
        (returnTypeLength?_inside angle room (passed + 1) following)
    exact goesOverResult_append blank (goesOverResult_append arrow blank)

/-! ### Items -/

/-- Going over a part of an item, outside all brackets or within. -/
def GoesOverItem (depth reached : Nat) (text : Text) : Prop :=
  ∀ following start offset,
    itemsFrom depth start offset (text ++ following) =
      itemsFrom reached start (offset + text.length) following

theorem goesOverItem_append {depth middle reached : Nat} {first second : Text}
    (goesFirst : GoesOverItem depth middle first)
    (goesSecond : GoesOverItem middle reached second) :
    GoesOverItem depth reached (first ++ second) := by
  intro following start offset
  rw [List.append_assoc, goesFirst, goesSecond, List.length_append, Nat.add_assoc]

theorem goesOverItem_mark {c : Char} {depth : Nat} (notOpener : isOpener c = false)
    (notCloser : isCloser c = false) (goesOn : depth = 0 → c ≠ ',') :
    GoesOverItem depth depth [c] := by
  intro following start offset
  have notComma : ¬((decide (c = ',') && (depth : Int) == 0) = true) := by
    simp only [Bool.and_eq_true, decide_eq_true_eq, beq_iff_eq]
    exact fun ⟨isComma, isOutside⟩ => goesOn (by omega) isComma
  rw [List.singleton_append, itemsFrom]
  simp only [notOpener, notCloser, notComma, Bool.false_eq_true, if_false]
  rfl

theorem scans_item : Scans GoesOverItem where
  stays _ _ _ _ := rfl
  onward := goesOverItem_append
  opens {c} depth opens following start offset := by
    rw [List.singleton_append, itemsFrom, if_pos opens]
    rfl
  closes {c} depth closes following start offset := by
    have shallower : ((depth + 1 : Nat) : Int) - 1 = depth := by omega
    rw [List.singleton_append, itemsFrom, isOpener_of_isCloser closes, if_neg Bool.false_ne_true,
      if_pos closes, shallower]
    rfl
  arrow depth := by
    have mark {c : Char} (level : isOpener c = false ∧ isCloser c = false ∧ c ≠ ',') :=
      @goesOverItem_mark c depth level.1 level.2.1 fun _ => level.2.2
    exact goesOverItem_append (mark (c := ' ') (by decide))
      (goesOverItem_append (mark (c := '=') (by decide))
        (goesOverItem_append (mark (c := '>') (by decide)) (mark (c := ' ') (by decide))))

/-! ## Pairs -/

/-- Whether a pair of parentheses stands in a text at an offset, with a tail behind it. -/
def Stands (text : Text) (offset : Nat) (pair : Nat × Nat) (tail : Text) : Prop :=
  ∃ before inside, text = before ++ '(' :: (inside ++ ')' :: tail) ∧
    pair = (offset + before.length, offset + before.length + 1 + inside.length)

theorem Stands.append_right {text : Text} {offset : Nat} {pair : Nat × Nat} {tail : Text}
    (stands : Stands text offset pair tail) (following : Text) :
    Stands (text ++ following) offset pair (tail ++ following) := by
  obtain ⟨before, inside, split, isPair⟩ := stands
  exact ⟨before, inside, by simp [split], isPair⟩

theorem Stands.append_left {text : Text} {offset : Nat} {pair : Nat × Nat} {tail : Text}
    (earlier : Text) (stands : Stands text (offset + earlier.length) pair tail) :
    Stands (earlier ++ text) offset pair tail := by
  obtain ⟨before, inside, split, isPair⟩ := stands
  refine ⟨earlier ++ before, inside, by simp [split], ?_⟩
  rw [isPair, List.length_append, Nat.add_assoc]

/-- Whether a pair of parentheses stands in a text in front of an arrow. -/
def StandsBeforeArrow (text : Text) (offset : Nat) (pair : Nat × Nat) : Prop :=
  ∃ after, Stands text offset pair (' ' :: '=' :: '>' :: ' ' :: after)

theorem StandsBeforeArrow.append_right {text : Text} {offset : Nat} {pair : Nat × Nat}
    (stands : StandsBeforeArrow text offset pair) (following : Text) :
    StandsBeforeArrow (text ++ following) offset pair :=
  ⟨_, stands.choose_spec.append_right following⟩

theorem StandsBeforeArrow.append_left {text : Text} {offset : Nat} {pair : Nat × Nat}
    (earlier : Text) (stands : StandsBeforeArrow text (offset + earlier.length) pair) :
    StandsBeforeArrow (earlier ++ text) offset pair :=
  ⟨_, stands.choose_spec.append_left earlier⟩

theorem StandsBeforeArrow.within {text whole : Text} {offset start : Nat} {pair : Nat × Nat}
    (stands : StandsBeforeArrow text start pair) (earlier following : Text)
    (begins : start = offset + earlier.length) (split : whole = earlier ++ (text ++ following)) :
    StandsBeforeArrow whole offset pair := by
  subst begins split
  exact (stands.append_right following).append_left earlier

/-- Whether the brackets of a kind pair among themselves in a text, and every pair of parentheses stands
in front of an arrow. -/
def PairsUp (kind : BracketKind) (text : Text) : Prop :=
  ∀ offset, ∃ found, Pairs kind text offset found ∧
    ∀ pair ∈ found, kind = .round → StandsBeforeArrow text offset pair

namespace PairsUp

variable {kind : BracketKind}

theorem append {first second : Text} (pairsFirst : PairsUp kind first)
    (pairsSecond : PairsUp kind second) : PairsUp kind (first ++ second) := by
  intro offset
  obtain ⟨earlier, pairsEarlier, standEarlier⟩ := pairsFirst offset
  obtain ⟨later, pairsLater, standLater⟩ := pairsSecond (offset + first.length)
  refine ⟨later ++ earlier, pairsEarlier.append pairsLater, fun pair member isRound => ?_⟩
  rcases List.mem_append.mp member with isLater | isEarlier
  · exact (standLater pair isLater isRound).append_left first
  · exact (standEarlier pair isEarlier isRound).append_right second

theorem of_unmarked {word : Text} (noOpener : kind.opener ∉ word) (noCloser : kind.closer ∉ word) :
    PairsUp kind word :=
  fun offset => ⟨[], Pairs.of_unmarked noOpener noCloser offset, by simp⟩

/-- Brackets around a text, with a tail that begins with an arrow if they are parentheses. -/
theorem bracketed {inside : Text} (pairsInside : PairsUp kind inside) (other : BracketKind)
    {tail : Text} (pairsTail : PairsUp kind tail)
    (arrow : other = .round → ∃ after, tail = ' ' :: '=' :: '>' :: ' ' :: after) :
    PairsUp kind (other.opener :: (inside ++ other.closer :: tail)) := by
  intro offset
  obtain ⟨within, pairsWithin, standWithin⟩ := pairsInside (offset + 1)
  obtain ⟨found, pairsFound, sources⟩ := pairsWithin.exists_of_bracketed other
  obtain ⟨later, pairsLater, standLater⟩ :=
    pairsTail (offset + (other.opener :: (inside ++ [other.closer])).length)
  have split : other.opener :: (inside ++ other.closer :: tail) =
      other.opener :: (inside ++ [other.closer]) ++ tail := by simp
  rw [split]
  refine ⟨later ++ found, pairsFound.append pairsLater, fun pair member isRound => ?_⟩
  rcases List.mem_append.mp member with isLater | isFound
  · exact (standLater pair isLater isRound).append_left _
  · rcases sources pair isFound with isWithin | ⟨same, isOuter⟩
    · have here := ((standWithin pair isWithin isRound).append_left [other.opener]).append_right
        (other.closer :: tail)
      rw [← split]
      exact here
    · obtain ⟨after, isTail⟩ := arrow (same.trans isRound)
      refine ⟨after, [], inside, ?_, isOuter⟩
      rw [← split, same.trans isRound, isTail]
      rfl

end PairsUp

/-- The brackets of each kind pair among themselves in a text whose brackets nest. -/
theorem Nested.pairsUp {inner outer : Char -> Bool} {text : Text} {kind : BracketKind}
    (nested : Nested inner outer text)
    (innerMarks : ∀ c, inner c = true → c ≠ kind.opener ∧ c ≠ kind.closer)
    (outerMarks : ∀ c, outer c = true → c ≠ kind.opener ∧ c ≠ kind.closer) : PairsUp kind text := by
  induction nested with
  | nil => exact PairsUp.of_unmarked List.not_mem_nil List.not_mem_nil
  | @mark outer c rest isMark _ restHypothesis =>
      obtain ⟨notOpener, notCloser⟩ := outerMarks c isMark
      have here := @PairsUp.of_unmarked kind [c] (by simpa using Ne.symm notOpener)
        (by simpa using Ne.symm notCloser)
      exact here.append (restHypothesis outerMarks)
  | square _ _ insideHypothesis restHypothesis =>
      exact (insideHypothesis innerMarks).bracketed .square (restHypothesis outerMarks) nofun
  | curly _ _ insideHypothesis restHypothesis =>
      exact (insideHypothesis innerMarks).bracketed .curly (restHypothesis outerMarks) nofun
  | @function outer inside rest _ _ insideHypothesis restHypothesis =>
      have arrow : PairsUp kind [' ', '=', '>', ' '] := by
        refine PairsUp.of_unmarked ?_ ?_ <;> cases kind <;> decide
      exact (insideHypothesis innerMarks).bracketed .round (arrow.append (restHypothesis outerMarks))
        fun _ => ⟨rest, rfl⟩

end SceneBundler.Typed
