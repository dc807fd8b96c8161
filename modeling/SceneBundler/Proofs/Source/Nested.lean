import SceneBundler.Proofs.Source.Bracket
import SceneBundler.Proofs.Text.Joint

/-!
Contract: texts whose brackets of all three kinds nest in each other.

Owns:
- the brackets that are open behind a text, given those open in front of it;
- that every bracket of a nested text has its partner, and that a nested text stands between the two;
- that a nested text stays nested when stretches are replaced at whose ends the same brackets are open.

Does not own: which texts are nested.
-/

namespace SceneBundler.Source

/-! ## Open brackets -/

/-- A bracket of any kind. -/
def isBracket (c : Char) : Bool :=
  isOpener c || isCloser c

/-- The kind a character closes. -/
def BracketKind.ofCloser? (c : Char) : Option BracketKind :=
  all.find? (·.closer == c)

/-- The brackets open behind a character, innermost first; nothing where it closes another kind than the
innermost, or none. -/
def openStep (opened : List BracketKind) (c : Char) : Option (List BracketKind) :=
  match BracketKind.ofOpener? c, BracketKind.ofCloser? c, opened with
  | some kind, _, opened => some (kind :: opened)
  | none, some kind, innermost :: outer => if innermost = kind then some outer else none
  | none, some _, [] => none
  | none, none, opened => some opened

/-- The brackets open behind a text, innermost first, given those open in front of it. -/
def openAfter (opened : List BracketKind) : Text -> Option (List BracketKind)
  | [] => some opened
  | c :: rest => (openStep opened c).bind fun next => openAfter next rest

/-- Whether the brackets of a text nest in each other and are all closed. -/
def Nested (text : Text) : Prop :=
  openAfter [] text = some []

instance (text : Text) : Decidable (Nested text) :=
  inferInstanceAs (Decidable (openAfter [] text = some []))

variable {opened after : List BracketKind} {c : Char} {first second text : Text}

/-- A character opens a kind of bracket, closes one, or does neither. -/
theorem isBracket_cases (c : Char) :
    (∃ kind : BracketKind, c = kind.opener) ∨ (∃ kind : BracketKind, c = kind.closer) ∨ isBracket c = false := by
  cases isHere : isBracket c with
  | false => exact Or.inr (Or.inr rfl)
  | true =>
      simp only [isBracket, isOpener, isCloser, Bool.or_eq_true, beq_iff_eq] at isHere
      rcases isHere with ((rfl | rfl) | rfl) | ((rfl | rfl) | rfl)
      · exact Or.inl ⟨.round, rfl⟩
      · exact Or.inl ⟨.square, rfl⟩
      · exact Or.inl ⟨.curly, rfl⟩
      · exact Or.inr (Or.inl ⟨.round, rfl⟩)
      · exact Or.inr (Or.inl ⟨.square, rfl⟩)
      · exact Or.inr (Or.inl ⟨.curly, rfl⟩)

@[simp] theorem isOpener_opener (kind : BracketKind) : isOpener kind.opener = true := by
  cases kind <;> rfl

@[simp] theorem isOpener_closer (kind : BracketKind) : isOpener kind.closer = false := by
  cases kind <;> rfl

@[simp] theorem isCloser_closer (kind : BracketKind) : isCloser kind.closer = true := by
  cases kind <;> rfl

theorem isOpener_of_isBracket (plain : isBracket c = false) : isOpener c = false :=
  (Bool.or_eq_false_iff.mp plain).1

theorem isCloser_of_isBracket (plain : isBracket c = false) : isCloser c = false :=
  (Bool.or_eq_false_iff.mp plain).2

theorem visible_of_isCloser (closes : isCloser c = true) : Character.isBlank c = false := by
  simp only [isCloser, Bool.or_eq_true, beq_iff_eq] at closes
  rcases closes with (rfl | rfl) | rfl <;> decide

theorem openStep_opener (kind : BracketKind) : openStep opened kind.opener = some (kind :: opened) := by
  cases kind <;> rfl

theorem openStep_closer_nil (kind : BracketKind) : openStep [] kind.closer = none := by
  cases kind <;> rfl

theorem openStep_closer (kind innermost : BracketKind) :
    openStep (innermost :: opened) kind.closer = if innermost = kind then some opened else none := by
  cases kind <;> rfl

theorem openStep_plain (plain : isBracket c = false) : openStep opened c = some opened := by
  have noOpener : BracketKind.ofOpener? c = none := by
    rw [BracketKind.ofOpener?, List.find?_eq_none]
    intro kind _ same
    rw [← beq_iff_eq.mp same] at plain
    cases kind <;> contradiction
  have noCloser : BracketKind.ofCloser? c = none := by
    rw [BracketKind.ofCloser?, List.find?_eq_none]
    intro kind _ same
    rw [← beq_iff_eq.mp same] at plain
    cases kind <;> contradiction
  unfold openStep
  rw [noOpener, noCloser]

theorem openAfter_opener (opened : List BracketKind) (kind : BracketKind) (rest : Text) :
    openAfter opened (kind.opener :: rest) = openAfter (kind :: opened) rest := by
  rw [openAfter, openStep_opener, Option.bind_some]

theorem openAfter_closer_iff {kind innermost : BracketKind} {rest : Text} :
    openAfter (innermost :: opened) (kind.closer :: rest) = some after ↔
      innermost = kind ∧ openAfter opened rest = some after := by
  rw [openAfter, openStep_closer]
  by_cases same : innermost = kind <;> simp [same]

theorem openAfter_cons_plain (plain : isBracket c = false) (rest : Text) :
    openAfter opened (c :: rest) = openAfter opened rest := by
  rw [openAfter, openStep_plain plain, Option.bind_some]

theorem openAfter_append (opened : List BracketKind) (first second : Text) :
    openAfter opened (first ++ second) = (openAfter opened first).bind fun next => openAfter next second := by
  induction first generalizing opened with
  | nil => rfl
  | cons c rest inductionHypothesis =>
      rw [List.cons_append, openAfter, openAfter, Option.bind_assoc]
      simp only [inductionHypothesis]

theorem openAfter_plain (plain : ∀ c ∈ text, isBracket c = false) : openAfter opened text = some opened := by
  induction text with
  | nil => rfl
  | cons c rest inductionHypothesis =>
      rw [openAfter_cons_plain (plain c List.mem_cons_self)]
      exact inductionHypothesis fun d member => plain d (List.mem_cons_of_mem c member)

/-- What is open further out makes no difference to a text that closes none of it. -/
theorem openAfter_outer (opens : openAfter opened text = some after) (outer : List BracketKind) :
    openAfter (opened ++ outer) text = some (after ++ outer) := by
  induction text generalizing opened with
  | nil => rw [← Option.some.inj opens, openAfter]
  | cons c rest inductionHypothesis =>
      rw [openAfter] at opens ⊢
      obtain ⟨next, here, later⟩ := Option.bind_eq_some_iff.mp opens
      have step : openStep (opened ++ outer) c = some (next ++ outer) := by
        rcases isBracket_cases c with ⟨kind, rfl⟩ | ⟨kind, rfl⟩ | plain
        · rw [openStep_opener] at here ⊢
          rw [← Option.some.inj here, List.cons_append]
        · cases opened with
          | nil =>
              rw [openStep_closer_nil] at here
              contradiction
          | cons innermost others =>
              rw [openStep_closer] at here
              rw [List.cons_append, openStep_closer]
              by_cases same : innermost = kind
              · rw [if_pos same] at here ⊢
                rw [← Option.some.inj here]
              · rw [if_neg same] at here
                contradiction
        · rw [openStep_plain plain] at here ⊢
          rw [← Option.some.inj here]
      rw [step, Option.bind_some]
      exact inductionHypothesis later

/-! ## Nested texts -/

namespace Nested

theorem nil : Nested [] :=
  rfl

theorem of_plain (plain : ∀ c ∈ text, isBracket c = false) : Nested text :=
  openAfter_plain plain

/-- A nested text leaves open what was open in front of it. -/
theorem openAfter_eq (nested : Nested text) (opened : List BracketKind) :
    openAfter opened text = some opened :=
  openAfter_outer nested opened

theorem append (nestedFirst : Nested first) (nestedSecond : Nested second) : Nested (first ++ second) := by
  rw [Nested, openAfter_append, nestedFirst.openAfter_eq, Option.bind_some]
  exact nestedSecond

theorem of_append_left (nested : Nested (first ++ second)) (nestedFirst : Nested first) : Nested second := by
  rwa [Nested, openAfter_append, nestedFirst.openAfter_eq, Option.bind_some] at nested

theorem of_append_right (nested : Nested (first ++ second)) (nestedSecond : Nested second) : Nested first := by
  rw [Nested, openAfter_append] at nested
  obtain ⟨next, opens, closes⟩ := Option.bind_eq_some_iff.mp nested
  rw [nestedSecond.openAfter_eq] at closes
  rw [Nested, opens, Option.some.inj closes]

theorem bracketed (kind : BracketKind) (nested : Nested text) :
    Nested (kind.opener :: (text ++ [kind.closer])) := by
  rw [Nested, openAfter_opener, openAfter_append, nested.openAfter_eq, Option.bind_some]
  exact openAfter_closer_iff.mpr ⟨rfl, rfl⟩

end Nested

/-- What closes the innermost open bracket stands behind a nested text. -/
theorem exists_closer {kind : BracketKind} (closes : openAfter (kind :: opened) text = some after)
    (fewer : after.length ≤ opened.length) :
    ∃ inside rest, text = inside ++ kind.closer :: rest ∧ Nested inside ∧ openAfter opened rest = some after := by
  -- The text within a bracket that opens here is shorter, and so is what follows its closer.
  induction bound : text.length using Nat.strongRecOn generalizing kind opened text with
  | ind length inductionHypothesis =>
      subst bound
      cases text with
      | nil =>
          rw [← Option.some.inj closes, List.length_cons] at fewer
          omega
      | cons c rest =>
          rcases isBracket_cases c with ⟨inner, rfl⟩ | ⟨closed, rfl⟩ | plain
          · rw [openAfter_opener] at closes
            obtain ⟨inside, behind, rfl, nested, goesOn⟩ := inductionHypothesis rest.length
              (by rw [List.length_cons]; omega) closes (Nat.le_succ_of_le fewer) rfl
            obtain ⟨others, last, rfl, nestedOthers, closesLast⟩ := inductionHypothesis behind.length
              (by simp only [List.length_cons, List.length_append]; omega) goesOn fewer rfl
            refine ⟨inner.opener :: (inside ++ [inner.closer]) ++ others, last, by simp, ?_, closesLast⟩
            exact (nested.bracketed inner).append nestedOthers
          · obtain ⟨rfl, goesOn⟩ := openAfter_closer_iff.mp closes
            exact ⟨[], rest, rfl, .nil, goesOn⟩
          · rw [openAfter_cons_plain plain] at closes
            obtain ⟨inside, behind, rfl, nested, goesOn⟩ := inductionHypothesis rest.length
              (by rw [List.length_cons]; omega) closes fewer rfl
            have nestedHere : Nested (c :: inside) := by rwa [Nested, openAfter_cons_plain plain]
            exact ⟨c :: inside, behind, rfl, nestedHere, goesOn⟩

/-- A nested text is empty, or begins with a character that is no bracket, or with a nested text in
brackets. -/
theorem Nested.cases (nested : Nested text) :
    text = [] ∨ (∃ c rest, text = c :: rest ∧ isBracket c = false ∧ Nested rest) ∨
      ∃ (kind : BracketKind) (inside rest : Text), text = kind.opener :: (inside ++ kind.closer :: rest) ∧
        Nested inside ∧ Nested rest := by
  cases text with
  | nil => exact Or.inl rfl
  | cons c rest =>
      right
      rw [Nested] at nested
      rcases isBracket_cases c with ⟨kind, rfl⟩ | ⟨kind, rfl⟩ | plain
      · rw [openAfter_opener] at nested
        obtain ⟨inside, behind, rfl, nestedInside, closes⟩ := exists_closer nested (Nat.le_refl 0)
        exact Or.inr ⟨kind, inside, behind, rfl, nestedInside, closes⟩
      · rw [openAfter, openStep_closer_nil] at nested
        contradiction
      · rw [openAfter_cons_plain plain] at nested
        exact Or.inl ⟨c, rest, rfl, plain, nested⟩

/-! ## Partners -/

namespace BracketPairs

/-- Whether the pairs of a kind in a text at an offset are those of all its brackets of that kind, each
around a nested text. -/
structure PairsAll (kind : BracketKind) (text : Text) (offset : Nat) (found : BracketPairs) : Prop where
  pairs : Pairs kind text offset found
  around : ∀ pair ∈ found, ∃ before inside behind,
    text = before ++ kind.opener :: (inside ++ kind.closer :: behind) ∧ Nested inside ∧
      pair = (offset + before.length, offset + before.length + 1 + inside.length)
  openers : ∀ place, text[place]? = some kind.opener → ∃ pair ∈ found, pair.1 = offset + place
  closers : ∀ place, text[place]? = some kind.closer → ∃ pair ∈ found, pair.2 = offset + place

namespace PairsAll

variable {kind : BracketKind} {offset : Nat} {inner : BracketPairs}

theorem of_unmarked (noOpener : kind.opener ∉ text) (noCloser : kind.closer ∉ text) (offset : Nat) :
    PairsAll kind text offset [] where
  pairs := .of_unmarked noOpener noCloser offset
  around := nofun
  openers := fun _ isThere => absurd (List.mem_of_getElem? isThere) noOpener
  closers := fun _ isThere => absurd (List.mem_of_getElem? isThere) noCloser

theorem of_other {other : BracketKind} (different : other ≠ kind) (offset : Nat) :
    PairsAll kind [other.opener] offset [] ∧ PairsAll kind [other.closer] offset [] := by
  constructor
  · refine of_unmarked ?_ ?_ offset <;> cases kind <;> cases other <;> simp_all <;> decide
  · refine of_unmarked ?_ ?_ offset <;> cases kind <;> cases other <;> simp_all <;> decide

theorem append {others : BracketPairs} (ofFirst : PairsAll kind first offset inner)
    (ofSecond : PairsAll kind second (offset + first.length) others) :
    PairsAll kind (first ++ second) offset (others ++ inner) where
  pairs := ofFirst.pairs.append ofSecond.pairs
  around := by
    intro pair member
    rcases List.mem_append.mp member with isLater | isEarlier
    · obtain ⟨before, inside, behind, rfl, nested, rfl⟩ := ofSecond.around pair isLater
      exact ⟨first ++ before, inside, behind, by simp, nested, by simp [Nat.add_assoc]⟩
    · obtain ⟨before, inside, behind, rfl, nested, rfl⟩ := ofFirst.around pair isEarlier
      exact ⟨before, inside, behind ++ second, by simp, nested, rfl⟩
  openers := by
    intro place isThere
    by_cases isFirst : place < first.length
    · rw [List.getElem?_append_left isFirst] at isThere
      obtain ⟨pair, member, same⟩ := ofFirst.openers place isThere
      exact ⟨pair, List.mem_append_right _ member, same⟩
    · rw [List.getElem?_append_right (by omega)] at isThere
      obtain ⟨pair, member, same⟩ := ofSecond.openers _ isThere
      exact ⟨pair, List.mem_append_left _ member, by omega⟩
  closers := by
    intro place isThere
    by_cases isFirst : place < first.length
    · rw [List.getElem?_append_left isFirst] at isThere
      obtain ⟨pair, member, same⟩ := ofFirst.closers place isThere
      exact ⟨pair, List.mem_append_right _ member, same⟩
    · rw [List.getElem?_append_right (by omega)] at isThere
      obtain ⟨pair, member, same⟩ := ofSecond.closers _ isThere
      exact ⟨pair, List.mem_append_left _ member, by omega⟩

/-- Brackets of the kind around a nested text are a pair themselves. -/
theorem enclosed (nested : Nested text) (ofInside : PairsAll kind text (offset + 1) inner) :
    PairsAll kind (kind.opener :: (text ++ [kind.closer])) offset
      ((offset, offset + 1 + text.length) :: inner) where
  pairs := ofInside.pairs.enclosed
  around := by
    intro pair member
    rcases List.mem_cons.mp member with rfl | isInner
    · exact ⟨[], text, [], rfl, nested, rfl⟩
    · obtain ⟨before, inside, behind, rfl, nestedInside, rfl⟩ := ofInside.around pair isInner
      refine ⟨kind.opener :: before, inside, behind ++ [kind.closer], by simp, nestedInside, ?_⟩
      rw [List.length_cons, Nat.add_right_comm offset 1, Nat.add_assoc offset]
  openers := by
    intro place isThere
    cases place with
    | zero => exact ⟨_, List.mem_cons_self, rfl⟩
    | succ place =>
        rw [List.getElem?_cons_succ] at isThere
        by_cases isInside : place < text.length
        · rw [List.getElem?_append_left isInside] at isThere
          obtain ⟨pair, member, same⟩ := ofInside.openers place isThere
          exact ⟨pair, List.mem_cons_of_mem _ member, by omega⟩
        · rw [List.getElem?_append_right (by omega)] at isThere
          have isCloser := List.mem_singleton.mp (List.mem_of_getElem? isThere)
          exact absurd isCloser Pairs.opener_ne_closer
  closers := by
    intro place isThere
    cases place with
    | zero => exact absurd (Option.some.inj isThere) Pairs.opener_ne_closer
    | succ place =>
        rw [List.getElem?_cons_succ] at isThere
        by_cases isInside : place < text.length
        · rw [List.getElem?_append_left isInside] at isThere
          obtain ⟨pair, member, same⟩ := ofInside.closers place isThere
          exact ⟨pair, List.mem_cons_of_mem _ member, by omega⟩
        · have isLast := (List.getElem?_eq_some_iff.mp isThere).1
          rw [List.length_append, List.length_singleton] at isLast
          have reached : offset + 1 + text.length = offset + (place + 1) := by omega
          exact ⟨_, List.mem_cons_self, reached⟩

end PairsAll

/-- Every bracket of a nested text has its partner, around a nested text. -/
theorem exists_pairsAll (kind : BracketKind) (nested : Nested text) (offset : Nat) :
    ∃ found, PairsAll kind text offset found := by
  induction bound : text.length using Nat.strongRecOn generalizing text offset with
  | ind length inductionHypothesis =>
      subst bound
      rcases nested.cases with rfl | ⟨c, rest, rfl, plain, nestedRest⟩ |
        ⟨other, inside, rest, rfl, nestedInside, nestedRest⟩
      · exact ⟨[], .of_unmarked List.not_mem_nil List.not_mem_nil offset⟩
      · obtain ⟨found, ofRest⟩ := inductionHypothesis rest.length (Nat.lt_succ_self _) nestedRest (offset + 1) rfl
        have ofFirst : PairsAll kind [c] offset [] := by
          refine .of_unmarked ?_ ?_ offset
          · rintro isHere
            rw [← List.mem_singleton.mp isHere] at plain
            cases kind <;> contradiction
          · rintro isHere
            rw [← List.mem_singleton.mp isHere] at plain
            cases kind <;> contradiction
        exact ⟨_, ofFirst.append ofRest⟩
      · have shorter : inside.length < (other.opener :: (inside ++ other.closer :: rest)).length ∧
            rest.length < (other.opener :: (inside ++ other.closer :: rest)).length := by
          simp only [List.length_cons, List.length_append]
          omega
        have split : other.opener :: (inside ++ other.closer :: rest) =
            other.opener :: (inside ++ [other.closer]) ++ rest := by simp
        obtain ⟨inner, ofInside⟩ := inductionHypothesis _ shorter.1 nestedInside (offset + 1) rfl
        obtain ⟨others, ofRest⟩ := inductionHypothesis _ shorter.2 nestedRest
          (offset + (other.opener :: (inside ++ [other.closer])).length) rfl
        rw [split]
        by_cases same : other = kind
        · subst same
          exact ⟨_, (ofInside.enclosed nestedInside).append ofRest⟩
        · have opener := (PairsAll.of_other same offset).1
          have closer := (PairsAll.of_other same (offset + 1 + inside.length)).2
          exact ⟨_, (opener.append (ofInside.append closer)).append ofRest⟩

/-- Whether every bracket of a text has a partner among those of its kind. -/
def AllPaired (text : Text) : Prop :=
  ∀ (kind : BracketKind) (place : Nat),
    (text[place]? = some kind.opener → ∃ closed, (place, closed) ∈ ofKind kind [] 0 text []) ∧
      (text[place]? = some kind.closer → ∃ opened, (opened, place) ∈ ofKind kind [] 0 text [])

theorem allPaired_of_nested (nested : Nested text) : AllPaired text := by
  intro kind place
  obtain ⟨found, pairsAll⟩ := exists_pairsAll kind nested 0
  rw [pairsAll.pairs.eq_ofKind]
  constructor
  · intro isThere
    obtain ⟨⟨opened, closed⟩, member, same⟩ := pairsAll.openers place isThere
    obtain rfl : opened = place := by simpa using same
    exact ⟨closed, member⟩
  · intro isThere
    obtain ⟨⟨opened, closed⟩, member, same⟩ := pairsAll.closers place isThere
    obtain rfl : closed = place := by simpa using same
    exact ⟨opened, member⟩

/-- Between the two brackets of a pair in a nested text stands a nested text. -/
theorem exists_around_of_mem_ofText (nested : Nested text) {pair : Nat × Nat} (member : pair ∈ ofText text) :
    ∃ (kind : BracketKind) (before inside behind : Text),
      text = before ++ kind.opener :: (inside ++ kind.closer :: behind) ∧ Nested inside ∧
        pair = (before.length, before.length + 1 + inside.length) := by
  obtain ⟨kind, _, ofThisKind⟩ := List.mem_flatMap.mp member
  obtain ⟨found, pairsAll⟩ := exists_pairsAll kind nested 0
  rw [pairsAll.pairs.eq_ofKind] at ofThisKind
  obtain ⟨before, inside, behind, split, nestedInside, isPair⟩ := pairsAll.around pair ofThisKind
  exact ⟨kind, before, inside, behind, split, nestedInside, by simpa using isPair⟩

end BracketPairs

/-! ## Level stretches -/

/-- What is open in front of an offset of a nested text is closed behind it. -/
theorem Nested.exists_openAfter_take (nested : Nested text) (offset : Nat) :
    ∃ opened, openAfter [] (text.take offset) = some opened ∧ openAfter opened (text.drop offset) = some [] := by
  rw [Nested, ← List.take_append_drop offset text, openAfter_append] at nested
  exact Option.bind_eq_some_iff.mp nested

/-- Whether the same brackets are open at two offsets of a text. -/
def IsLevel (text : Text) (start stop : Nat) : Prop :=
  openAfter [] (text.take start) = openAfter [] (text.take stop)

instance (text : Text) (start stop : Nat) : Decidable (IsLevel text start stop) :=
  inferInstanceAs (Decidable (_ = _))

/-- The same brackets are open at both ends of a nested stretch. -/
theorem Nested.isLevel {start stop : Nat} (ordered : start ≤ stop)
    (nestedSlice : Nested (Text.slice text start stop)) : IsLevel text start stop := by
  rw [IsLevel, Text.take_eq_append_slice text ordered, openAfter_append]
  cases openAfter [] (text.take start) with
  | none => rfl
  | some opened => rw [Option.bind_some, nestedSlice.openAfter_eq]

/-- A nested text stays nested when nested texts take the place of level stretches. -/
theorem openAfter_splice {edits : List Edit} {cursor : Nat} (nested : Nested text)
    (opens : openAfter [] (text.take cursor) = some opened) (follow : Edit.Follow cursor edits)
    (areLevel : ∀ edit ∈ edits, IsLevel text edit.start edit.stop ∧ Nested edit.replacement) :
    openAfter opened (Edit.splice text cursor edits) = some [] := by
  induction edits generalizing cursor opened with
  | nil =>
      obtain ⟨same, isSame, closes⟩ := nested.exists_openAfter_take cursor
      obtain rfl := Option.some.inj (opens.symm.trans isSame)
      exact closes
  | cons edit rest inductionHypothesis =>
      obtain ⟨inOrder, followRest⟩ := follow
      obtain ⟨isLevel, nestedReplacement⟩ := areLevel edit List.mem_cons_self
      obtain ⟨next, opensStart, _⟩ := nested.exists_openAfter_take edit.start
      have toStart : openAfter opened (Text.slice text cursor edit.start) = some next := by
        rwa [Text.take_eq_append_slice text inOrder, openAfter_append, opens, Option.bind_some] at opensStart
      rw [Edit.splice, List.append_assoc, openAfter_append, toStart, Option.bind_some, openAfter_append,
        nestedReplacement.openAfter_eq, Option.bind_some]
      exact inductionHypothesis (isLevel.symm.trans opensStart) followRest fun other member =>
        areLevel other (List.mem_cons_of_mem edit member)

end SceneBundler.Source
