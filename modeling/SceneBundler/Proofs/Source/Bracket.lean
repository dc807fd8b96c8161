import SceneBundler.Source.Bracket

/-!
Contract: the pairs of brackets of a text.

Owns:
- that a closer stands behind its opener;
- stretches of text whose brackets of a kind pair among themselves, and which pairs those are;
- that the closer of an opener in front of such a stretch stands behind it.

Does not own: which brackets pair.
-/

namespace SceneBundler.Source.BracketPairs

theorem ofKind_cons (kind : BracketKind) (openers : List Nat) (offset : Nat) (c : Char) (rest : Text)
    (pairs : BracketPairs) :
    ofKind kind openers offset (c :: rest) pairs =
      if c = kind.opener then ofKind kind (offset :: openers) (offset + 1) rest pairs
      else if c = kind.closer then
        match openers with
        | [] => ofKind kind [] (offset + 1) rest pairs
        | opened :: outer => ofKind kind outer (offset + 1) rest ((opened, offset) :: pairs)
      else ofKind kind openers (offset + 1) rest pairs := by
  cases openers <;> rfl

theorem opener_lt_of_mem_ofKind {kind : BracketKind} {openers : List Nat} {offset : Nat} {text : Text}
    {pairs : BracketPairs} (before : ∀ opened ∈ openers, opened < offset)
    (ordered : ∀ pair ∈ pairs, pair.1 < pair.2) :
    ∀ pair ∈ ofKind kind openers offset text pairs, pair.1 < pair.2 := by
  induction text generalizing openers offset pairs with
  | nil => exact ordered
  | cons c rest inductionHypothesis =>
      have beforeNext : ∀ opened ∈ openers, opened < offset + 1 := by
        intro opened member
        exact Nat.lt_succ_of_lt (before opened member)
      rw [ofKind_cons]
      split
      · refine inductionHypothesis ?_ ordered
        intro opened member
        rcases List.mem_cons.mp member with isThis | isOuter
        · omega
        · exact beforeNext opened isOuter
      · split
        · cases openers with
          | nil => exact inductionHypothesis beforeNext ordered
          | cons opened outer =>
              refine inductionHypothesis ?_ ?_
              · intro other member
                exact beforeNext other (List.mem_cons_of_mem opened member)
              · intro pair member
                rcases List.mem_cons.mp member with isThis | isEarlier
                · rw [isThis]
                  exact before opened List.mem_cons_self
                · exact ordered pair isEarlier
        · exact inductionHypothesis beforeNext ordered

theorem mem_of_closerOf? {pairs : BracketPairs} {opened closed : Nat}
    (paired : pairs.closerOf? opened = some closed) : (opened, closed) ∈ pairs := by
  obtain ⟨before, after, split, _⟩ := List.lookup_eq_some_iff.mp paired
  rw [split]
  exact List.mem_append_right _ List.mem_cons_self

/-- A closer stands behind its opener. -/
theorem opener_lt_of_closerOf? {text : Text} {opened closed : Nat}
    (paired : (ofText text).closerOf? opened = some closed) : opened < closed := by
  obtain ⟨kind, _, ofThisKind⟩ := List.mem_flatMap.mp (mem_of_closerOf? paired)
  exact opener_lt_of_mem_ofKind (by simp) (by simp) _ ofThisKind

/-! ## Stretches that pair -/

/-- Whether the brackets of a kind pair among themselves in a text at an offset, and as what pairs. -/
def Pairs (kind : BracketKind) (text : Text) (offset : Nat) (inner : BracketPairs) : Prop :=
  ∀ openers following pairs, ofKind kind openers offset (text ++ following) pairs =
    ofKind kind openers (offset + text.length) following (inner ++ pairs)

namespace Pairs

variable {kind : BracketKind}

theorem append {first second : Text} {offset : Nat} {firstInner secondInner : BracketPairs}
    (pairsFirst : Pairs kind first offset firstInner)
    (pairsSecond : Pairs kind second (offset + first.length) secondInner) :
    Pairs kind (first ++ second) offset (secondInner ++ firstInner) := by
  intro openers following pairs
  rw [List.append_assoc, pairsFirst, pairsSecond, List.length_append, Nat.add_assoc,
    List.append_assoc]

theorem of_unmarked {text : Text} (noOpener : kind.opener ∉ text) (noCloser : kind.closer ∉ text)
    (offset : Nat) : Pairs kind text offset [] := by
  intro openers following pairs
  induction text generalizing offset with
  | nil => rfl
  | cons c rest inductionHypothesis =>
      obtain ⟨notOpener, noOpenerRest⟩ : kind.opener ≠ c ∧ kind.opener ∉ rest := by
        simpa using noOpener
      obtain ⟨notCloser, noCloserRest⟩ : kind.closer ≠ c ∧ kind.closer ∉ rest := by
        simpa using noCloser
      have reached : offset + 1 + rest.length = offset + (c :: rest).length := by
        rw [List.length_cons]
        omega
      rw [← reached, ← inductionHypothesis noOpenerRest noCloserRest, List.cons_append, ofKind_cons,
        if_neg (Ne.symm notOpener), if_neg (Ne.symm notCloser)]

/-- What pairs in a text is all that is found in it. -/
theorem eq_ofKind {text : Text} {offset : Nat} {found : BracketPairs} (pairs : Pairs kind text offset found) :
    ofKind kind [] offset text [] = found := by
  have here := pairs [] [] []
  rwa [List.append_nil, List.append_nil] at here

theorem opener_ne_closer : kind.opener ≠ kind.closer := by
  cases kind <;> decide

theorem enclosed {inside : Text} {offset : Nat} {inner : BracketPairs}
    (pairs : Pairs kind inside (offset + 1) inner) :
    Pairs kind (kind.opener :: (inside ++ [kind.closer])) offset
      ((offset, offset + 1 + inside.length) :: inner) := by
  intro openers following others
  have opened : ofKind kind openers offset
      (kind.opener :: (inside ++ [kind.closer]) ++ following) others =
      ofKind kind (offset :: openers) (offset + 1) (inside ++ kind.closer :: following) others := by
    rw [List.cons_append, List.append_assoc, List.singleton_append, ofKind_cons, if_pos rfl]
  have reached : offset + 1 + inside.length + 1 =
      offset + (kind.opener :: (inside ++ [kind.closer])).length := by
    simp only [List.length_cons, List.length_append, List.length_nil]
    omega
  rw [opened, pairs, ← reached, ofKind_cons, if_neg (Ne.symm opener_ne_closer), if_pos rfl]
  rfl

/-- The pairs in brackets of any kind are those within, and the brackets themselves if they are of the
kind. -/
theorem exists_of_bracketed (other : BracketKind) {inside : Text} {offset : Nat}
    {inner : BracketPairs} (pairs : Pairs kind inside (offset + 1) inner) :
    ∃ found, Pairs kind (other.opener :: (inside ++ [other.closer])) offset found ∧
      ∀ pair ∈ found, pair ∈ inner ∨ (other = kind ∧ pair = (offset, offset + 1 + inside.length)) := by
  by_cases same : other = kind
  · subst same
    refine ⟨_, pairs.enclosed, fun pair member => ?_⟩
    rcases List.mem_cons.mp member with isOuter | isInner
    · exact Or.inr ⟨rfl, isOuter⟩
    · exact Or.inl isInner
  · have opener : Pairs kind [other.opener] offset [] := by
      refine of_unmarked ?_ ?_ offset <;> cases kind <;> cases other <;> simp_all <;> decide
    have closer : Pairs kind [other.closer] (offset + 1 + inside.length) [] := by
      refine of_unmarked ?_ ?_ _ <;> cases kind <;> cases other <;> simp_all <;> decide
    have whole := opener.append (pairs.append closer)
    refine ⟨_, whole, fun pair member => Or.inl ?_⟩
    simpa using member

end Pairs

/-! ## Closers -/

theorem exists_ofKind_append (kind : BracketKind) (text : Text) {openers : List Nat} {offset : Nat}
    (pairs : BracketPairs) (before : ∀ opened ∈ openers, opened < offset) :
    ∃ others earlier, (∀ opened ∈ others, opened < offset + text.length) ∧
      ∀ following, ofKind kind openers offset (text ++ following) pairs =
        ofKind kind others (offset + text.length) following earlier := by
  induction text generalizing openers offset pairs with
  | nil => exact ⟨openers, pairs, before, fun _ => rfl⟩
  | cons c rest inductionHypothesis =>
      have reached : offset + 1 + rest.length = offset + (c :: rest).length := by
        rw [List.length_cons]
        omega
      have beforeNext : ∀ opened ∈ openers, opened < offset + 1 := fun opened member =>
        Nat.lt_succ_of_lt (before opened member)
      have beforeOpened : ∀ opened ∈ offset :: openers, opened < offset + 1 := by
        intro opened member
        rcases List.mem_cons.mp member with rfl | isOuter
        · exact Nat.lt_succ_self _
        · exact beforeNext opened isOuter
      rw [← reached]
      simp only [List.cons_append, ofKind_cons]
      split
      · exact inductionHypothesis pairs beforeOpened
      · split
        · cases openers with
          | nil => exact inductionHypothesis pairs beforeNext
          | cons opened outer =>
              exact inductionHypothesis _ fun other member =>
                beforeNext other (List.mem_cons_of_mem opened member)
        · exact inductionHypothesis pairs beforeNext

/-- An offset that is not open, and at which no bracket of the kind opens, gets no closer. -/
theorem lookup_ofKind {kind : BracketKind} {openers : List Nat} {offset key : Nat} {text : Text}
    {pairs : BracketPairs} (notOpen : key ∉ openers)
    (opensNot : offset ≤ key → text[key - offset]? ≠ some kind.opener) :
    (ofKind kind openers offset text pairs).lookup key = pairs.lookup key := by
  induction text generalizing openers offset pairs with
  | nil => rfl
  | cons c rest inductionHypothesis =>
      have opensNotRest : offset + 1 ≤ key → rest[key - (offset + 1)]? ≠ some kind.opener := by
        intro later
        have here := opensNot (Nat.le_of_succ_le later)
        rwa [show key - offset = key - (offset + 1) + 1 by omega, List.getElem?_cons_succ] at here
      rw [ofKind_cons]
      split
      next opens =>
        refine inductionHypothesis ?_ opensNotRest
        intro member
        rcases List.mem_cons.mp member with rfl | isOuter
        · have here := opensNot (Nat.le_refl _)
          rw [Nat.sub_self, List.getElem?_cons_zero, opens] at here
          exact here rfl
        · exact notOpen isOuter
      next =>
        split
        · cases openers with
          | nil => exact inductionHypothesis notOpen opensNotRest
          | cons opened outer =>
              obtain ⟨different, notOuter⟩ : key ≠ opened ∧ key ∉ outer := by simpa using notOpen
              rw [inductionHypothesis notOuter opensNotRest, List.lookup_cons,
                beq_false_of_ne different]
        · exact inductionHypothesis notOpen opensNotRest

/-- The closer of an opener of a kind is the one in the pairing of this kind. -/
theorem closerOf?_opener {kind : BracketKind} {text : Text} {opened : Nat}
    (opens : text[opened]? = some kind.opener) :
    (ofText text).closerOf? opened = (ofKind kind [] 0 text []).lookup opened := by
  have ofOther (other : BracketKind) (different : kind.opener ≠ other.opener) :
      (ofKind other [] 0 text []).lookup opened = none := by
    refine lookup_ofKind List.not_mem_nil fun _ => ?_
    rw [Nat.sub_zero, opens]
    exact fun same => different (Option.some.inj same)
  have parts : ofText text = ofKind .round [] 0 text [] ++
      (ofKind .square [] 0 text [] ++ ofKind .curly [] 0 text []) := by
    simp [ofText, BracketKind.all]
  rw [closerOf?, parts, List.lookup_append, List.lookup_append]
  cases kind with
  | round => rw [ofOther .square (by decide), ofOther .curly (by decide), Option.or_none, Option.or_none]
  | square => rw [ofOther .round (by decide), ofOther .curly (by decide), Option.none_or, Option.or_none]
  | curly => rw [ofOther .round (by decide), ofOther .square (by decide), Option.none_or, Option.none_or]

theorem closerOf?_enclosed {kind : BracketKind} {passed inside following : Text} {inner : BracketPairs}
    (pairs : Pairs kind inside (passed.length + 1) inner) :
    (ofText (passed ++ kind.opener :: (inside ++ kind.closer :: following))).closerOf? passed.length =
      some (passed.length + 1 + inside.length) := by
  obtain ⟨others, earlier, before, read⟩ := @exists_ofKind_append kind passed [] 0 [] (by simp)
  rw [Nat.zero_add] at before read
  have enclosed := pairs.enclosed others following earlier
  have split : kind.opener :: (inside ++ kind.closer :: following) =
      kind.opener :: (inside ++ [kind.closer]) ++ following := by simp
  rw [@closerOf?_opener kind _ _ (by simp), read, split, enclosed, lookup_ofKind]
  · exact List.lookup_cons_self
  · exact fun member => absurd (before _ member) (Nat.lt_irrefl _)
  · intro reached
    rw [List.length_cons] at reached
    omega

end SceneBundler.Source.BracketPairs
