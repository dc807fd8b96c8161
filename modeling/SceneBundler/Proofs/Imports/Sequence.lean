import SceneBundler.Proofs.Imports.Tokens

/-!
Contract: what words and marks declare, put together from what parts of them declare.

Owns:
- tokens of which every bracket is closed by its own kind;
- between which parts nothing is declared, because what follows goes on with no name and no pattern or no
  keyword is at the end;
- that the names of a whole are those of such parts, also within a pattern.

Does not own: which parts a program has.
-/

namespace SceneBundler.Imports

open Character (isBlank)

/-- The names that tokens declare, also those in the patterns of variables. -/
def met (tokens : List Token) : List Text :=
  declared tokens ++ destructured tokens

/-! ## Brackets -/

/-- No condition on a mark. -/
abbrev anything : Char -> Bool :=
  fun _ => true

/-- Whether every bracket is closed by its own kind, and a condition holds of the marks outside all of them and of
the braces and square brackets that open there. -/
inductive Balanced : (allowed : Char -> Bool) -> List Token -> Prop where
  | nil {allowed} : Balanced allowed []
  | word {allowed rest} (letters : Text) (balanced : Balanced allowed rest) :
      Balanced allowed (.word letters :: rest)
  | mark {allowed rest} {c : Char} (isPlain : "()[]\x7b\x7d".toList.contains c = false) (isAllowed : allowed c = true)
      (balanced : Balanced allowed rest) : Balanced allowed (.mark c :: rest)
  | parenthesis {allowed inner rest} (balancedWithin : Balanced anything inner)
      (balanced : Balanced allowed rest) :
      Balanced allowed (.mark '(' :: (inner ++ .mark ')' :: rest))
  | group {allowed inner rest} {opener : Char} (isOpener : opener = '[' ∨ opener = '\x7b')
      (isAllowed : allowed opener = true) (balancedWithin : Balanced anything inner)
      (balanced : Balanced allowed rest) :
      Balanced allowed (.mark opener :: (inner ++ .mark (closerOf opener) :: rest))

section Brackets

variable {allowed : Char -> Bool} {tokens first second rest : List Token}

theorem Balanced.anyhow (balanced : Balanced allowed tokens) : Balanced anything tokens := by
  induction balanced with
  | nil => exact .nil
  | word letters _ inductionHypothesis => exact .word letters inductionHypothesis
  | mark isPlain _ _ inductionHypothesis => exact .mark isPlain rfl inductionHypothesis
  | parenthesis _ _ within inductionHypothesis => exact .parenthesis within inductionHypothesis
  | group isOpener _ _ _ within inductionHypothesis => exact .group isOpener rfl within inductionHypothesis

theorem Balanced.append (balanced : Balanced allowed first) (balancedBehind : Balanced allowed second) :
    Balanced allowed (first ++ second) := by
  induction balanced with
  | nil => exact balancedBehind
  | word letters _ inductionHypothesis => exact .word letters (inductionHypothesis balancedBehind)
  | mark isPlain isAllowed _ inductionHypothesis =>
      exact .mark isPlain isAllowed (inductionHypothesis balancedBehind)
  | parenthesis within _ _ inductionHypothesis =>
      rw [List.cons_append, List.append_assoc]
      exact .parenthesis within (inductionHypothesis balancedBehind)
  | group isOpener isAllowed within _ _ inductionHypothesis =>
      rw [List.cons_append, List.append_assoc]
      exact .group isOpener isAllowed within (inductionHypothesis balancedBehind)

theorem closerOf_of_isOpener {opener : Char} (isOpener : opener = '[' ∨ opener = '\x7b') :
    closerOf opener = ']' ∨ closerOf opener = '\x7d' := by
  rcases isOpener with rfl | rfl
  · exact Or.inl rfl
  · exact Or.inr rfl

/-- Marks that are no braces or square brackets are passed over in the search for the end of a bracket. -/
theorem within_plain (closer : Char) (depth : Nat) {c : Char} (isPlain : "[]\x7b\x7d".toList.contains c = false)
    (rest : List Token) : within closer depth (.mark c :: rest) = (within closer depth rest).map (.mark c :: ·) := by
  have others : c ≠ '\x7b' ∧ c ≠ '[' ∧ c ≠ '\x7d' ∧ c ≠ ']' := by
    refine ⟨?_, ?_, ?_, ?_⟩ <;> rintro rfl <;> exact absurd isPlain (by decide)
  rw [within_mark, if_neg (by simp [others.1, others.2.1]), if_neg (by simp [others.2.2.1, others.2.2.2])]

theorem within_opener (closer : Char) (depth : Nat) {opener : Char} (isOpener : opener = '[' ∨ opener = '\x7b')
    (rest : List Token) :
    within closer depth (.mark opener :: rest) = (within closer (depth + 1) rest).map (.mark opener :: ·) := by
  rw [within_mark, if_pos]
  rcases isOpener with rfl | rfl <;> rfl

theorem within_closer (closer : Char) (depth : Nat) {c : Char} (isCloser : c = ']' ∨ c = '\x7d')
    (rest : List Token) :
    within closer (depth + 1) (.mark c :: rest) = (within closer depth rest).map (.mark c :: ·) := by
  rw [within_mark, if_neg, if_pos]
  · rcases isCloser with rfl | rfl <;> rfl
  · rcases isCloser with rfl | rfl <;> decide

/-- The search for the end of a bracket goes over what is balanced. -/
theorem Balanced.within_append (balanced : Balanced allowed tokens) (closer : Char) (depth : Nat)
    (rest : List Token) :
    within closer depth (tokens ++ rest) = (within closer depth rest).map (tokens ++ ·) := by
  induction balanced generalizing depth rest with
  | nil => exact Option.map_id'.symm
  | word letters _ inductionHypothesis =>
      rw [List.cons_append, within, inductionHypothesis, Option.map_map]
      rfl
  | @mark _ _ c isPlain _ _ inductionHypothesis =>
      have notBracket : "[]\x7b\x7d".toList.contains c = false := by
        refine Bool.eq_false_iff.mpr fun member => Bool.eq_false_iff.mp isPlain ?_
        exact List.contains_iff_mem.mpr
          (List.mem_cons_of_mem _ (List.mem_cons_of_mem _ (List.contains_iff_mem.mp member)))
      rw [List.cons_append, within_plain closer depth notBracket, inductionHypothesis, Option.map_map]
      rfl
  | parenthesis _ _ goesWithin inductionHypothesis =>
      rw [List.cons_append, within_plain closer depth (by decide), List.append_assoc, goesWithin, List.cons_append,
        within_plain closer depth (by decide), inductionHypothesis]
      simp [Option.map_map, Function.comp_def]
  | group isOpener _ _ _ goesWithin inductionHypothesis =>
      rw [List.cons_append, within_opener closer depth isOpener, List.append_assoc, goesWithin, List.cons_append,
        within_closer closer depth (closerOf_of_isOpener isOpener), inductionHypothesis]
      simp [Option.map_map, Function.comp_def]

/-- A bracket that is closed by its own kind holds what stands in between. -/
theorem Balanced.within_closed (balanced : Balanced allowed tokens) {opener : Char}
    (isOpener : opener = '[' ∨ opener = '\x7b') (rest : List Token) :
    within (closerOf opener) 0 (tokens ++ .mark (closerOf opener) :: rest) = some tokens := by
  rw [balanced.within_append]
  rcases isOpener with rfl | rfl <;> simp [within, closerOf]

/-- Behind a blank, what is balanced goes on balanced. -/
theorem Balanced.behind_blank {c : Char} (balanced : Balanced allowed tokens) (blank : isBlank c = true)
    (split : tokens = .mark c :: rest) : Balanced allowed rest := by
  cases balanced with
  | nil => exact nomatch split
  | word => exact nomatch split
  | mark _ _ balancedBehind =>
      obtain ⟨-, rfl⟩ := List.cons_eq_cons.mp split
      exact balancedBehind
  | parenthesis =>
      obtain rfl := Token.mark.inj (List.cons_eq_cons.mp split).1
      exact absurd blank (by decide)
  | group isOpener =>
      obtain rfl := Token.mark.inj (List.cons_eq_cons.mp split).1
      rcases isOpener with rfl | rfl <;> exact absurd blank (by decide)

/-- A bracket within what is balanced is closed there. -/
theorem Balanced.exists_group {between : Text} {opener : Char} {later : List Token}
    (balanced : Balanced allowed tokens) (isOpener : opener = '[' ∨ opener = '\x7b')
    (blank : ∀ c ∈ between, isBlank c = true)
    (split : tokens = between.map Token.mark ++ .mark opener :: later) :
    ∃ inner rest, later = inner ++ .mark (closerOf opener) :: rest ∧ Balanced anything inner := by
  induction between generalizing tokens with
  | nil =>
      cases balanced with
      | nil => exact nomatch split
      | word => exact nomatch split
      | mark isPlain =>
          obtain rfl := Token.mark.inj (List.cons_eq_cons.mp split).1
          rcases isOpener with rfl | rfl <;> exact absurd isPlain (by decide)
      | parenthesis =>
          obtain rfl := Token.mark.inj (List.cons_eq_cons.mp split).1
          exact absurd isOpener (by decide)
      | group _ _ balancedWithin =>
          obtain ⟨isHere, rfl⟩ := List.cons_eq_cons.mp split
          obtain rfl := Token.mark.inj isHere
          exact ⟨_, _, rfl, balancedWithin⟩
  | cons c between inductionHypothesis =>
      obtain ⟨blankHere, blankBehind⟩ := List.forall_mem_cons.mp blank
      exact inductionHypothesis (balanced.behind_blank blankHere split) blankBehind rfl

end Brackets

/-! ## Ends of parts -/

/-- Whether tokens, behind blanks, go on with nothing that declarations go on with behind their keyword. -/
def closes (tokens : List Token) : Bool :=
  match tokens.dropWhile Token.isBlank with
  | [] => true
  | .mark c :: _ => !(['*', '[', '\x7b'].contains c)
  | .word _ :: _ => false

/-- Whether the keyword of a declaration is the last of tokens, but for its star and blanks. -/
def dangles : List Token -> Bool
  | [] => false
  | .mark _ :: rest => dangles rest
  | .word letters :: rest =>
      (declarationKeywords.contains (lastPart letters) &&
        (behindStar (lastPart letters) rest).all Token.isBlank) || dangles rest

/-- Whether no declaration goes from the first part over into the second. -/
def Sealed (tokens rest : List Token) : Prop :=
  closes rest = true ∨ dangles tokens = false

section Ends

variable {tokens rest : List Token}

theorem dangles_behind {front : List Token} (whole : dangles (front ++ tokens) = false) : dangles tokens = false := by
  induction front with
  | nil => exact whole
  | cons token front inductionHypothesis =>
      cases token with
      | mark c => exact inductionHypothesis whole
      | word letters => exact inductionHypothesis (Bool.or_eq_false_iff.mp whole).2

theorem Sealed.behind {front : List Token} (isSealed : Sealed (front ++ tokens) rest) : Sealed tokens rest :=
  isSealed.imp_right dangles_behind

theorem dropWhile_marks {between : Text} (blank : ∀ c ∈ between, isBlank c = true) (tokens : List Token) :
    (between.map Token.mark ++ tokens).dropWhile Token.isBlank = tokens.dropWhile Token.isBlank :=
  List.dropWhile_append_of_pos (List.forall_mem_map.mpr blank)

theorem closes_marks {between : Text} (blank : ∀ c ∈ between, isBlank c = true) (tokens : List Token) :
    closes (between.map Token.mark ++ tokens) = closes tokens := by
  rw [closes, dropWhile_marks blank]
  rfl

/-- What stands behind blanks is where it was, if more follows. -/
theorem gapAhead?_append (visible : tokens.all Token.isBlank = false) (rest : List Token) :
    gapAhead? (tokens ++ rest) = (gapAhead? tokens).map (· ++ rest) := by
  match tokens with
  | [] => exact nomatch visible
  | .word _ :: _ => rfl
  | .mark c :: tokens =>
      rw [List.cons_append, gapAhead?, gapAhead?]
      split
      next blank =>
        have visibleBehind : tokens.all Token.isBlank = false := by
          rw [List.all_cons] at visible
          exact (Bool.and_eq_false_imp.mp visible) blank
        have stops : (tokens.dropWhile Token.isBlank).isEmpty = false := by
          rw [← Bool.not_eq_true, List.isEmpty_iff, List.dropWhile_eq_nil_iff, ← List.all_eq_true, visibleBehind]
          exact Bool.false_ne_true
        rw [List.dropWhile_append, stops]
        rfl
      next => rfl

theorem gapAhead?_of_blank (blank : tokens.all Token.isBlank = true) (rest : List Token) :
    gapAhead? (tokens ++ rest) = none ∨ gapAhead? (tokens ++ rest) = some (rest.dropWhile Token.isBlank) := by
  match tokens, rest with
  | [], [] => exact Or.inl rfl
  | [], .word _ :: _ => exact Or.inl rfl
  | [], .mark c :: rest =>
      cases isBlankHere : isBlank c with
      | true =>
          refine Or.inr ((if_pos isBlankHere).trans ?_)
          rw [List.dropWhile_cons_of_pos (show (Token.mark c).isBlank = true from isBlankHere)]
      | false => exact Or.inl (if_neg (Bool.eq_false_iff.mp isBlankHere))
  | .word _ :: _, _ => exact Or.inl rfl
  | .mark c :: tokens, rest =>
      obtain ⟨blankHere, blankBehind⟩ := Bool.and_eq_true_iff.mp blank
      refine Or.inr ((if_pos blankHere).trans (congrArg some ?_))
      exact List.dropWhile_append_of_pos (List.all_eq_true.mp blankBehind)

theorem aheads_of_closes (blank : tokens.all Token.isBlank = true) (isClosed : closes rest = true) :
    nameAhead? (tokens ++ rest) = none ∧ bracketAhead? (tokens ++ rest) = none := by
  rw [closes] at isClosed
  rcases gapAhead?_of_blank blank rest with isAhead | isAhead <;> rw [nameAhead?, bracketAhead?, isAhead]
  · exact ⟨rfl, rfl⟩
  · generalize rest.dropWhile Token.isBlank = stopped at isClosed ⊢
    cases stopped with
    | nil => exact ⟨rfl, rfl⟩
    | cons token others =>
        cases token with
        | word letters => exact (Bool.false_ne_true isClosed).elim
        | mark c =>
            refine ⟨rfl, if_neg fun isBracket => ?_⟩
            have isOpener : c = '[' ∨ c = '\x7b' := by simpa using isBracket
            rcases isOpener with rfl | rfl <;> exact Bool.false_ne_true isClosed

/-- What stands behind blanks in tokens that are not all blank is in them. -/
theorem ne_nil_of_gapAhead? {later : List Token} (visible : tokens.all Token.isBlank = false)
    (isAhead : gapAhead? tokens = some later) : later ≠ [] := by
  rintro rfl
  obtain ⟨between, -, blank, rfl⟩ := exists_of_gapAhead? isAhead
  rw [List.append_nil, List.all_map, ← Bool.not_eq_true, List.all_eq_true] at visible
  exact visible blank

theorem nameAhead?_append (isSealed : closes rest = true ∨ tokens.all Token.isBlank = false) :
    nameAhead? (tokens ++ rest) = (nameAhead? tokens).map fun ahead => (ahead.1, ahead.2 ++ rest) := by
  cases blank : tokens.all Token.isBlank with
  | true =>
      have isClosed := isSealed.resolve_right (Bool.eq_false_iff.not.mpr (not_not_intro blank))
      have nothing := (@aheads_of_closes tokens [] blank rfl).1
      rw [List.append_nil] at nothing
      rw [(aheads_of_closes blank isClosed).1, nothing]
      rfl
  | false =>
      rw [nameAhead?, nameAhead?, gapAhead?_append blank]
      cases isAhead : gapAhead? tokens with
      | none => rfl
      | some later =>
          obtain ⟨token, others, rfl⟩ := List.exists_cons_of_ne_nil (ne_nil_of_gapAhead? blank isAhead)
          cases token with
          | mark c => rfl
          | word letters => cases starts : letters.head?.any Character.startsName <;> simp [starts]

theorem bracketAhead?_append (isSealed : closes rest = true ∨ tokens.all Token.isBlank = false) :
    bracketAhead? (tokens ++ rest) = (bracketAhead? tokens).map fun ahead => (ahead.1, ahead.2 ++ rest) := by
  cases blank : tokens.all Token.isBlank with
  | true =>
      have isClosed := isSealed.resolve_right (Bool.eq_false_iff.not.mpr (not_not_intro blank))
      have nothing := (@aheads_of_closes tokens [] blank rfl).2
      rw [List.append_nil] at nothing
      rw [(aheads_of_closes blank isClosed).2, nothing]
      rfl
  | false =>
      rw [bracketAhead?, bracketAhead?, gapAhead?_append blank]
      cases isAhead : gapAhead? tokens with
      | none => rfl
      | some later =>
          obtain ⟨token, others, rfl⟩ := List.exists_cons_of_ne_nil (ne_nil_of_gapAhead? blank isAhead)
          cases token with
          | word letters => rfl
          | mark c => by_cases isBracket : c = '[' ∨ c = '\x7b' <;> simp [isBracket]

/-- What closes begins with no star. -/
theorem behindStar_of_closes (keyword : Text) (isClosed : closes rest = true) : behindStar keyword rest = rest := by
  unfold behindStar
  split
  next => exact nomatch isClosed
  next => rfl

theorem behindStar_append (keyword : Text) (nonempty : tokens ≠ []) (rest : List Token) :
    behindStar keyword (tokens ++ rest) = behindStar keyword tokens ++ rest := by
  obtain ⟨token, tokens, rfl⟩ := List.exists_cons_of_ne_nil nonempty
  rw [List.cons_append]
  unfold behindStar
  split
  next isStar =>
    obtain ⟨rfl, rfl⟩ := List.cons_eq_cons.mp isStar
    split <;> rfl
  next notStar =>
    split
    next isStar =>
      obtain ⟨rfl, rfl⟩ := List.cons_eq_cons.mp isStar
      exact absurd rfl (notStar _)
    next => rfl

theorem nameAhead?_behindStar_append {keyword : Text}
    (isSealed : closes rest = true ∨ (behindStar keyword tokens).all Token.isBlank = false) :
    nameAhead? (behindStar keyword (tokens ++ rest)) =
      (nameAhead? (behindStar keyword tokens)).map fun ahead => (ahead.1, ahead.2 ++ rest) := by
  rcases List.eq_nil_or_concat tokens with rfl | isCons
  · have isClosed := isSealed.resolve_right nofun
    rw [List.nil_append, behindStar_of_closes keyword isClosed]
    exact (@aheads_of_closes [] rest rfl isClosed).1
  · have nonempty : tokens ≠ [] := by
      obtain ⟨front, last, rfl⟩ := isCons
      simp
    rw [behindStar_append keyword nonempty, nameAhead?_append isSealed]

end Ends

/-! ## Parts -/

section Parts

variable {allowed : Char -> Bool} {tokens rest : List Token}

theorem Sealed.of_word {letters : Text} (isSealed : Sealed (.word letters :: tokens) rest)
    (isKeyword : lastPart letters ∈ declarationKeywords) :
    closes rest = true ∨ (behindStar (lastPart letters) tokens).all Token.isBlank = false := by
  refine isSealed.imp_right fun whole => ?_
  have notBehind := (Bool.or_eq_false_iff.mp whole).1
  rwa [List.contains_iff_mem.mpr isKeyword, Bool.true_and] at notBehind

theorem declared_append (isSealed : Sealed tokens rest) :
    declared (tokens ++ rest) = declared tokens ++ declared rest := by
  induction tokens using declared.induct with
  | case1 =>
      rw [declared]
      rfl
  | case2 c tokens inductionHypothesis =>
      rw [List.cons_append, declared, declared]
      exact inductionHypothesis (@Sealed.behind _ _ [.mark c] isSealed)
  | case3 letters tokens isContained name later isAhead inductionHypothesis =>
      have isKeyword := List.contains_iff_mem.mp isContained
      have isThere := nameAhead?_behindStar_append (isSealed.of_word isKeyword)
      rw [isAhead, Option.map_some] at isThere
      obtain ⟨star, between, -, -, -, -, rfl⟩ := exists_of_nameAhead? isAhead
      have isSealedBehind : Sealed later rest :=
        @Sealed.behind _ _ (.word letters :: ((star ++ between).map Token.mark ++ [.word name]))
          (by simpa using isSealed)
      rw [List.cons_append, declared_of_nameAhead? isKeyword isThere, declared_of_nameAhead? isKeyword isAhead,
        inductionHypothesis isSealedBehind, List.cons_append]
  | case4 letters tokens isContained isAhead inductionHypothesis =>
      have isThere := nameAhead?_behindStar_append (isSealed.of_word (List.contains_iff_mem.mp isContained))
      rw [isAhead, Option.map_none] at isThere
      rw [List.cons_append, declared_of_unnamed fun _ => isThere, declared_of_unnamed fun _ => isAhead]
      exact inductionHypothesis (@Sealed.behind _ _ [.word letters] isSealed)
  | case5 letters tokens notKeyword inductionHypothesis =>
      have absent (isKeyword : lastPart letters ∈ declarationKeywords) : False :=
        notKeyword (List.contains_iff_mem.mpr isKeyword)
      rw [List.cons_append, declared_of_unnamed fun isKeyword => (absent isKeyword).elim,
        declared_of_unnamed fun isKeyword => (absent isKeyword).elim]
      exact inductionHypothesis (@Sealed.behind _ _ [.word letters] isSealed)

theorem unpacked_append {letters : Text} (balanced : Balanced allowed tokens)
    (isSealed : Sealed (.word letters :: tokens) rest) :
    unpacked letters (tokens ++ rest) = unpacked letters tokens := by
  unfold unpacked
  split
  next isContained =>
    have isKeyword := List.contains_iff_mem.mp isContained
    have notFunction : lastPart letters ≠ "function".toList := by
      intro isFunction
      rw [isFunction] at isKeyword
      exact absurd isKeyword (by decide)
    have isSealedHere := isSealed.of_word (variableKeywords_subset isKeyword)
    rw [behindStar_of_ne notFunction] at isSealedHere
    rw [bracketAhead?_append isSealedHere]
    cases isAhead : bracketAhead? tokens with
    | none => rfl
    | some ahead =>
        obtain ⟨opener, later⟩ := ahead
        obtain ⟨isGap, isOpener⟩ := gapAhead?_of_bracketAhead? isAhead
        obtain ⟨between, -, blank, split⟩ := exists_of_gapAhead? isGap
        obtain ⟨inner, others, rfl, balancedWithin⟩ := balanced.exists_group isOpener blank split
        simp only [Option.map_some, List.append_assoc, List.cons_append, balancedWithin.within_closed isOpener]
  next => rfl

/-- A bracket is passed over as the part within it and the part behind it, which its closer keeps apart. -/
theorem destructured_group {inner behind : List Token} (opener : Char) {closer : Char}
    (closed : ∀ behind, closes (.mark closer :: behind) = true)
    (goesWithin : ∀ {rest}, Sealed inner rest → destructured (inner ++ rest) = destructured inner ++ destructured rest)
    (goesBehind : destructured (behind ++ rest) = destructured behind ++ destructured rest) :
    destructured (.mark opener :: (inner ++ .mark closer :: behind) ++ rest) =
      destructured (.mark opener :: (inner ++ .mark closer :: behind)) ++ destructured rest := by
  have whole (behind : List Token) : destructured (.mark opener :: (inner ++ .mark closer :: behind)) =
      destructured inner ++ destructured behind :=
    goesWithin (Or.inl (closed behind))
  rw [List.cons_append, List.append_assoc, List.cons_append, whole, whole, goesBehind, List.append_assoc]

theorem destructured_append (balanced : Balanced allowed tokens) (isSealed : Sealed tokens rest) :
    destructured (tokens ++ rest) = destructured tokens ++ destructured rest := by
  induction balanced generalizing rest with
  | nil => rfl
  | word letters balanced inductionHypothesis =>
      have isBehind := inductionHypothesis (@Sealed.behind _ _ [.word letters] isSealed)
      rw [List.cons_append, destructured, destructured, unpacked_append balanced isSealed, isBehind,
        List.append_assoc]
  | mark _ _ _ inductionHypothesis => exact inductionHypothesis (@Sealed.behind _ _ [.mark _] isSealed)
  | @parenthesis _ inner others _ _ goesWithin inductionHypothesis =>
      refine destructured_group '(' (fun _ => rfl) goesWithin (inductionHypothesis ?_)
      exact @Sealed.behind _ _ (.mark '(' :: (inner ++ [.mark ')'])) (by simpa using isSealed)
  | @group _ inner others opener isOpener _ _ _ goesWithin inductionHypothesis =>
      have closed (behind : List Token) : closes (.mark (closerOf opener) :: behind) = true := by
        rcases isOpener with rfl | rfl <;> rfl
      refine destructured_group opener closed goesWithin (inductionHypothesis ?_)
      exact @Sealed.behind _ _ (.mark opener :: (inner ++ [.mark (closerOf opener)])) (by simpa using isSealed)

/-- What a whole declares is what its parts declare, if no declaration goes from one over into the other. -/
theorem mem_met_append (balanced : Balanced allowed tokens) (isSealed : Sealed tokens rest) {text : Text} :
    text ∈ met (tokens ++ rest) ↔ text ∈ met tokens ∨ text ∈ met rest := by
  rw [met, met, met, declared_append isSealed, destructured_append balanced isSealed]
  simp only [List.mem_append]
  exact or_or_or_comm

theorem met_mark (c : Char) (tokens : List Token) : met (.mark c :: tokens) = met tokens := by
  rw [met, met, declared, destructured]

theorem met_marks (marks : Text) (tokens : List Token) : met (marks.map Token.mark ++ tokens) = met tokens := by
  induction marks with
  | nil => rfl
  | cons c marks inductionHypothesis => exact (met_mark c _).trans inductionHypothesis

section Unnamed

variable {letters : Text}
  (unnamed : lastPart letters ∈ declarationKeywords → nameAhead? (behindStar (lastPart letters) rest) = none)
include unnamed

theorem met_of_unnamed (noPattern : unpacked letters rest = []) : met (.word letters :: rest) = met rest := by
  rw [met, met, declared_of_unnamed unnamed, destructured, noPattern, List.nil_append]

theorem mem_met_of_unnamed {text : Text} :
    text ∈ met (.word letters :: rest) ↔ text ∈ unpacked letters rest ∨ text ∈ met rest := by
  rw [met, met, declared_of_unnamed unnamed, destructured]
  simp only [List.mem_append]
  exact or_left_comm

end Unnamed

section Quiet

variable {letters : Text} (quiet : closes rest = true ∨ lastPart letters ∉ declarationKeywords)
include quiet

theorem unpacked_of_quiet : unpacked letters rest = [] := by
  unfold unpacked
  split
  next isContained =>
    have isKeyword := variableKeywords_subset (List.contains_iff_mem.mp isContained)
    have isClosed := quiet.resolve_right (not_not_intro isKeyword)
    rw [show bracketAhead? rest = none from (@aheads_of_closes [] rest rfl isClosed).2]
  next => rfl

/-- A word that is no keyword, or behind which no declaration goes on, declares nothing. -/
theorem met_word : met (.word letters :: rest) = met rest := by
  refine met_of_unnamed (fun isKeyword => ?_) (unpacked_of_quiet quiet)
  have isClosed := quiet.resolve_right (not_not_intro isKeyword)
  rw [behindStar_of_closes _ isClosed]
  exact (@aheads_of_closes [] rest rfl isClosed).1

end Quiet

/-- Blanks are passed over up to what stands behind them. -/
theorem gapAhead?_marks {between : Text} {token : Token} (nonempty : between ≠ [])
    (blank : ∀ c ∈ between, isBlank c = true) (visible : token.isBlank = false) (later : List Token) :
    gapAhead? (between.map Token.mark ++ token :: later) = some (token :: later) := by
  obtain ⟨c, between, rfl⟩ := List.exists_cons_of_ne_nil nonempty
  obtain ⟨blankHere, blankBehind⟩ := List.forall_mem_cons.mp blank
  refine (if_pos blankHere).trans (congrArg some ?_)
  exact (dropWhile_marks blankBehind _).trans (List.dropWhile_cons_of_neg (by simp [visible]))

theorem behindStar_marks (keyword : Text) {between : Text} (nonempty : between ≠ [])
    (blank : ∀ c ∈ between, isBlank c = true) (tokens : List Token) :
    behindStar keyword (between.map Token.mark ++ tokens) = between.map Token.mark ++ tokens := by
  obtain ⟨c, between, rfl⟩ := List.exists_cons_of_ne_nil nonempty
  unfold behindStar
  split
  next isStar =>
    obtain rfl := Token.mark.inj (List.cons_eq_cons.mp isStar).1
    exact absurd (blank '*' List.mem_cons_self) (by decide)
  next => rfl

/-- A keyword with a name declares the name, and the search goes on behind it. -/
theorem met_of_nameAhead? {letters name : Text} {later : List Token}
    (isKeyword : lastPart letters ∈ declarationKeywords)
    (isAhead : nameAhead? (behindStar (lastPart letters) rest) = some (name, later))
    (quiet : closes later = true ∨ lastPart name ∉ declarationKeywords) :
    met (.word letters :: rest) = name :: met later := by
  obtain ⟨star, between, isStar, nonempty, blank, -, rfl⟩ := exists_of_nameAhead? isAhead
  have noPattern : bracketAhead? ((star ++ between).map Token.mark ++ .word name :: later) = none := by
    rcases isStar with rfl | ⟨rfl, -⟩
    · rw [bracketAhead?, List.nil_append, gapAhead?_marks nonempty blank rfl]
    · rfl
  have notUnpacked : unpacked letters ((star ++ between).map Token.mark ++ .word name :: later) = [] := by
    rw [unpacked, noPattern]
    exact ite_self _
  rw [met, met, declared_of_nameAhead? isKeyword isAhead, destructured, notUnpacked, destructured_marks,
    destructured, unpacked_of_quiet quiet]
  rfl

end Parts

/-! ## Names that stand in a pattern -/

section Standing

variable {first second behind : List Token}

theorem standing_append (behind first second : List Token) :
    standing behind (first ++ second) = standing (second ++ behind) first ++ standing behind second := by
  induction first with
  | nil => rfl
  | cons token first inductionHypothesis =>
      cases token with
      | mark c => exact inductionHypothesis
      | word letters =>
          rw [List.cons_append, standing, standing, inductionHypothesis, List.append_assoc, List.append_assoc]

theorem endsElement_append (ends : endsElement behind = true) (tokens : List Token) :
    endsElement (tokens ++ behind) = endsElement tokens := by
  rw [endsElement, endsElement, List.dropWhile_append]
  generalize tokens.dropWhile Token.isBlank = stopped
  cases stopped with
  | nil => exact ends
  | cons token others => cases token <;> rfl

/-- Tokens behind which an element ends have the names that they have as all of a pattern. -/
theorem standing_of_endsElement (ends : endsElement behind = true) (tokens : List Token) :
    standing behind tokens = standing [] tokens := by
  induction tokens with
  | nil => rfl
  | cons token rest inductionHypothesis =>
      cases token with
      | mark c => exact inductionHypothesis
      | word letters =>
          rw [standing, standing, endsElement_append ends, List.append_nil, inductionHypothesis]

end Standing

end SceneBundler.Imports
