import SceneBundler.Proofs.Dialect.Argument
import SceneBundler.Proofs.Dialect.Settled
import SceneBundler.Proofs.Text.Pieces
import SceneBundler.Proofs.Text.Preferred
import SceneBundler.Proofs.Text.Search
import SceneBundler.Proofs.Typed.Joined

/-!
Contract: text with type arguments, and the pass that deletes them from the inside outwards.

Owns:
- texts as trees of groups in angle brackets, each behind a name;
- that the matches of the pattern of type arguments are the innermost groups;
- that each round of the pass deletes these, and all its rounds every group.

Does not own: which programs have such groups.
-/

namespace SceneBundler.Typed

open Dialect

/-- Text with type arguments in angle brackets, each behind a name. -/
inductive Angled where
  | nil
  | mark (c : Char) (after : Angled)
  | group (name : Name) (inner after : Angled)

/-- Whether the contents of angle brackets can be type arguments. -/
structure IsArguments (text : Text) : Prop where
  noGreater : '>' ∉ text
  starts : typeContentStart.startsText text = true
  noOperators : nonTypeTokens.any (fun token => Text.occursIn token text) = false

/-- Whether what follows a name neither continues it nor opens type arguments. -/
def Calm (following : Text) : Prop :=
  ∀ c ∈ following.head?, Character.continuesName c = false ∧ c ≠ '<'

namespace Angled

def written : Angled -> Text
  | nil => []
  | mark c after => c :: after.written
  | group name inner after => name.text ++ '<' :: (inner.written ++ '>' :: after.written)

def bare : Angled -> Text
  | nil => []
  | mark c after => c :: after.bare
  | group name _ after => name.text ++ after.bare

/-- The number of groups. -/
def groups : Angled -> Nat
  | nil => 0
  | mark _ after => after.groups
  | group _ inner after => inner.groups + after.groups + 1

def marks (word : Text) (after : Angled) : Angled :=
  word.foldr mark after

/-- Without the innermost groups. -/
def peel : Angled -> Angled
  | nil => nil
  | mark c after => mark c after.peel
  | group name inner after =>
      if inner.groups = 0 then marks name.text after.peel else group name inner.peel after.peel

/-- The text cut at the innermost groups, which are dropped. -/
def pieces : Angled -> List Piece
  | nil => []
  | mark c after => Piece.keep [c] :: after.pieces
  | group name inner after =>
      if inner.groups = 0 then
        Piece.keep name.text :: Piece.drop ('<' :: (inner.written ++ ['>'])) :: after.pieces
      else
        Piece.keep (name.text ++ ['<']) :: (inner.pieces ++ Piece.keep ['>'] :: after.pieces)

/-- Whether every group holds type arguments and stands apart from the names around it, and the marks
are characters of plain code. -/
def Fits : Option Char -> Angled -> Prop
  | _, nil => True
  | _, mark c after => c ≠ '<' ∧ Source.opensLiteral c = false ∧ after.Fits (some c)
  | previous, group _ inner after =>
      previous.any Character.continuesName = false ∧ IsArguments inner.bare ∧
        inner.Fits (some '<') ∧ Calm after.written ∧ after.Fits (some '>')

/-! ## Peeling -/

variable {tree : Angled}

@[simp] theorem written_marks (word : Text) (after : Angled) :
    (marks word after).written = word ++ after.written := by
  induction word with
  | nil => rfl
  | cons c rest inductionHypothesis => exact congrArg (c :: ·) inductionHypothesis

@[simp] theorem bare_marks (word : Text) (after : Angled) :
    (marks word after).bare = word ++ after.bare := by
  induction word with
  | nil => rfl
  | cons c rest inductionHypothesis => exact congrArg (c :: ·) inductionHypothesis

@[simp] theorem groups_marks (word : Text) (after : Angled) :
    (marks word after).groups = after.groups := by
  induction word with
  | nil => rfl
  | cons c rest inductionHypothesis => exact inductionHypothesis

theorem written_eq_bare (none : tree.groups = 0) : tree.written = tree.bare := by
  induction tree with
  | nil => rfl
  | mark c after inductionHypothesis => exact congrArg (c :: ·) (inductionHypothesis none)
  | group name inner after _ _ => exact absurd none (Nat.succ_ne_zero _)

theorem bare_peel (tree : Angled) : tree.peel.bare = tree.bare := by
  induction tree with
  | nil => rfl
  | mark c after inductionHypothesis => exact congrArg (c :: ·) inductionHypothesis
  | group name inner after _ afterHypothesis =>
      rw [peel]
      split <;> simp [bare, afterHypothesis]

theorem groups_peel_le (tree : Angled) : tree.peel.groups ≤ tree.groups := by
  induction tree with
  | nil => exact Nat.le_refl 0
  | mark c after inductionHypothesis => exact inductionHypothesis
  | group name inner after innerHypothesis afterHypothesis =>
      rw [peel]
      split
      · rw [groups_marks, groups]
        omega
      · rw [groups, groups]
        omega

theorem groups_peel_lt (some : tree.groups ≠ 0) : tree.peel.groups < tree.groups := by
  induction tree with
  | nil => exact absurd rfl some
  | mark c after inductionHypothesis => exact inductionHypothesis some
  | group name inner after innerHypothesis _ =>
      have afterLe := groups_peel_le after
      rw [peel]
      split
      · rw [groups_marks, groups]
        omega
      next nested =>
        have innerLt := innerHypothesis nested
        rw [groups, groups]
        omega

theorem source_pieces (tree : Angled) : Piece.source tree.pieces = tree.written := by
  induction tree with
  | nil => rfl
  | mark c after inductionHypothesis =>
      simpa [pieces, written, Piece.source, Piece.keep] using inductionHypothesis
  | group name inner after innerHypothesis afterHypothesis =>
      simp only [Piece.source] at innerHypothesis afterHypothesis
      rw [pieces]
      split <;>
        simp [written, Piece.source, Piece.keep, Piece.drop, innerHypothesis, afterHypothesis]

theorem remainder_pieces (tree : Angled) : Piece.remainder tree.pieces = tree.peel.written := by
  induction tree with
  | nil => rfl
  | mark c after inductionHypothesis =>
      simpa [pieces, peel, written, Piece.remainder, Piece.keep] using inductionHypothesis
  | group name inner after innerHypothesis afterHypothesis =>
      simp only [Piece.remainder] at innerHypothesis afterHypothesis
      rw [pieces, peel]
      split <;>
        simp [written, Piece.remainder, Piece.keep, Piece.drop, innerHypothesis, afterHypothesis]

theorem text_ne_nil_of_mem_pieces : ∀ piece ∈ tree.pieces, piece.text ≠ [] := by
  induction tree with
  | nil => simp [pieces]
  | mark c after inductionHypothesis =>
      intro piece member
      rcases List.mem_cons.mp member with rfl | isLater
      · exact List.cons_ne_nil c []
      · exact inductionHypothesis piece isLater
  | group name inner after innerHypothesis afterHypothesis =>
      intro piece member
      rw [pieces] at member
      split at member
      · rcases List.mem_cons.mp member with rfl | isLater
        · exact name.text_ne_nil
        · rcases List.mem_cons.mp isLater with rfl | isAfter
          · exact List.cons_ne_nil _ _
          · exact afterHypothesis piece isAfter
      · rcases List.mem_cons.mp member with rfl | isLater
        · exact List.append_ne_nil_of_right_ne_nil _ (List.cons_ne_nil _ _)
        · rcases List.mem_append.mp isLater with isInner | isAfter
          · exact innerHypothesis piece isInner
          · rcases List.mem_cons.mp isAfter with rfl | isBehind
            · exact List.cons_ne_nil _ _
            · exact afterHypothesis piece isBehind

/-! ## Trees that fit -/

/-- Behind a calm beginning the last character makes no difference. -/
theorem fits_of_calm {previous : Option Char} (calm : Calm tree.written) (fits : tree.Fits previous)
    (other : Option Char) : tree.Fits other := by
  cases tree with
  | nil => trivial
  | mark c after => exact fits
  | group name inner after =>
      have starts := (calm name.first rfl).1
      rw [continuesName_of_isNamePart (isNamePart_of_start name.starts)] at starts
      contradiction

theorem calm_peel (calm : Calm tree.written) : Calm tree.peel.written := by
  cases tree with
  | nil => exact calm
  | mark c after => exact calm
  | group name inner after =>
      have starts := (calm name.first rfl).1
      rw [continuesName_of_isNamePart (isNamePart_of_start name.starts)] at starts
      contradiction

theorem fits_marks {word : Text} {after : Angled} {previous : Option Char}
    (plain : ∀ c ∈ word, c ≠ '<' ∧ Source.opensLiteral c = false)
    (fits : after.Fits (word.getLast?.or previous)) : (marks word after).Fits previous := by
  induction word generalizing previous with
  | nil => exact fits
  | cons c rest inductionHypothesis =>
      obtain ⟨notLess, noLiteral⟩ := plain c List.mem_cons_self
      have fitsRest : after.Fits (rest.getLast?.or (some c)) := by
        rw [List.getLast?_cons] at fits
        cases isLast : rest.getLast? <;> simpa [isLast] using fits
      exact ⟨notLess, noLiteral,
        inductionHypothesis (fun d member => plain d (List.mem_cons_of_mem c member)) fitsRest⟩

theorem plain_of_isNamePart {c : Char} (part : isNamePart c = true) :
    c ≠ '<' ∧ Source.opensLiteral c = false :=
  ⟨ne_of_isNamePart part '<' (by decide), opensLiteral_of_isNamePart part⟩

theorem fits_peel {previous : Option Char} (fits : tree.Fits previous) :
    tree.peel.Fits previous := by
  induction tree generalizing previous with
  | nil => trivial
  | mark c after inductionHypothesis =>
      obtain ⟨notLess, noLiteral, fitsAfter⟩ := fits
      exact ⟨notLess, noLiteral, inductionHypothesis fitsAfter⟩
  | group name inner after innerHypothesis afterHypothesis =>
      obtain ⟨apart, isArguments, fitsInner, calm, fitsAfter⟩ := fits
      have peeled := afterHypothesis fitsAfter
      rw [peel]
      split
      · exact fits_marks (fun c member => plain_of_isNamePart (name.isNamePart_of_mem member))
          (fits_of_calm (calm_peel calm) peeled _)
      · refine ⟨apart, ?_, innerHypothesis fitsInner, calm_peel calm, peeled⟩
        rwa [bare_peel]

/-- An angle bracket opens only behind a name. -/
theorem exists_name_of_less {passed more rest : Text} (fits : tree.Fits passed.getLast?)
    (split : tree.written = more ++ '<' :: rest) :
    ∃ earlier, ∃ name : Name, passed ++ more = earlier ++ name.text ∧
      earlier.getLast?.any Character.continuesName = false := by
  induction tree generalizing passed more rest with
  | nil => simp [written] at split
  | mark c after inductionHypothesis =>
      obtain ⟨notLess, _, fitsAfter⟩ := fits
      cases more with
      | nil => exact absurd (List.cons.inj split).1 notLess
      | cons d more =>
          obtain ⟨rfl, later⟩ := List.cons.inj split
          have found := @inductionHypothesis (passed ++ [c]) more rest (by simpa using fitsAfter) later
          simpa using found
  | group name inner after innerHypothesis afterHypothesis =>
      obtain ⟨apart, _, fitsInner, _, fitsAfter⟩ := fits
      have notInName : '<' ∉ name.text := name.not_mem (by decide)
      rcases List.append_eq_append_iff.mp split with ⟨beyond, isMore, behind⟩ | ⟨beyond, isName, behind⟩
      · cases beyond with
        | nil =>
            rw [List.append_nil] at isMore
            exact ⟨passed, name, by rw [isMore], apart⟩
        | cons c beyond =>
            obtain ⟨rfl, inside⟩ := List.cons.inj behind
            rcases List.append_eq_append_iff.mp inside with
                ⟨further, isBeyond, last⟩ | ⟨further, isInner, last⟩
            · cases further with
              | nil => exact absurd (List.cons.inj last).1 (by decide)
              | cons d further =>
                  obtain ⟨rfl, later⟩ := List.cons.inj last
                  have found := @afterHypothesis
                    (passed ++ (name.text ++ '<' :: inner.written) ++ ['>']) further rest
                    (by rwa [List.getLast?_concat]) later
                  simpa [isMore, isBeyond] using found
            · cases further with
              | nil => exact absurd (List.cons.inj last).1 (by decide)
              | cons d further =>
                  obtain ⟨rfl, _⟩ := List.cons.inj last
                  have found := @innerHypothesis (passed ++ (name.text ++ ['<'])) beyond further
                    (by simpa using fitsInner) isInner
                  simpa [isMore] using found
      · cases beyond with
        | nil =>
            rw [List.append_nil] at isName
            exact ⟨passed, name, by rw [isName], apart⟩
        | cons c beyond =>
            obtain ⟨rfl, _⟩ := List.cons.inj behind
            exact absurd (isName ▸ List.mem_append_right _ List.mem_cons_self) notInName

/-- The characters of a tree open no literal. -/
theorem opensLiteral_of_mem {c : Char} {previous : Option Char} (fits : tree.Fits previous)
    (member : c ∈ tree.written) : Source.opensLiteral c = false := by
  induction tree generalizing previous with
  | nil => exact absurd member List.not_mem_nil
  | mark d after inductionHypothesis =>
      obtain ⟨_, noLiteral, fitsAfter⟩ := fits
      rcases List.mem_cons.mp member with rfl | isLater
      · exact noLiteral
      · exact inductionHypothesis fitsAfter isLater
  | group name inner after innerHypothesis afterHypothesis =>
      obtain ⟨_, _, fitsInner, _, fitsAfter⟩ := fits
      simp only [written, List.mem_append, List.mem_cons] at member
      rcases member with isName | rfl | isInner | rfl | isAfter
      · exact opensLiteral_of_isNamePart (name.isNamePart_of_mem isName)
      · decide
      · exact innerHypothesis fitsInner isInner
      · decide
      · exact afterHypothesis fitsAfter isAfter

/-- A text with type arguments is its own masked view. -/
theorem mask_written (fits : tree.Fits none) : Source.mask tree.written = tree.written := by
  refine Source.mask_eq_self (fun c => opensLiteral_of_mem fits) fun before after split => ?_
  obtain ⟨earlier, name, rfl, apart⟩ := @exists_name_of_less tree [] before after fits split
  refine Source.expectsOperand_of_word name.text_ne_nil
    (fun c member => isAsciiWord_of_isNamePart (name.isNamePart_of_mem member)) ?_ ?_
  · intro member
    exact name.free (List.mem_append_left _ (List.mem_append_left _ member))
  · rw [← Bool.not_eq_true, Option.any_eq_true] at apart ⊢
    exact fun ⟨c, isLast, ascii⟩ => apart ⟨c, isLast, Pattern.continuesName_of_isAsciiWord ascii⟩

/-! ## The innermost groups -/

/-- A name that goes on from a mark ends before angle brackets open. -/
theorem not_angle_behind_word {following word rest : Text} {c : Char}
    (continuesFirst : Character.continuesName c = true) (fits : tree.Fits (some c))
    (calm : Calm following) (continues : ∀ d ∈ word, Character.continuesName d = true) :
    tree.written ++ following ≠ word ++ '<' :: rest := by
  intro split
  induction tree generalizing word c with
  | nil =>
      cases word with
      | nil =>
          obtain ⟨_, notLess⟩ := calm '<' (by rw [show following = _ from split]; rfl)
          exact notLess rfl
      | cons d word =>
          obtain ⟨stops, _⟩ := calm d (by rw [show following = _ from split]; rfl)
          rw [continues d List.mem_cons_self] at stops
          contradiction
  | mark d after inductionHypothesis =>
      obtain ⟨notLess, _, fitsAfter⟩ := fits
      cases word with
      | nil => exact notLess (List.cons.inj split).1
      | cons e word =>
          obtain ⟨rfl, later⟩ := List.cons.inj split
          exact inductionHypothesis (continues d List.mem_cons_self) fitsAfter
            (fun e member => continues e (List.mem_cons_of_mem d member)) later
  | group name inner after _ _ =>
      have apart := fits.1
      rw [Option.any_some, continuesFirst] at apart
      contradiction

/-- The first angle bracket of a text with groups and without arrows opens a group. -/
theorem exists_less_of_groups {previous : Option Char} (fits : tree.Fits previous)
    (noGreater : '>' ∉ tree.bare) (nested : tree.groups ≠ 0) :
    ∃ before after, tree.written = before ++ '<' :: after ∧ ∀ c ∈ before, c ≠ '<' ∧ c ≠ '>' := by
  induction tree generalizing previous with
  | nil => exact absurd rfl nested
  | mark c after inductionHypothesis =>
      obtain ⟨notLess, _, fitsAfter⟩ := fits
      obtain ⟨notGreater, noGreaterAfter⟩ : '>' ≠ c ∧ '>' ∉ after.bare := by
        simpa [bare] using noGreater
      obtain ⟨before, behind, split, apart⟩ := inductionHypothesis fitsAfter noGreaterAfter nested
      refine ⟨c :: before, behind, congrArg (c :: ·) split, fun d member => ?_⟩
      rcases List.mem_cons.mp member with rfl | isLater
      · exact ⟨notLess, notGreater.symm⟩
      · exact apart d isLater
  | group name inner after _ _ =>
      refine ⟨name.text, _, rfl, fun c member => ?_⟩
      have part := name.isNamePart_of_mem member
      exact ⟨ne_of_isNamePart part _ (by decide), ne_of_isNamePart part _ (by decide)⟩

theorem not_mem_less {previous : Option Char} (fits : tree.Fits previous) : '<' ∉ tree.bare := by
  induction tree generalizing previous with
  | nil => exact List.not_mem_nil
  | mark c after inductionHypothesis =>
      obtain ⟨notLess, _, fitsAfter⟩ := fits
      simpa [bare, Ne.symm notLess] using inductionHypothesis fitsAfter
  | group name inner after _ afterHypothesis =>
      obtain ⟨_, _, _, _, fitsAfter⟩ := fits
      have notInName : '<' ∉ name.text := name.not_mem (by decide)
      simpa [bare, notInName] using afterHypothesis fitsAfter

/-- No type arguments are read at a mark. -/
theorem silent_mark {c : Char} {after : Angled} {passed following : Text}
    (fits : after.Fits (some c)) (calm : Calm following) :
    typeArguments.Silent passed [c] (after.written ++ following) := by
  refine Pattern.silent_singleton fun next reads => ?_
  obtain ⟨word, inner, readsHere⟩ := exists_readsArguments reads
  obtain ⟨first, rest, rfl, starts⟩ := readsHere.isName
  obtain ⟨rfl, later⟩ : c = first ∧
      after.written ++ following = rest ++ '<' :: (inner ++ '>' :: next.ahead) := by
    simpa [Cursor.between] using readsHere.passes.ahead_eq
  exact not_angle_behind_word (Pattern.continuesName_of_startsName starts) fits calm
    (fun d member => readsHere.continues d (List.mem_cons_of_mem c member)) later

theorem dropWhile_append_cons {accepts : Char -> Bool} {word rest : Text} {c : Char}
    (accepted : ∀ d ∈ word, accepts d = true) (stops : accepts c = false) :
    (word ++ c :: rest).dropWhile accepts = c :: rest := by
  rw [List.dropWhile_append_of_pos accepted, List.dropWhile_cons_of_neg (by simp [stops])]

/-- No type arguments are read at the name of a group that holds further groups. -/
theorem silent_group {name : Name} {inner : Angled} {passed following : Text}
    (fits : inner.Fits (some '<')) (noGreater : '>' ∉ inner.bare) (nested : inner.groups ≠ 0) :
    typeArguments.Silent passed (name.text ++ ['<']) (inner.written ++ following) := by
  intro more rest split nonempty next reads
  obtain ⟨word, contents, readsHere⟩ := exists_readsArguments reads
  obtain ⟨before, after, isInner, apart⟩ := exists_less_of_groups fits noGreater nested
  cases more with
  | nil =>
      obtain rfl : name.text ++ ['<'] = rest := split
      have same := readsHere.passes.ahead_eq
      have whole : name.text ++ '<' :: (inner.written ++ following) =
          word ++ '<' :: (contents ++ '>' :: next.ahead) := by
        simpa [Cursor.between] using same
      obtain ⟨_, sameTail⟩ := Pattern.append_cons_inj (name.not_mem (by decide))
        (not_mem_of_continues readsHere.continues (by decide)) whole
      rw [isInner, List.append_assoc, List.cons_append] at sameTail
      have firstAngle := congrArg (List.dropWhile fun c => c != '<' && c != '>') sameTail
      rw [dropWhile_append_cons (fun c member => by simp [apart c member]) (by decide),
        dropWhile_append_cons (fun c member => ?_) (by decide)] at firstAngle
      · exact absurd (List.cons.inj firstAngle).1 (by decide)
      · have notLess : c ≠ '<' := fun same => readsHere.innermost.1 (same ▸ member)
        have notGreater : c ≠ '>' := fun same => readsHere.innermost.2 (same ▸ member)
        simp [notLess, notGreater]
  | cons d more =>
      obtain ⟨beyond, last, rfl⟩ := (List.eq_nil_or_concat rest).resolve_left nonempty
      have inName : d :: more ++ beyond = name.text := by
        have same : name.text ++ ['<'] = (d :: more ++ beyond) ++ [last] := by simpa using split
        exact (List.append_inj_left' same rfl).symm
      have isLast : (passed ++ d :: more).getLast? = some ((d :: more).getLast (List.cons_ne_nil d more)) := by
        rw [List.getLast?_append, List.getLast?_eq_some_getLast (List.cons_ne_nil d more), Option.some_or]
      have part := name.isNamePart_of_mem
        (inName ▸ List.mem_append_left _ (List.getLast_mem (List.cons_ne_nil d more)))
      have ends := readsHere.apart
      rw [show (Cursor.between (passed ++ d :: more) _).previous = _ from isLast, Option.any_some,
        continuesName_of_isNamePart part] at ends
      contradiction

/-- A group that holds no further one is a list of type arguments. -/
theorem isTypeArgumentList_group {name : Name} {passed inner following : Text} {found : Match}
    (isArguments : IsArguments inner) (calm : Calm following)
    (stop : found.stop = passed.length + (name.text ++ '<' :: (inner ++ ['>'])).length)
    (nameSpan : found.span? 1 = some ⟨passed.length, passed.length + name.text.length⟩)
    (innerSpan : found.span? 2 = some ⟨passed.length + name.text.length + 1,
      passed.length + name.text.length + 1 + inner.length⟩) :
    isTypeArgumentList (passed ++ (name.text ++ '<' :: (inner ++ '>' :: following))) found = true := by
  refine (isTypeArgumentList_iff stop nameSpan innerSpan).mpr
    ⟨fun member => ?_, isArguments.starts, isArguments.noOperators, calm⟩
  exact name.free (List.mem_append_left _ (List.mem_append_right _ (List.mem_append_left _ member)))

/-- The deletions of the type arguments that were found. -/
def argumentDeletions (masked : Text) (matches_ : List Match) : List Edit :=
  (matches_.filter (isTypeArgumentList masked)).filterMap fun found =>
    (found.span? 2).map fun inner => Edit.deletion (inner.start - 1) found.stop

theorem argumentDeletions_append (masked : Text) (first second : List Match) :
    argumentDeletions masked (first ++ second) =
      argumentDeletions masked first ++ argumentDeletions masked second := by
  rw [argumentDeletions, List.filter_append, List.filterMap_append]
  rfl

/-- Whether a search through some pieces finds the type arguments that are dropped, given what stands around
them. -/
def FindsDropped (passed following : Text) (pieces : List Piece) : Prop :=
  ∃ matches_, typeArguments.Finds passed (Piece.source pieces) following matches_ ∧
    argumentDeletions (passed ++ (Piece.source pieces ++ following)) matches_ =
      Piece.deletions passed.length pieces

theorem FindsDropped.append {passed following : Text} {first second : List Piece}
    (findsFirst : FindsDropped passed (Piece.source second ++ following) first)
    (findsSecond : FindsDropped (passed ++ Piece.source first) following second) :
    FindsDropped passed following (first ++ second) := by
  obtain ⟨earlier, finds, deletions⟩ := findsFirst
  obtain ⟨later, findsLater, deletionsLater⟩ := findsSecond
  rw [List.append_assoc] at deletionsLater
  refine ⟨earlier ++ later, Piece.source_append first second ▸ finds.append findsLater, ?_⟩
  rw [Piece.source_append, List.append_assoc, argumentDeletions_append, deletions, deletionsLater,
    Piece.deletions_append, List.length_append]

theorem findsDropped_keep {passed text following : Text} (silent : typeArguments.Silent passed text following) :
    FindsDropped passed following [Piece.keep text] := by
  refine ⟨[], ?_, rfl⟩
  rw [Piece.source_keep, Piece.source_nil, List.append_nil]
  exact .of_silent silent

/-- A search finds a group that holds no further one. -/
theorem findsDropped_innermost {name : Name} {passed inner following : Text}
    (apart : passed.getLast?.any Character.continuesName = false) (isArguments : IsArguments inner)
    (noLess : '<' ∉ inner) (calm : Calm following) :
    FindsDropped passed following [Piece.keep name.text, Piece.drop ('<' :: (inner ++ ['>']))] := by
  obtain ⟨found, foundHere, stop, nameSpan, innerSpan⟩ :=
    @find_typeArguments passed following inner name.first name.rest
      (startsName_of_isNameStart name.starts)
      (fun c member => continuesName_of_isNamePart (name.parts c member)) apart
      ⟨noLess, isArguments.noGreater⟩
  change found.stop = passed.length + (name.text ++ '<' :: (inner ++ ['>'])).length at stop
  have isSource : Piece.source [Piece.keep name.text, Piece.drop ('<' :: (inner ++ ['>']))] =
      name.text ++ '<' :: (inner ++ ['>']) := by simp [Piece.source, Piece.keep, Piece.drop]
  refine ⟨[found], ?_, ?_⟩ <;> rw [isSource]
  · refine .of_find ?_ (List.append_ne_nil_of_right_ne_nil _ (List.cons_ne_nil _ _)) stop
    simpa [Name.text] using foundHere
  · have isList := isTypeArgumentList_group isArguments calm stop nameSpan innerSpan
    have isDeletion : (found.span? 2).map (fun inner => Edit.deletion (inner.start - 1) found.stop) =
        some (Edit.deletion (passed.length + name.text.length)
          (passed.length + name.text.length + ('<' :: (inner ++ ['>'])).length)) := by
      rw [innerSpan, stop, List.length_append, ← Nat.add_assoc]
      rfl
    have isWhole : name.text ++ '<' :: (inner ++ ['>']) ++ following =
        name.text ++ '<' :: (inner ++ '>' :: following) := by simp
    rw [argumentDeletions, isWhole, List.filter_cons_of_pos isList]
    simp only [List.filter_nil, List.filterMap_cons, isDeletion, List.filterMap_nil]
    rfl

theorem silent_greater (passed following : Text) : typeArguments.Silent passed ['>'] following :=
  Pattern.silent_of_mayBegin rfl (List.forall_mem_singleton.mpr rfl)

theorem calm_written_append {following : Text} (calm : Calm following) (calmAfter : Calm tree.written) :
    Calm (tree.written ++ following) := by
  cases isWritten : tree.written with
  | nil => exact calm
  | cons c rest => exact fun d isHead => calmAfter d (by rw [isWritten]; exact isHead)

/-- A search through a tree finds its innermost groups. -/
theorem findsDropped_pieces {passed following : Text} (fits : tree.Fits passed.getLast?)
    (calm : Calm following) : FindsDropped passed following tree.pieces := by
  induction tree generalizing passed following with
  | nil => exact ⟨[], fun _ => by simp [pieces], rfl⟩
  | mark c after inductionHypothesis =>
      obtain ⟨_, _, fitsAfter⟩ := fits
      have fitsHere : after.Fits (passed ++ [c]).getLast? := by rwa [List.getLast?_concat]
      have findsMark : FindsDropped passed (Piece.source after.pieces ++ following) [Piece.keep [c]] :=
        findsDropped_keep (source_pieces after ▸ silent_mark fitsAfter calm)
      exact findsMark.append (by simpa using inductionHypothesis fitsHere calm)
  | group name inner after innerHypothesis afterHypothesis =>
      obtain ⟨apart, isArguments, fitsInner, calmAfter, fitsAfter⟩ := fits
      rw [pieces]
      split
      next innermost =>
        have noLess := not_mem_less fitsInner
        rw [← written_eq_bare innermost] at isArguments noLess
        have findsGroup : FindsDropped passed (Piece.source after.pieces ++ following)
            [Piece.keep name.text, Piece.drop ('<' :: (inner.written ++ ['>']))] :=
          findsDropped_innermost apart isArguments noLess (source_pieces after ▸ calm_written_append calm calmAfter)
        have fitsHere : after.Fits (passed ++ (name.text ++ '<' :: (inner.written ++ ['>']))).getLast? := by
          rwa [← List.cons_append, ← List.append_assoc, ← List.append_assoc, List.getLast?_concat]
        exact findsGroup.append (by simpa [Piece.source, Piece.keep, Piece.drop] using afterHypothesis fitsHere calm)
      next holdsMore =>
        have fitsWithin : inner.Fits (passed ++ (name.text ++ ['<'])).getLast? := by
          rwa [← List.append_assoc, List.getLast?_concat]
        have calmWithin : Calm ('>' :: (after.written ++ following)) := by
          intro c isHead
          obtain rfl := Option.some.inj isHead
          decide
        have fitsBehind : after.Fits
            (passed ++ (name.text ++ ['<']) ++ inner.written ++ ['>']).getLast? := by
          rwa [List.getLast?_concat]
        have findsOpen := findsDropped_keep (@silent_group name inner passed
          ('>' :: (after.written ++ following)) fitsInner isArguments.noGreater holdsMore)
        have findsWithin := innerHypothesis fitsWithin calmWithin
        have findsClose := findsDropped_keep
          (silent_greater (passed ++ (name.text ++ ['<']) ++ inner.written) (after.written ++ following))
        have findsBehind := afterHypothesis fitsBehind calm
        have findsTail : FindsDropped (passed ++ (name.text ++ ['<'])) following
            (inner.pieces ++ ([Piece.keep ['>']] ++ after.pieces)) :=
          .append (by simpa [source_pieces] using findsWithin)
            (.append (by simpa [source_pieces] using findsClose) (by simpa [source_pieces] using findsBehind))
        have findsAll : FindsDropped passed following
            ([Piece.keep (name.text ++ ['<'])] ++ (inner.pieces ++ ([Piece.keep ['>']] ++ after.pieces))) :=
          .append (by simpa [source_pieces] using findsOpen) (by simpa using findsTail)
        exact findsAll

/-! ## The pass -/

/-- No type parameter of an arrow function stands in a tree. -/
theorem all_arrowTypeParameters (fits : tree.Fits none) :
    arrowTypeParameters.all tree.written = [] := by
  refine List.eq_nil_iff_forall_not_mem.mpr fun found member => ?_
  obtain ⟨before, blanks, beyond, split, areBlank⟩ := exists_equals_of_mem_arrowTypeParameters member
  rw [← List.cons_append, ← List.append_assoc] at split
  obtain ⟨earlier, name, isName, _⟩ := @exists_name_of_less tree [] _ _ fits split
  obtain ⟨last, isLast, part⟩ := name.exists_getLast?
  have lastOfAll := congrArg List.getLast? isName
  rw [List.nil_append, List.getLast?_append_cons, List.getLast?_append, isLast, Option.some_or] at lastOfAll
  rcases List.mem_cons.mp (List.mem_of_getLast? lastOfAll) with rfl | isIn
  · exact ne_of_isNamePart part '=' (by decide) rfl
  · have noWord := Character.isWord_of_isBlank (areBlank last isIn)
    rw [isWord_of_isNamePart part] at noWord
    contradiction

theorem typeArgumentEdits_written (fits : tree.Fits none) :
    typeArgumentEdits tree.written = Piece.deletions 0 tree.pieces := by
  have calm : Calm [] := fun c isHead => by simp at isHead
  obtain ⟨matches_, finds, deletions⟩ := @findsDropped_pieces tree [] [] fits calm
  rw [source_pieces] at finds deletions
  have atEnd : ∀ next, ¬typeArguments.Reads (Cursor.between tree.written []) next := by
    intro next reads
    obtain ⟨word, inner, readsHere⟩ := exists_readsArguments reads
    exact absurd readsHere.passes.ahead_eq (by simp [Cursor.between])
  have edits : typeArgumentEdits tree.written =
      argumentDeletions tree.written (typeArguments.all tree.written) ++
        (arrowTypeParameters.all tree.written).filterMap fun found =>
          (found.span? 1).map fun lead => Edit.deletion lead.stop found.stop := rfl
  rw [edits, all_arrowTypeParameters fits, finds.all_eq atEnd, List.filterMap_nil, List.append_nil]
  simpa using deletions

/-- A round of the pass deletes the innermost groups. -/
theorem editOnce_written (fits : tree.Fits none) :
    editOnce typeArgumentEdits tree.written = tree.peel.written := by
  have applied := @Edit.applyAll_pieces (typeArgumentEdits tree.written) tree.pieces
    text_ne_nil_of_mem_pieces (by rw [typeArgumentEdits_written fits]; exact Edit.Covers.refl _)
  rw [editOnce, mask_written fits, ← remainder_pieces, ← applied, source_pieces]

/-- The pass deletes all type arguments. -/
theorem editUntilSettled_written (fits : tree.Fits none) :
    editUntilSettled typeArgumentEdits tree.written = tree.bare := by
  have deletes := @sublist_editOnce typeArgumentEdits (by simp [passes])
  induction rounds : tree.groups using Nat.strong_induction_on generalizing tree with
  | _ rounds inductionHypothesis =>
      by_cases none : tree.groups = 0
      · have noneLeft : tree.peel.groups = 0 := Nat.le_zero.mp (none ▸ groups_peel_le tree)
        have settled : editOnce typeArgumentEdits tree.written = tree.written := by
          rw [editOnce_written fits, written_eq_bare noneLeft, bare_peel, written_eq_bare none]
        rw [(editUntilSettled_eq_self_iff deletes).mpr settled, written_eq_bare none]
      · have fewer := groups_peel_lt none
        rw [← editUntilSettled_editOnce deletes, editOnce_written fits,
          inductionHypothesis _ (rounds ▸ fewer) (fits_peel fits) rfl, bare_peel]

end Angled

end SceneBundler.Typed
