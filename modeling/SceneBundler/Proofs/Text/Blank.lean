import Mathlib.Data.List.TakeWhile
import SceneBundler.Text.Basic
import SceneBundler.Text.CharacterClass

/-!
Contract: kinds of characters, blank texts and the words between blanks.

Owns:
- that ASCII letters and digits are ASCII characters, and word characters;
- the list of all blank characters, by which a decidable property of them can be checked;
- that no blank continues a name or is a mark of any kind;
- trimming in front of and behind a text;
- whether a text begins with a word that is not part of a longer one, and that text which begins with a
  blank, if with anything, changes no word in front of it;
- the words of a word before a blank, and of a text with blanks at its end.

Does not own: letters of other scripts, and which words mean anything.
-/

namespace SceneBundler.Character

theorem isAlpha_of_isLower {c : Char} (lower : c.isLower = true) : c.isAlpha = true :=
  Bool.or_eq_true_iff.mpr (Or.inr lower)

theorem toNat_of_isAlphanum {c : Char} (letterOrDigit : c.isAlphanum = true) : c.toNat ≤ 122 := by
  have last {first last : UInt32} (bounds : (decide (c.val ≥ first) && decide (c.val ≤ last)) = true) :
      c.val ≤ last :=
    of_decide_eq_true (Bool.and_eq_true_iff.mp bounds).2
  rcases Bool.or_eq_true_iff.mp letterOrDigit with letter | digit
  · rcases Bool.or_eq_true_iff.mp letter with upper | lower
    · have bounds : c.val ≥ 'A'.val ∧ c.val ≤ 'Z'.val := of_decide_eq_true upper
      exact Nat.le_trans bounds.2 (by decide)
    · exact @last 'a'.val 'z'.val lower
  · exact Nat.le_trans (@last '0'.val '9'.val digit) (by decide)

theorem isAlphanum_of_isAlpha {c : Char} (letter : c.isAlpha = true) : c.isAlphanum = true :=
  Bool.or_eq_true_iff.mpr (Or.inl letter)

theorem isAlphanum_of_isDigit {c : Char} (digit : c.isDigit = true) : c.isAlphanum = true :=
  Bool.or_eq_true_iff.mpr (Or.inr digit)

theorem isWord_of_isAlphanum {c : Char} (letterOrDigit : c.isAlphanum = true) : isWord c = true := by
  have small : c.toNat < 0x80 := Nat.lt_of_le_of_lt (toNat_of_isAlphanum letterOrDigit) (by decide)
  rw [isWord, if_pos small, letterOrDigit, Bool.true_or]

end SceneBundler.Character

namespace SceneBundler

namespace Character

/-- Every blank character. -/
def blankCharacters : List Char :=
  [0x09, 0x0a, 0x0b, 0x0c, 0x0d, 0x1c, 0x1d, 0x1e, 0x1f, 0x20, 0x85, 0xa0, 0x1680, 0x2000, 0x2001,
    0x2002, 0x2003, 0x2004, 0x2005, 0x2006, 0x2007, 0x2008, 0x2009, 0x200a, 0x2028, 0x2029, 0x202f,
    0x205f, 0x3000].map Char.ofNat

theorem mem_blankCharacters {c : Char} (blank : isBlank c = true) : c ∈ blankCharacters := by
  have code : c.toNat ∈ [0x09, 0x0a, 0x0b, 0x0c, 0x0d, 0x1c, 0x1d, 0x1e, 0x1f, 0x20, 0x85, 0xa0,
      0x1680, 0x2000, 0x2001, 0x2002, 0x2003, 0x2004, 0x2005, 0x2006, 0x2007, 0x2008, 0x2009,
      0x200a, 0x2028, 0x2029, 0x202f, 0x205f, 0x3000] := by
    simp only [List.mem_cons, List.not_mem_nil, or_false]
    unfold isBlank at blank
    dsimp only at blank
    split at blank <;>
      simp only [Bool.or_eq_true, Bool.and_eq_true, beq_iff_eq, decide_eq_true_eq] at blank <;>
      omega
  rw [← Char.ofNat_toNat c]
  exact List.mem_map_of_mem code

/-- A property of every blank character on the list is one of every blank character. -/
theorem of_isBlank (test : Char -> Bool) (every : blankCharacters.all test = true) {c : Char}
    (blank : isBlank c = true) : test c = true :=
  List.all_eq_true.mp every c (mem_blankCharacters blank)

theorem isWord_of_isBlank {c : Char} (blank : isBlank c = true) : isWord c = false := by
  simpa using of_isBlank (fun c => !isWord c) (by decide +kernel) blank

theorem isAsciiWord_of_isBlank {c : Char} (blank : isBlank c = true) : isAsciiWord c = false := by
  simpa using of_isBlank (fun c => !isAsciiWord c) (by decide) blank

theorem isBlank_of_isIndent {c : Char} (isIndent : Text.isIndent c = true) : isBlank c = true := by
  simp only [Text.isIndent, Bool.or_eq_true, beq_iff_eq] at isIndent
  rcases isIndent with rfl | rfl <;> decide

/-- No blank is a character that is known not to be one. -/
theorem ne_of_isBlank {c d : Char} (blank : isBlank c = true) (visible : isBlank d = false) :
    c ≠ d := by
  intro same
  rw [same, visible] at blank
  contradiction

theorem continuesName_of_isBlank {c : Char} (blank : isBlank c = true) :
    continuesName c = false := by
  rw [continuesName, isWord_of_isBlank blank, Bool.false_or, beq_eq_false_iff_ne]
  exact ne_of_isBlank blank (by decide)

theorem startsName_of_isBlank {c : Char} (blank : isBlank c = true) : startsName c = false := by
  simpa using of_isBlank (fun c => !startsName c) (by decide) blank

end Character

namespace Text

theorem isBlank_iff {text : Text} : Text.isBlank text = true ↔ ∀ c ∈ text, Character.isBlank c = true :=
  List.all_eq_true

theorem dropWhile_of_head? {accepts : Char -> Bool} {text : Text} (stops : text.head?.any accepts = false) :
    text.dropWhile accepts = text := by
  cases text with
  | nil => rfl
  | cons c rest => exact List.dropWhile_cons_of_neg (by simpa using stops)

/-- What is behind a stretch of a class, where the class ends with it. -/
theorem behind_stretch {accepts : Char -> Bool} {first second rest others : Text}
    (areFirst : ∀ c ∈ first, accepts c = true) (areSecond : ∀ c ∈ second, accepts c = true)
    (ends : rest.head?.any accepts = false) (endsToo : others.head?.any accepts = false)
    (same : first ++ rest = second ++ others) : rest = others := by
  have dropped := congrArg (List.dropWhile accepts) same
  rwa [List.dropWhile_append_of_pos areFirst, List.dropWhile_append_of_pos areSecond, dropWhile_of_head? ends,
    dropWhile_of_head? endsToo] at dropped

/-- What a check of every character of a text finds holds of each of them. -/
theorem forall_mem_of_all {holds : Char -> Prop} [DecidablePred holds] {text : Text}
    (every : text.all (fun c => decide (holds c)) = true) : ∀ c ∈ text, holds c :=
  fun c member => of_decide_eq_true (List.all_eq_true.mp every c member)

theorem exists_not_mem_of_any {word text : Text} (any : (word.any fun c => !text.contains c) = true) :
    ∃ c ∈ word, c ∉ text := by
  obtain ⟨c, member, absent⟩ := List.any_eq_true.mp any
  exact ⟨c, member, by simpa using absent⟩

theorem trimStart_of_isBlank {text : Text} (blank : Text.isBlank text = true) :
    trimStart text = [] :=
  List.dropWhile_eq_nil_iff.mpr (isBlank_iff.mp blank)

theorem trimStart_append_of_isBlank {text : Text} (blank : Text.isBlank text = true)
    (following : Text) : trimStart (text ++ following) = trimStart following := by
  rw [trimStart, List.dropWhile_append, List.dropWhile_eq_nil_iff.mpr (isBlank_iff.mp blank)]
  simp [trimStart]

theorem trimStart_append_of_not_isBlank {text : Text} (visible : Text.isBlank text = false)
    (following : Text) : trimStart (text ++ following) = trimStart text ++ following := by
  have some : trimStart text ≠ [] := by
    intro none
    rw [Text.isBlank, List.all_eq_true.mpr (List.dropWhile_eq_nil_iff.mp none)] at visible
    contradiction
  rw [trimStart, List.dropWhile_append, if_neg (by simpa [trimStart] using some)]
  rfl

/-- A text is what trimming leaves of its end, and then blanks. -/
theorem trimEnd_append (text : Text) :
    ∃ blanks, Text.isBlank blanks = true ∧ text = trimEnd text ++ blanks := by
  refine ⟨(text.reverse.takeWhile Character.isBlank).reverse, ?_, ?_⟩
  · rw [isBlank_iff]
    intro c member
    exact List.all_eq_true.mp List.all_takeWhile c (List.mem_reverse.mp member)
  · rw [trimEnd, ← List.reverse_append, List.takeWhile_append_dropWhile, List.reverse_reverse]

/-- Blanks behind a visible character are trimmed. -/
theorem trimEnd_append_of_visible {text blanks : Text} {c : Char} (isLast : text.getLast? = some c)
    (visible : Character.isBlank c = false) (blank : Text.isBlank blanks = true) :
    trimEnd (text ++ blanks) = text := by
  obtain ⟨others, rfl⟩ := List.getLast?_eq_some_iff.mp isLast
  have skipped : (blanks.reverse ++ (others ++ [c]).reverse).dropWhile Character.isBlank =
      (others ++ [c]).reverse := by
    rw [List.dropWhile_append_of_pos fun d member => isBlank_iff.mp blank d (List.mem_reverse.mp member),
      List.reverse_concat, List.dropWhile_cons_of_neg (by simp [visible])]
  rw [trimEnd, List.reverse_append, skipped, List.reverse_reverse]

/-- Blanks around a text that begins and ends with visible characters are trimmed. -/
theorem trim_around {before word after : Text} (blankBefore : Text.isBlank before = true)
    (blankAfter : Text.isBlank after = true) (starts : ∀ c ∈ word.head?, Character.isBlank c = false)
    (ends : ∀ c ∈ word.getLast?, Character.isBlank c = false) :
    trim (before ++ (word ++ after)) = word := by
  cases isLast : word.getLast? with
  | none =>
      obtain rfl := List.getLast?_eq_none_iff.mp isLast
      rw [List.nil_append, trim, trimStart_append_of_isBlank blankBefore, trimStart_of_isBlank blankAfter]
      rfl
  | some last =>
      obtain ⟨first, rest, rfl⟩ : ∃ first rest, word = first :: rest := by
        cases word with
        | nil => simp at isLast
        | cons first rest => exact ⟨first, rest, rfl⟩
      have visible := starts first rfl
      have begins : trimStart (first :: rest ++ after) = first :: rest ++ after := by
        rw [trimStart, List.cons_append, List.dropWhile_cons_of_neg (by simp [visible])]
      rw [trim, trimStart_append_of_isBlank blankBefore, begins]
      exact trimEnd_append_of_visible isLast (ends last isLast) blankAfter

theorem exists_blanks_trim (text : Text) : ∃ before after : Text,
    Text.isBlank before = true ∧ Text.isBlank after = true ∧ text = before ++ (trim text ++ after) := by
  obtain ⟨after, blank, split⟩ := trimEnd_append (trimStart text)
  refine ⟨text.takeWhile Character.isBlank, after, ?_, blank, ?_⟩
  · exact Text.isBlank_iff.mpr fun c member => List.all_eq_true.mp List.all_takeWhile c member
  · rw [trim, ← split]
    exact List.takeWhile_append_dropWhile.symm

/-- Text that begins with a blank, if with anything, puts no visible mark in front. -/
theorem head?_append_eq_mark {following : Text}
    (blankFirst : ∀ c ∈ following.head?, Character.isBlank c = true) (ahead : Text) (mark : Char)
    (visible : Character.isBlank mark = false) :
    ((ahead ++ following).head? == some mark) = (ahead.head? == some mark) := by
  cases ahead with
  | cons c rest => rfl
  | nil =>
      cases following with
      | nil => rfl
      | cons c rest =>
          have different := Character.ne_of_isBlank (blankFirst c rfl) visible
          simpa using different

/-! ## Words -/

open Character (continuesName)

/-- Whether a text begins with a word that no character of a name follows. -/
def startsWord (word text : Text) : Bool :=
  word.isPrefixOf text && !(text.drop word.length).head?.any continuesName

section Behind

variable {following : Text}

theorem isPrefixOf_append (blankFirst : ∀ c ∈ following.head?, Character.isBlank c = true)
    {word : Text} (visible : ∀ c ∈ word, Character.isBlank c = false) (text : Text) :
    word.isPrefixOf (text ++ following) = word.isPrefixOf text := by
  induction word generalizing text with
  | nil => simp
  | cons d word inductionHypothesis =>
      cases text with
      | cons c rest =>
          have later := inductionHypothesis
            (fun c member => visible c (List.mem_cons_of_mem d member)) rest
          rw [List.cons_append, List.isPrefixOf_cons_cons, List.isPrefixOf_cons_cons, later]
      | nil =>
          cases following with
          | nil => rfl
          | cons c rest =>
              have different := Character.ne_of_isBlank (blankFirst c rfl)
                (visible d List.mem_cons_self)
              simp [List.isPrefixOf_cons_cons, different.symm]

theorem startsWord_append (blankFirst : ∀ c ∈ following.head?, Character.isBlank c = true)
    {word : Text} (visible : ∀ c ∈ word, Character.isBlank c = false) (text : Text) :
    startsWord word (text ++ following) = startsWord word text := by
  unfold startsWord
  rw [isPrefixOf_append blankFirst visible]
  cases isPrefix : word.isPrefixOf text with
  | false => rfl
  | true =>
      have fits := (List.isPrefixOf_iff_prefix.mp isPrefix).length_le
      rw [List.drop_append_of_le_length fits]
      cases rest : text.drop word.length with
      | cons c beyond => rfl
      | nil =>
          cases following with
          | nil => rfl
          | cons c beyond => simp [Character.continuesName_of_isBlank (blankFirst c rfl)]

/-- Text that does not begin with a word after its blanks does not bring the word to the blanks in
front of it. -/
theorem startsWord_trimStart_append (blankFirst : ∀ c ∈ following.head?, Character.isBlank c = true)
    {word : Text} (visible : ∀ c ∈ word, Character.isBlank c = false) (isWord : word ≠ [])
    (starts : startsWord word (trimStart following) = false) (text : Text) :
    startsWord word (trimStart (text ++ following)) = startsWord word (trimStart text) := by
  cases blank : Text.isBlank text with
  | false =>
      rw [trimStart_append_of_not_isBlank blank, startsWord_append blankFirst visible]
  | true =>
      rw [trimStart_append_of_isBlank blank, trimStart_of_isBlank blank, starts]
      cases word with
      | nil => exact absurd rfl isWord
      | cons c rest => rfl

end Behind

/-! ## Words between blanks -/

/-- The stretches between the blanks of a text, the empty ones included. -/
def pieces (text : Text) : List Text :=
  text.foldr
    (fun c pieces =>
      if Character.isBlank c then [] :: pieces
      else
        match pieces with
        | piece :: rest => (c :: piece) :: rest
        | [] => [[c]])
    [[]]

theorem words_eq (text : Text) : words text = (pieces text).filter (! ·.isEmpty) :=
  rfl

theorem pieces_cons_of_isBlank {c : Char} (blank : Character.isBlank c = true) (rest : Text) :
    pieces (c :: rest) = [] :: pieces rest := by
  rw [pieces, List.foldr_cons, if_pos blank]
  rfl

theorem pieces_cons_of_eq {c : Char} (visible : Character.isBlank c = false) {rest piece : Text}
    {others : List Text} (same : pieces rest = piece :: others) :
    pieces (c :: rest) = (c :: piece) :: others := by
  rw [pieces, List.foldr_cons, ← pieces, same, visible]
  rfl

theorem exists_pieces_eq (text : Text) : ∃ piece others, pieces text = piece :: others := by
  induction text with
  | nil => exact ⟨[], [], rfl⟩
  | cons c rest inductionHypothesis =>
      obtain ⟨piece, others, same⟩ := inductionHypothesis
      cases visible : Character.isBlank c with
      | true => exact ⟨_, _, pieces_cons_of_isBlank visible rest⟩
      | false => exact ⟨_, _, pieces_cons_of_eq visible same⟩

/-- A word before a blank is the first of the words. -/
theorem words_word {word : Text} (visible : ∀ c ∈ word, Character.isBlank c = false)
    (isWord : word ≠ []) {c : Char} (blank : Character.isBlank c = true) (rest : Text) :
    words (word ++ c :: rest) = word :: words rest := by
  have first : pieces (word ++ c :: rest) = word :: pieces rest := by
    clear isWord
    induction word with
    | nil => exact pieces_cons_of_isBlank blank rest
    | cons d word inductionHypothesis =>
        exact pieces_cons_of_eq (visible d List.mem_cons_self)
          (inductionHypothesis fun c member => visible c (List.mem_cons_of_mem d member))
  have isKept : (!word.isEmpty) = true := by simpa using isWord
  rw [words_eq, first, List.filter_cons, if_pos isKept, ← words_eq]

/-- Blanks at the end of a text add no word. -/
theorem words_append_of_isBlank {blanks : Text} (blank : Text.isBlank blanks = true) (text : Text) :
    words (text ++ blanks) = words text := by
  have more : pieces (text ++ blanks) = pieces text ++ List.replicate blanks.length [] := by
    induction text with
    | nil =>
        induction blanks with
        | nil => rfl
        | cons c rest inductionHypothesis =>
            simp only [Text.isBlank, List.all_cons, Bool.and_eq_true] at blank
            have restPieces := inductionHypothesis blank.2
            rw [List.nil_append] at restPieces ⊢
            rw [pieces_cons_of_isBlank blank.1, restPieces]
            rfl
    | cons c rest inductionHypothesis =>
        obtain ⟨piece, others, same⟩ := exists_pieces_eq rest
        rw [same] at inductionHypothesis
        rw [List.cons_append]
        cases visible : Character.isBlank c with
        | true =>
            rw [pieces_cons_of_isBlank visible, pieces_cons_of_isBlank visible, inductionHypothesis,
              same]
            rfl
        | false =>
            rw [pieces_cons_of_eq visible inductionHypothesis, pieces_cons_of_eq visible same]
            rfl
  have noWords : (List.replicate blanks.length ([] : Text)).filter (! ·.isEmpty) = [] := by
    rw [List.filter_eq_nil_iff]
    intro piece member
    rw [List.eq_of_mem_replicate member]
    decide
  rw [words_eq, more, List.filter_append, noWords, List.append_nil, words_eq]

end Text

end SceneBundler
