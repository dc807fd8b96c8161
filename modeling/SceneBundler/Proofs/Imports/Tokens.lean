import SceneBundler.Imports.Declared
import SceneBundler.Proofs.Imports.Clause
import SceneBundler.Proofs.Source.Appended
import SceneBundler.Proofs.Text.Ordered
import SceneBundler.Proofs.Text.Preferred

/-!
Contract: the names that a source declares, read off its words and marks.

Owns:
- texts as words and other characters, of which no two words are next to each other;
- which names the searches for declarations, for destructuring patterns and for the names in a pattern come
  to, as functions of the words and marks.

Does not own: which words and marks make up a program.
-/

namespace SceneBundler.Imports

open Character (isBlank isWord continuesName startsName)
open Cursor (noting)
open Pattern (literal char name blanks gap maybe wordBoundary anyOf capture oneOf)

/-! ## Words and marks -/

/-- A word of characters that names continue with, or another character. -/
inductive Token where
  | word (letters : Text)
  | mark (c : Char)
deriving DecidableEq, Repr

namespace Token

def text : Token -> Text
  | word letters => letters
  | mark c => [c]

def isWord : Token -> Bool
  | word _ => true
  | mark _ => false

def isBlank : Token -> Bool
  | word _ => false
  | mark c => Character.isBlank c

/-- Whether the characters of a token are of its kind. -/
def IsWell : Token -> Prop
  | word letters => letters ≠ [] ∧ ∀ c ∈ letters, continuesName c = true
  | mark c => continuesName c = false

end Token

/-- The text that tokens make up. -/
def spell (tokens : List Token) : Text :=
  tokens.flatMap Token.text

/-- Whether tokens are those of the text they make up: no word is followed by a word. -/
def AreTokens : List Token -> Prop
  | [] => True
  | token :: rest =>
      token.IsWell ∧ (token.isWord = true → rest.head?.any Token.isWord = false) ∧ AreTokens rest

instance (token : Token) : Decidable token.IsWell :=
  match token with
  | .word letters => decidable_of_iff ((!letters.isEmpty && letters.all continuesName) = true) (by simp [Token.IsWell])
  | .mark c => inferInstanceAs (Decidable (continuesName c = false))

instance decidableAreTokens : (tokens : List Token) -> Decidable (AreTokens tokens)
  | [] => isTrue trivial
  | token :: rest =>
      have := decidableAreTokens rest
      inferInstanceAs (Decidable (token.IsWell ∧ (token.isWord = true → rest.head?.any Token.isWord = false) ∧
        AreTokens rest))

section Spelling

variable {tokens first second : List Token}

theorem spell_cons (token : Token) (rest : List Token) : spell (token :: rest) = token.text ++ spell rest :=
  List.flatMap_cons

theorem spell_append (first second : List Token) : spell (first ++ second) = spell first ++ spell second :=
  List.flatMap_append

theorem AreTokens.of_append (are : AreTokens (first ++ second)) : AreTokens first ∧ AreTokens second := by
  induction first with
  | nil => exact ⟨trivial, are⟩
  | cons token rest inductionHypothesis =>
      obtain ⟨isWell, apart, areRest⟩ := are
      obtain ⟨areFirst, areSecond⟩ := inductionHypothesis areRest
      refine ⟨⟨isWell, fun word => ?_, areFirst⟩, areSecond⟩
      cases rest with
      | nil => rfl
      | cons next others => exact apart word

/-- The text of tokens that do not begin with a word does not go on with a name. -/
theorem AreTokens.any_head? (are : AreTokens tokens) (noWord : tokens.head?.any Token.isWord = false) :
    (spell tokens).head?.any continuesName = false := by
  cases tokens with
  | nil => rfl
  | cons token rest =>
      cases token with
      | word letters => exact nomatch noWord
      | mark c => exact are.1

/-- Blank tokens are those of which the blanks at the beginning of the text are made. -/
theorem AreTokens.spell_dropWhile (are : AreTokens tokens) :
    spell (tokens.dropWhile Token.isBlank) = (spell tokens).dropWhile isBlank := by
  induction tokens with
  | nil => rfl
  | cons token rest inductionHypothesis =>
      cases token with
      | mark c =>
          cases blank : isBlank c with
          | true =>
              rw [List.dropWhile_cons_of_pos (show (Token.mark c).isBlank = true from blank),
                inductionHypothesis are.2.2]
              exact (List.dropWhile_cons_of_pos blank).symm
          | false =>
              rw [List.dropWhile_cons_of_neg (by simpa [Token.isBlank] using blank)]
              exact (List.dropWhile_cons_of_neg (by simpa using blank)).symm
      | word letters =>
          obtain ⟨some, continues⟩ := are.1
          obtain ⟨c, others, rfl⟩ := List.exists_cons_of_ne_nil some
          have visible := Source.not_isBlank_of_continuesName (continues c List.mem_cons_self)
          rw [List.dropWhile_cons_of_neg (by simp [Token.isBlank])]
          exact (List.dropWhile_cons_of_neg (by simpa using visible)).symm

theorem exists_dropWhile_eq (tokens : List Token) :
    ∃ between : Text, (∀ c ∈ between, isBlank c = true) ∧
      tokens = between.map Token.mark ++ tokens.dropWhile Token.isBlank := by
  induction tokens with
  | nil => exact ⟨[], nofun, rfl⟩
  | cons token rest inductionHypothesis =>
      cases blank : token.isBlank with
      | false => exact ⟨[], nofun, (List.dropWhile_cons_of_neg (by simpa using blank)).symm⟩
      | true =>
          obtain ⟨between, areBlank, split⟩ := inductionHypothesis
          cases token with
          | word letters => exact nomatch blank
          | mark c =>
              refine ⟨c :: between, List.forall_mem_cons.mpr ⟨blank, areBlank⟩, ?_⟩
              rw [List.dropWhile_cons_of_pos blank, List.map_cons, List.cons_append, ← split]

theorem AreTokens.eq_nil (are : AreTokens tokens) (isNothing : spell tokens = []) : tokens = [] := by
  cases tokens with
  | nil => rfl
  | cons token rest =>
      cases token with
      | mark c => exact nomatch isNothing
      | word letters => exact absurd (List.append_eq_nil_iff.mp isNothing).1 are.1.1

theorem spell_marks (marks : Text) : spell (marks.map Token.mark) = marks := by
  induction marks with
  | nil => rfl
  | cons c rest inductionHypothesis => exact congrArg (c :: ·) inductionHypothesis

end Spelling

/-! ## What stands behind a keyword -/

/-- The tokens behind at least one blank and all those that follow it. -/
def gapAhead? : List Token -> Option (List Token)
  | .mark c :: rest => if isBlank c then some (rest.dropWhile Token.isBlank) else none
  | _ => none

/-- The name behind at least one blank, and the tokens behind the name. -/
def nameAhead? (tokens : List Token) : Option (Text × List Token) :=
  match gapAhead? tokens with
  | some (.word letters :: later) => if letters.head?.any startsName then some (letters, later) else none
  | _ => none

/-- The bracket that opens a pattern behind at least one blank, and the tokens behind the bracket. -/
def bracketAhead? (tokens : List Token) : Option (Char × List Token) :=
  match gapAhead? tokens with
  | some (.mark c :: later) => if c = '[' || c = '\x7b' then some (c, later) else none
  | _ => none

section Ahead

variable {tokens later : List Token}

theorem exists_of_gapAhead? (isAhead : gapAhead? tokens = some later) :
    ∃ between : Text, between ≠ [] ∧ (∀ c ∈ between, isBlank c = true) ∧
      tokens = between.map Token.mark ++ later := by
  match tokens with
  | .mark c :: rest =>
      rw [gapAhead?] at isAhead
      split at isAhead
      next blank =>
        obtain rfl := Option.some.inj isAhead
        obtain ⟨between, areBlank, split⟩ := exists_dropWhile_eq rest
        refine ⟨c :: between, List.cons_ne_nil _ _, List.forall_mem_cons.mpr ⟨blank, areBlank⟩, ?_⟩
        rw [List.map_cons, List.cons_append, ← split]
      next => contradiction
  | .word _ :: _ => exact nomatch isAhead
  | [] => exact nomatch isAhead

/-- Where the text goes on with blanks and then with something else, so do the tokens. -/
theorem exists_gapAhead?_eq (are : AreTokens tokens) {between tail : Text} (nonempty : between ≠ [])
    (blank : ∀ c ∈ between, isBlank c = true) (visible : tail.head?.any isBlank = false)
    (split : spell tokens = between ++ tail) : ∃ later, gapAhead? tokens = some later ∧ spell later = tail := by
  obtain ⟨c, others, rfl⟩ := List.exists_cons_of_ne_nil nonempty
  have blankHere := blank c List.mem_cons_self
  match tokens, are with
  | .mark d :: rest, are =>
      obtain ⟨rfl, isRest⟩ := List.cons_eq_cons.mp (split : d :: spell rest = c :: (others ++ tail))
      have same : spell rest = others ++ tail := isRest
      refine ⟨_, if_pos blankHere, ?_⟩
      rw [are.2.2.spell_dropWhile, same,
        List.dropWhile_append_of_pos fun e member => blank e (List.mem_cons_of_mem _ member)]
      exact Text.dropWhile_of_head? visible
  | .word (d :: letters) :: rest, are =>
      obtain ⟨rfl, -⟩ := List.cons_eq_cons.mp (split : d :: (letters ++ spell rest) = c :: (others ++ tail))
      have continues := are.1.2 d List.mem_cons_self
      rw [Character.continuesName_of_isBlank blankHere] at continues
      contradiction
  | .word [] :: rest, are => exact absurd rfl are.1.1

theorem length_gapAhead?_lt (isAhead : gapAhead? tokens = some later) : later.length < tokens.length := by
  obtain ⟨between, nonempty, -, rfl⟩ := exists_of_gapAhead? isAhead
  have positive := List.length_pos_iff.mpr nonempty
  rw [List.length_append, List.length_map]
  omega

theorem gapAhead?_of_nameAhead? {name : Text} (isAhead : nameAhead? tokens = some (name, later)) :
    gapAhead? tokens = some (.word name :: later) ∧ name.head?.any startsName = true := by
  unfold nameAhead? at isAhead
  split at isAhead
  next letters others isGap =>
    split at isAhead
    next starts =>
      obtain ⟨rfl, rfl⟩ := Prod.mk.injEq .. ▸ Option.some.inj isAhead
      exact ⟨isGap, starts⟩
    next => contradiction
  next => contradiction

theorem gapAhead?_of_bracketAhead? {c : Char} (isAhead : bracketAhead? tokens = some (c, later)) :
    gapAhead? tokens = some (.mark c :: later) ∧ (c = '[' ∨ c = '\x7b') := by
  unfold bracketAhead? at isAhead
  split at isAhead
  next d others isGap =>
    split at isAhead
    next isBracket =>
      obtain ⟨rfl, rfl⟩ := Prod.mk.injEq .. ▸ Option.some.inj isAhead
      exact ⟨isGap, by simpa using isBracket⟩
    next => contradiction
  next => contradiction

end Ahead

/-! ## What declarations bind -/

/-- The keywords of variable declarations. -/
def variableKeywords : List Text :=
  ["const".toList, "let".toList, "var".toList]

/-- The keywords of declarations. -/
def declarationKeywords : List Text :=
  "function".toList :: "class".toList :: variableKeywords

/-- What a word ends with behind its last dollar sign: a keyword is looked for there. -/
def lastPart (letters : Text) : Text :=
  (letters.reverse.takeWhile (· != '$')).reverse

/-- The tokens behind a keyword without the star that makes a function a generator. -/
def behindStar (keyword : Text) : List Token -> List Token
  | .mark '*' :: rest => if keyword = "function".toList then rest else .mark '*' :: rest
  | tokens => tokens

theorem behindStar_of_ne {keyword : Text} (notFunction : keyword ≠ "function".toList) (tokens : List Token) :
    behindStar keyword tokens = tokens := by
  unfold behindStar
  split
  next => exact if_neg notFunction
  next => rfl

theorem length_behindStar_le (keyword : Text) (tokens : List Token) :
    (behindStar keyword tokens).length ≤ tokens.length := by
  unfold behindStar
  split
  next => split <;> simp
  next => exact Nat.le_refl _

/-- The names behind the keywords of declarations, in order. -/
def declared : List Token -> List Text
  | [] => []
  | .mark _ :: rest => declared rest
  | .word letters :: rest =>
      if declarationKeywords.contains (lastPart letters) then
        match _isAhead : nameAhead? (behindStar (lastPart letters) rest) with
        | some (name, later) => name :: declared later
        | none => declared rest
      else declared rest
termination_by tokens => tokens.length
decreasing_by
  · exact Nat.lt_succ_self _
  · have shorter := length_gapAhead?_lt (gapAhead?_of_nameAhead? _isAhead).1
    have fewer := length_behindStar_le (lastPart letters) rest
    rw [List.length_cons] at shorter ⊢
    omega
  · exact Nat.lt_succ_self _
  · exact Nat.lt_succ_self _

theorem declared_of_nameAhead? {letters name : Text} {rest later : List Token}
    (isKeyword : lastPart letters ∈ declarationKeywords)
    (isAhead : nameAhead? (behindStar (lastPart letters) rest) = some (name, later)) :
    declared (.word letters :: rest) = name :: declared later := by
  rw [declared, if_pos (List.contains_iff_mem.mpr isKeyword)]
  split
  next isThere =>
    obtain ⟨rfl, rfl⟩ := Prod.mk.injEq .. ▸ Option.some.inj (isAhead.symm.trans isThere)
    rfl
  next isThere => exact nomatch isAhead.symm.trans isThere

theorem declared_of_unnamed {letters : Text} {rest : List Token}
    (unnamed : lastPart letters ∈ declarationKeywords → nameAhead? (behindStar (lastPart letters) rest) = none) :
    declared (.word letters :: rest) = declared rest := by
  rw [declared]
  split
  next isKeyword =>
    split
    next isThere => exact nomatch (unnamed (List.contains_iff_mem.mp isKeyword)).symm.trans isThere
    next => rfl
  next => rfl

/-- The tokens within the bracket that was just opened, if its closer is the given one; braces and brackets
nest in each other. -/
def within (closer : Char) : (depth : Nat) -> List Token -> Option (List Token)
  | _, [] => none
  | depth, .word letters :: rest => (within closer depth rest).map (.word letters :: ·)
  | depth, .mark c :: rest =>
      if c = '\x7b' || c = '[' then (within closer (depth + 1) rest).map (.mark c :: ·)
      else if c = '\x7d' || c = ']' then
        match depth with
        | 0 => if c = closer then some [] else none
        | outer + 1 => (within closer outer rest).map (.mark c :: ·)
      else (within closer depth rest).map (.mark c :: ·)

/-- The closer of a bracket that opens a pattern. -/
def closerOf (opener : Char) : Char :=
  if opener = '\x7b' then '\x7d' else ']'

/-- Whether an element of a pattern ends with a name that tokens follow. -/
def endsElement (tokens : List Token) : Bool :=
  match tokens.dropWhile Token.isBlank with
  | [] => true
  | .mark c :: _ => [',', '\x7d', ']', '='].contains c
  | .word _ :: _ => false

/-- What of a word can be a name. -/
def nameIn (letters : Text) : Text :=
  letters.dropWhile fun c => !startsName c

/-- The names with which elements end, in tokens in front of others. -/
def standing (behind : List Token) : List Token -> List Text
  | [] => []
  | .mark _ :: rest => standing behind rest
  | .word letters :: rest =>
      (if endsElement (rest ++ behind) then [nameIn letters].filter (!·.isEmpty) else []) ++
        standing behind rest

/-- The names in the pattern behind a word, if the word is the keyword of a variable declaration. -/
def unpacked (letters : Text) (tokens : List Token) : List Text :=
  if variableKeywords.contains (lastPart letters) then
    match bracketAhead? tokens with
    | some (c, later) => standing [] ((within (closerOf c) 0 later).getD [])
    | none => []
  else []

/-- The names in the patterns behind the keywords of variable declarations, in order. -/
def destructured : List Token -> List Text
  | [] => []
  | .mark _ :: rest => destructured rest
  | .word letters :: rest => unpacked letters rest ++ destructured rest

/-! ## Readings -/

theorem variableKeywords_subset : variableKeywords ⊆ declarationKeywords :=
  fun _ member => List.mem_cons_of_mem _ (List.mem_cons_of_mem _ member)

theorem of_mem_declarationKeywords {keyword : Text} (member : keyword ∈ declarationKeywords) :
    keyword ≠ [] ∧ (∀ c ∈ keyword, continuesName c = true ∧ c ≠ '$') ∧ keyword.head?.any isWord = true := by
  have checked : declarationKeywords.all (fun keyword => !keyword.isEmpty &&
      keyword.all (fun c => continuesName c && c != '$') && keyword.head?.any isWord) = true := by decide
  have here := List.all_eq_true.mp checked keyword member
  simp only [Bool.and_eq_true, Bool.not_eq_true', List.isEmpty_eq_false_iff, List.all_eq_true, bne_iff_ne] at here
  exact ⟨here.1.1, here.1.2, here.2⟩

/-- Whether a keyword stands at the beginning of a text that stands behind another one, and is not part of a
longer word there. -/
structure Heads (keywords : List Text) (passed ahead keyword behind : Text) : Prop where
  isKeyword : keyword ∈ keywords
  split : ahead = keyword ++ behind
  apart : passed.getLast?.any isWord = false

theorem Heads.mono {keywords others : List Text} {passed ahead keyword behind : Text}
    (heads : Heads keywords passed ahead keyword behind) (areAmong : keywords ⊆ others) :
    Heads others passed ahead keyword behind :=
  ⟨areAmong heads.isKeyword, heads.split, heads.apart⟩

theorem Heads.of_boundary {keywords : List Text} {passed ahead keyword behind : Text}
    (areKeywords : keywords ⊆ declarationKeywords) (isKeyword : keyword ∈ keywords)
    (split : ahead = keyword ++ behind)
    (boundary : (passed.getLast?.any isWord != ahead.head?.any isWord) = true) :
    Heads keywords passed ahead keyword behind := by
  obtain ⟨nonempty, -, begins⟩ := of_mem_declarationKeywords (areKeywords isKeyword)
  refine ⟨isKeyword, split, ?_⟩
  obtain ⟨c, rest, rfl⟩ := List.exists_cons_of_ne_nil nonempty
  rw [split, List.cons_append, List.head?_cons] at boundary
  rw [List.head?_cons] at begins
  rw [begins] at boundary
  simpa using boundary

/-- A keyword that stands within the text of a word is all the rest of it, and what it ends with behind its
last dollar sign. -/
theorem Heads.eq_of_word {passed more rest following keyword behind : Text}
    (heads : Heads declarationKeywords (passed ++ more) (rest ++ following) keyword behind)
    (continues : ∀ c ∈ more ++ rest, continuesName c = true)
    (ends : following.head?.any continuesName = false) (endsToo : behind.head?.any continuesName = false) :
    rest = keyword ∧ following = behind ∧ lastPart (more ++ rest) = keyword := by
  obtain ⟨-, areLetters, -⟩ := of_mem_declarationKeywords heads.isKeyword
  obtain ⟨continuesMore, continuesRest⟩ := List.forall_mem_append.mp continues
  have same := Text.behind_stretch continuesRest (fun c member => (areLetters c member).1) ends endsToo
    heads.split
  have whole := heads.split
  rw [same] at whole
  have isRest := List.append_cancel_right whole
  refine ⟨isRest, same, ?_⟩
  rw [isRest, lastPart, List.reverse_append,
    List.takeWhile_append_of_pos fun c member => by simpa using (areLetters c (List.mem_reverse.mp member)).2]
  rcases List.eq_nil_or_concat more with rfl | ⟨front, last, rfl⟩
  · simp
  · have isLast : last = '$' := by
      have apart := heads.apart
      have continuesLast := continuesMore last (by simp)
      rw [List.concat_eq_append, ← List.append_assoc, List.getLast?_concat, Option.any_some] at apart
      rw [continuesName, apart, Bool.false_or] at continuesLast
      exact eq_of_beq continuesLast
    simp [isLast]

/-- What reads one of some keywords passes it. -/
theorem exists_passes_of_reads_anyOf {keywords : List Text} {cursor next : Cursor}
    (reads : (anyOf (keywords.map Pattern.word)).Reads cursor next) :
    ∃ keyword ∈ keywords, Cursor.Passes keyword cursor next := by
  induction keywords with
  | nil =>
      obtain ⟨_, accepted, _⟩ := Cursor.passes_of_step? reads
      exact nomatch accepted
  | cons keyword rest inductionHypothesis =>
      cases rest with
      | nil => exact ⟨keyword, List.mem_cons_self, (Pattern.reads_word_iff.mp reads).1⟩
      | cons another others =>
          rcases reads with readsFirst | readsLater
          · exact ⟨keyword, List.mem_cons_self, (Pattern.reads_word_iff.mp readsFirst).1⟩
          · obtain ⟨found, member, passes⟩ := inductionHypothesis readsLater
            exact ⟨found, List.mem_cons_of_mem _ member, passes⟩

theorem exists_of_reads_declaredName {passed ahead : Text} {next : Cursor}
    (reads : declaredName.Reads (Cursor.between passed ahead) next) :
    ∃ keyword star between first tail, Heads declarationKeywords passed ahead keyword
        (star ++ (between ++ first :: tail)) ∧
      (star = [] ∨ star = ['*'] ∧ keyword = "function".toList) ∧ between ≠ [] ∧
      (∀ c ∈ between, isBlank c = true) ∧ startsName first = true := by
  obtain ⟨_, ⟨behindStar, ⟨_, ⟨boundary, rfl⟩, readsKeyword⟩, readsGap⟩, behindName, readsName, -⟩ := reads
  obtain ⟨between, blank, some, passesGap⟩ := Pattern.passes_of_reads_run readsGap
  obtain ⟨first, rest, starts, -, passesName⟩ := Pattern.exists_word_of_reads_name readsName
  have keyword : ∃ keyword ∈ declarationKeywords, ∃ star, (star = [] ∨ star = ['*'] ∧
      keyword = "function".toList) ∧ Cursor.Passes (keyword ++ star) (Cursor.between passed ahead) behindStar := by
    rcases readsKeyword with ⟨_, readsFunction, readsStar | rfl⟩ | readsOther
    · obtain ⟨d, isStar, passesStar, -⟩ := Cursor.passes_of_step? readsStar
      obtain rfl : d = '*' := eq_of_beq isStar
      exact ⟨_, List.mem_cons_self, ['*'], Or.inr ⟨rfl, rfl⟩,
        (Pattern.reads_word_iff.mp readsFunction).1.trans passesStar⟩
    · refine ⟨_, List.mem_cons_self, [], Or.inl rfl, ?_⟩
      rw [List.append_nil]
      exact (Pattern.reads_word_iff.mp readsFunction).1
    · obtain ⟨keyword, member, passes⟩ :=
        @exists_passes_of_reads_anyOf ("class".toList :: variableKeywords) _ _ readsOther
      refine ⟨keyword, List.mem_cons_of_mem _ member, [], Or.inl rfl, ?_⟩
      rwa [List.append_nil]
  obtain ⟨keyword, isKeyword, star, isStar, passesKeyword⟩ := keyword
  have split := ((passesKeyword.trans passesGap).trans passesName).ahead_eq
  refine ⟨keyword, star, between, first, rest ++ behindName.ahead,
    .of_boundary (List.Subset.refl _) isKeyword ?_ boundary, isStar, List.length_pos_iff.mp some, blank, starts⟩
  simpa [Cursor.between] using split

theorem exists_of_reads_destructuredDeclaration {passed ahead : Text} {next : Cursor}
    (reads : destructuredDeclaration.Reads (Cursor.between passed ahead) next) :
    ∃ keyword between bracket tail, Heads variableKeywords passed ahead keyword (between ++ bracket :: tail) ∧
      between ≠ [] ∧ (∀ c ∈ between, isBlank c = true) ∧ (bracket = '[' ∨ bracket = '\x7b') := by
  obtain ⟨_, ⟨_, ⟨_, ⟨boundary, rfl⟩, readsKeyword⟩, readsGap⟩, behindBracket, readsBracket, -⟩ := reads
  obtain ⟨between, blank, some, passesGap⟩ := Pattern.passes_of_reads_run readsGap
  obtain ⟨bracket, isBracket, passesBracket, -⟩ := Cursor.passes_of_step? readsBracket
  obtain ⟨keyword, isKeyword, passesKeyword⟩ := @exists_passes_of_reads_anyOf variableKeywords _ _ readsKeyword
  have split := ((passesKeyword.trans passesGap).trans passesBracket).ahead_eq
  refine ⟨keyword, between, bracket, behindBracket.ahead,
    .of_boundary variableKeywords_subset isKeyword ?_ boundary, List.length_pos_iff.mp some, blank,
    by simpa using isBracket⟩
  simpa [Cursor.between] using split

/-! ## Matches -/

theorem eq_of_prefix_keyword {first second : Text} (isFirst : first ∈ declarationKeywords)
    (isSecond : second ∈ declarationKeywords) (isPrefix : first <+: second) : first = second := by
  have checked : declarationKeywords.all (fun first => declarationKeywords.all fun second =>
      !first.isPrefixOf second || first == second) = true := by decide
  have here := List.all_eq_true.mp (List.all_eq_true.mp checked first isFirst) second isSecond
  rw [List.isPrefixOf_iff_prefix.mpr isPrefix, Bool.not_true, Bool.false_or] at here
  exact eq_of_beq here

/-- Where a keyword stands, no other one is read. -/
theorem eq_of_passes_keyword {keyword other ahead : Text} {cursor next : Cursor}
    (isKeyword : keyword ∈ declarationKeywords) (isOther : other ∈ declarationKeywords)
    (isAhead : cursor.ahead = keyword ++ ahead) (passes : Cursor.Passes other cursor next) : other = keyword := by
  have same := isAhead.symm.trans passes.ahead_eq
  rcases List.prefix_or_prefix_of_prefix (List.prefix_append keyword ahead) (same ▸ List.prefix_append other _) with
    isPrefix | isPrefix
  · exact (eq_of_prefix_keyword isKeyword isOther isPrefix).symm
  · exact eq_of_prefix_keyword isOther isKeyword isPrefix

section Leads

variable {keyword : Text} (passed : Text)

theorem leads_anyOf {keywords : List Text} (areKeywords : keywords ⊆ declarationKeywords)
    (isKeyword : keyword ∈ keywords) (ahead : Text) :
    (anyOf (keywords.map Pattern.word)).Leads (noting [] passed (keyword ++ ahead))
      (noting [] (passed ++ keyword) ahead) := by
  induction keywords with
  | nil => exact nomatch isKeyword
  | cons first rest inductionHypothesis =>
      obtain ⟨isFirst, areRest⟩ := List.cons_subset.mp areKeywords
      by_cases same : keyword = first
      · subst same
        cases rest with
        | nil => exact Pattern.leads_word [] passed keyword ahead
        | cons => exact .left (Pattern.leads_word [] passed keyword ahead)
      · have isLater := (List.mem_cons.mp isKeyword).resolve_left same
        cases rest with
        | nil => exact nomatch isLater
        | cons second others =>
            refine .right (fun there reads => same ?_) (inductionHypothesis areRest isLater)
            exact (eq_of_passes_keyword (areKeywords isKeyword) isFirst rfl
              (Pattern.reads_word_iff.mp reads).1).symm

/-- Keywords are looked for in order, with the star behind `function`. -/
theorem leads_keyword {star between : Text} (isKeyword : keyword ∈ declarationKeywords)
    (isStar : star = [] ∨ star = ['*'] ∧ keyword = "function".toList) (nonempty : between ≠ [])
    (blank : ∀ c ∈ between, isBlank c = true) (ahead : Text) :
    (anyOf [literal "function" ++ maybe (char '*'), literal "class", literal "const", literal "let",
        literal "var"]).Leads
      (noting [] passed (keyword ++ (star ++ (between ++ ahead))))
      (noting [] (passed ++ keyword ++ star) (between ++ ahead)) := by
  rcases isStar with rfl | ⟨rfl, rfl⟩
  · rw [List.append_nil, List.nil_append]
    by_cases isFunction : keyword = "function".toList
    · subst isFunction
      refine .left ((Pattern.leads_literal [] passed "function" _).append
        (Pattern.leads_maybe_of_not_reads fun there => ?_))
      obtain ⟨c, rest, rfl⟩ := List.exists_cons_of_ne_nil nonempty
      refine Pattern.not_reads_of_mayBegin rfl ?_ rfl
      exact beq_false_of_ne (Character.ne_of_isBlank (blank c List.mem_cons_self) (by decide))
    · refine .right (fun there ⟨_, reads, _⟩ => isFunction ?_) ?_
      · exact (eq_of_passes_keyword isKeyword List.mem_cons_self rfl (Pattern.reads_word_iff.mp reads).1).symm
      · exact @leads_anyOf keyword passed ("class".toList :: variableKeywords)
          (fun _ member => List.mem_cons_of_mem _ member) ((List.mem_cons.mp isKeyword).resolve_left isFunction) _
  · exact .left ((Pattern.leads_literal [] passed "function" _).append
      (Pattern.leads_char [] (passed ++ "function".toList) '*' _).maybe)

theorem leads_boundary {keywords : List Text} {ahead behind : Text} (areKeywords : keywords ⊆ declarationKeywords)
    (heads : Heads keywords passed ahead keyword behind) :
    wordBoundary.Leads (noting [] passed ahead) (noting [] passed ahead) := by
  obtain ⟨nonempty, -, begins⟩ := of_mem_declarationKeywords (areKeywords heads.isKeyword)
  obtain ⟨c, rest, rfl⟩ := List.exists_cons_of_ne_nil nonempty
  refine Pattern.leads_between ?_
  change (passed.getLast?.any isWord != ahead.head?.any isWord) = true
  rw [heads.apart, heads.split, List.cons_append, List.head?_cons]
  rw [List.head?_cons] at begins
  rw [begins]
  rfl

/-- The search for declarations matches a keyword, a star behind `function`, blanks and a whole name. -/
theorem find_declaredName {star between name following : Text}
    (heads : Heads declarationKeywords passed (keyword ++ (star ++ (between ++ (name ++ following)))) keyword
      (star ++ (between ++ (name ++ following))))
    (isStar : star = [] ∨ star = ['*'] ∧ keyword = "function".toList) (nonempty : between ≠ [])
    (blank : ∀ c ∈ between, isBlank c = true) (isName : IsName name)
    (ends : following.head?.any continuesName = false) :
    declaredName.find (Cursor.between passed (keyword ++ (star ++ (between ++ (name ++ following))))) =
      some ⟨passed.length, (passed ++ keyword ++ star ++ between ++ name).length,
        [(1, ⟨(passed ++ keyword ++ star ++ between).length,
          (passed ++ keyword ++ star ++ between).length + name.length⟩)]⟩ := by
  obtain ⟨first, word, rfl, starts⟩ := isName.starts
  have continues : ∀ c ∈ word, continuesName c = true :=
    fun c member => isName.isNameText c (List.mem_cons_of_mem first member)
  have visible : ((first :: word) ++ following).head?.any isBlank = false := isName.any_head? following
  have onGap := Pattern.leads_run [] (passed ++ keyword ++ star) blank visible (List.length_pos_iff.mpr nonempty)
  have onName := (Pattern.leads_name [] (passed ++ keyword ++ star ++ between) starts continues ends).capture rfl 1
  exact Pattern.find_of_leads ((((leads_boundary passed (List.Subset.refl _) heads).append
    (leads_keyword passed heads.isKeyword isStar nonempty blank _)).append onGap).append onName)

/-- The search for destructuring declarations matches a keyword, blanks and a bracket. -/
theorem find_destructuredDeclaration {between following : Text} {bracket : Char}
    (heads : Heads variableKeywords passed (keyword ++ (between ++ bracket :: following)) keyword
      (between ++ bracket :: following))
    (nonempty : between ≠ []) (blank : ∀ c ∈ between, isBlank c = true)
    (isBracket : bracket = '[' ∨ bracket = '\x7b') :
    destructuredDeclaration.find (Cursor.between passed (keyword ++ (between ++ bracket :: following))) =
      some ⟨passed.length, (passed ++ keyword ++ between ++ [bracket]).length,
        [(1, ⟨(passed ++ keyword ++ between).length, (passed ++ keyword ++ between).length + 1⟩)]⟩ := by
  have visible : isBlank bracket = false := by rcases isBracket with rfl | rfl <;> decide
  have accepted : ['[', '\x7b'].contains bracket = true := by simpa using isBracket
  have onKeyword := @leads_anyOf keyword passed variableKeywords variableKeywords_subset heads.isKeyword
    (between ++ bracket :: following)
  have onGap := @Pattern.leads_run [] (passed ++ keyword) isBlank 1 between (bracket :: following) blank visible
    (List.length_pos_iff.mpr nonempty)
  have onBracket := (Pattern.leads_one [] (passed ++ keyword ++ between) accepted following).capture rfl 1
  exact Pattern.find_of_leads ((((leads_boundary passed variableKeywords_subset heads).append
    onKeyword).append onGap).append onBracket)

end Leads

/-! ## Stars -/

section Stars

variable {tokens later : List Token} {keyword : Text}

/-- What text of tokens begins with a character that no name continues with begins with that token. -/
theorem AreTokens.exists_of_mark (are : AreTokens tokens) {c : Char} {more : Text}
    (isMark : continuesName c = false) (split : spell tokens = c :: more) :
    ∃ rest, tokens = .mark c :: rest ∧ spell rest = more := by
  match tokens, are with
  | .mark d :: rest, _ =>
      obtain ⟨rfl, same⟩ := List.cons_eq_cons.mp (split : d :: spell rest = c :: more)
      exact ⟨rest, rfl, same⟩
  | .word (d :: letters) :: rest, are =>
      obtain ⟨rfl, -⟩ := List.cons_eq_cons.mp (split : d :: (letters ++ spell rest) = c :: more)
      exact Bool.noConfusion ((are.1.2 d List.mem_cons_self).symm.trans isMark)
  | .word [] :: rest, are => exact absurd rfl are.1.1

theorem AreTokens.tail {token : Token} (are : AreTokens (token :: tokens)) : AreTokens tokens :=
  are.2.2

theorem AreTokens.behindStar (are : AreTokens tokens) : AreTokens (behindStar keyword tokens) := by
  unfold Imports.behindStar
  split
  next => split <;> [exact are.tail; exact are]
  next => exact are

/-- The tokens behind a star make up the text behind it. -/
theorem AreTokens.spell_behindStar (are : AreTokens tokens) {star between tail : Text}
    (isStar : star = [] ∨ star = ['*'] ∧ keyword = "function".toList) (nonempty : between ≠ [])
    (blank : ∀ c ∈ between, isBlank c = true) (split : spell tokens = star ++ (between ++ tail)) :
    spell (Imports.behindStar keyword tokens) = between ++ tail := by
  rcases isStar with rfl | ⟨rfl, rfl⟩
  · obtain ⟨c, others, rfl⟩ := List.exists_cons_of_ne_nil nonempty
    have isBlankHere := blank c List.mem_cons_self
    obtain ⟨rest, rfl, -⟩ := are.exists_of_mark (Character.continuesName_of_isBlank isBlankHere) split
    have notStar : c ≠ '*' := Character.ne_of_isBlank isBlankHere (by decide)
    unfold Imports.behindStar
    split
    next same => exact absurd (Token.mark.inj (List.cons_eq_cons.mp same).1) notStar
    next => exact split
  · obtain ⟨rest, rfl, same⟩ := are.exists_of_mark (by decide) split
    rw [Imports.behindStar, if_pos rfl]
    exact same

/-- A name that is found behind a keyword stands there behind blanks, and behind a star at most. -/
theorem exists_of_nameAhead? {name : Text}
    (isAhead : nameAhead? (Imports.behindStar keyword tokens) = some (name, later)) :
    ∃ star between : Text, (star = [] ∨ star = ['*'] ∧ keyword = "function".toList) ∧ between ≠ [] ∧
      (∀ c ∈ between, isBlank c = true) ∧ name.head?.any startsName = true ∧
      tokens = (star ++ between).map Token.mark ++ .word name :: later := by
  obtain ⟨isGap, starts⟩ := gapAhead?_of_nameAhead? isAhead
  obtain ⟨between, nonempty, blank, split⟩ := exists_of_gapAhead? isGap
  unfold Imports.behindStar at split
  split at split
  next rest =>
    split at split
    next isFunction =>
      refine ⟨['*'], between, Or.inr ⟨rfl, isFunction⟩, nonempty, blank, starts, ?_⟩
      rw [List.singleton_append, List.map_cons, List.cons_append, ← split]
    next => exact ⟨[], between, Or.inl rfl, nonempty, blank, starts, split⟩
  next => exact ⟨[], between, Or.inl rfl, nonempty, blank, starts, split⟩

/-- Where the text goes on with blanks and the beginning of a name, a name is found. -/
theorem nameAhead?_ne_none (are : AreTokens tokens) {between tail : Text} {first : Char} (nonempty : between ≠ [])
    (blank : ∀ c ∈ between, isBlank c = true) (starts : startsName first = true)
    (split : spell tokens = between ++ first :: tail) : nameAhead? tokens ≠ none := by
  have continues := Pattern.continuesName_of_startsName starts
  have visible := Source.not_isBlank_of_continuesName continues
  obtain ⟨later, isAhead, same⟩ := exists_gapAhead?_eq are nonempty blank (by simpa using visible) split
  obtain ⟨_, _, _, rfl⟩ := exists_of_gapAhead? isAhead
  match later, are.of_append.2 with
  | .word (d :: letters) :: rest, _ =>
      obtain ⟨rfl, -⟩ := List.cons_eq_cons.mp (same : d :: (letters ++ spell rest) = first :: tail)
      rw [nameAhead?, isAhead]
      simp [starts]
  | .word [] :: _, areLater => exact absurd rfl areLater.1.1
  | .mark d :: rest, areLater =>
      obtain ⟨rfl, -⟩ := List.cons_eq_cons.mp (same : d :: spell rest = first :: tail)
      exact Bool.noConfusion (continues.symm.trans areLater.1)
  | [], _ => exact nomatch same

/-- Where the text goes on with blanks and a bracket, the bracket is found. -/
theorem bracketAhead?_ne_none (are : AreTokens tokens) {between tail : Text} {bracket : Char}
    (nonempty : between ≠ []) (blank : ∀ c ∈ between, isBlank c = true)
    (isBracket : bracket = '[' ∨ bracket = '\x7b') (split : spell tokens = between ++ bracket :: tail) :
    bracketAhead? tokens ≠ none := by
  have visible : isBlank bracket = false ∧ continuesName bracket = false := by
    rcases isBracket with rfl | rfl <;> decide
  obtain ⟨later, isAhead, same⟩ := exists_gapAhead?_eq are nonempty blank (by simpa using visible.1) split
  obtain ⟨_, _, _, rfl⟩ := exists_of_gapAhead? isAhead
  obtain ⟨rest, rfl, -⟩ := are.of_append.2.exists_of_mark visible.2 same
  rw [bracketAhead?, isAhead]
  simp [isBracket]

end Stars

/-! ## What is found -/

section Found

variable {tokens rest : List Token} {letters passed : Text}

/-- No keyword stands where a mark does. -/
theorem not_heads_mark {keywords : List Text} (areKeywords : keywords ⊆ declarationKeywords) {c : Char}
    (isMark : continuesName c = false) {ahead keyword behind : Text} :
    ¬Heads keywords passed (c :: ahead) keyword behind := by
  intro heads
  obtain ⟨nonempty, areLetters, -⟩ := of_mem_declarationKeywords (areKeywords heads.isKeyword)
  obtain ⟨d, others, rfl⟩ := List.exists_cons_of_ne_nil nonempty
  obtain ⟨rfl, -⟩ := List.cons_eq_cons.mp heads.split
  exact Bool.noConfusion ((areLetters c List.mem_cons_self).1.symm.trans isMark)

theorem declaredName_silent_mark {c : Char} (isMark : continuesName c = false) (following : Text) :
    declaredName.Silent passed [c] following :=
  Pattern.silent_singleton fun _ reads => by
    obtain ⟨_, _, _, _, _, heads, -⟩ := exists_of_reads_declaredName reads
    exact not_heads_mark (List.Subset.refl _) isMark heads

/-- Whether what a pattern reads within a word begins with the part behind the last dollar sign of the word, and
a condition holds of this part and the tokens behind the word. -/
def BeginsAtKeyword (pattern : Pattern) (follows : Text -> List Token -> Prop) : Prop :=
  ∀ {passed more others : Text} {rest : List Token} {next : Cursor}, AreTokens (.word (more ++ others) :: rest) →
    pattern.Reads (Cursor.between (passed ++ more) (others ++ spell rest)) next →
      others = lastPart (more ++ others) ∧ follows others rest

namespace BeginsAtKeyword

variable {pattern : Pattern} {follows : Text -> List Token -> Prop}

theorem silent_word (begins : BeginsAtKeyword pattern follows) (are : AreTokens (.word letters :: rest))
    (notFollowed : ¬follows (lastPart letters) rest) : pattern.Silent passed letters (spell rest) := by
  rintro more others rfl - next reads
  obtain ⟨isLast, isFollowed⟩ := begins are reads
  exact notFollowed (isLast ▸ isFollowed)

/-- Within a word, nothing is read in front of the part behind its last dollar sign. -/
theorem silent_front (begins : BeginsAtKeyword pattern follows) {front : Text}
    (are : AreTokens (.word letters :: rest)) (split : letters = front ++ lastPart letters) :
    pattern.Silent passed front (lastPart letters ++ spell rest) := by
  intro more others isFront nonempty next reads
  rw [← List.append_assoc] at reads
  rw [split, isFront, List.append_assoc] at are
  obtain ⟨isLast, -⟩ := begins are reads
  rw [← List.append_assoc, ← isFront, ← split] at isLast
  exact nonempty (List.append_left_eq_self.mp isLast)

end BeginsAtKeyword

theorem beginsAtKeyword_declaredName : BeginsAtKeyword declaredName fun keyword rest =>
    keyword ∈ declarationKeywords ∧ nameAhead? (behindStar keyword rest) ≠ none := by
  intro passed more others rest next are reads
  obtain ⟨keyword, star, between, first, tail, heads, isStar, some, blank, starts⟩ :=
    exists_of_reads_declaredName reads
  have noWord : rest.head?.any Token.isWord = false := are.2.1 rfl
  have begins : (star ++ (between ++ first :: tail)).head?.any continuesName = false := by
    rcases isStar with rfl | ⟨rfl, -⟩
    · obtain ⟨c, gap, rfl⟩ := List.exists_cons_of_ne_nil some
      exact Character.continuesName_of_isBlank (blank c List.mem_cons_self)
    · rfl
  obtain ⟨rfl, isRest, isLast⟩ := heads.eq_of_word are.1.2 (are.tail.any_head? noWord) begins
  have isBehind := are.tail.spell_behindStar isStar some blank isRest
  exact ⟨isLast.symm, heads.isKeyword, nameAhead?_ne_none are.tail.behindStar some blank starts isBehind⟩

theorem beginsAtKeyword_destructuredDeclaration : BeginsAtKeyword destructuredDeclaration fun keyword rest =>
    keyword ∈ variableKeywords ∧ bracketAhead? rest ≠ none := by
  intro passed more others rest next are reads
  obtain ⟨keyword, between, bracket, tail, heads, some, blank, isBracket⟩ :=
    exists_of_reads_destructuredDeclaration reads
  have noWord : rest.head?.any Token.isWord = false := are.2.1 rfl
  have begins : (between ++ bracket :: tail).head?.any continuesName = false := by
    obtain ⟨c, gap, rfl⟩ := List.exists_cons_of_ne_nil some
    exact Character.continuesName_of_isBlank (blank c List.mem_cons_self)
  obtain ⟨rfl, isRest, isLast⟩ :=
    (heads.mono variableKeywords_subset).eq_of_word are.1.2 (are.tail.any_head? noWord) begins
  exact ⟨isLast.symm, heads.isKeyword, bracketAhead?_ne_none are.tail some blank isBracket isRest⟩

theorem exists_eq_lastPart (letters : Text) : ∃ front, letters = front ++ lastPart letters ∧
    (front = [] ∨ front.getLast? = some '$') := by
  have split := @List.takeWhile_append_dropWhile _ (· != '$') letters.reverse
  have stops := List.head?_dropWhile_not (· != '$') letters.reverse
  refine ⟨(letters.reverse.dropWhile (· != '$')).reverse, ?_, ?_⟩
  · rw [lastPart, ← List.reverse_append, split, List.reverse_reverse]
  · rw [List.getLast?_reverse]
    cases isRest : letters.reverse.dropWhile (· != '$') with
    | nil => exact Or.inl rfl
    | cons c rest =>
        rw [isRest, List.head?_cons] at stops
        exact Or.inr (congrArg some (by simpa using stops))

theorem captured_eq {found : Match} {text front name back : Text} {slot : Nat}
    (isCapture : found.captures = [(slot, ⟨front.length, front.length + name.length⟩)])
    (split : text = front ++ (name ++ back)) : found.captured text slot = name := by
  have isSpan : found.span? slot = some ⟨front.length, front.length + name.length⟩ := by
    rw [Match.span?, isCapture]
    simp
  rw [Match.captured, Match.captured?, isSpan, Option.map_some, Option.getD_some]
  exact Text.slice_eq front back split rfl rfl

/-- Whether a search that goes on behind a text comes to some names in the rest, where it is read off the whole
text to which names a match comes. -/
def FindsNames (pattern : Pattern) (names : Text -> Match -> List Text) (passed rest : Text)
    (found : List Text) : Prop :=
  ∃ matches_, pattern.Finds passed rest [] matches_ ∧ matches_.flatMap (names (passed ++ rest)) = found

namespace FindsNames

variable {pattern : Pattern} {names : Text -> Match -> List Text} {found : List Text}

theorem nil : FindsNames pattern names passed [] [] :=
  ⟨[], .of_silent fun _ _ split nonempty => absurd (List.append_eq_nil_iff.mp split.symm).2 nonempty, rfl⟩

theorem behind {part text : Text} {matches_ : List Match} (finds : pattern.Finds passed part text matches_)
    (later : FindsNames pattern names (passed ++ part) text found) :
    FindsNames pattern names passed (part ++ text)
      (matches_.flatMap (names (passed ++ (part ++ text))) ++ found) := by
  obtain ⟨others, findsOthers, rfl⟩ := later
  refine ⟨matches_ ++ others, Pattern.Finds.append ?_ findsOthers, ?_⟩
  · rwa [List.append_nil]
  · rw [List.flatMap_append, List.append_assoc]

theorem behind_silent {part text : Text} (silent : pattern.Silent passed part text)
    (later : FindsNames pattern names (passed ++ part) text found) :
    FindsNames pattern names passed (part ++ text) found :=
  later.behind (.of_silent silent)

theorem all {text : Text} (finds : FindsNames pattern names [] text found)
    (nonempty : pattern.mayBeEmpty = false) : (pattern.all text).flatMap (names text) = found := by
  obtain ⟨matches_, findsAll, rfl⟩ := finds
  rw [findsAll.all_eq fun next => Pattern.not_reads_at_end nonempty rfl]
  rfl

end FindsNames

/-- A keyword that ends a word is apart from what stands in front of it. -/
theorem heads_lastPart {keywords : List Text} {front behind : Text}
    (apart : passed.getLast?.any continuesName = false) (isKeyword : lastPart letters ∈ keywords)
    (ends : front = [] ∨ front.getLast? = some '$') :
    Heads keywords (passed ++ front) (lastPart letters ++ behind) (lastPart letters) behind := by
  refine ⟨isKeyword, rfl, ?_⟩
  rcases ends with rfl | isLast
  · rw [List.append_nil]
    cases isLast : passed.getLast? with
    | none => rfl
    | some c =>
        rw [isLast, Option.any_some, continuesName, Bool.or_eq_false_iff] at apart
        exact apart.1
  · rw [List.getLast?_append, isLast, Option.some_or, Option.any_some]
    decide

/-- The search for declarations goes over a keyword, a star, blanks and a name at once. -/
theorem exists_finds_declaration {front keyword star between name following : Text}
    (heads : Heads declarationKeywords front (keyword ++ (star ++ (between ++ (name ++ following)))) keyword
      (star ++ (between ++ (name ++ following))))
    (isStar : star = [] ∨ star = ['*'] ∧ keyword = "function".toList) (nonempty : between ≠ [])
    (blank : ∀ c ∈ between, isBlank c = true) (isName : IsName name)
    (ends : following.head?.any continuesName = false) :
    ∃ found, declaredName.Finds front (keyword ++ (star ++ (between ++ name))) following [found] ∧
      ∀ text, text = front ++ (keyword ++ (star ++ (between ++ name)) ++ following) →
        found.captured text 1 = name := by
  have foundHere := find_declaredName front heads isStar nonempty blank isName ends
  refine ⟨_, .of_find (by simpa using foundHere) ?_ ?_, fun text split => ?_⟩
  · exact List.append_ne_nil_of_left_ne_nil (of_mem_declarationKeywords heads.isKeyword).1 _
  · simp
  · refine @captured_eq _ _ (front ++ keyword ++ star ++ between) name following 1 (by simp) ?_
    rw [split]
    simp

/-- The names to which a match of the search for declarations comes. -/
def declaredBy (text : Text) (found : Match) : List Text :=
  [found.captured text 1]

/-- The search for declarations finds the names that the tokens declare. -/
theorem findsNames_declaredName (are : AreTokens tokens)
    (apart : tokens.head?.any Token.isWord = true → passed.getLast?.any continuesName = false) :
    FindsNames declaredName declaredBy passed (spell tokens) (declared tokens) := by
  induction tokens using declared.induct generalizing passed with
  | case1 =>
      rw [declared]
      exact .nil
  | case2 c rest inductionHypothesis =>
      rw [declared]
      refine .behind_silent (declaredName_silent_mark are.1 _) (inductionHypothesis are.tail fun _ => ?_)
      rw [Token.text, List.getLast?_concat]
      exact are.1
  | case3 letters rest isContained name later isAhead inductionHypothesis =>
      have isKeyword := List.contains_iff_mem.mp isContained
      obtain ⟨front, isLetters, ends⟩ := exists_eq_lastPart letters
      obtain ⟨star, between, isStar, nonempty, blank, starts, isRest⟩ := exists_of_nameAhead? isAhead
      rw [declared_of_nameAhead? isKeyword isAhead]
      subst isRest
      obtain ⟨-, areName⟩ := are.tail.of_append
      have isName : IsName name := by
        obtain ⟨first, others, isCons⟩ := List.exists_cons_of_ne_nil areName.1.1
        rw [isCons, List.head?_cons, Option.any_some] at starts
        exact ⟨⟨first, others, isCons, starts⟩, areName.1.2⟩
      have heads := @heads_lastPart letters passed declarationKeywords front
        (star ++ (between ++ (name ++ spell later))) (apart rfl) isKeyword ends
      have noWord : later.head?.any Token.isWord = false := areName.2.1 rfl
      obtain ⟨found, finds, captured⟩ := exists_finds_declaration heads isStar nonempty blank isName
        (areName.tail.any_head? noWord)
      have silent := @beginsAtKeyword_declaredName.silent_front _ letters passed _ _ front are isLetters
      have later' := @inductionHypothesis (passed ++ front ++ (lastPart letters ++ (star ++ (between ++ name))))
        areName.tail fun isWord => Bool.noConfusion (isWord.symm.trans noWord)
      have behind : spell ((star ++ between).map Token.mark ++ .word name :: later) =
          star ++ (between ++ name) ++ spell later := by
        rw [spell_append, spell_marks, spell_cons]
        simp [Token.text]
      have split : spell (.word letters :: ((star ++ between).map Token.mark ++ .word name :: later)) =
          front ++ ((lastPart letters ++ (star ++ (between ++ name))) ++ spell later) := by
        have isText : (Token.word letters).text = front ++ lastPart letters := isLetters
        rw [spell_cons, isText, behind]
        simp
      rw [behind, ← List.append_assoc] at silent
      rw [split]
      have finding := FindsNames.behind finds later'
      rw [List.flatMap_singleton, declaredBy, captured _ rfl] at finding
      exact .behind_silent silent finding
  | case4 letters rest isKeyword isAhead inductionHypothesis =>
      rw [declared_of_unnamed fun _ => isAhead]
      refine .behind_silent (beginsAtKeyword_declaredName.silent_word are fun followed => followed.2 isAhead)
        (inductionHypothesis are.tail fun isWord => ?_)
      exact Bool.noConfusion (isWord.symm.trans (are.2.1 rfl))
  | case5 letters rest notKeyword inductionHypothesis =>
      have absent (isKeyword : lastPart letters ∈ declarationKeywords) : False :=
        notKeyword (List.contains_iff_mem.mpr isKeyword)
      rw [declared_of_unnamed fun isKeyword => (absent isKeyword).elim]
      refine .behind_silent (beginsAtKeyword_declaredName.silent_word are fun followed => absent followed.1)
        (inductionHypothesis are.tail fun isWord => ?_)
      exact Bool.noConfusion (isWord.symm.trans (are.2.1 rfl))

/-! ## Patterns behind a keyword -/

theorem destructuredDeclaration_silent_mark {c : Char} (isMark : continuesName c = false) (following : Text) :
    destructuredDeclaration.Silent passed [c] following :=
  Pattern.silent_singleton fun _ reads => by
    obtain ⟨_, _, _, _, heads, -⟩ := exists_of_reads_destructuredDeclaration reads
    exact not_heads_mark variableKeywords_subset isMark heads

/-- The search for destructuring declarations goes over a keyword, blanks and a bracket at once. -/
theorem exists_finds_destructuring {front keyword between following : Text} {bracket : Char}
    (heads : Heads variableKeywords front (keyword ++ (between ++ bracket :: following)) keyword
      (between ++ bracket :: following))
    (nonempty : between ≠ []) (blank : ∀ c ∈ between, isBlank c = true)
    (isBracket : bracket = '[' ∨ bracket = '\x7b') :
    ∃ found, destructuredDeclaration.Finds front (keyword ++ (between ++ [bracket])) following [found] ∧
      found.stop = (front ++ keyword ++ between).length + 1 := by
  have foundHere := find_destructuredDeclaration front heads nonempty blank isBracket
  refine ⟨_, .of_find (by simpa using foundHere) ?_ ?_, ?_⟩
  · exact List.append_ne_nil_of_left_ne_nil
      (of_mem_declarationKeywords (variableKeywords_subset heads.isKeyword)).1 _
  · simp
  · simp [Nat.add_assoc]

/-! ## The text within a bracket -/

theorem bracketedLength?_cons (closer : Char) (depth reached : Nat) (c : Char) (following : Text) :
    bracketedLength? closer depth reached (c :: following) =
      if c = '\x7b' || c = '[' then bracketedLength? closer (depth + 1) (reached + 1) following
      else if c = '\x7d' || c = ']' then
        match depth with
        | 0 => if c = closer then some reached else none
        | outer + 1 => bracketedLength? closer outer (reached + 1) following
      else bracketedLength? closer depth (reached + 1) following := by
  cases depth <;> rfl

theorem within_mark (closer : Char) (depth : Nat) (c : Char) (rest : List Token) :
    within closer depth (.mark c :: rest) =
      if c = '\x7b' || c = '[' then (within closer (depth + 1) rest).map (.mark c :: ·)
      else if c = '\x7d' || c = ']' then
        match depth with
        | 0 => if c = closer then some [] else none
        | outer + 1 => (within closer outer rest).map (.mark c :: ·)
      else (within closer depth rest).map (.mark c :: ·) := by
  cases depth <;> rfl

/-- Words are passed over in the search for the end of a bracket. -/
theorem bracketedLength?_word (closer : Char) (depth reached : Nat) {word : Text}
    (continues : ∀ c ∈ word, continuesName c = true) (following : Text) :
    bracketedLength? closer depth reached (word ++ following) =
      bracketedLength? closer depth (reached + word.length) following := by
  induction word generalizing reached with
  | nil => rfl
  | cons c word inductionHypothesis =>
      have brackets : ∀ bracket ∈ "\x7b[\x7d]".toList, c ≠ bracket := by
        have marks : ∀ bracket ∈ "\x7b[\x7d]".toList, continuesName bracket = false :=
          Text.forall_mem_of_all (by decide)
        rintro bracket member rfl
        exact Bool.noConfusion ((continues c List.mem_cons_self).symm.trans (marks c member))
      have length : reached + (c :: word).length = reached + 1 + word.length := by
        rw [List.length_cons]
        omega
      rw [List.cons_append, bracketedLength?_cons, if_neg, if_neg, length]
      · exact inductionHypothesis (reached + 1) fun d member => continues d (List.mem_cons_of_mem c member)
      · simp [brackets '\x7d' (by decide), brackets ']' (by decide)]
      · simp [brackets '\x7b' (by decide), brackets '[' (by decide)]

/-- The length of the text within a bracket is that of the tokens within it. -/
theorem bracketedLength?_spell (are : AreTokens tokens) (closer : Char) (depth reached : Nat) :
    bracketedLength? closer depth reached (spell tokens) =
      (within closer depth tokens).map fun inner => reached + (spell inner).length := by
  induction tokens generalizing depth reached with
  | nil => rfl
  | cons token rest inductionHypothesis =>
      have further (depth : Nat) :
          bracketedLength? closer depth (reached + token.text.length) (spell rest) =
            ((within closer depth rest).map (token :: ·)).map fun inner => reached + (spell inner).length := by
        rw [inductionHypothesis are.tail, Option.map_map]
        simp [Function.comp_def, spell_cons, Nat.add_assoc]
      cases token with
      | word letters =>
          rw [spell_cons, Token.text, bracketedLength?_word closer depth reached are.1.2, within]
          exact further depth
      | mark c =>
          rw [spell_cons, Token.text, List.singleton_append, bracketedLength?_cons, within_mark]
          split
          next => exact further (depth + 1)
          next =>
            split
            next =>
              cases depth with
              | zero =>
                  dsimp only
                  split <;> rfl
              | succ outer => exact further outer
            next => exact further depth

theorem exists_of_within {closer : Char} {depth : Nat} {inner : List Token}
    (isWithin : within closer depth tokens = some inner) : ∃ rest, tokens = inner ++ rest := by
  induction tokens generalizing depth inner with
  | nil => exact nomatch isWithin
  | cons token rest inductionHypothesis =>
      have further {depth : Nat} (isRest : (within closer depth rest).map (token :: ·) = some inner) :
          ∃ others, token :: rest = inner ++ others := by
        obtain ⟨deeper, isDeeper, rfl⟩ := Option.map_eq_some_iff.mp isRest
        obtain ⟨others, rfl⟩ := inductionHypothesis isDeeper
        exact ⟨others, rfl⟩
      cases token with
      | word letters => exact further isWithin
      | mark c =>
          rw [within_mark] at isWithin
          split at isWithin
          next => exact further isWithin
          next =>
            split at isWithin
            next =>
              cases depth with
              | zero =>
                  dsimp only at isWithin
                  split at isWithin
                  next => exact Option.some.inj isWithin ▸ ⟨_, rfl⟩
                  next => contradiction
              | succ outer => exact further isWithin
            next => exact further isWithin

theorem AreTokens.getD_within (are : AreTokens tokens) (closer : Char) :
    AreTokens ((within closer 0 tokens).getD []) := by
  cases isWithin : within closer 0 tokens with
  | none => trivial
  | some inner =>
      obtain ⟨rest, rfl⟩ := exists_of_within isWithin
      exact are.of_append.1

/-- The text within a bracket is that of the tokens within it. -/
theorem bracketedText_spell (are : AreTokens tokens) (front : Text) (bracket : Char) :
    bracketedText (front ++ bracket :: spell tokens) front.length =
      spell ((within (closerOf bracket) 0 tokens).getD []) := by
  have isHere := Text.getElem?_behind front (spell tokens) bracket
  have behind : (front ++ bracket :: spell tokens).drop (front.length + 1) = spell tokens := by
    rw [List.append_cons, List.drop_left' (by simp)]
  have closer : (if (front ++ bracket :: spell tokens)[front.length]? = some '\x7b' then '\x7d' else ']') =
      closerOf bracket := by
    rw [isHere, closerOf]
    simp
  unfold bracketedText
  dsimp only
  rw [closer, behind, bracketedLength?_spell are]
  cases isWithin : within (closerOf bracket) 0 tokens with
  | none => rfl
  | some inner =>
      obtain ⟨rest, rfl⟩ := exists_of_within isWithin
      rw [spell_append]
      simp

/-! ## Names in a pattern -/

/-- The marks with which an element of a pattern, or what it binds, ends. -/
theorem visible_of_ends {c : Char} (ends : [',', '\x7d', ']', '='].contains c = true) :
    isBlank c = false ∧ continuesName c = false ∧ c ≠ ':' ∧ Text.isIndent c = false := by
  have checked : ∀ c ∈ [',', '\x7d', ']', '='],
      isBlank c = false ∧ continuesName c = false ∧ c ≠ ':' ∧ Text.isIndent c = false :=
    Text.forall_mem_of_all (by decide)
  exact checked c (List.contains_iff_mem.mp ends)

/-- Whether a text is at its end, but for one line break, or begins with a mark that ends an element. -/
def EndsBefore (tail : Text) : Prop :=
  tail = [] ∨ tail = ['\n'] ∨ ∃ c rest, tail = c :: rest ∧ [',', '\x7d', ']', '='].contains c = true

theorem reads_elementEnd_iff {cursor : Cursor} :
    (∃ next, (oneOf [',', '\x7d', ']', '='] <|> Pattern.textEnd).Reads cursor next) ↔
      EndsBefore cursor.ahead := by
  constructor
  · rintro ⟨next, reads | reads⟩
    · obtain ⟨c, accepted, passes, -⟩ := Cursor.passes_of_step? reads
      exact Or.inr (Or.inr ⟨c, next.ahead, passes.ahead_eq, accepted⟩)
    · obtain ⟨isEnd, -⟩ := reads
      obtain ⟨there, ⟨atEnd, -⟩ | ⟨_, readsBreak, atEnd, -⟩⟩ := isEnd.mpr rfl
      · exact Or.inl (List.head?_eq_none_iff.mp (Option.isNone_iff_eq_none.mp atEnd))
      · obtain ⟨c, isBreak, passes, -⟩ := Cursor.passes_of_step? readsBreak
        obtain rfl : c = '\n' := eq_of_beq isBreak
        have nothing := List.head?_eq_none_iff.mp (Option.isNone_iff_eq_none.mp atEnd)
        exact Or.inr (Or.inl (by rw [passes.ahead_eq, nothing]; rfl))
  · rintro (atEnd | atEnd | ⟨c, rest, atEnd, accepted⟩)
    · refine ⟨cursor, Or.inr ⟨iff_of_true ⟨cursor, Or.inl ⟨?_, rfl⟩⟩ rfl, rfl⟩⟩
      rw [atEnd]
      rfl
    · exact ⟨cursor, Or.inr ⟨iff_of_true ⟨_, Or.inr ⟨_, Pattern.reads_char atEnd, rfl, rfl⟩⟩ rfl, rfl⟩⟩
    · refine ⟨⟨some c, rest, cursor.offset + 1, cursor.captures⟩, Or.inl ?_⟩
      change cursor.step? [',', '\x7d', ']', '='].contains = _
      rw [Cursor.step?, atEnd]
      exact if_pos accepted

theorem exists_of_reads_patternBinding {passed ahead : Text} {next : Cursor}
    (reads : patternBinding.Reads (Cursor.between passed ahead) next) :
    ∃ first word between tail, ahead = first :: word ++ (between ++ tail) ∧ startsName first = true ∧
      (∀ c ∈ word, continuesName c = true) ∧ (∀ c ∈ between, isBlank c = true) ∧ EndsBefore tail := by
  obtain ⟨_, ⟨_, ⟨_, readsName, rfl⟩, readsBlanks⟩, isAhead, rfl⟩ := reads
  obtain ⟨first, word, starts, continues, passesName⟩ := Pattern.exists_word_of_reads_name readsName
  obtain ⟨between, blank, -, passesBlanks⟩ := Pattern.passes_of_reads_run readsBlanks
  refine ⟨first, word, between, next.ahead, ?_, starts, continues, blank,
    reads_elementEnd_iff.mp (isAhead.mpr rfl)⟩
  have split := passesName.ahead_eq
  have isBehind := passesBlanks.ahead_eq
  dsimp only at isBehind
  rw [isBehind] at split
  exact split

/-- The search for the names in a pattern matches a whole name with the blanks behind it. -/
theorem find_patternBinding {name between tail : Text} (isName : IsName name)
    (blank : ∀ c ∈ between, isBlank c = true) (apart : (between ++ tail).head?.any continuesName = false)
    (visible : tail.head?.any isBlank = false) (ends : EndsBefore tail) :
    patternBinding.find (Cursor.between passed (name ++ (between ++ tail))) =
      some ⟨passed.length, (passed ++ name ++ between).length,
        [(1, ⟨passed.length, passed.length + name.length⟩)]⟩ := by
  obtain ⟨first, word, rfl, starts⟩ := isName.starts
  have continues : ∀ c ∈ word, continuesName c = true :=
    fun c member => isName.isNameText c (List.mem_cons_of_mem first member)
  have onName := (Pattern.leads_name [] passed starts continues apart).capture rfl 1
  have onBlanks := @Pattern.leads_run [(1, ⟨passed.length, passed.length + (first :: word).length⟩)]
    (passed ++ first :: word) isBlank 0 between tail blank visible (Nat.zero_le _)
  have isAhead : ∃ there, (oneOf [',', '\x7d', ']', '='] <|> Pattern.textEnd).Reads
      (noting [(1, ⟨passed.length, passed.length + (first :: word).length⟩)] (passed ++ first :: word ++ between)
        tail) there := reads_elementEnd_iff.mpr ends
  exact Pattern.find_of_leads ((onName.append onBlanks).append (Pattern.leads_ahead isAhead))

/-- A text that is at its end or goes on with a mark that ends an element, behind blanks, is that of tokens that
end one. -/
theorem endsElement_of_split (are : AreTokens rest) {between tail : Text} (blank : ∀ c ∈ between, isBlank c = true)
    (ends : EndsBefore tail) (split : spell rest = between ++ tail) : endsElement rest = true := by
  have areLater : AreTokens (rest.dropWhile Token.isBlank) := by
    obtain ⟨gap, -, isRest⟩ := exists_dropWhile_eq rest
    exact (isRest ▸ are).of_append.2
  have isTail : spell (rest.dropWhile Token.isBlank) = tail.dropWhile isBlank := by
    rw [are.spell_dropWhile, split, List.dropWhile_append_of_pos blank]
  have nothing (isNothing : spell (rest.dropWhile Token.isBlank) = []) : endsElement rest = true := by
    rw [endsElement, areLater.eq_nil isNothing]
  rcases ends with rfl | rfl | ⟨c, others, rfl, accepted⟩
  · exact nothing isTail
  · exact nothing isTail
  · obtain ⟨notBlank, isMark, -⟩ := visible_of_ends accepted
    rw [List.dropWhile_cons_of_neg (by simp [notBlank])] at isTail
    obtain ⟨behind, isLater, -⟩ := areLater.exists_of_mark isMark isTail
    rw [endsElement, isLater]
    exact accepted

theorem exists_of_endsElement (ends : endsElement rest = true) :
    ∃ (between : Text) (later : List Token), (∀ c ∈ between, isBlank c = true) ∧
      rest = between.map Token.mark ++ later ∧ EndsBefore (spell later) ∧
      (spell later).head?.any isBlank = false ∧ (spell later).head?.any continuesName = false ∧
      (spell later).head? ≠ some ':' := by
  obtain ⟨between, blank, split⟩ := exists_dropWhile_eq rest
  refine ⟨between, _, blank, split, ?_⟩
  rw [endsElement] at ends
  generalize rest.dropWhile Token.isBlank = later at ends ⊢
  match later with
  | [] => exact ⟨Or.inl rfl, rfl, rfl, nofun⟩
  | .mark c :: others =>
      obtain ⟨notBlank, isMark, notColon, -⟩ := visible_of_ends ends
      exact ⟨Or.inr (Or.inr ⟨c, spell others, rfl, ends⟩), notBlank, isMark,
        fun isColon => notColon (Option.some.inj isColon)⟩
  | .word _ :: _ => exact nomatch ends

theorem patternBinding_silent_mark {c : Char} (isMark : continuesName c = false) (following : Text) :
    patternBinding.Silent passed [c] following :=
  Pattern.silent_singleton fun _ reads => by
    obtain ⟨first, word, between, tail, split, starts, -⟩ := exists_of_reads_patternBinding reads
    obtain ⟨rfl, -⟩ := List.cons_eq_cons.mp split
    exact Bool.noConfusion ((Pattern.continuesName_of_startsName starts).symm.trans isMark)

/-- Within a word that does not end an element, no name is found. -/
theorem patternBinding_silent_word (are : AreTokens (.word letters :: rest))
    (unfinished : endsElement rest = false) : patternBinding.Silent passed letters (spell rest) := by
  rintro more others rfl - next reads
  obtain ⟨first, word, between, tail, split, starts, continues, blank, ends⟩ :=
    exists_of_reads_patternBinding reads
  have apart : (between ++ tail).head?.any continuesName = false := by
    cases between with
    | cons c gap => exact Character.continuesName_of_isBlank (blank c List.mem_cons_self)
    | nil =>
        rcases ends with rfl | rfl | ⟨c, behind, rfl, accepted⟩
        · rfl
        · decide
        · exact (visible_of_ends accepted).2.1
  have continuesAll : ∀ c ∈ first :: word, continuesName c = true :=
    List.forall_mem_cons.mpr ⟨Pattern.continuesName_of_startsName starts, continues⟩
  have isBehind := Text.behind_stretch (List.forall_mem_append.mp are.1.2).2 continuesAll
    (are.tail.any_head? (are.2.1 rfl)) apart split
  exact Bool.noConfusion ((endsElement_of_split are.tail blank ends isBehind).symm.trans unfinished)

/-- Within letters of which none begins a name, no name is found. -/
theorem patternBinding_silent_of_not_startsName {junk : Text} (unnamed : ∀ c ∈ junk, startsName c = false)
    (following : Text) : patternBinding.Silent passed junk following := by
  rintro more others rfl nonempty next reads
  obtain ⟨first, word, between, tail, split, starts, -⟩ := exists_of_reads_patternBinding reads
  obtain ⟨c, others, rfl⟩ := List.exists_cons_of_ne_nil nonempty
  obtain ⟨rfl, -⟩ := List.cons_eq_cons.mp split
  exact Bool.noConfusion (starts.symm.trans (unnamed c (by simp)))

/-- What of a word can be a name stands behind letters that begin none. -/
theorem exists_eq_nameIn (letters : Text) : ∃ junk, letters = junk ++ nameIn letters ∧
    (∀ c ∈ junk, startsName c = false) ∧
    (nameIn letters ≠ [] → ∃ first rest, nameIn letters = first :: rest ∧ startsName first = true) := by
  refine ⟨letters.takeWhile fun c => !startsName c, (List.takeWhile_append_dropWhile ..).symm,
    fun c member => by simpa using List.mem_takeWhile_imp member, fun nonempty => ?_⟩
  obtain ⟨first, rest, isName⟩ := List.exists_cons_of_ne_nil nonempty
  have stops := List.head?_dropWhile_not (fun c => !startsName c) letters
  rw [show letters.dropWhile (fun c => !startsName c) = first :: rest from isName, List.head?_cons] at stops
  exact ⟨first, rest, isName, by simpa using stops⟩

/-- A name behind which no colon stands, but for blanks, is no key. -/
theorem isObjectKey_eq_false {front between tail : Text} (blank : ∀ c ∈ between, isBlank c = true)
    (visible : tail.head?.any isBlank = false) (notColon : tail.head? ≠ some ':') :
    isObjectKey (front ++ (between ++ tail)) front.length = false := by
  have next : ((between ++ tail).dropWhile Text.isIndent).head? ≠ some ':' := by
    rw [List.dropWhile_append]
    split
    next =>
      have stays : tail.head?.any Text.isIndent = false := by
        cases tail with
        | nil => rfl
        | cons c rest =>
            cases indents : Text.isIndent c with
            | false => exact indents
            | true => exact Bool.noConfusion (visible.symm.trans (Character.isBlank_of_isIndent indents))
      rwa [Text.dropWhile_of_head? stays]
    next isRest =>
      obtain ⟨c, rest, isCons⟩ := List.exists_cons_of_ne_nil fun isNil => isRest (List.isEmpty_iff.mpr isNil)
      have member : c ∈ between := List.dropWhile_subset _ (isCons ▸ List.mem_cons_self)
      rw [isCons]
      exact fun isColon => Character.ne_of_isBlank (blank c member) (by decide) (Option.some.inj isColon)
  rw [isObjectKey, Text.getElem?_skip, List.drop_left]
  exact Bool.and_eq_false_imp.mpr fun isColon => absurd (eq_of_beq isColon) next

theorem standing_marks (behind : List Token) (marks : Text) (rest : List Token) :
    standing behind (marks.map Token.mark ++ rest) = standing behind rest := by
  induction marks with
  | nil => rfl
  | cons c marks inductionHypothesis => exact inductionHypothesis

/-- The names to which a match of the search for the names in a pattern comes. -/
def boundBy (pattern : Text) (found : Match) : List Text :=
  ((found.span? 1).bind fun span =>
    if isObjectKey pattern span.stop then none else some (span.of pattern)).toList

/-- The search for the names in a pattern goes over a name and the blanks behind it at once. -/
theorem exists_finds_binding {front name between tail : Text} (isName : IsName name)
    (blank : ∀ c ∈ between, isBlank c = true) (apart : (between ++ tail).head?.any continuesName = false)
    (visible : tail.head?.any isBlank = false) (notColon : tail.head? ≠ some ':') (ends : EndsBefore tail) :
    ∃ found, patternBinding.Finds front (name ++ between) tail [found] ∧
      boundBy (front ++ (name ++ between ++ tail)) found = [name] := by
  have foundHere := @find_patternBinding front name between tail isName blank apart visible ends
  refine ⟨_, .of_find (by simpa using foundHere) (List.append_ne_nil_of_left_ne_nil isName.ne_nil _) (by simp), ?_⟩
  have noKey := @isObjectKey_eq_false (front ++ name) between tail blank visible notColon
  have isText : front ++ (name ++ between ++ tail) = front ++ name ++ (between ++ tail) := by simp
  have isStop : front.length + name.length = (front ++ name).length := by simp
  have isHere : Span.of ⟨front.length, front.length + name.length⟩ (front ++ name ++ (between ++ tail)) = name :=
    Text.slice_eq front (between ++ tail) (by simp) rfl rfl
  have isSpan (start stop : Nat) : (Match.mk start stop
      [(1, ⟨front.length, front.length + name.length⟩)]).span? 1 =
        some ⟨front.length, front.length + name.length⟩ := rfl
  rw [boundBy, isSpan, isText, Option.bind_some]
  dsimp only
  rw [isStop, noKey, ← isStop, isHere]
  rfl

/-- The search for the names in a pattern finds those with which its elements end. -/
theorem findsNames_patternBinding (passed : Text) (tokens : List Token) (are : AreTokens tokens) :
    FindsNames patternBinding boundBy passed (spell tokens) (standing [] tokens) := by
  match tokens with
  | [] => exact .nil
  | .mark c :: rest =>
      exact .behind_silent (patternBinding_silent_mark are.1 _) (findsNames_patternBinding _ rest are.tail)
  | .word letters :: rest =>
      rw [standing, List.append_nil]
      cases ends : endsElement rest with
      | false =>
          exact .behind_silent (patternBinding_silent_word are ends) (findsNames_patternBinding _ rest are.tail)
      | true =>
          obtain ⟨junk, isLetters, unnamed, starts⟩ := exists_eq_nameIn letters
          have silent := @patternBinding_silent_of_not_startsName passed junk unnamed
          by_cases isNothing : nameIn letters = []
          · rw [isNothing, List.append_nil] at isLetters
            rw [isNothing]
            exact .behind_silent (isLetters ▸ silent _) (findsNames_patternBinding _ rest are.tail)
          obtain ⟨between, later, blank, rfl, endsBefore, visible, apart, notColon⟩ := exists_of_endsElement ends
          have isName : IsName (nameIn letters) :=
            ⟨starts isNothing, fun c member => are.1.2 c (isLetters ▸ List.mem_append_right junk member)⟩
          have apartThere : (between ++ spell later).head?.any continuesName = false := by
            cases between with
            | nil => exact apart
            | cons c gap => exact Character.continuesName_of_isBlank (blank c List.mem_cons_self)
          obtain ⟨found, finds, bound⟩ := @exists_finds_binding (passed ++ junk) (nameIn letters) between
            (spell later) isName blank apartThere visible notColon endsBefore
          have finding := FindsNames.behind finds (findsNames_patternBinding _ later are.tail.of_append.2)
          rw [List.flatMap_singleton, bound] at finding
          have isText : spell (.word letters :: (between.map Token.mark ++ later)) =
              junk ++ (nameIn letters ++ between ++ spell later) := by
            have isWord : (Token.word letters).text = junk ++ nameIn letters := isLetters
            rw [spell_cons, isWord, spell_append, spell_marks]
            simp
          have nonempty : ([nameIn letters].filter (!·.isEmpty)) = [nameIn letters] := by simp [isNothing]
          rw [if_pos rfl, nonempty, standing_marks, isText]
          exact .behind_silent (silent _) finding
termination_by tokens.length

theorem patternNames_spell (are : AreTokens tokens) : patternNames (spell tokens) = standing [] tokens := by
  have finds := findsNames_patternBinding [] tokens are
  rw [← finds.all rfl, patternNames, List.filterMap_eq_flatMap_toList]
  rfl

theorem destructured_marks (marks : Text) (rest : List Token) :
    destructured (marks.map Token.mark ++ rest) = destructured rest := by
  induction marks with
  | nil => rfl
  | cons c marks inductionHypothesis => exact inductionHypothesis

/-- The names in the pattern to which a match of the search for destructuring declarations comes. -/
def destructuredBy (text : Text) (found : Match) : List Text :=
  patternNames (bracketedText text (found.stop - 1))

/-- The search for destructuring declarations finds the patterns behind the keywords. -/
theorem findsNames_destructuredDeclaration (passed : Text) (tokens : List Token) (are : AreTokens tokens)
    (apart : tokens.head?.any Token.isWord = true → passed.getLast?.any continuesName = false) :
    FindsNames destructuredDeclaration destructuredBy passed (spell tokens) (destructured tokens) := by
  match tokens with
  | [] => exact .nil
  | .mark c :: rest =>
      refine .behind_silent (destructuredDeclaration_silent_mark are.1 _)
        (findsNames_destructuredDeclaration _ rest are.tail fun _ => ?_)
      rw [Token.text, List.getLast?_concat]
      exact are.1
  | .word letters :: rest =>
      have noWord := are.2.1 rfl
      have quiet (notFollowed : ¬(lastPart letters ∈ variableKeywords ∧ bracketAhead? rest ≠ none)) :
          FindsNames destructuredDeclaration destructuredBy passed (spell (.word letters :: rest))
            (destructured rest) :=
        .behind_silent (beginsAtKeyword_destructuredDeclaration.silent_word are notFollowed)
          (findsNames_destructuredDeclaration _ rest are.tail fun isWord =>
            Bool.noConfusion (isWord.symm.trans noWord))
      rw [destructured, unpacked]
      split
      next isContained =>
        split
        next c later isAhead =>
          have isKeyword := List.contains_iff_mem.mp isContained
          obtain ⟨front, isLetters, ends⟩ := exists_eq_lastPart letters
          obtain ⟨isGap, isBracket⟩ := gapAhead?_of_bracketAhead? isAhead
          obtain ⟨between, nonempty, blank, rfl⟩ := exists_of_gapAhead? isGap
          have areLater : AreTokens later := are.tail.of_append.2.tail
          have heads := @heads_lastPart letters passed variableKeywords front (between ++ c :: spell later)
            (apart rfl) isKeyword ends
          obtain ⟨found, finds, isStop⟩ := exists_finds_destructuring heads nonempty blank isBracket
          have names : destructuredBy
              (passed ++ front ++ (lastPart letters ++ (between ++ [c]) ++ spell later)) found =
                standing [] ((within (closerOf c) 0 later).getD []) := by
            have isText : passed ++ front ++ (lastPart letters ++ (between ++ [c]) ++ spell later) =
                passed ++ front ++ lastPart letters ++ between ++ c :: spell later := by simp
            rw [destructuredBy, isStop, Nat.add_sub_cancel, isText, bracketedText_spell areLater]
            exact patternNames_spell (areLater.getD_within _)
          have finding := FindsNames.behind finds (findsNames_destructuredDeclaration _ later areLater fun _ => by
            rw [← List.append_assoc, ← List.append_assoc, List.getLast?_concat]
            exact are.tail.of_append.2.1)
          rw [List.flatMap_singleton, names] at finding
          have isText : spell (.word letters :: (between.map Token.mark ++ .mark c :: later)) =
              front ++ (lastPart letters ++ (between ++ [c]) ++ spell later) := by
            have isWord : (Token.word letters).text = front ++ lastPart letters := isLetters
            rw [spell_cons, isWord, spell_append, spell_marks, spell_cons]
            simp [Token.text]
          have silent := @beginsAtKeyword_destructuredDeclaration.silent_front _ letters passed _ _ front are
            isLetters
          rw [spell_append, spell_marks, spell_cons, ← List.append_assoc] at silent
          have isRest : destructured (between.map Token.mark ++ .mark c :: later) = destructured later :=
            destructured_marks between (.mark c :: later)
          rw [isText, isRest]
          refine .behind_silent ?_ finding
          simpa [Token.text] using silent
        next isThere => exact quiet fun followed => followed.2 isThere
      next notKeyword => exact quiet fun followed => notKeyword (List.contains_iff_mem.mpr followed.1)
termination_by tokens.length

/-- The names that a source declares are those that its words and marks declare. -/
theorem declaredNames_spell (are : AreTokens tokens) :
    declaredNames (spell tokens) = Text.sortedSet (declared tokens ++ destructured tokens) := by
  have plain := (@findsNames_declaredName tokens [] are fun _ => rfl).all rfl
  have inPatterns := (findsNames_destructuredDeclaration [] tokens are fun _ => rfl).all rfl
  rw [declaredNames, ← plain, ← inPatterns, List.map_eq_flatMap]
  rfl

end Found

end SceneBundler.Imports
