import SceneBundler.Catalog.Packaged
import SceneBundler.Entry.Synthesis
import SceneBundler.Proofs.Entry.LineRemoval
import SceneBundler.Proofs.Entry.Naming
import SceneBundler.Proofs.Text.Carried
import SceneBundler.Proofs.Text.Coverage
import SceneBundler.Proofs.Text.Joint
import SceneBundler.Proofs.Text.Occurrence
import SceneBundler.Proofs.Text.Reach

/-!
Contract: uses of a root variable behind the removal of its declaration.

Owns:
- calls of `render` on a variable and guards on it, and where they stand in a source;
- that those which are alone on their line are removed with the mount code, whatever else is removed
  there;
- where a use that is left comes from.

Does not own: which variables hold a page element or a root.
-/

namespace SceneBundler.Entry

open Character (attaches)
open Cursor (Passes)
open Pattern (lineStart indent blanks char literal)
open Source (mask BracketPairs)

/-! ## Tokens -/

/-- Whether a text is a token: it has characters, and none of them is blank. -/
def IsToken (text : Text) : Prop :=
  text ≠ [] ∧ ∀ c ∈ text, Character.isBlank c = false

theorem IsToken.not_mem_break {token : Text} (isToken : IsToken token) : '\n' ∉ token := fun member =>
  Bool.noConfusion ((isToken.2 '\n' member).symm.trans (by decide : Character.isBlank '\n' = true))

theorem IsToken.begins {token : Text} (isToken : IsToken token) (following : Text) :
    (token ++ following).head?.any Character.isBlank = false := by
  cases token with
  | nil => exact absurd rfl isToken.1
  | cons c rest => exact isToken.2 c List.mem_cons_self

/-- Tokens one after another, with any blanks between them. -/
inductive Spaced : List Text -> Text -> Prop where
  | last (token : Text) : Spaced [token] token
  | more {token between text : Text} {tokens : List Text} (blank : Text.isBlank between = true)
      (rest : Spaced tokens text) : Spaced (token :: tokens) (token ++ (between ++ text))

namespace Spaced

variable {tokens : List Text} {token text front back : Text}

theorem exists_eq_append (spaced : Spaced (token :: tokens) text) : ∃ rest, text = token ++ rest := by
  cases spaced with
  | last => exact ⟨[], (List.append_nil token).symm⟩
  | more => exact ⟨_, rfl⟩

theorem exists_rest (spaced : Spaced (token :: tokens) text) (some : tokens ≠ []) :
    ∃ between rest, Text.isBlank between = true ∧ Spaced tokens rest ∧ text = token ++ (between ++ rest) := by
  cases spaced with
  | last => exact absurd rfl some
  | more blank rest => exact ⟨_, _, blank, rest, rfl⟩

theorem begins (spaced : Spaced tokens text) (areTokens : ∀ token ∈ tokens, IsToken token) (following : Text) :
    (text ++ following).head?.any Character.isBlank = false := by
  cases tokens with
  | nil => exact nomatch spaced
  | cons token tokens =>
      obtain ⟨rest, rfl⟩ := spaced.exists_eq_append
      rw [List.append_assoc]
      exact (areTokens token List.mem_cons_self).begins _

/-- A line break among tokens stands between two of them. -/
theorem exists_behind_break (spaced : Spaced tokens text) (areTokens : ∀ token ∈ tokens, IsToken token)
    (split : text = front ++ '\n' :: back) :
    ∃ passed later between rest, tokens = passed ++ later ∧ passed ≠ [] ∧ Spaced later rest ∧
      Text.isBlank between = true ∧ back = between ++ rest := by
  induction spaced generalizing front with
  | last token =>
      exact absurd (split ▸ List.mem_append_right front List.mem_cons_self)
        (areTokens token (List.mem_singleton_self token)).not_mem_break
  | @more token between text tokens blank rest inductionHypothesis =>
      obtain ⟨isToken, areLater⟩ := List.forall_mem_cons.mp areTokens
      rcases Pattern.cut_of_reach split with ⟨others, same⟩ | ⟨more, rfl, isRest⟩
      · exact absurd (same ▸ List.mem_append_right front List.mem_cons_self) isToken.not_mem_break
      · rcases Pattern.cut_of_reach isRest with ⟨others, rfl⟩ | ⟨deeper, rfl, isDeeper⟩
        · have same : back = others ++ text := by simpa using isRest.symm
          rw [Text.isBlank_iff] at blank
          refine ⟨[token], tokens, others, text, rfl, List.cons_ne_nil _ _, rest, ?_, same⟩
          rw [Text.isBlank_iff]
          exact fun c member => blank c (List.mem_append_right more (List.mem_cons_of_mem _ member))
        · obtain ⟨passed, later, blanks, others, isSplit, -, spaced, areBlank, same⟩ :=
            inductionHypothesis areLater isDeeper
          exact ⟨token :: passed, later, blanks, others, congrArg (token :: ·) isSplit,
            List.cons_ne_nil _ _, spaced, areBlank, same⟩

/-- What is visible behind a line break among tokens, and behind blanks there, is one of those tokens and what
follows it. -/
theorem exists_later {lead rest stretch between : Text} (spaced : Spaced tokens text)
    (areTokens : ∀ token ∈ tokens, IsToken token) (noBreak : '\n' ∉ lead)
    (split : lead ++ (text ++ rest) = front ++ '\n' :: (between ++ stretch))
    (within : front.length < (lead ++ text).length) (blank : ∀ c ∈ between, Character.isBlank c = true)
    (visible : stretch.head?.any Character.isBlank = false) :
    ∃ passed later others, tokens = passed ++ later ∧ passed ≠ [] ∧ Spaced later others ∧
      others ++ rest = stretch := by
  rcases Pattern.cut_of_reach split with ⟨others, rfl⟩ | ⟨more, rfl, isRest⟩
  · exact absurd (List.mem_append_right front List.mem_cons_self) noBreak
  · rcases Pattern.cut_of_reach isRest with ⟨others, isText⟩ | ⟨deeper, rfl, -⟩
    · obtain ⟨passed, later, blanks, tail, isSplit, some, spacedLater, areBlank, rfl⟩ :=
        spaced.exists_behind_break areTokens isText
      have areLater : ∀ token ∈ later, IsToken token := fun token member =>
        areTokens token (isSplit ▸ List.mem_append_right passed member)
      have same : blanks ++ (tail ++ rest) = between ++ stretch := by
        rw [isText] at isRest
        simpa using isRest
      exact ⟨passed, later, tail, isSplit, some, spacedLater,
        Text.behind_stretch (Text.isBlank_iff.mp areBlank) blank (spacedLater.begins areLater rest) visible same⟩
    · rw [List.length_append, List.length_append, List.length_append] at within
      omega

end Spaced

/-! ## Uses of a variable -/

/-- The tokens of a call of `render` on a variable, through its parenthesis. -/
def renderTokens (root : Text) : List Text :=
  [root, ['.'], "render".toList, ['(']]

/-- The tokens of a guard on a missing variable. -/
def guardTokens (root : Text) : List Text :=
  ["if".toList, ['('], ['!'], root, [')']]

/-- Whether a stretch of code is a call of `render` on a variable or a guard on it. -/
def IsUse (root use : Text) : Prop :=
  Spaced (renderTokens root) use ∨ Spaced (guardTokens root) use

theorem IsUse.ne_nil {root use : Text} (isUse : IsUse root use) (isName : Imports.IsName root) : use ≠ [] := by
  rcases isUse with isCall | isGuard
  · obtain ⟨rest, rfl⟩ := isCall.exists_eq_append
    exact List.append_ne_nil_of_left_ne_nil isName.ne_nil rest
  · obtain ⟨rest, rfl⟩ := isGuard.exists_eq_append
    exact List.append_ne_nil_of_left_ne_nil (by decide) rest

/-- Whether a use of a variable stands at an offset of a masked source, and not behind a dot or as part of a
longer name. -/
structure UsedAt (root masked : Text) (offset : Nat) (use : Text) : Prop where
  isUse : IsUse root use
  stands : ∃ front back, masked = front ++ (use ++ back) ∧ front.length = offset ∧
    front.getLast?.any attaches = false

/-- Whether a use begins its line, and does not stand directly behind a guard on its variable, if it is such a
guard itself. -/
structure IsAlone (root masked : Text) (offset : Nat) (use : Text) : Prop where
  begins : ∃ front indentation, masked.take offset = front ++ indentation ∧
    front.getLast?.all (· == '\n') = true ∧ ∀ c ∈ indentation, Text.isIndent c = true
  apart : Spaced (guardTokens root) use → ∀ front guard between,
    masked.take offset = front ++ (guard ++ between) → Spaced (guardTokens root) guard →
      Text.isBlank between = false

/-! ## Searches for uses -/

section Searches

variable {root use front indentation back between : Text}

theorem reads_char_between (passed : Text) (c : Char) (ahead : Text) :
    (char c).Reads (Cursor.between passed (c :: ahead)) (Cursor.between (passed ++ [c]) ahead) := by
  have steps := Pattern.reads_char (show (Cursor.between passed (c :: ahead)).ahead = c :: ahead from rfl)
  simpa [Cursor.between] using steps

theorem passes_of_reads_char {c : Char} {cursor next : Cursor} (reads : (char c).Reads cursor next) :
    Passes [c] cursor next := by
  obtain ⟨d, same, passes, -⟩ := Cursor.passes_of_step? reads
  exact eq_of_beq same ▸ passes

theorem reads_blanks_between (passed : Text) {between : Text} (blank : Text.isBlank between = true)
    (ahead : Text) :
    blanks.Reads (Cursor.between passed (between ++ ahead)) (Cursor.between (passed ++ between) ahead) :=
  Pattern.reads_run_between _ _ _ passed between ahead (Text.isBlank_iff.mp blank) (Nat.zero_le _)

/-- The search for calls of `render` reads one that begins its line. -/
theorem exists_reads_renderCall (isCall : Spaced (renderTokens root) use)
    (begins : front.getLast?.all (· == '\n') = true) (indented : ∀ c ∈ indentation, Text.isIndent c = true) :
    ∃ next, (renderCall root).Reads (Cursor.between front (indentation ++ (use ++ back))) next := by
  obtain ⟨beforeDot, _, blankBefore, fromDot, rfl⟩ := isCall.exists_rest (List.cons_ne_nil _ _)
  obtain ⟨afterDot, _, blankAfter, fromRender, rfl⟩ := fromDot.exists_rest (List.cons_ne_nil _ _)
  obtain ⟨called, _, blankCalled, fromParen, rfl⟩ := fromRender.exists_rest (List.cons_ne_nil _ _)
  obtain ⟨rest, rfl⟩ := fromParen.exists_eq_append
  simp only [List.append_assoc, List.cons_append, List.nil_append]
  exact ⟨_, _, ⟨_, ⟨_, ⟨_, ⟨_, ⟨_, ⟨begins, rfl⟩,
    Pattern.reads_run_between _ _ _ front indentation _ indented (Nat.zero_le _)⟩,
    Pattern.reads_word_between _ root _⟩, ⟨_, ⟨_, reads_blanks_between _ blankBefore _,
    reads_char_between _ '.' _⟩, reads_blanks_between _ blankAfter _⟩⟩, Pattern.reads_word_between _ _ _⟩,
    reads_blanks_between _ blankCalled _⟩, reads_char_between _ '(' _⟩

/-- The search for guards reads one that begins its line. -/
theorem exists_reads_rootGuard (isGuard : Spaced (guardTokens root) use)
    (begins : front.getLast?.all (· == '\n') = true) (indented : ∀ c ∈ indentation, Text.isIndent c = true) :
    ∃ next, (rootGuard root).Reads (Cursor.between front (indentation ++ (use ++ back))) next := by
  obtain ⟨first, _, blankFirst, fromParen, rfl⟩ := isGuard.exists_rest (List.cons_ne_nil _ _)
  obtain ⟨second, _, blankSecond, fromMark, rfl⟩ := fromParen.exists_rest (List.cons_ne_nil _ _)
  obtain ⟨third, _, blankThird, fromRoot, rfl⟩ := fromMark.exists_rest (List.cons_ne_nil _ _)
  obtain ⟨fourth, _, blankFourth, fromEnd, rfl⟩ := fromRoot.exists_rest (List.cons_ne_nil _ _)
  obtain ⟨rest, rfl⟩ := fromEnd.exists_eq_append
  simp only [List.append_assoc, List.cons_append, List.nil_append]
  exact ⟨_, _, ⟨_, ⟨_, ⟨_, ⟨_, ⟨_, ⟨_, ⟨_, ⟨_, ⟨_, ⟨_, ⟨begins, rfl⟩,
    Pattern.reads_run_between _ _ _ front indentation _ indented (Nat.zero_le _)⟩,
    Pattern.reads_word_between _ _ _⟩, reads_blanks_between _ blankFirst _⟩, reads_char_between _ '(' _⟩,
    reads_blanks_between _ blankSecond _⟩, reads_char_between _ '!' _⟩,
    reads_blanks_between _ blankThird _⟩, Pattern.reads_word_between _ root _⟩,
    reads_blanks_between _ blankFourth _⟩, reads_char_between _ ')' _⟩,
    reads_blanks_between _ (show Text.isBlank [] = true from rfl) _⟩

/-- What the search for calls of `render` reads is one, behind indentation. -/
theorem exists_of_reads_renderCall {cursor next : Cursor} (reads : (renderCall root).Reads cursor next) :
    ∃ indentation use, (∀ c ∈ indentation, Text.isIndent c = true) ∧ Spaced (renderTokens root) use ∧
      Passes (indentation ++ use) cursor next := by
  obtain ⟨_, ⟨_, ⟨_, ⟨_, ⟨_, ⟨_, ⟨-, rfl⟩, readsIndent⟩, readsRoot⟩, _, ⟨_, readsBefore, readsDot⟩, readsAfter⟩,
    readsRender⟩, readsCalled⟩, readsParen⟩ := reads
  obtain ⟨indentation, indented, -, passesIndent⟩ := Pattern.passes_of_reads_run readsIndent
  obtain ⟨before, blankBefore, -, passesBefore⟩ := Pattern.passes_of_reads_run readsBefore
  obtain ⟨after, blankAfter, -, passesAfter⟩ := Pattern.passes_of_reads_run readsAfter
  obtain ⟨called, blankCalled, -, passesCalled⟩ := Pattern.passes_of_reads_run readsCalled
  obtain ⟨passesRoot, -⟩ := Pattern.reads_word_iff.mp readsRoot
  obtain ⟨passesRender, -⟩ := Pattern.reads_word_iff.mp readsRender
  have passesDot := passes_of_reads_char readsDot
  have passesParen := passes_of_reads_char readsParen
  refine ⟨indentation, root ++ (before ++ (['.'] ++ (after ++ ("render".toList ++ (called ++ ['(']))))), indented,
    .more (Text.isBlank_iff.mpr blankBefore) (.more (Text.isBlank_iff.mpr blankAfter)
      (.more (Text.isBlank_iff.mpr blankCalled) (.last _))), ?_⟩
  exact passesIndent.trans (passesRoot.trans (passesBefore.trans (passesDot.trans (passesAfter.trans
    (passesRender.trans (passesCalled.trans passesParen))))))

/-- What the search for guards reads is one, between indentation and blanks. -/
theorem exists_of_reads_rootGuard {cursor next : Cursor} (reads : (rootGuard root).Reads cursor next) :
    ∃ indentation use between, (∀ c ∈ indentation, Text.isIndent c = true) ∧ Spaced (guardTokens root) use ∧
      Text.isBlank between = true ∧ Passes (indentation ++ (use ++ between)) cursor next := by
  obtain ⟨_, ⟨_, ⟨_, ⟨_, ⟨_, ⟨_, ⟨_, ⟨_, ⟨_, ⟨_, ⟨_, ⟨-, rfl⟩, readsIndent⟩, readsIf⟩, readsFirst⟩, readsParen⟩,
    readsSecond⟩, readsMark⟩, readsThird⟩, readsRoot⟩, readsFourth⟩, readsEnd⟩, readsBehind⟩ := reads
  obtain ⟨indentation, indented, -, passesIndent⟩ := Pattern.passes_of_reads_run readsIndent
  obtain ⟨first, blankFirst, -, passesFirst⟩ := Pattern.passes_of_reads_run readsFirst
  obtain ⟨second, blankSecond, -, passesSecond⟩ := Pattern.passes_of_reads_run readsSecond
  obtain ⟨third, blankThird, -, passesThird⟩ := Pattern.passes_of_reads_run readsThird
  obtain ⟨fourth, blankFourth, -, passesFourth⟩ := Pattern.passes_of_reads_run readsFourth
  obtain ⟨between, blank, -, passesBehind⟩ := Pattern.passes_of_reads_run readsBehind
  obtain ⟨passesIf, -⟩ := Pattern.reads_word_iff.mp readsIf
  obtain ⟨passesRoot, -⟩ := Pattern.reads_word_iff.mp readsRoot
  have passesParen := passes_of_reads_char readsParen
  have passesMark := passes_of_reads_char readsMark
  have passesEnd := passes_of_reads_char readsEnd
  refine ⟨indentation, "if".toList ++ (first ++ (['('] ++ (second ++ (['!'] ++ (third ++ (root ++
    (fourth ++ [')']))))))), between, indented,
    .more (Text.isBlank_iff.mpr blankFirst) (.more (Text.isBlank_iff.mpr blankSecond)
      (.more (Text.isBlank_iff.mpr blankThird) (.more (Text.isBlank_iff.mpr blankFourth) (.last _)))),
    Text.isBlank_iff.mpr blank, passesIndent.trans (Passes.trans ?_ passesBehind)⟩
  exact passesIf.trans (passesFirst.trans (passesParen.trans (passesSecond.trans (passesMark.trans
    (passesThird.trans (passesRoot.trans (passesFourth.trans passesEnd)))))))

/-- What begins in front of the end of a line reaches over its line break. -/
theorem exists_over_break {passed ahead rest : Text} (split : front ++ rest = passed ++ ahead)
    (begins : front.getLast?.all (· == '\n') = true) (before : passed.length < front.length) :
    ∃ more, front = passed ++ (more ++ ['\n']) ∧ ahead = more ++ '\n' :: rest := by
  rcases List.append_eq_append_iff.mp split with ⟨more, rfl, -⟩ | ⟨more, rfl, rfl⟩
  · rw [List.length_append] at before
    omega
  · rcases List.eq_nil_or_concat more with rfl | ⟨more, last, rfl⟩
    · rw [List.append_nil] at before
      exact absurd before (Nat.lt_irrefl _)
    · have isLast : last = '\n' := by simpa [List.getLast?_append] using begins
      subst isLast
      exact ⟨more, by rw [List.concat_eq_append], by simp⟩

theorem not_mem_break_of_indented (indented : ∀ c ∈ indentation, Text.isIndent c = true) :
    '\n' ∉ indentation := fun member => Bool.noConfusion (indented '\n' member)

theorem areTokens_render (isName : Imports.IsName root) : ∀ token ∈ renderTokens root, IsToken token := by
  have member : "render".toList ≠ [] ∧ ∀ c ∈ "render".toList, Character.isBlank c = false :=
    ⟨by decide, Text.forall_mem_of_all (by decide)⟩
  simp only [renderTokens, List.forall_mem_cons]
  exact ⟨⟨isName.ne_nil, fun c => isName.isBlank_of_mem⟩, ⟨by decide, Text.forall_mem_of_all (by decide)⟩, member,
    ⟨by decide, Text.forall_mem_of_all (by decide)⟩, nofun⟩

theorem areTokens_guard (isName : Imports.IsName root) : ∀ token ∈ guardTokens root, IsToken token := by
  have conditional : "if".toList ≠ [] ∧ ∀ c ∈ "if".toList, Character.isBlank c = false :=
    ⟨by decide, Text.forall_mem_of_all (by decide)⟩
  simp only [guardTokens, List.forall_mem_cons]
  exact ⟨conditional, ⟨by decide, Text.forall_mem_of_all (by decide)⟩,
    ⟨by decide, Text.forall_mem_of_all (by decide)⟩, ⟨isName.ne_nil, fun c => isName.isBlank_of_mem⟩,
    ⟨by decide, Text.forall_mem_of_all (by decide)⟩, nofun⟩

/-- Where the same text begins with two names, the marks behind them are the same. -/
theorem eq_of_behind_names {one other before after rest others : Text} {mark otherMark : Char}
    (isName : IsNameText one) (isOther : IsNameText other) (blankBefore : Text.isBlank before = true)
    (blankAfter : Text.isBlank after = true) (isMark : mark ∈ ".(!)".toList)
    (isOtherMark : otherMark ∈ ".(!)".toList)
    (same : one ++ (before ++ mark :: rest) = other ++ (after ++ otherMark :: others)) : mark = otherMark := by
  have marks : ∀ c ∈ ".(!)".toList, Character.isBlank c = false ∧ Character.continuesName c = false :=
    Text.forall_mem_of_all (by decide)
  have ends {between following : Text} {c : Char} (blank : Text.isBlank between = true)
      (isHere : c ∈ ".(!)".toList) : (between ++ c :: following).head?.any Character.continuesName = false := by
    cases between with
    | nil => exact (marks c isHere).2
    | cons d between => exact Character.continuesName_of_isBlank (Text.isBlank_iff.mp blank d List.mem_cons_self)
  have behind := Text.behind_stretch isName isOther (ends blankBefore isMark) (ends blankAfter isOtherMark) same
  have visible := Text.behind_stretch (Text.isBlank_iff.mp blankBefore) (Text.isBlank_iff.mp blankAfter)
    (by simpa using (marks mark isMark).1) (by simpa using (marks otherMark isOtherMark).1) behind
  exact (List.cons_eq_cons.mp visible).1

/-- No text begins both with a mark and with a name. -/
theorem not_mark_of_name {mark : Char} {rest others : Text} (isName : Imports.IsName root)
    (isMark : mark ∈ ".(!)".toList) : mark :: rest ≠ root ++ others := by
  have marks : ∀ c ∈ ".(!)".toList, Character.startsName c = false := Text.forall_mem_of_all (by decide)
  obtain ⟨first, more, rfl, startsName⟩ := isName.starts
  intro same
  rw [List.cons_append, List.cons_eq_cons] at same
  exact Bool.noConfusion (startsName.symm.trans (same.1 ▸ marks mark isMark))

theorem isName_render : Imports.IsName "render".toList :=
  ⟨⟨'r', "ender".toList, by decide, by decide⟩, Text.forall_mem_of_all (by decide)⟩

theorem isName_if : Imports.IsName "if".toList :=
  ⟨⟨'i', "f".toList, by decide, by decide⟩, Text.forall_mem_of_all (by decide)⟩

/-- What begins with a token of a call of `render` other than the first does not begin with such a call. -/
theorem not_later_render (isName : Imports.IsName root) (isCall : Spaced (renderTokens root) use)
    {passed later : List Text} {others rest : Text} (split : renderTokens root = passed ++ later)
    (some : passed ≠ []) (spaced : Spaced later others) : others ++ rest ≠ use ++ back := by
  intro same
  obtain ⟨beforeDot, _, blankBefore, fromDot, rfl⟩ := isCall.exists_rest (List.cons_ne_nil _ _)
  obtain ⟨afterDot, rfl⟩ := fromDot.exists_eq_append
  rw [List.append_assoc, List.append_assoc] at same
  match passed, later with
  | [_], _ =>
      obtain ⟨-, rfl⟩ := List.cons_eq_cons.mp split
      obtain ⟨tail, rfl⟩ := spaced.exists_eq_append
      exact not_mark_of_name isName (by decide) same
  | [_, _], _ =>
      obtain ⟨-, rfl⟩ := List.cons_eq_cons.mp (List.cons_eq_cons.mp split).2
      obtain ⟨called, _, blankCalled, fromParen, rfl⟩ := spaced.exists_rest (List.cons_ne_nil _ _)
      obtain ⟨tail, rfl⟩ := fromParen.exists_eq_append
      rw [List.append_assoc, List.append_assoc] at same
      exact absurd (eq_of_behind_names isName_render.isNameText isName.isNameText blankCalled blankBefore
        (by decide) (by decide) same) (by decide)
  | [_, _, _], _ =>
      obtain ⟨-, rfl⟩ := List.cons_eq_cons.mp (List.cons_eq_cons.mp (List.cons_eq_cons.mp split).2).2
      obtain ⟨tail, rfl⟩ := spaced.exists_eq_append
      exact not_mark_of_name isName (by decide) same
  | _ :: _ :: _ :: _ :: _, _ =>
      simp only [renderTokens, List.cons_append, List.cons_eq_cons, List.nil_eq, List.append_eq_nil_iff] at split
      obtain ⟨-, -, -, -, -, rfl⟩ := split
      exact nomatch spaced

/-- What begins with a token of a guard other than the first does not begin with such a guard. -/
theorem not_later_guard (isName : Imports.IsName root) (isGuard : Spaced (guardTokens root) use)
    {passed later : List Text} {others rest : Text} (split : guardTokens root = passed ++ later)
    (some : passed ≠ []) (spaced : Spaced later others) : others ++ rest ≠ use ++ back := by
  intro same
  obtain ⟨beforeParen, _, blankBefore, fromParen, rfl⟩ := isGuard.exists_rest (List.cons_ne_nil _ _)
  obtain ⟨afterParen, rfl⟩ := fromParen.exists_eq_append
  rw [List.append_assoc, List.append_assoc] at same
  match passed, later with
  | [_], _ =>
      obtain ⟨-, rfl⟩ := List.cons_eq_cons.mp split
      obtain ⟨tail, rfl⟩ := spaced.exists_eq_append
      exact not_mark_of_name isName_if (by decide) same
  | [_, _], _ =>
      obtain ⟨-, rfl⟩ := List.cons_eq_cons.mp (List.cons_eq_cons.mp split).2
      obtain ⟨tail, rfl⟩ := spaced.exists_eq_append
      exact not_mark_of_name isName_if (by decide) same
  | [_, _, _], _ =>
      obtain ⟨-, rfl⟩ := List.cons_eq_cons.mp (List.cons_eq_cons.mp (List.cons_eq_cons.mp split).2).2
      obtain ⟨beforeEnd, _, blankEnd, fromEnd, rfl⟩ := spaced.exists_rest (List.cons_ne_nil _ _)
      obtain ⟨tail, rfl⟩ := fromEnd.exists_eq_append
      rw [List.append_assoc, List.append_assoc] at same
      exact absurd (eq_of_behind_names isName.isNameText isName_if.isNameText blankEnd blankBefore
        (by decide) (by decide) same) (by decide)
  | [_, _, _, _], _ =>
      obtain ⟨-, rfl⟩ :=
        List.cons_eq_cons.mp (List.cons_eq_cons.mp (List.cons_eq_cons.mp (List.cons_eq_cons.mp split).2).2).2
      obtain ⟨tail, rfl⟩ := spaced.exists_eq_append
      exact not_mark_of_name isName_if (by decide) same
  | _ :: _ :: _ :: _ :: _ :: _, _ =>
      simp only [guardTokens, List.cons_append, List.cons_eq_cons, List.nil_eq, List.append_eq_nil_iff] at split
      obtain ⟨-, -, -, -, -, -, rfl⟩ := split
      exact nomatch spaced

/-- A call of `render` that begins its line is found there. -/
theorem exists_renderCall_match (isName : Imports.IsName root) (isCall : Spaced (renderTokens root) use)
    (begins : front.getLast?.all (· == '\n') = true) (indented : ∀ c ∈ indentation, Text.isIndent c = true) :
    ∃ found ∈ (renderCall root).all (front ++ (indentation ++ (use ++ back))), found.start = front.length := by
  obtain ⟨next, reads⟩ := @exists_reads_renderCall root use front indentation back isCall begins indented
  obtain ⟨found, member, covers⟩ := @Pattern.exists_mem_searchBehind (renderCall root) [] front _ next reads
  refine ⟨found, member, ?_⟩
  by_contra elsewhere
  obtain ⟨notBehind, within⟩ := covers.resolve_left elsewhere
  obtain ⟨passed, ahead, split, foundHere⟩ := Pattern.find_of_mem_all member
  obtain ⟨there, readsThere, rfl⟩ := Pattern.reads_of_find foundHere
  obtain ⟨lead, word, areLead, spaced, passes⟩ := exists_of_reads_renderCall readsThere
  have before : passed.length < front.length := Nat.lt_of_le_of_ne notBehind elsewhere
  obtain ⟨more, rfl, rfl⟩ := exists_over_break split begins before
  have areTokens := areTokens_render isName
  have overBreak : lead ++ (word ++ there.ahead) = more ++ '\n' :: (indentation ++ (use ++ back)) := by
    rw [← List.append_assoc]
    exact passes.ahead_eq.symm
  have reached := passes.offset_eq
  simp only [Cursor.between, List.nil_append, List.length_append, List.length_singleton] at reached within
  obtain ⟨_, later, others, isSplit, some, spacedLater, same⟩ :=
    spaced.exists_later areTokens (not_mem_break_of_indented areLead) overBreak
      (by rw [List.length_append]; omega)
      (fun c member => Character.isBlank_of_isIndent (indented c member)) (isCall.begins areTokens back)
  exact not_later_render isName isCall isSplit some spacedLater same

/-- A guard that begins its line is found there, or stands directly behind another guard. -/
theorem exists_rootGuard_match (isName : Imports.IsName root) (isGuard : Spaced (guardTokens root) use)
    (begins : front.getLast?.all (· == '\n') = true) (indented : ∀ c ∈ indentation, Text.isIndent c = true) :
    (∃ found ∈ (rootGuard root).all (front ++ (indentation ++ (use ++ back))), found.start = front.length) ∨
      ∃ passed guard between, front ++ indentation = passed ++ (guard ++ between) ∧
        Spaced (guardTokens root) guard ∧ Text.isBlank between = true := by
  obtain ⟨next, reads⟩ := @exists_reads_rootGuard root use front indentation back isGuard begins indented
  obtain ⟨found, member, covers⟩ := @Pattern.exists_mem_searchBehind (rootGuard root) [] front _ next reads
  by_cases here : found.start = front.length
  · exact Or.inl ⟨found, member, here⟩
  · refine Or.inr ?_
    obtain ⟨notBehind, within⟩ := covers.resolve_left here
    obtain ⟨passed, ahead, split, foundHere⟩ := Pattern.find_of_mem_all member
    obtain ⟨there, readsThere, rfl⟩ := Pattern.reads_of_find foundHere
    obtain ⟨lead, word, between, areLead, spaced, blank, passes⟩ := exists_of_reads_rootGuard readsThere
    have before : passed.length < front.length := Nat.lt_of_le_of_ne notBehind here
    obtain ⟨more, rfl, rfl⟩ := exists_over_break split begins before
    have areTokens := areTokens_guard isName
    have visible := isGuard.begins areTokens back
    have areIndent : ∀ c ∈ indentation, Character.isBlank c = true :=
      fun c member => Character.isBlank_of_isIndent (indented c member)
    have overBreak : lead ++ (word ++ (between ++ there.ahead)) =
        more ++ '\n' :: (indentation ++ (use ++ back)) := by
      have split := passes.ahead_eq
      simp only [List.append_assoc] at split
      exact split.symm
    have reached := passes.offset_eq
    simp only [Cursor.between, List.nil_append, List.length_append, List.length_singleton] at reached within
    by_cases inWord : more.length < (lead ++ word).length
    · obtain ⟨_, later, others, isSplit, some, spacedLater, same⟩ :=
        spaced.exists_later areTokens (not_mem_break_of_indented areLead) overBreak inWord areIndent visible
      exact absurd same (not_later_guard isName isGuard isSplit some spacedLater)
    · -- The line break is one of the blanks behind the guard that is found.
      rw [← List.append_assoc] at overBreak
      rcases Pattern.cut_of_reach overBreak with ⟨others, isWord⟩ | ⟨deeper, rfl, isRest⟩
      · rw [isWord, List.length_append, List.length_cons] at inWord
        omega
      · rcases Pattern.cut_of_reach isRest with ⟨others, rfl⟩ | ⟨deepest, rfl, -⟩
        · rw [Text.isBlank_iff, List.forall_mem_append, List.forall_mem_cons] at blank
          refine ⟨passed ++ lead, word, deeper ++ '\n' :: indentation, by simp, spaced, ?_⟩
          rw [Text.isBlank_iff, List.forall_mem_append, List.forall_mem_cons]
          exact ⟨blank.1, blank.2.1, areIndent⟩
        · simp only [List.length_append] at within reached
          omega

end Searches

/-! ## Removals -/

/-- What is removed from a line break on goes on over the indentation behind it. -/
theorem lt_stop_of_begins {masked : Text} {start core first offset : Nat} (ends : EndsStatement masked core)
    (isBreak : 0 < first → masked[first - 1]? = some '\n')
    (indented : ∀ between, first ≤ between → between < offset → masked[between]?.any Text.isIndent = true)
    (shown : masked[offset]?.any Character.isBlank = false) (inside : offset < masked.length)
    (reached : first < (removalThroughLine masked start core).stop) :
    offset < (removalThroughLine masked start core).stop := by
  have skipped : core ≤ Text.skip (fun c => Text.isIndent c || c == ';') masked core := Nat.le_add_right _ _
  have notBreak {between : Nat} (behind : core ≤ between)
      (before : between < Text.skip (fun c => Text.isIndent c || c == ';') masked core) :
      masked[between]? ≠ some '\n' := fun isHere =>
    Bool.noConfusion (Text.accepts_of_lt_skip behind before isHere)
  have stops {c : Char} (isHere : masked[Text.skip (fun c => Text.isIndent c || c == ';') masked core]? = some c) :
      Text.isIndent c = false := (Bool.or_eq_false_iff.mp (Text.not_accepts_skip isHere)).1
  by_contra notBehind
  unfold removalThroughLine at reached notBehind
  dsimp only [Edit.deletion] at reached notBehind
  generalize Text.skip (fun c => Text.isIndent c || c == ';') masked core = skip at *
  have notIndented (before : skip < offset) : skip < first := by
    by_contra behind
    have isIndent := indented skip (Nat.le_of_not_lt behind) before
    rw [List.getElem?_eq_getElem (Nat.lt_trans before inside)] at isIndent
    exact Bool.noConfusion (isIndent.symm.trans (stops (List.getElem?_eq_getElem _)))
  split at reached
  next isThere =>
    rw [if_pos isThere] at notBehind
    have before := notIndented (by omega)
    omega
  next isThere =>
    rw [if_neg isThere] at notBehind
    obtain rfl : skip = offset := by
      by_contra differs
      have before := notIndented (by omega)
      omega
    cases ends with
    | @behind last c isLast visible =>
        -- What is skipped does not reach over the line break in front of the indentation.
        by_cases onLine : first ≤ last
        · have isIndent := indented last onLine (by omega)
          rw [isLast] at isIndent
          exact Bool.noConfusion (visible.symm.trans (Character.isBlank_of_isIndent isIndent))
        · have isHere := isBreak (by omega)
          by_cases same : last = first - 1
          · rw [same, isHere] at isLast
            obtain rfl := Option.some.inj isLast
            exact absurd visible (by decide)
          · exact notBreak (by omega) (by omega) isHere
    | @atLineEnd place visible =>
        rw [Source.lineEndFrom] at skipped notBreak
        cases isFound : Text.offsetOf? '\n' masked place with
        | none =>
            rw [isFound] at skipped
            exact absurd (Nat.lt_of_lt_of_le inside skipped) (Nat.lt_irrefl _)
        | some ended =>
            obtain ⟨-, isHere, -⟩ := Text.of_offsetOf? isFound
            rw [isFound] at skipped notBreak
            rcases Nat.lt_or_eq_of_le skipped with before | rfl
            · exact notBreak (Nat.le_refl _) before isHere
            · exact isThere isHere

/-- Every edit of mount code removes a statement through its end. -/
theorem exists_removal_of_mem_mountEdits {masked : Text} {edit : Edit} (member : edit ∈ mountEdits masked) :
    ∃ start core, edit = removalThroughLine masked start core ∧ start < core ∧ EndsStatement masked core := by
  have ofCalls {lead : Pattern} (nonempty : (lead ++ char '(').mayBeEmpty = false)
      (isCall : edit ∈ callRemovals masked (BracketPairs.ofText masked) (lead ++ char '(')) :
      ∃ start core, edit = removalThroughLine masked start core ∧ start < core ∧ EndsStatement masked core := by
    obtain ⟨found, isFound, rfl⟩ := List.mem_map.mp isCall
    obtain ⟨positive, isOpener⟩ := Pattern.getElem?_stop_of_char isFound
    have longer := Pattern.start_lt_stop_of_mem_all nonempty isFound
    obtain ⟨core, same, later, ends⟩ := exists_callRemoval_eq isOpener found.start
    exact ⟨found.start, core, same, by omega, ends⟩
  simp only [mountEdits, List.mem_append, List.mem_flatMap, List.mem_cons, List.not_mem_nil, or_false] at member
  rcases member with ⟨pattern, rfl | rfl | rfl, isCall⟩ | ⟨root, -, isOfRoot⟩
  · exact ofCalls rfl isCall
  · exact ofCalls rfl isCall
  · exact ofCalls rfl isCall
  · rcases List.mem_append.mp isOfRoot with isCall | isGuard
    · exact ofCalls (Bool.and_false _) isCall
    · obtain ⟨found, isFound, rfl⟩ := List.mem_map.mp isGuard
      have nonempty : (rootGuard root).mayBeEmpty = false := by
        change ((_ && false) && true) = false
        rw [Bool.and_false, Bool.false_and]
      have longer := Pattern.start_lt_stop_of_mem_all nonempty isFound
      obtain ⟨core, same, later, ends⟩ := exists_guardRemoval_eq isFound
      exact ⟨found.start, core, same, Nat.lt_of_lt_of_le longer later, ends⟩

section Removed

variable {root masked use : Text} {offset : Nat}

/-- From the beginning of the line of a use that is alone there, mount code is removed. -/
theorem exists_mountEdit_of_begins {front indentation back : Text} (declared : root ∈ rootVariables masked)
    (isUse : IsUse root use) (split : masked = front ++ (indentation ++ (use ++ back)))
    (begins : front.getLast?.all (· == '\n') = true) (indented : ∀ c ∈ indentation, Text.isIndent c = true)
    (apart : Spaced (guardTokens root) use → ∀ passed guard between,
      front ++ indentation = passed ++ (guard ++ between) → Spaced (guardTokens root) guard →
        Text.isBlank between = false) :
    ∃ edit ∈ mountEdits masked, edit.start = front.length := by
  have isName := isName_of_mem_rootVariables declared
  have member {edit : Edit} (isOfRoot : edit ∈ variableRemovals masked (BracketPairs.ofText masked) root) :
      edit ∈ mountEdits masked :=
    List.mem_append_right _ (List.mem_flatMap.mpr ⟨root, declared, isOfRoot⟩)
  rcases isUse with isCall | isGuard
  · obtain ⟨found, isFound, isHere⟩ :=
      @exists_renderCall_match root use front indentation back isName isCall begins indented
    rw [← split] at isFound
    refine ⟨_, member (List.mem_append_left _ (List.mem_map_of_mem isFound)), ?_⟩
    exact isHere
  · rcases @exists_rootGuard_match root use front indentation back isName isGuard begins indented with
      ⟨found, isFound, isHere⟩ | ⟨passed, guard, between, isSplit, spaced, blank⟩
    · rw [← split] at isFound
      obtain ⟨core, same, -, -⟩ := exists_guardRemoval_eq isFound
      refine ⟨_, member (List.mem_append_right _ (List.mem_map_of_mem isFound)), ?_⟩
      rw [same]
      exact isHere
    · exact Bool.noConfusion ((apart isGuard passed guard between isSplit spaced).symm.trans blank)

/-- A use that is alone on its line is removed with the mount code. -/
theorem exists_made_of_isAlone (declared : root ∈ rootVariables masked) (used : UsedAt root masked offset use)
    (alone : IsAlone root masked offset use) :
    ∃ edit ∈ Edit.made (mountEdits masked), edit.start ≤ offset ∧ offset < edit.stop := by
  obtain ⟨before, back, split, length, -⟩ := used.stands
  obtain ⟨front, indentation, isFront, begins, indented⟩ := alone.begins
  have inFront : masked.take offset = before := by rw [split, List.take_left' length]
  obtain rfl : before = front ++ indentation := inFront.symm.trans isFront
  have isName := isName_of_mem_rootVariables declared
  have visible : (use ++ back).head?.any Character.isBlank = false :=
    used.isUse.elim (fun isCall => isCall.begins (areTokens_render isName) back)
      fun isGuard => isGuard.begins (areTokens_guard isName) back
  have some := used.isUse.ne_nil isName
  have positive := List.length_pos_iff.mpr some
  obtain ⟨edit, isEdit, isHere⟩ := exists_mountEdit_of_begins declared used.isUse
    (by rw [split, List.append_assoc]) begins indented (isFront ▸ alone.apart)
  have longer : ∀ edit ∈ mountEdits masked, edit.start < edit.stop := by
    intro edit member
    obtain ⟨start, core, rfl, ordered, -⟩ := exists_removal_of_mem_mountEdits member
    exact Nat.lt_of_lt_of_le ordered (le_stop_removalThroughLine masked start core)
  -- The edit itself may be passed over for one that begins in front of it and reaches over its beginning.
  obtain ⟨made, isMade, starts, stops⟩ := Edit.exists_made longer isEdit
  have isMount : made ∈ mountEdits masked := Edit.mem_of_mem_sorted.mp (Edit.applied_subset 0 _ isMade)
  obtain ⟨start, core, rfl, -, ends⟩ := exists_removal_of_mem_mountEdits isMount
  rw [isHere] at starts stops
  rw [List.length_append] at length
  refine ⟨_, isMade, by omega, lt_stop_of_begins ends (fun behind => ?_) (fun place from_ before => ?_) ?_ ?_ stops⟩
  · obtain ⟨more, last, rfl⟩ := (List.eq_nil_or_concat front).resolve_left (List.length_pos_iff.mp behind)
    obtain rfl : last = '\n' := by simpa [List.getLast?_append] using begins
    simp [split]
  · have within : place - front.length < indentation.length := by omega
    rw [split, List.append_assoc, List.getElem?_append_right from_, List.getElem?_append_left within,
      List.getElem?_eq_getElem within]
    exact indented _ (List.getElem_mem within)
  · rw [split, List.getElem?_append_right (by simp; omega), List.length_append, length, Nat.sub_self,
      ← List.head?_eq_getElem?]
    exact visible
  · simp only [split, List.length_append]
    omega

end Removed

/-! ## Uses that are left -/

/-- The edits of a component source in the order of the stage: those of its mount code, of its default export
without a name, and of its default exports. -/
def dismounting (catalog : Catalog) (text : Text) : List (List Edit) :=
  let unmounted := (stripMountCode text).1
  [mountEdits (mask text), (namingEdit? (mask unmounted) catalog.rootName).toList,
    defaultExportEdits (mask (nameAnonymousDefault unmounted catalog.rootName))]

theorem stripMountCode_fst (text : Text) :
    (stripMountCode text).1 = Edit.applyAll (mountEdits (mask text)) text := by
  unfold stripMountCode
  dsimp only
  split
  next isNone =>
    have noEdits : mountEdits (mask text) = [] := by simpa using isNone
    rw [noEdits, Edit.applyAll_nil]
  next => rfl

theorem nameAnonymousDefault_eq (text rootName : Text) :
    nameAnonymousDefault text rootName = Edit.applyAll (namingEdit? (mask text) rootName).toList text := by
  unfold nameAnonymousDefault
  split
  next isNone => rw [isNone, Option.toList_none, Edit.applyAll_nil]
  next edit isSome => rw [isSome, Option.toList_some]

/-- The edits make of a source what the root is looked for in. -/
theorem applyEach_dismounting (catalog : Catalog) (text : Text) :
    Edit.applyEach (dismounting catalog text) text = stripped catalog text := by
  simp only [dismounting, Edit.applyEach_cons, Edit.applyEach_nil]
  rw [← stripMountCode_fst, ← nameAnonymousDefault_eq]
  rfl

/-- Whether the edits carry a stretch of a component source, as it is, to a place. -/
def IsKept (catalog : Catalog) (text : Text) (place offset length : Nat) : Prop :=
  ∃ taken given, Edit.CarriesThrough (dismounting catalog text) text place offset length taken given

theorem IsKept.misses {catalog : Catalog} {text : Text} {place offset length : Nat}
    (kept : IsKept catalog text place offset length) :
    ∀ edit ∈ Edit.made (mountEdits (mask text)), edit.Misses offset (offset + length) := by
  obtain ⟨taken, given, carried⟩ := kept
  unfold dismounting at carried
  cases carried with
  | step carries _ => exact carries.misses

/-- Whether no use of a variable stands in a masked source. -/
def HasNoUse (root masked : Text) : Prop :=
  ∀ offset use, ¬UsedAt root masked offset use

/-- Whether every use of a variable that is left was kept from a use of the source. -/
def BringsNoUse (catalog : Catalog) (text root : Text) : Prop :=
  ∀ place use, UsedAt root (mask (componentEntry catalog text).1) place use →
    ∃ offset, IsKept catalog text place offset use.length ∧ UsedAt root (mask text) offset use

/-- Whether no use of the source that is not alone on its line is left. -/
def LeavesNoneCrowded (catalog : Catalog) (text root : Text) : Prop :=
  ∀ place offset use, UsedAt root (mask text) offset use → ¬IsAlone root (mask text) offset use →
    IsKept catalog text place offset use.length →
      ¬UsedAt root (mask (componentEntry catalog text).1) place use

/-- No use of a variable whose declaration is removed is left, just if the edits bring none about and leave none
of those that are not alone on their line.  Those that are alone go, whatever else is removed around them. -/
theorem hasNoUse_componentEntry_iff {catalog : Catalog} {text root : Text}
    (declared : root ∈ rootVariables (mask text)) :
    HasNoUse root (mask (componentEntry catalog text).1) ↔
      BringsNoUse catalog text root ∧ LeavesNoneCrowded catalog text root := by
  constructor
  · intro noUse
    exact ⟨fun place use left => absurd left (noUse place use), fun place _ use _ _ _ => noUse place use⟩
  · rintro ⟨noneNew, noneCrowded⟩ place use left
    obtain ⟨offset, kept, used⟩ := noneNew place use left
    refine noneCrowded place offset use used (fun alone => ?_) kept left
    obtain ⟨edit, isMade, starts, stops⟩ := exists_made_of_isAlone declared used alone
    have some := List.length_pos_iff.mpr (used.isUse.ne_nil (isName_of_mem_rootVariables declared))
    rcases kept.misses edit isMade with isBefore | isBehind
    · omega
    · omega

/-- A call of `render` on the line of the declaration of its root. -/
def crowdedRender : Text :=
  "const App = () => <Canvas />;\nconst root = createRoot(el); root.render(<App />);\n".toList

theorem hasNoUse_componentEntry_crowdedRender :
    "root".toList ∈ rootVariables (mask crowdedRender) ∧
      (HasNoUse "root".toList (mask (componentEntry (Catalog.packaged .reactThreeFiber) crowdedRender).1) ↔
        BringsNoUse (Catalog.packaged .reactThreeFiber) crowdedRender "root".toList ∧
          LeavesNoneCrowded (Catalog.packaged .reactThreeFiber) crowdedRender "root".toList) := by
  have declared : "root".toList ∈ rootVariables (mask crowdedRender) := by decide +kernel
  exact ⟨declared, hasNoUse_componentEntry_iff declared⟩

/-- The declaration goes, and the call is left without it. -/
theorem not_hasNoUse_crowdedRender :
    "root".toList ∈ rootVariables (mask crowdedRender) ∧
      ¬HasNoUse "root".toList (mask (componentEntry (Catalog.packaged .reactThreeFiber) crowdedRender).1) := by
  have tokens : Spaced (renderTokens "root".toList) "root.render(".toList := by
    have same : "root.render(".toList =
        "root".toList ++ ([] ++ (['.'] ++ ([] ++ ("render".toList ++ ([] ++ ['(']))))) := by
      decide
    rw [same]
    exact .more rfl (.more rfl (.more rfl (.last _)))
  refine ⟨by decide +kernel, fun noUse => noUse 30 "root.render(".toList ⟨Or.inl tokens, ?_⟩⟩
  refine ⟨(mask (componentEntry (Catalog.packaged .reactThreeFiber) crowdedRender).1).take 30,
    (mask (componentEntry (Catalog.packaged .reactThreeFiber) crowdedRender).1).drop 42, ?_, ?_, ?_⟩
  · decide +kernel
  · decide +kernel
  · decide +kernel

end SceneBundler.Entry
