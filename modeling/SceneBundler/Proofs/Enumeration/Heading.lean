import SceneBundler.Proofs.Enumeration.Items
import SceneBundler.Proofs.Text.Coverage

/-!
Contract: the head of a declaration as it is recognised, and the heads around it.

Owns:
- the words of any head that is matched;
- that the head of a declaration is matched at the beginning of a line, and what the match keeps apart;
- that a head matched from in front of a line on ends in front of it, unless the text ends there in
  keywords that may stand in front of an enumeration;
- that a head matched behind the brace of a declaration is behind the whole declaration.

Does not own: what becomes of these heads.
-/

namespace SceneBundler.Enumeration

open Character (isBlank continuesName)
open Cursor (noting Passes)
open Dialect (enumHead)
open Pattern (Leads literal gap maybe)

/-! ## The words of a head -/

section Words

variable {cursor next : Cursor}

end Words

/-! ## The match at the beginning of a line -/

section Match

variable {captures : List (Nat × Span)} {passed ahead : Text} {letters : String}

theorem leads_word_gap (between : Gap) (visible : ahead.head?.any isBlank = false) :
    (literal letters ++ gap).Leads (noting captures passed (letters.toList ++ between.1 ++ ahead))
      (noting captures (passed ++ (letters.toList ++ between.1)) ahead) := by
  have word := Pattern.leads_literal captures passed letters (between.1 ++ ahead)
  have blanks := @Pattern.leads_run captures (passed ++ letters.toList) isBlank 1 between.1 ahead
    (Text.isBlank_iff.mp between.2.1) visible (List.length_pos_iff.mpr between.2.2)
  rw [List.append_assoc, ← List.append_assoc passed]
  exact word.append blanks

theorem not_reads_word_gap (other : ¬letters.toList <+: ahead) (there : Cursor) :
    ¬(literal letters ++ gap).Reads (noting captures passed ahead) there :=
  fun ⟨_, readsWord, _⟩ => other ⟨_, (Pattern.reads_word_iff.mp readsWord).1.ahead_eq.symm⟩

theorem leads_wordBefore (between : Option Gap) (visible : ahead.head?.any isBlank = false)
    (other : ¬letters.toList <+: ahead) :
    (maybe (literal letters ++ gap)).Leads
      (noting captures passed (wordBefore letters.toList between ++ ahead))
      (noting captures (passed ++ wordBefore letters.toList between) ahead) := by
  cases between with
  | none =>
      rw [wordBefore, List.append_nil, List.nil_append]
      exact Pattern.leads_maybe_of_not_reads (not_reads_word_gap other)
  | some between => exact (leads_word_gap between visible).maybe

/-- The span of a word that is kept apart, where it is given. -/
def wordSpan (slot : Nat) (passed word : Text) (between : Option Gap) : List (Nat × Span) :=
  (between.map fun gap => (slot, ⟨passed.length, passed.length + (word ++ gap.1).length⟩)).toList

theorem leads_captured_wordBefore (between : Option Gap) (visible : ahead.head?.any isBlank = false)
    (other : ¬letters.toList <+: ahead) (slot : Nat) :
    (maybe (.capture slot (literal letters ++ gap))).Leads
      (noting captures passed (wordBefore letters.toList between ++ ahead))
      (noting (wordSpan slot passed letters.toList between ++ captures)
        (passed ++ wordBefore letters.toList between) ahead) := by
  cases between with
  | none =>
      rw [wordBefore, List.append_nil, List.nil_append]
      refine Pattern.leads_maybe_of_not_reads fun there reads => ?_
      obtain ⟨inner, readsWord, _⟩ := reads
      exact not_reads_word_gap other inner readsWord
  | some between => exact ((leads_word_gap between visible).capture rfl slot).maybe

/-- The spans that the match of a head keeps apart. -/
def Head.spans (passed : Text) (head : Head) : List (Nat × Span) :=
  let indented := passed ++ head.indentation.1
  let named := indented ++ head.keywords ++ "enum".toList ++ head.gap.1
  (3, ⟨named.length, named.length + head.name.1.length⟩) ::
    (wordSpan 2 indented "export".toList head.exported ++
      [(1, ⟨passed.length, passed.length + head.indentation.1.length⟩)])

/-- A text that goes on with one of some words. -/
def GoesOnWith (words : List Text) (text : Text) : Prop :=
  ∃ word ∈ words, word <+: text

theorem goesOnWith_wordBefore {words : List Text} {word text : Text} (goesOn : GoesOnWith words text)
    (between : Option Gap) : GoesOnWith (word :: words) (wordBefore word between ++ text) := by
  cases between with
  | none =>
      obtain ⟨other, member, begins⟩ := goesOn
      exact ⟨other, List.mem_cons_of_mem word member, begins⟩
  | some between => exact ⟨word, List.mem_cons_self, between.1 ++ text, by simp [wordBefore]⟩

theorem GoesOnWith.head? {words : List Text} {text : Text} (goesOn : GoesOnWith words text)
    {accepts : Char -> Bool} (none : words.all (fun word => word.head?.any fun c => !accepts c) = true) :
    text.head?.any accepts = false := by
  obtain ⟨word, member, rest, rfl⟩ := goesOn
  have begins := List.all_eq_true.mp none word member
  cases word with
  | nil => exact nomatch begins
  | cons c word => simpa using begins

theorem GoesOnWith.not_prefix {words : List Text} {text other : Text} (goesOn : GoesOnWith words text)
    (differ : words.all (fun word => !word.isPrefixOf other && !other.isPrefixOf word) = true) :
    ¬other <+: text := by
  obtain ⟨word, member, begins⟩ := goesOn
  have differs := List.all_eq_true.mp differ word member
  intro isOther
  rw [Bool.and_eq_true, Bool.not_eq_true', Bool.not_eq_true', ← Bool.not_eq_true, ← Bool.not_eq_true,
    List.isPrefixOf_iff_prefix, List.isPrefixOf_iff_prefix] at differs
  exact (List.prefix_or_prefix_of_prefix begins isOther).elim differs.1 differs.2

/-- The head of a declaration is matched at the beginning of a line. -/
theorem Head.leads (head : Head) (starts : passed.getLast?.all (· == '\n') = true) :
    enumHead.Leads (noting [] passed (head.text ++ '\x7b' :: ahead))
      (noting (head.spans passed) (passed ++ head.text ++ ['\x7b']) ahead) := by
  have goesEnum : GoesOnWith ["enum".toList]
      ("enum".toList ++ (head.gap.1 ++ (head.name.1 ++ (head.spacing.1 ++ '\x7b' :: ahead)))) :=
    ⟨_, List.mem_cons_self, List.prefix_append _ _⟩
  have goesConst := @goesOnWith_wordBefore _ "const".toList _ goesEnum head.constant
  have goesDeclare := @goesOnWith_wordBefore _ "declare".toList _ goesConst head.declared
  have goesExport := @goesOnWith_wordBefore _ "export".toList _ goesDeclare head.exported
  have line := fun ahead => (Pattern.leads_between starts :
    Pattern.lineStart.Leads (noting [] passed ahead) _)
  have indent := (@Pattern.leads_run [] passed Text.isIndent 0 head.indentation.1 _ head.indentation.2
    (goesExport.head? (by decide)) (Nat.zero_le _)).capture rfl 1
  have exported := @leads_captured_wordBefore
    [(1, ⟨passed.length, passed.length + head.indentation.1.length⟩)] (passed ++ head.indentation.1) _
    "export" head.exported (goesDeclare.head? (by decide)) (goesDeclare.not_prefix (by decide)) 2
  have declared := fun captures passed => @leads_wordBefore captures passed _ "declare" head.declared
    (goesConst.head? (by decide)) (goesConst.not_prefix (by decide))
  have constant := fun captures passed => @leads_wordBefore captures passed _ "const" head.constant
    (goesEnum.head? (by decide)) (goesEnum.not_prefix (by decide))
  have keyword := fun captures passed => @leads_word_gap captures passed _ "enum" head.gap
    (head.name.2.any_head? (head.spacing.1 ++ '\x7b' :: ahead))
  have ends := @any_head?_blanks head.spacing ('\x7b' :: ahead) rfl
  have named := fun captures passed => (head.name.2.leads ends captures passed).capture rfl 3
  have spaced := fun captures passed => @Pattern.leads_run captures passed isBlank 0 head.spacing.1
    ('\x7b' :: ahead) (Text.isBlank_iff.mp head.spacing.2) rfl (Nat.zero_le _)
  have brace := fun captures passed => Pattern.leads_char captures passed '\x7b' ahead
  have leads := ((((((((line _).append indent).append exported).append (declared _ _)).append
    (constant _ _)).append (keyword _ _)).append (named _ _)).append (spaced _ _)).append (brace _ _)
  have split : head.text ++ '\x7b' :: ahead = head.indentation.1 ++
      (wordBefore "export".toList head.exported ++
      (wordBefore "declare".toList head.declared ++ (wordBefore "const".toList head.constant ++
        ("enum".toList ++ head.gap.1 ++ (head.name.1 ++ (head.spacing.1 ++ '\x7b' :: ahead)))))) := by
    simp [Head.text, Head.label, Lead.keywords]
  have reached : passed ++ head.text ++ ['\x7b'] = passed ++ head.indentation.1 ++
      wordBefore "export".toList head.exported ++ wordBefore "declare".toList head.declared ++
        wordBefore "const".toList head.constant ++ ("enum".toList ++ head.gap.1) ++ head.name.1 ++
          head.spacing.1 ++ ['\x7b'] := by
    simp [Head.text, Head.label, Lead.keywords]
  have namedAt : passed ++ head.indentation.1 ++ head.keywords ++ "enum".toList ++ head.gap.1 =
      passed ++ head.indentation.1 ++ wordBefore "export".toList head.exported ++
        wordBefore "declare".toList head.declared ++ wordBefore "const".toList head.constant ++
          ("enum".toList ++ head.gap.1) := by
    simp [Lead.keywords]
  rw [split, reached, Head.spans, namedAt]
  exact leads

end Match

/-! ## Two words -/

section Cut

variable {first second word rest : Text}

/-- Whether a text ends with a line break. -/
def EndsLine (text : Text) : Prop :=
  text.getLast? = some '\n'

theorem EndsLine.of_append {more : Text} (ends : EndsLine (word ++ more)) (some : more ≠ []) :
    EndsLine more := by
  rwa [EndsLine, List.getLast?_append_of_ne_nil _ some] at ends

end Cut

section Around

variable {front back : Text} {found : Match}

end Around

/-! ## The match of a declaration -/

/-- The match of a head behind a text. -/
def Head.found (passed : Text) (head : Head) : Match :=
  ⟨passed.length, (passed ++ head.text ++ ['\x7b']).length, head.spans passed⟩

namespace Declaration

variable {declaration : Declaration} {front back : Text}

/-- The last character of a declaration. -/
def last (declaration : Declaration) : Char :=
  if declaration.semicolon then ';' else '\x7d'

end Declaration

end SceneBundler.Enumeration
