import SceneBundler.Proofs.Text.Matching

/-!
Contract: what a search of a text for a pattern finds, and what stands at an offset.

Owns:
- the places of a text, as cuts in two;
- that a pattern occurs just if it can be read from some place on;
- that every match of a successive search is the match at some place, and lies within the text;
- what is captured by patterns that capture words of one kind only;
- the character, the skipped characters, the slice, the word and the cursor behind the beginning of a text.

Does not own: which of several matches are found.
-/

namespace SceneBundler

/-- The place between two parts of a text. -/
def Cursor.between (passed ahead : Text) : Cursor :=
  ⟨passed.getLast?, ahead, passed.length, []⟩

/-- Going over a word moves the cut behind it. -/
theorem Cursor.passes_between (passed word ahead : Text) :
    Passes word (Cursor.between passed (word ++ ahead)) (Cursor.between (passed ++ word) ahead) :=
  ⟨rfl, by simp [Cursor.between], by simp [Cursor.between, List.getLast?_append]⟩

namespace Pattern

/-! ## Readings at a cut -/

theorem reads_word_between (passed word ahead : Text) :
    (Pattern.word word).Reads (Cursor.between passed (word ++ ahead))
      (Cursor.between (passed ++ word) ahead) :=
  reads_word_iff.mpr ⟨Cursor.passes_between passed word ahead, rfl⟩

theorem reads_run_between (accepts : Char -> Bool) (least : Nat) (fewest : Bool)
    (passed word ahead : Text) (accepted : ∀ c ∈ word, accepts c = true)
    (enough : least ≤ word.length) :
    (run accepts least none fewest).Reads (Cursor.between passed (word ++ ahead))
      (Cursor.between (passed ++ word) ahead) :=
  reads_run accepted enough (Cursor.passes_between passed word ahead) rfl

/-! ## Searches -/

theorem isSome_find_iff {pattern : Pattern} {cursor : Cursor} :
    (pattern.find cursor).isSome ↔ ∃ next, pattern.Reads cursor next := by
  rw [find, Option.isSome_map, matchAt?, isSome_matchThen_iff]
  simp

theorem isSome_firstFrom?_iff (pattern : Pattern) (passed ahead : Text) :
    (pattern.firstFrom? passed.getLast? passed.length ahead).isSome ↔
      ∃ more rest next, ahead = more ++ rest ∧
        pattern.Reads (Cursor.between (passed ++ more) rest) next := by
  induction ahead generalizing passed with
  | nil =>
      rw [firstFrom?, isSome_find_iff]
      constructor
      · intro ⟨next, reads⟩
        exact ⟨[], [], next, rfl, by simpa [Cursor.between] using reads⟩
      · intro ⟨more, rest, next, split, reads⟩
        obtain ⟨rfl, rfl⟩ := List.append_eq_nil_iff.mp split.symm
        exact ⟨next, by simpa [Cursor.between] using reads⟩
  | cons c rest inductionHypothesis =>
      have beyond := inductionHypothesis (passed ++ [c])
      simp only [List.getLast?_append, List.getLast?_singleton, List.length_append,
        List.length_singleton, Option.some_or] at beyond
      rw [firstFrom?]
      split
      next found foundHere =>
        have here := isSome_find_iff.mp (Option.isSome_iff_exists.mpr ⟨found, foundHere⟩)
        obtain ⟨next, reads⟩ := here
        refine iff_of_true rfl ⟨[], c :: rest, next, rfl, ?_⟩
        simpa [Cursor.between] using reads
      next notHere =>
        rw [beyond]
        constructor
        · intro ⟨more, last, next, split, reads⟩
          exact ⟨c :: more, last, next, by rw [split]; rfl, by simpa using reads⟩
        · intro ⟨more, last, next, split, reads⟩
          cases more with
          | nil =>
              obtain rfl : c :: rest = last := split
              have here := isSome_find_iff.mpr ⟨next, reads⟩
              simp [Cursor.between, notHere] at here
          | cons d more =>
              obtain ⟨rfl, rfl⟩ := List.cons.inj split
              exact ⟨more, last, next, rfl, by simpa using reads⟩

/-- A pattern occurs in a text just if it can be read from some place of the text on. -/
theorem occursIn_iff {pattern : Pattern} {text : Text} :
    pattern.occursIn text = true ↔
      ∃ passed ahead next, text = passed ++ ahead ∧
        pattern.Reads (Cursor.between passed ahead) next := by
  have somewhere := isSome_firstFrom?_iff pattern [] text
  simp only [List.getLast?_nil, List.length_nil, List.nil_append] at somewhere
  rw [occursIn, first?, somewhere]

theorem mem_collect {pattern : Pattern} {found : Match} (passed : Text) {ahead : Text} {busy : Nat}
    {earlier : List Match}
    (member : found ∈ pattern.collect busy passed.getLast? passed.length ahead earlier) :
    found ∈ earlier ∨ ∃ more rest, ahead = more ++ rest ∧
      pattern.find (Cursor.between (passed ++ more) rest) = some found := by
  induction ahead generalizing passed busy earlier with
  | nil =>
      cases busy with
      | zero =>
          rw [collect] at member
          split at member
          next here foundHere =>
            rcases List.mem_cons.mp member with isHere | isEarlier
            · refine Or.inr ⟨[], [], rfl, ?_⟩
              simpa [Cursor.between, isHere] using foundHere
            · exact Or.inl isEarlier
          next => exact Or.inl member
      | succ busy => exact Or.inl member
  | cons c rest inductionHypothesis =>
      have beyond {busy : Nat} {earlier : List Match}
          (member : found ∈ pattern.collect busy (some c) (passed.length + 1) rest earlier) :
          found ∈ earlier ∨ ∃ more last, c :: rest = more ++ last ∧
            pattern.find (Cursor.between (passed ++ more) last) = some found := by
        have later := @inductionHypothesis (passed ++ [c]) busy earlier (by simpa using member)
        rcases later with isEarlier | ⟨more, last, split, foundThere⟩
        · exact Or.inl isEarlier
        · refine Or.inr ⟨c :: more, last, by rw [split]; rfl, ?_⟩
          simpa using foundThere
      cases busy with
      | zero =>
          rw [collect] at member
          split at member
          next here foundHere =>
            rcases beyond member with isHereOrEarlier | isLater
            · rcases List.mem_cons.mp isHereOrEarlier with isHere | isEarlier
              · refine Or.inr ⟨[], c :: rest, rfl, ?_⟩
                simpa [Cursor.between, isHere] using foundHere
              · exact Or.inl isEarlier
            · exact Or.inr isLater
          next => exact beyond member
      | succ busy => exact beyond member

/-- Every match of a search is the match at some place of the text. -/
theorem find_of_mem_all {pattern : Pattern} {text : Text} {found : Match}
    (member : found ∈ pattern.all text) :
    ∃ passed ahead, text = passed ++ ahead ∧
      pattern.find (Cursor.between passed ahead) = some found := by
  have collected := mem_collect [] (List.mem_reverse.mp member)
  simpa using collected

/-- The first match of a search is the match at some place of the text. -/
theorem find_of_firstFrom? {pattern : Pattern} {found : Match} (passed : Text) {ahead : Text}
    (foundFirst : pattern.firstFrom? passed.getLast? passed.length ahead = some found) :
    ∃ more rest, ahead = more ++ rest ∧
      pattern.find (Cursor.between (passed ++ more) rest) = some found := by
  induction ahead generalizing passed with
  | nil =>
      rw [firstFrom?] at foundFirst
      exact ⟨[], [], rfl, by simpa [Cursor.between] using foundFirst⟩
  | cons c rest inductionHypothesis =>
      rw [firstFrom?] at foundFirst
      split at foundFirst
      next here foundHere =>
        obtain rfl := Option.some.inj foundFirst
        exact ⟨[], c :: rest, rfl, by simpa [Cursor.between] using foundHere⟩
      next =>
        obtain ⟨more, last, split, foundThere⟩ :=
          inductionHypothesis (passed ++ [c]) (by simpa using foundFirst)
        exact ⟨c :: more, last, by rw [split]; rfl, by simpa using foundThere⟩

theorem find_of_first? {pattern : Pattern} {text : Text} {found : Match}
    (foundFirst : pattern.first? text = some found) :
    ∃ passed ahead, text = passed ++ ahead ∧
      pattern.find (Cursor.between passed ahead) = some found := by
  simpa using find_of_firstFrom? [] foundFirst

theorem reads_of_find {pattern : Pattern} {cursor : Cursor} {found : Match}
    (foundHere : pattern.find cursor = some found) :
    ∃ next, pattern.Reads cursor next ∧ found = ⟨cursor.offset, next.offset, next.captures⟩ := by
  obtain ⟨final, matched, rfl⟩ := Option.map_eq_some_iff.mp foundHere
  obtain ⟨next, reads, finished⟩ := reads_of_matchThen matched
  exact ⟨next, reads, by rw [Option.some.inj finished]⟩

end Pattern

/-! ## Captures -/

namespace Cursor

/-- Whether a cursor is a place of a text. -/
def IsIn (text : Text) (cursor : Cursor) : Prop :=
  ∃ passed, text = passed ++ cursor.ahead ∧ cursor.offset = passed.length

/-- Whether everything captured so far is a stretch of a text with a property. -/
def CapturesHold (text : Text) (holds : Text -> Prop) (cursor : Cursor) : Prop :=
  ∀ entry ∈ cursor.captures, entry.2.stop ≤ text.length ∧ holds (entry.2.of text)

theorem isIn_between (passed ahead : Text) : (between passed ahead).IsIn (passed ++ ahead) :=
  ⟨passed, rfl, rfl⟩

theorem IsIn.of_passes {text word : Text} {cursor next : Cursor} (isIn : cursor.IsIn text)
    (passes : Passes word cursor next) : next.IsIn text := by
  obtain ⟨passed, split, offset⟩ := isIn
  refine ⟨passed ++ word, ?_, ?_⟩
  · rw [split, passes.ahead_eq, List.append_assoc]
  · rw [passes.offset_eq, offset, List.length_append]

/-- The span between two places covers the word between them. -/
theorem IsIn.span_of {text word : Text} {cursor next : Cursor} (isIn : cursor.IsIn text)
    (passes : Passes word cursor next) :
    next.offset ≤ text.length ∧ (Span.mk cursor.offset next.offset).of text = word := by
  obtain ⟨passed, rfl, offset⟩ := isIn
  rw [passes.offset_eq, passes.ahead_eq, offset, Span.of, Text.slice]
  refine ⟨by simp, ?_⟩
  rw [List.drop_left, Nat.add_sub_cancel_left, List.take_left]

end Cursor

namespace Pattern

open Cursor (Passes)

/-- Whether everything that a pattern captures has a property. -/
def CapturesOnly (holds : Text -> Prop) : Pattern -> Prop
  | sequence first second => first.CapturesOnly holds ∧ second.CapturesOnly holds
  | either first second => first.CapturesOnly holds ∧ second.CapturesOnly holds
  | many body => body.CapturesOnly holds
  | capture _ body =>
      body.CapturesOnly holds ∧
        ∀ cursor next word, body.Reads cursor next -> Passes word cursor next -> holds word
  | _ => True

section Building

variable {holds : Text -> Prop} {first second : Pattern}

@[simp] theorem capturesOnly_append :
    (first ++ second).CapturesOnly holds ↔ first.CapturesOnly holds ∧ second.CapturesOnly holds :=
  Iff.rfl

@[simp] theorem capturesOnly_orElse :
    (first <|> second).CapturesOnly holds ↔ first.CapturesOnly holds ∧ second.CapturesOnly holds :=
  Iff.rfl

@[simp] theorem capturesOnly_maybe : (maybe first).CapturesOnly holds ↔ first.CapturesOnly holds :=
  ⟨fun both => both.1, fun only => ⟨only, trivial⟩⟩

@[simp] theorem capturesOnly_word (word : Text) : (Pattern.word word).CapturesOnly holds := by
  induction word with
  | nil => trivial
  | cons c rest inductionHypothesis => exact ⟨trivial, inductionHypothesis⟩

@[simp] theorem capturesOnly_literal (letters : String) :
    (literal letters).CapturesOnly holds :=
  capturesOnly_word letters.toList

@[simp] theorem capturesOnly_one (accepts : Char -> Bool) : (one accepts).CapturesOnly holds :=
  trivial

@[simp] theorem capturesOnly_run (accepts : Char -> Bool) (least : Nat) (most : Option Nat)
    (fewest : Bool) : (run accepts least most fewest).CapturesOnly holds :=
  trivial

@[simp] theorem capturesOnly_between (test : Option Char -> Option Char -> Bool) :
    (between test).CapturesOnly holds :=
  trivial

end Building

theorem capturesHold_of_reads {pattern : Pattern} {holds : Text -> Prop} {text : Text}
    {cursor next : Cursor} (only : pattern.CapturesOnly holds)
    (reads : pattern.Reads cursor next) (isIn : cursor.IsIn text)
    (captured : cursor.CapturesHold text holds) : next.CapturesHold text holds := by
  induction pattern generalizing cursor next with
  | empty => exact reads ▸ captured
  | one accepts =>
      obtain ⟨_, _, _, same⟩ := Cursor.passes_of_step? reads
      intro entry member
      exact captured entry (same ▸ member)
  | sequence first second firstHypothesis secondHypothesis =>
      obtain ⟨middle, readsFirst, readsSecond⟩ := reads
      obtain ⟨word, passes⟩ := passes_of_reads readsFirst
      exact secondHypothesis only.2 readsSecond (isIn.of_passes passes)
        (firstHypothesis only.1 readsFirst isIn captured)
  | either first second firstHypothesis secondHypothesis =>
      rcases reads with readsFirst | readsSecond
      · exact firstHypothesis only.1 readsFirst isIn captured
      · exact secondHypothesis only.2 readsSecond isIn captured
  | many body inductionHypothesis =>
      induction reads with
      | refl => exact captured
      | @tail middle next earlier round capturedEarlier =>
          obtain ⟨word, passes⟩ := @passes_of_reads (many body) _ _ earlier
          exact inductionHypothesis only round.1 (isIn.of_passes passes) capturedEarlier
  | run accepts least most fewest =>
      obtain ⟨_, _, _, same⟩ := Cursor.passes_of_mem_trail (List.mem_filter.mp reads).1
      intro entry member
      exact captured entry (same ▸ member)
  | capture slot body inductionHypothesis =>
      obtain ⟨inner, readsBody, rfl⟩ := reads
      obtain ⟨word, passes⟩ := passes_of_reads readsBody
      obtain ⟨inText, covers⟩ := isIn.span_of passes
      intro entry member
      rcases List.mem_cons.mp member with isThis | isEarlier
      · rw [isThis]
        exact ⟨inText, covers ▸ only.2 _ _ word readsBody passes⟩
      · exact inductionHypothesis only.1 readsBody isIn captured entry isEarlier
  | between test =>
      obtain ⟨_, rfl⟩ := reads
      exact captured
  | ahead expected body _ =>
      obtain ⟨_, rfl⟩ := reads
      exact captured

/-- A match lies in the text, and so does all it captures; what it captures has the property that the
pattern sees to. -/
theorem bounds_of_find {pattern : Pattern} {holds : Text -> Prop} {passed ahead : Text} {found : Match}
    (only : pattern.CapturesOnly holds)
    (foundHere : pattern.find (Cursor.between passed ahead) = some found) :
    found.start ≤ found.stop ∧ found.stop ≤ (passed ++ ahead).length ∧
      ∀ entry ∈ found.captures,
        entry.2.stop ≤ (passed ++ ahead).length ∧ holds (entry.2.of (passed ++ ahead)) := by
  obtain ⟨next, reads, rfl⟩ := reads_of_find foundHere
  obtain ⟨word, passes⟩ := passes_of_reads reads
  have isIn := Cursor.isIn_between passed ahead
  have offset := passes.offset_eq
  refine ⟨by simp only; omega, (isIn.span_of passes).1, ?_⟩
  exact capturesHold_of_reads only reads isIn (by simp [Cursor.CapturesHold, Cursor.between])

/-- The matches of a search lie in the text, and so does all they capture; what they capture has the
property that the pattern sees to. -/
theorem bounds_of_mem_all {pattern : Pattern} {holds : Text -> Prop} {text : Text} {found : Match}
    (only : pattern.CapturesOnly holds) (member : found ∈ pattern.all text) :
    found.start ≤ found.stop ∧ found.stop ≤ text.length ∧
      ∀ entry ∈ found.captures, entry.2.stop ≤ text.length ∧ holds (entry.2.of text) := by
  obtain ⟨passed, ahead, rfl, foundHere⟩ := find_of_mem_all member
  exact bounds_of_find only foundHere

/-- Whether every way through a pattern captures something under a number. -/
def Captures (slot : Nat) : Pattern -> Prop
  | sequence first second => first.Captures slot ∨ second.Captures slot
  | either first second => first.Captures slot ∧ second.Captures slot
  | capture number body => number = slot ∨ body.Captures slot
  | _ => False

@[simp] theorem captures_append {first second : Pattern} {slot : Nat} :
    (first ++ second).Captures slot ↔ first.Captures slot ∨ second.Captures slot :=
  Iff.rfl

@[simp] theorem captures_capture {body : Pattern} {slot number : Nat} :
    (capture number body).Captures slot ↔ number = slot ∨ body.Captures slot :=
  Iff.rfl

/-- What was captured on the way to a place is kept on the way on. -/
theorem captures_subset_of_reads {pattern : Pattern} {cursor next : Cursor}
    (reads : pattern.Reads cursor next) : cursor.captures ⊆ next.captures := by
  induction pattern generalizing cursor next with
  | empty => exact reads ▸ List.Subset.refl _
  | one accepts =>
      obtain ⟨_, _, _, same⟩ := Cursor.passes_of_step? reads
      exact same ▸ List.Subset.refl _
  | sequence first second firstHypothesis secondHypothesis =>
      obtain ⟨middle, readsFirst, readsSecond⟩ := reads
      exact List.Subset.trans (firstHypothesis readsFirst) (secondHypothesis readsSecond)
  | either first second firstHypothesis secondHypothesis =>
      rcases reads with readsFirst | readsSecond
      · exact firstHypothesis readsFirst
      · exact secondHypothesis readsSecond
  | many body bodyHypothesis =>
      induction reads with
      | refl => exact List.Subset.refl _
      | tail _ round earlier => exact List.Subset.trans earlier (bodyHypothesis round.1)
  | run accepts least most fewest =>
      obtain ⟨_, _, _, same⟩ := Cursor.passes_of_mem_trail (List.mem_filter.mp reads).1
      exact same ▸ List.Subset.refl _
  | capture slot body bodyHypothesis =>
      obtain ⟨inner, readsBody, rfl⟩ := reads
      exact List.subset_cons_of_subset _ (bodyHypothesis readsBody)
  | between test =>
      obtain ⟨_, rfl⟩ := reads
      exact List.Subset.refl _
  | ahead expected body _ =>
      obtain ⟨_, rfl⟩ := reads
      exact List.Subset.refl _

theorem exists_capture_of_reads {pattern : Pattern} {slot : Nat} {cursor next : Cursor}
    (captures : pattern.Captures slot) (reads : pattern.Reads cursor next) :
    ∃ span, (slot, span) ∈ next.captures := by
  induction pattern generalizing cursor next with
  | sequence first second firstHypothesis secondHypothesis =>
      obtain ⟨middle, readsFirst, readsSecond⟩ := reads
      rcases captures with inFirst | inSecond
      · obtain ⟨span, member⟩ := firstHypothesis inFirst readsFirst
        exact ⟨span, captures_subset_of_reads readsSecond member⟩
      · exact secondHypothesis inSecond readsSecond
  | either first second firstHypothesis secondHypothesis =>
      rcases reads with readsFirst | readsSecond
      · exact firstHypothesis captures.1 readsFirst
      · exact secondHypothesis captures.2 readsSecond
  | capture number body bodyHypothesis =>
      obtain ⟨inner, readsBody, rfl⟩ := reads
      rcases captures with rfl | inBody
      · exact ⟨_, List.mem_cons_self⟩
      · obtain ⟨span, member⟩ := bodyHypothesis inBody readsBody
        exact ⟨span, List.mem_cons_of_mem _ member⟩
  | empty | one | many | run | between | ahead => exact absurd captures id

/-- A captured text has the property that the pattern sees to, if the pattern is sure to capture it. -/
theorem captured_of_find {pattern : Pattern} {holds : Text -> Prop} {passed ahead : Text} {found : Match}
    (only : pattern.CapturesOnly holds) {slot : Nat} (captures : pattern.Captures slot)
    (foundHere : pattern.find (Cursor.between passed ahead) = some found) :
    holds (found.captured (passed ++ ahead) slot) := by
  obtain ⟨_, _, captured⟩ := bounds_of_find only foundHere
  obtain ⟨next, reads, rfl⟩ := reads_of_find foundHere
  obtain ⟨first, isCaptured⟩ := exists_capture_of_reads captures reads
  unfold Match.captured Match.captured? Match.span?
  cases known : next.captures.lookup slot with
  | none =>
      have differs := List.lookup_eq_none_iff.mp known (slot, first) isCaptured
      simp at differs
  | some span =>
      obtain ⟨before, after, split, _⟩ := List.lookup_eq_some_iff.mp known
      exact (captured (slot, span) (by simp [split])).2

theorem captured_of_mem_all {pattern : Pattern} {holds : Text -> Prop} {text : Text} {found : Match}
    (only : pattern.CapturesOnly holds) {slot : Nat} (captures : pattern.Captures slot)
    (member : found ∈ pattern.all text) : holds (found.captured text slot) := by
  obtain ⟨passed, ahead, rfl, foundHere⟩ := find_of_mem_all member
  exact captured_of_find only captures foundHere

end Pattern

/-! ## What stands at an offset -/

namespace Text

variable (passed word rest : Text)

theorem getElem?_behind (c : Char) : (passed ++ c :: rest)[passed.length]? = some c := by
  rw [List.getElem?_append_right (Nat.le_refl _), Nat.sub_self, List.getElem?_cons_zero]

theorem skip_behind {accepts : Char -> Bool} {word rest : Text}
    (accepted : ∀ c ∈ word, accepts c = true) (stops : rest.head?.any accepts = false) :
    skip accepts (passed ++ (word ++ rest)) passed.length = passed.length + word.length := by
  rw [skip, List.drop_left, List.takeWhile_append_of_pos accepted]
  cases rest with
  | nil => simp
  | cons c rest =>
      have stopsAt : accepts c = false := by simpa using stops
      rw [List.takeWhile_cons_of_neg (by simp [stopsAt]), List.append_nil]

theorem skip_eq_self {accepts : Char -> Bool} {rest : Text} (stops : rest.head?.any accepts = false) :
    skip accepts (passed ++ rest) passed.length = passed.length :=
  @skip_behind passed accepts [] rest (by simp) stops

theorem slice_behind :
    slice (passed ++ (word ++ rest)) passed.length (passed.length + word.length) = word := by
  rw [slice, List.drop_left, Nat.add_sub_cancel_left, List.take_left]

/-- A word that stands between two offsets. -/
theorem slice_eq {text word : Text} {start stop : Nat} (before after : Text)
    (split : text = before ++ (word ++ after)) (isStart : start = before.length)
    (isStop : stop = before.length + word.length) : slice text start stop = word := by
  rw [split, isStart, isStop, slice_behind]

theorem standsAt_behind : standsAt word (passed ++ rest) passed.length = word.isPrefixOf rest := by
  rw [standsAt, List.drop_left]

/-- The character in front of the offset behind a text is the last one of the text. -/
theorem previous_behind :
    (if passed.length = 0 then none else (passed ++ rest)[passed.length - 1]?) = passed.getLast? := by
  cases passed with
  | nil => rfl
  | cons c others =>
      rw [if_neg (by simp), List.getElem?_append_left (by simp), List.getLast?_eq_getElem?]

/-! ## What is found from an offset on -/

/-- The next character of the rest of a text, and the rest behind it. -/
theorem of_drop_eq_cons {text rest : Text} {offset : Nat} {c : Char}
    (isRest : text.drop offset = c :: rest) : text[offset]? = some c ∧ text.drop (offset + 1) = rest := by
  constructor
  · rw [← Nat.add_zero offset, ← List.getElem?_drop, isRest]
    rfl
  · rw [← List.drop_drop, isRest]
    rfl

/-- A character is found at its first place from an offset on. -/
theorem of_offsetOf? {mark : Char} {text : Text} {offset place : Nat}
    (isFound : offsetOf? mark text offset = some place) :
    offset ≤ place ∧ text[place]? = some mark ∧
      ∀ between, offset ≤ between → between < place → text[between]? ≠ some mark := by
  obtain ⟨index, isIndex, rfl⟩ := Option.map_eq_some_iff.mp isFound
  obtain ⟨inside, isMark, noneBefore⟩ := List.findIdx?_eq_some_iff_getElem.mp isIndex
  refine ⟨Nat.le_add_right _ _, ?_, fun between behind before isMarkHere => ?_⟩
  · rw [← List.getElem?_drop, List.getElem?_eq_getElem inside, eq_of_beq isMark]
  · obtain ⟨earlier, rfl⟩ := Nat.exists_eq_add_of_le behind
    have isEarlier : earlier < index := by omega
    rw [← List.getElem?_drop, List.getElem?_eq_getElem (Nat.lt_trans isEarlier inside)] at isMarkHere
    exact noneBefore earlier isEarlier (by rw [Option.some.inj isMarkHere, beq_self_eq_true])

theorem offsetOf?_behind {mark : Char} {between : Text} (absent : mark ∉ between) (passed rest : Text) :
    offsetOf? mark (passed ++ (between ++ mark :: rest)) passed.length =
      some (passed.length + between.length) := by
  have none : between.findIdx? (· == mark) = none := by
    rw [List.findIdx?_eq_none_iff]
    intro c member
    exact beq_false_of_ne fun same => absent (same ▸ member)
  rw [offsetOf?, List.drop_left, List.findIdx?_append, none]
  simp [List.findIdx?_cons]

/-- What is skipped is all of the class. -/
theorem accepts_of_lt_skip {accepts : Char -> Bool} {text : Text} {start offset : Nat} {c : Char}
    (behind : start ≤ offset) (before : offset < skip accepts text start)
    (isThere : text[offset]? = some c) : accepts c = true := by
  have inside : offset - start < ((text.drop start).takeWhile accepts).length := by
    rw [skip] at before
    omega
  have isTaken : ((text.drop start).takeWhile accepts)[offset - start]? = some c := by
    have sameOffset : start + (offset - start) = offset := by omega
    rw [← List.getElem?_append_left inside, List.takeWhile_append_dropWhile, List.getElem?_drop, sameOffset,
      isThere]
  exact List.all_eq_true.mp List.all_takeWhile c (List.mem_of_getElem? isTaken)

/-- Skipping leads to the first character that is not skipped. -/
theorem getElem?_skip (accepts : Char -> Bool) (text : Text) (offset : Nat) :
    text[skip accepts text offset]? = ((text.drop offset).dropWhile accepts).head? := by
  have split := @List.takeWhile_append_dropWhile _ accepts (text.drop offset)
  rw [skip, ← List.getElem?_drop]
  generalize (text.drop offset).takeWhile accepts = skipped at split ⊢
  generalize (text.drop offset).dropWhile accepts = stopped at split ⊢
  rw [← split, List.getElem?_append_right (Nat.le_refl _), Nat.sub_self, ← List.head?_eq_getElem?]

theorem not_accepts_skip {accepts : Char -> Bool} {text : Text} {offset : Nat} {c : Char}
    (isThere : text[skip accepts text offset]? = some c) : accepts c = false := by
  have stops := List.head?_dropWhile_not accepts (text.drop offset)
  rw [← getElem?_skip, isThere] at stops
  exact stops

end Text

theorem Cursor.within_behind (passed word rest : Text) :
    Cursor.within (passed ++ (word ++ rest)) passed.length (passed.length + word.length) =
      Cursor.between passed word := by
  rw [Cursor.within, Text.previous_behind, Text.slice_behind, Cursor.between]

end SceneBundler
