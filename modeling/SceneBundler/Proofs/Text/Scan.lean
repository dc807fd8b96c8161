import SceneBundler.Proofs.Text.Bounds
import SceneBundler.Proofs.Text.Blank

/-!
Contract: successive searches, one stretch of text after another.

Owns:
- that a search passes over a stretch in which no match begins, and over a match;
- patterns that no reading of passes a given character, and where readings that end with that
  character end;
- that a name is read to its end.

Does not own: any particular pattern.
-/

namespace SceneBundler

namespace Pattern

open Cursor (Passes)

/-! ## Searches -/

/-- Whether no match of a pattern begins in a stretch of text, given what stands around it. -/
def Silent (pattern : Pattern) (passed stretch following : Text) : Prop :=
  ∀ more rest, stretch = more ++ rest → rest ≠ [] →
    ∀ next, ¬pattern.Reads (Cursor.between (passed ++ more) (rest ++ following)) next

theorem Silent.tail {pattern : Pattern} {passed rest following : Text} {c : Char}
    (silent : pattern.Silent passed (c :: rest) following) :
    pattern.Silent (passed ++ [c]) rest following := by
  intro more last split nonempty next
  have later := silent (c :: more) last (by rw [split]; rfl) nonempty next
  rwa [List.append_cons] at later

theorem Silent.cons {pattern : Pattern} {passed rest following : Text} {c : Char}
    (unread : ∀ next, ¬pattern.Reads (Cursor.between passed (c :: rest ++ following)) next)
    (silent : pattern.Silent (passed ++ [c]) rest following) : pattern.Silent passed (c :: rest) following := by
  intro more last split nonempty next reads
  cases more with
  | nil =>
      obtain rfl : c :: rest = last := split
      rw [List.append_nil] at reads
      exact unread next reads
  | cons d more =>
      obtain ⟨rfl, splitRest⟩ := List.cons.inj split
      rw [List.append_cons] at reads
      exact silent more last splitRest nonempty next reads

/-- A pattern is silent at one character if it is not read there. -/
theorem silent_singleton {pattern : Pattern} {passed following : Text} {c : Char}
    (unread : ∀ next, ¬pattern.Reads (Cursor.between passed (c :: following)) next) :
    pattern.Silent passed [c] following :=
  .cons unread fun _ _ split nonempty => absurd (List.append_eq_nil_iff.mp split.symm).2 nonempty

theorem find_eq_none {pattern : Pattern} {cursor : Cursor}
    (unread : ∀ next, ¬pattern.Reads cursor next) : pattern.find cursor = none := by
  rw [← Option.not_isSome_iff_eq_none, isSome_find_iff]
  exact fun ⟨next, reads⟩ => unread next reads

theorem all_eq_nil {pattern : Pattern} {text : Text}
    (unread : ∀ passed ahead next, text = passed ++ ahead →
      ¬pattern.Reads (Cursor.between passed ahead) next) : pattern.all text = [] := by
  refine List.eq_nil_iff_forall_not_mem.mpr fun found member => ?_
  obtain ⟨passed, ahead, split, foundHere⟩ := find_of_mem_all member
  obtain ⟨next, reads, _⟩ := reads_of_find foundHere
  exact unread passed ahead next split reads

theorem collect_of_silent {pattern : Pattern} {passed stretch following : Text}
    (silent : pattern.Silent passed stretch following) (found : List Match) :
    pattern.collect 0 passed.getLast? passed.length (stretch ++ following) found =
      pattern.collect 0 (passed ++ stretch).getLast? (passed ++ stretch).length following found := by
  induction stretch generalizing passed with
  | nil => rw [List.nil_append, List.append_nil]
  | cons c rest inductionHypothesis =>
      have notHere := find_eq_none (silent [] (c :: rest) rfl (List.cons_ne_nil c rest))
      rw [List.append_nil] at notHere
      rw [List.cons_append, collect]
      change pattern.find ⟨_, c :: (rest ++ following), _, []⟩ = none at notHere
      rw [notHere, List.append_cons, ← inductionHypothesis silent.tail]
      simp

theorem collect_busy (pattern : Pattern) (passed word following : Text) (found : List Match) :
    pattern.collect word.length passed.getLast? passed.length (word ++ following) found =
      pattern.collect 0 (passed ++ word).getLast? (passed ++ word).length following found := by
  induction word generalizing passed with
  | nil => rw [List.nil_append, List.append_nil, List.length_nil]
  | cons c rest inductionHypothesis =>
      rw [List.length_cons, List.cons_append, collect, List.append_cons, ← inductionHypothesis]
      simp

/-- A match that is not empty is noted, and the search goes on behind it. -/
theorem collect_of_find {pattern : Pattern} {passed word following : Text} {match_ : Match}
    (foundHere : pattern.find (Cursor.between passed (word ++ following)) = some match_)
    (nonempty : word ≠ []) (stop : match_.stop = passed.length + word.length) (found : List Match) :
    pattern.collect 0 passed.getLast? passed.length (word ++ following) found =
      pattern.collect 0 (passed ++ word).getLast? (passed ++ word).length following
        (match_ :: found) := by
  cases word with
  | nil => exact absurd rfl nonempty
  | cons c rest =>
      have busy : match_.stop - passed.length - 1 = rest.length := by
        rw [stop, List.length_cons]
        omega
      have onward := collect_busy pattern (passed ++ [c]) rest following (match_ :: found)
      rw [List.cons_append, collect]
      change pattern.find ⟨_, c :: (rest ++ following), _, []⟩ = some match_ at foundHere
      rw [foundHere, List.append_cons, ← onward]
      dsimp only
      rw [busy]
      simp

/-- Whether a search finds given matches in a stretch of text, given what stands around it. -/
def Finds (pattern : Pattern) (passed stretch following : Text) (matches_ : List Match) : Prop :=
  ∀ found, pattern.collect 0 passed.getLast? passed.length (stretch ++ following) found =
    pattern.collect 0 (passed ++ stretch).getLast? (passed ++ stretch).length following
      (matches_.reverse ++ found)

namespace Finds

variable {pattern : Pattern} {passed following : Text}

theorem of_silent {stretch : Text} (silent : pattern.Silent passed stretch following) :
    pattern.Finds passed stretch following [] :=
  collect_of_silent silent

theorem of_find {word : Text} {match_ : Match}
    (foundHere : pattern.find (Cursor.between passed (word ++ following)) = some match_)
    (nonempty : word ≠ []) (stop : match_.stop = passed.length + word.length) :
    pattern.Finds passed word following [match_] :=
  collect_of_find foundHere nonempty stop

theorem append {first second : Text} {earlier later : List Match}
    (findsFirst : pattern.Finds passed first (second ++ following) earlier)
    (findsSecond : pattern.Finds (passed ++ first) second following later) :
    pattern.Finds passed (first ++ second) following (earlier ++ later) := by
  intro found
  rw [List.append_assoc, findsFirst, findsSecond, List.append_assoc, List.reverse_append,
    List.append_assoc]

/-- What a search finds in a whole text, if nothing is found at its end. -/
theorem all_eq {text : Text} {matches_ : List Match} (finds : pattern.Finds [] text [] matches_)
    (atEnd : ∀ next, ¬pattern.Reads (Cursor.between text []) next) :
    pattern.all text = matches_ := by
  have whole := finds []
  have last : pattern.find ⟨text.getLast?, [], text.length, []⟩ = none := find_eq_none atEnd
  have ended : pattern.collect 0 text.getLast? text.length [] (matches_.reverse ++ []) =
      matches_.reverse := by
    rw [collect.eq_def]
    dsimp only
    rw [last, List.append_nil]
  rw [List.append_nil, List.nil_append, ended] at whole
  rw [← List.reverse_reverse matches_]
  exact congrArg List.reverse whole

end Finds

/-! ## Characters that are not passed -/

/-- Whether no reading of a pattern passes a character. -/
def shuns (c : Char) : Pattern -> Bool
  | one accepts => !accepts c
  | sequence first second => first.shuns c && second.shuns c
  | either first second => first.shuns c && second.shuns c
  | many body => body.shuns c
  | run accepts _ _ _ => !accepts c
  | capture _ body => body.shuns c
  | _ => true

theorem exists_passes_of_reads {pattern : Pattern} {c : Char} (shuns : pattern.shuns c = true)
    {cursor next : Cursor} (reads : pattern.Reads cursor next) :
    ∃ word, c ∉ word ∧ Passes word cursor next := by
  induction pattern generalizing cursor next with
  | empty => exact reads ▸ ⟨[], List.not_mem_nil, Passes.refl _⟩
  | one accepts =>
      obtain ⟨d, accepted, passes, _⟩ := Cursor.passes_of_step? reads
      refine ⟨[d], fun member => ?_, passes⟩
      rw [← List.mem_singleton.mp member] at accepted
      simp [Pattern.shuns, accepted] at shuns
  | sequence first second firstHypothesis secondHypothesis =>
      obtain ⟨shunsFirst, shunsSecond⟩ := Bool.and_eq_true_iff.mp shuns
      obtain ⟨middle, readsFirst, readsSecond⟩ := reads
      obtain ⟨before, absentBefore, passesBefore⟩ := firstHypothesis shunsFirst readsFirst
      obtain ⟨after, absentAfter, passesAfter⟩ := secondHypothesis shunsSecond readsSecond
      exact ⟨before ++ after, by simp [absentBefore, absentAfter], passesBefore.trans passesAfter⟩
  | either first second firstHypothesis secondHypothesis =>
      obtain ⟨shunsFirst, shunsSecond⟩ := Bool.and_eq_true_iff.mp shuns
      rcases reads with readsFirst | readsSecond
      · exact firstHypothesis shunsFirst readsFirst
      · exact secondHypothesis shunsSecond readsSecond
  | many body bodyHypothesis =>
      induction reads with
      | refl => exact ⟨[], List.not_mem_nil, Passes.refl _⟩
      | tail _ round earlier =>
          obtain ⟨before, absentBefore, passesBefore⟩ := earlier
          obtain ⟨word, absent, passes⟩ := bodyHypothesis shuns round.1
          exact ⟨before ++ word, by simp [absentBefore, absent], passesBefore.trans passes⟩
  | run accepts least most fewest =>
      obtain ⟨word, accepted, _, passes⟩ := passes_of_reads_run reads
      refine ⟨word, fun member => ?_, passes⟩
      simp [Pattern.shuns, accepted c member] at shuns
  | capture slot body bodyHypothesis =>
      obtain ⟨inner, readsBody, rfl⟩ := reads
      obtain ⟨word, absent, passes⟩ := bodyHypothesis shuns readsBody
      exact ⟨word, absent, passes.of_fields rfl rfl rfl⟩
  | between test =>
      obtain ⟨_, rfl⟩ := reads
      exact ⟨[], List.not_mem_nil, Passes.refl _⟩
  | ahead expected body _ =>
      obtain ⟨_, rfl⟩ := reads
      exact ⟨[], List.not_mem_nil, Passes.refl _⟩

/-- Two texts cut at the first place of a character are the same cut. -/
theorem append_cons_inj {c : Char} {first second rest others : Text} (absentFirst : c ∉ first)
    (absentSecond : c ∉ second) (same : first ++ c :: rest = second ++ c :: others) :
    first = second ∧ rest = others := by
  induction first generalizing second with
  | nil =>
      cases second with
      | nil => exact ⟨rfl, (List.cons.inj same).2⟩
      | cons d second =>
          exact absurd ((List.cons.inj same).1 ▸ List.mem_cons_self) absentSecond
  | cons d first inductionHypothesis =>
      cases second with
      | nil => exact absurd ((List.cons.inj same).1 ▸ List.mem_cons_self) absentFirst
      | cons e second =>
          obtain ⟨sameHead, sameTail⟩ := List.cons.inj same
          obtain ⟨sameRest, sameOthers⟩ := inductionHypothesis
            (fun member => absentFirst (List.mem_cons_of_mem d member))
            (fun member => absentSecond (List.mem_cons_of_mem e member)) sameTail
          exact ⟨by rw [sameHead, sameRest], sameOthers⟩

/-- A reading up to and over a character that it does not pass earlier ends behind the first one. -/
theorem passes_of_reads_char {lead : Pattern} {c : Char} (shuns : lead.shuns c = true)
    {cursor next : Cursor} (reads : (lead ++ char c).Reads cursor next) {word following : Text}
    (absent : c ∉ word) (ahead : cursor.ahead = word ++ c :: following) :
    Passes (word ++ [c]) cursor next := by
  obtain ⟨middle, readsLead, stepped⟩ := reads
  obtain ⟨before, absentBefore, passesLead⟩ := exists_passes_of_reads shuns readsLead
  obtain ⟨d, isC, passesChar, _⟩ := Cursor.passes_of_step? stepped
  obtain rfl : d = c := beq_iff_eq.mp isC
  have passes := passesLead.trans passesChar
  have same := passes.ahead_eq
  rw [ahead, List.append_assoc] at same
  rw [(append_cons_inj absent absentBefore same).1]
  exact passes

/-! ## Names -/

theorem continuesName_of_isAsciiWord {c : Char} (ascii : Character.isAsciiWord c = true) :
    Character.continuesName c = true := by
  simp only [Character.isAsciiWord, Bool.or_eq_true, beq_iff_eq] at ascii
  rcases ascii with (letterOrDigit | rfl) | rfl
  · simp [Character.continuesName, Character.isWord_of_isAlphanum letterOrDigit]
  · decide
  · decide

theorem continuesName_of_startsName {c : Char} (starts : Character.startsName c = true) :
    Character.continuesName c = true := by
  refine continuesName_of_isAsciiWord ?_
  simp only [Character.startsName, Bool.or_eq_true] at starts
  rcases starts with (letter | isMark) | isMark <;>
    simp [Character.isAsciiWord, Char.isAlphanum, *]

theorem exists_trail_eq {accepts : Char -> Bool} (captures : List (Nat × Span)) {word rest : Text}
    (accepted : ∀ c ∈ word, accepts c = true) (ends : rest.head?.any accepts = false)
    (previous : Option Char) (offset : Nat) (passed : List Cursor) :
    ∃ others, Cursor.trail accepts captures none previous (word ++ rest) offset passed =
      ⟨word.getLast?.or previous, rest, offset + word.length, captures⟩ :: others := by
  induction word generalizing previous offset passed with
  | nil =>
      cases rest with
      | nil => exact ⟨passed, rfl⟩
      | cons c rest =>
          have stops : accepts c = false := by simpa using ends
          refine ⟨passed, ?_⟩
          simp [Cursor.trail, stops]
  | cons c word inductionHypothesis =>
      have goes := accepted c List.mem_cons_self
      obtain ⟨others, trailed⟩ := inductionHypothesis
        (fun d member => accepted d (List.mem_cons_of_mem c member)) (some c) (offset + 1)
        (⟨previous, c :: (word ++ rest), offset, captures⟩ :: passed)
      refine ⟨others, ?_⟩
      have last : (c :: word).getLast?.or previous = word.getLast?.or (some c) := by
        rw [List.getLast?_cons]
        cases word.getLast? <;> rfl
      have reached : offset + (c :: word).length = offset + 1 + word.length := by
        rw [List.length_cons]
        omega
      rw [last, reached, ← trailed]
      simp [Cursor.trail, goes]

/-- A name is read over a character that can start one, and over characters that can continue it. -/
theorem exists_word_of_reads_name {cursor next : Cursor} (reads : name.Reads cursor next) :
    ∃ first rest, Character.startsName first = true ∧
      (∀ c ∈ rest, Character.continuesName c = true) ∧ Passes (first :: rest) cursor next := by
  obtain ⟨middle, stepped, run⟩ := reads
  obtain ⟨first, starts, passesFirst, _⟩ := Cursor.passes_of_step? stepped
  obtain ⟨rest, continues, _, passesRest⟩ := passes_of_reads_run run
  exact ⟨first, rest, starts, continues, passesFirst.trans passesRest⟩

theorem reads_char {cursor : Cursor} {c : Char} {rest : Text} (ahead : cursor.ahead = c :: rest) :
    (char c).Reads cursor ⟨some c, rest, cursor.offset + 1, cursor.captures⟩ := by
  simp [char, Reads, Cursor.step?, ahead]

theorem reads_star {accepts : Char -> Bool} {cursor : Cursor} {word rest : Text}
    (accepted : ∀ c ∈ word, accepts c = true) (ahead : cursor.ahead = word ++ rest) :
    (star accepts).Reads cursor
      ⟨word.getLast?.or cursor.previous, rest, cursor.offset + word.length, cursor.captures⟩ :=
  reads_run accepted (Nat.zero_le _) ⟨ahead, rfl, rfl⟩ rfl

/-- The match of a name at a name is all of it. -/
theorem find_name {cursor : Cursor} {first : Char} {word rest : Text}
    (starts : Character.startsName first = true)
    (continues : ∀ c ∈ word, Character.continuesName c = true)
    (ends : rest.head?.any Character.continuesName = false)
    (ahead : cursor.ahead = first :: (word ++ rest)) :
    name.find cursor =
      some ⟨cursor.offset, cursor.offset + (first :: word).length, cursor.captures⟩ := by
  obtain ⟨others, trailed⟩ := exists_trail_eq cursor.captures continues ends (some first)
    (cursor.offset + 1) []
  have stepped : cursor.step? Character.startsName =
      some ⟨some first, word ++ rest, cursor.offset + 1, cursor.captures⟩ := by
    simp [Cursor.step?, ahead, starts]
  have matched : name.matchAt? cursor = (star Character.continuesName).matchThen
      ⟨some first, word ++ rest, cursor.offset + 1, cursor.captures⟩ some := by
    change (cursor.step? Character.startsName).bind _ = _
    rw [stepped]
    rfl
  rw [find, matched, star, matchThen_run, runStops, trailed, List.filter_cons]
  simp [Nat.add_assoc, Nat.add_comm 1]

end Pattern

end SceneBundler
