import Mathlib.Logic.Relation
import SceneBundler.Text.Pattern

/-!
Contract: what the matcher of patterns finds, said without its order of trying.

Owns:
- the relation between a place and the places that a pattern can be read up to from there;
- that the matcher only ever ends at such a place, and ends somewhere if the rest of the match accepts
  any of them;
- what a reading passes over, and what it captures.

Does not own: which of several ways the matcher takes.
-/

namespace SceneBundler

namespace Cursor

/-- Whether `word` stands between two places. -/
structure Passes (word : Text) (cursor next : Cursor) : Prop where
  ahead_eq : cursor.ahead = word ++ next.ahead
  offset_eq : next.offset = cursor.offset + word.length
  previous_eq : next.previous = word.getLast?.or cursor.previous

namespace Passes

theorem refl (cursor : Cursor) : Passes [] cursor cursor :=
  ⟨rfl, rfl, rfl⟩

theorem trans {first second : Text} {cursor middle next : Cursor}
    (before : Passes first cursor middle) (after : Passes second middle next) :
    Passes (first ++ second) cursor next := by
  refine ⟨?_, ?_, ?_⟩
  · rw [before.ahead_eq, after.ahead_eq, List.append_assoc]
  · rw [after.offset_eq, before.offset_eq, List.length_append, Nat.add_assoc]
  · rw [after.previous_eq, before.previous_eq, List.getLast?_append, Option.or_assoc]

/-- Nothing is lost on the way: what is passed and what is ahead make up what was ahead. -/
theorem conserves {word : Text} {cursor next : Cursor} (passes : Passes word cursor next) :
    next.offset + next.ahead.length = cursor.offset + cursor.ahead.length := by
  rw [passes.offset_eq, passes.ahead_eq, List.length_append]
  omega

/-- One word at most stands between two places. -/
theorem unique {first second : Text} {cursor next : Cursor} (passes : Passes first cursor next)
    (again : Passes second cursor next) : first = second :=
  List.append_cancel_right (passes.ahead_eq.symm.trans again.ahead_eq)

/-- Only the text and the offsets count, not what was captured. -/
theorem of_fields {word : Text} {cursor next other : Cursor} (passes : Passes word cursor next)
    (ahead : other.ahead = next.ahead) (offset : other.offset = next.offset)
    (previous : other.previous = next.previous) : Passes word cursor other :=
  ⟨ahead ▸ passes.ahead_eq, offset ▸ passes.offset_eq, previous ▸ passes.previous_eq⟩

end Passes

theorem passes_of_step? {accepts : Char -> Bool} {cursor next : Cursor}
    (stepped : cursor.step? accepts = some next) :
    ∃ c, accepts c = true ∧ Passes [c] cursor next ∧ next.captures = cursor.captures := by
  unfold step? at stepped
  split at stepped
  next c rest aheadEq =>
    split at stepped
    next accepted =>
      obtain rfl := Option.some.inj stepped
      exact ⟨c, accepted, ⟨aheadEq, rfl, rfl⟩, rfl⟩
    next => contradiction
  next => contradiction

/-! ## The stops of a run -/

/-- The stops of a run come before those passed already. -/
theorem trail_append (accepts : Char -> Bool) (captures : List (Nat × Span)) (room : Option Nat)
    (previous : Option Char) (text : Text) (offset : Nat) (passed : List Cursor) :
    trail accepts captures room previous text offset passed =
      trail accepts captures room previous text offset [] ++ passed := by
  induction text generalizing room previous offset passed with
  | nil => rfl
  | cons c rest inductionHypothesis =>
      simp only [trail]
      split
      · rw [inductionHypothesis,
          inductionHypothesis _ _ _ [⟨previous, c :: rest, offset, captures⟩]]
        simp
      · rfl

theorem trail_cons (accepts : Char -> Bool) (captures : List (Nat × Span)) (room : Option Nat)
    (previous : Option Char) (c : Char) (rest : Text) (offset : Nat) :
    trail accepts captures room previous (c :: rest) offset [] =
      (if room != some 0 && accepts c then
        trail accepts captures (room.map (· - 1)) (some c) rest (offset + 1) []
      else []) ++ [⟨previous, c :: rest, offset, captures⟩] := by
  rw [trail]
  split
  · rw [trail_append]
  · rfl

/-- Every stop of a run is reached over characters of its class. -/
theorem passes_of_mem_trail {accepts : Char -> Bool} {captures : List (Nat × Span)}
    {room : Option Nat} {previous : Option Char} {text : Text} {offset : Nat} {stop : Cursor}
    (member : stop ∈ trail accepts captures room previous text offset []) :
    ∃ word, (∀ c ∈ word, accepts c = true) ∧
      Passes word ⟨previous, text, offset, captures⟩ stop ∧ stop.captures = captures := by
  induction text generalizing room previous offset with
  | nil =>
      obtain rfl := List.mem_singleton.mp member
      exact ⟨[], by simp, Passes.refl _, rfl⟩
  | cons c rest inductionHypothesis =>
      rw [trail_cons] at member
      rcases List.mem_append.mp member with farther | here
      · split at farther
        next goesOn =>
          obtain ⟨word, accepted, passes, captured⟩ := inductionHypothesis farther
          have acceptsFirst : accepts c = true := by
            simp only [Bool.and_eq_true] at goesOn
            exact goesOn.2
          refine ⟨c :: word, ?_, ?_, captured⟩
          · intro d member
            rcases List.mem_cons.mp member with isFirst | isLater
            · exact isFirst ▸ acceptsFirst
            · exact accepted d isLater
          · have one : Passes [c] ⟨previous, c :: rest, offset, captures⟩
                ⟨some c, rest, offset + 1, captures⟩ := ⟨rfl, rfl, rfl⟩
            exact one.trans passes
        next => simp at farther
      · obtain rfl := List.mem_singleton.mp here
        exact ⟨[], by simp, Passes.refl _, rfl⟩

/-- The stops of a run come farthest first. -/
theorem pairwise_trail (accepts : Char -> Bool) (captures : List (Nat × Span)) (room : Option Nat)
    (previous : Option Char) (text : Text) (offset : Nat) :
    (trail accepts captures room previous text offset []).Pairwise
      fun farther nearer => nearer.offset < farther.offset := by
  induction text generalizing room previous offset with
  | nil => exact List.pairwise_singleton _ _
  | cons c rest inductionHypothesis =>
      rw [trail_cons, List.pairwise_append]
      refine ⟨?_, List.pairwise_singleton _ _, ?_⟩
      · split
        · exact inductionHypothesis _ _ _
        · exact List.Pairwise.nil
      · intro farther member nearer here
        obtain rfl := List.mem_singleton.mp here
        split at member
        next =>
          obtain ⟨word, _, passes, _⟩ := passes_of_mem_trail member
          have reached := passes.offset_eq
          simp only at reached ⊢
          omega
        next => simp at member

/-- Among stops that come farthest first, those that are far enough make up a beginning. -/
theorem takeWhile_far_eq_filter {stops : List Cursor} (least : Nat)
    (ordered : stops.Pairwise fun farther nearer => nearer.offset < farther.offset) :
    (stops.takeWhile fun stop => least ≤ stop.offset) =
      stops.filter fun stop => least ≤ stop.offset := by
  induction ordered with
  | nil => rfl
  | @cons stop rest beyond _ inductionHypothesis =>
      by_cases far : least ≤ stop.offset
      · simp [far, inductionHypothesis]
      · have noneFar : rest.filter (fun stop => least ≤ stop.offset) = [] := by
          rw [List.filter_eq_nil_iff]
          intro nearer member
          have nearerThan := beyond nearer member
          simp only [decide_eq_true_eq]
          omega
        simp [far, noneFar]

end Cursor

namespace Pattern

open Cursor (Passes)

/-- The stops that a run may end at. -/
def runStops (accepts : Char -> Bool) (least : Nat) (most : Option Nat) (cursor : Cursor) :
    List Cursor :=
  (Cursor.trail accepts cursor.captures most cursor.previous cursor.ahead cursor.offset []).filter
    fun stop => cursor.offset + least ≤ stop.offset

theorem matchThen_run (accepts : Char -> Bool) (least : Nat) (most : Option Nat) (fewest : Bool)
    (cursor : Cursor) (finish : Cursor -> Option Cursor) :
    (run accepts least most fewest).matchThen cursor finish =
      (if fewest then (runStops accepts least most cursor).reverse
      else runStops accepts least most cursor).findSome? finish := by
  rw [matchThen, runStops, Cursor.takeWhile_far_eq_filter _ (Cursor.pairwise_trail ..)]

/-- Whether a pattern can be read from one place up to another. -/
def Reads : Pattern -> Cursor -> Cursor -> Prop
  | empty, cursor, next => next = cursor
  | one accepts, cursor, next => cursor.step? accepts = some next
  | sequence first second, cursor, next =>
      ∃ middle, first.Reads cursor middle ∧ second.Reads middle next
  | either first second, cursor, next => first.Reads cursor next ∨ second.Reads cursor next
  | many body, cursor, next =>
      Relation.ReflTransGen
        (fun here there => body.Reads here there ∧ here.offset < there.offset) cursor next
  | run accepts least most _, cursor, next => next ∈ runStops accepts least most cursor
  | capture slot body, cursor, next =>
      ∃ inner, body.Reads cursor inner ∧
        next = { inner with captures := (slot, ⟨cursor.offset, inner.offset⟩) :: inner.captures }
  | between test, cursor, next =>
      test cursor.previous cursor.ahead.head? = true ∧ next = cursor
  | ahead expected body, cursor, next =>
      ((∃ there, body.Reads cursor there) ↔ expected = true) ∧ next = cursor

theorem passes_of_reads {pattern : Pattern} {cursor next : Cursor}
    (reads : pattern.Reads cursor next) : ∃ word, Passes word cursor next := by
  induction pattern generalizing cursor next with
  | empty => exact reads ▸ ⟨[], Passes.refl _⟩
  | one accepts =>
      obtain ⟨c, _, passes, _⟩ := Cursor.passes_of_step? reads
      exact ⟨[c], passes⟩
  | sequence first second firstHypothesis secondHypothesis =>
      obtain ⟨middle, readsFirst, readsSecond⟩ := reads
      obtain ⟨firstWord, passesFirst⟩ := firstHypothesis readsFirst
      obtain ⟨secondWord, passesSecond⟩ := secondHypothesis readsSecond
      exact ⟨firstWord ++ secondWord, passesFirst.trans passesSecond⟩
  | either first second firstHypothesis secondHypothesis =>
      rcases reads with readsFirst | readsSecond
      · exact firstHypothesis readsFirst
      · exact secondHypothesis readsSecond
  | many body inductionHypothesis =>
      induction reads with
      | refl => exact ⟨[], Passes.refl _⟩
      | tail _ round passesEarlier =>
          obtain ⟨earlier, passesEarlier⟩ := passesEarlier
          obtain ⟨word, passes⟩ := inductionHypothesis round.1
          exact ⟨earlier ++ word, passesEarlier.trans passes⟩
  | run accepts least most fewest =>
      obtain ⟨word, _, passes, _⟩ := Cursor.passes_of_mem_trail (List.mem_filter.mp reads).1
      exact ⟨word, passes⟩
  | capture slot body inductionHypothesis =>
      obtain ⟨inner, readsBody, rfl⟩ := reads
      obtain ⟨word, passes⟩ := inductionHypothesis readsBody
      exact ⟨word, passes.of_fields rfl rfl rfl⟩
  | between test =>
      obtain ⟨_, rfl⟩ := reads
      exact ⟨[], Passes.refl _⟩
  | ahead expected body _ =>
      obtain ⟨_, rfl⟩ := reads
      exact ⟨[], Passes.refl _⟩

/-! ## The matcher and the relation -/

/-- What the matcher has to do with the relation: it ends where the pattern can be read up to, and it
does end somewhere if the rest of the match accepts one of these places. -/
structure IsExact (pattern : Pattern) : Prop where
  sound : ∀ {cursor final : Cursor} {finish : Cursor -> Option Cursor},
    pattern.matchThen cursor finish = some final ->
      ∃ next, pattern.Reads cursor next ∧ finish next = some final
  complete : ∀ {cursor next : Cursor} {finish : Cursor -> Option Cursor},
    pattern.Reads cursor next -> (finish next).isSome ->
      (pattern.matchThen cursor finish).isSome

namespace IsExact

theorem rounds_sound {body : Pattern} (bodyExact : IsExact body) {room : Text} {cursor final : Cursor}
    {finish : Cursor -> Option Cursor}
    (found : rounds body.matchThen finish room cursor = some final) :
    ∃ next, (many body).Reads cursor next ∧ finish next = some final := by
  induction room generalizing cursor with
  | nil => exact ⟨cursor, .refl, found⟩
  | cons _ room inductionHypothesis =>
      rw [rounds] at found
      split at found
      next reached again =>
        obtain rfl := Option.some.inj found
        obtain ⟨middle, readsBody, goesOn⟩ := bodyExact.sound again
        split at goesOn
        next moved =>
          obtain ⟨next, readsMore, finished⟩ := inductionHypothesis goesOn
          exact ⟨next, .head ⟨readsBody, moved⟩ readsMore, finished⟩
        next => contradiction
      next => exact ⟨cursor, .refl, found⟩

/-- A round that stops at its own place is as good as none, so a chain of rounds that all move on
needs no more room than there is text. -/
theorem rounds_complete {body : Pattern} (bodyExact : IsExact body) {cursor next : Cursor}
    {finish : Cursor -> Option Cursor} (reads : (many body).Reads cursor next)
    (finishes : (finish next).isSome) {room : Text}
    (enough : cursor.ahead.length ≤ room.length) :
    (rounds body.matchThen finish room cursor).isSome := by
  induction reads using Relation.ReflTransGen.head_induction_on generalizing room with
  | refl =>
      cases room with
      | nil => exact finishes
      | cons _ room =>
          rw [rounds]
          split
          · rfl
          · exact finishes
  | @head cursor middle round _ inductionHypothesis =>
      obtain ⟨readsBody, moved⟩ := round
      obtain ⟨word, passes⟩ := passes_of_reads readsBody
      have shorter := passes.conserves
      cases room with
      | nil =>
          simp only [List.length_nil] at enough
          omega
      | cons _ room =>
          have goesOn := @inductionHypothesis room (by
            simp only [List.length_cons] at enough
            omega)
          have again := @complete _ bodyExact cursor middle (fun next =>
            if cursor.offset < next.offset then rounds body.matchThen finish room next else none)
            readsBody (by rwa [if_pos moved])
          rw [rounds]
          split
          · rfl
          next failed => simp [failed] at again

variable {first second body : Pattern}

protected theorem sequence (firstExact : IsExact first) (secondExact : IsExact second) :
    IsExact (sequence first second) := by
  constructor
  · intro cursor final finish found
    obtain ⟨middle, readsFirst, foundSecond⟩ := firstExact.sound found
    obtain ⟨next, readsSecond, finished⟩ := secondExact.sound foundSecond
    exact ⟨next, ⟨middle, readsFirst, readsSecond⟩, finished⟩
  · intro cursor next finish reads finishes
    obtain ⟨middle, readsFirst, readsSecond⟩ := reads
    exact firstExact.complete readsFirst (secondExact.complete readsSecond finishes)

/-- The second way is tried only where the first one fails, which it cannot where it is read. -/
protected theorem either (firstExact : IsExact first) (secondExact : IsExact second) :
    IsExact (either first second) := by
  constructor
  · intro cursor final finish found
    rw [matchThen] at found
    split at found
    next reached foundFirst =>
      obtain ⟨next, reads, finished⟩ := firstExact.sound foundFirst
      exact ⟨next, Or.inl reads, finished.trans found⟩
    next =>
      obtain ⟨next, reads, finished⟩ := secondExact.sound found
      exact ⟨next, Or.inr reads, finished⟩
  · intro cursor next finish reads finishes
    rw [matchThen]
    split
    · rfl
    next failed =>
      rcases reads with readsFirst | readsSecond
      · have found := firstExact.complete readsFirst finishes
        simp [failed] at found
      · exact secondExact.complete readsSecond finishes

/-- The order in which the stops of a run are tried does not matter. -/
protected theorem run (accepts : Char -> Bool) (least : Nat) (most : Option Nat) (fewest : Bool) :
    IsExact (run accepts least most fewest) := by
  have member_iff (cursor stop : Cursor) :
      stop ∈ (if fewest then (runStops accepts least most cursor).reverse
        else runStops accepts least most cursor) ↔
        stop ∈ runStops accepts least most cursor := by
    split
    · exact List.mem_reverse
    · rfl
  constructor
  · intro cursor final finish found
    rw [matchThen_run] at found
    obtain ⟨stop, member, finished⟩ := List.exists_of_findSome?_eq_some found
    exact ⟨stop, (member_iff cursor stop).mp member, finished⟩
  · intro cursor next finish reads finishes
    rw [matchThen_run, List.findSome?_isSome_iff]
    exact ⟨next, (member_iff cursor next).mpr reads, finishes⟩

protected theorem capture (bodyExact : IsExact body) (slot : Nat) : IsExact (capture slot body) := by
  constructor
  · intro cursor final finish found
    obtain ⟨inner, readsBody, finished⟩ := bodyExact.sound found
    exact ⟨_, ⟨inner, readsBody, rfl⟩, finished⟩
  · intro cursor next finish reads finishes
    obtain ⟨inner, readsBody, rfl⟩ := reads
    exact bodyExact.complete readsBody finishes

protected theorem between (test : Option Char -> Option Char -> Bool) : IsExact (between test) := by
  constructor
  · intro cursor final finish found
    rw [matchThen] at found
    split at found
    next passed => exact ⟨cursor, ⟨passed, rfl⟩, found⟩
    next => contradiction
  · intro cursor next finish reads finishes
    obtain ⟨passed, rfl⟩ := reads
    rwa [matchThen, if_pos passed]

theorem isSome_matchThen_some_iff (bodyExact : IsExact body) (cursor : Cursor) :
    (body.matchThen cursor some).isSome = true ↔ ∃ there, body.Reads cursor there := by
  constructor
  · intro found
    obtain ⟨final, found⟩ := Option.isSome_iff_exists.mp found
    obtain ⟨there, reads, _⟩ := bodyExact.sound found
    exact ⟨there, reads⟩
  · intro ⟨there, reads⟩
    exact bodyExact.complete reads rfl

protected theorem ahead (bodyExact : IsExact body) (expected : Bool) : IsExact (ahead expected body) := by
  have passed_iff (cursor : Cursor) :
      ((body.matchThen cursor some).isSome == expected) = true ↔
        ((∃ there, body.Reads cursor there) ↔ expected = true) := by
    rw [beq_iff_eq, Bool.eq_iff_iff, bodyExact.isSome_matchThen_some_iff]
  constructor
  · intro cursor final finish found
    rw [matchThen] at found
    split at found
    next passed => exact ⟨cursor, ⟨(passed_iff cursor).mp passed, rfl⟩, found⟩
    next => contradiction
  · intro cursor next finish reads finishes
    obtain ⟨passed, rfl⟩ := reads
    rwa [matchThen, if_pos ((passed_iff next).mpr passed)]

end IsExact

theorem isExact (pattern : Pattern) : IsExact pattern := by
  induction pattern with
  | empty =>
      refine ⟨fun found => ⟨_, rfl, found⟩, ?_⟩
      intro cursor next finish reads finishes
      exact reads ▸ finishes
  | one accepts =>
      refine ⟨fun found => Option.bind_eq_some_iff.mp found, ?_⟩
      intro cursor next finish reads finishes
      rw [matchThen, reads]
      exact finishes
  | sequence first second firstExact secondExact => exact firstExact.sequence secondExact
  | either first second firstExact secondExact => exact firstExact.either secondExact
  | many body bodyExact =>
      refine ⟨bodyExact.rounds_sound, ?_⟩
      intro cursor next finish reads finishes
      exact bodyExact.rounds_complete reads finishes (Nat.le_refl _)
  | run accepts least most fewest => exact .run accepts least most fewest
  | capture slot body bodyExact => exact bodyExact.capture slot
  | between test => exact .between test
  | ahead expected body bodyExact => exact bodyExact.ahead expected

/-- The matcher ends where the pattern can be read up to. -/
theorem reads_of_matchThen {pattern : Pattern} {cursor final : Cursor}
    {finish : Cursor -> Option Cursor} (found : pattern.matchThen cursor finish = some final) :
    ∃ next, pattern.Reads cursor next ∧ finish next = some final :=
  pattern.isExact.sound found

/-- Some way of matching exists just if the pattern can be read up to a place that the rest of the
match accepts. -/
theorem isSome_matchThen_iff {pattern : Pattern} {cursor : Cursor}
    {finish : Cursor -> Option Cursor} :
    (pattern.matchThen cursor finish).isSome ↔
      ∃ next, pattern.Reads cursor next ∧ (finish next).isSome := by
  constructor
  · intro found
    obtain ⟨final, found⟩ := Option.isSome_iff_exists.mp found
    obtain ⟨next, reads, finished⟩ := reads_of_matchThen found
    exact ⟨next, reads, Option.isSome_iff_exists.mpr ⟨final, finished⟩⟩
  · intro ⟨next, reads, finishes⟩
    exact pattern.isExact.complete reads finishes

/-! ## Words and runs -/

theorem reads_word_iff {word : Text} {cursor next : Cursor} :
    (Pattern.word word).Reads cursor next ↔
      Passes word cursor next ∧ next.captures = cursor.captures := by
  induction word generalizing cursor with
  | nil =>
      constructor
      · intro same
        exact same ▸ ⟨Passes.refl _, rfl⟩
      · intro ⟨⟨aheadEq, offsetEq, previousEq⟩, capturesEq⟩
        cases cursor
        cases next
        simp_all [Pattern.word, Reads]
  | cons c rest inductionHypothesis =>
      constructor
      · intro ⟨middle, stepped, reads⟩
        obtain ⟨d, isC, passes, same⟩ := Cursor.passes_of_step? stepped
        obtain ⟨passesRest, sameRest⟩ := inductionHypothesis.mp reads
        obtain rfl : d = c := beq_iff_eq.mp isC
        exact ⟨passes.trans passesRest, sameRest.trans same⟩
      · intro ⟨passes, same⟩
        refine ⟨⟨some c, rest ++ next.ahead, cursor.offset + 1, cursor.captures⟩, ?_, ?_⟩
        · simp [Pattern.char, Reads, Cursor.step?, passes.ahead_eq]
        · refine inductionHypothesis.mpr ⟨⟨rfl, ?_, ?_⟩, same⟩
          · rw [passes.offset_eq, List.length_cons]
            simp only
            omega
          · rw [passes.previous_eq, List.getLast?_cons]
            cases rest.getLast? <;> rfl

theorem mem_trail_of_passes {accepts : Char -> Bool} {captures : List (Nat × Span)}
    {previous : Option Char} {text word : Text} {offset : Nat} {next : Cursor}
    (accepted : ∀ c ∈ word, accepts c = true)
    (passes : Passes word ⟨previous, text, offset, captures⟩ next)
    (same : next.captures = captures) :
    next ∈ Cursor.trail accepts captures none previous text offset [] := by
  induction word generalizing previous text offset with
  | nil =>
      obtain ⟨aheadEq, offsetEq, previousEq⟩ := passes
      obtain rfl : next = ⟨previous, text, offset, captures⟩ := by
        cases next
        simp_all
      cases text with
      | nil => simp [Cursor.trail]
      | cons c rest =>
          rw [Cursor.trail_cons]
          simp
  | cons c rest inductionHypothesis =>
      obtain ⟨aheadEq, offsetEq, previousEq⟩ := passes
      obtain rfl : text = c :: (rest ++ next.ahead) := aheadEq
      rw [Cursor.trail_cons, accepted c (by simp)]
      refine List.mem_append_left _ (inductionHypothesis ?_ ⟨rfl, ?_, ?_⟩)
      · intro d member
        exact accepted d (List.mem_cons_of_mem c member)
      · rw [offsetEq, List.length_cons]
        simp only
        omega
      · rw [previousEq, List.getLast?_cons]
        cases rest.getLast? <;> rfl

/-- A run without an upper limit can be read over any characters of its class that are enough. -/
theorem reads_run {accepts : Char -> Bool} {least : Nat} {fewest : Bool} {word : Text}
    {cursor next : Cursor} (accepted : ∀ c ∈ word, accepts c = true)
    (enough : least ≤ word.length) (passes : Passes word cursor next)
    (same : next.captures = cursor.captures) :
    (run accepts least none fewest).Reads cursor next := by
  refine List.mem_filter.mpr ⟨mem_trail_of_passes accepted passes same, ?_⟩
  rw [passes.offset_eq]
  simp only [decide_eq_true_eq]
  omega

/-- A run is read over characters of its class only, and over enough of them. -/
theorem passes_of_reads_run {accepts : Char -> Bool} {least : Nat} {most : Option Nat}
    {fewest : Bool} {cursor next : Cursor}
    (reads : (run accepts least most fewest).Reads cursor next) :
    ∃ word, (∀ c ∈ word, accepts c = true) ∧ least ≤ word.length ∧ Passes word cursor next := by
  obtain ⟨member, farEnough⟩ := List.mem_filter.mp reads
  obtain ⟨word, accepted, passes, _⟩ := Cursor.passes_of_mem_trail member
  refine ⟨word, accepted, ?_, passes⟩
  rw [passes.offset_eq] at farEnough
  simp only [decide_eq_true_eq] at farEnough
  omega

end Pattern

end SceneBundler
