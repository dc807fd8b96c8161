import SceneBundler.Proofs.Text.Opening

/-!
Contract: the way of matching that a pattern tries first.

Owns:
- where the first way of a pattern leads, composed from where its parts lead, also through a choice and what
  may be left out;
- that a run of as few characters as can be ends at the first place from which the rest is read;
- the match of a pattern whose first way is known, and the leftmost match behind a stretch in which
  none begins.

Does not own: patterns of which a later way may be taken.
-/

namespace SceneBundler

/-- The place between two parts of a text, with what was captured on the way. -/
def Cursor.noting (captures : List (Nat × Span)) (passed ahead : Text) : Cursor :=
  ⟨passed.getLast?, ahead, passed.length, captures⟩

theorem Cursor.passes_noting (captures : List (Nat × Span)) (passed word ahead : Text) :
    Passes word (noting captures passed (word ++ ahead)) (noting captures (passed ++ word) ahead) :=
  ⟨rfl, by simp [noting], by simp [noting, List.getLast?_append]⟩

namespace Pattern

open Cursor (noting Passes)

/-- Whether the first way of matching that a pattern tries leads from one place to another. -/
def Leads (pattern : Pattern) (cursor next : Cursor) : Prop :=
  ∀ finish final, finish next = some final → pattern.matchThen cursor finish = some final

theorem find_of_leads {pattern : Pattern} {cursor next : Cursor} (leads : pattern.Leads cursor next) :
    pattern.find cursor = some ⟨cursor.offset, next.offset, next.captures⟩ := by
  have matched : pattern.matchAt? cursor = some next := leads some next rfl
  rw [find, matched]
  rfl

theorem isFullMatch_of_leads {pattern : Pattern} {text : Text} {next : Cursor}
    (leads : pattern.Leads (Cursor.start text) next) (atEnd : next.ahead = []) :
    pattern.isFullMatch text = true := by
  have accepted : (if next.ahead.isEmpty then some next else none) = some next := by
    rw [atEnd]
    rfl
  rw [isFullMatch, leads _ next accepted]
  rfl

theorem firstFrom?_of_silent {pattern : Pattern} {passed stretch following : Text}
    (silent : pattern.Silent passed stretch following) :
    pattern.firstFrom? passed.getLast? passed.length (stretch ++ following) =
      pattern.firstFrom? (passed ++ stretch).getLast? (passed ++ stretch).length following := by
  induction stretch generalizing passed with
  | nil => rw [List.nil_append, List.append_nil]
  | cons c rest inductionHypothesis =>
      have notHere := find_eq_none (silent [] (c :: rest) rfl (List.cons_ne_nil c rest))
      rw [List.append_nil] at notHere
      change pattern.find ⟨_, c :: (rest ++ following), _, []⟩ = none at notHere
      rw [List.cons_append, firstFrom?, notHere, List.append_cons, ← inductionHypothesis silent.tail]
      simp

/-- A search goes over a stretch in which no match begins. -/
theorem first?_append_of_silent {pattern : Pattern} {stretch following : Text}
    (silent : pattern.Silent [] stretch following) :
    pattern.first? (stretch ++ following) = pattern.firstFrom? stretch.getLast? stretch.length following :=
  firstFrom?_of_silent silent

/-- The leftmost match is the one behind a stretch in which none begins. -/
theorem first?_of_find {pattern : Pattern} {stretch ahead : Text} {found : Match}
    (silent : pattern.Silent [] stretch ahead)
    (foundHere : pattern.find (Cursor.between stretch ahead) = some found) :
    pattern.first? (stretch ++ ahead) = some found := by
  change pattern.find ⟨stretch.getLast?, ahead, stretch.length, []⟩ = some found at foundHere
  rw [first?_append_of_silent silent, firstFrom?.eq_def]
  split
  next => exact foundHere
  next => rw [foundHere]

theorem first?_eq_none {pattern : Pattern} {text : Text}
    (unread : ∀ passed ahead next, text = passed ++ ahead →
      ¬pattern.Reads (Cursor.between passed ahead) next) : pattern.first? text = none := by
  rw [← Option.not_isSome_iff_eq_none]
  intro occurs
  obtain ⟨passed, ahead, next, split, reads⟩ := occursIn_iff.mp occurs
  exact unread passed ahead next split reads

/-- A pattern is silent where none of the characters can begin it. -/
theorem silent_of_mayBegin {pattern : Pattern} {passed stretch following : Text}
    (nonempty : pattern.mayBeEmpty = false)
    (beginsNot : ∀ c ∈ stretch, pattern.mayBegin c = false) :
    pattern.Silent passed stretch following := by
  intro more rest split someRest next
  cases rest with
  | nil => exact absurd rfl someRest
  | cons c rest =>
      have member : c ∈ stretch := by simp [split]
      exact not_reads_of_mayBegin nonempty (beginsNot c member) rfl

theorem first?_eq_none_of_mayBegin {pattern : Pattern} {text : Text}
    (nonempty : pattern.mayBeEmpty = false)
    (beginsNot : ∀ c ∈ text, pattern.mayBegin c = false) : pattern.first? text = none := by
  refine first?_eq_none fun passed ahead next split => ?_
  cases ahead with
  | nil => exact not_reads_at_end nonempty rfl
  | cons c ahead => exact not_reads_of_mayBegin nonempty (beginsNot c (by simp [split])) rfl

theorem all_eq_nil_of_mayBegin {pattern : Pattern} {text : Text}
    (nonempty : pattern.mayBeEmpty = false)
    (beginsNot : ∀ c ∈ text, pattern.mayBegin c = false) : pattern.all text = [] := by
  refine all_eq_nil fun passed ahead next split => ?_
  cases ahead with
  | nil => exact not_reads_at_end nonempty rfl
  | cons c ahead => exact not_reads_of_mayBegin nonempty (beginsNot c (by simp [split])) rfl

/-! ## Parts -/

theorem Leads.append {first second : Pattern} {cursor middle next : Cursor}
    (leadsFirst : first.Leads cursor middle) (leadsSecond : second.Leads middle next) :
    (first ++ second).Leads cursor next :=
  fun finish final finished => leadsFirst _ final (leadsSecond finish final finished)

theorem leads_append_assoc {first second third : Pattern} {cursor next : Cursor} :
    (first ++ second ++ third).Leads cursor next ↔ (first ++ (second ++ third)).Leads cursor next :=
  Iff.rfl

/-- What may be left out is tried with all that follows it before it is left out. -/
theorem Leads.maybe_append {body rest : Pattern} {cursor next : Cursor}
    (leads : (body ++ rest).Leads cursor next) : (Pattern.maybe body ++ rest).Leads cursor next := by
  intro finish final finished
  have matched := leads finish final finished
  change body.matchThen cursor (fun middle => rest.matchThen middle finish) = some final at matched
  change (either body empty).matchThen cursor (fun middle => rest.matchThen middle finish) = some final
  rw [matchThen, matched]

theorem Leads.capture {body : Pattern} {captures : List (Nat × Span)} {passed word ahead : Text}
    {cursor : Cursor} (leads : body.Leads cursor (noting captures (passed ++ word) ahead))
    (here : cursor.offset = passed.length) (slot : Nat) :
    (Pattern.capture slot body).Leads cursor
      (noting ((slot, ⟨passed.length, passed.length + word.length⟩) :: captures) (passed ++ word)
        ahead) := by
  intro finish final finished
  refine leads _ final ?_
  rw [here]
  simpa [noting] using finished

section Choice

variable {first second : Pattern} {cursor next : Cursor}

/-- A choice is tried in order. -/
theorem Leads.left (leads : first.Leads cursor next) : (either first second).Leads cursor next := by
  intro finish final finished
  rw [matchThen, leads finish final finished]

theorem Leads.right (unread : ∀ there, ¬first.Reads cursor there) (leads : second.Leads cursor next) :
    (either first second).Leads cursor next := by
  intro finish final finished
  have failed : first.matchThen cursor finish = none := by
    rw [← Option.not_isSome_iff_eq_none, isSome_matchThen_iff]
    exact fun ⟨there, reads, _⟩ => unread there reads
  rw [matchThen, failed]
  exact leads finish final finished

/-- What may be left out is left out where it cannot be read. -/
theorem leads_maybe_of_not_reads {body : Pattern} (unread : ∀ there, ¬body.Reads cursor there) :
    (maybe body).Leads cursor cursor :=
  .right unread fun _ _ finished => finished

theorem Leads.maybe {body : Pattern} (leads : body.Leads cursor next) : (maybe body).Leads cursor next :=
  leads.left

/-- Looking ahead for what can be read leads nowhere else. -/
theorem leads_ahead {body : Pattern} (reads : ∃ there, body.Reads cursor there) :
    (ahead true body).Leads cursor cursor := by
  intro finish final finished
  obtain ⟨there, readsThere⟩ := reads
  have found : (body.matchThen cursor some).isSome = true :=
    isSome_matchThen_iff.mpr ⟨there, readsThere, rfl⟩
  rw [matchThen, found, if_pos (beq_self_eq_true true), finished]

end Choice

section Places

variable (captures : List (Nat × Span)) (passed : Text)

theorem leads_between {test : Option Char -> Option Char -> Bool} {cursor : Cursor}
    (passes : test cursor.previous cursor.ahead.head? = true) : (between test).Leads cursor cursor := by
  intro finish final finished
  rw [matchThen, if_pos passes, finished]

theorem leads_one {accepts : Char -> Bool} {c : Char} (accepted : accepts c = true) (ahead : Text) :
    (one accepts).Leads (noting captures passed (c :: ahead))
      (noting captures (passed ++ [c]) ahead) := by
  intro finish final finished
  simpa [matchThen, Cursor.step?, noting, accepted] using finished

theorem leads_char (c : Char) (ahead : Text) :
    (char c).Leads (noting captures passed (c :: ahead)) (noting captures (passed ++ [c]) ahead) :=
  leads_one captures passed (beq_self_eq_true c) ahead

theorem leads_word (word ahead : Text) :
    (Pattern.word word).Leads (noting captures passed (word ++ ahead))
      (noting captures (passed ++ word) ahead) := by
  induction word generalizing passed with
  | nil =>
      intro finish final finished
      rwa [List.append_nil] at finished
  | cons c rest inductionHypothesis =>
      have onward := inductionHypothesis (passed ++ [c])
      rw [List.append_assoc, List.singleton_append] at onward
      exact (leads_char captures passed c _).append onward

theorem leads_literal (letters : String) (ahead : Text) :
    (literal letters).Leads (noting captures passed (letters.toList ++ ahead))
      (noting captures (passed ++ letters.toList) ahead) :=
  leads_word captures passed letters.toList ahead

/-- A run of as many characters as can be is tried at its longest first. -/
theorem leads_run {accepts : Char -> Bool} {least : Nat} {word ahead : Text}
    (accepted : ∀ c ∈ word, accepts c = true) (ends : ahead.head?.any accepts = false)
    (enough : least ≤ word.length) :
    (run accepts least none false).Leads (noting captures passed (word ++ ahead))
      (noting captures (passed ++ word) ahead) := by
  intro finish final finished
  obtain ⟨others, trailed⟩ := exists_trail_eq captures accepted ends passed.getLast? passed.length []
  rw [matchThen_run, runStops, noting]
  dsimp only
  rw [trailed, List.filter_cons_of_pos (by simpa using enough), if_neg Bool.false_ne_true]
  have same : (⟨word.getLast?.or passed.getLast?, ahead, passed.length + word.length, captures⟩ :
      Cursor) = noting captures (passed ++ word) ahead := by
    rw [noting, List.getLast?_append, List.length_append]
  rw [same, List.findSome?_cons, finished]

/-- Where none of its characters is ahead, any number of them is none. -/
theorem leads_star_nil {accepts : Char -> Bool} {ahead : Text} (ends : ahead.head?.any accepts = false) :
    (star accepts).Leads (noting captures passed ahead) (noting captures passed ahead) := by
  have leads := @leads_run captures passed accepts 0 [] ahead (by simp) ends (Nat.zero_le _)
  rwa [List.append_nil] at leads

theorem leads_name {first : Char} {word ahead : Text}
    (starts : Character.startsName first = true)
    (continues : ∀ c ∈ word, Character.continuesName c = true)
    (ends : ahead.head?.any Character.continuesName = false) :
    name.Leads (noting captures passed (first :: (word ++ ahead)))
      (noting captures (passed ++ first :: word) ahead) := by
  have onward := leads_run captures (passed ++ [first]) continues ends (Nat.zero_le word.length)
  rw [← List.append_cons] at onward
  exact (leads_one captures passed starts _).append onward

/-! ## As few characters as can be -/

/-- The places passed within a word are those before a proper end of it. -/
theorem exists_trail_within {accepts : Char -> Bool} {word : Text}
    (accepted : ∀ c ∈ word, accepts c = true) (ahead : Text) :
    ∃ within, (∀ stop ∈ within, ∃ front back, word = front ++ back ∧ back ≠ [] ∧
        stop = noting captures (passed ++ front) (back ++ ahead)) ∧
      Cursor.trail accepts captures none passed.getLast? (word ++ ahead) passed.length [] =
        Cursor.trail accepts captures none (passed ++ word).getLast? ahead (passed ++ word).length
          [] ++ within := by
  induction word generalizing passed with
  | nil => exact ⟨[], fun _ member => absurd member List.not_mem_nil, by simp⟩
  | cons c rest inductionHypothesis =>
      obtain ⟨within, areWithin, trailed⟩ := inductionHypothesis (passed ++ [c])
        fun d member => accepted d (List.mem_cons_of_mem c member)
      refine ⟨within ++ [noting captures passed (c :: rest ++ ahead)], fun stop member => ?_, ?_⟩
      · rcases List.mem_append.mp member with isLater | isHere
        · obtain ⟨front, back, split, nonempty, isStop⟩ := areWithin stop isLater
          exact ⟨c :: front, back, by rw [split]; rfl, nonempty, by rw [isStop]; simp⟩
        · exact ⟨[], c :: rest, rfl, List.cons_ne_nil c rest,
            by rw [List.append_nil]; exact List.mem_singleton.mp isHere⟩
      · have goes : accepts c = true := accepted c List.mem_cons_self
        rw [List.getLast?_concat, List.append_assoc, List.singleton_append, List.length_append,
          List.length_singleton] at trailed
        rw [List.cons_append, Cursor.trail_cons, goes, ← List.append_assoc, ← trailed]
        rfl

/-- A run of as few characters as can be ends at the first place from which the rest is read. -/
theorem leads_capture_fewest {rest : Pattern} {accepts : Char -> Bool} {least : Nat} {word ahead : Text}
    {next : Cursor} (accepted : ∀ c ∈ word, accepts c = true) (enough : least ≤ word.length)
    (slot : Nat)
    (leads : rest.Leads
      (noting ((slot, ⟨passed.length, passed.length + word.length⟩) :: captures) (passed ++ word) ahead)
      next)
    (unread : ∀ front back noted there, word = front ++ back → back ≠ [] →
      ¬rest.Reads (noting noted (passed ++ front) (back ++ ahead)) there) :
    (capture slot (run accepts least none true) ++ rest).Leads
      (noting captures passed (word ++ ahead)) next := by
  intro finish final finished
  obtain ⟨within, areWithin, trailed⟩ := exists_trail_within captures passed accepted ahead
  obtain ⟨beyond, ended⟩ : ∃ beyond, Cursor.trail accepts captures none (passed ++ word).getLast?
      ahead (passed ++ word).length [] = beyond ++ [noting captures (passed ++ word) ahead] := by
    cases ahead with
    | nil => exact ⟨[], rfl⟩
    | cons c others => exact ⟨_, Cursor.trail_cons ..⟩
  have isEnough : passed.length + least ≤ (noting captures (passed ++ word) ahead).offset := by
    rw [noting, List.length_append]
    exact Nat.add_le_add_left enough _
  let onward : Cursor -> Option Cursor := fun stop => rest.matchThen
    { stop with captures := (slot, ⟨passed.length, stop.offset⟩) :: stop.captures } finish
  have here : onward (noting captures (passed ++ word) ahead) = some final := by
    rw [← leads finish final finished]
    simp [onward, noting]
  have early : ((within.filter fun stop => decide (passed.length + least ≤ stop.offset)).reverse).findSome?
      onward = none := by
    refine List.findSome?_eq_none_iff.mpr fun stop member => ?_
    obtain ⟨front, back, split, nonempty, rfl⟩ :=
      areWithin stop (List.mem_filter.mp (List.mem_reverse.mp member)).1
    refine Option.not_isSome_iff_eq_none.mp fun matched => ?_
    obtain ⟨there, reads, _⟩ := isSome_matchThen_iff.mp matched
    exact unread front back _ there split nonempty reads
  change (run accepts least none true).matchThen (noting captures passed (word ++ ahead)) onward =
    some final
  rw [matchThen_run, if_pos rfl, runStops]
  change List.findSome? onward (((Cursor.trail accepts captures none passed.getLast? (word ++ ahead)
    passed.length []).filter fun stop => decide (passed.length + least ≤ stop.offset)).reverse) = _
  rw [trailed, ended, List.filter_append, List.filter_append,
    List.filter_cons_of_pos (by simpa using isEnough), List.filter_nil, List.reverse_append,
    List.reverse_append, List.findSome?_append, early, Option.none_or, List.reverse_singleton,
    List.singleton_append, List.findSome?_cons, here]

end Places

end Pattern

end SceneBundler
