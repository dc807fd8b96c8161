import SceneBundler.Proofs.Text.Search

/-!
Contract: where the matches of a pattern and their captures stand.

Owns:
- that a match and all it captures do not end before they begin, and that what is captured lies
  within the match, however the match was searched for;
- that a pattern leaves alone what is captured under the numbers it does not mention.

Does not own: which stretches are captured.
-/

namespace SceneBundler

/-- A match that does not end before it begins, with its captures inside it. -/
structure Match.IsOrdered (found : Match) : Prop where
  ordered : found.start ≤ found.stop
  inside : ∀ {slot span}, found.span? slot = some span ->
    found.start ≤ span.start ∧ span.start ≤ span.stop ∧ span.stop ≤ found.stop

theorem Cursor.IsIn.of_reads {pattern : Pattern} {text : Text} {cursor next : Cursor}
    (isIn : cursor.IsIn text) (reads : pattern.Reads cursor next) : next.IsIn text := by
  obtain ⟨word, passes⟩ := Pattern.passes_of_reads reads
  exact isIn.of_passes passes

namespace Pattern

open Cursor (Passes)

theorem offset_le_of_reads {pattern : Pattern} {cursor next : Cursor}
    (reads : pattern.Reads cursor next) : cursor.offset ≤ next.offset := by
  obtain ⟨word, passes⟩ := passes_of_reads reads
  rw [passes.offset_eq]
  exact Nat.le_add_right _ _

/-- Whether every span captured lies between two offsets and does not end before it begins. -/
def CapturesWithin (first last : Nat) (cursor : Cursor) : Prop :=
  ∀ entry ∈ cursor.captures,
    first ≤ entry.2.start ∧ entry.2.start ≤ entry.2.stop ∧ entry.2.stop ≤ last

theorem CapturesWithin.mono {first last later : Nat} {cursor : Cursor} (reached : last ≤ later)
    (within : CapturesWithin first last cursor) : CapturesWithin first later cursor := by
  intro entry member
  obtain ⟨after, ordered, before⟩ := within entry member
  exact ⟨after, ordered, Nat.le_trans before reached⟩

theorem capturesWithin_of_reads {pattern : Pattern} {first : Nat} {cursor next : Cursor}
    (reads : pattern.Reads cursor next) (begins : first ≤ cursor.offset)
    (within : CapturesWithin first cursor.offset cursor) :
    CapturesWithin first next.offset next := by
  induction pattern generalizing cursor next with
  | empty => exact reads ▸ within
  | one accepts =>
      obtain ⟨_, _, _, same⟩ := Cursor.passes_of_step? reads
      have later := within.mono (offset_le_of_reads reads)
      exact fun entry member => later entry (same ▸ member)
  | sequence before after beforeHypothesis afterHypothesis =>
      obtain ⟨middle, readsBefore, readsAfter⟩ := reads
      exact afterHypothesis readsAfter (Nat.le_trans begins (offset_le_of_reads readsBefore))
        (beforeHypothesis readsBefore begins within)
  | either before after beforeHypothesis afterHypothesis =>
      rcases reads with readsBefore | readsAfter
      · exact beforeHypothesis readsBefore begins within
      · exact afterHypothesis readsAfter begins within
  | many body bodyHypothesis =>
      induction reads with
      | refl => exact within
      | @tail middle next earlier round withinEarlier =>
          have reached := @offset_le_of_reads (many body) _ _ earlier
          exact bodyHypothesis round.1 (Nat.le_trans begins reached) withinEarlier
  | run accepts least most fewest =>
      obtain ⟨_, _, _, same⟩ := Cursor.passes_of_mem_trail (List.mem_filter.mp reads).1
      have later := within.mono (offset_le_of_reads reads)
      exact fun entry member => later entry (same ▸ member)
  | capture slot body bodyHypothesis =>
      obtain ⟨inner, readsBody, rfl⟩ := reads
      intro entry member
      rcases List.mem_cons.mp member with isThis | isEarlier
      · rw [isThis]
        exact ⟨begins, offset_le_of_reads readsBody, Nat.le_refl _⟩
      · exact bodyHypothesis readsBody begins within entry isEarlier
  | between test =>
      obtain ⟨_, rfl⟩ := reads
      exact within
  | ahead expected body _ =>
      obtain ⟨_, rfl⟩ := reads
      exact within

theorem isOrdered_of_find {pattern : Pattern} {cursor : Cursor} {found : Match}
    (fresh : cursor.captures = []) (foundHere : pattern.find cursor = some found) :
    found.IsOrdered := by
  obtain ⟨next, reads, rfl⟩ := reads_of_find foundHere
  have none : CapturesWithin cursor.offset cursor.offset cursor := by
    intro entry member
    rw [fresh] at member
    contradiction
  have within := capturesWithin_of_reads reads (Nat.le_refl _) none
  refine ⟨offset_le_of_reads reads, fun {slot span} known => ?_⟩
  obtain ⟨before, after, split, _⟩ := List.lookup_eq_some_iff.mp known
  have isCaptured : (slot, span) ∈ next.captures := by
    change next.captures = _ at split
    rw [split]
    exact List.mem_append_right _ List.mem_cons_self
  exact within (slot, span) isCaptured

theorem isOrdered_of_mem_all {pattern : Pattern} {text : Text} {found : Match}
    (member : found ∈ pattern.all text) : found.IsOrdered := by
  obtain ⟨passed, ahead, _, foundHere⟩ := find_of_mem_all member
  exact isOrdered_of_find rfl foundHere

theorem isOrdered_of_firstFrom? {pattern : Pattern} {previous : Option Char} {offset : Nat}
    {text : Text} {found : Match}
    (foundFirst : pattern.firstFrom? previous offset text = some found) :
    offset ≤ found.start ∧ found.IsOrdered := by
  induction text generalizing previous offset with
  | nil =>
      obtain ⟨next, _, isFound⟩ := reads_of_find foundFirst
      exact ⟨isFound ▸ Nat.le_refl offset, isOrdered_of_find rfl foundFirst⟩
  | cons c rest inductionHypothesis =>
      rw [firstFrom?] at foundFirst
      split at foundFirst
      next here foundHere =>
        obtain rfl := Option.some.inj foundFirst
        obtain ⟨next, _, isFound⟩ := reads_of_find foundHere
        exact ⟨isFound ▸ Nat.le_refl offset, isOrdered_of_find rfl foundHere⟩
      next =>
        obtain ⟨begins, isOrdered⟩ := inductionHypothesis foundFirst
        exact ⟨by omega, isOrdered⟩

theorem isOrdered_of_firstWithin? {pattern : Pattern} {text : Text} {start stop : Nat}
    {found : Match} (foundFirst : pattern.firstWithin? text start stop = some found) :
    found.IsOrdered :=
  (isOrdered_of_firstFrom? foundFirst).2

theorem isOrdered_of_matchWithin? {pattern : Pattern} {text : Text} {offset stop : Nat}
    {found : Match} (foundHere : pattern.matchWithin? text offset stop = some found) :
    found.start = offset ∧ found.IsOrdered := by
  obtain ⟨next, _, isFound⟩ := reads_of_find foundHere
  exact ⟨by rw [isFound]; rfl, isOrdered_of_find rfl foundHere⟩

theorem stop_le_of_matchWithin? {pattern : Pattern} {text : Text} {offset stop : Nat} {found : Match}
    (ordered : offset ≤ stop) (foundHere : pattern.matchWithin? text offset stop = some found) :
    found.stop ≤ stop := by
  obtain ⟨next, reads, isFound⟩ := reads_of_find foundHere
  obtain ⟨word, passes⟩ := passes_of_reads reads
  have conserved := passes.conserves
  have room : (Text.slice text offset stop).length ≤ stop - offset := List.length_take_le _ _
  have reached : found.stop = next.offset := by rw [isFound]
  simp only [Cursor.within] at conserved
  omega

/-! ## Numbers of captures -/

/-- The numbers that a pattern captures anything under. -/
def slots : Pattern -> List Nat
  | sequence first second => first.slots ++ second.slots
  | either first second => first.slots ++ second.slots
  | many body => body.slots
  | capture slot body => slot :: body.slots
  | _ => []

theorem lookup_of_reads {pattern : Pattern} {slot : Nat} {cursor next : Cursor}
    (unmentioned : slot ∉ pattern.slots) (reads : pattern.Reads cursor next) :
    next.captures.lookup slot = cursor.captures.lookup slot := by
  induction pattern generalizing cursor next with
  | empty => rw [reads]
  | one accepts =>
      obtain ⟨_, _, _, same⟩ := Cursor.passes_of_step? reads
      rw [same]
  | sequence first second firstHypothesis secondHypothesis =>
      obtain ⟨middle, readsFirst, readsSecond⟩ := reads
      have notFirst := fun member => unmentioned (List.mem_append_left _ member)
      have notSecond := fun member => unmentioned (List.mem_append_right _ member)
      rw [secondHypothesis notSecond readsSecond, firstHypothesis notFirst readsFirst]
  | either first second firstHypothesis secondHypothesis =>
      rcases reads with readsFirst | readsSecond
      · exact firstHypothesis (fun member => unmentioned (List.mem_append_left _ member)) readsFirst
      · exact secondHypothesis (fun member => unmentioned (List.mem_append_right _ member)) readsSecond
  | many body bodyHypothesis =>
      induction reads with
      | refl => rfl
      | tail _ round earlier => rw [bodyHypothesis unmentioned round.1, earlier]
  | run accepts least most fewest =>
      obtain ⟨_, _, _, same⟩ := Cursor.passes_of_mem_trail (List.mem_filter.mp reads).1
      rw [same]
  | capture number body bodyHypothesis =>
      obtain ⟨inner, readsBody, rfl⟩ := reads
      have different : slot ≠ number := fun same => unmentioned (same ▸ List.mem_cons_self)
      have notInBody := fun member => unmentioned (List.mem_cons_of_mem number member)
      rw [List.lookup_cons, beq_false_of_ne different]
      exact bodyHypothesis notInBody readsBody
  | between test =>
      obtain ⟨_, rfl⟩ := reads
      rfl
  | ahead expected body _ =>
      obtain ⟨_, rfl⟩ := reads
      rfl

theorem lookup_of_reads_capture {body : Pattern} {slot : Nat} {cursor next : Cursor}
    (reads : (capture slot body).Reads cursor next) :
    next.captures.lookup slot = some ⟨cursor.offset, next.offset⟩ := by
  obtain ⟨inner, _, rfl⟩ := reads
  exact List.lookup_cons_self

end Pattern

end SceneBundler
