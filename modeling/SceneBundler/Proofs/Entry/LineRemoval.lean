import SceneBundler.Entry.DefaultExport
import SceneBundler.Entry.Mount
import SceneBundler.Proofs.Imports.Clause
import SceneBundler.Proofs.Source.LineRemoval

/-!
Contract: where the removals of mount code and default exports begin and end.

Owns:
- where calls, the calls chained to them and guards end, and that these and expressions stop where a
  statement may;
- that mount code and default exports are removed from the beginning of their line, and through the end of
  their last one where nothing else is shown there.

Does not own: which code is removed.
-/

namespace SceneBundler

open Source (Hidden ShowsBefore BeginsShownLine BracketPairs)

namespace Entry

open Pattern (lineStart indent blanks char literal)

variable {masked : Text} {start stop : Nat} {edit : Edit}

theorem le_stop_removalThroughLine (masked : Text) (start stop : Nat) :
    stop ≤ (removalThroughLine masked start stop).stop := by
  have skipped : stop ≤ Text.skip (fun c => Text.isIndent c || c == ';') masked stop := Nat.le_add_right _ _
  refine Nat.le_trans skipped ?_
  unfold removalThroughLine
  dsimp only [Edit.deletion]
  split
  next => exact Nat.le_succ _
  next => exact Nat.le_refl _

theorem isLineRemoval_removalThroughLine (begins : BeginsShownLine masked start) (stops : Stops masked stop)
    (ordered : start ≤ stop) : IsLineRemoval masked (removalThroughLine masked start stop) :=
  ⟨begins, stops.endsShownLine_skip (by decide) (by decide),
    Nat.le_trans ordered (le_stop_removalThroughLine masked start stop)⟩

/-- A line that is read to its end and shows something ends where a statement may stop. -/
theorem stops_lineEndFrom (isShown : ¬ Hidden masked[start]?) :
    Stops masked (Source.lineEndFrom masked start) := by
  rw [Source.lineEndFrom]
  cases isFound : Text.offsetOf? '\n' masked start with
  | none => exact .beyond (Nat.le_refl _)
  | some place =>
      obtain ⟨from_, isBreak, noBreak⟩ := Text.of_offsetOf? isFound
      have differs : start ≠ place := fun same => isShown (Or.inr (same ▸ isBreak))
      have shows : ShowsBefore masked place :=
        (ShowsBefore.of_shown isShown).mono (by omega) fun between behind before =>
          noBreak between (Nat.le_of_succ_le behind) before
      exact .atBreak isBreak shows

theorem le_lineEndFrom (inside : start ≤ masked.length) : start ≤ Source.lineEndFrom masked start := by
  rw [Source.lineEndFrom]
  cases isFound : Text.offsetOf? '\n' masked start with
  | none => exact inside
  | some place => exact (Text.of_offsetOf? isFound).1

/-- Where a statement that is removed ends, in front of what is skipped behind it: behind something that is
not blank, or at the end of a line from something on that is not blank. -/
inductive EndsStatement (masked : Text) : Nat -> Prop where
  | behind {last : Nat} {c : Char} (isThere : masked[last]? = some c)
      (visible : Character.isBlank c = false) : EndsStatement masked (last + 1)
  | atLineEnd {place : Nat} (visible : masked[place]?.any Character.isBlank = false) :
      EndsStatement masked (Source.lineEndFrom masked place)

namespace EndsStatement

theorem closer {opened closed : Nat} (paired : (BracketPairs.ofText masked).closerOf? opened = some closed) :
    EndsStatement masked (closed + 1) := by
  obtain ⟨kind, isCloser⟩ := BracketPairs.getElem?_of_closerOf? paired
  exact .behind isCloser (by cases kind <;> decide)

theorem stops (ends : EndsStatement masked stop) : Stops masked stop := by
  cases ends with
  | behind isThere visible => exact .behind (not_hidden_of_visible isThere visible)
  | atLineEnd visible => exact stops_lineEndFrom (not_hidden_of_any visible)

end EndsStatement

/-- The calls chained to a statement end where a statement ends. -/
theorem endsStatement_chainEnd {room : Nat} (ends : EndsStatement masked stop) :
    stop ≤ chainEnd masked (BracketPairs.ofText masked) room stop ∧
      EndsStatement masked (chainEnd masked (BracketPairs.ofText masked) room stop) := by
  induction room generalizing stop with
  | zero => exact ⟨Nat.le_refl stop, ends⟩
  | succ room inductionHypothesis =>
      rw [chainEnd]
      split
      next => exact ⟨Nat.le_refl stop, ends⟩
      next link isLink =>
        split
        next => exact ⟨Nat.le_refl stop, ends⟩
        next closed paired =>
          obtain ⟨begins, isOrdered⟩ := Pattern.isOrdered_of_matchWithin? isLink
          have closes := BracketPairs.opener_lt_of_closerOf? paired
          have ordered := isOrdered.ordered
          obtain ⟨later, endsThere⟩ := inductionHypothesis (.closer paired)
          exact ⟨Nat.le_trans (by omega) later, endsThere⟩

/-- The removal of a call goes through its parenthesis at least. -/
theorem exists_callRemoval_eq {opened : Nat} (isOpener : masked[opened]? = some '(') (start : Nat) :
    ∃ core, callRemoval masked (BracketPairs.ofText masked) start opened =
        removalThroughLine masked start core ∧ opened < core ∧ EndsStatement masked core := by
  refine ⟨_, rfl, ?_⟩
  cases paired : (BracketPairs.ofText masked).closerOf? opened with
  | none =>
      obtain ⟨later, ends⟩ := @endsStatement_chainEnd masked _ masked.length
        (.behind isOpener (by decide))
      exact ⟨later, ends⟩
  | some closed =>
      have closes := BracketPairs.opener_lt_of_closerOf? paired
      obtain ⟨later, ends⟩ := @endsStatement_chainEnd masked _ masked.length (.closer paired)
      exact ⟨Nat.lt_of_lt_of_le (by omega) later, ends⟩

/-- The removal of a call that begins a line. -/
theorem isLineRemoval_callRemovals {lead : Pattern}
    (isLineStart : (lead ++ .char '(').leftmost = .lineStart)
    (repeats : (lead ++ .char '(').mayRepeat ' ' = false)
    (misses : (lead ++ .char '(').mayReach ' ' '\n' = false)
    (member : edit ∈ callRemovals masked (BracketPairs.ofText masked) (lead ++ .char '(')) :
    IsLineRemoval masked edit := by
  obtain ⟨found, isFound, rfl⟩ := List.mem_map.mp member
  obtain ⟨positive, isOpener⟩ := Pattern.getElem?_stop_of_char isFound
  have ordered := (Pattern.isOrdered_of_mem_all isFound).ordered
  have begins := Pattern.beginsShownLine isLineStart repeats misses isFound
  obtain ⟨core, same, later, ends⟩ := exists_callRemoval_eq isOpener found.start
  rw [same]
  exact isLineRemoval_removalThroughLine begins ends.stops (by omega)

theorem capturesOnly_variableHead : variableHead.CapturesOnly Imports.IsName := by
  have named {cursor next : Cursor} {word : Text} (reads : Pattern.name.Reads cursor next)
      (passes : Cursor.Passes word cursor next) : Imports.IsName word := by
    obtain ⟨first, rest, startsName, continues, passesName⟩ := Pattern.exists_word_of_reads_name reads
    refine ⟨⟨first, rest, passes.unique passesName, startsName⟩, passes.unique passesName ▸ ?_⟩
    exact List.forall_mem_cons.mpr ⟨Pattern.continuesName_of_startsName startsName, continues⟩
  simp only [variableHead, Pattern.capturesOnly_append]
  refine ⟨⟨⟨⟨⟨?_, trivial⟩, ⟨trivial, trivial⟩, fun _ _ _ => named⟩, trivial⟩, trivial⟩, trivial⟩
  simp [Pattern.anyOf, Pattern.CapturesOnly]

/-- The variables of mount code have names. -/
theorem isName_of_mem_rootVariables {root : Text} (member : root ∈ rootVariables masked) :
    Imports.IsName root := by
  rw [rootVariables, List.mem_eraseDups] at member
  obtain ⟨found, isFound, captured⟩ := List.mem_filterMap.mp member
  obtain ⟨span, isSpan, rfl⟩ := Option.map_eq_some_iff.mp captured
  obtain ⟨before, after, split, _⟩ := List.lookup_eq_some_iff.mp isSpan
  have isCapture : (1, span) ∈ found.captures := by simp [split]
  rcases List.mem_append.mp isFound with isLookup | isCreation
  · have only : rootLookup.CapturesOnly Imports.IsName := by
      simp [rootLookup, capturesOnly_variableHead, memberDot, lineStart, indent, Pattern.star, blanks, char]
    exact ((Pattern.bounds_of_mem_all only isLookup).2.2 _ isCapture).2
  · have only : rootCreation.CapturesOnly Imports.IsName := by
      simp [rootCreation, capturesOnly_variableHead, memberDot, lineStart, indent, Pattern.star, blanks,
        char]
    exact ((Pattern.bounds_of_mem_all only isCreation).2.2 _ isCapture).2

/-- The removal of a guard goes through the guard at least. -/
theorem exists_guardRemoval_eq {root : Text} {found : Match} (member : found ∈ (rootGuard root).all masked) :
    ∃ core, guardRemoval masked (BracketPairs.ofText masked) found =
        removalThroughLine masked found.start core ∧ found.stop ≤ core ∧ EndsStatement masked core := by
  have visible := Pattern.getElem?_stop_of_run member
  have toLineEnd := le_lineEndFrom (Pattern.stop_le_length member)
  unfold guardRemoval
  dsimp only
  split
  next closed isBlock =>
    split at isBlock
    next =>
      have closes := BracketPairs.opener_lt_of_closerOf? isBlock
      exact ⟨_, rfl, by omega, .closer isBlock⟩
    next => contradiction
  next =>
    split
    next semicolon isSemicolon =>
      split
      next => exact ⟨_, rfl, toLineEnd, .atLineEnd visible⟩
      next =>
        obtain ⟨from_, isThere, -⟩ := Text.of_offsetOf? isSemicolon
        exact ⟨_, rfl, Nat.le_succ_of_le from_, .behind isThere (by decide)⟩
    next => exact ⟨_, rfl, toLineEnd, .atLineEnd visible⟩

/-- The removal of a guard begins a line and goes through its body. -/
theorem isLineRemoval_guardRemoval {root : Text} {found : Match}
    (member : found ∈ (rootGuard root).all masked) :
    IsLineRemoval masked (guardRemoval masked (BracketPairs.ofText masked) found) := by
  have begins : BeginsShownLine masked found.start := by
    refine Pattern.beginsShownLine rfl ?_ ?_ member <;>
      simp [rootGuard, Pattern.mayRepeat, Pattern.mayReach, lineStart, indent, blanks, char, literal,
        Pattern.star, Pattern.word, Text.isIndent]
  have ordered := (Pattern.isOrdered_of_mem_all member).ordered
  obtain ⟨core, same, later, ends⟩ := exists_guardRemoval_eq member
  rw [same]
  exact isLineRemoval_removalThroughLine begins ends.stops (Nat.le_trans ordered later)

theorem isLineRemoval_mountEdits (member : edit ∈ mountEdits masked) : IsLineRemoval masked edit := by
  simp only [mountEdits, List.mem_append, List.mem_flatMap, List.mem_cons, List.not_mem_nil,
    or_false] at member
  rcases member with ⟨pattern, rfl | rfl | rfl, isCall⟩ | ⟨root, isRoot, isOfRoot⟩
  · exact isLineRemoval_callRemovals rfl (by decide) (by decide) isCall
  · exact isLineRemoval_callRemovals rfl (by decide) (by decide) isCall
  · exact isLineRemoval_callRemovals rfl (by decide) (by decide) isCall
  · rcases List.mem_append.mp isOfRoot with isCall | isGuard
    · obtain ⟨first, rest, rfl, startsName⟩ := (isName_of_mem_rootVariables isRoot).starts
      have notSpace : ' ' ≠ first := by
        rintro rfl
        contradiction
      have notBreak : '\n' ≠ first := by
        rintro rfl
        contradiction
      refine isLineRemoval_callRemovals rfl ?_ ?_ isCall <;>
        simp [Pattern.mayRepeat, Pattern.mayReach, lineStart, indent, blanks, char, literal, memberDot,
          Pattern.star, Pattern.word, Text.isIndent, notSpace, notBreak]
    · obtain ⟨found, isFound, rfl⟩ := List.mem_map.mp isGuard
      exact isLineRemoval_guardRemoval isFound

/-- An expression ends where a statement may stop, if what is in front of it shows something. -/
theorem exists_stops_expressionLength {text : Text} {busy offset : Nat} (isRest : masked.drop offset = text)
    (closes : ∀ earlier, busy = earlier + 1 → ¬ Hidden masked[offset + earlier]?)
    (shows : busy = 0 → ShowsBefore masked offset ∨ ¬ Hidden masked[offset]?) (passed : Nat) :
    ∃ length, expressionLength (BracketPairs.ofText masked) busy offset passed text = passed + length ∧
      Stops masked (offset + length) := by
  induction text generalizing busy offset passed with
  | nil => exact ⟨0, by cases busy <;> rfl, .beyond (by simpa using isRest)⟩
  | cons c rest inductionHypothesis =>
      obtain ⟨isThere, isNext⟩ := Text.of_drop_eq_cons isRest
      have later {busy : Nat}
          (closes : ∀ earlier, busy = earlier + 1 → ¬ Hidden masked[offset + 1 + earlier]?)
          (shows : busy = 0 → ShowsBefore masked (offset + 1)) :
          ∃ length, expressionLength (BracketPairs.ofText masked) busy (offset + 1) (passed + 1) rest =
              passed + length ∧ Stops masked (offset + length) := by
        obtain ⟨length, isLength, stops⟩ :=
          inductionHypothesis isNext closes (fun free => Or.inl (shows free)) (passed + 1)
        exact ⟨length + 1, by omega, by rwa [Nat.add_assoc, Nat.add_comm 1] at stops⟩
      cases busy with
      | succ busy =>
          rw [expressionLength]
          refine later (fun earlier isBusy => ?_) fun isFree => ?_
          · have closed := closes (earlier + 1) (congrArg Nat.succ isBusy)
            rwa [Nat.add_comm earlier, ← Nat.add_assoc] at closed
          · exact .of_shown (closes 0 (congrArg Nat.succ isFree))
      | zero =>
          rw [expressionLength]
          split
          next closed isClosed =>
            have paired : (BracketPairs.ofText masked).closerOf? offset = some closed := by
              split at isClosed
              next => exact isClosed
              next => contradiction
            have behind := BracketPairs.opener_lt_of_closerOf? paired
            have isShown := not_hidden_of_closerOf? paired
            refine later (fun earlier isBusy => ?_) fun isFree => by omega
            rwa [show offset + 1 + earlier = closed by omega]
          next =>
            split
            next ends =>
              refine ⟨0, rfl, ?_⟩
              rcases of_decide_eq_true (by simpa using ends) with rfl | rfl
              · exact .before (Source.not_hidden_of_ne isThere (by decide) (by decide))
              · exact .atBreak isThere ((shows rfl).resolve_right fun isShown => isShown (Or.inr isThere))
            next goesOn =>
              have notBreak : masked[offset]? ≠ some '\n' := fun isBreak =>
                goesOn (by simp [Option.some.inj (isThere.symm.trans isBreak)])
              exact later nofun fun _ => (shows rfl).elim (·.next notBreak) .of_shown

theorem isLineRemoval_expressionRemoval {found : Match} (member : found ∈ defaultLead.all masked) :
    IsLineRemoval masked
      (expressionRemoval masked (BracketPairs.ofText masked) found.start found.stop) := by
  have isShown := not_hidden_of_any (Pattern.getElem?_stop_of_run member)
  obtain ⟨length, isLength, stops⟩ :=
    @exists_stops_expressionLength masked _ 0 found.stop rfl nofun (fun _ => Or.inr isShown) 0
  rw [Nat.zero_add] at isLength
  rw [expressionRemoval, isLength]
  have ordered := (Pattern.isOrdered_of_mem_all member).ordered
  exact isLineRemoval_removalThroughLine (Pattern.beginsShownLine rfl (by decide) (by decide) member) stops
    (by omega)

theorem isLineRemoval_defaultExportEdits (member : edit ∈ defaultExportEdits masked)
    (isRemoval : edit = removalThroughLine masked start stop) : IsLineRemoval masked edit := by
  simp only [defaultExportEdits, List.mem_append, List.mem_map, List.mem_filterMap,
    List.mem_filter] at member
  rcases member with (⟨found, isFound, rfl⟩ | ⟨found, ⟨isFound, _⟩, rfl⟩) | ⟨found, isFound, isEdit⟩
  · obtain ⟨c, isThere, begins⟩ := Pattern.getElem?_stop_of_ahead (by decide) isFound
    refine ⟨Pattern.beginsShownLine rfl (by decide) (by decide) isFound, fun isHidden => ?_,
      (Pattern.isOrdered_of_mem_all isFound).ordered⟩
    refine absurd isHidden (Source.not_hidden_of_ne isThere ?_ ?_) <;>
      (rintro rfl; exact absurd begins (by decide))
  · exact isLineRemoval_expressionRemoval isFound
  · unfold specifierEdit? at isEdit
    dsimp only at isEdit
    split at isEdit
    next => contradiction
    next =>
      split at isEdit
      next =>
        obtain rfl := Option.some.inj isEdit
        obtain ⟨positive, isThere⟩ := Pattern.getElem?_stop_of_char_ahead isFound
        have behind : Stops masked (found.stop - 1 + 1) := .of_isThere isThere (by decide) (by decide)
        rw [Nat.sub_add_cancel positive] at behind
        exact isLineRemoval_removalThroughLine (Pattern.beginsShownLine rfl (by decide) (by decide) isFound)
          behind (Pattern.isOrdered_of_mem_all isFound).ordered
      next =>
        obtain ⟨inner, _, isRewriting⟩ := Option.map_eq_some_iff.mp isEdit
        rw [isRemoval] at isRewriting
        exact absurd (congrArg Edit.replacement isRewriting) (List.cons_ne_nil _ _)

end Entry

end SceneBundler
