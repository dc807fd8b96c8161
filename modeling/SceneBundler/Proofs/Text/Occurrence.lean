import SceneBundler.Proofs.Text.Joint
import SceneBundler.Proofs.Text.Blank

/-!
Contract: the places at which a name stands on its own, and what edits do to them.

Owns:
- names that stand as a whole, and not as a member of something, in a text;
- edits that neither cut through a name nor join two;
- that after such edits a name stands on its own just where it did before, untouched, or within what was
  put in.

Does not own: which edits are made.
-/

namespace SceneBundler

open Character (continuesName)

/-- The characters directly behind which a name is part of a longer name or a member of something. -/
def Character.attaches (c : Char) : Bool :=
  continuesName c || c == '.'

open Character (attaches)

/-- Whether a name stands in a stretch of text, between two parts of it, as a whole and not as a member,
given what there is around the stretch. -/
structure StandsIn (name before stretch after front back : Text) : Prop where
  split : stretch = front ++ (name ++ back)
  free : (before ++ front).getLast?.any attaches = false
  whole : (back ++ after).head?.any continuesName = false

/-- Whether a name stands on its own in a text. -/
def UsesName (name text : Text) : Prop :=
  ∃ front back, StandsIn name [] text [] front back

section Names

variable {name : Text}

theorem any_head?_name (nonempty : name ≠ []) (areName : ∀ c ∈ name, continuesName c = true) (rest : Text) :
    (name ++ rest).head?.any continuesName = true := by
  obtain ⟨c, later, rfl⟩ := List.exists_cons_of_ne_nil nonempty
  exact areName c List.mem_cons_self

theorem any_getLast?_name (nonempty : name ≠ []) (areName : ∀ c ∈ name, continuesName c = true) (front : Text) :
    (front ++ name).getLast?.any continuesName = true := by
  rw [List.getLast?_append_of_ne_nil front nonempty, List.getLast?_eq_some_getLast nonempty, Option.any_some]
  exact areName _ (List.getLast_mem nonempty)

/-- A name that stands across a border at which no name goes on stands on one side of it. -/
theorem cut_of_border (areName : ∀ c ∈ name, continuesName c = true) {first second front back : Text}
    (border : first.getLast?.any continuesName = false ∨ second.head?.any continuesName = false)
    (split : first ++ second = front ++ (name ++ back)) :
    (∃ rest, first = front ++ (name ++ rest) ∧ back = rest ++ second) ∨
      ∃ rest, front = first ++ rest ∧ second = rest ++ (name ++ back) := by
  rcases List.append_eq_append_iff.mp split with ⟨rest, isFront, isSecond⟩ | ⟨rest, isFirst, isName⟩
  · exact Or.inr ⟨rest, isFront, isSecond⟩
  rcases List.append_eq_append_iff.mp isName with ⟨extra, isRest, isBack⟩ | ⟨extra, isName, isSecond⟩
  · exact Or.inl ⟨extra, by rw [isFirst, isRest], isBack⟩
  -- Part of the name stands in front of the border, and the rest of it behind.
  by_cases noneBefore : rest = []
  · subst noneBefore
    rw [List.append_nil] at isFirst
    rw [List.nil_append] at isName
    exact Or.inr ⟨[], by rw [isFirst, List.append_nil], by rw [isSecond, ← isName, List.nil_append]⟩
  by_cases noneBehind : extra = []
  · subst noneBehind
    rw [List.append_nil] at isName
    rw [List.nil_append] at isSecond
    exact Or.inl ⟨[], by rw [isFirst, isName, List.append_nil], by rw [isSecond, List.nil_append]⟩
  exfalso
  rcases border with ended | ended
  · have goesOn := any_getLast?_name noneBefore
      (fun c member => areName c (isName ▸ List.mem_append_left extra member)) front
    rw [← isFirst, ended] at goesOn
    contradiction
  · have goesOn := any_head?_name noneBehind
      (fun c member => areName c (isName ▸ List.mem_append_right rest member)) back
    rw [← isSecond, ended] at goesOn
    contradiction

namespace StandsIn

variable {before after front back first second : Text}

/-- Nothing that a name could be attached to stands in front of where it stands on its own. -/
theorem any_continuesName_of_free {text : Text} (free : text.getLast?.any attaches = false) :
    text.getLast?.any continuesName = false := by
  cases isLast : text.getLast? with
  | none => rfl
  | some c =>
      rw [isLast, Option.any_some, attaches, Bool.or_eq_false_iff] at free
      exact free.1

/-- What stands in the first part of a stretch stands in the stretch. -/
theorem append_right (stands : StandsIn name before first (second ++ after) front back) :
    StandsIn name before (first ++ second) after front (back ++ second) where
  split := by rw [stands.split]; simp
  free := stands.free
  whole := by rw [List.append_assoc]; exact stands.whole

/-- What stands in the second part of a stretch stands in the stretch. -/
theorem append_left (stands : StandsIn name (before ++ first) second after front back) :
    StandsIn name before (first ++ second) after (first ++ front) back where
  split := by rw [stands.split]; simp
  free := by rw [← List.append_assoc]; exact stands.free
  whole := stands.whole

/-- What stands in a stretch with a border at which no name goes on stands in one of its two parts. -/
theorem cases_append (areName : ∀ c ∈ name, continuesName c = true)
    (border : first.getLast?.any continuesName = false ∨ second.head?.any continuesName = false)
    (stands : StandsIn name before (first ++ second) after front back) :
    (∃ extra, StandsIn name before first (second ++ after) front extra) ∨
      ∃ extra, front = first ++ extra ∧ StandsIn name (before ++ first) second after extra back := by
  obtain ⟨split, free, whole⟩ := stands
  rcases cut_of_border areName border split with ⟨extra, isFirst, rfl⟩ | ⟨extra, rfl, isSecond⟩
  · rw [List.append_assoc] at whole
    exact Or.inl ⟨extra, isFirst, free, whole⟩
  · rw [← List.append_assoc] at free
    exact Or.inr ⟨extra, rfl, isSecond, free, whole⟩

/-- What there is in front of a stretch does not count where no name begins it, or where nothing in front
attaches to a name. -/
theorem change_before {others : Text} (nonempty : name ≠ []) (areName : ∀ c ∈ name, continuesName c = true)
    (apart : others.getLast?.any attaches = false ∨ first.head?.any continuesName = false)
    (stands : StandsIn name before first after front back) : StandsIn name others first after front back where
  split := stands.split
  free := by
    have isFree := stands.free
    by_cases isFirst : front = []
    · subst isFirst
      rw [List.append_nil]
      refine apart.resolve_right fun noName => ?_
      rw [stands.split, List.nil_append, any_head?_name nonempty areName] at noName
      contradiction
    · rwa [List.getLast?_append_of_ne_nil _ isFirst] at isFree ⊢
  whole := stands.whole

/-- What there is behind a stretch does not count where no name ends it, or where no name goes on. -/
theorem change_after {others : Text} (nonempty : name ≠ []) (areName : ∀ c ∈ name, continuesName c = true)
    (apart : first.getLast?.any continuesName = false ∨ others.head?.any continuesName = false)
    (stands : StandsIn name before first after front back) : StandsIn name before first others front back where
  split := stands.split
  free := stands.free
  whole := by
    have isWhole := stands.whole
    cases back with
    | nil =>
        refine apart.resolve_left fun noName => ?_
        rw [stands.split, List.append_nil, any_getLast?_name nonempty areName] at noName
        contradiction
    | cons c later => exact isWhole

/-- A name that stands as a whole is all that a name can be there. -/
theorem takeWhile_eq (areName : ∀ c ∈ name, continuesName c = true)
    (whole : back.head?.any continuesName = false) : (name ++ back).takeWhile continuesName = name := by
  rw [List.takeWhile_append_of_pos areName]
  cases back with
  | nil => rw [List.takeWhile_nil, List.append_nil]
  | cons c rest =>
      have stops : continuesName c = false := by simpa using whole
      rw [List.takeWhile_cons_of_neg (by simp [stops]), List.append_nil]

/-- Of two names that stand on their own, the later one does not begin within the earlier one. -/
theorem eq_of_overlap {other text place following : Text} (areName : ∀ c ∈ name, continuesName c = true)
    (areOther : ∀ c ∈ other, continuesName c = true) (stands : StandsIn name [] text [] front back)
    (standsOther : StandsIn other [] text [] place following) (inOrder : place.length ≤ front.length)
    (overlap : front.length < place.length + other.length) : front = place ∧ name = other := by
  have split := standsOther.split.symm.trans stands.split
  obtain ⟨extra, rfl, isRest⟩ := Text.exists_between split inOrder
  rw [List.length_append] at overlap
  obtain ⟨rest, isOther, _⟩ := Text.exists_between isRest.symm (by omega)
  have none : extra = [] := by
    by_contra some
    have goesOn := any_getLast?_name some
      (fun c member => areOther c (isOther ▸ List.mem_append_left rest member)) place
    have isFree := any_continuesName_of_free stands.free
    rw [List.nil_append, goesOn] at isFree
    contradiction
  subst none
  refine ⟨List.append_nil place, ?_⟩
  have whole := stands.whole
  have wholeOther := standsOther.whole
  rw [List.append_nil] at whole wholeOther
  rw [← takeWhile_eq areName whole, ← takeWhile_eq areOther wholeOther, isRest, List.nil_append]

end StandsIn

end Names

/-! ## Edits between names -/

namespace Edit

/-- One of some edits that neither cuts through a name nor joins two: it begins behind no name, and ends
where nothing attached to a name or no name began; and if it puts anything in, no name begins behind it. -/
structure KeepsNames (text : Text) (edits : List Edit) (edit : Edit) : Prop where
  ordered : edit.start ≤ edit.stop
  inside : edit.stop ≤ text.length
  begins : (text.take edit.start).getLast?.any continuesName = false
  ends : (text.take edit.stop).getLast?.any attaches = false ∨
    (text.drop edit.stop).head?.any continuesName = false
  replaces : edit.replacement ≠ [] → (text.drop edit.stop).head?.any continuesName = false ∧
    ∀ other ∈ edits, other.start ≠ edit.stop

variable {name text : Text}

theorem KeepsNames.of_subset {edits others : List Edit} {edit : Edit} (isPart : others ⊆ edits)
    (keeps : KeepsNames text edits edit) : KeepsNames text others edit :=
  { keeps with
    replaces := fun puts =>
      ⟨(keeps.replaces puts).1, fun other member => (keeps.replaces puts).2 other (isPart member)⟩ }

/-- Where no edit begins at the cursor, the text goes on as it did. -/
theorem head?_splice {cursor : Nat} {edits : List Edit} (follow : Follow cursor edits)
    (inside : ∀ edit ∈ edits, edit.start ≤ text.length) (apart : ∀ edit ∈ edits, edit.start ≠ cursor) :
    (splice text cursor edits).head? = (text.drop cursor).head? := by
  cases edits with
  | nil => rfl
  | cons edit rest =>
      have reached := follow.1
      have notHere := apart edit List.mem_cons_self
      have within := inside edit List.mem_cons_self
      have split := Text.drop_eq_slice_append text reached
      have nonempty : Text.slice text cursor edit.start ≠ [] := by
        apply List.ne_nil_of_length_pos
        rw [Text.length_slice within]
        omega
      obtain ⟨c, later, isSlice⟩ := List.exists_cons_of_ne_nil nonempty
      rw [splice, split, isSlice]
      rfl

/-- What stands behind a part of a text stands in the text. -/
theorem standsIn_of_drop {start stop : Nat} (ordered : start ≤ stop) {front back : Text}
    (stands : StandsIn name (text.take stop) (text.drop stop) [] front back) :
    StandsIn name (text.take start) (text.drop start) [] (Text.slice text start stop ++ front) back := by
  rw [Text.take_eq_append_slice text ordered] at stands
  rw [Text.drop_eq_slice_append text ordered]
  exact stands.append_left

section Splice

variable {edits : List Edit} {cursor stop : Nat} {before front back : Text}

/-- Nothing that stands in front of where a name begins ends a slice up to there. -/
theorem getLast?_slice (ordered : cursor ≤ stop)
    (ended : (text.take stop).getLast?.any continuesName = false) :
    (Text.slice text cursor stop).getLast?.any continuesName = false := by
  rw [Text.take_eq_append_slice text ordered] at ended
  cases last : (Text.slice text cursor stop).getLast? with
  | none => rfl
  | some c =>
      rw [List.getLast?_append, last] at ended
      exact ended

theorem head?_slice (ordered : cursor ≤ stop)
    (begun : (text.drop cursor).head?.any continuesName = false) :
    (Text.slice text cursor stop).head?.any continuesName = false := by
  rw [Text.drop_eq_slice_append text ordered] at begun
  cases isSlice : Text.slice text cursor stop with
  | nil => rfl
  | cons c later =>
      rw [isSlice] at begun
      exact begun

/-- What stands in the part of a text that is kept in front of an edit stood there before. -/
theorem standsIn_of_slice (nonempty : name ≠ []) (areName : ∀ c ∈ name, continuesName c = true)
    (ordered : cursor ≤ stop) (ended : (text.take stop).getLast?.any continuesName = false)
    (apart : (text.take cursor).getLast?.any attaches = false ∨
      (text.drop cursor).head?.any continuesName = false) {after : Text}
    (stands : StandsIn name before (Text.slice text cursor stop) after front back) :
    StandsIn name (text.take cursor) (text.drop cursor) [] front (back ++ text.drop stop) := by
  have inText : StandsIn name (text.take cursor) (Text.slice text cursor stop) (text.drop stop ++ [])
      front back :=
    (stands.change_before nonempty areName (apart.imp_right (head?_slice ordered))).change_after nonempty
      areName (Or.inl (getLast?_slice ordered ended))
  rw [Text.drop_eq_slice_append text ordered]
  exact inText.append_right

/-- No name goes on from what an edit between names puts in to what follows. -/
theorem KeepsNames.ends_replacement {edit : Edit} {rest : List Edit}
    (keeps : ∀ other ∈ edit :: rest, KeepsNames text (edit :: rest) other) (follow : Follow edit.stop rest) :
    edit.replacement.getLast?.any continuesName = false ∨
      (splice text edit.stop rest).head?.any continuesName = false := by
  by_cases puts : edit.replacement = []
  · rw [puts]
    exact Or.inl rfl
  · obtain ⟨noName, alone⟩ := (keeps edit List.mem_cons_self).replaces puts
    have inside : ∀ other ∈ rest, other.start ≤ text.length := fun other member =>
      have keepsOther := keeps other (List.mem_cons_of_mem edit member)
      Nat.le_trans keepsOther.ordered keepsOther.inside
    rw [head?_splice follow inside fun other member => alone other (List.mem_cons_of_mem edit member)]
    exact Or.inr noName

/-- What stands on its own from a cursor on, missed by edits there, and behind the same character as what
stands behind the edits unless one of them ends in front of it. -/
structure StoodFrom (name text : Text) (cursor : Nat) (edits : List Edit) (front place following : Text) : Prop where
  stands : StandsIn name (text.take cursor) (text.drop cursor) [] place following
  misses : ∀ edit ∈ edits, edit.Misses (cursor + place.length) (cursor + place.length + name.length)
  behind : front.getLast? = place.getLast? ∨ ∃ edit ∈ edits, edit.stop = cursor + place.length

/-- What stands in the part that is kept in front of the first edit is missed by it and by all later ones. -/
theorem stoodFrom_of_slice {edit : Edit} {rest : List Edit} {extra after : Text} (nonempty : name ≠ [])
    (areName : ∀ c ∈ name, continuesName c = true)
    (keeps : ∀ other ∈ edit :: rest, KeepsNames text (edit :: rest) other)
    (follow : Follow cursor (edit :: rest))
    (apart : (text.take cursor).getLast?.any attaches = false ∨
      (text.drop cursor).head?.any continuesName = false)
    (stands : StandsIn name before (Text.slice text cursor edit.start) after front extra) :
    StoodFrom name text cursor (edit :: rest) front front (extra ++ text.drop edit.start) where
  stands := standsIn_of_slice nonempty areName follow.1 (keeps edit List.mem_cons_self).begins apart stands
  misses := by
    obtain ⟨inOrder, followRest⟩ := follow
    have here := keeps edit List.mem_cons_self
    have laterStarts := start_le_of_follow followRest fun other member =>
      (keeps other (List.mem_cons_of_mem edit member)).ordered
    have fits := congrArg List.length stands.split
    rw [Text.length_slice (Nat.le_trans here.ordered here.inside)] at fits
    simp only [List.length_append] at fits
    intro other member
    refine Or.inr ?_
    rcases List.mem_cons.mp member with rfl | isLater
    · omega
    · have := laterStarts other isLater
      have := here.ordered
      omega
  behind := Or.inl rfl

/-- What stood behind the first edit stood there from further in front as well. -/
theorem StoodFrom.cons {edit : Edit} {rest : List Edit} {later place following : Text}
    (inOrder : cursor ≤ edit.start) (ordered : edit.start ≤ edit.stop) (inside : edit.stop ≤ text.length)
    (stood : StoodFrom name text edit.stop rest later place following) :
    StoodFrom name text cursor (edit :: rest) (before ++ later) (Text.slice text cursor edit.stop ++ place)
      following := by
  have reached : cursor + (Text.slice text cursor edit.stop ++ place).length = edit.stop + place.length := by
    rw [List.length_append, Text.length_slice inside]
    omega
  refine ⟨standsIn_of_drop (Nat.le_trans inOrder ordered) stood.stands, ?_, ?_⟩ <;> rw [reached]
  · intro other member
    rcases List.mem_cons.mp member with rfl | isLater
    · exact Or.inl (Nat.le_add_right _ _)
    · exact stood.misses other isLater
  · by_cases atOnce : place = []
    · exact Or.inr ⟨edit, List.mem_cons_self, by rw [atOnce]; rfl⟩
    rcases stood.behind with same | ⟨other, isLater, stops⟩
    · refine Or.inl ?_
      obtain ⟨c, isLast⟩ := Option.ne_none_iff_exists'.mp (mt List.getLast?_eq_none_iff.mp atOnce)
      simp only [List.getLast?_append, same, isLast, Option.some_or]
    · exact Or.inr ⟨other, List.mem_cons_of_mem edit isLater, stops⟩

/-- What stands on its own behind edits between names stood there before, missed by all of them and behind
the same character unless an edit ended there, or was put in. -/
theorem exists_stands_of_splice (nonempty : name ≠ []) (areName : ∀ c ∈ name, continuesName c = true)
    (keeps : ∀ edit ∈ edits, KeepsNames text edits edit) (follow : Follow cursor edits)
    (apart : (text.take cursor).getLast?.any attaches = false ∨
      (text.drop cursor).head?.any continuesName = false)
    (stands : StandsIn name before (splice text cursor edits) [] front back) :
    (∃ place following, StoodFrom name text cursor edits front place following) ∨
      ∃ edit ∈ edits, UsesName name edit.replacement := by
  induction edits generalizing cursor before front back with
  | nil => exact Or.inl ⟨front, back, stands.change_before nonempty areName apart, nofun, Or.inl rfl⟩
  | cons edit rest inductionHypothesis =>
      have here := keeps edit List.mem_cons_self
      have keepsRest : ∀ other ∈ rest, KeepsNames text rest other := fun other member =>
        (keeps other (List.mem_cons_of_mem edit member)).of_subset (List.subset_cons_self edit rest)
      have inOrder := follow.1
      rw [splice, List.append_assoc] at stands
      rcases stands.cases_append areName (Or.inl (getLast?_slice inOrder here.begins)) with
        ⟨extra, inHead⟩ | ⟨extra, rfl, behind⟩
      · exact Or.inl ⟨front, _, stoodFrom_of_slice nonempty areName keeps follow apart inHead⟩
      rcases behind.cases_append areName (KeepsNames.ends_replacement keeps follow.2) with
        ⟨inner, inPut⟩ | ⟨later, rfl, inTail⟩
      · refine Or.inr ⟨edit, List.mem_cons_self, extra, inner, ?_⟩
        exact (inPut.change_before nonempty areName (Or.inl rfl)).change_after nonempty areName (Or.inr rfl)
      rcases inductionHypothesis keepsRest follow.2 here.ends inTail with
        ⟨place, following, stood⟩ | ⟨other, member, puts⟩
      · rw [← List.append_assoc]
        exact Or.inl ⟨_, following, stood.cons inOrder here.ordered here.inside⟩
      · exact Or.inr ⟨other, List.mem_cons_of_mem edit member, puts⟩

/-- What stood on its own, missed by edits between names, stands there still. -/
theorem exists_stands_splice (nonempty : name ≠ []) (areName : ∀ c ∈ name, continuesName c = true)
    (keeps : ∀ edit ∈ edits, KeepsNames text edits edit)
    (noName : ∀ edit ∈ edits, (text.drop edit.stop).head?.any continuesName = false)
    (follow : Follow cursor edits) (stands : StandsIn name before (text.drop cursor) [] front back)
    (misses : ∀ edit ∈ edits, edit.Misses (cursor + front.length) (cursor + front.length + name.length)) :
    ∃ front back, StandsIn name before (splice text cursor edits) [] front back := by
  induction edits generalizing cursor before front back with
  | nil => exact ⟨front, back, stands⟩
  | cons edit rest inductionHypothesis =>
      have here := keeps edit List.mem_cons_self
      have keepsRest : ∀ other ∈ rest, KeepsNames text rest other := fun other member =>
        (keeps other (List.mem_cons_of_mem edit member)).of_subset (List.subset_cons_self edit rest)
      obtain ⟨inOrder, followRest⟩ := follow
      have split := stands.split
      rw [splice, List.append_assoc]
      rcases misses edit List.mem_cons_self with isBehind | isBefore
      · -- The name stands behind the edit, and not directly behind it.
        have length := @Text.length_slice text cursor edit.stop here.inside
        rw [Text.drop_eq_slice_append text (Nat.le_trans inOrder here.ordered)] at split
        obtain ⟨later, rfl, isTail⟩ := Text.exists_between split (by omega)
        have someLater : later ≠ [] := by
          rintro rfl
          have begins := noName edit List.mem_cons_self
          rw [isTail, List.nil_append, any_head?_name nonempty areName] at begins
          contradiction
        have isFree : ∀ others : Text, (others ++ later).getLast?.any attaches = false := by
          intro others
          have free := stands.free
          rw [← List.append_assoc, List.getLast?_append_of_ne_nil _ someLater] at free
          rwa [List.getLast?_append_of_ne_nil _ someLater]
        have inTail : StandsIn name (before ++ Text.slice text cursor edit.start ++ edit.replacement)
            (text.drop edit.stop) [] later back := ⟨isTail, isFree _, stands.whole⟩
        have reached : cursor + (Text.slice text cursor edit.stop ++ later).length = edit.stop + later.length := by
          have := here.ordered
          rw [List.length_append, length]
          omega
        rw [reached] at misses
        obtain ⟨place, following, standsThere⟩ := inductionHypothesis keepsRest
          (fun other member => noName other (List.mem_cons_of_mem edit member)) followRest inTail
          fun other member => misses other (List.mem_cons_of_mem edit member)
        exact ⟨_, following, standsThere.append_left.append_left⟩
      · -- The name stands in what is kept in front of the edit.
        have length := @Text.length_slice text cursor edit.start (Nat.le_trans here.ordered here.inside)
        rw [Text.drop_eq_slice_append text inOrder, ← List.append_assoc front] at split
        obtain ⟨extra, isHead, isBack⟩ := Text.exists_between split.symm (by rw [List.length_append]; omega)
        have inHead : StandsIn name before (Text.slice text cursor edit.start) (text.drop edit.start) front extra :=
          ⟨by rw [isHead, List.append_assoc], stands.free, by
            have whole := stands.whole
            rwa [isBack, List.append_nil] at whole⟩
        have inText : StandsIn name before (Text.slice text cursor edit.start)
            (edit.replacement ++ splice text edit.stop rest ++ []) front extra :=
          inHead.change_after nonempty areName (Or.inl (getLast?_slice inOrder here.begins))
        exact ⟨front, _, inText.append_right⟩

end Splice

section Whole

variable {edits : List Edit}

theorem keepsNames_applied (keeps : ∀ edit ∈ edits, KeepsNames text edits edit) :
    ∀ edit ∈ applied 0 (sorted edits), KeepsNames text (applied 0 (sorted edits)) edit := by
  have isPart : applied 0 (sorted edits) ⊆ edits := fun edit member =>
    mem_of_mem_sorted.mp (applied_subset 0 _ member)
  exact fun edit member => (keeps edit (isPart member)).of_subset isPart

/-- A name that stands on its own behind edits between names stood there before, missed by all that were
made and behind the same character unless an edit ended there, or was put in. -/
theorem exists_stands_of_applyAll (nonempty : name ≠ []) (areName : ∀ c ∈ name, continuesName c = true)
    (keeps : ∀ edit ∈ edits, KeepsNames text edits edit) {front back : Text}
    (stands : StandsIn name [] (applyAll edits text) [] front back) :
    (∃ place following, StandsIn name [] text [] place following ∧
        (∀ edit ∈ applied 0 (sorted edits), edit.Misses place.length (place.length + name.length)) ∧
        (front.getLast? = place.getLast? ∨ ∃ edit ∈ edits, edit.stop = place.length)) ∨
      ∃ edit ∈ edits, UsesName name edit.replacement := by
  have isPart : applied 0 (sorted edits) ⊆ edits := fun edit member =>
    mem_of_mem_sorted.mp (applied_subset 0 _ member)
  rcases exists_stands_of_splice nonempty areName (keepsNames_applied keeps) (follow_applied 0 _)
    (Or.inl rfl) stands with ⟨place, following, standsThere, misses, behind⟩ | ⟨edit, member, puts⟩
  · rw [Nat.zero_add] at misses behind
    refine Or.inl ⟨place, following, standsThere, misses, behind.imp_right ?_⟩
    rintro ⟨edit, member, stops⟩
    exact ⟨edit, isPart member, stops⟩
  · exact Or.inr ⟨edit, isPart member, puts⟩

/-- Edits behind which no name begins leave the character in front of a name. -/
theorem exists_stands_behind_of_applyAll (nonempty : name ≠ []) (areName : ∀ c ∈ name, continuesName c = true)
    (keeps : ∀ edit ∈ edits, KeepsNames text edits edit)
    (noName : ∀ edit ∈ edits, (text.drop edit.stop).head?.any continuesName = false)
    (notPut : ∀ edit ∈ edits, ¬UsesName name edit.replacement) {front back : Text}
    (stands : StandsIn name [] (applyAll edits text) [] front back) :
    ∃ place following, StandsIn name [] text [] place following ∧ front.getLast? = place.getLast? ∧
      ∀ edit ∈ applied 0 (sorted edits), edit.Misses place.length (place.length + name.length) := by
  rcases exists_stands_of_applyAll nonempty areName keeps stands with
    ⟨place, following, standsThere, misses, same | ⟨edit, member, stops⟩⟩ | ⟨edit, member, puts⟩
  · exact ⟨place, following, standsThere, same, misses⟩
  · have noneBehind := noName edit member
    rw [stops, standsThere.split, List.drop_left, any_head?_name nonempty areName] at noneBehind
    contradiction
  · exact absurd puts (notPut edit member)

/-- A name that stands on its own, missed by all edits, stands there still. -/
theorem usesName_applyAll (nonempty : name ≠ []) (areName : ∀ c ∈ name, continuesName c = true)
    (keeps : ∀ edit ∈ edits, KeepsNames text edits edit)
    (noName : ∀ edit ∈ edits, (text.drop edit.stop).head?.any continuesName = false) {front back : Text}
    (stands : StandsIn name [] text [] front back)
    (misses : ∀ edit ∈ edits, edit.Misses front.length (front.length + name.length)) :
    UsesName name (applyAll edits text) := by
  have isPart : applied 0 (sorted edits) ⊆ edits := fun edit member =>
    mem_of_mem_sorted.mp (applied_subset 0 _ member)
  refine exists_stands_splice nonempty areName (keepsNames_applied keeps)
    (fun edit member => noName edit (isPart member)) (follow_applied 0 _) stands fun edit member => ?_
  rw [Nat.zero_add]
  exact misses edit (isPart member)

end Whole

end Edit

end SceneBundler
