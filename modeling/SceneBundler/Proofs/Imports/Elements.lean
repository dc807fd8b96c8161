import SceneBundler.Proofs.Imports.Completeness
import SceneBundler.Proofs.Imports.Written
import SceneBundler.Proofs.Source.TagScan
import SceneBundler.Proofs.Text.Coverage
import SceneBundler.Proofs.Text.Occurrence

/-!
Contract: what the steps of a resolution do to the names in a source.

Owns:
- the places at which one of some names is found, and the edits that rename it there;
- that a name which is renamed is left just where a lone colon follows it;
- that giving tags their intrinsic names and removing elements neither cut through a name nor join two;
- that an imported name which was renamed throughout is left by them nowhere, and that no element is
  removed for it.

Does not own: what a name is renamed to, and the imports of the result.
-/

namespace SceneBundler.Imports

open Source (mask Tag)
open Character (continuesName attaches)

/-! ## Names in a view -/

theorem reads_anyOf_iff {patterns : List Pattern} {cursor next : Cursor} :
    (Pattern.anyOf patterns).Reads cursor next ↔ ∃ pattern ∈ patterns, pattern.Reads cursor next := by
  induction patterns with
  | nil =>
      constructor
      · intro reads
        obtain ⟨c, accepted, _⟩ := Cursor.passes_of_step? reads
        contradiction
      · exact nofun
  | cons pattern rest inductionHypothesis =>
      cases rest with
      | nil => simp [Pattern.anyOf]
      | cons other later =>
          change pattern.Reads cursor next ∨ (Pattern.anyOf (other :: later)).Reads cursor next ↔ _
          rw [inductionHypothesis]
          simp

section Among

variable {names : List Text} {masked : Text}

/-- One of some names is read where it stands on its own. -/
theorem stands_of_reads {passed ahead : Text} {next : Cursor}
    (reads : (identifierAmong names).Reads (Cursor.between passed ahead) next) :
    ∃ name ∈ names, ∃ back, StandsIn name [] (passed ++ ahead) [] passed back ∧
      next.offset = passed.length + name.length ∧
      next.captures.lookup 1 = some ⟨passed.length, passed.length + name.length⟩ := by
  obtain ⟨last, ⟨_, ⟨free, rfl⟩, readsName⟩, ⟨whole, rfl⟩⟩ := reads
  have kept := Pattern.lookup_of_reads_capture readsName
  obtain ⟨inner, readsWord, rfl⟩ := readsName
  obtain ⟨_, isWord, readsWord⟩ := reads_anyOf_iff.mp readsWord
  obtain ⟨name, isName, rfl⟩ := List.mem_map.mp isWord
  obtain ⟨passes, _⟩ := Pattern.reads_word_iff.mp readsWord
  have reached : inner.offset = passed.length + name.length := passes.offset_eq
  have split : ahead = name ++ inner.ahead := passes.ahead_eq
  refine ⟨name, Text.mem_sortedSet.mp (List.mem_reverse.mp isName), inner.ahead, ⟨by rw [split], ?_, ?_⟩,
    reached, ?_⟩
  · change (!passed.getLast?.any attaches) = true at free
    simpa using free
  · simpa using whole
  · rw [kept, reached]
    rfl

theorem exists_reads_of_stands {name front back : Text} (isListed : name ∈ names)
    (stands : StandsIn name [] masked [] front back) :
    ∃ next, (identifierAmong names).Reads (Cursor.between front (name ++ back)) next := by
  have listed : Pattern.word name ∈ (Text.sortedSet names).reverse.map Pattern.word :=
    List.mem_map.mpr ⟨name, List.mem_reverse.mpr (Text.mem_sortedSet.mpr isListed), rfl⟩
  have readsWord : (Pattern.anyOf ((Text.sortedSet names).reverse.map Pattern.word)).Reads
      (Cursor.between front (name ++ back)) (Cursor.between (front ++ name) back) :=
    reads_anyOf_iff.mpr ⟨_, listed, Pattern.reads_word_between front name back⟩
  refine ⟨_, _, ⟨_, ⟨?_, rfl⟩, ⟨_, readsWord, rfl⟩⟩, ⟨?_, rfl⟩⟩
  · have free := stands.free
    change (!front.getLast?.any attaches) = true
    rw [List.nil_append] at free
    rw [free]
    rfl
  · have whole := stands.whole
    change (!back.head?.any continuesName) = true
    rw [List.append_nil] at whole
    rw [whole]
    rfl

/-- What is found is a name that stands on its own. -/
theorem stands_of_mem_all {found : Match} (member : found ∈ (identifierAmong names).all masked) :
    ∃ name ∈ names, ∃ front back, StandsIn name [] masked [] front back ∧ found.start = front.length ∧
      found.stop = front.length + name.length ∧ found.captured masked 1 = name := by
  obtain ⟨passed, ahead, rfl, foundHere⟩ := Pattern.find_of_mem_all member
  obtain ⟨next, reads, rfl⟩ := Pattern.reads_of_find foundHere
  obtain ⟨name, isListed, back, stands, reached, kept⟩ := stands_of_reads reads
  refine ⟨name, isListed, passed, back, stands, rfl, reached, ?_⟩
  have isThere : Text.slice (passed ++ ahead) passed.length (passed.length + name.length) = name := by
    rw [stands.split, Text.slice_behind]
  simp only [Match.captured, Match.captured?, Match.span?, kept, Option.map_some, Option.getD_some, Span.of,
    isThere]

/-- A listed name is found wherever it stands on its own. -/
theorem exists_mem_all_of_stands (areNames : ∀ name ∈ names, IsName name) {name front back : Text}
    (isListed : name ∈ names) (stands : StandsIn name [] masked [] front back) :
    ∃ found ∈ (identifierAmong names).all masked, found.start = front.length ∧
      found.stop = front.length + name.length ∧ found.captured masked 1 = name := by
  obtain ⟨next, reads⟩ := exists_reads_of_stands isListed stands
  obtain ⟨found, member, covers⟩ := @Pattern.exists_mem_searchBehind _ [] front _ next reads
  rw [← stands.split] at member
  obtain ⟨other, isOther, place, following, standsOther, start, stop, captured⟩ := stands_of_mem_all member
  have longer := List.length_pos_iff.mpr (areNames other isOther).ne_nil
  have inside : place.length ≤ front.length ∧ front.length < place.length + other.length := by
    rw [List.nil_append] at covers
    rcases covers with same | ⟨after, before⟩ <;> omega
  obtain ⟨rfl, rfl⟩ := StandsIn.eq_of_overlap (areNames name isListed).isNameText
    (areNames other isOther).isNameText stands standsOther inside.1 inside.2
  exact ⟨found, member, start, stop, captured⟩

end Among

/-! ## Renamings -/

section Renamings

variable {masked : Text} {renamings : List (Text × Text)}

/-- Every renaming edit replaces a renamed name that stands on its own and that no lone colon follows. -/
theorem stands_of_mem_renamingEdits {edit : Edit} (member : edit ∈ renamingEdits masked renamings) :
    ∃ entry ∈ renamings, ∃ front back, StandsIn entry.1 [] masked [] front back ∧
      edit.start = front.length ∧ edit.stop = front.length + entry.1.length ∧
      edit.replacement = entry.2 ∧ isObjectKey masked edit.stop = false := by
  obtain ⟨found, isFound, isEdit⟩ := List.mem_filterMap.mp member
  obtain ⟨name, _, front, back, stands, start, stop, captured⟩ := stands_of_mem_all isFound
  by_cases isKey : isObjectKey masked found.stop = true
  · rw [if_pos isKey] at isEdit
    contradiction
  · rw [if_neg isKey, captured] at isEdit
    obtain ⟨replacement, known, rfl⟩ := Option.map_eq_some_iff.mp isEdit
    obtain ⟨earlier, later, split, _⟩ := List.lookup_eq_some_iff.mp known
    have isListed : (name, replacement) ∈ renamings := by
      rw [← List.mem_reverse, split]
      exact List.mem_append_right _ List.mem_cons_self
    exact ⟨_, isListed, front, back, stands, start, stop, rfl, by simpa using isKey⟩

/-- A renamed name that stands on its own is replaced there, unless a lone colon follows it. -/
theorem exists_mem_renamingEdits (areNames : ∀ entry ∈ renamings, IsName entry.1)
    {name front back : Text} (isRenamed : name ∈ renamings.map (·.1))
    (stands : StandsIn name [] masked [] front back)
    (noKey : isObjectKey masked (front.length + name.length) = false) :
    ∃ edit ∈ renamingEdits masked renamings, edit.start = front.length := by
  have areListed : ∀ other ∈ renamings.map (·.1), IsName other := by
    intro other isOther
    obtain ⟨entry, isEntry, rfl⟩ := List.mem_map.mp isOther
    exact areNames entry isEntry
  obtain ⟨found, isFound, start, stop, captured⟩ := exists_mem_all_of_stands areListed isRenamed stands
  cases known : renamings.reverse.lookup name with
  | none =>
      obtain ⟨entry, isEntry, rfl⟩ := List.mem_map.mp isRenamed
      have differs := List.lookup_eq_none_iff.mp known entry (List.mem_reverse.mpr isEntry)
      simp at differs
  | some replacement =>
      refine ⟨⟨found.start, found.stop, replacement⟩, List.mem_filterMap.mpr ⟨found, isFound, ?_⟩, start⟩
      rw [stop, noKey, captured, known]
      rfl

theorem keepsNames_renamingEdits (areNames : ∀ entry ∈ renamings, IsName entry.1) :
    ∀ edit ∈ renamingEdits masked renamings,
      Edit.KeepsNames masked (renamingEdits masked renamings) edit ∧ edit.start < edit.stop ∧
        (masked.drop edit.stop).head?.any continuesName = false := by
  intro edit member
  obtain ⟨entry, isEntry, front, back, stands, start, stop, _, _⟩ := stands_of_mem_renamingEdits member
  have longer := List.length_pos_iff.mpr (areNames entry isEntry).ne_nil
  have split := stands.split
  have whole := stands.whole
  have free := stands.free
  have taken : masked.take edit.start = front := by rw [start, split, List.take_left]
  have dropped : masked.drop edit.stop = back := by
    rw [stop, split, ← List.append_assoc, ← List.length_append, List.drop_left]
  rw [List.append_nil] at whole
  rw [List.nil_append] at free
  have noName : (masked.drop edit.stop).head?.any continuesName = false := by rw [dropped, whole]
  refine ⟨⟨by omega, ?_, ?_, Or.inr noName, fun _ => ⟨noName, ?_⟩⟩, by omega, noName⟩
  · rw [stop, split]
    simp
  · rw [taken]
    cases last : front.getLast? with
    | none => rfl
    | some c =>
        rw [last, Option.any_some, attaches, Bool.or_eq_false_iff] at free
        exact free.1
  · -- Another edit begins with a name, and none begins here.
    intro other isOther same
    obtain ⟨next, isNext, place, following, standsNext, startNext, _⟩ := stands_of_mem_renamingEdits isOther
    have isName := areNames next isNext
    obtain ⟨c, rest, isText⟩ := List.exists_cons_of_ne_nil isName.ne_nil
    have begins : masked.drop edit.stop = next.1 ++ following := by
      rw [← same, startNext, standsNext.split, List.drop_left]
    rw [begins, isText, List.cons_append, List.head?_cons, Option.any_some,
      isName.isNameText c (isText ▸ List.mem_cons_self)] at noName
    contradiction

/-- Where a renamed name is left, a lone colon followed it, if no renaming puts it in. -/
theorem exists_isObjectKey_of_stands (areNames : ∀ entry ∈ renamings, IsName entry.1) {name : Text}
    (isRenamed : name ∈ renamings.map (·.1)) (notPut : ∀ entry ∈ renamings, ¬UsesName name entry.2)
    {front back : Text}
    (stands : StandsIn name [] (Edit.applyAll (renamingEdits masked renamings) masked) [] front back) :
    ∃ place following, StandsIn name [] masked [] place following ∧ front.getLast? = place.getLast? ∧
      isObjectKey masked (place.length + name.length) = true := by
  have keeps := @keepsNames_renamingEdits masked renamings areNames
  have isName : IsName name := by
    obtain ⟨entry, isEntry, rfl⟩ := List.mem_map.mp isRenamed
    exact areNames entry isEntry
  have longer := List.length_pos_iff.mpr isName.ne_nil
  have notPutIn : ∀ edit ∈ renamingEdits masked renamings, ¬UsesName name edit.replacement := by
    intro edit member
    obtain ⟨other, isOther, _, _, _, _, _, isPut, _⟩ := stands_of_mem_renamingEdits member
    rw [isPut]
    exact notPut other isOther
  obtain ⟨place, following, standsThere, same, misses⟩ := Edit.exists_stands_behind_of_applyAll isName.ne_nil
    isName.isNameText (fun edit member => (keeps edit member).1) (fun edit member => (keeps edit member).2.2)
    notPutIn stands
  refine ⟨place, following, standsThere, same, ?_⟩
  by_contra noKey
  obtain ⟨edit, member, start⟩ := exists_mem_renamingEdits areNames isRenamed standsThere (by simpa using noKey)
  obtain ⟨made, isMade, begins, ends⟩ := Edit.exists_made (fun edit member => (keeps edit member).2.1) member
  rcases misses made isMade with isBefore | isBehind <;> omega

/-- A renamed name is left just where a lone colon follows it, if no renaming puts it in. -/
theorem usesName_renamed_iff (areNames : ∀ entry ∈ renamings, IsName entry.1) {name : Text}
    (isRenamed : name ∈ renamings.map (·.1)) (notPut : ∀ entry ∈ renamings, ¬UsesName name entry.2) :
    UsesName name (Edit.applyAll (renamingEdits masked renamings) masked) ↔
      ∃ front back, StandsIn name [] masked [] front back ∧
        isObjectKey masked (front.length + name.length) = true := by
  constructor
  · rintro ⟨front, back, stands⟩
    obtain ⟨place, following, standsThere, _, isKey⟩ := exists_isObjectKey_of_stands areNames isRenamed notPut stands
    exact ⟨place, following, standsThere, isKey⟩
  · rintro ⟨front, back, stands, isKey⟩
    have keeps := @keepsNames_renamingEdits masked renamings areNames
    obtain ⟨entry, isEntry, rfl⟩ := List.mem_map.mp isRenamed
    have isName := areNames entry isEntry
    have longer := List.length_pos_iff.mpr isName.ne_nil
    refine Edit.usesName_applyAll isName.ne_nil isName.isNameText (fun edit member => (keeps edit member).1)
      (fun edit member => (keeps edit member).2.2) stands fun edit member => ?_
    obtain ⟨other, isOther, place, following, standsOther, start, stop, _, noKey⟩ :=
      stands_of_mem_renamingEdits member
    have otherName := areNames other isOther
    have otherLonger := List.length_pos_iff.mpr otherName.ne_nil
    unfold Edit.Misses
    by_contra overlaps
    -- Two names that overlap are one, and this one is a key.
    have same : front = place ∧ entry.1 = other.1 := by
      by_cases inOrder : place.length ≤ front.length
      · exact StandsIn.eq_of_overlap isName.isNameText otherName.isNameText stands standsOther inOrder (by omega)
      · obtain ⟨isPlace, isOther⟩ := StandsIn.eq_of_overlap otherName.isNameText isName.isNameText standsOther
          stands (by omega) (by omega)
        exact ⟨isPlace.symm, isOther.symm⟩
    rw [stop, ← same.1, ← same.2, isKey] at noKey
    contradiction

end Renamings

/-! ## Lines -/

section Lines

variable {text : Text} {offset : Nat}

/-- Nothing stands in front of the beginning of a line but a line break. -/
theorem getLast?_take_lineStartBefore (inside : offset ≤ text.length) :
    Source.lineStartBefore text offset ≤ offset ∧
      StartsLine (text.take (Source.lineStartBefore text offset)) := by
  have split : text.take offset =
      ((text.take offset).reverse.dropWhile (· != '\n')).reverse ++
        ((text.take offset).reverse.takeWhile (· != '\n')).reverse := by
    rw [← List.reverse_append, List.takeWhile_append_dropWhile, List.reverse_reverse]
  have stops : StartsLine ((text.take offset).reverse.dropWhile (· != '\n')).reverse := by
    rw [StartsLine, List.getLast?_reverse]
    cases ends : (text.take offset).reverse.dropWhile (· != '\n') with
    | nil => rfl
    | cons c rest =>
        have isBreak := @List.head_dropWhile_not _ (· != '\n') (text.take offset).reverse (by simp [ends])
        simpa [ends] using isBreak
  have isLine : Source.lineStartBefore text offset =
      offset - ((text.take offset).reverse.takeWhile (· != '\n')).reverse.length := by
    rw [List.length_reverse]
    rfl
  generalize ((text.take offset).reverse.dropWhile (· != '\n')).reverse = front at split stops
  generalize ((text.take offset).reverse.takeWhile (· != '\n')).reverse = line at split isLine
  have length := congrArg List.length split
  rw [List.length_take, List.length_append] at length
  have isFront : text.take front.length = front := by
    have taken := congrArg (List.take front.length) split
    rwa [List.take_take, Nat.min_eq_left (by omega), List.take_left] at taken
  have reached : Source.lineStartBefore text offset = front.length := by omega
  rw [reached, isFront]
  exact ⟨by omega, stops⟩

/-- A line ends with a line break or with the text. -/
theorem lineEndFrom_cases (inside : offset ≤ text.length) :
    offset ≤ Source.lineEndFrom text offset ∧
      (text[Source.lineEndFrom text offset]? = some '\n' ∨ Source.lineEndFrom text offset = text.length) := by
  rw [Source.lineEndFrom, Text.offsetOf?]
  cases found : (text.drop offset).findIdx? (· == '\n') with
  | none => exact ⟨inside, Or.inr rfl⟩
  | some length =>
      refine ⟨Nat.le_add_right _ _, Or.inl ?_⟩
      obtain ⟨within, isBreak, _⟩ := List.findIdx?_eq_some_iff_getElem.mp found
      change text[offset + length]? = some '\n'
      rw [← List.getElem?_drop, List.getElem?_eq_getElem within]
      exact congrArg some (beq_iff_eq.mp isBreak)

end Lines

/-! ## Tags with other names -/

/-- The edits that give tags their intrinsic names. -/
def intrinsicEdits (catalog : Catalog) (declared : List Text) (masked : Text) : List Edit :=
  (Tag.scan masked).filterMap fun tag =>
    (catalog.intrinsicAliases.lookup tag.name).bind fun intrinsic =>
      if declared.contains tag.name then none
      else some ⟨tag.nameStart, tag.nameStart + tag.name.length, intrinsic⟩

section Tags

variable {catalog : Catalog} {declared : List Text} {masked : Text}

/-- An edit of a tag's name begins behind the mark of the tag and ends with the name. -/
theorem exists_tag_of_mem_intrinsicEdits (areNamed : ∀ entry ∈ catalog.intrinsicAliases, entry.1 ≠ [])
    {edit : Edit} (member : edit ∈ intrinsicEdits catalog declared masked) :
    ∃ front name back, masked = front ++ (name ++ back) ∧ name ≠ [] ∧
      (∃ mark, front.getLast? = some mark ∧ TagName.continues mark = false) ∧
      (∀ c ∈ name, TagName.continues c = true) ∧ back.head?.any TagName.continues = false ∧
      edit.start = front.length ∧ edit.stop = front.length + name.length ∧
      ∃ entry ∈ catalog.intrinsicAliases, edit.replacement = entry.2 := by
  obtain ⟨tag, isTag, isEdit⟩ := List.mem_filterMap.mp member
  obtain ⟨intrinsic, known, isEdit⟩ := Option.bind_eq_some_iff.mp isEdit
  obtain ⟨earlier, later, split, _⟩ := List.lookup_eq_some_iff.mp known
  have isListed : (tag.name, intrinsic) ∈ catalog.intrinsicAliases := by
    rw [split]
    exact List.mem_append_right _ List.mem_cons_self
  split at isEdit
  next => contradiction
  next =>
    obtain rfl := Option.some.inj isEdit
    obtain ⟨passed, lead, inner, rest, isMasked, shape⟩ := Tag.exists_hasShape_of_mem_scan isTag
    refine ⟨passed ++ '<' :: lead, tag.name, inner ++ '>' :: rest, ?_, areNamed _ isListed, shape.exists_mark,
      shape.named, shape.ends, shape.nameStart_eq, ?_, _, isListed, rfl⟩
    · rw [isMasked]
      simp
    · rw [← shape.nameStart_eq]

theorem keepsNames_intrinsicEdits (areNamed : ∀ entry ∈ catalog.intrinsicAliases, entry.1 ≠ []) :
    ∀ edit ∈ intrinsicEdits catalog declared masked,
      Edit.KeepsNames masked (intrinsicEdits catalog declared masked) edit ∧
        (masked.drop edit.stop).head?.any continuesName = false := by
  intro edit member
  obtain ⟨front, name, back, split, nonempty, ⟨mark, isMark, notName⟩, areName, ended, start, stop, _⟩ :=
    exists_tag_of_mem_intrinsicEdits areNamed member
  have taken : masked.take edit.start = front := by rw [start, split, List.take_left]
  have dropped : masked.drop edit.stop = back := by
    rw [stop, split, ← List.append_assoc, ← List.length_append, List.drop_left]
  have noName : (masked.drop edit.stop).head?.any continuesName = false := by
    rw [dropped]
    cases isBack : back.head? with
    | none => rfl
    | some c =>
        rw [isBack] at ended
        exact TagName.continuesName_of_continues ended
  refine ⟨⟨by omega, ?_, ?_, Or.inr noName, fun _ => ⟨noName, ?_⟩⟩, noName⟩
  · rw [stop, split]
    simp
  · rw [taken, isMark]
    exact TagName.continuesName_of_continues notName
  · -- Another edit begins behind a mark, and this one ends behind a name.
    intro other isOther same
    obtain ⟨place, _, _, splitOther, _, ⟨next, isNext, nextNotName⟩, _, _, startOther, _⟩ :=
      exists_tag_of_mem_intrinsicEdits areNamed isOther
    obtain ⟨c, isLast⟩ := Option.ne_none_iff_exists'.mp (mt List.getLast?_eq_none_iff.mp nonempty)
    have whole : masked.take edit.stop = front ++ name := by
      rw [stop, split, ← List.append_assoc, ← List.length_append, List.take_left]
    have isPlace : masked.take edit.stop = place := by
      rw [← same, startOther, splitOther, List.take_left]
    have sameLast := congrArg List.getLast? (whole.symm.trans isPlace)
    rw [List.getLast?_append, isLast, Option.some_or, isNext] at sameLast
    obtain rfl := Option.some.inj sameLast
    rw [areName c (List.mem_of_getLast? isLast)] at nextNotName
    contradiction

/-- The component that a tag opens an element of stands behind its mark as a name on its own. -/
theorem exists_stands_rootIdentifier {tag : Tag} (member : tag ∈ Tag.scan masked)
    (opens : tag.kind ≠ .closing) :
    ∃ front back, StandsIn tag.rootIdentifier [] masked [] front back ∧ front.getLast? = some '<' := by
  obtain ⟨passed, lead, inner, rest, split, shape⟩ := Tag.exists_hasShape_of_mem_scan member
  obtain ⟨rfl, _⟩ := shape.slash.resolve_right fun closes => opens closes.2
  have isName : tag.rootIdentifier ++ tag.name.dropWhile (· != '.') = tag.name :=
    List.takeWhile_append_dropWhile
  refine ⟨passed ++ ['<'], tag.name.dropWhile (· != '.') ++ (inner ++ '>' :: rest), ⟨?_, ?_, ?_⟩,
    List.getLast?_concat⟩
  · conv_lhs => rw [split, ← isName]
    simp
  · rw [List.nil_append, List.getLast?_concat]
    decide
  · rw [List.append_nil]
    cases member : tag.name.dropWhile (· != '.') with
    | nil =>
        have ended := shape.ends
        rw [List.nil_append]
        cases isNext : (inner ++ '>' :: rest).head? with
        | none => rfl
        | some c =>
            rw [isNext] at ended
            exact TagName.continuesName_of_continues ended
    | cons c later =>
        have isDot := @List.head_dropWhile_not _ (· != '.') tag.name (by simp [member])
        have same : c = '.' := by simpa [member] using isDot
        rw [same, List.cons_append, List.head?_cons]
        decide

end Tags

/-! ## Removed elements -/

/-- The removals of the elements of unknown components. -/
def elementRemovals (catalog : Catalog) (declared : List Text) (masked : Text) : List Edit :=
  ((Tag.scan masked).zipIdx.filter fun (tag, _) => isHallucinated catalog declared tag).map
    fun (tag, position) => elementRemoval masked tag.start (elementEnd (Tag.scan masked) position tag)

theorem removeHallucinated_fst (catalog : Catalog) (declared : List Text) (body : Text) :
    (removeHallucinated catalog declared body).1 =
      Edit.applyAll (elementRemovals catalog declared (mask body)) body :=
  rfl

section Removals

variable {catalog : Catalog} {declared : List Text} {masked : Text}

/-- An element ends with its own tag or a later one. -/
theorem exists_elementEnd {tag : Tag} {position : Nat} (isTag : (Tag.scan masked)[position]? = some tag) :
    ∃ last ∈ Tag.scan masked, elementEnd (Tag.scan masked) position tag = last.stop ∧
      tag.stop ≤ last.stop := by
  have member := List.mem_of_getElem? isTag
  rw [elementEnd]
  by_cases opens : tag.kind = .opening
  · rw [if_pos opens]
    split
    next closing isClosing =>
      obtain ⟨found, isFound, isThere⟩ := Option.bind_eq_some_iff.mp isClosing
      have isLater := Tag.lt_of_findClosing? isFound
      have isMember := List.mem_of_getElem? isThere
      obtain ⟨_, _, _, isNext⟩ := Tag.isRecognised_of_mem_scan isMember
      have longer := Tag.start_lt_stop_of_at? isNext
      obtain ⟨inside, rfl⟩ := List.getElem?_eq_some_iff.mp isTag
      obtain ⟨insideFound, rfl⟩ := List.getElem?_eq_some_iff.mp isThere
      have inOrder := List.pairwise_iff_getElem.mp (Tag.pairwise_scan masked) position found inside insideFound
        isLater
      exact ⟨_, isMember, rfl, by omega⟩
    next => exact ⟨tag, member, rfl, Nat.le_refl _⟩
  · rw [if_neg opens]
    exact ⟨tag, member, rfl, Nat.le_refl _⟩

/-- The removal of a stretch that begins behind no name and ends with a tag keeps names. -/
theorem keepsNames_elementRemoval {edits : List Edit} {start stop : Nat} (ordered : start ≤ stop)
    (inside : stop ≤ masked.length) (apart : (masked.take start).getLast?.any continuesName = false)
    (ended : (masked.take stop).getLast?.any attaches = false) :
    (elementRemoval masked start stop).KeepsNames masked edits := by
  obtain ⟨begun, startsLine⟩ := getLast?_take_lineStartBefore (Nat.le_trans ordered inside)
  obtain ⟨reached, endsLine⟩ := lineEndFrom_cases inside
  rw [elementRemoval]
  split
  next =>
    refine ⟨?_, Nat.min_le_right _ _, ?_, ?_, fun puts => absurd rfl puts⟩
    · change Source.lineStartBefore masked start ≤ min (Source.lineEndFrom masked stop + 1) masked.length
      omega
    · change (masked.take (Source.lineStartBefore masked start)).getLast?.any continuesName = false
      rw [StartsLine] at startsLine
      cases isLast : (masked.take (Source.lineStartBefore masked start)).getLast? with
      | none => rfl
      | some c =>
          rw [isLast] at startsLine
          obtain rfl := beq_iff_eq.mp startsLine
          decide
    · rcases endsLine with isBreak | isEnd
      · have within := (List.getElem?_eq_some_iff.mp isBreak).1
        refine Or.inl ?_
        change (masked.take (min (Source.lineEndFrom masked stop + 1) masked.length)).getLast?.any attaches = false
        rw [Nat.min_eq_left (by omega), List.take_add_one, isBreak]
        simp only [Option.toList_some, List.getLast?_concat]
        decide
      · refine Or.inr ?_
        change (masked.drop (min (Source.lineEndFrom masked stop + 1) masked.length)).head?.any continuesName = false
        rw [isEnd, Nat.min_eq_right (Nat.le_succ _), List.drop_length]
        rfl
  next => exact ⟨ordered, inside, apart, Or.inl ended, fun puts => absurd rfl puts⟩

theorem replacement_of_mem_elementRemovals {edit : Edit}
    (member : edit ∈ elementRemovals catalog declared masked) : edit.replacement = [] := by
  obtain ⟨⟨tag, position⟩, _, rfl⟩ := List.mem_map.mp member
  dsimp only [elementRemoval]
  split <;> rfl

theorem keepsNames_elementRemovals :
    ∀ edit ∈ elementRemovals catalog declared masked,
      Edit.KeepsNames masked (elementRemovals catalog declared masked) edit := by
  intro edit member
  obtain ⟨⟨tag, position⟩, isFound, rfl⟩ := List.mem_map.mp member
  have isIndexed := (List.mem_filter.mp isFound).1
  have isTag : (Tag.scan masked)[position]? = some tag := List.mk_mem_zipIdx_iff_getElem?.mp isIndexed
  obtain ⟨last, isLast, isEnd, inOrder⟩ := exists_elementEnd isTag
  obtain ⟨passed, lead, inner, rest, split, shape⟩ :=
    Tag.exists_hasShape_of_mem_scan (List.mem_of_getElem? isTag)
  obtain ⟨front, mark, within, behind, splitLast, shapeLast⟩ := Tag.exists_hasShape_of_mem_scan isLast
  obtain ⟨_, _, _, isHere⟩ := Tag.isRecognised_of_mem_scan (List.mem_of_getElem? isTag)
  have longer := Tag.start_lt_stop_of_at? isHere
  have reshaped : masked = front ++ '<' :: (mark ++ (last.name ++ (within ++ ['>']))) ++ behind := by
    rw [splitLast]
    simp
  have whole : masked.take last.stop = front ++ '<' :: (mark ++ (last.name ++ (within ++ ['>']))) := by
    rw [shapeLast.stop, reshaped, List.take_left]
  have inside := congrArg List.length whole
  rw [List.length_take, ← shapeLast.stop] at inside
  dsimp only
  rw [isEnd]
  refine keepsNames_elementRemoval (by omega) (by omega) ?_ ?_
  · have taken : masked.take tag.start = passed := by rw [shape.start, split, List.take_left]
    rw [taken]
    exact shape.apart
  · rw [whole, show front ++ '<' :: (mark ++ (last.name ++ (within ++ ['>']))) =
      front ++ '<' :: (mark ++ (last.name ++ within)) ++ ['>'] by simp, List.getLast?_concat]
    decide

end Removals

end SceneBundler.Imports
