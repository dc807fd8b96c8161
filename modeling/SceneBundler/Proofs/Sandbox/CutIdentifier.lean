import Mathlib.Data.List.TakeDrop
import SceneBundler.Proofs.Sandbox.Classification
import SceneBundler.Proofs.Text.Preferred
import SceneBundler.Proofs.Text.Reach

/-!
Contract: identifiers found in the beginning of a body.

Owns:
- the place of the identifier at the first marker of a page;
- that what is found at a marker is a whole run of identifier characters behind the path of the viewer;
- that of a body which is cut, this run is what the bound leaves of the run in the whole body, and when it is
  shorter than that;
- a body whose identifier the bound cuts in two.

Does not own: fields of objects, and addresses of redirections.
-/

namespace SceneBundler.Sandbox

/-- The identifier characters from an offset on, as many as there are. -/
def identifierFrom (text : Text) (start : Nat) : Text :=
  (text.drop start).takeWhile isIdentifierCharacter

/-- The span of the identifier at the first marker of a page. -/
def markedSpan? (body : Text) : Option Span :=
  markers.findSome? fun marker => (marker.first? body).bind fun found => found.span? 1

/-- Whether a span of a text covers a run of identifier characters, as long as can be, right behind the path of
the viewer. -/
structure CoversRun (text : Text) (span : Span) : Prop where
  path : "/s/".toList <:+ text.take span.start
  start_le : span.start ≤ text.length
  stop_eq : span.stop = span.start + (identifierFrom text span.start).length

/-! ## Places -/

theorem CoversRun.of_eq {text : Text} {span : Span} (covers : CoversRun text span) :
    span.of text = identifierFrom text span.start := by
  rw [Span.of, Text.slice, covers.stop_eq, Nat.add_sub_cancel_left, identifierFrom]
  exact (List.prefix_iff_eq_take.mp (List.takeWhile_prefix _)).symm

theorem coversRun_of_first? {marker : Pattern} (isMarker : marker ∈ markers) {body : Text} {found : Match}
    (isFirst : marker.first? body = some found) :
    ∃ span, found.span? 1 = some span ∧ CoversRun body span := by
  obtain ⟨lead, rfl⟩ := exists_lead_of_marker isMarker
  obtain ⟨passed, ahead, rfl, foundHere⟩ := Pattern.find_of_first? isFirst
  obtain ⟨front, word, rest, split, accepted, stops, isCaptured, middle, ⟨before, readsLead, readsPath⟩,
    isFront⟩ := @Pattern.exists_run_of_find (lead ++ Pattern.literal "/s/") _ _ _ _ _ _ foundHere
  obtain ⟨others, passesLead⟩ := Pattern.passes_of_reads readsLead
  obtain ⟨address, splitHere, isOffset⟩ := (Cursor.isIn_between passed ahead).of_passes passesLead
  obtain ⟨passesPath, -⟩ := Pattern.reads_word_iff.mp readsPath
  have isRun : identifierFrom (passed ++ ahead) front.length = word := by
    rw [identifierFrom, split, List.drop_left, List.takeWhile_append_of_pos accepted]
    cases rest with
    | nil => rw [List.takeWhile_nil, List.append_nil]
    | cons c rest =>
        have stopsAt : isIdentifierCharacter c = false := by simpa using stops
        rw [List.takeWhile_cons_of_neg (by simp [stopsAt]), List.append_nil]
  have sameLength : (address ++ "/s/".toList).length = front.length := by
    rw [← isFront, passesPath.offset_eq, isOffset, List.length_append]
  have isAddress : (passed ++ ahead).take front.length = address ++ "/s/".toList := by
    rw [splitHere, passesPath.ahead_eq, ← List.append_assoc, ← sameLength, List.take_left]
  refine ⟨_, isCaptured, ?_, ?_, ?_⟩
  · rw [isAddress]
    exact List.suffix_append _ _
  · rw [split, List.length_append]
    exact Nat.le_add_right _ _
  · rw [isRun]

/-- What is found at a marker stands at a place of its own. -/
theorem markedIdentifier?_eq (body : Text) :
    markedIdentifier? body = (markedSpan? body).map fun span => span.of body := by
  rw [markedIdentifier?, markedSpan?, List.map_findSome?, ← List.head?_filterMap, ← List.head?_filterMap]
  refine congrArg List.head? (List.filterMap_congr fun marker isMarker => ?_)
  rw [Function.comp_apply]
  cases isFirst : marker.first? body with
  | none => rfl
  | some found =>
      obtain ⟨span, isCaptured, -⟩ := coversRun_of_first? isMarker isFirst
      rw [Option.map_some, Option.bind_some, Match.captured, Match.captured?, isCaptured]
      rfl

/-- What is found at a marker is a whole run. -/
theorem coversRun_of_markedSpan? {body : Text} {span : Span} (marked : markedSpan? body = some span) :
    CoversRun body span := by
  obtain ⟨marker, isMarker, atMarker⟩ := List.exists_of_findSome?_eq_some marked
  obtain ⟨found, isFirst, isCaptured⟩ := Option.bind_eq_some_iff.mp atMarker
  obtain ⟨other, isCapturedToo, covers⟩ := coversRun_of_first? isMarker isFirst
  obtain rfl := Option.some.inj (isCaptured.symm.trans isCapturedToo)
  exact covers

/-! ## Cuts -/

theorem identifierFrom_take (body : Text) (limit start : Nat) :
    identifierFrom (body.take limit) start = (identifierFrom body start).take (limit - start) := by
  rw [identifierFrom, identifierFrom, List.drop_take, List.take_takeWhile]

/-- A run goes beyond a bound just if an identifier character stands at the bound and all in front of it are
of the run. -/
theorem lt_length_identifierFrom_iff {body : Text} {start limit : Nat} (behind : start ≤ limit) :
    limit < start + (identifierFrom body start).length ↔
      limit ≤ start + (identifierFrom body start).length ∧
        body[limit]?.any isIdentifierCharacter = true := by
  have isSkip : start + (identifierFrom body start).length = Text.skip isIdentifierCharacter body start := rfl
  rw [isSkip]
  constructor
  · intro beyond
    have inside : limit < body.length := by
      rw [Text.skip] at beyond
      have most := (List.takeWhile_prefix (l := body.drop start) isIdentifierCharacter).length_le
      rw [List.length_drop] at most
      omega
    have isThere := List.getElem?_eq_getElem inside
    refine ⟨Nat.le_of_lt beyond, ?_⟩
    rw [isThere, Option.any_some]
    exact Text.accepts_of_lt_skip behind beyond isThere
  · rintro ⟨upTo, goesOn⟩
    refine Nat.lt_of_le_of_ne upTo fun isEnd => ?_
    obtain ⟨c, isThere, isIdentifier⟩ := (Option.any_eq_true _ _).mp goesOn
    rw [isEnd] at isThere
    exact Bool.false_ne_true ((Text.not_accepts_skip isThere).symm.trans isIdentifier)

/-- What a bound leaves of an identifier of a body: the place of it, and when it is all of the run that stands
there. -/
structure IsCutFrom (body : Text) (limit : Nat) (span : Span) (found : Text) : Prop where
  covered : span.of body = found
  path : "/s/".toList <:+ body.take span.start
  left : found = (identifierFrom body span.start).take (limit - span.start)
  whole :
    found = identifierFrom body span.start ↔
      ¬ (span.stop = limit ∧ body[limit]?.any isIdentifierCharacter = true)

theorem isCutFrom_of_markedSpan? {body : Text} {limit : Nat} {span : Span}
    (marked : markedSpan? (body.take limit) = some span) :
    IsCutFrom body limit span (span.of (body.take limit)) := by
  have covers := coversRun_of_markedSpan? marked
  have isLeft := covers.of_eq.trans (identifierFrom_take body limit span.start)
  have stop_eq := covers.stop_eq
  have start_le : span.start ≤ limit := Nat.le_trans covers.start_le (List.length_take_le _ _)
  rw [identifierFrom_take, List.length_take] at stop_eq
  refine ⟨?_, ?_, isLeft, ?_⟩
  · have isTaken : identifierFrom body span.start =
        (body.drop span.start).take (identifierFrom body span.start).length :=
      List.prefix_iff_eq_take.mp (List.takeWhile_prefix _)
    rw [isLeft, Span.of, Text.slice, stop_eq, Nat.add_sub_cancel_left, ← List.take_take, ← isTaken]
  · have path := covers.path
    rwa [List.take_take, Nat.min_eq_left start_le] at path
  · have beyond : limit < span.start + (identifierFrom body span.start).length ↔ _ :=
      lt_length_identifierFrom_iff start_le
    have endsThere : span.stop = limit ↔ limit ≤ span.start + (identifierFrom body span.start).length := by
      omega
    rw [isLeft, List.take_eq_self_iff, endsThere, ← beyond]
    omega

/-- What a marker shows of the beginning of an ASCII body is what the bound leaves of the run of identifier
characters behind the path of the viewer.  It is all of that run, unless the bound itself lies within it. -/
theorem markedIdentifier?_boundedText {body : Text} (ascii : ∀ c ∈ body, c.toNat < 0x80) {limit : Nat}
    {found : Text} (marked : markedIdentifier? (boundedText limit (Utf8.encode body)) = some found) :
    ∃ span, markedSpan? (boundedText limit (Utf8.encode body)) = some span ∧
      IsCutFrom body limit span found := by
  rw [boundedText_encode ascii] at marked ⊢
  rw [markedIdentifier?_eq] at marked
  obtain ⟨span, isSpan, rfl⟩ := Option.map_eq_some_iff.mp marked
  exact ⟨span, isSpan, isCutFrom_of_markedSpan? isSpan⟩

/-- A page whose canonical address comes behind a link preview that the bound of 60 octets does not reach. -/
def canonicalPage : Text :=
  "<link rel=\x22canonical\x22 href=\x22https://box.dev/s/k3-y\x22><meta og:url\x22 content=\x22https://box.dev/s/z".toList

theorem ascii_canonicalPage : ∀ c ∈ canonicalPage, c.toNat < 0x80 :=
  Text.forall_mem_of_all (by decide)

theorem markedIdentifier?_canonicalPage :
    markedIdentifier? (boundedText (60 : Nat) (Utf8.encode canonicalPage)) = some "k3-y".toList := by
  rw [boundedText_encode ascii_canonicalPage]
  decide +kernel

/-- The bound cuts this page behind its first identifier, which is found whole. -/
theorem markedIdentifier?_boundedText_canonicalPage :
    (∀ c ∈ canonicalPage, c.toNat < 0x80) ∧
      markedIdentifier? (boundedText (60 : Nat) (Utf8.encode canonicalPage)) = some "k3-y".toList ∧
      ∃ span, markedSpan? (boundedText (60 : Nat) (Utf8.encode canonicalPage)) = some span ∧
        IsCutFrom canonicalPage 60 span "k3-y".toList :=
  ⟨ascii_canonicalPage, markedIdentifier?_canonicalPage,
    markedIdentifier?_boundedText ascii_canonicalPage markedIdentifier?_canonicalPage⟩

/-! ## An identifier cut in two -/

/-- Spaces in front of a link, as many as put the bound in the middle of its identifier. -/
def cutPage : Text :=
  List.replicate 262129 ' ' ++ "<a href=\x22/s/abcdef\x22>".toList

/-- A success with that page. -/
def cutAnswer : Response :=
  { status := 200
    headers := []
    chunks := [Utf8.encode cutPage]
    problem := none }

theorem ascii_cutPage : ∀ c ∈ cutPage, c.toNat < 0x80 := by
  have inLink : ∀ c ∈ "<a href=\x22/s/abcdef\x22>".toList, c.toNat < 0x80 := Text.forall_mem_of_all (by decide)
  intro c member
  rcases List.mem_append.mp member with isSpace | isLink
  · rw [List.eq_of_mem_replicate isSpace]
    decide
  · exact inLink c isLink

theorem take_cutPage :
    cutPage.take bodyLimit = List.replicate 262129 ' ' ++ "<a href=\x22/s/abc".toList := by
  rw [cutPage, List.take_append, List.length_replicate, List.take_of_length_le]
  · rfl
  · rw [List.length_replicate]
    decide

/-- No marker begins with a space, so what is found behind spaces is found at its distance from them. -/
theorem markedSpan?_behind_spaces (count : Nat) (page : Text) :
    markedSpan? (List.replicate (count + 1) ' ' ++ page) =
      markers.findSome? fun marker =>
        (marker.firstFrom? (some ' ') (count + 1) page).bind fun found => found.span? 1 := by
  have areSpaces : ∀ c ∈ List.replicate (count + 1) ' ', c = ' ' := fun c member =>
    List.eq_of_mem_replicate member
  have silent (marker : Pattern) (nonempty : marker.mayBeEmpty = false)
      (beginsNot : marker.mayBegin ' ' = false) :
      marker.first? (List.replicate (count + 1) ' ' ++ page) =
        marker.firstFrom? (some ' ') (count + 1) page := by
    rw [Pattern.first?_append_of_silent (Pattern.silent_of_mayBegin nonempty
      fun c member => areSpaces c member ▸ beginsNot), List.length_replicate, List.replicate_succ',
      List.getLast?_concat]
  have begins : ∀ marker ∈ markers, marker.mayBeEmpty = false ∧ marker.mayBegin ' ' = false := by
    simp only [markers, List.forall_mem_cons]
    exact ⟨⟨rfl, rfl⟩, ⟨rfl, rfl⟩, ⟨rfl, rfl⟩, List.forall_mem_nil _⟩
  rw [markedSpan?, ← List.head?_filterMap, ← List.head?_filterMap]
  refine congrArg List.head? (List.filterMap_congr fun marker isMarker => ?_)
  obtain ⟨nonempty, beginsNot⟩ := begins marker isMarker
  rw [silent marker nonempty beginsNot]

theorem markedSpan?_cutPage :
    markedSpan? (boundedText bodyLimit (Utf8.encode cutPage)) = some ⟨262141, 262144⟩ := by
  rw [boundedText_encode ascii_cutPage, take_cutPage, markedSpan?_behind_spaces]
  decide +kernel

/-- The bound leaves three characters of the six of the identifier, and the submission comes to the sandbox
that these name. -/
theorem submit_cutAnswer :
    (∀ c ∈ cutPage, c.toNat < 0x80) ∧
      markedSpan? (boundedText bodyLimit (Utf8.encode cutPage)) = some ⟨262141, 262144⟩ ∧
      markedIdentifier? (boundedText bodyLimit (Utf8.encode cutPage)) = some "abc".toList ∧
      identifierFrom cutPage 262141 = "abcdef".toList ∧
      (submit .standard ⟨"threejs".toList, [], "src/index.js".toList, true⟩ (.answered cutAnswer)).result =
        .ok (.ofIdentifier .standard 200 "abc".toList) := by
  have isSpan := markedSpan?_cutPage
  have isMarked : markedIdentifier? (boundedText bodyLimit (Utf8.encode cutPage)) = some "abc".toList := by
    rw [markedIdentifier?_eq, isSpan, Option.map_some, boundedText_encode ascii_cutPage, take_cutPage]
    refine congrArg some (Text.slice_eq (List.replicate 262129 ' ' ++ "<a href=\x22/s/".toList) [] ?_ ?_ ?_)
    · rw [List.append_assoc]
      rfl
    · rw [List.length_append, List.length_replicate]
      rfl
    · rw [List.length_append, List.length_replicate]
      rfl
  have sameText : cutAnswer.text = boundedText bodyLimit (Utf8.encode cutPage) := by
    rw [Response.text, boundedText, leading_natCast, cutAnswer, List.flatten_singleton]
  have inBody : Sandbox.identifier cutAnswer.text = .ok (some "abc".toList) := by
    rw [sameText, Sandbox.identifier, isMarked]
  have succeeds : cutAnswer.Succeeds := ⟨by decide, by decide⟩
  refine ⟨ascii_cutPage, isSpan, isMarked, ?_, ?_⟩
  · rw [identifierFrom, cutPage, List.drop_append, List.length_replicate, List.drop_of_length_le]
    · rfl
    · rw [List.length_replicate]
      decide
  · exact result_of_ends (.succeeds rfl (problem?_of_whole rfl) (Or.inr ⟨succeeds, inBody⟩))

end SceneBundler.Sandbox
