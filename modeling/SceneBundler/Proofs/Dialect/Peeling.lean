import Mathlib.Data.List.Chain
import Mathlib.Logic.Relation
import SceneBundler.Proofs.Dialect.Argument
import SceneBundler.Proofs.Dialect.Settled
import SceneBundler.Proofs.Source.Flat
import SceneBundler.Proofs.Text.Coverage
import SceneBundler.Proofs.Text.Pieces

/-!
Contract: the pass over type arguments as a series of single deletions.

Owns:
- texts that can be peeled: flat code in which what follows an angle bracket or an operator is known;
- the deletion of one pair of angle brackets that holds no other, behind a name;
- that all the rounds of the pass amount to such deletions one after another;
- which names stand in front of angle brackets before and after a deletion;
- when the pass has something left to delete.

Does not own: which texts can be peeled.
-/

namespace SceneBundler.Dialect

open Character (continuesName startsName)
open Source (isFlat mask)

/-! ## Names at the end of a text -/

/-- A name, as the pattern of names reads one. -/
structure IsWord (word : Text) : Prop where
  starts : ∃ first rest, word = first :: rest ∧ startsName first = true
  continues : ∀ c ∈ word, continuesName c = true

instance (word : Text) : Decidable (IsWord word) :=
  decidable_of_iff (word.head?.any startsName = true ∧ word.all continuesName = true) <| by
    rw [List.all_eq_true]
    cases word with
    | nil => exact ⟨nofun, fun isWord => absurd isWord.starts (by simp)⟩
    | cons c rest =>
        constructor
        · rintro ⟨starts, continues⟩
          exact ⟨⟨c, rest, rfl, starts⟩, continues⟩
        · rintro ⟨⟨first, others, same, starts⟩, continues⟩
          obtain ⟨rfl, rfl⟩ := List.cons.inj same
          exact ⟨starts, continues⟩

/-- Whether a text ends in a word that is not part of a longer one. -/
def EndsIn (word text : Text) : Prop :=
  ∃ earlier, text = earlier ++ word ∧ earlier.getLast?.any continuesName = false

variable {word other text : Text}

theorem IsWord.ne_nil (isWord : IsWord word) : word ≠ [] := by
  obtain ⟨first, rest, rfl, _⟩ := isWord.starts
  exact List.cons_ne_nil first rest

theorem IsWord.exists_getLast? (isWord : IsWord word) :
    ∃ last, word.getLast? = some last ∧ continuesName last = true :=
  ⟨word.getLast isWord.ne_nil, List.getLast?_eq_some_getLast isWord.ne_nil,
    isWord.continues _ (List.getLast_mem isWord.ne_nil)⟩

theorem IsWord.not_mem (isWord : IsWord word) {mark : Char} (isMark : continuesName mark = false) :
    mark ∉ word :=
  not_mem_of_continues isWord.continues isMark

/-- A text ends in one whole name at most. -/
theorem EndsIn.unique (endsFirst : EndsIn word text) (isWord : IsWord word) (endsSecond : EndsIn other text)
    (isOther : IsWord other) : word = other := by
  have noMore {first second longer shorter : Text} (continues : ∀ c ∈ longer, continuesName c = true)
      (apart : (first ++ second).getLast?.any continuesName = false) (isLonger : longer = second ++ shorter) :
      longer = shorter := by
    cases isLast : second.getLast? with
    | none => rw [isLonger, List.getLast?_eq_none_iff.mp isLast, List.nil_append]
    | some c =>
        have isIn : c ∈ longer := isLonger ▸ List.mem_append_left _ (List.mem_of_getLast? isLast)
        rw [List.getLast?_append, isLast, Option.some_or, Option.any_some, continues c isIn] at apart
        contradiction
  obtain ⟨first, rfl, apartFirst⟩ := endsFirst
  obtain ⟨second, same, apartSecond⟩ := endsSecond
  rcases List.append_eq_append_iff.mp same with ⟨beyond, rfl, isLonger⟩ | ⟨beyond, rfl, isLonger⟩
  · exact noMore isWord.continues apartSecond isLonger
  · exact (noMore isOther.continues apartFirst isLonger).symm

/-- The name at the end of a text is the name at the end of its last part, if that part does not begin
with one. -/
theorem endsIn_append {front back : Text} (isWord : IsWord word) (nonempty : back ≠ [])
    (apart : back.head?.any continuesName = false) : EndsIn word (front ++ back) ↔ EndsIn word back := by
  have notHead {earlier : Text} (split : back = earlier ++ word) : earlier ≠ [] := by
    rintro rfl
    obtain ⟨first, rest, isName, starts⟩ := isWord.starts
    rw [split, isName, List.nil_append, List.head?_cons, Option.any_some,
      Pattern.continuesName_of_startsName starts] at apart
    contradiction
  constructor
  · rintro ⟨earlier, split, apartEarlier⟩
    rcases List.append_eq_append_iff.mp split with ⟨beyond, rfl, isBack⟩ | ⟨beyond, rfl, isName⟩
    · refine ⟨beyond, isBack, ?_⟩
      cases isLast : beyond.getLast? with
      | none => exact absurd (List.getLast?_eq_none_iff.mp isLast) (notHead isBack)
      | some c => rwa [List.getLast?_append, isLast, Option.some_or] at apartEarlier
    · obtain ⟨c, rest, rfl⟩ := List.exists_cons_of_ne_nil nonempty
      have continues := isWord.continues c (by simp [isName])
      rw [List.head?_cons, Option.any_some, continues] at apart
      contradiction
  · rintro ⟨earlier, rfl, apartEarlier⟩
    refine ⟨front ++ earlier, by rw [List.append_assoc], ?_⟩
    cases isLast : earlier.getLast? with
    | none => exact absurd (List.getLast?_eq_none_iff.mp isLast) (notHead rfl)
    | some c =>
        rw [isLast] at apartEarlier
        rwa [List.getLast?_append, isLast, Option.some_or]

/-! ## Texts that can be peeled -/

/-- A character of a call with type arguments. -/
def isCallMark (c : Char) : Bool :=
  continuesName c || "<>[](),|:=; \n".toList.contains c

/-- Whether one of them may stand behind another. -/
structure Follows (c d : Char) : Prop where
  less : c = '<' → startsName d = true ∨ d = '[' ∨ d = '('
  greater : c = '>' → continuesName d = false ∧ d ≠ '<'
  equals : c = '=' → d = '>'
  bar : c = '|' → d = ' '
  semicolon : c = ';' → d = '\n'
  noBreak : c ≠ '\n'

instance (c d : Char) : Decidable (Follows c d) :=
  decidable_of_iff
    ((c = '<' → startsName d = true ∨ d = '[' ∨ d = '(') ∧ (c = '>' → continuesName d = false ∧ d ≠ '<') ∧
      (c = '=' → d = '>') ∧ (c = '|' → d = ' ') ∧ (c = ';' → d = '\n') ∧ c ≠ '\n')
    ⟨fun ⟨less, greater, equals, bar, semicolon, noBreak⟩ => ⟨less, greater, equals, bar, semicolon, noBreak⟩,
      fun ⟨less, greater, equals, bar, semicolon, noBreak⟩ => ⟨less, greater, equals, bar, semicolon, noBreak⟩⟩

/-- A text of such characters, each of which may stand behind the one in front of it. -/
structure Peelable (text : Text) : Prop where
  marks : ∀ c ∈ text, isCallMark c = true
  follows : text.IsChain Follows

/-- A name that can stand in front of type arguments. -/
structure IsHead (word : Text) : Prop extends IsWord word where
  free : word ∉ expressionKeywords

/-- The deletion of a pair of angle brackets that holds no other one, behind a name. -/
inductive Peels : Text -> Text -> Prop where
  | delete (before inner after word : Text) (isHead : IsHead word) (ends : EndsIn word before)
      (noLess : '<' ∉ inner) (noGreater : '>' ∉ inner) :
      Peels (before ++ '<' :: (inner ++ '>' :: after)) (before ++ after)

/-- Anything may stand behind the other characters. -/
theorem follows_of_not_mem {c d : Char} (other : c ∉ "<>=|;\n".toList) : Follows c d := by
  have notMark (mark : Char) (isMark : mark ∈ "<>=|;\n".toList) : c ≠ mark := by
    rintro rfl
    exact other isMark
  exact ⟨fun same => absurd same (notMark '<' (by decide)), fun same => absurd same (notMark '>' (by decide)),
    fun same => absurd same (notMark '=' (by decide)), fun same => absurd same (notMark '|' (by decide)),
    fun same => absurd same (notMark ';' (by decide)), notMark '\n' (by decide)⟩

theorem follows_of_continuesName {c d : Char} (continues : continuesName c = true) : Follows c d := by
  have marks : ∀ mark ∈ "<>=|;\n".toList, continuesName mark = false := Text.forall_mem_of_all (by decide)
  refine follows_of_not_mem fun isMark => ?_
  rw [marks c isMark] at continues
  contradiction

/-- What stands behind a character of such a text may do so. -/
theorem Peelable.follows_of_split (peelable : Peelable text) (before : Text) (c d : Char) (after : Text)
    (split : text = before ++ c :: d :: after) : Follows c d :=
  List.isChain_iff_forall_rel_of_append_cons_cons.mp peelable.follows split

theorem isFlat_of_isCallMark {c : Char} (isMark : isCallMark c = true) : isFlat c = true := by
  have apart (mark : Char) (other : isCallMark mark = false) : c ≠ mark := by
    rintro rfl
    rw [isMark] at other
    contradiction
  have literals : "/'\"\x60".toList = ['/', '\x27', '\x22', '\x60'] := rfl
  simp [isFlat, Source.opensLiteral, literals, apart '/' (by decide), apart '\x27' (by decide),
    apart '\x22' (by decide), apart '\x60' (by decide), apart '\x7b' (by decide), apart '\x7d' (by decide)]

theorem Peelable.flat (peelable : Peelable text) : ∀ c ∈ text, isFlat c = true :=
  fun c member => isFlat_of_isCallMark (peelable.marks c member)

namespace Peels

variable {next : Text}

theorem peelable (peels : Peels text next) (peelable : Peelable text) : Peelable next := by
  obtain ⟨_, inner, after, word, isHead, ⟨earlier, rfl, _⟩, _, _⟩ := peels
  obtain ⟨marks, follows⟩ := peelable
  refine ⟨fun c member => marks c ?_, ?_⟩
  · simp only [List.mem_append, List.mem_cons] at member ⊢
    grind
  · obtain ⟨followsBefore, followsRest, _⟩ := List.isChain_append.mp follows
    rw [← List.cons_append] at followsRest
    obtain ⟨_, followsClose, _⟩ := List.isChain_append.mp followsRest
    refine List.isChain_append.mpr ⟨followsBefore, followsClose.tail, fun c isLast d _ => ?_⟩
    obtain ⟨last, isLastOfWord, continues⟩ := isHead.exists_getLast?
    rw [List.getLast?_append, isLastOfWord, Option.some_or] at isLast
    rw [← Option.some.inj isLast]
    exact follows_of_continuesName continues

/-- Names behind a deletion are the same with and without it. -/
theorem endsIn_iff {front inner beyond after : Text}
    (peelable : Peelable (front ++ '<' :: (inner ++ '>' :: (beyond ++ '<' :: after)))) {word : Text}
    (isWord : IsWord word) :
    EndsIn word (front ++ beyond) ↔ EndsIn word (front ++ '<' :: (inner ++ '>' :: beyond)) := by
  obtain ⟨c, rest, isBeyond, calm⟩ :
      ∃ c rest, beyond ++ '<' :: after = c :: rest ∧ continuesName c = false ∧ c ≠ '<' := by
    obtain ⟨c, rest, isCons⟩ := List.exists_cons_of_ne_nil
      (List.append_ne_nil_of_right_ne_nil beyond (List.cons_ne_nil '<' after))
    have follows := peelable.follows_of_split (front ++ '<' :: inner) '>' c rest (by simp [isCons])
    exact ⟨c, rest, isCons, follows.greater rfl⟩
  cases beyond with
  | nil => exact absurd (List.cons.inj isBeyond).1.symm calm.2
  | cons d beyond =>
      obtain rfl : d = c := (List.cons.inj isBeyond).1
      have isWhole : front ++ '<' :: (inner ++ '>' :: d :: beyond) =
          (front ++ '<' :: (inner ++ ['>'])) ++ d :: beyond := by simp
      have apart : (d :: beyond).head?.any continuesName = false := calm.1
      rw [isWhole, endsIn_append isWord (List.cons_ne_nil _ _) apart,
        endsIn_append isWord (List.cons_ne_nil _ _) apart]

/-- An opening angle bracket that is left stood behind the same name before. -/
theorem exists_angle_before (peels : Peels text next) (peelable : Peelable text) {before after : Text}
    (split : next = before ++ '<' :: after) :
    ∃ earlier later, text = earlier ++ '<' :: later ∧
      ∀ word, IsWord word → (EndsIn word before ↔ EndsIn word earlier) := by
  obtain ⟨front, inner, back, head, isHead, ends, _, _⟩ := peels
  rcases List.append_eq_append_iff.mp split with ⟨beyond, rfl, rfl⟩ | ⟨beyond, rfl, isAngle⟩
  · exact ⟨front ++ '<' :: (inner ++ '>' :: beyond), after, by simp, fun word isWord => endsIn_iff peelable isWord⟩
  · cases beyond with
    | nil =>
        rw [List.nil_append] at isAngle
        subst isAngle
        have follows := peelable.follows_of_split (before ++ '<' :: inner) '>' '<' after (by simp)
        exact absurd rfl (follows.greater rfl).2
    | cons c beyond =>
        obtain ⟨rfl, _⟩ := List.cons.inj isAngle
        exact ⟨before, beyond ++ '<' :: (inner ++ '>' :: back), by simp, fun _ _ => Iff.rfl⟩

/-- An opening angle bracket that is not deleted still stands behind the same name. -/
theorem exists_angle_after (peels : Peels text next) (peelable : Peelable text) {before after : Text}
    (split : text = before ++ '<' :: after) :
    (∃ word, IsHead word ∧ EndsIn word before) ∨
      ∃ earlier later, next = earlier ++ '<' :: later ∧
        ∀ word, IsWord word → (EndsIn word before ↔ EndsIn word earlier) := by
  obtain ⟨front, inner, back, head, isHead, ends, noLess, _⟩ := peels
  rcases List.append_eq_append_iff.mp split with ⟨beyond, rfl, isRest⟩ | ⟨beyond, rfl, isAngle⟩
  · cases beyond with
    | nil => exact Or.inl ⟨head, isHead, by simpa using ends⟩
    | cons c beyond =>
        obtain ⟨rfl, isInner⟩ := List.cons.inj isRest
        rcases List.append_eq_append_iff.mp isInner with ⟨further, rfl, isBack⟩ | ⟨further, rfl, isAngle⟩
        · cases further with
          | nil => exact absurd (List.cons.inj isBack).1 (by decide)
          | cons d further =>
              obtain ⟨rfl, rfl⟩ := List.cons.inj isBack
              exact Or.inr ⟨front ++ further, after, by simp, fun word isWord =>
                (endsIn_iff peelable isWord).symm⟩
        · cases further with
          | nil => exact absurd (List.cons.inj isAngle).1 (by decide)
          | cons d further =>
              obtain ⟨rfl, _⟩ := List.cons.inj isAngle
              exact absurd (List.mem_append_right _ List.mem_cons_self) noLess
  · cases beyond with
    | nil => exact Or.inl ⟨head, isHead, by simpa using ends⟩
    | cons c beyond =>
        obtain ⟨rfl, _⟩ := List.cons.inj isAngle
        exact Or.inr ⟨before, beyond ++ back, by simp, fun _ _ => Iff.rfl⟩

theorem count_eq (peels : Peels text next) :
    text.count '<' = next.count '<' + 1 ∧ text.count '>' = next.count '>' + 1 := by
  obtain ⟨_, _, _, _, _, _, noLess, noGreater⟩ := peels
  have less := List.count_eq_zero.mpr noLess
  have greater := List.count_eq_zero.mpr noGreater
  constructor <;> simp [less, greater] <;> omega

end Peels

/-! ## Rounds -/

/-- No type parameter of an arrow function is found: no equals sign stands in front of an opening angle
bracket. -/
theorem all_arrowTypeParameters_mask (peelable : Peelable text) : arrowTypeParameters.all (mask text) = [] := by
  refine List.eq_nil_iff_forall_not_mem.mpr fun found member => ?_
  obtain ⟨earlier, blanks, beyond, split, areBlank⟩ := exists_equals_of_mem_arrowTypeParameters member
  have isBlankLast : ∀ c ∈ blanks ++ ['<'], c ≠ '>' := by
    intro c member
    rcases List.mem_append.mp member with isBlank | isAngle
    · exact Character.ne_of_isBlank (areBlank c isBlank) (by decide)
    · rw [List.mem_singleton.mp isAngle]
      decide
  have noEnd : '>' ∉ [] ++ '=' :: (blanks ++ ['<']) := by
    intro member
    rcases List.mem_cons.mp member with same | isIn
    · exact absurd same (by decide)
    · exact isBlankLast '>' isIn rfl
  obtain ⟨before, after, _, isText, _⟩ := Source.exists_stretch_of_mask peelable.flat
    (show mask text = earlier ++ ([] ++ '=' :: (blanks ++ ['<']) ++ beyond) by
      rw [split]
      simp) noEnd (Text.forall_mem_of_all (by decide)) (by decide)
  obtain ⟨d, rest, isCons⟩ := List.exists_cons_of_ne_nil
    (List.append_ne_nil_of_right_ne_nil blanks (List.cons_ne_nil '<' []))
  have follows := peelable.follows_of_split before '=' d (rest ++ after) (by rw [isText, isCons]; simp)
  exact isBlankLast d (isCons ▸ List.mem_cons_self) (follows.equals rfl)

/-- Each edit of the pass deletes a pair of angle brackets that can be peeled. -/
theorem exists_of_mem_typeArgumentEdits (peelable : Peelable text) {edit : Edit}
    (member : edit ∈ typeArgumentEdits (mask text)) :
    ∃ before inner after word, text = before ++ '<' :: (inner ++ '>' :: after) ∧ IsHead word ∧
      EndsIn word before ∧ '<' ∉ inner ∧ '>' ∉ inner ∧
        edit = Edit.deletion before.length (before ++ '<' :: (inner ++ ['>'])).length := by
  simp only [typeArgumentEdits, all_arrowTypeParameters_mask peelable, List.filterMap_nil, List.append_nil,
    List.mem_filterMap, List.mem_filter, Option.map_eq_some_iff] at member
  obtain ⟨found, ⟨isFound, isList⟩, span, known, rfl⟩ := member
  obtain ⟨passed, ahead, split, foundHere⟩ := Pattern.find_of_mem_all isFound
  obtain ⟨next, reads, rfl⟩ := Pattern.reads_of_find foundHere
  obtain ⟨word, inner, readsHere⟩ := exists_readsArguments reads
  obtain ⟨noLess, noGreater⟩ := readsHere.innermost
  obtain ⟨first, rest, rfl, starts⟩ := readsHere.isName
  have isWord : IsWord (first :: rest) := ⟨⟨first, rest, rfl, starts⟩, readsHere.continues⟩
  rw [split] at isList
  obtain ⟨free, _⟩ := readsHere.isTypeArgumentList_iff.mp isList
  have isAhead : ahead = first :: rest ++ '<' :: (inner ++ '>' :: next.ahead) := by
    simpa [Cursor.between] using readsHere.passes.ahead_eq
  have noEnd : '>' ∉ [] ++ first :: (rest ++ '<' :: inner) := by
    have notInWord := isWord.not_mem (show continuesName '>' = false by decide)
    rw [List.mem_cons, not_or] at notInWord
    simp [notInWord, noGreater]
  have continuesFirst := isWord.continues first List.mem_cons_self
  have quiet : ∀ d ∈ [] ++ [first], Source.endsHidden d = false := by
    intro d member
    obtain rfl := List.mem_singleton.mp member
    rw [← Bool.not_eq_true]
    intro ends
    rw [Source.endsHidden, List.contains_iff_mem] at ends
    have marks : ∀ mark ∈ "<);".toList, continuesName mark = false := Text.forall_mem_of_all (by decide)
    rw [marks d ends] at continuesFirst
    contradiction
  have isMark : Character.isBlank first = false := by
    rw [← Bool.not_eq_true]
    intro blank
    rw [Character.continuesName_of_isBlank blank] at continuesFirst
    contradiction
  obtain ⟨before, after, reading, isText, isLength, isLast, isFlatThere, shows, view⟩ :=
    Source.exists_stretch_of_mask peelable.flat
      (show mask text = passed ++ ([] ++ first :: (rest ++ '<' :: inner) ++ '>' :: next.ahead) by
        rw [split, isAhead]
        simp) noEnd quiet isMark
  have flatAfter : ∀ c ∈ after, isFlat c = true := fun c member =>
    peelable.flat c (by simp [isText, member])
  obtain ⟨behind, rfl⟩ := Source.Reading.exists_cons_of_view isFlatThere shows flatAfter view
  refine ⟨before ++ first :: rest, inner, behind, first :: rest, by simp [isText], ⟨isWord, free⟩,
    ⟨before, rfl, ?_⟩, noLess, noGreater, ?_⟩
  · rw [isLast]
    exact readsHere.apart
  · have isSpan : next.captures.lookup 2 = some span := known
    rw [readsHere.innerSpan] at isSpan
    rw [← Option.some.inj isSpan, readsHere.passes.offset_eq]
    simp [Cursor.between, isLength, Edit.deletion, Nat.add_comm, Nat.add_left_comm]

/-- A round of the pass amounts to single deletions. -/
theorem reflTransGen_editOnce (peelable : Peelable text) :
    Relation.ReflTransGen Peels text (editOnce typeArgumentEdits text) := by
  refine Edit.reflTransGen_applyAll (isDeletion_of_mem_passes (by simp [passes])) fun edit member after => ?_
  obtain ⟨before, inner, behind, word, isText, isHead, ends, noLess, noGreater, rfl⟩ :=
    exists_of_mem_typeArgumentEdits peelable member
  have isWhole : text = (before ++ '<' :: (inner ++ ['>'])) ++ behind := by simp [isText]
  have takenLong : text.take (before ++ '<' :: (inner ++ ['>'])).length = before ++ '<' :: (inner ++ ['>']) := by
    rw [isWhole, List.take_left]
  have takenShort : text.take before.length = before := by rw [isText, List.take_left]
  rw [Edit.deletion, takenLong, takenShort]
  have peels := @Peels.delete before inner after word isHead ends noLess noGreater
  simpa using peels

theorem Peelable.of_reflTransGen {next : Text} (peels : Relation.ReflTransGen Peels text next)
    (peelable : Peelable text) : Peelable next := by
  induction peels with
  | refl => exact peelable
  | tail _ step inductionHypothesis => exact step.peelable inductionHypothesis

/-- All rounds of the pass amount to single deletions. -/
theorem reflTransGen_editUntilSettled (peelable : Peelable text) :
    Relation.ReflTransGen Peels text (editUntilSettled typeArgumentEdits text) := by
  refine editUntilSettled_preserves (fun next peels => ?_) .refl
  exact peels.trans (reflTransGen_editOnce (peelable.of_reflTransGen peels))

/-! ## Texts at rest -/

/-- What stands in front of a `>` holds no operator that no type contains. -/
theorem any_occursIn_eq_false (peelable : Peelable text) {before inner after : Text}
    (split : text = before ++ (inner ++ '>' :: after)) :
    nonTypeTokens.any (fun token => Text.occursIn token inner) = false := by
  have tokens : ∀ token ∈ nonTypeTokens, token.head?.any (fun mark => !isCallMark mark) = true ∨
      token = ['|', '|'] ∨ token = ['=', '='] ∨ token = [';'] := by decide
  rw [List.any_eq_false]
  intro token member occurs
  obtain ⟨front, back, rfl⟩ := exists_of_occursIn occurs
  have pair (earlier : Text) (mark next : Char) (rest : Text)
      (isToken : token ++ (back ++ '>' :: after) = earlier ++ mark :: next :: rest) : Follows mark next := by
    refine peelable.follows_of_split (before ++ (front ++ earlier)) mark next rest ?_
    rw [split, List.append_assoc front, List.append_assoc token, isToken]
    simp
  rcases tokens token member with isOther | rfl | rfl | rfl
  · cases token with
    | nil => contradiction
    | cons mark rest =>
        have isMark := peelable.marks mark (by simp [split])
        simp [isMark] at isOther
  · exact absurd ((pair [] '|' '|' (back ++ '>' :: after) rfl).bar rfl) (by decide)
  · exact absurd ((pair [] '=' '=' (back ++ '>' :: after) rfl).equals rfl) (by decide)
  · -- behind a semicolon the line ends, and with it the text
    cases back with
    | nil => exact absurd ((pair [] ';' '>' after rfl).semicolon rfl) (by decide)
    | cons c back =>
        obtain rfl := (pair [] ';' c (back ++ '>' :: after) rfl).semicolon rfl
        cases back with
        | nil => exact (pair [';'] '\n' '>' after rfl).noBreak rfl
        | cons d back => exact (pair [';'] '\n' d (back ++ '>' :: after) rfl).noBreak rfl

/-- Two texts cut at the last place of a character are the same cut. -/
theorem cons_append_inj {c : Char} {first second rest others : Text} (absentRest : c ∉ rest)
    (absentOthers : c ∉ others) (same : first ++ c :: rest = second ++ c :: others) :
    first = second ∧ rest = others := by
  rcases List.append_eq_append_iff.mp same with ⟨beyond, rfl, isRest⟩ | ⟨beyond, rfl, isRest⟩
  · cases beyond with
    | nil => exact ⟨by simp, (List.cons.inj isRest).2⟩
    | cons d beyond =>
        obtain ⟨rfl, rfl⟩ := List.cons.inj isRest
        exact absurd (List.mem_append_right _ List.mem_cons_self) absentRest
  · cases beyond with
    | nil => exact ⟨by simp, (List.cons.inj isRest).2.symm⟩
    | cons d beyond =>
        obtain ⟨rfl, rfl⟩ := List.cons.inj isRest
        exact absurd (List.mem_append_right _ List.mem_cons_self) absentOthers

/-- The first pair of angle brackets that holds no other one is found behind its name, whatever is found
further on. -/
theorem eq_of_find_typeArguments {earlier inner after passed ahead : Text} (isWord : IsWord word)
    (apart : earlier.getLast?.any continuesName = false) (noGreater : '>' ∉ earlier ++ word ++ '<' :: inner)
    (noLess : '<' ∉ inner) (split : earlier ++ word ++ '<' :: (inner ++ '>' :: after) = passed ++ ahead)
    (before : passed.length ≤ earlier.length) {next : Cursor} {other contents : Text}
    (reads : ReadsArguments (Cursor.between passed ahead) next other contents) :
    passed = earlier ∧ other = word ∧ contents = inner := by
  have isOther : IsWord other := ⟨reads.isName, reads.continues⟩
  have isAhead : ahead = other ++ '<' :: (contents ++ '>' :: next.ahead) := by
    simpa [Cursor.between] using reads.passes.ahead_eq
  have notPassed : '>' ∉ passed := by
    have isTaken : passed = earlier.take passed.length := by
      have taken := congrArg (List.take passed.length) split
      rwa [List.take_left, List.append_assoc, List.take_append_of_le_length before, eq_comm] at taken
    rw [isTaken]
    exact fun member => noGreater (by simp [List.mem_of_mem_take member])
  have noGreaterToo : '>' ∉ passed ++ other ++ '<' :: contents := by
    have notOther := isOther.not_mem (show continuesName '>' = false by decide)
    simp [notPassed, notOther, reads.innermost.2]
  have same : (earlier ++ word ++ '<' :: inner) ++ '>' :: after =
      (passed ++ other ++ '<' :: contents) ++ '>' :: next.ahead := by
    rw [isAhead] at split
    simpa using split
  obtain ⟨sameFront, _⟩ := Pattern.append_cons_inj noGreater noGreaterToo same
  obtain ⟨sameNames, sameInner⟩ := cons_append_inj noLess reads.innermost.1 sameFront
  obtain rfl : other = word :=
    EndsIn.unique ⟨passed, rfl, by simpa [Cursor.between] using reads.apart⟩ isOther
      ⟨earlier, sameNames.symm, apart⟩ isWord
  exact ⟨(List.append_cancel_right sameNames).symm, rfl, sameInner.symm⟩

/-- Through its first `>` such a text is shown as it is, and what is shown behind may stand there. -/
theorem exists_mask_eq (peelable : Peelable text) {front after : Text} (noGreater : '>' ∉ front)
    (split : text = front ++ '>' :: after) :
    ∃ beyond, mask text = front ++ '>' :: beyond ∧
      ∀ c ∈ beyond.head?, continuesName c = false ∧ c ≠ '<' := by
  have flatFront : ∀ c ∈ front, isFlat c = true := fun c member => peelable.flat c (by simp [split, member])
  obtain ⟨reading, isFlatThere, shows, view⟩ := @Source.Reading.view_append_of_shows _ front ('>' :: after)
    Source.Reading.isFlat_initial Source.Reading.shows_initial flatFront noGreater
  have step := Source.Reading.flatStep_read isFlatThere (show isFlat '>' = true by decide) after
  obtain ⟨visible, _⟩ := step.visible_of_shows shows
  refine ⟨(reading.advance '>' after).view after, ?_, fun c isFirst => ?_⟩
  · rw [Source.mask_eq_view, split, view, Source.Reading.view, visible]
    rfl
  · cases after with
    | nil => exact absurd isFirst (Option.not_mem_none c)
    | cons d after =>
        have follows := peelable.follows_of_split front '>' d after split
        rw [Source.Reading.view, List.head?_cons, Option.mem_some] at isFirst
        rw [← isFirst]
        rcases Source.keepsOrBlanks_shown ((reading.advance '>' (d :: after)).read d after).1 d with
          same | ⟨isSpace, _⟩
        · rw [same]
          exact follows.greater rfl
        · rw [isSpace]
          decide

theorem startsText_inner (peelable : Peelable text) {before inner after : Text}
    (split : text = before ++ '<' :: (inner ++ '>' :: after)) : typeContentStart.startsText inner = true := by
  cases inner with
  | nil => exact absurd ((peelable.follows_of_split before '<' '>' after split).less rfl) (by decide)
  | cons c inner =>
      have follows := peelable.follows_of_split before '<' c (inner ++ '>' :: after) split
      refine startsText_typeContentStart ?_
      rcases follows.less rfl with starts | rfl | rfl
      · rw [starts, Bool.true_or]
      · decide
      · decide

/-- As long as the first pair of angle brackets that holds no other one stands behind a name that can have
type arguments, the pass has something to delete. -/
theorem not_isSettled_typeArgumentEdits (peelable : Peelable text) {before inner after : Text}
    (isHead : IsHead word) (ends : EndsIn word before) (noGreater : '>' ∉ before ++ '<' :: inner)
    (noLess : '<' ∉ inner) (split : text = before ++ '<' :: (inner ++ '>' :: after)) :
    ¬IsSettled typeArgumentEdits text := by
  obtain ⟨earlier, rfl, apart⟩ := ends
  have noGreaterInner : '>' ∉ inner := fun member => noGreater (by simp [member])
  have isFront : text = (earlier ++ word ++ '<' :: inner) ++ '>' :: after := by simp [split]
  obtain ⟨beyond, isMask, calm⟩ := exists_mask_eq peelable noGreater isFront
  have isShown : mask text = earlier ++ (word ++ '<' :: (inner ++ '>' :: beyond)) := by simp [isMask]
  -- the pattern can be read at the name, so a match begins there or covers it
  obtain ⟨first, rest, isFirst, starts⟩ := isHead.starts
  obtain ⟨found, foundHere, _⟩ := @find_typeArguments earlier beyond inner first rest starts
    (fun c member => isHead.continues c (isFirst ▸ List.mem_cons_of_mem first member)) apart
    ⟨noLess, noGreaterInner⟩
  rw [← isFirst] at foundHere
  obtain ⟨next, reads⟩ := Pattern.isSome_find_iff.mp (Option.isSome_iff_exists.mpr ⟨found, foundHere⟩)
  obtain ⟨match_, isMatch, covers⟩ := @Pattern.exists_mem_searchBehind typeArguments [] earlier _ next reads
  rw [← isShown, ← Pattern.all_eq_searchBehind] at isMatch
  obtain ⟨passed, ahead, splitMask, foundThere⟩ := Pattern.find_of_mem_all isMatch
  obtain ⟨last, readsThere, rfl⟩ := Pattern.reads_of_find foundThere
  obtain ⟨other, contents, readsMatch⟩ := exists_readsArguments readsThere
  have isBefore : passed.length ≤ earlier.length := by
    rcases covers with isStart | ⟨isBefore, _⟩
    · exact Nat.le_of_eq isStart
    · exact isBefore
  obtain ⟨rfl, rfl, rfl⟩ := eq_of_find_typeArguments isHead.toIsWord apart noGreater noLess
    (by rw [← splitMask, isShown, List.append_assoc]) isBefore readsMatch
  -- which it does as a list of type arguments
  have isAhead : last.ahead = beyond := by
    have sameAhead : ahead = other ++ '<' :: (contents ++ '>' :: last.ahead) := by
      simpa [Cursor.between] using readsMatch.passes.ahead_eq
    rw [isShown, sameAhead] at splitMask
    simpa using splitMask.symm
  have isList : isTypeArgumentList (mask text) ⟨passed.length, last.offset, last.captures⟩ = true := by
    rw [splitMask, readsMatch.isTypeArgumentList_iff, isAhead]
    exact ⟨isHead.free, startsText_inner peelable split,
      @any_occursIn_eq_false text peelable (passed ++ other ++ ['<']) contents after (by simp [split]), calm⟩
  have isEdit : Edit.deletion (passed.length + other.length) last.offset ∈ typeArgumentEdits (mask text) := by
    refine List.mem_append_left _ (List.mem_filterMap.mpr ⟨_, List.mem_filter.mpr ⟨isMatch, isList⟩, ?_⟩)
    rw [Match.span?, readsMatch.innerSpan]
    rfl
  intro settled
  refine (Edit.applyAll_eq_self_iff (isDeletion_of_mem_passes (by simp [passes])) text).mp settled _ isEdit ?_
  constructor
  · rw [Edit.deletion, readsMatch.passes.offset_eq]
    simp [Cursor.between]
  · simp [Edit.deletion, split]

end SceneBundler.Dialect
