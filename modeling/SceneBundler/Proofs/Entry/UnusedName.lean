import Mathlib.Data.Finset.Card
import Mathlib.Order.Interval.Finset.Nat
import SceneBundler.Entry.DefaultExport
import SceneBundler.Proofs.Text.Blank
import SceneBundler.Proofs.Text.Occurrence
import SceneBundler.Proofs.Text.Search
import SceneBundler.Proofs.Text.Splicing

/-!
Contract: the name that a default export without one is given.

Owns:
- that the search for a whole identifier finds just the names that stand on their own;
- that no two numbered forms of a name stand on their own at one place, so that a text uses no more of
  them than it has characters;
- that the first unused form is found, whatever further room there is for the search;
- that a default export is given a name which its source does not use.

Does not own: which default exports have no name.
-/

namespace SceneBundler.Entry

open Character (continuesName attaches)

/-! ## Whole identifiers -/

/-- A whole identifier is found just where a name stands on its own. -/
theorem occursIn_wholeIdentifier_iff {name text : Text} :
    (wholeIdentifier name).occursIn text = true ↔ UsesName name text := by
  rw [Pattern.occursIn_iff]
  constructor
  · rintro ⟨front, ahead, next, split, behind, ⟨_, ⟨free, rfl⟩, reads⟩, whole, rfl⟩
    have passes := (Pattern.reads_word_iff.mp reads).1
    have isAhead : ahead = name ++ next.ahead := passes.ahead_eq
    have isFree : front.getLast?.any attaches = false := (Bool.not_eq_true' _).mp free
    exact ⟨front, next.ahead, by rw [split, isAhead], isFree, by simpa using whole⟩
  · rintro ⟨front, back, split, free, whole⟩
    refine ⟨front, name ++ back, Cursor.between (front ++ name) back, split, _,
      ⟨Cursor.between front (name ++ back), ⟨?_, rfl⟩, Pattern.reads_word_between front name back⟩, ?_, rfl⟩
    · exact (Bool.not_eq_true' _).mpr free
    · simpa [Cursor.between] using whole

/-! ## Numbered forms -/

/-- A numbered form is the name and digits, which tell the number. -/
theorem exists_digits (rootName : Text) (number : Nat) :
    ∃ digits, numbered rootName number = rootName ++ digits ∧ ∀ c ∈ digits, c.isDigit = true := by
  rw [numbered]
  split
  · exact ⟨[], (List.append_nil _).symm, List.forall_mem_nil _⟩
  · exact ⟨Text.ofNat number, rfl, fun c => Nat.isDigit_of_mem_toDigits (by decide) (by decide)⟩

theorem numbered_inj {rootName : Text} {number other : Nat} (counted : 0 < number) (counts : 0 < other)
    (same : numbered rootName number = numbered rootName other) : number = other := by
  have some (value : Nat) : rootName ≠ rootName ++ Text.ofNat value := fun isSame =>
    Nat.toDigits_ne_nil (List.self_eq_append_right.mp isSame)
  rw [numbered, numbered] at same
  split_ifs at same with isRoot otherIsRoot otherIsRoot
  · omega
  · exact absurd same (some other)
  · exact absurd same.symm (some number)
  · have digits : Nat.toDigits 10 number = Nat.toDigits 10 other := List.append_cancel_left same
    rw [← @Nat.ofDigitChars_toDigits 10 number (by decide) (by decide), digits,
      Nat.ofDigitChars_toDigits (by decide) (by decide)]

/-- Of two numbered forms that stand on their own at one place neither is longer: more digits would go
on behind the shorter one. -/
theorem eq_of_standsIn {rootName text front back place following : Text} {number other : Nat}
    (counted : 0 < number) (counts : 0 < other)
    (stands : StandsIn (numbered rootName number) [] text [] front back)
    (standsOther : StandsIn (numbered rootName other) [] text [] place following)
    (samePlace : front.length = place.length) : number = other := by
  wlog shorter : (numbered rootName number).length ≤ (numbered rootName other).length generalizing
    number other front back place following
  · exact (this counts counted standsOther stands samePlace.symm (Nat.le_of_not_le shorter)).symm
  obtain ⟨rfl, sameAhead⟩ := List.append_inj (stands.split.symm.trans standsOther.split) samePlace
  obtain ⟨more, isOther, isBack⟩ := Text.exists_between sameAhead shorter
  obtain ⟨digits, isNumbered, _⟩ := exists_digits rootName number
  obtain ⟨otherDigits, isOtherNumbered, areDigits⟩ := exists_digits rootName other
  cases more with
  | nil =>
      rw [List.append_nil] at isOther
      exact numbered_inj counted counts isOther.symm
  | cons c rest =>
      have inDigits : digits ++ c :: rest = otherDigits := by
        rw [isNumbered, isOtherNumbered, List.append_assoc] at isOther
        exact (List.append_cancel_left isOther).symm
      have isDigit := areDigits c (inDigits ▸ List.mem_append_right _ List.mem_cons_self)
      have continues : continuesName c = true := by
        rw [continuesName, Character.isWord_of_isAlphanum (Character.isAlphanum_of_isDigit isDigit)]
        rfl
      have whole := stands.whole
      rw [isBack, List.append_nil, List.cons_append, List.head?_cons, Option.any_some, continues] at whole
      contradiction

/-- A text uses no more numbered forms of a name than it has characters. -/
theorem le_length_of_usesName {rootName masked : Text} (nonempty : rootName ≠ []) {count : Nat}
    (used : ∀ number, 0 < number → number ≤ count → UsesName (numbered rootName number) masked) :
    count ≤ masked.length := by
  choose! front back stands using used
  have inside : Set.MapsTo (fun number => (front number).length) (Finset.Icc 1 count)
      (Finset.range masked.length) := by
    intro number member
    obtain ⟨counted, fits⟩ := Finset.mem_Icc.mp (Finset.mem_coe.mp member)
    obtain ⟨digits, isNumbered, _⟩ := exists_digits rootName number
    have length := congrArg List.length (stands number counted fits).split
    have room := List.length_pos_iff.mpr nonempty
    rw [isNumbered, List.length_append, List.length_append, List.length_append] at length
    refine Finset.mem_coe.mpr (Finset.mem_range.mpr ?_)
    show (front number).length < masked.length
    omega
  have apart : Set.InjOn (fun number => (front number).length) (Finset.Icc 1 count) := by
    intro number member other isOther samePlace
    obtain ⟨counted, fits⟩ := Finset.mem_Icc.mp (Finset.mem_coe.mp member)
    obtain ⟨counts, otherFits⟩ := Finset.mem_Icc.mp (Finset.mem_coe.mp isOther)
    exact eq_of_standsIn counted counts (stands number counted fits) (stands other counts otherFits) samePlace
  simpa using Finset.card_le_card_of_injOn _ inside apart

/-! ## The first unused form -/

/-- The number of the first form of a name that a text does not use; there are at most as many forms in
front of it as the text has characters. -/
structure IsFirstUnused (masked rootName : Text) (number : Nat) : Prop where
  counted : 0 < number
  fits : number ≤ masked.length + 1
  unused : ¬UsesName (numbered rootName number) masked
  first : ∀ earlier, 0 < earlier → earlier < number → UsesName (numbered rootName earlier) masked

theorem exists_isFirstUnused (masked : Text) {rootName : Text} (nonempty : rootName ≠ []) :
    ∃ number, IsFirstUnused masked rootName number := by
  classical
  have someUnused : ∃ number, 0 < number ∧ ¬UsesName (numbered rootName number) masked := by
    by_contra allUsed
    simp only [not_exists, not_and, not_not] at allUsed
    have few : masked.length + 1 ≤ masked.length :=
      le_length_of_usesName nonempty fun number counted _ => allUsed number counted
    omega
  obtain ⟨counted, unused⟩ := Nat.find_spec someUnused
  have first (earlier : Nat) (counts : 0 < earlier) (before : earlier < Nat.find someUnused) :
      UsesName (numbered rootName earlier) masked := by
    by_contra isUnused
    exact Nat.find_min someUnused before ⟨counts, isUnused⟩
  have few : Nat.find someUnused - 1 ≤ masked.length :=
    le_length_of_usesName nonempty fun number counts fits => first number counts (by omega)
  exact ⟨_, counted, by omega, unused, first⟩

/-- The search comes to the first unused form, whatever further room there is. -/
theorem unusedFrom_eq {masked rootName : Text} {number : Nat} (isFirst : IsFirstUnused masked rootName number)
    {room start : Nat} (counted : 0 < start) (ahead : start ≤ number) (enough : number ≤ start + room) :
    unusedFrom masked rootName room start = numbered rootName number := by
  induction room generalizing start with
  | zero => rw [unusedFrom, Nat.le_antisymm ahead enough]
  | succ room inductionHypothesis =>
      rw [unusedFrom]
      rcases Nat.eq_or_lt_of_le ahead with rfl | before
      · exact if_neg (mt occursIn_wholeIdentifier_iff.mp isFirst.unused)
      · have isUsed := occursIn_wholeIdentifier_iff.mpr (isFirst.first start counted before)
        rw [if_pos isUsed]
        exact inductionHypothesis (Nat.succ_pos start) before (by omega)

/-! ## The named export -/

/-- Whether a source is another one with a name in place of a default export without one: the lead of an
exported function becomes the head of a function of that name, and the lead of an exported arrow function
the head of a constant of that name. -/
def NamesDefault (text name result : Text) : Prop :=
  ∃ found head, result = text.take found.start ++ head ++ text.drop found.stop ∧
    (found ∈ anonymousFunction.all (Source.mask text) ∧
        head = found.captured (Source.mask text) 1 ++ found.captured (Source.mask text) 2 ++
          "function ".toList ++ name ∨
      found ∈ anonymousArrow.all (Source.mask text) ∧
        head = found.captured (Source.mask text) 1 ++ "const ".toList ++ name ++ " = ".toList)

/-- Where nothing is to be named, no default export lacks a name. -/
theorem namingEdit?_eq_none {masked rootName : Text} (none : namingEdit? masked rootName = none) :
    anonymousFunction.all masked = [] ∧ anonymousArrow.all masked = [] := by
  unfold namingEdit? at none
  dsimp only at none
  split at none
  next isSorted =>
    have noExports := List.eq_nil_iff_forall_not_mem.mpr fun found member =>
      List.not_mem_nil (isSorted ▸ Order.mem_sort.mpr member)
    obtain ⟨noFunctions, noArrows⟩ := List.append_eq_nil_iff.mp noExports
    exact ⟨List.map_eq_nil_iff.mp noFunctions, List.map_eq_nil_iff.mp noArrows⟩
  next => contradiction

theorem namesDefault_of_namingEdit? {text rootName : Text} {edit : Edit}
    (isEdit : namingEdit? (Source.mask text) rootName = some edit) :
    NamesDefault text (unusedName (Source.mask text) rootName) (Edit.applyAll [edit] text) := by
  unfold namingEdit? at isEdit
  dsimp only at isEdit
  split at isEdit
  next => contradiction
  next found isFunction _ isSorted =>
    obtain rfl := Option.some.inj isEdit
    have member := Order.mem_sort.mp (isSorted ▸ List.mem_cons_self)
    refine ⟨found, _, Edit.applyAll_singleton _ text, ?_⟩
    rcases List.mem_append.mp member with isDeclared | isArrow
    · obtain ⟨_, isFound, same⟩ := List.mem_map.mp isDeclared
      obtain ⟨rfl, rfl⟩ := Prod.mk.inj same
      exact Or.inl ⟨isFound, rfl⟩
    · obtain ⟨_, isFound, same⟩ := List.mem_map.mp isArrow
      obtain ⟨rfl, rfl⟩ := Prod.mk.inj same
      exact Or.inr ⟨isFound, rfl⟩

/-- The search for a name ends at the first of the name's numbered forms that the masked source does not
use, after at most one try more than there are characters; and a default export without a name is given
one that its source does not use. -/
theorem unusedName_isUnused (masked text rootName : Text) (nonempty : rootName ≠ []) :
    (∃ number, IsFirstUnused masked rootName number ∧ unusedName masked rootName = numbered rootName number ∧
      ∀ room, masked.length ≤ room → unusedFrom masked rootName room 1 = numbered rootName number) ∧
    (anonymousFunction.all (Source.mask text) = [] ∧ anonymousArrow.all (Source.mask text) = [] ∧
        nameAnonymousDefault text rootName = text ∨
      ∃ name, ¬UsesName name (Source.mask text) ∧
        NamesDefault text name (nameAnonymousDefault text rootName)) := by
  have search (source : Text) {number : Nat} (isFirst : IsFirstUnused source rootName number) {room : Nat}
      (enough : source.length ≤ room) : unusedFrom source rootName room 1 = numbered rootName number := by
    have fits := isFirst.fits
    exact unusedFrom_eq isFirst Nat.one_pos isFirst.counted (by omega)
  constructor
  · obtain ⟨number, isFirst⟩ := exists_isFirstUnused masked nonempty
    exact ⟨number, isFirst, search masked isFirst (Nat.le_succ _), fun room enough => search masked isFirst enough⟩
  · unfold nameAnonymousDefault
    split
    next isNone =>
      obtain ⟨noFunctions, noArrows⟩ := namingEdit?_eq_none isNone
      exact Or.inl ⟨noFunctions, noArrows, rfl⟩
    next edit isEdit =>
      obtain ⟨number, isFirst⟩ := exists_isFirstUnused (Source.mask text) nonempty
      have isName : unusedName (Source.mask text) rootName = numbered rootName number :=
        search _ isFirst (Nat.le_succ _)
      exact Or.inr ⟨_, isName ▸ isFirst.unused, namesDefault_of_namingEdit? isEdit⟩

/-- A source that uses a conventional name and its second form, and exports an arrow function without a
name. -/
def takenNames : Text :=
  "const App = 1, App2 = 2;
export default () => <Canvas />;
".toList

theorem unusedName_isUnused_takenNames :
    "App".toList ≠ [] ∧ IsFirstUnused (Source.mask takenNames) "App".toList 3 ∧
      ∃ name, ¬UsesName name (Source.mask takenNames) ∧
        NamesDefault takenNames name (nameAnonymousDefault takenNames "App".toList) := by
  have nonempty : "App".toList ≠ [] := by decide
  obtain ⟨⟨number, isFirst, isNumbered, _⟩, isNamed⟩ :=
    unusedName_isUnused (Source.mask takenNames) takenNames "App".toList nonempty
  have isThird : unusedName (Source.mask takenNames) "App".toList = numbered "App".toList 3 := by
    decide +kernel
  have someArrow : (anonymousArrow.all (Source.mask takenNames)).isEmpty = false := by decide +kernel
  have isThree := numbered_inj isFirst.counted (by decide) (isNumbered.symm.trans isThird)
  refine ⟨nonempty, isThree ▸ isFirst, ?_⟩
  rcases isNamed with ⟨_, noArrows, _⟩ | isNamed
  · exact Bool.noConfusion (someArrow.symm.trans (congrArg List.isEmpty noArrows))
  · exact isNamed

end SceneBundler.Entry
