import Mathlib.Data.List.Basic
import Mathlib.Data.List.Induction
import Mathlib.Data.List.Nodup
import SceneBundler.Json.Printer
import SceneBundler.Json.Reader
import SceneBundler.Json.Value

/-!
Contract: written values are read back.

Owns:
- that a written string is read back with its quotes, whatever follows it, each character by its escape;
- the fields of an object that were given one after another, each name once with the value given last;
- the values without numbers, whose objects name each field once, within a bound on their nesting;
- that either layout of such a value is read as the value, whatever stands behind it.

Does not own: the written form of numbers, and strings that the library did not write.
-/

namespace SceneBundler.Json

/-! ## Numerals in base sixteen -/

theorem hexValue?_digitChar {digit : Nat} (small : digit < 16) :
    hexValue? (Nat.digitChar digit) = some digit := by
  revert digit
  decide

theorem hexNumber?_append_digit {digits : Text} {number digit : Nat}
    (known : hexNumber? digits = some number) (small : digit < 16) :
    hexNumber? (digits ++ [Nat.digitChar digit]) = some (16 * number + digit) := by
  unfold hexNumber? at known ⊢
  rw [List.foldl_append, known]
  simp [hexValue?_digitChar small]

theorem hexNumber?_toDigits (number : Nat) : hexNumber? (Nat.toDigits 16 number) = some number := by
  induction number using Nat.strongRecOn with
  | ind number inductionHypothesis =>
      rcases Nat.lt_or_ge number 16 with small | large
      · have nothing : hexNumber? [] = some 0 := rfl
        rw [Nat.toDigits_of_lt_base small]
        simpa using hexNumber?_append_digit nothing small
      · have isLess : number / 16 < number := by omega
        rw [Nat.toDigits_of_base_le (by decide) large,
          hexNumber?_append_digit (inductionHypothesis _ isLess) (Nat.mod_lt _ (by decide)),
          Nat.div_add_mod]

theorem hexNumber?_zeros (count : Nat) (digits : Text) :
    hexNumber? (List.replicate count '0' ++ digits) = hexNumber? digits := by
  induction count with
  | zero => rfl
  | succ count inductionHypothesis => exact inductionHypothesis

theorem length_hexadecimal {number : Nat} (small : number < 0x10000) :
    (Text.hexadecimal 4 number).length = 4 := by
  have few : (Nat.toDigits 16 number).length ≤ 4 :=
    (Nat.length_toDigits_le_iff (by decide) (by decide)).mpr (by simpa using small)
  simp only [Text.hexadecimal, List.length_append, List.length_replicate]
  omega

/-- The escape of a code unit has four digits, and they say which unit it is. -/
theorem exists_unitEscape {unit : Nat} (small : unit < 0x10000) :
    ∃ first second third fourth : Char,
      unitEscape unit = ['\\', 'u', first, second, third, fourth] ∧
        hexNumber? [first, second, third, fourth] = some unit := by
  have number : hexNumber? (Text.hexadecimal 4 unit) = some unit := by
    rw [Text.hexadecimal, hexNumber?_zeros, hexNumber?_toDigits]
  obtain ⟨first, second, third, fourth, digits⟩ :=
    List.length_eq_four.mp (length_hexadecimal small)
  refine ⟨first, second, third, fourth, ?_, ?_⟩
  · rw [unitEscape, digits]
    rfl
  · rw [← digits, number]

/-! ## Single characters -/

theorem readString_simpleEscape {escape c : Char} (isEscape : simpleEscape? escape = some c)
    (read rest : Text) :
    readString none read ('\\' :: escape :: rest) = readString none (c :: read) rest := by
  have notUnit : escape ≠ 'u' := by
    rintro rfl
    have none : simpleEscape? 'u' = Option.none := by decide
    rw [none] at isEscape
    contradiction
  rw [readString.eq_def]
  simp only [if_neg notUnit, isEscape]
  rfl

theorem readString_unitEscape {unit : Nat} (small : unit < 0x10000) (high : Option Nat)
    (read rest : Text) :
    readString high read (unitEscape unit ++ rest) =
      if isHighSurrogate unit then readString (some unit) (settle high read) rest
      else if isLowSurrogate unit then
        match high with
        | some lead =>
            readString none
              (Char.ofNat (0x10000 + (lead - 0xd800) * 0x400 + (unit - 0xdc00)) :: read) rest
        | none => readString none (replacement :: read) rest
      else readString none (Char.ofNat unit :: settle high read) rest := by
  obtain ⟨first, second, third, fourth, written, number⟩ := exists_unitEscape small
  rw [written]
  simp only [List.cons_append, List.nil_append]
  rw [readString.eq_def]
  simp only [number]
  rfl

theorem not_surrogate (c : Char) :
    isHighSurrogate c.toNat = false ∧ isLowSurrogate c.toNat = false := by
  have valid : c.toNat < 0xd800 ∨ 0xdfff < c.toNat ∧ c.toNat < 0x110000 := c.valid
  constructor
  · simp only [isHighSurrogate, Bool.and_eq_false_iff, decide_eq_false_iff_not]
    omega
  · simp only [isLowSurrogate, Bool.and_eq_false_iff, decide_eq_false_iff_not]
    omega

/-- A character of the supplementary planes is written as its two surrogates, which are read together. -/
theorem readString_surrogates {c : Char} (large : 0x10000 ≤ c.toNat) (read rest : Text) :
    readString none read
        (unitEscape (0xd800 + (c.toNat - 0x10000) / 0x400) ++
          (unitEscape (0xdc00 + (c.toNat - 0x10000) % 0x400) ++ rest)) =
      readString none (c :: read) rest := by
  have valid : c.toNat < 0xd800 ∨ 0xdfff < c.toNat ∧ c.toNat < 0x110000 := c.valid
  generalize offsetIs : c.toNat - 0x10000 = offset
  have inPlanes : offset < 0x100000 := by omega
  have high : isHighSurrogate (0xd800 + offset / 0x400) = true := by
    simp only [isHighSurrogate, Bool.and_eq_true, decide_eq_true_eq]
    omega
  have low : isLowSurrogate (0xdc00 + offset % 0x400) = true := by
    simp only [isLowSurrogate, Bool.and_eq_true, decide_eq_true_eq]
    omega
  have notHigh : isHighSurrogate (0xdc00 + offset % 0x400) = false := by
    simp only [isHighSurrogate, Bool.and_eq_false_iff, decide_eq_false_iff_not]
    omega
  have together : 0x10000 + (0xd800 + offset / 0x400 - 0xd800) * 0x400 +
      (0xdc00 + offset % 0x400 - 0xdc00) = c.toNat := by
    omega
  rw [readString_unitEscape (by omega), if_pos high, readString_unitEscape (by omega), notHigh,
    if_neg Bool.false_ne_true, if_pos low]
  simp only [together, Char.ofNat_toNat]
  rfl

/-- The written form of every character is read as that character. -/
theorem readString_printChar (c : Char) (read rest : Text) :
    readString none read (printChar c ++ rest) = readString none (c :: read) rest := by
  unfold printChar
  split_ifs with isQuote isBackslash isFeed isReturn isTab isPage isBackspace isPrintable isBasic
  · rw [isQuote]
    exact readString_simpleEscape (by decide) read rest
  · rw [isBackslash]
    exact readString_simpleEscape (by decide) read rest
  · rw [isFeed]
    exact readString_simpleEscape (by decide) read rest
  · rw [isReturn]
    exact readString_simpleEscape (by decide) read rest
  · rw [isTab]
    exact readString_simpleEscape (by decide) read rest
  · rw [isPage]
    exact readString_simpleEscape (by decide) read rest
  · rw [isBackspace]
    exact readString_simpleEscape (by decide) read rest
  · have notControl : ¬ c.toNat < 0x20 := by
      have atLeast : ' ' ≤ c := by
        simp only [Bool.and_eq_true, decide_eq_true_eq] at isPrintable
        exact isPrintable.1
      exact Nat.not_lt.mpr atLeast
    simp only [List.cons_append, List.nil_append]
    rw [readString.eq_def]
    simp only [if_neg isQuote, if_neg isBackslash, if_neg notControl]
    rfl
  · rw [readString_unitEscape isBasic, (not_surrogate c).1, (not_surrogate c).2, Char.ofNat_toNat]
    rfl
  · rw [List.append_assoc]
    exact readString_surrogates (by omega) read rest

/-! ## Whole strings -/

theorem readString_flatMap_printChar (text read rest : Text) :
    readString none read (text.flatMap printChar ++ rest) =
      readString none (text.reverse ++ read) rest := by
  induction text generalizing read with
  | nil => rfl
  | cons c text inductionHypothesis =>
      rw [List.flatMap_cons, List.append_assoc, readString_printChar, inductionHypothesis]
      simp

/-- What follows the opening quote of a written string is read as the string, up to its closing quote. -/
theorem readString_printed (text rest : Text) :
    readString none [] (text.flatMap printChar ++ '\x22' :: rest) = .ok (text, rest) := by
  rw [readString_flatMap_printChar, readString.eq_def]
  simp [settle]

end SceneBundler.Json

namespace SceneBundler.Json.Value

/-- The fields of the object that a list of fields makes up. -/
def collected (fields : List (Text × Value)) : List (Text × Value) :=
  fields.foldl (fun known field => putField field.1 field.2 known) []

theorem ofFields_eq (fields : List (Text × Value)) : ofFields fields = .object (collected fields) :=
  rfl

theorem collected_append (fields : List (Text × Value)) (name : Text) (value : Value) :
    collected (fields ++ [(name, value)]) = putField name value (collected fields) := by
  rw [collected, List.foldl_append]
  rfl

theorem names_putField (name : Text) (value : Value) (fields : List (Text × Value)) :
    (putField name value fields).map Prod.fst =
      if name ∈ fields.map Prod.fst then fields.map Prod.fst
      else fields.map Prod.fst ++ [name] := by
  induction fields with
  | nil => rfl
  | cons field rest inductionHypothesis =>
      obtain ⟨known, old⟩ := field
      rw [putField]
      by_cases same : known = name
      · simp [same]
      · have different : name ≠ known := fun equal => same equal.symm
        rw [if_neg same, List.map_cons, List.map_cons, inductionHypothesis]
        by_cases later : name ∈ rest.map Prod.fst
        · rw [if_pos later, if_pos (List.mem_cons_of_mem known later)]
        · rw [if_neg later, if_neg (List.not_mem_cons_of_ne_of_not_mem different later)]
          rfl

theorem lookup_putField (name other : Text) (value : Value) (fields : List (Text × Value)) :
    (putField name value fields).lookup other =
      if other = name then some value else fields.lookup other := by
  induction fields with
  | nil => by_cases same : other = name <;> simp [putField, same]
  | cons field rest inductionHypothesis =>
      obtain ⟨known, old⟩ := field
      rw [putField]
      by_cases isKnown : known = name
      · rw [if_pos isKnown, isKnown]
        by_cases same : other = name
        · simp [same]
        · simp [same, List.lookup_cons, beq_eq_false_iff_ne.mpr same]
      · rw [if_neg isKnown]
        by_cases isHere : other = known
        · simp [isHere, isKnown]
        · simp [List.lookup_cons, beq_eq_false_iff_ne.mpr isHere, inductionHypothesis]

theorem nodup_names_putField {fields : List (Text × Value)} (nodup : (fields.map Prod.fst).Nodup)
    (name : Text) (value : Value) : ((putField name value fields).map Prod.fst).Nodup := by
  rw [names_putField]
  by_cases known : name ∈ fields.map Prod.fst
  · rwa [if_pos known]
  · rw [if_neg known]
    exact nodup.append (List.nodup_singleton name)
      (List.disjoint_singleton.mpr known)

theorem nodup_names_collected (fields : List (Text × Value)) :
    ((collected fields).map Prod.fst).Nodup := by
  induction fields using List.reverseRecOn with
  | nil => exact List.nodup_nil
  | append_singleton fields field inductionHypothesis =>
      rw [collected_append]
      exact nodup_names_putField inductionHypothesis field.1 field.2

/-- The names of an object stand in the order in which each was first given. -/
theorem names_collected (fields : List (Text × Value)) :
    (collected fields).map Prod.fst = (fields.map Prod.fst).eraseDups := by
  induction fields using List.reverseRecOn with
  | nil => rfl
  | append_singleton fields field inductionHypothesis =>
      rw [collected_append, names_putField, inductionHypothesis, List.map_append, List.eraseDups_append]
      by_cases known : field.1 ∈ fields.map Prod.fst
      · rw [if_pos (List.mem_eraseDups.mpr known)]
        simp [List.removeAll, known]
      · rw [if_neg (fun member => known (List.mem_eraseDups.mp member))]
        simp [List.removeAll, known, List.eraseDups_cons]

/-- Every name of an object has the value that it was given last. -/
theorem lookup_collected (fields : List (Text × Value)) (name : Text) :
    (collected fields).lookup name = fields.reverse.lookup name := by
  induction fields using List.reverseRecOn with
  | nil => rfl
  | append_singleton fields field inductionHypothesis =>
      obtain ⟨last, value⟩ := field
      rw [collected_append, lookup_putField, inductionHypothesis, List.reverse_append,
        List.reverse_singleton, List.singleton_append]
      by_cases same : name = last
      · simp [same]
      · simp [same, List.lookup_cons, beq_eq_false_iff_ne.mpr same]

theorem mem_of_mem_putField {name : Text} {value : Value} {fields : List (Text × Value)}
    {field : Text × Value} (member : field ∈ putField name value fields) :
    field = (name, value) ∨ field ∈ fields := by
  induction fields with
  | nil => exact Or.inl (List.mem_singleton.mp member)
  | cons first rest inductionHypothesis =>
      rw [putField] at member
      by_cases same : first.1 = name
      · rw [if_pos same, same] at member
        exact (List.mem_cons.mp member).imp_right (List.mem_cons_of_mem first)
      · rw [if_neg same] at member
        rcases List.mem_cons.mp member with isFirst | later
        · exact Or.inr (List.mem_cons.mpr (Or.inl isFirst))
        · exact (inductionHypothesis later).imp_right (List.mem_cons_of_mem first)

/-- Nothing is in an object that was not given. -/
theorem mem_of_mem_collected {fields : List (Text × Value)} {field : Text × Value}
    (member : field ∈ collected fields) : field ∈ fields := by
  induction fields using List.reverseRecOn with
  | nil => exact member
  | append_singleton fields last inductionHypothesis =>
      rw [collected_append] at member
      rcases mem_of_mem_putField member with isLast | earlier
      · exact List.mem_append_right _ (List.mem_singleton.mpr isLast)
      · exact List.mem_append_left _ (inductionHypothesis earlier)

theorem putField_of_not_mem {name : Text} {fields : List (Text × Value)}
    (absent : name ∉ fields.map Prod.fst) (value : Value) :
    putField name value fields = fields ++ [(name, value)] := by
  induction fields with
  | nil => rfl
  | cons field rest inductionHypothesis =>
      rw [List.map_cons, List.mem_cons, not_or] at absent
      rw [putField, if_neg fun same => absent.1 same.symm, inductionHypothesis absent.2]
      rfl

theorem collected_of_nodup {fields : List (Text × Value)} (nodup : (fields.map Prod.fst).Nodup) :
    collected fields = fields := by
  induction fields using List.reverseRecOn with
  | nil => rfl
  | append_singleton fields field inductionHypothesis =>
      rw [List.map_append, List.map_singleton, List.nodup_append] at nodup
      have absent : field.1 ∉ fields.map Prod.fst := fun member =>
        nodup.2.2 field.1 member field.1 (List.mem_singleton_self _) rfl
      rw [collected_append, inductionHypothesis nodup.1, putField_of_not_mem absent]

end SceneBundler.Json.Value

namespace SceneBundler.Json

/-! ## Layout -/

theorem skipSpace_of_visible {c : Char} (visible : isSpace c = false) (rest : Text) :
    skipSpace (c :: rest) = c :: rest := by
  rw [skipSpace, List.dropWhile_cons_of_neg (by simp [visible])]

theorem skipSpace_append {spaces : Text} (areSpaces : ∀ c ∈ spaces, isSpace c = true) (rest : Text) :
    skipSpace (spaces ++ rest) = skipSpace rest :=
  List.dropWhile_append_of_pos areSpaces

namespace Layout

theorem isSpace_of_mem_line {layout : Layout} {level : Nat} {c : Char}
    (member : c ∈ layout.line level) : isSpace c = true := by
  cases layout with
  | compact => simp [line] at member
  | indented width =>
      rcases List.mem_cons.mp member with isBreak | isPadding
      · rw [isBreak]
        rfl
      · rw [List.eq_of_mem_replicate isPadding]
        rfl

theorem skipSpace_line (layout : Layout) (level : Nat) (rest : Text) :
    skipSpace (layout.line level ++ rest) = skipSpace rest :=
  skipSpace_append (fun _ member => isSpace_of_mem_line member) rest

/-- Two items are set apart by a comma with nothing but spaces behind it. -/
theorem exists_separator (layout : Layout) (level : Nat) :
    ∃ spaces : Text, layout.separator level = ',' :: spaces ∧ ∀ c ∈ spaces, isSpace c = true := by
  cases layout with
  | compact => exact ⟨[' '], rfl, List.forall_mem_singleton.mpr rfl⟩
  | indented width => exact ⟨(indented width).line level, rfl, fun _ member => isSpace_of_mem_line member⟩

end Layout

/-! ## Values that are read back -/

/-- A value without numbers, whose objects name each field once, and which holds at most `depth`
containers within each other. -/
inductive Value.IsReadable : (depth : Nat) -> Value -> Prop
  | null {depth : Nat} : IsReadable depth .null
  | boolean {depth : Nat} (value : Bool) : IsReadable depth (.boolean value)
  | string {depth : Nat} (text : Text) : IsReadable depth (.string text)
  | array {depth : Nat} {items : List Value} (each : ∀ item ∈ items, IsReadable depth item) :
      IsReadable (depth + 1) (.array items)
  | object {depth : Nat} {fields : List (Text × Value)} (apart : (fields.map Prod.fst).Nodup)
      (each : ∀ field ∈ fields, IsReadable depth field.2) : IsReadable (depth + 1) (.object fields)

/-- The written form of a value, at a level of nesting, is read as the value, whatever follows. -/
def ReadsBack (layout : Layout) (level depth : Nat) (value : Value) : Prop :=
  ∀ (room : Nat) (following : Text), (printValue layout level value).length ≤ room →
    readValue room depth (printValue layout level value ++ following) = .ok (value, following)

/-- What is read as a value begins with a character that is no space and closes no array. -/
theorem exists_printValue_eq {depth : Nat} {value : Value} (readable : value.IsReadable depth)
    (layout : Layout) (level : Nat) :
    ∃ (c : Char) (rest : Text),
      printValue layout level value = c :: rest ∧ isSpace c = false ∧ c ≠ ']' := by
  cases readable with
  | null => exact ⟨'n', "ull".toList, rfl, by decide, by decide⟩
  | boolean value =>
      cases value with
      | true => exact ⟨'t', "rue".toList, rfl, by decide, by decide⟩
      | false => exact ⟨'f', "alse".toList, rfl, by decide, by decide⟩
  | string text => exact ⟨'\x22', _, rfl, by decide, by decide⟩
  | @array _ items _ =>
      cases items with
      | nil => exact ⟨'[', [']'], rfl, by decide, by decide⟩
      | cons item items => exact ⟨'[', _, rfl, by decide, by decide⟩
  | @object _ fields _ _ =>
      cases fields with
      | nil => exact ⟨'{', ['}'], rfl, by decide, by decide⟩
      | cons field fields => exact ⟨'{', _, rfl, by decide, by decide⟩

theorem skipSpace_printValue {depth : Nat} {value : Value} (readable : value.IsReadable depth)
    (layout : Layout) (level : Nat) (following : Text) :
    skipSpace (printValue layout level value ++ following) =
      printValue layout level value ++ following := by
  obtain ⟨c, rest, written, visible, -⟩ := exists_printValue_eq readable layout level
  rw [written, List.cons_append, skipSpace_of_visible visible]

theorem length_printValue_pos {depth : Nat} {value : Value} (readable : value.IsReadable depth)
    (layout : Layout) (level : Nat) : 0 < (printValue layout level value).length := by
  obtain ⟨c, rest, written, -, -⟩ := exists_printValue_eq readable layout level
  rw [written]
  exact Nat.succ_pos _

/-! ## Items and fields -/

/-- The rest of an array from one of its items on is read as the items, behind those read so far. -/
theorem readItems_printed {layout : Layout} {level depth : Nat} {items : List Value}
    (readable : ∀ value ∈ items, value.IsReadable depth)
    (each : ∀ value ∈ items, ReadsBack layout (level + 1) depth value) {item : Value}
    (itemReads : ReadsBack layout (level + 1) depth item) (itemReadable : item.IsReadable depth)
    (known : List Value) {room : Nat}
    (enough : (printValue layout (level + 1) item).length +
      (printItems layout (level + 1) items).length < room) (following : Text) :
    readItems room depth known
        (printValue layout (level + 1) item ++ (printItems layout (level + 1) items ++
          (layout.line level ++ ']' :: following))) =
      .ok (.array (known.reverse ++ item :: items), following) := by
  induction items generalizing item known room with
  | nil =>
      obtain ⟨inner, rfl⟩ := Nat.exists_eq_succ_of_ne_zero (Nat.ne_zero_of_lt enough)
      rw [printItems, List.nil_append, readItems, itemReads inner _ (by omega)]
      simp only [Layout.skipSpace_line]
      rw [skipSpace_of_visible (by decide)]
      simp
  | cons next items inductionHypothesis =>
      obtain ⟨inner, rfl⟩ := Nat.exists_eq_succ_of_ne_zero (Nat.ne_zero_of_lt enough)
      obtain ⟨spaces, separator, areSpaces⟩ := layout.exists_separator (level + 1)
      have nextReadable := readable next List.mem_cons_self
      have first := length_printValue_pos itemReadable layout (level + 1)
      simp only [printItems, separator, List.length_append, List.length_cons] at enough
      rw [readItems, itemReads inner _ (by omega)]
      simp only [printItems, separator, List.append_assoc, List.cons_append]
      rw [skipSpace_of_visible (by decide)]
      simp only
      rw [skipSpace_append areSpaces, skipSpace_printValue nextReadable,
        inductionHypothesis (fun value member => readable value (List.mem_cons_of_mem next member))
          (fun value member => each value (List.mem_cons_of_mem next member))
          (each next List.mem_cons_self) nextReadable (item :: known) (by omega)]
      simp

theorem printString_append (text rest : Text) :
    printString text ++ rest = '\x22' :: (text.flatMap printChar ++ '\x22' :: rest) := by
  simp [printString]

/-- Between a name and its value stand a colon and a space. -/
theorem skipSpace_colon (rest : Text) : skipSpace (": ".toList ++ rest) = ':' :: ' ' :: rest :=
  skipSpace_of_visible (by decide) _

theorem skipSpace_cons_space (rest : Text) : skipSpace (' ' :: rest) = skipSpace rest :=
  rfl

/-- The rest of an object from one of its fields on is read as the fields, behind those read so far. -/
theorem readFields_printed {layout : Layout} {level depth : Nat} {fields : List (Text × Value)}
    (readable : ∀ field ∈ fields, field.2.IsReadable depth)
    (each : ∀ field ∈ fields, ReadsBack layout (level + 1) depth field.2) (name : Text) {value : Value}
    (valueReads : ReadsBack layout (level + 1) depth value) (valueReadable : value.IsReadable depth)
    (known : List (Text × Value)) {room : Nat}
    (enough : (printValue layout (level + 1) value).length +
      (printFields layout (level + 1) fields).length < room) (following : Text) :
    readFields room depth known
        (printString name ++ (": ".toList ++ (printValue layout (level + 1) value ++
          (printFields layout (level + 1) fields ++ (layout.line level ++ '}' :: following))))) =
      .ok (Value.ofFields (known.reverse ++ (name, value) :: fields), following) := by
  induction fields generalizing name value known room with
  | nil =>
      obtain ⟨inner, rfl⟩ := Nat.exists_eq_succ_of_ne_zero (Nat.ne_zero_of_lt enough)
      rw [printString_append, readFields]
      simp only [readString_printed, skipSpace_colon, skipSpace_cons_space, printFields,
        List.nil_append]
      rw [skipSpace_printValue valueReadable, valueReads inner _ (by omega)]
      simp only [Layout.skipSpace_line]
      rw [skipSpace_of_visible (by decide)]
      simp
  | cons next fields inductionHypothesis =>
      obtain ⟨inner, rfl⟩ := Nat.exists_eq_succ_of_ne_zero (Nat.ne_zero_of_lt enough)
      obtain ⟨nextName, nextValue⟩ := next
      obtain ⟨spaces, separator, areSpaces⟩ := layout.exists_separator (level + 1)
      have first := length_printValue_pos valueReadable layout (level + 1)
      have nextReadable : nextValue.IsReadable depth := readable _ List.mem_cons_self
      have nextReads : ReadsBack layout (level + 1) depth nextValue := each _ List.mem_cons_self
      simp only [printFields, separator, List.length_append, List.length_cons] at enough
      rw [printString_append, readFields]
      simp only [readString_printed, skipSpace_colon, skipSpace_cons_space]
      rw [skipSpace_printValue valueReadable, valueReads inner _ (by omega)]
      simp only [printFields, separator, List.append_assoc, List.cons_append]
      rw [skipSpace_of_visible (by decide)]
      simp only
      rw [skipSpace_append areSpaces, printString_append, skipSpace_of_visible (by decide),
        ← printString_append,
        inductionHypothesis (fun field member => readable field (List.mem_cons_of_mem _ member))
          (fun field member => each field (List.mem_cons_of_mem _ member))
          nextName nextReads nextReadable ((name, value) :: known) (by omega)]
      simp

/-! ## Values -/

/-- No value is written as nothing, so there is room for its first step. -/
theorem ReadsBack.of_succ {layout : Layout} {level depth : Nat} {value : Value} (readable : value.IsReadable depth)
    (reads : ∀ (room : Nat) (following : Text), (printValue layout level value).length ≤ room + 1 →
      readValue (room + 1) depth (printValue layout level value ++ following) = .ok (value, following)) :
    ReadsBack layout level depth value := by
  intro room following enough
  have longer := length_printValue_pos readable layout level
  obtain ⟨inner, rfl⟩ := Nat.exists_eq_succ_of_ne_zero (Nat.ne_zero_of_lt (Nat.lt_of_lt_of_le longer enough))
  exact reads inner following enough

theorem readsBack_array {layout : Layout} {level depth : Nat} {items : List Value}
    (readable : ∀ value ∈ items, value.IsReadable depth)
    (each : ∀ value ∈ items, ReadsBack layout (level + 1) depth value) :
    ReadsBack layout level (depth + 1) (.array items) := by
  refine .of_succ (.array readable) fun inner following enough => ?_
  cases items with
  | nil => rfl
  | cons item items =>
      obtain ⟨itemReadable, othersReadable⟩ := List.forall_mem_cons.mp readable
      obtain ⟨itemReads, othersRead⟩ := List.forall_mem_cons.mp each
      obtain ⟨c, rest, written, -, notClosing⟩ := exists_printValue_eq itemReadable layout (level + 1)
      have within : (printValue layout (level + 1) item).length +
          (printItems layout (level + 1) items).length < inner := by
        simp only [printValue, List.length_cons, List.length_append] at enough
        omega
      rw [readValue.eq_def]
      simp only [printValue, List.cons_append, List.append_assoc, List.nil_append,
        Layout.skipSpace_line, skipSpace_printValue itemReadable]
      rw [if_neg (by decide), if_pos True.intro]
      split
      next closing =>
        rw [written, List.cons_append] at closing
        exact absurd (List.cons.inj closing).1 notClosing
      next => exact readItems_printed othersReadable othersRead itemReads itemReadable [] within following

theorem readsBack_object {layout : Layout} {level depth : Nat} {fields : List (Text × Value)}
    (apart : (fields.map Prod.fst).Nodup) (readable : ∀ field ∈ fields, field.2.IsReadable depth)
    (each : ∀ field ∈ fields, ReadsBack layout (level + 1) depth field.2) :
    ReadsBack layout level (depth + 1) (.object fields) := by
  refine .of_succ (.object apart readable) fun inner following enough => ?_
  cases fields with
  | nil => rfl
  | cons field fields =>
      obtain ⟨name, value⟩ := field
      obtain ⟨valueReadable, othersReadable⟩ := List.forall_mem_cons.mp readable
      obtain ⟨valueReads, othersRead⟩ := List.forall_mem_cons.mp each
      have within : (printValue layout (level + 1) value).length +
          (printFields layout (level + 1) fields).length < inner := by
        simp only [printValue, List.length_cons, List.length_append] at enough
        omega
      have read := readFields_printed othersReadable othersRead name valueReads valueReadable [] within following
      rw [List.reverse_nil, List.nil_append, Value.ofFields_eq, Value.collected_of_nodup apart] at read
      rw [readValue.eq_def]
      simp only [printValue, List.cons_append, List.append_assoc, List.nil_append,
        Layout.skipSpace_line]
      rw [printString_append, skipSpace_of_visible (by decide), ← printString_append]
      rw [if_neg (by decide), if_neg (by decide), if_pos True.intro]
      split
      next closing =>
        rw [printString_append] at closing
        exact absurd (List.cons.inj closing).1 (by decide)
      next => exact read

/-- Every readable value is read back from its written form in either layout. -/
theorem readsBack_of_isReadable {depth : Nat} {value : Value} (readable : value.IsReadable depth)
    (layout : Layout) (level : Nat) : ReadsBack layout level depth value := by
  induction readable generalizing level with
  | null => exact .of_succ .null fun _ _ _ => rfl
  | boolean value =>
      refine .of_succ (.boolean value) fun _ _ _ => ?_
      cases value <;> rfl
  | string text =>
      refine .of_succ (.string text) fun room following _ => ?_
      rw [printValue, printString_append, readValue.eq_def]
      simp only [if_true, readString_printed]
  | array readable each => exact readsBack_array readable fun value member => each value member (level + 1)
  | object apart readable each =>
      exact readsBack_object apart readable fun field member => each field member (level + 1)

/-- A readable value is read from either of its layouts, with nothing but spaces behind it. -/
theorem read_printValue {value : Value} (readable : value.IsReadable greatestDepth) (layout : Layout)
    {spaces : Text} (areSpaces : ∀ c ∈ spaces, isSpace c = true) :
    read (printValue layout 0 value ++ spaces) = .ok value := by
  have room : (printValue layout 0 value).length ≤ (printValue layout 0 value ++ spaces).length + 1 := by
    rw [List.length_append]
    omega
  have nothingElse : skipSpace spaces = [] := by
    simpa [skipSpace] using skipSpace_append areSpaces []
  rw [read, skipSpace_printValue readable,
    readsBack_of_isReadable readable layout 0 _ spaces room]
  simp [nothingElse]

end SceneBundler.Json
