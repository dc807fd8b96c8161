import SceneBundler.Dialect.Enumeration
import SceneBundler.Proofs.Imports.Clause

/-!
Contract: enumerations as they are written, and what their members stand for.

Owns:
- the declarations of enumerations with keys, values and blanks of any kind, and their text;
- the number that a member without a value has in its place;
- which enumerations are literal, and the object that takes the place of one;
- that reading the members one after another gives the keys with their values just if the enumeration is
  literal.

Does not own: how a declaration is recognised in a source.
-/

namespace SceneBundler.Enumeration

open Imports (IsName)

/-! ## Words -/

/-- A stretch of blanks. -/
abbrev Blanks := { text : Text // Text.isBlank text = true }

/-- A stretch of blanks that keeps two words apart. -/
abbrev Gap := { text : Text // Text.isBlank text = true ∧ text ≠ [] }

/-- A name as programs are read: an ASCII letter, underscore or dollar sign, then word characters and
dollar signs. -/
abbrev Name := { text : Text // IsName text }

/-- A text in quotes with neither escapes nor line breaks. -/
structure Quotation where
  quote : Char
  content : Text
  isQuote : Source.isQuote quote = true
  plain : ∀ c ∈ content, c ≠ '\\' ∧ c ≠ quote ∧ c ≠ '\n'

def Quotation.text (quoted : Quotation) : Text :=
  quoted.quote :: (quoted.content ++ [quoted.quote])

/-- A decimal integer. -/
structure WholeNumber where
  negative : Bool
  digits : Text
  some : digits ≠ []
  areDigits : ∀ c ∈ digits, c.isDigit = true

namespace WholeNumber

def text (number : WholeNumber) : Text :=
  (if number.negative then ['-'] else []) ++ number.digits

def value (number : WholeNumber) : Int :=
  if number.negative then -Numeral.digitsValue number.digits else Numeral.digitsValue number.digits

end WholeNumber

/-- The characters of expressions outside parentheses: those of names and numerals, blanks, points and
the operators. -/
def isExpressionMark (c : Char) : Bool :=
  Character.continuesName c || Character.isBlank c || ".+*|&".toList.contains c

/-- Whether a text is made of such characters and of parentheses that pair, with commas within them
only. -/
def isExpression : (depth : Nat) -> Text -> Bool
  | depth, [] => depth == 0
  | depth, c :: rest =>
      if c = '(' then isExpression (depth + 1) rest
      else if c = ')' then
        match depth with
        | 0 => false
        | outer + 1 => isExpression outer rest
      else (isExpressionMark c || (c == ',' && depth != 0)) && isExpression depth rest

/-- An expression of names, numerals, calls and operators that is no decimal integer. -/
structure Expression where
  text : Text
  isExpression : isExpression 0 text = true
  startsVisible : ∀ c ∈ text.head?, Character.isBlank c = false
  endsVisible : ∀ c ∈ text.getLast?, Character.isBlank c = false
  notDecimal : ∃ c ∈ text, Character.isDecimal c = false

/-! ## Members -/

/-- The key of a member. -/
inductive Key where
  | plain (name : Name)
  | quoted (quotation : Quotation)

def Key.text : Key -> Text
  | plain name => name.1
  | quoted quotation => quotation.text

/-- What a member is set to. -/
inductive Initializer where
  | whole (number : WholeNumber)
  | quoted (quotation : Quotation)
  | computed (expression : Expression)

namespace Initializer

def text : Initializer -> Text
  | whole number => number.text
  | quoted quotation => quotation.text
  | computed expression => expression.text

/-- The number that a member is set to, if it is one. -/
def number? : Initializer -> Option Int
  | whole number => some number.value
  | _ => none

end Initializer

/-- An initializer with the blanks around it. -/
structure Setting where
  before : Blanks
  initializer : Initializer
  after : Blanks

/-- A member, bare or with a setting behind its equals sign, and the blanks around its key. -/
structure Member where
  before : Blanks
  key : Key
  after : Blanks
  setting : Option Setting

namespace Member

def settingText : Option Setting -> Text
  | none => []
  | some setting => '=' :: (setting.before.1 ++ (setting.initializer.text ++ setting.after.1))

def text (member : Member) : Text :=
  member.before.1 ++ (member.key.text ++ (member.after.1 ++ settingText member.setting))

def IsBare (member : Member) : Prop :=
  member.setting = none

def IsWhole (member : Member) : Prop :=
  ∃ setting number, member.setting = some setting ∧ setting.initializer = .whole number

def IsQuoted (member : Member) : Prop :=
  ∃ setting quotation, member.setting = some setting ∧ setting.initializer = .quoted quotation

def IsComputed (member : Member) : Prop :=
  ∃ setting expression, member.setting = some setting ∧ setting.initializer = .computed expression

/-- The number of a member, given the number of a bare member in its place. -/
def number? (bare : Option Int) (member : Member) : Option Int :=
  match member.setting with
  | none => bare
  | some setting => setting.initializer.number?

end Member

/-! ## Numbering -/

/-- The number of a bare member at a place: the given one at the first place, anywhere else one more than
the number of the member before it. -/
def countFrom (first : Option Int) (members : List Member) : (place : Nat) -> Option Int
  | 0 => first
  | place + 1 =>
      (members[place]?.bind (·.number? (countFrom first members place))).map (· + 1)

/-- The value of a member at a place, as the object has it. -/
def valueFrom (first : Option Int) (members : List Member) (place : Nat) (member : Member) : Text :=
  match member.setting with
  | none => Text.ofInt ((countFrom first members place).getD 0)
  | some setting => setting.initializer.text

/-- The keys of members, each with its value. -/
def fieldsFrom (first : Option Int) (members : List Member) : List Dialect.EnumMember :=
  members.mapIdx fun place member => ⟨member.key.text, valueFrom first members place member⟩

/-- No member is computed, and no bare one comes behind a quoted one without a whole number in between. -/
structure IsLiteral (members : List Member) : Prop where
  notComputed : ∀ member ∈ members, ¬member.IsComputed
  counted : ∀ (place later : Nat) (quoted bare : Member), members[place]? = some quoted → quoted.IsQuoted →
    members[later]? = some bare → bare.IsBare → place < later →
      ∃ (between : Nat) (whole : Member), place < between ∧ between < later ∧
        members[between]? = some whole ∧ whole.IsWhole

/-- What may stand in front of the keyword of enumerations. -/
structure Lead where
  indentation : { text : Text // ∀ c ∈ text, Text.isIndent c = true }
  exported : Option Gap
  declared : Option Gap
  constant : Option Gap

/-- What comes before the braces. -/
structure Head extends Lead where
  gap : Gap
  name : Name
  spacing : Blanks

/-- A word and the blanks behind it, where it is given. -/
def wordBefore (word : Text) : Option Gap -> Text
  | none => []
  | some gap => word ++ gap.1

def Lead.keywords (lead : Lead) : Text :=
  wordBefore "export".toList lead.exported ++
    (wordBefore "declare".toList lead.declared ++ wordBefore "const".toList lead.constant)

/-- The name and the blanks behind it. -/
def Head.label (head : Head) : Text :=
  head.name.1 ++ head.spacing.1

def Head.text (head : Head) : Text :=
  head.indentation.1 ++ (head.keywords ++ ("enum".toList ++ (head.gap.1 ++ head.label)))

/-- The declaration of an enumeration, perhaps with an empty item behind its last member. -/
structure Declaration where
  head : Head
  members : List Member
  trailing : Option Blanks
  semicolon : Bool

namespace Declaration

/-- The items between the commas. -/
def items (declaration : Declaration) : List Text :=
  declaration.members.map Member.text ++ declaration.trailing.toList.map Subtype.val

def body (declaration : Declaration) : Text :=
  Text.join [','] declaration.items

def ending (declaration : Declaration) : Text :=
  if declaration.semicolon then [';'] else []

def text (declaration : Declaration) : Text :=
  declaration.head.text ++ ('\x7b' :: (declaration.body ++ '\x7d' :: declaration.ending))

/-- The statement that takes the place of a literal enumeration. -/
def object (declaration : Declaration) : Text :=
  declaration.head.indentation.1 ++ (if declaration.head.exported.isSome then "export ".toList else []) ++
    "const ".toList ++ declaration.head.name.1 ++ " = ".toList ++
    Dialect.frozenObject (fieldsFrom (some 0) declaration.members) ++ [';']

/-- The report of an enumeration that is not literal. -/
def report (declaration : Declaration) (line : Nat) : Diagnostic :=
  .warning .normalize "computed_enum"
    ("Enum ".toList ++ Diagnostic.named declaration.head.name.1 ++
      " has computed members and was left unchanged.".toList) line

end Declaration

/-! ## One member after another -/

/-- What a member is read as, given the number of a bare one, and the number of a bare one after it. -/
def Member.read? (bare : Option Int) (member : Member) : Option (Dialect.EnumMember × Option Int) :=
  match member.setting with
  | none => bare.map fun number => (⟨member.key.text, Text.ofInt number⟩, some (number + 1))
  | some setting =>
      match setting.initializer with
      | .whole number => some (⟨member.key.text, number.text⟩, some (number.value + 1))
      | .quoted quotation => some (⟨member.key.text, quotation.text⟩, none)
      | .computed _ => none

/-- The members in order, unless one of them is not read. -/
def readFrom? : Option Int -> List Member -> Option (List Dialect.EnumMember)
  | _, [] => some []
  | bare, member :: rest =>
      match member.read? bare with
      | none => none
      | some (field, after) => (readFrom? after rest).map (field :: ·)

/-- Whether a member has a value, given the number of a bare one in its place. -/
def Member.Fits (bare : Option Int) (member : Member) : Prop :=
  ¬member.IsComputed ∧ (member.IsBare → bare.isSome = true)

/-- Whether every member has a value. -/
def FitFrom (first : Option Int) (members : List Member) : Prop :=
  ∀ (place : Nat) (member : Member), members[place]? = some member →
    member.Fits (countFrom first members place)

variable {first : Option Int} {member : Member} {rest : List Member}

theorem countFrom_cons (place : Nat) :
    countFrom first (member :: rest) (place + 1) =
      countFrom ((member.number? first).map (· + 1)) rest place := by
  induction place with
  | zero => rfl
  | succ place inductionHypothesis =>
      rw [countFrom, inductionHypothesis, List.getElem?_cons_succ, countFrom]

theorem valueFrom_cons (place : Nat) (other : Member) :
    valueFrom first (member :: rest) (place + 1) other =
      valueFrom ((member.number? first).map (· + 1)) rest place other := by
  rw [valueFrom, valueFrom, countFrom_cons]

theorem fieldsFrom_cons :
    fieldsFrom first (member :: rest) =
      ⟨member.key.text, valueFrom first (member :: rest) 0 member⟩ ::
        fieldsFrom ((member.number? first).map (· + 1)) rest := by
  rw [fieldsFrom, List.mapIdx_cons, fieldsFrom]
  simp only [valueFrom_cons]

theorem fitFrom_cons_iff :
    FitFrom first (member :: rest) ↔
      member.Fits first ∧ FitFrom ((member.number? first).map (· + 1)) rest := by
  constructor
  · intro fit
    refine ⟨fit 0 member rfl, fun place other isThere => ?_⟩
    rw [← countFrom_cons]
    exact fit (place + 1) other (by rwa [List.getElem?_cons_succ])
  · rintro ⟨fits, fitRest⟩ place other isThere
    cases place with
    | zero =>
        obtain rfl := Option.some.inj isThere
        exact fits
    | succ place =>
        rw [countFrom_cons]
        exact fitRest place other (by rwa [List.getElem?_cons_succ] at isThere)

theorem read?_of_fits (fits : member.Fits first) :
    member.read? first = some (⟨member.key.text, valueFrom first (member :: rest) 0 member⟩,
      (member.number? first).map (· + 1)) := by
  rw [Member.read?, valueFrom, Member.number?]
  cases isSet : member.setting with
  | none =>
      obtain ⟨number, rfl⟩ := Option.isSome_iff_exists.mp (fits.2 isSet)
      rfl
  | some setting =>
      cases isInitializer : setting.initializer with
      | whole number => simp [isInitializer, Initializer.text, Initializer.number?]
      | quoted quotation => simp [isInitializer, Initializer.text, Initializer.number?]
      | computed expression => exact absurd ⟨setting, expression, isSet, isInitializer⟩ fits.1

theorem read?_of_not_fits (unfit : ¬member.Fits first) : member.read? first = none := by
  rw [Member.read?]
  cases isSet : member.setting with
  | none =>
      cases first with
      | none => rfl
      | some number =>
          refine absurd ⟨fun ⟨setting, _, isOther, _⟩ => ?_, fun _ => rfl⟩ unfit
          exact nomatch isSet.symm.trans isOther
  | some setting =>
      have notBare : ¬member.IsBare := fun isBare => nomatch isSet.symm.trans isBare
      cases isInitializer : setting.initializer with
      | computed expression => simp [isInitializer]
      | _ =>
          refine absurd ⟨?_, fun isBare => absurd isBare notBare⟩ unfit
          rintro ⟨other, expression, isOther, isExpression⟩
          obtain rfl := Option.some.inj (isSet.symm.trans isOther)
          exact nomatch isInitializer.symm.trans isExpression

/-- The members are read just if each has a value. -/
theorem readFrom?_of_fit {members : List Member} (fit : FitFrom first members) :
    readFrom? first members = some (fieldsFrom first members) := by
  induction members generalizing first with
  | nil => rfl
  | cons member rest inductionHypothesis =>
      obtain ⟨fits, fitRest⟩ := fitFrom_cons_iff.mp fit
      rw [readFrom?, @read?_of_fits _ _ rest fits, fieldsFrom_cons]
      simp only [inductionHypothesis fitRest, Option.map_some]

theorem readFrom?_of_not_fit {members : List Member} (unfit : ¬FitFrom first members) :
    readFrom? first members = none := by
  induction members generalizing first with
  | nil => exact absurd (fun place member isThere => nomatch isThere) unfit
  | cons member rest inductionHypothesis =>
      rw [readFrom?]
      by_cases fits : member.Fits first
      · have unfitRest := fun fitRest => unfit (fitFrom_cons_iff.mpr ⟨fits, fitRest⟩)
        rw [@read?_of_fits _ _ rest fits]
        simp only [inductionHypothesis unfitRest, Option.map_none]
      · rw [read?_of_not_fits fits]

/-! ## Literal enumerations -/

theorem Member.number?_of_isQuoted (isQuoted : member.IsQuoted) : member.number? first = none := by
  obtain ⟨setting, quotation, isSet, isInitializer⟩ := isQuoted
  rw [Member.number?, isSet]
  simp only [isInitializer, Initializer.number?]

theorem Member.not_isWhole_of_isBare (isBare : member.IsBare) : ¬member.IsWhole :=
  fun ⟨_, _, isSet, _⟩ => nomatch isSet.symm.trans isBare

/-- Counting stops at a member that is set to no number, or goes over one that is bare. -/
theorem Member.number?_eq_none_iff :
    member.number? first = none ↔
      (member.IsQuoted ∨ member.IsComputed) ∨ (member.IsBare ∧ first = none) := by
  cases isSet : member.setting with
  | none => simp [Member.number?, IsQuoted, IsComputed, IsBare, isSet]
  | some setting =>
      cases isInitializer : setting.initializer <;>
        simp [Member.number?, IsQuoted, IsComputed, IsBare, isSet, isInitializer, Initializer.number?]

/-- Behind a member that is no number nothing is counted until there is a whole one. -/
theorem countFrom_eq_none {members : List Member} {place earlier : Nat} {quoted : Member}
    (isThere : members[earlier]? = some quoted) (isQuoted : quoted.IsQuoted) (before : earlier < place)
    (noWhole : ∀ (between : Nat) (whole : Member), earlier < between → between < place →
      members[between]? = some whole → ¬whole.IsWhole) :
    countFrom first members place = none := by
  induction place with
  | zero => exact absurd before (Nat.not_lt_zero earlier)
  | succ place inductionHypothesis =>
      rw [countFrom, Option.map_eq_none_iff, Option.bind_eq_none_iff]
      intro member isMember
      rcases Nat.lt_succ_iff_lt_or_eq.mp before with isBefore | rfl
      · rw [inductionHypothesis isBefore fun between whole begins ends =>
          noWhole between whole begins (Nat.lt_succ_of_lt ends)]
        have notWhole := noWhole place member isBefore (Nat.lt_succ_self place) isMember
        rw [Member.number?]
        cases isSet : member.setting with
        | none => rfl
        | some setting =>
            cases isInitializer : setting.initializer with
            | whole number => exact absurd ⟨setting, number, isSet, isInitializer⟩ notWhole
            | _ => simp [isInitializer, Initializer.number?]
      · obtain rfl := Option.some.inj (isThere.symm.trans isMember)
        exact Member.number?_of_isQuoted isQuoted

/-- Where nothing is counted, there is such a member in front. -/
theorem exists_of_countFrom_eq_none {members : List Member} {place : Nat} (inside : place ≤ members.length)
    (stops : countFrom (some 0) members place = none) :
    ∃ (earlier : Nat) (other : Member), earlier < place ∧ members[earlier]? = some other ∧
      (other.IsQuoted ∨ other.IsComputed) ∧
      ∀ (between : Nat) (whole : Member), earlier < between → between < place →
        members[between]? = some whole → ¬whole.IsWhole := by
  induction place with
  | zero => exact nomatch stops
  | succ place inductionHypothesis =>
      have isThere : members[place]? = some members[place] := List.getElem?_eq_getElem inside
      rw [countFrom, Option.map_eq_none_iff, isThere, Option.bind_some] at stops
      rcases Member.number?_eq_none_iff.mp stops with noNumber | ⟨isBare, stopsBefore⟩
      · refine ⟨place, _, Nat.lt_succ_self place, isThere, noNumber, fun between _ begins ends => ?_⟩
        exact absurd ends (Nat.not_lt.mpr begins)
      · obtain ⟨earlier, other, before, isOther, noNumber, noWhole⟩ :=
          inductionHypothesis (Nat.le_of_succ_le inside) stopsBefore
        refine ⟨earlier, other, Nat.lt_succ_of_lt before, isOther, noNumber, ?_⟩
        intro between whole begins ends isBetween
        rcases Nat.lt_succ_iff_lt_or_eq.mp ends with endsBefore | rfl
        · exact noWhole between whole begins endsBefore isBetween
        · obtain rfl := Option.some.inj (isThere.symm.trans isBetween)
          exact Member.not_isWhole_of_isBare isBare

theorem fitFrom_iff_isLiteral {members : List Member} : FitFrom (some 0) members ↔ IsLiteral members := by
  constructor
  · intro fit
    refine ⟨?_, ?_⟩
    · intro member isMember
      obtain ⟨place, isThere⟩ := List.mem_iff_getElem?.mp isMember
      exact (fit place member isThere).1
    · intro place later quoted bare isThere isQuoted isLater isBare before
      by_contra none
      have stops := @countFrom_eq_none (some 0) members later place quoted isThere isQuoted before
        fun between whole begins ends isBetween isWhole =>
          none ⟨between, whole, begins, ends, isBetween, isWhole⟩
      have counts := (fit later bare isLater).2 isBare
      rw [stops] at counts
      contradiction
  · intro literal place member isThere
    refine ⟨literal.notComputed member (List.mem_of_getElem? isThere), fun isBare => ?_⟩
    by_contra stops
    have inside : place ≤ members.length := Nat.le_of_lt (List.getElem?_eq_some_iff.mp isThere).1
    obtain ⟨earlier, other, before, isOther, isQuoted | isComputed, noWhole⟩ :=
      exists_of_countFrom_eq_none inside (Option.not_isSome_iff_eq_none.mp stops)
    · obtain ⟨between, whole, begins, ends, isBetween, isWhole⟩ :=
        literal.counted earlier place other member isOther isQuoted isThere isBare before
      exact noWhole between whole begins ends isBetween isWhole
    · exact literal.notComputed other (List.mem_of_getElem? isOther) isComputed

theorem isSome_readFrom?_iff {members : List Member} :
    (readFrom? (some 0) members).isSome = true ↔ IsLiteral members := by
  rw [← fitFrom_iff_isLiteral]
  by_cases fit : FitFrom (some 0) members
  · simp [readFrom?_of_fit fit, fit]
  · simp [readFrom?_of_not_fit fit, fit]

instance (members : List Member) : Decidable (IsLiteral members) :=
  decidable_of_iff _ isSome_readFrom?_iff

end SceneBundler.Enumeration
