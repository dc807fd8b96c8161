import SceneBundler.Configuration
import SceneBundler.Proofs.Text.Blank

/-!
Contract: settings as they are read from variables.

Owns:
- when the origin is no address at all, and that only brackets and delimiters in disguise make it so;
- what an accepted origin, time bound and length look like;
- that the settings are as they should be, or refused with a fault that names the variable, except for an origin
  that is no address and a time bound that has no end or is not a number.

Does not own: what the settings are used for.
-/

namespace SceneBundler

/-! ## What settings should be -/

/-- Whether a value is a number above zero, and not an infinite one. -/
def Binary64.IsPositive : Binary64 -> Prop
  | .finite negative significand _ => negative = false ∧ 0 < significand
  | _ => False

/-- Whether a value has no end, or is no number. -/
def Binary64.IsUnbounded (value : Binary64) : Prop :=
  value = .notANumber ∨ value = .infinite false

/-- What is not zero or less is a positive number, or has no end, or is no number. -/
theorem Binary64.isPositive_iff {value : Binary64} (above : value.isAtMostZero = false) :
    value.IsPositive ↔ ¬ value.IsUnbounded := by
  cases value with
  | notANumber => exact iff_of_false id (not_not_intro (Or.inl rfl))
  | infinite negative =>
      obtain rfl : negative = false := above
      exact iff_of_false id (not_not_intro (Or.inr rfl))
  | finite negative significand exponent =>
      simp only [isAtMostZero, Bool.or_eq_false_iff, beq_eq_false_iff_ne] at above
      exact iff_of_true ⟨above.1, Nat.pos_of_ne_zero above.2⟩ (by simp [IsUnbounded])

/-- Whether a fault names the variable that it is about. -/
def ConfigurationFault.IsForeseen : ConfigurationFault -> Prop
  | .invalidAddress _ => False
  | _ => True

namespace Configuration

/-- Whether an origin is a scheme of the web with an authority, and nothing after it. -/
def IsOrigin (origin : Text) : Prop :=
  ∃ scheme authority, origin = scheme ++ authority ∧
    (scheme = "http://".toList ∨ scheme = "https://".toList) ∧
    authority ≠ [] ∧ '/' ∉ authority ∧ '?' ∉ authority ∧ '#' ∉ authority

/-- Settings as they should be. -/
structure IsValid (configuration : Configuration) : Prop where
  origin : IsOrigin configuration.origin
  timeout : configuration.timeout.IsPositive
  excerptLength : 0 < configuration.excerptLength

/-- Whether what comes of reading the settings is settings as they should be or a fault that is foreseen. -/
def IsValidated : Except ConfigurationFault Configuration -> Prop
  | .error fault => fault.IsForeseen
  | .ok configuration => configuration.IsValid

end Configuration

/-! ## Addresses -/

namespace Address

theorem authorityOf_subset (rest : Text) : authorityOf rest ⊆ rest := by
  rw [authorityOf.eq_def]
  split
  next behind =>
    have inBehind := (List.takeWhile_prefix (l := behind) fun c => !endsAuthority c).subset
    exact fun c member => List.mem_cons_of_mem _ (List.mem_cons_of_mem _ (inBehind member))
  next => exact List.nil_subset rest

theorem not_endsAuthority_of_mem {rest : Text} {c : Char} (member : c ∈ authorityOf rest) :
    endsAuthority c = false := by
  rw [authorityOf.eq_def] at member
  split at member
  next =>
    have goesOn := List.all_eq_true.mp List.all_takeWhile c member
    rwa [Bool.not_eq_true'] at goesOn
  next => exact absurd member List.not_mem_nil

theorem splitScheme_subset (text : Text) : (splitScheme text).2 ⊆ text := by
  rw [splitScheme]
  split
  next => exact List.drop_subset _ _
  next => exact List.Subset.refl _

theorem mem_of_authorityFault? {authority : Text} {fault : AddressFault}
    (isFault : authorityFault? authority = some fault) :
    ∃ c ∈ authority, c = '[' ∨ c = ']' ∨ disguises.contains c.toNat = true := by
  refine Classical.byContradiction fun plain => ?_
  have noBracket (c : Char) (isBracket : c = '[' ∨ c = ']') : authority.contains c = false := by
    rw [List.contains_eq_mem, decide_eq_false_iff_not]
    exact fun member => plain ⟨c, member, isBracket.elim Or.inl fun closes => Or.inr (Or.inl closes)⟩
  have noDisguise : hasDisguise authority = false :=
    List.any_eq_false.mpr fun c member isDisguise => plain ⟨c, member, Or.inr (Or.inr isDisguise)⟩
  rw [authorityFault?, noBracket '[' (Or.inl rfl), noBracket ']' (Or.inr rfl), noDisguise] at isFault
  contradiction

/-- Only a text with a bracket or with a delimiter in disguise is no address. -/
theorem mem_of_ofText_eq_error {text : Text} {fault : AddressFault} (isFault : ofText text = .error fault) :
    ∃ c ∈ text, c = '[' ∨ c = ']' ∨ disguises.contains c.toNat = true := by
  rw [ofText] at isFault
  dsimp only at isFault
  split at isFault
  next ofAuthority =>
    obtain ⟨c, member, isMark⟩ := mem_of_authorityFault? ofAuthority
    have inWritten := splitScheme_subset _ (authorityOf_subset _ member)
    exact ⟨c, (List.dropWhile_suffix _).subset (List.mem_filter.mp inWritten).1, isMark⟩
  next => contradiction

theorem authority_of_ofText {text : Text} {address : Address} (isAddress : ofText text = .ok address) {c : Char}
    (member : c ∈ address.authority) : endsAuthority c = false := by
  rw [ofText] at isAddress
  dsimp only at isAddress
  split at isAddress
  next => contradiction
  next =>
    obtain rfl := Except.ok.inj isAddress
    exact not_endsAuthority_of_mem member

end Address

/-! ## Settings one by one -/

namespace Configuration

/-- Whether the origin is set to something that is no address at all. -/
def HasNoAddress (environment : Variables) (fault : AddressFault) : Prop :=
  ∃ given, value? environment "SCENEPACK_SANDBOX_ORIGIN" = some given ∧
    Address.ofText (Text.trim given) = .error fault

variable {environment : Variables} {fault : AddressFault}

theorem originOf_eq_invalidAddress_iff {given : Text} :
    originOf given = .error (.invalidAddress fault) ↔ Address.ofText (Text.trim given) = .error fault := by
  rw [originOf]
  split
  next other isFault =>
    rw [isFault, Except.error.injEq, Except.error.injEq, ConfigurationFault.invalidAddress.injEq]
  next address isAddress =>
    rw [isAddress]
    split <;> exact iff_of_false nofun nofun

theorem timeoutOf_ne_invalidAddress (given : Text) : timeoutOf given ≠ .error (.invalidAddress fault) := by
  rw [timeoutOf]
  split
  next => exact nofun
  next => split <;> exact nofun

theorem excerptLengthOf_ne_invalidAddress (given : Text) :
    excerptLengthOf given ≠ .error (.invalidAddress fault) := by
  rw [excerptLengthOf]
  split
  next => exact nofun
  next => split <;> exact nofun

theorem setting_eq_error_iff {α : Type} {name : String} {read : Text -> Except ConfigurationFault α}
    {default : α} {fault : ConfigurationFault} :
    setting environment name read default = .error fault ↔
      ∃ given, value? environment name = some given ∧ read given = .error fault := by
  rw [setting]
  cases value? environment name with
  | none => simp
  | some given => simp

/-- The settings cannot be had for want of an address just where the origin is none. -/
theorem ofVariables_eq_invalidAddress_iff :
    ofVariables environment = .error (.invalidAddress fault) ↔ HasNoAddress environment fault := by
  have ofOrigin : HasNoAddress environment fault ↔
      setting environment "SCENEPACK_SANDBOX_ORIGIN" originOf standard.origin =
        .error (.invalidAddress fault) := by
    simp only [HasNoAddress, setting_eq_error_iff, originOf_eq_invalidAddress_iff]
  rw [ofOrigin, ofVariables]
  cases setting environment "SCENEPACK_SANDBOX_ORIGIN" originOf standard.origin with
  | error first =>
      change (Except.error first : Except ConfigurationFault Configuration) = _ ↔ _
      rw [Except.error.injEq, Except.error.injEq]
  | ok origin =>
      refine iff_of_false ?_ nofun
      cases isTimeout :
          setting environment "SCENEPACK_REQUEST_TIMEOUT_SECONDS" timeoutOf standard.timeout with
      | error second =>
          intro isInvalid
          obtain rfl : second = .invalidAddress fault := Except.error.inj isInvalid
          obtain ⟨given, -, isFault⟩ := setting_eq_error_iff.mp isTimeout
          exact timeoutOf_ne_invalidAddress given isFault
      | ok timeout =>
          cases isLength :
              setting environment "SCENEPACK_EXCERPT_LENGTH" excerptLengthOf standard.excerptLength with
          | error third =>
              intro isInvalid
              obtain rfl : third = .invalidAddress fault := Except.error.inj isInvalid
              obtain ⟨given, -, isFault⟩ := setting_eq_error_iff.mp isLength
              exact excerptLengthOf_ne_invalidAddress given isFault
          | ok length => exact nofun

theorem setting_eq_ok_iff {α : Type} {name : String} {read : Text -> Except ConfigurationFault α}
    {default value : α} :
    setting environment name read default = .ok value ↔
      (value? environment name = none ∧ value = default) ∨
        ∃ given, value? environment name = some given ∧ read given = .ok value := by
  rw [setting]
  cases value? environment name with
  | none => simp [eq_comm]
  | some given => simp

theorem isOrigin_of_originOf {given origin : Text} (accepted : originOf given = .ok origin) :
    IsOrigin origin := by
  rw [originOf] at accepted
  split at accepted
  next => contradiction
  next address isAddress =>
    split at accepted
    next isServed =>
      obtain rfl := Except.ok.inj accepted
      simp only [Bool.and_eq_true, List.contains_eq_mem, List.mem_cons, List.not_mem_nil, or_false,
        decide_eq_true_eq, Bool.not_eq_true', List.isEmpty_eq_false_iff] at isServed
      obtain ⟨isScheme, isSome⟩ := isServed
      have noEnd (c : Char) (ends : Address.endsAuthority c = true) : c ∉ address.authority := fun member =>
        Bool.false_ne_true ((Address.authority_of_ofText isAddress member).symm.trans ends)
      refine ⟨address.scheme ++ "://".toList, address.authority, rfl, ?_, isSome, noEnd _ rfl, noEnd _ rfl,
        noEnd _ rfl⟩
      rcases isScheme with isHttp | isHttps
      · exact Or.inl (by rw [isHttp]; rfl)
      · exact Or.inr (by rw [isHttps]; rfl)
    next => contradiction

theorem timeoutOf_eq_ok_iff {given : Text} {timeout : Binary64} :
    timeoutOf given = .ok timeout ↔
      Binary64.ofText? given = some timeout ∧ timeout.isAtMostZero = false := by
  rw [timeoutOf]
  cases Binary64.ofText? given with
  | none => simp
  | some value =>
      dsimp only
      split
      next isLow =>
        refine iff_of_false nofun ?_
        rintro ⟨same, isAbove⟩
        rw [← Option.some.inj same, isLow] at isAbove
        contradiction
      next isAbove =>
        simp only [Except.ok.injEq, Option.some.injEq]
        exact ⟨fun same => ⟨same, same ▸ Bool.eq_false_iff.mpr isAbove⟩, fun both => both.1⟩

theorem pos_of_excerptLengthOf {given : Text} {length : Int} (accepted : excerptLengthOf given = .ok length) :
    0 < length := by
  rw [excerptLengthOf] at accepted
  split at accepted
  next => contradiction
  next =>
    split at accepted
    next => contradiction
    next isAbove => exact Except.ok.inj accepted ▸ Int.not_le.mp isAbove

/-! ## All settings -/

/-- The settings can be had just if each of them can. -/
theorem ofVariables_eq_ok_iff {configuration : Configuration} :
    ofVariables environment = .ok configuration ↔
      setting environment "SCENEPACK_SANDBOX_ORIGIN" originOf standard.origin = .ok configuration.origin ∧
      setting environment "SCENEPACK_REQUEST_TIMEOUT_SECONDS" timeoutOf standard.timeout =
        .ok configuration.timeout ∧
      setting environment "SCENEPACK_EXCERPT_LENGTH" excerptLengthOf standard.excerptLength =
        .ok configuration.excerptLength ∧
      configuration.apiKey =
        (value? environment "SCENEPACK_SANDBOX_API_KEY").filter fun key => !key.isEmpty := by
  rw [ofVariables]
  obtain ⟨origin, key, timeout, length⟩ := configuration
  cases setting environment "SCENEPACK_SANDBOX_ORIGIN" originOf standard.origin with
  | error fault => exact iff_of_false nofun fun all => nomatch all.1
  | ok first =>
      cases setting environment "SCENEPACK_REQUEST_TIMEOUT_SECONDS" timeoutOf standard.timeout with
      | error fault => exact iff_of_false nofun fun all => nomatch all.2.1
      | ok second =>
          cases setting environment "SCENEPACK_EXCERPT_LENGTH" excerptLengthOf standard.excerptLength with
          | error fault => exact iff_of_false nofun fun all => nomatch all.2.2.1
          | ok third =>
              change Except.ok _ = Except.ok _ ↔ _
              simp only [Except.ok.injEq, mk.injEq]
              constructor
              · rintro ⟨isOrigin, isKey, isTimeout, isLength⟩
                exact ⟨isOrigin, isTimeout, isLength, isKey.symm⟩
              · rintro ⟨isOrigin, isTimeout, isLength, isKey⟩
                exact ⟨isOrigin, isKey.symm, isTimeout, isLength⟩

/-- Whether the bound on the time of a request is set to a value that has no end or is no number. -/
def HasUnboundedTimeout (environment : Variables) : Prop :=
  ∃ given timeout, value? environment "SCENEPACK_REQUEST_TIMEOUT_SECONDS" = some given ∧
    Binary64.ofText? given = some timeout ∧ timeout.IsUnbounded

section Accepted

variable {configuration : Configuration} (accepted : ofVariables environment = .ok configuration)
include accepted

theorem isOrigin_of_ofVariables : IsOrigin configuration.origin := by
  obtain ⟨ofOrigin, -⟩ := ofVariables_eq_ok_iff.mp accepted
  rcases setting_eq_ok_iff.mp ofOrigin with ⟨-, isDefault⟩ | ⟨given, -, isRead⟩
  · rw [isDefault]
    exact ⟨"https://".toList, "codesandbox.io".toList, rfl, Or.inr rfl, by decide, by decide, by decide,
      by decide⟩
  · exact isOrigin_of_originOf isRead

theorem pos_excerptLength_of_ofVariables : 0 < configuration.excerptLength := by
  obtain ⟨-, -, ofLength, -⟩ := ofVariables_eq_ok_iff.mp accepted
  rcases setting_eq_ok_iff.mp ofLength with ⟨-, isDefault⟩ | ⟨given, -, isRead⟩
  · rw [isDefault]
    decide
  · exact pos_of_excerptLengthOf isRead

/-- An accepted time bound is a positive number just if it is not set to one without an end or to no number. -/
theorem isPositive_timeout_iff : configuration.timeout.IsPositive ↔ ¬ HasUnboundedTimeout environment := by
  obtain ⟨-, ofTimeout, -⟩ := ofVariables_eq_ok_iff.mp accepted
  rcases setting_eq_ok_iff.mp ofTimeout with ⟨isUnset, isDefault⟩ | ⟨given, isSet, isRead⟩
  · rw [isDefault]
    refine iff_of_true ⟨rfl, by decide⟩ ?_
    rintro ⟨other, -, isSet, -⟩
    rw [isUnset] at isSet
    contradiction
  · obtain ⟨isValue, isAbove⟩ := timeoutOf_eq_ok_iff.mp isRead
    rw [Binary64.isPositive_iff isAbove]
    refine not_congr ⟨fun unbounded => ⟨given, _, isSet, isValue, unbounded⟩, ?_⟩
    rintro ⟨other, timeout, isSetToo, isValueToo, unbounded⟩
    obtain rfl := Option.some.inj (isSet.symm.trans isSetToo)
    obtain rfl := Option.some.inj (isValue.symm.trans isValueToo)
    exact unbounded

end Accepted

/-- Where the origin is no address, a bracket or a delimiter in disguise stands in it. -/
theorem HasNoAddress.exists_mem (broken : HasNoAddress environment fault) :
    ∃ given, value? environment "SCENEPACK_SANDBOX_ORIGIN" = some given ∧
      ∃ c ∈ given, c = '[' ∨ c = ']' ∨ Address.disguises.contains c.toNat = true := by
  obtain ⟨given, isSet, isFault⟩ := broken
  obtain ⟨c, member, isMark⟩ := Address.mem_of_ofText_eq_error isFault
  obtain ⟨before, after, -, -, split⟩ := Text.exists_blanks_trim given
  have isThere : c ∈ given := by
    rw [split]
    exact List.mem_append_right _ (List.mem_append_left _ member)
  exact ⟨given, isSet, c, isThere, isMark⟩

/-- A refusal is not foreseen just where the origin is no address. -/
theorem not_isForeseen_iff {refusal : ConfigurationFault} (refused : ofVariables environment = .error refusal) :
    ¬ refusal.IsForeseen ↔ ∃ broken, HasNoAddress environment broken := by
  simp only [← ofVariables_eq_invalidAddress_iff, refused]
  cases refusal with
  | invalidAddress broken => exact iff_of_true id ⟨broken, rfl⟩
  | invalidOrigin | timeoutNotNumber | timeoutNotPositive | excerptNotInteger | excerptNotPositive =>
      exact iff_of_false (not_not_intro trivial) (by simp)

theorem isValidated_iff (environment : Variables) :
    IsValidated (ofVariables environment) ↔
      (∀ fault, ¬ HasNoAddress environment fault) ∧
        ¬ (HasUnboundedTimeout environment ∧ ∃ configuration, ofVariables environment = .ok configuration) := by
  cases isResult : ofVariables environment with
  | error refusal =>
      rw [← not_exists, ← not_isForeseen_iff isResult, Classical.not_not]
      exact ⟨fun foreseen => ⟨foreseen, by simp⟩, fun both => both.1⟩
  | ok configuration =>
      have hasAddress (fault : AddressFault) : ¬ HasNoAddress environment fault := by
        rw [← ofVariables_eq_invalidAddress_iff, isResult]
        exact nofun
      have timed := isPositive_timeout_iff isResult
      constructor
      · intro valid
        exact ⟨hasAddress, fun unbounded => timed.mp valid.timeout unbounded.1⟩
      · rintro ⟨-, bounded⟩
        exact ⟨isOrigin_of_ofVariables isResult, timed.mpr fun unbounded => bounded ⟨unbounded, _, rfl⟩,
          pos_excerptLength_of_ofVariables isResult⟩

/-- What can be said of the settings that variables hold: when they are as they should be or refused with a
fault that is foreseen, what is sure of them whenever they are accepted, and when they are refused in another
way. -/
structure IsChecked (environment : Variables) : Prop where
  validated :
    IsValidated (ofVariables environment) ↔
      (∀ fault, ¬ HasNoAddress environment fault) ∧
        ¬ (HasUnboundedTimeout environment ∧ ∃ configuration, ofVariables environment = .ok configuration)
  accepted (configuration : Configuration) :
    ofVariables environment = .ok configuration →
      IsOrigin configuration.origin ∧ 0 < configuration.excerptLength ∧
        (configuration.timeout.IsPositive ↔ ¬ HasUnboundedTimeout environment)
  refused (fault : ConfigurationFault) :
    ofVariables environment = .error fault →
      (¬ fault.IsForeseen ↔ ∃ broken, HasNoAddress environment broken)
  marked (fault : AddressFault) :
    HasNoAddress environment fault →
      ∃ given, value? environment "SCENEPACK_SANDBOX_ORIGIN" = some given ∧
        ∃ c ∈ given, c = '[' ∨ c = ']' ∨ Address.disguises.contains c.toNat = true

/-- Whatever the variables hold, the settings are as they should be or refused with a fault that names the
variable, except just where the origin is no address, or where a time bound without an end or of no number is
accepted. -/
theorem ofVariables_isChecked (environment : Variables) : IsChecked environment where
  validated := isValidated_iff environment
  accepted _ accepted :=
    ⟨isOrigin_of_ofVariables accepted, pos_excerptLength_of_ofVariables accepted,
      isPositive_timeout_iff accepted⟩
  refused _ refused := not_isForeseen_iff refused
  marked _ broken := broken.exists_mem

/-- A bracket makes the origin no address, and a time bound of no number is accepted. -/
theorem not_isValidated_bracket_or_nan :
    ¬ IsValidated (ofVariables [("SCENEPACK_SANDBOX_ORIGIN".toList, "http://[".toList)]) ∧
      ¬ IsValidated (ofVariables [("SCENEPACK_REQUEST_TIMEOUT_SECONDS".toList, "nan".toList)]) := by
  have noAddress : ofVariables [("SCENEPACK_SANDBOX_ORIGIN".toList, "http://[".toList)] =
      .error (.invalidAddress .misplacedBracket) := by decide +kernel
  have noNumber : ofVariables [("SCENEPACK_REQUEST_TIMEOUT_SECONDS".toList, "nan".toList)] =
      .ok { standard with timeout := .notANumber } := by decide +kernel
  rw [noAddress, noNumber]
  exact ⟨id, fun valid => valid.timeout⟩

end Configuration

end SceneBundler
