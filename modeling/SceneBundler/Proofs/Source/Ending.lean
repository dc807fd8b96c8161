import SceneBundler.Proofs.Source.Locality

/-!
Contract: the state that the reading of a source ends in.

Owns:
- that a stretch decided ahead of time lies within the text ahead, but for the character after a
  backslash;
- the regions in which a source can end, and those that are left after an empty line.

Does not own: what is read after that.
-/

namespace SceneBundler.Source

/-- Whether a region can be reached with so many characters still to read.  Only what follows a
backslash may be missing. -/
def Region.Fits : Region -> (room : Nat) -> Prop
  | code, _ => True
  | quoted quote, _ => isQuote quote = true
  | template, _ => True
  | lineComment, _ => True
  | blockComment, _ => True
  | held _ beyond resume, room =>
      (beyond < room ∧ resume.Fits (room - (beyond + 1))) ∨
        (beyond = 0 ∧ (resume = template ∨ ∃ quote, isQuote quote = true ∧ resume = quoted quote))

namespace Region

theorem fits_hold {visible : Bool} {count room : Nat} {resume : Region} (enough : count ≤ room)
    (after : resume.Fits (room - count)) : (hold visible count resume).Fits room := by
  cases count with
  | zero => exact after
  | succ beyond => exact Or.inl ⟨enough, after⟩

/-- One more character of a held stretch. -/
theorem fits_hold_of_held {visible : Bool} {beyond room : Nat} {resume : Region}
    (fits : (held visible beyond resume).Fits (room + 1)) :
    (hold visible beyond resume).Fits room := by
  rcases fits with ⟨inside, after⟩ | ⟨isLast, afterBackslash⟩
  · refine fits_hold (by omega) ?_
    rwa [show room - beyond = room + 1 - (beyond + 1) by omega]
  · subst isLast
    rcases afterBackslash with isTemplate | ⟨quote, isQuote, isQuoted⟩
    · exact isTemplate ▸ trivial
    · exact isQuoted ▸ isQuote

theorem fits_escape {visible : Bool} {room : Nat} {resume : Region}
    (literal : resume = template ∨ ∃ quote, isQuote quote = true ∧ resume = quoted quote) :
    (hold visible 1 resume).Fits room :=
  Or.inr ⟨rfl, literal⟩

end Region

/-! ## Stretches decided ahead -/

theorem regexLength?_lt {escaped inClass : Bool} {passed length : Nat} {text : Text}
    (found : regexLength? escaped inClass passed text = some length) :
    length < passed + text.length := by
  induction text generalizing escaped inClass passed with
  | nil => cases escaped <;> simp [regexLength?] at found
  | cons c rest inductionHypothesis =>
      have further {escaped inClass : Bool}
          (found : regexLength? escaped inClass (passed + 1) rest = some length) :
          length < passed + (c :: rest).length := by
        have bound := inductionHypothesis found
        simp only [List.length_cons]
        omega
      cases escaped with
      | true => exact further found
      | false =>
          rw [regexLength?] at found
          split at found
          next => contradiction
          next =>
            split at found
            next => exact further found
            next =>
              split at found
              next => exact further found
              next =>
                split at found
                next => exact further found
                next =>
                  split at found
                  next =>
                    obtain rfl := Option.some.inj found
                    simp
                  next => exact further found

theorem length_of_headStart? {ahead : Text} {start : HeadStart}
    (found : headStart? ahead = some start) : start.length ≤ ahead.length := by
  unfold headStart? at found
  dsimp only at found
  have fits : (if (ahead.head? == some '/') = true then 1 else 0) ≤ ahead.length := by
    cases ahead with
    | nil => simp
    | cons c rest => split <;> simp
  generalize (if (ahead.head? == some '/') = true then 1 else 0) = lead at found fits
  split at found
  next =>
    obtain rfl := Option.some.inj found
    exact fits
  next =>
    split at found
    next => contradiction
    next name isName =>
      split at found
      next => contradiction
      next =>
        split at found
        next => contradiction
        next =>
          obtain rfl := Option.some.inj found
          have nameFits := (TagName.prefix_of_read? isName).length_le
          rw [List.length_drop] at nameFits
          simp only
          omega

theorem pos_of_head? {ahead : Text} {mark : Char} (isFirst : (ahead.head? == some mark) = true) :
    1 ≤ ahead.length := by
  cases ahead with
  | nil => simp at isFirst
  | cons c rest => simp

namespace Reading

/-! ## One character -/

theorem fits_enterHead {reading : Reading} {ahead : Text} {start : HeadStart}
    (found : headStart? ahead = some start) :
    (reading.enterHead start).region.Fits ahead.length :=
  Region.fits_hold (length_of_headStart? found) trivial

theorem fits_readPlain {reading : Reading} (isCode : reading.region = .code) (c : Char)
    (ahead : Text) : (reading.readPlain c ahead).2.region.Fits ahead.length := by
  have staysCode : reading.region.Fits ahead.length := isCode ▸ trivial
  unfold readPlain
  split
  next => trivial
  next =>
    split
    next isComment =>
      simp only [Bool.and_eq_true] at isComment
      exact Region.fits_hold (pos_of_head? isComment.2) trivial
    next =>
      split
      next => trivial
      next =>
        split
        next => trivial
        next =>
          split
          next isString =>
            simp only [Bool.and_eq_true] at isString
            exact isString.1
          next =>
            split
            next =>
              split
              next length isRegex =>
                have inside := regexLength?_lt isRegex
                rw [Nat.zero_add] at inside
                exact Region.fits_hold (by omega) (Region.fits_hold (by omega) trivial)
              next => exact staysCode
            next =>
              split
              next =>
                split
                next start isHead => exact fits_enterHead isHead
                next => exact staysCode
              next =>
                split
                next => exact staysCode
                next =>
                  split
                  next => exact staysCode
                  next => exact staysCode

theorem region_leaveHead (reading : Reading) (selfClosing : Bool) :
    (reading.leaveHead selfClosing).region = reading.region := by
  unfold leaveHead
  split <;> rfl

theorem fits_readHead {reading : Reading} (isCode : reading.region = .code) (c : Char)
    (ahead : Text) : (reading.readHead c ahead).2.region.Fits ahead.length := by
  have staysCode : reading.region.Fits ahead.length := isCode ▸ trivial
  unfold readHead
  split
  next isString => exact isString
  next =>
    split
    next => exact (region_leaveHead reading false).symm ▸ staysCode
    next =>
      split
      next closes =>
        simp only [Bool.and_eq_true] at closes
        exact Region.fits_hold (pos_of_head? closes.2) trivial
      next =>
        split
        next =>
          refine fits_readPlain ?_ c ahead
          exact isCode
        next =>
          split
          next => exact staysCode
          next => exact staysCode

theorem fits_readText {reading : Reading} (isCode : reading.region = .code) (c : Char)
    (ahead : Text) : (reading.readText c ahead).2.region.Fits ahead.length := by
  have staysCode : reading.region.Fits ahead.length := isCode ▸ trivial
  unfold readText
  split
  next => exact staysCode
  next =>
    split
    next => exact staysCode
    next =>
      refine fits_readPlain ?_ c ahead
      exact isCode

theorem fits_readCode {reading : Reading} (isCode : reading.region = .code) (c : Char)
    (ahead : Text) : (reading.readCode c ahead).2.region.Fits ahead.length := by
  unfold readCode
  split
  next => exact fits_readHead isCode c ahead
  next =>
    split
    next =>
      unfold readElement
      split
      next =>
        split
        next start isHead => exact fits_enterHead isHead
        next => exact fits_readText isCode c ahead
      next => exact fits_readText isCode c ahead
    next => exact fits_readPlain isCode c ahead

theorem fits_read {reading : Reading} {c : Char} {ahead : Text}
    (fits : reading.region.Fits (ahead.length + 1)) :
    (reading.read c ahead).2.region.Fits ahead.length := by
  unfold read
  split
  next isCode => exact fits_readCode isCode c ahead
  next isHeld => exact Region.fits_hold_of_held (isHeld ▸ fits)
  next quote isQuoted =>
    rw [isQuoted] at fits
    split
    next => exact Region.fits_escape (Or.inr ⟨quote, fits, rfl⟩)
    next =>
      split
      next => trivial
      next =>
        split
        next => exact fits_readCode rfl c ahead
        next => exact isQuoted.symm ▸ fits
  next isTemplate =>
    split
    next => exact Region.fits_escape (Or.inl rfl)
    next =>
      split
      next => trivial
      next =>
        split
        next opens =>
          simp only [Bool.and_eq_true] at opens
          exact Region.fits_hold (pos_of_head? opens.2) trivial
        next => exact isTemplate.symm ▸ trivial
  next isComment =>
    split
    next => exact fits_readCode rfl c ahead
    next => exact isComment.symm ▸ trivial
  next isComment =>
    split
    next closes =>
      simp only [Bool.and_eq_true] at closes
      exact Region.fits_hold (pos_of_head? closes.2) trivial
    next => exact isComment.symm ▸ trivial

/-! ## A whole text -/

theorem fits_readAll {reading : Reading} {text : Text}
    (fits : reading.region.Fits text.length) : (reading.readAll text).region.Fits 0 := by
  induction text generalizing reading with
  | nil => exact fits
  | cons c rest inductionHypothesis => exact inductionHypothesis (fits_read fits)

end Reading

end SceneBundler.Source
