import SceneBundler.Proofs.Source.View
import SceneBundler.Proofs.Source.Written

/-!
Contract: the masked view of code without literals, comments and braces.

Owns:
- the states in which such code is read, and what one character does in them;
- that a character is blanked only behind the `>` of a tag head, up to where something is shown again;
- that the view of such code is the code itself through its first `>`;
- that a stretch of the view without a `>`, which begins with what nothing hidden ends at, stands in the
  code as it is shown.

Does not own: what is looked for in the view.
-/

namespace SceneBundler.Source

/-- A character that opens no literal and no comment, and is no brace. -/
def isFlat (c : Char) : Bool :=
  !opensLiteral c && c != '\x7b' && c != '\x7d'

/-- A character that can be shown between the tags of an element. -/
def endsHidden (c : Char) : Bool :=
  "<);".toList.contains c

namespace Reading

variable {reading next : Reading} {c : Char} {visible : Bool} {ahead text : Text}

/-- Reading code outside literals, comments and braces. -/
structure IsFlat (reading : Reading) : Prop where
  region : reading.region = .code ∨
    (∃ beyond, reading.region = .held true beyond .code) ∧ reading.heads ≠ []
  level : reading.depth = 0
  heads : ∀ frame ∈ reading.heads, frame.depth = 0
  elements : ∀ frame ∈ reading.elements, frame.depth = 0

/-- Whether the next character of such code is shown, whatever it is. -/
def Shows (reading : Reading) : Prop :=
  reading.heads ≠ [] ∨ reading.elements = []

theorem isFlat_initial : initial.IsFlat where
  region := Or.inl rfl
  level := rfl
  heads := nofun
  elements := nofun

theorem shows_initial : initial.Shows :=
  Or.inr rfl

/-! ## One character -/

/-- What a character of such code can do: whether it is shown, and the state behind it. -/
inductive FlatStep (reading : Reading) (c : Char) : Bool -> Reading -> Prop where
  | hold (beyond : Nat) (inHead : reading.heads ≠ []) :
      FlatStep reading c true { reading with region := .hold true beyond .code }
  | leave (isCode : reading.region = .code) (inHead : reading.heads ≠ []) (isEnd : c = '>') :
      FlatStep reading c true (reading.leaveHead false)
  | stay (shows : reading.Shows) : FlatStep reading c true reading
  | enter (start : HeadStart) (isLess : c = '<') : FlatStep reading c true (reading.enterHead start)
  | hide (hides : ¬reading.Shows) : FlatStep reading c false reading
  | escape (isMark : c = ')' ∨ c = ';') :
      FlatStep reading c true { reading with elements := [] }

theorem ne_of_isFlat (flat : Source.isFlat c = true) :
    c ≠ '/' ∧ c ≠ '\x27' ∧ c ≠ '\x22' ∧ c ≠ '\x60' ∧ c ≠ '\x7b' ∧ c ≠ '\x7d' := by
  have marks : "/'\"\x60".toList = ['/', '\x27', '\x22', '\x60'] := rfl
  simp only [Source.isFlat, opensLiteral, marks, Bool.and_eq_true, Bool.not_eq_true', bne_iff_ne,
    List.contains_eq_mem, decide_eq_false_iff_not, List.mem_cons, List.not_mem_nil, or_false,
    not_or] at flat
  obtain ⟨⟨⟨notSlash, notSingle, notDouble, notTick⟩, notOpen⟩, notClose⟩ := flat
  exact ⟨notSlash, notSingle, notDouble, notTick, notOpen, notClose⟩

theorem readPlain_of_isFlat (flat : Source.isFlat c = true) (reading : Reading) (ahead : Text) :
    reading.readPlain c ahead = (true, reading) ∨
      ∃ start, c = '<' ∧ reading.readPlain c ahead = (true, reading.enterHead start) := by
  obtain ⟨notSlash, notSingle, notDouble, notTick, notOpen, notClose⟩ := ne_of_isFlat flat
  by_cases opens : c = '<' ∧ expectsOperand reading.window = true
  · obtain ⟨rfl, expects⟩ := opens
    cases isStart : headStart? ahead with
    | none => simp [readPlain, isQuote, expects, isStart]
    | some start => exact Or.inr ⟨start, rfl, by simp [readPlain, isQuote, expects, isStart]⟩
  · refine Or.inl ?_
    have noHead : (c = '<' && expectsOperand reading.window) = false := by simpa using opens
    simp [readPlain, isQuote, notSlash, notSingle, notDouble, notTick, notOpen, notClose, noHead]

theorem IsFlat.inHead_iff (isFlat : reading.IsFlat) : reading.inHead = true ↔ reading.heads ≠ [] := by
  cases isHeads : reading.heads with
  | nil => simp [Reading.inHead, isHeads]
  | cons frame outer =>
      have level := isFlat.heads frame (isHeads ▸ List.mem_cons_self)
      simp [Reading.inHead, isHeads, level, isFlat.level]

theorem IsFlat.inElement_iff (isFlat : reading.IsFlat) : reading.inElement = true ↔ reading.elements ≠ [] := by
  cases isElements : reading.elements with
  | nil => simp [Reading.inElement, isElements]
  | cons frame outer =>
      have level := isFlat.elements frame (isElements ▸ List.mem_cons_self)
      simp [Reading.inElement, isElements, level, isFlat.level]

theorem flatStep_readPlain (shows : reading.Shows) (flat : Source.isFlat c = true) (ahead : Text) :
    FlatStep reading c (reading.readPlain c ahead).1 (reading.readPlain c ahead).2 := by
  rcases readPlain_of_isFlat flat reading ahead with same | ⟨start, isLess, same⟩
  · rw [same]
    exact .stay shows
  · rw [same]
    exact .enter start isLess

theorem flatStep_readText (isFlat : reading.IsFlat) (hides : ¬reading.Shows) (flat : Source.isFlat c = true)
    (ahead : Text) : FlatStep reading c (reading.readText c ahead).1 (reading.readText c ahead).2 := by
  obtain ⟨-, -, -, -, notOpen, notClose⟩ := ne_of_isFlat flat
  by_cases leaves : reading.leavesMarkup c = true
  · have isMark : c = ')' ∨ c = ';' := by
      simp only [leavesMarkup, Bool.and_eq_true, Bool.or_eq_true, beq_iff_eq] at leaves
      exact leaves.1
    have emptied : reading.elements.dropWhile (fun frame => frame.depth == reading.depth) = [] :=
      List.dropWhile_eq_nil_iff.mpr fun frame member => by
        rw [isFlat.elements frame member, isFlat.level]
        rfl
    have plain := readPlain_of_isFlat flat { reading with elements := [] } ahead
    have shown : ({ reading with elements := [] } : Reading).readPlain c ahead =
        (true, { reading with elements := [] }) := by
      refine plain.resolve_right ?_
      rintro ⟨_, rfl, _⟩
      exact absurd isMark (by decide)
    rw [readText, if_neg notOpen, if_neg (by simp [leaves]), emptied, shown]
    exact .escape isMark
  · have hidden : reading.readText c ahead = (false, reading) := by
      rw [readText, if_neg notOpen, if_pos (by simp [leaves, notClose])]
    rw [hidden]
    exact .hide hides

theorem flatStep_readElement (isFlat : reading.IsFlat) (hides : ¬reading.Shows) (flat : Source.isFlat c = true)
    (ahead : Text) : FlatStep reading c (reading.readElement c ahead).1 (reading.readElement c ahead).2 := by
  rw [readElement]
  split
  next isLess =>
    split
    next start _ => exact .enter start isLess
    next => exact flatStep_readText isFlat hides flat ahead
  next => exact flatStep_readText isFlat hides flat ahead

theorem flatStep_readHead (isCode : reading.region = .code) (inHead : reading.heads ≠ [])
    (flat : Source.isFlat c = true) (ahead : Text) :
    FlatStep reading c (reading.readHead c ahead).1 (reading.readHead c ahead).2 := by
  obtain ⟨notSlash, notSingle, notDouble, notTick, notOpen, notClose⟩ := ne_of_isFlat flat
  by_cases isEnd : c = '>'
  · have left : reading.readHead c ahead = (true, reading.leaveHead false) := by
      simp [readHead, isEnd, isQuote]
    rw [left]
    exact .leave isCode inHead isEnd
  · have stays : reading.readHead c ahead = (true, reading) := by
      simp [readHead, isEnd, isQuote, notSlash, notSingle, notDouble, notOpen, notClose]
    rw [stays]
    exact .stay (Or.inl inHead)

theorem flatStep_readCode (isFlat : reading.IsFlat) (isCode : reading.region = .code)
    (flat : Source.isFlat c = true) (ahead : Text) :
    FlatStep reading c (reading.readCode c ahead).1 (reading.readCode c ahead).2 := by
  rw [readCode]
  split
  next within => exact flatStep_readHead isCode (isFlat.inHead_iff.mp within) flat ahead
  next outside =>
    have noHead := mt isFlat.inHead_iff.mpr outside
    split
    next within =>
      have hides : ¬reading.Shows := fun shows => shows.elim noHead (isFlat.inElement_iff.mp within)
      exact flatStep_readElement isFlat hides flat ahead
    next outside =>
      have noElement := Classical.not_not.mp (mt isFlat.inElement_iff.mpr outside)
      exact flatStep_readPlain (Or.inr noElement) flat ahead

theorem flatStep_read (isFlat : reading.IsFlat) (flat : Source.isFlat c = true) (ahead : Text) :
    FlatStep reading c (reading.read c ahead).1 (reading.read c ahead).2 := by
  rcases isFlat.region with isCode | ⟨⟨beyond, isHeld⟩, inHead⟩
  · have read : reading.read c ahead = reading.readCode c ahead := by rw [Reading.read, isCode]
    rw [read]
    exact flatStep_readCode isFlat isCode flat ahead
  · have held : reading.read c ahead = (true, { reading with region := .hold true beyond .code }) := by
      rw [Reading.read, isHeld]
    rw [held]
    exact .hold beyond inHead

theorem subset_of_outsideNamed? {closer : Frame} {frames left : List Frame}
    (isOutside : outsideNamed? closer frames = some left) : left ⊆ frames := by
  induction frames with
  | nil => contradiction
  | cons frame outer inductionHypothesis =>
      rw [outsideNamed?] at isOutside
      split at isOutside
      · contradiction
      · split at isOutside
        · rw [← Option.some.inj isOutside]
          exact List.subset_cons_of_subset frame (List.Subset.refl outer)
        · exact List.subset_cons_of_subset frame (inductionHypothesis isOutside)

namespace FlatStep

theorem isFlat (step : FlatStep reading c visible next) (flat : reading.IsFlat) : next.IsFlat := by
  obtain ⟨region, level, heads, elements⟩ := flat
  cases step with
  | hold beyond inHead =>
      refine ⟨?_, level, heads, elements⟩
      cases beyond with
      | zero => exact Or.inl rfl
      | succ beyond => exact Or.inr ⟨⟨beyond, rfl⟩, inHead⟩
  | leave isCode inHead isEnd =>
      rw [leaveHead]
      split
      next isOutside => exact ⟨Or.inl isCode, level, heads, elements⟩
      next head outer isTop =>
        have outside : ∀ frame ∈ outer, frame.depth = 0 := fun frame member =>
          heads frame (isTop ▸ List.mem_cons_of_mem head member)
        refine ⟨Or.inl isCode, level, outside, ?_⟩
        have among : ∀ frame ∈ if head.closing then (outsideNamed? head reading.elements).getD reading.elements
            else head :: reading.elements, frame ∈ head :: reading.elements := by
          intro frame member
          split at member
          · refine List.mem_cons_of_mem head ?_
            cases isOutside : outsideNamed? head reading.elements with
            | none => rwa [isOutside] at member
            | some left =>
                rw [isOutside] at member
                exact subset_of_outsideNamed? isOutside member
          · exact member
        intro frame member
        rcases List.mem_cons.mp (among frame member) with rfl | isElement
        · exact heads frame (isTop ▸ List.mem_cons_self)
        · exact elements frame isElement
  | stay shows => exact ⟨region, level, heads, elements⟩
  | enter start isLess =>
      refine ⟨?_, level, ?_, elements⟩
      · cases isLength : start.length with
        | zero => exact Or.inl (by simp [enterHead, isLength, Region.hold])
        | succ beyond =>
            exact Or.inr ⟨⟨beyond, by simp [enterHead, isLength, Region.hold]⟩, List.cons_ne_nil _ _⟩
      · intro frame member
        rcases List.mem_cons.mp member with rfl | isOuter
        · exact level
        · exact heads frame isOuter
  | hide hides => exact ⟨region, level, heads, elements⟩
  | escape isMark => exact ⟨region, level, heads, nofun⟩

/-- Where characters are shown, so is the next one, and they go on being shown in front of a `>`. -/
theorem visible_of_shows (step : FlatStep reading c visible next) (shows : reading.Shows) :
    visible = true ∧ (c ≠ '>' → next.Shows) := by
  cases step with
  | hold beyond inHead => exact ⟨rfl, fun _ => Or.inl inHead⟩
  | leave isCode inHead isEnd => exact ⟨rfl, fun other => absurd isEnd other⟩
  | stay _ => exact ⟨rfl, fun _ => shows⟩
  | enter start isLess => exact ⟨rfl, fun _ => Or.inl (List.cons_ne_nil _ _)⟩
  | hide hides => exact absurd shows hides
  | escape isMark => exact ⟨rfl, fun _ => Or.inr rfl⟩

/-- Where characters are hidden, only one that ends what is hidden is shown. -/
theorem hidden_of_not_shows (step : FlatStep reading c visible next) (hides : ¬reading.Shows)
    (ends : endsHidden c = false) : visible = false := by
  have notMark (mark : Char) (isMark : endsHidden mark = true) : c ≠ mark := by
    rintro rfl
    rw [isMark] at ends
    contradiction
  cases step with
  | hold beyond inHead => exact absurd (Or.inl inHead) hides
  | leave isCode inHead isEnd => exact absurd (Or.inl inHead) hides
  | stay shows => exact absurd shows hides
  | enter start isLess => exact absurd isLess (notMark '<' (by decide))
  | hide _ => rfl
  | escape isMark =>
      rcases isMark with isMark | isMark
      · exact absurd isMark (notMark ')' (by decide))
      · exact absurd isMark (notMark ';' (by decide))

/-- Behind a hidden character the next one is shown only if it was hidden where all is shown. -/
theorem not_shows_of_hidden (step : FlatStep reading c false next) : ¬next.Shows := by
  cases step with
  | hide hides => exact hides

end FlatStep

/-! ## Stretches -/

theorem isFlat_advance (isFlat : reading.IsFlat) (flat : Source.isFlat c = true) (ahead : Text) :
    (reading.advance c ahead).IsFlat := by
  obtain ⟨region, level, heads, elements⟩ := (flatStep_read isFlat flat ahead).isFlat isFlat
  exact ⟨region, level, heads, elements⟩

theorem isFlat_readBefore (isFlat : reading.IsFlat) (flat : ∀ c ∈ text, Source.isFlat c = true)
    (following : Text) : (reading.readBefore following text).IsFlat := by
  induction text generalizing reading with
  | nil => exact isFlat
  | cons c rest inductionHypothesis =>
      obtain ⟨flatHere, flatRest⟩ := List.forall_mem_cons.mp flat
      exact inductionHypothesis (isFlat_advance isFlat flatHere _) flatRest

/-- Where characters are shown, a text is shown as it is through its first `>`. -/
theorem view_append_of_shows {word rest : Text} (isFlat : reading.IsFlat) (shows : reading.Shows)
    (flat : ∀ c ∈ word, Source.isFlat c = true) (noEnd : '>' ∉ word) :
    ∃ next : Reading, next.IsFlat ∧ next.Shows ∧ reading.view (word ++ rest) = word ++ next.view rest := by
  induction word generalizing reading with
  | nil => exact ⟨reading, isFlat, shows, rfl⟩
  | cons c word inductionHypothesis =>
      obtain ⟨flatHere, flatWord⟩ := List.forall_mem_cons.mp flat
      obtain ⟨notEnd, noEndWord⟩ := List.ne_and_not_mem_of_not_mem_cons noEnd
      obtain ⟨visible, goesOn⟩ := (flatStep_read isFlat flatHere (word ++ rest)).visible_of_shows shows
      obtain ⟨next, isFlatNext, showsNext, view⟩ := inductionHypothesis
        (isFlat_advance isFlat flatHere (word ++ rest)) (goesOn notEnd.symm) flatWord noEndWord
      refine ⟨next, isFlatNext, showsNext, ?_⟩
      rw [List.cons_append, Reading.view, visible, view]
      rfl

/-- Where characters are shown, what is shown without a `>` stands in the text as it is. -/
theorem exists_append_of_view {word : Text} (isFlat : reading.IsFlat) (shows : reading.Shows)
    (flat : ∀ c ∈ text, Source.isFlat c = true) (noEnd : '>' ∉ word)
    (split : reading.view text = word ++ ahead) :
    ∃ rest, ∃ next : Reading, text = word ++ rest ∧ next.IsFlat ∧ next.Shows ∧ next.view rest = ahead := by
  induction word generalizing reading text with
  | nil => exact ⟨text, reading, rfl, isFlat, shows, split⟩
  | cons c word inductionHypothesis =>
      cases text with
      | nil => exact absurd split (List.cons_ne_nil _ _).symm
      | cons d rest =>
          obtain ⟨flatHere, flatRest⟩ := List.forall_mem_cons.mp flat
          obtain ⟨notEnd, noEndWord⟩ := List.ne_and_not_mem_of_not_mem_cons noEnd
          obtain ⟨visible, goesOn⟩ := (flatStep_read isFlat flatHere rest).visible_of_shows shows
          rw [Reading.view, visible] at split
          obtain ⟨same, splitRest⟩ := List.cons.inj split
          obtain rfl : d = c := same
          obtain ⟨others, next, rfl, isFlatNext, showsNext, view⟩ := inductionHypothesis
            (isFlat_advance isFlat flatHere rest) (goesOn notEnd.symm) flatRest noEndWord splitRest
          exact ⟨others, next, rfl, isFlatNext, showsNext, view⟩

/-- Where characters are shown, the first one is the first one of the text. -/
theorem exists_cons_of_view (isFlat : reading.IsFlat) (shows : reading.Shows)
    (flat : ∀ c ∈ text, Source.isFlat c = true) (split : reading.view text = c :: ahead) :
    ∃ rest, text = c :: rest := by
  cases text with
  | nil => exact absurd split (List.cons_ne_nil _ _).symm
  | cons d rest =>
      have visible := ((flatStep_read isFlat (flat d List.mem_cons_self) rest).visible_of_shows shows).1
      rw [Reading.view, visible] at split
      obtain rfl : d = c := (List.cons.inj split).1
      exact ⟨rest, rfl⟩

/-- Where characters are hidden, none is shown before one that ends what is hidden. -/
theorem view_ne_of_not_shows {lead : Text} (isFlat : reading.IsFlat) (hides : ¬reading.Shows)
    (flat : ∀ c ∈ text, Source.isFlat c = true) (quiet : ∀ d ∈ lead ++ [c], endsHidden d = false)
    (isMark : Character.isBlank c = false) : reading.view text ≠ lead ++ c :: ahead := by
  have isHidden {d e : Char} {rest beyond : Text} (flatHere : Source.isFlat d = true)
      {reading : Reading} (isFlat : reading.IsFlat) (hides : ¬reading.Shows) (quiet : endsHidden e = false)
      (split : reading.view (d :: rest) = e :: beyond) :
      (reading.read d rest).1 = false ∧ Reading.shown false d = e ∧
        (reading.advance d rest).view rest = beyond := by
    obtain ⟨same, splitRest⟩ := List.cons.inj split
    have hidden : (reading.read d rest).1 = false := by
      by_contra isShown
      rw [Bool.not_eq_false] at isShown
      rw [isShown] at same
      obtain rfl : d = e := same
      have hidden := (flatStep_read isFlat flatHere rest).hidden_of_not_shows hides quiet
      rw [isShown] at hidden
      contradiction
    rw [hidden] at same
    exact ⟨hidden, same, splitRest⟩
  intro split
  induction lead generalizing reading text with
  | nil =>
      cases text with
      | nil => exact absurd split (List.cons_ne_nil _ _).symm
      | cons d rest =>
          obtain ⟨_, isShown, _⟩ := isHidden (flat d List.mem_cons_self) isFlat hides
            (quiet c (by simp)) split
          rw [← isShown, Reading.shown] at isMark
          split at isMark
          next isBreak =>
            have same : d = '\n' := by simpa using isBreak
            rw [same] at isMark
            exact absurd isMark (by decide)
          next => exact absurd isMark (by decide)
  | cons e lead inductionHypothesis =>
      cases text with
      | nil => exact absurd split (List.cons_ne_nil _ _).symm
      | cons d rest =>
          obtain ⟨flatHere, flatRest⟩ := List.forall_mem_cons.mp flat
          obtain ⟨quietHere, quietLead⟩ := List.forall_mem_cons.mp quiet
          obtain ⟨hidden, _, splitRest⟩ := isHidden flatHere isFlat hides quietHere split
          have step := flatStep_read isFlat flatHere rest
          rw [hidden] at step
          exact inductionHypothesis (isFlat_advance isFlat flatHere rest) step.not_shows_of_hidden flatRest
            quietLead splitRest

/-- Where the next character is shown, so was the last one. -/
theorem getLast?_viewBefore {following : Text} (isFlat : reading.IsFlat)
    (flat : ∀ c ∈ text, Source.isFlat c = true) (shows : (reading.readBefore following text).Shows) :
    (reading.viewBefore following text).getLast? = text.getLast? := by
  rcases List.eq_nil_or_concat text with rfl | ⟨earlier, last, rfl⟩
  · rfl
  · have flatEarlier : ∀ c ∈ earlier, Source.isFlat c = true := fun c member =>
      flat c (by simp [member])
    have isFlatThere := isFlat_readBefore isFlat flatEarlier ([last] ++ following)
    have step := flatStep_read isFlatThere (flat last (by simp)) ([] ++ following)
    rw [List.concat_eq_append] at shows ⊢
    rw [readBefore_append] at shows
    have visible : ((reading.readBefore ([last] ++ following) earlier).read last ([] ++ following)).1 = true := by
      by_contra hidden
      rw [Bool.not_eq_true] at hidden
      rw [hidden] at step
      exact step.not_shows_of_hidden shows
    rw [viewBefore_append, viewBefore, viewBefore, visible, List.getLast?_concat, List.getLast?_concat]
    rfl

end Reading

/-! ## The view -/

variable {text passed lead tail ahead : Text} {c : Char}

/-- A stretch of the view without a `>`, whose first character that is not blank cannot stand behind
hidden ones, stands in the text as it is shown, and behind the same character. -/
theorem exists_stretch_of_mask (flat : ∀ c ∈ text, isFlat c = true)
    (split : mask text = passed ++ (lead ++ c :: tail ++ ahead)) (noEnd : '>' ∉ lead ++ c :: tail)
    (quiet : ∀ d ∈ lead ++ [c], endsHidden d = false) (isMark : Character.isBlank c = false) :
    ∃ before after, ∃ next : Reading, text = before ++ (lead ++ c :: tail ++ after) ∧
      before.length = passed.length ∧ before.getLast? = passed.getLast? ∧
        next.IsFlat ∧ next.Shows ∧ next.view after = ahead := by
  have bound : passed.length ≤ text.length := by
    rw [← length_mask text, split, List.length_append]
    exact Nat.le_add_right _ _
  have isLength : (text.take passed.length).length = passed.length := by
    rw [List.length_take]
    exact Nat.min_eq_left bound
  have isWhole := List.take_append_drop passed.length text
  generalize text.take passed.length = before at isLength isWhole
  generalize text.drop passed.length = rest at isWhole
  subst isWhole
  obtain ⟨flatBefore, flatRest⟩ := List.forall_mem_append.mp flat
  rw [mask_eq_view, Reading.view_append] at split
  obtain ⟨isPassed, isAhead⟩ := List.append_inj split (by rw [Reading.length_viewBefore, isLength])
  have isFlatThere := Reading.isFlat_readBefore Reading.isFlat_initial flatBefore rest
  have shows : (Reading.initial.readBefore rest before).Shows := by
    by_contra hides
    have isStretch : lead ++ c :: tail ++ ahead = lead ++ c :: (tail ++ ahead) := by simp
    rw [isStretch] at isAhead
    exact Reading.view_ne_of_not_shows isFlatThere hides flatRest quiet isMark isAhead
  obtain ⟨after, next, isRest, isFlatNext, showsNext, view⟩ :=
    Reading.exists_append_of_view isFlatThere shows flatRest noEnd isAhead
  have isLast := Reading.getLast?_viewBefore Reading.isFlat_initial flatBefore shows
  rw [isPassed] at isLast
  exact ⟨before, after, next, by rw [isRest], isLength, isLast.symm, isFlatNext, showsNext, view⟩

end SceneBundler.Source
