import SceneBundler.Proofs.Enumeration.Declaration
import SceneBundler.Proofs.Source.Embedded
import SceneBundler.Proofs.Text.Joined

/-!
Contract: declarations of enumerations as they are shown.

Owns:
- the shown form of a declaration: its own characters, but for those in quotes;
- that a declaration in code is shown in this form.

Does not own: how the members are read.
-/

namespace SceneBundler.Enumeration

open Character (isBlank continuesName)
open Source (Reading)
open Source.Reading (BehindMark isMark goesOver_marks)

/-! ## Shown forms -/

def Quotation.shown (quotation : Quotation) : Text :=
  quotation.quote :: (List.replicate quotation.content.length ' ' ++ [quotation.quote])

def Key.shown : Key -> Text
  | plain name => name.1
  | quoted quotation => quotation.shown

def Initializer.shown : Initializer -> Text
  | whole number => number.text
  | quoted quotation => quotation.shown
  | computed expression => expression.text

namespace Member

def settingShown : Option Setting -> Text
  | none => []
  | some setting => '=' :: (setting.before.1 ++ (setting.initializer.shown ++ setting.after.1))

def shown (member : Member) : Text :=
  member.before.1 ++ (member.key.shown ++ (member.after.1 ++ settingShown member.setting))

end Member

namespace Declaration

def shownItems (declaration : Declaration) : List Text :=
  declaration.members.map Member.shown ++ declaration.trailing.toList.map Subtype.val

def shownBody (declaration : Declaration) : Text :=
  Text.join [','] declaration.shownItems

def shown (declaration : Declaration) : Text :=
  declaration.head.text ++ ('\x7b' :: (declaration.shownBody ++ '\x7d' :: declaration.ending))

end Declaration

theorem Quotation.length_shown (quotation : Quotation) : quotation.shown.length = quotation.text.length := by
  simp [Quotation.shown, Quotation.text]

theorem Key.length_shown (key : Key) : key.shown.length = key.text.length := by
  cases key with
  | plain name => rfl
  | quoted quotation => exact quotation.length_shown

theorem Initializer.length_shown (initializer : Initializer) :
    initializer.shown.length = initializer.text.length := by
  cases initializer with
  | quoted quotation => exact quotation.length_shown
  | whole number => rfl
  | computed expression => rfl

theorem Member.length_shown (member : Member) : member.shown.length = member.text.length := by
  have setting : (settingShown member.setting).length = (settingText member.setting).length := by
    cases member.setting with
    | none => rfl
    | some setting => simp [settingShown, settingText, setting.initializer.length_shown]
  simp [Member.shown, Member.text, member.key.length_shown, setting]

/-! ## Characters -/

/-- No character of a class is among some marks. -/
theorem not_contains_of_accepts (accepts : Char -> Bool) (marks : Text)
    (none : marks.all (fun c => !accepts c) = true) {c : Char} (accepted : accepts c = true) :
    marks.contains c = false := by
  rw [← Bool.not_eq_true, List.contains_iff_mem]
  intro member
  have rejected := List.all_eq_true.mp none c member
  rw [accepted] at rejected
  contradiction

theorem isMark_of_isExpressionMark {c : Char} (plain : isExpressionMark c = true) : isMark c = true := by
  rw [isMark, not_contains_of_accepts isExpressionMark _ (by decide) plain]
  rfl

theorem isExpressionMark_of_isBlank {c : Char} (blank : isBlank c = true) : isExpressionMark c = true := by
  rw [isExpressionMark, blank, Bool.or_true, Bool.true_or]

theorem isExpressionMark_of_continuesName {c : Char} (continues : continuesName c = true) :
    isExpressionMark c = true := by
  rw [isExpressionMark, continues, Bool.true_or, Bool.true_or]

theorem isExpressionMark_of_isDigit {c : Char} (digit : c.isDigit = true) : isExpressionMark c = true := by
  refine isExpressionMark_of_continuesName ?_
  rw [continuesName, Character.isWord_of_isAlphanum (Character.isAlphanum_of_isDigit digit), Bool.true_or]

theorem isExpressionMark_of_blanks (blanks : Blanks) : ∀ c ∈ blanks.1, isExpressionMark c = true :=
  fun c member => isExpressionMark_of_isBlank (Text.isBlank_iff.mp blanks.2 c member)

theorem isExpressionMark_of_name (name : Name) : ∀ c ∈ name.1, isExpressionMark c = true :=
  fun c member => isExpressionMark_of_continuesName (name.2.isNameText c member)

/-- The characters of an expression. -/
theorem isExpressionMark_of_mem {depth : Nat} {text : Text} (pairs : isExpression depth text = true) :
    ∀ c ∈ text, isExpressionMark c = true ∨ c = '(' ∨ c = ')' ∨ c = ',' := by
  induction text generalizing depth with
  | nil => exact fun _ member => absurd member List.not_mem_nil
  | cons c rest inductionHypothesis =>
      rw [isExpression.eq_def] at pairs
      dsimp only at pairs
      rw [List.forall_mem_cons]
      split at pairs
      next opens => exact ⟨Or.inr (Or.inl opens), inductionHypothesis pairs⟩
      next =>
        split at pairs
        next closes =>
          split at pairs
          next => contradiction
          next => exact ⟨Or.inr (Or.inr (Or.inl closes)), inductionHypothesis pairs⟩
        next =>
          rw [Bool.and_eq_true, Bool.or_eq_true, Bool.and_eq_true, beq_iff_eq] at pairs
          obtain ⟨isPlain | isComma, pairsRest⟩ := pairs
          · exact ⟨Or.inl isPlain, inductionHypothesis pairsRest⟩
          · exact ⟨Or.inr (Or.inr (Or.inr isComma.1)), inductionHypothesis pairsRest⟩

/-- The characters of a whole number. -/
theorem WholeNumber.mem_text {number : WholeNumber} {c : Char} (member : c ∈ number.text) :
    c = '-' ∨ c.isDigit = true := by
  rw [WholeNumber.text] at member
  rcases List.mem_append.mp member with isSign | isDigit
  · split at isSign
    · exact Or.inl (List.mem_singleton.mp isSign)
    · exact absurd isSign List.not_mem_nil
  · exact Or.inr (number.areDigits c isDigit)

theorem Quotation.isMark (quotation : Quotation) : quotation.quote = '\x27' ∨ quotation.quote = '\x22' := by
  simpa [Source.isQuote] using quotation.isQuote

/-! ## Braces -/

/-- Whether a text has no braces. -/
def NoBraces (text : Text) : Prop :=
  ∀ c ∈ text, c ≠ '\x7b' ∧ c ≠ '\x7d'

theorem NoBraces.append {first second : Text} (noneInFirst : NoBraces first)
    (noneInSecond : NoBraces second) :
    NoBraces (first ++ second) :=
  List.forall_mem_append.mpr ⟨noneInFirst, noneInSecond⟩

theorem not_brace_of_isExpressionMark {c : Char} (plain : isExpressionMark c = true) :
    c ≠ '\x7b' ∧ c ≠ '\x7d' := by
  refine ⟨?_, ?_⟩
  all_goals
    rintro rfl
    exact absurd plain (by decide)

theorem noBraces_plain {text : Text} (plain : ∀ c ∈ text, isExpressionMark c = true) : NoBraces text :=
  fun c member => not_brace_of_isExpressionMark (plain c member)

theorem Quotation.noBraces (quotation : Quotation) : NoBraces quotation.shown := by
  have quote : quotation.quote ≠ '\x7b' ∧ quotation.quote ≠ '\x7d' := by
    rcases quotation.isMark with isMark | isMark <;> rw [isMark] <;> decide
  intro c member
  rw [Quotation.shown, List.mem_cons, List.mem_append, List.mem_singleton] at member
  rcases member with rfl | isSpace | rfl
  · exact quote
  · rw [List.eq_of_mem_replicate isSpace]
    decide
  · exact quote

theorem Key.noBraces (key : Key) : NoBraces key.shown := by
  cases key with
  | plain name => exact noBraces_plain (isExpressionMark_of_name name)
  | quoted quotation => exact quotation.noBraces

theorem Initializer.noBraces (initializer : Initializer) : NoBraces initializer.shown := by
  cases initializer with
  | whole number =>
      intro c member
      rcases number.mem_text member with rfl | digit
      · decide
      · exact not_brace_of_isExpressionMark (isExpressionMark_of_isDigit digit)
  | quoted quotation => exact quotation.noBraces
  | computed expression =>
      intro c member
      rcases isExpressionMark_of_mem expression.isExpression c member with plain | rfl | rfl | rfl
      · exact not_brace_of_isExpressionMark plain
      all_goals decide

theorem Member.noBraces (member : Member) : NoBraces member.shown := by
  have blanks (some : Blanks) := noBraces_plain (isExpressionMark_of_blanks some)
  refine (blanks member.before).append (member.key.noBraces.append ((blanks member.after).append ?_))
  cases member.setting with
  | none => exact fun _ isThere => absurd isThere List.not_mem_nil
  | some setting =>
      have equals : NoBraces ['='] := Text.forall_mem_of_all (by decide)
      exact equals.append ((blanks setting.before).append
        (setting.initializer.noBraces.append (blanks setting.after)))

theorem Declaration.noBraces (declaration : Declaration) : NoBraces declaration.shownBody := by
  have every : ∀ item ∈ declaration.shownItems, NoBraces item := by
    intro item isItem
    rcases List.mem_append.mp isItem with isMember | isTrailing
    · obtain ⟨member, _, rfl⟩ := List.mem_map.mp isMember
      exact member.noBraces
    · obtain ⟨blanks, _, rfl⟩ := List.mem_map.mp isTrailing
      exact noBraces_plain (isExpressionMark_of_blanks blanks)
  have comma : NoBraces [','] := Text.forall_mem_of_all (by decide)
  rw [shownBody]
  generalize declaration.shownItems = items at every ⊢
  cases items with
  | nil => exact fun _ isThere => absurd isThere List.not_mem_nil
  | cons item rest =>
      exact Text.join_of_glue (fun first second inFirst inSecond => inFirst.append (comma.append inSecond))
        (List.cons_ne_nil item rest) every

/-! ## The view of a declaration -/

section View

variable {reading : Reading}

theorem goesOver_plain (inCode : reading.InCode) {text : Text}
    (plain : ∀ c ∈ text, isExpressionMark c = true) :
    reading.GoesOver text text :=
  goesOver_marks inCode fun c member => isMark_of_isExpressionMark (plain c member)

theorem Quotation.goesOver (inCode : reading.InCode) (behind : BehindMark reading.before)
    (quotation : Quotation) :
    reading.GoesOver quotation.text quotation.shown :=
  Reading.goesOver_between_quotes inCode quotation.isQuote quotation.plain behind

theorem Key.goesOver (inCode : reading.InCode) (behind : BehindMark reading.before) (key : Key) :
    reading.GoesOver key.text key.shown := by
  cases key with
  | plain name => exact goesOver_plain inCode (isExpressionMark_of_name name)
  | quoted quotation => exact quotation.goesOver inCode behind

theorem Initializer.goesOver (inCode : reading.InCode) (behind : BehindMark reading.before)
    (initializer : Initializer) :
    reading.GoesOver initializer.text initializer.shown := by
  cases initializer with
  | whole number =>
      refine goesOver_marks inCode fun c member => ?_
      rcases number.mem_text member with rfl | digit
      · decide
      · exact isMark_of_isExpressionMark (isExpressionMark_of_isDigit digit)
  | quoted quotation => exact quotation.goesOver inCode behind
  | computed expression =>
      refine goesOver_marks inCode fun c member => ?_
      rcases isExpressionMark_of_mem expression.isExpression c member with plain | rfl | rfl | rfl
      · exact isMark_of_isExpressionMark plain
      all_goals decide

theorem Setting.goesOver (inCode : reading.InCode) (setting : Setting) :
    reading.GoesOver (Member.settingText (some setting)) (Member.settingShown (some setting)) := by
  have equals : reading.GoesOver ['='] ['='] := goesOver_marks inCode (Text.forall_mem_of_all (by decide))
  change reading.GoesOver (['='] ++ _) (['='] ++ _)
  refine equals.append fun first => ?_
  have behind := @Reading.behindMark_past reading '=' (by decide) first
  refine (goesOver_plain (inCode.past _ _) (isExpressionMark_of_blanks setting.before)).append
    fun second => ?_
  refine (setting.initializer.goesOver ((inCode.past _ _).past _ _)
    (behind.past_blanks setting.before.2 second)).append
    fun third => ?_
  exact goesOver_plain (((inCode.past _ _).past _ _).past _ _) (isExpressionMark_of_blanks setting.after)

theorem Member.goesOver (inCode : reading.InCode) (behind : BehindMark reading.before) (member : Member) :
    reading.GoesOver member.text member.shown := by
  refine (goesOver_plain inCode (isExpressionMark_of_blanks member.before)).append fun first => ?_
  refine (member.key.goesOver (inCode.past _ _) (behind.past_blanks member.before.2 first)).append
    fun second => ?_
  refine (goesOver_plain ((inCode.past _ _).past _ _) (isExpressionMark_of_blanks member.after)).append
    fun third => ?_
  cases member.setting with
  | none => exact Reading.goesOver_nil _
  | some setting => exact setting.goesOver (((inCode.past _ _).past _ _).past _ _)

/-- Items in code are shown with their commas. -/
theorem goesOver_join {items : List (Text × Text)} (inCode : reading.InCode)
    (behind : BehindMark reading.before)
    (goes : ∀ item ∈ items, ∀ there : Reading, there.InCode → BehindMark there.before →
      there.GoesOver item.1 item.2) :
    reading.GoesOver (Text.join [','] (items.map Prod.fst)) (Text.join [','] (items.map Prod.snd)) := by
  induction items generalizing reading with
  | nil => exact Reading.goesOver_nil reading
  | cons item rest inductionHypothesis =>
      have here := goes item List.mem_cons_self reading inCode behind
      cases rest with
      | nil => simpa [Text.join] using here
      | cons second others =>
          rw [List.map_cons, List.map_cons, List.map_cons, List.map_cons, Text.join_cons_cons,
            Text.join_cons_cons]
          refine here.append fun first => ?_
          have comma : (reading.past item.2 first).GoesOver [','] [','] :=
            goesOver_marks (inCode.past _ _) (Text.forall_mem_of_all (by decide))
          refine comma.append fun second => ?_
          exact inductionHypothesis ((inCode.past _ _).past _ _) (Reading.behindMark_past (by decide) second)
            fun other member => goes other (List.mem_cons_of_mem item member)

theorem isExpressionMark_of_wordBefore {word : Text} (plain : ∀ c ∈ word, isExpressionMark c = true)
    (gap : Option Gap) : ∀ c ∈ wordBefore word gap, isExpressionMark c = true := by
  cases gap with
  | none => exact fun _ member => absurd member List.not_mem_nil
  | some gap =>
      rw [wordBefore, List.forall_mem_append]
      exact ⟨plain, fun c member => isExpressionMark_of_isBlank (Text.isBlank_iff.mp gap.2.1 c member)⟩

theorem Head.isExpressionMark_of_mem (head : Head) : ∀ c ∈ head.text, isExpressionMark c = true := by
  have keyword {word : Text} (plain : word.all (fun c => decide (isExpressionMark c = true)) = true) :=
    isExpressionMark_of_wordBefore (Text.forall_mem_of_all plain)
  simp only [Head.text, Head.label, Lead.keywords, List.forall_mem_append]
  refine ⟨fun c member => ?_, ⟨keyword (by decide) _, keyword (by decide) _, keyword (by decide) _⟩,
    Text.forall_mem_of_all (by decide), isExpressionMark_of_blanks ⟨_, head.gap.2.1⟩,
    isExpressionMark_of_name head.name, isExpressionMark_of_blanks head.spacing⟩
  exact isExpressionMark_of_isBlank (Character.isBlank_of_isIndent (head.indentation.2 c member))

namespace Declaration

variable (declaration : Declaration)

theorem goesOver_body (inCode : reading.InCode) (behind : BehindMark reading.before) :
    reading.GoesOver declaration.body declaration.shownBody := by
  have goes := @goesOver_join reading (declaration.members.map (fun member => (member.text, member.shown)) ++
    declaration.trailing.toList.map fun blanks => (blanks.1, blanks.1)) inCode behind ?_
  · simpa [body, shownBody, items, shownItems, Function.comp_def] using goes
  · intro item isItem there inCodeThere behindThere
    rcases List.mem_append.mp isItem with isMember | isTrailing
    · obtain ⟨member, _, rfl⟩ := List.mem_map.mp isMember
      exact member.goesOver inCodeThere behindThere
    · obtain ⟨blanks, _, rfl⟩ := List.mem_map.mp isTrailing
      exact goesOver_plain inCodeThere (isExpressionMark_of_blanks blanks)

/-- A declaration in code is shown in its form. -/
theorem goesOver (inCode : reading.InCode) : reading.GoesOver declaration.text declaration.shown := by
  have ending (there : Reading) (inCodeThere : there.InCode) :
      there.GoesOver declaration.ending declaration.ending := by
    refine goesOver_marks inCodeThere ?_
    rw [Declaration.ending]
    split
    · exact Text.forall_mem_of_all (by decide)
    · exact fun _ member => absurd member List.not_mem_nil
  have split (inside : Text) : declaration.head.text ++ ('\x7b' :: (inside ++ '\x7d' :: declaration.ending)) =
      declaration.head.text ++ ('\x7b' :: (inside ++ ['\x7d']) ++ declaration.ending) := by simp
  rw [text, shown, split, split]
  refine (goesOver_plain inCode declaration.head.isExpressionMark_of_mem).append fun first => ?_
  have braces := Reading.goesOver_braced (inCode.past declaration.head.text first) fun opened =>
    declaration.goesOver_body ((inCode.past declaration.head.text first).past ['\x7b'] opened).deeper
      (Reading.behindMark_past (by decide) opened)
  exact braces.append fun second => ending _ ((inCode.past _ _).past _ _)

theorem length_shown : declaration.shown.length = declaration.text.length :=
  (declaration.goesOver Reading.inCode_initial).length_eq

/-- The view of a text with a declaration in code shows it in its form between the views of what is
around it. -/
theorem mask_eq {before after : Text}
    (inCode : (Reading.initial.readBefore (declaration.text ++ after) before).InCode) :
    ∃ following : Text, Source.mask (before ++ (declaration.text ++ after)) =
      Reading.initial.viewBefore (declaration.text ++ after) before ++ (declaration.shown ++ following) := by
  obtain ⟨_, takes⟩ := declaration.goesOver inCode
  rw [Source.mask_eq_view, Reading.view_append, Reading.view_append, (takes after).1]
  exact ⟨_, rfl⟩

end Declaration

end View

end SceneBundler.Enumeration
