import SceneBundler.Proofs.Typed.Angled

/-!
Contract: the type arguments of written programs.

Owns:
- when a text is a tree of groups, and that written phrases, values and programs are;
- that such a text is its own masked view;
- that the pass over type arguments leaves a program without them.

Does not own: how the pass finds them.
-/

namespace SceneBundler.Typed

open Dialect

/-- Whether a text is that of a tree in front of anything calm, and what it is without groups. -/
def Grouped (text bare : Text) : Prop :=
  ∀ after : Angled, Calm after.written → (∀ previous, after.Fits previous) →
    ∃ tree : Angled, tree.written = text ++ after.written ∧ tree.bare = bare ++ after.bare ∧
      ∀ previous : Option Char, previous.any Character.continuesName = false → tree.Fits previous

/-- Whether a character neither opens angle brackets nor a literal. -/
def isPlain (c : Char) : Bool :=
  c != '<' && !Source.opensLiteral c

theorem isPlain_of_isNamePart {c : Char} (part : isNamePart c = true) : isPlain c = true := by
  obtain ⟨notLess, noLiteral⟩ := Angled.plain_of_isNamePart part
  simp [isPlain, notLess, noLiteral]

/-- Whether a word can stand in front of a name: it ends with no character of one. -/
def isLead (word : Text) : Bool :=
  word.getLast?.any (fun c => !Character.continuesName c) && word.all isPlain

/-- Whether a word can stand between names. -/
def isSeparator (word : Text) : Bool :=
  word.head?.any (fun c => !Character.continuesName c) && isLead word

namespace Grouped

theorem exists_tree {text bare : Text} (grouped : Grouped text bare) :
    ∃ tree : Angled, tree.written = text ∧ tree.bare = bare ∧
      ∀ previous : Option Char, previous.any Character.continuesName = false → tree.Fits previous := by
  obtain ⟨tree, isWritten, isBare, fits⟩ :=
    grouped .nil (fun c isHead => by simp [Angled.written] at isHead) fun _ => trivial
  exact ⟨tree, by simpa [Angled.written] using isWritten, by simpa [Angled.bare] using isBare, fits⟩

theorem fits_marks {word : Text} {after : Angled} {previous : Option Char}
    (plain : word.all isPlain = true) (fits : after.Fits (word.getLast?.or previous)) :
    (Angled.marks word after).Fits previous := by
  refine Angled.fits_marks (fun c member => ?_) fits
  simpa [isPlain] using List.all_eq_true.mp plain c member

theorem word {word : Text} (plain : word.all isPlain = true) : Grouped word word := by
  intro after _ fits
  exact ⟨Angled.marks word after, by simp, by simp, fun _ _ => fits_marks plain (fits _)⟩

/-- A word in front of a text. -/
theorem lead (word : Text) (leads : isLead word = true) {text bare : Text}
    (grouped : Grouped text bare) : Grouped (word ++ text) (word ++ bare) := by
  simp only [isLead, Bool.and_eq_true, Option.any_eq_true] at leads
  obtain ⟨⟨last, isLast, apart⟩, plain⟩ := leads
  intro after calm fits
  obtain ⟨tree, isWritten, isBare, fitsTree⟩ := grouped after calm fits
  refine ⟨Angled.marks word tree, by simp [isWritten], by simp [isBare], fun previous _ => ?_⟩
  refine fits_marks plain (fitsTree _ ?_)
  rw [isLast]
  simpa using apart

/-- A word between two texts. -/
theorem separated (word : Text) (separates : isSeparator word = true)
    {first bareFirst second bareSecond : Text} (groupedFirst : Grouped first bareFirst)
    (groupedSecond : Grouped second bareSecond) :
    Grouped (first ++ (word ++ second)) (bareFirst ++ (word ++ bareSecond)) := by
  simp only [isSeparator, Bool.and_eq_true, Option.any_eq_true] at separates
  obtain ⟨⟨c, isHead, apart⟩, leads⟩ := separates
  have plain : word.all isPlain = true := by
    simp only [isLead, Bool.and_eq_true] at leads
    exact leads.2
  intro after calm fits
  obtain ⟨behind, isWritten, isBare, fitsBehind⟩ := groupedSecond.lead word leads after calm fits
  have calmBehind : Calm behind.written := by
    intro d isFirst
    rw [isWritten, List.append_assoc, List.head?_append, isHead, Option.some_or] at isFirst
    obtain rfl := Option.some.inj isFirst
    have isPlainHere := List.all_eq_true.mp plain c (List.mem_of_head? isHead)
    simp only [isPlain, Bool.and_eq_true, bne_iff_ne] at isPlainHere
    exact ⟨by simpa using apart, isPlainHere.1⟩
  obtain ⟨tree, isWhole, isBareWhole, fitsTree⟩ :=
    groupedFirst behind calmBehind (Angled.fits_of_calm calmBehind (fitsBehind none rfl))
  exact ⟨tree, by simp [isWhole, isWritten], by simp [isBareWhole, isBare], fitsTree⟩

/-- A word behind a text. -/
theorem closed (word : Text) (separates : isSeparator word = true) {text bare : Text}
    (grouped : Grouped text bare) : Grouped (text ++ word) (bare ++ word) := by
  simpa using grouped.separated word separates (@Grouped.word [] rfl)

theorem group (name : Name) {inner bare : Text} (grouped : Grouped inner bare)
    (isArguments : IsArguments bare) : Grouped (name.text ++ '<' :: (inner ++ ['>'])) name.text := by
  intro after calm fits
  obtain ⟨tree, isWritten, isBare, fitsTree⟩ := grouped.exists_tree
  refine ⟨.group name tree after, by simp [Angled.written, isWritten], by simp [Angled.bare], ?_⟩
  intro previous apart
  exact ⟨apart, isBare ▸ isArguments, fitsTree _ (by decide), calm, fits _⟩

theorem mask_eq_self {text bare : Text} (grouped : Grouped text bare) : Source.mask text = text := by
  obtain ⟨tree, rfl, _, fits⟩ := grouped.exists_tree
  exact Angled.mask_written (fits none rfl)

theorem editUntilSettled_eq {text bare : Text} (grouped : Grouped text bare) :
    editUntilSettled typeArgumentEdits text = bare := by
  obtain ⟨tree, rfl, rfl, fits⟩ := grouped.exists_tree
  exact Angled.editUntilSettled_written (fits none rfl)

end Grouped

/-! ## Phrases -/

theorem occursIn_of_head_not_mem {c : Char} {word text : Text} (absent : c ∉ text) :
    Text.occursIn (c :: word) text = false := by
  by_contra occurs
  obtain ⟨before, after, rfl⟩ := exists_of_occursIn (Bool.not_eq_false _ ▸ occurs)
  exact absent (by simp)

theorem occursIn_bars {text : Text} (apart : barsApart text = true) :
    Text.occursIn ['|', '|'] text = false := by
  induction text with
  | nil => rfl
  | cons c rest inductionHypothesis =>
      simp only [barsApart, Bool.and_eq_true, Bool.or_eq_true, bne_iff_ne, beq_iff_eq] at apart
      obtain ⟨spaced, apartRest⟩ := apart
      rw [Text.occursIn, inductionHypothesis apartRest, Bool.or_false, List.isPrefixOf_cons_cons]
      rcases spaced with notBar | space
      · rw [beq_false_of_ne (Ne.symm notBar), Bool.false_and]
      · cases rest with
        | nil => simp at space
        | cons d rest =>
            obtain rfl := Option.some.inj space
            have different : ('|' == ' ') = false := by decide
            rw [List.isPrefixOf_cons_cons, different, Bool.false_and, Bool.and_false]

theorem startsText_of_beginsPhrase {c : Char} {rest : Text} (begins : beginsPhrase c = true) :
    typeContentStart.startsText (c :: rest) = true := by
  have accepted : (Character.startsName c || "[\x7b('\x22".toList.contains c) = true := by
    simp only [beginsPhrase, Bool.or_eq_true, beq_iff_eq] at begins
    rcases begins with ((starts | rfl) | rfl) | rfl
    · rw [startsName_of_isNameStart starts, Bool.true_or]
    · decide
    · decide
    · decide
  exact startsText_typeContentStart accepted

/-- Phrases that can stand in angle brackets are type arguments once they have none themselves. -/
theorem Phrase.isArguments {kind : Kind} (phrase : Phrase true kind) :
    IsArguments (phrase.text false) := by
  have marks := phrase.isArgumentMark_of_mem rfl
  have absent {c : Char} (other : isArgumentMark c = false) : c ∉ phrase.text false := by
    intro member
    rw [marks c member] at other
    contradiction
  refine ⟨absent (by decide), ?_, ?_⟩
  · obtain ⟨c, rest, isText, begins⟩ := phrase.exists_head false
    rw [isText]
    exact startsText_of_beginsPhrase begins
  · have tokens : ∀ token ∈ nonTypeTokens, token = ['|', '|'] ∨
        token.head?.any (fun c => !isArgumentMark c) = true := by
      decide
    rw [List.any_eq_false]
    intro token member
    rw [Bool.not_eq_true]
    rcases tokens token member with rfl | other
    · exact occursIn_bars ((joins_barsApart false).phrase phrase)
    · cases token with
      | nil => exact Bool.noConfusion other
      | cons d rest => exact occursIn_of_head_not_mem (absent (by simpa using other))

theorem Name.grouped (name : Name) : Grouped name.text name.text :=
  Grouped.word (List.all_eq_true.mpr fun _ member => isPlain_of_isNamePart (name.isNamePart_of_mem member))

/-- A key or a parameter with its type. -/
theorem Name.grouped_colon (name : Name) {text bare : Text} (grouped : Grouped text bare) :
    Grouped (name.text ++ ([':', ' '] ++ text)) (name.text ++ ([':', ' '] ++ bare)) :=
  name.grouped.separated [':', ' '] (by decide) grouped

/-- The type arguments of a phrase are its groups. -/
theorem Phrase.grouped {plain : Bool} {kind : Kind} (phrase : Phrase plain kind) :
    Grouped (phrase.text true) (phrase.text false) := by
  induction phrase with
  | named name => exact name.grouped
  | array element elementHypothesis => exact elementHypothesis.closed ['[', ']'] (by decide)
  | union first second firstHypothesis secondHypothesis =>
      exact firstHypothesis.separated [' ', '|', ' '] (by decide) secondHypothesis
  | emptyTuple => exact @Grouped.word ['[', ']'] (by decide)
  | tuple items itemsHypothesis =>
      exact (itemsHypothesis.closed [']'] (by decide)).lead ['['] (by decide)
  | object fields fieldsHypothesis =>
      exact (fieldsHypothesis.closed [' ', '\x7d'] (by decide)).lead ['\x7b', ' ']
        (by decide)
  | function parameter type result typeHypothesis resultHypothesis =>
      exact (parameter.grouped_colon (typeHypothesis.separated [')', ' ', '=', '>', ' ']
        (by decide) resultHypothesis)).lead ['('] (by decide)
  | generic name arguments argumentsHypothesis =>
      simpa [Phrase.text, angled] using Grouped.group name argumentsHypothesis arguments.isArguments
  | last type typeHypothesis => exact typeHypothesis
  | more type others typeHypothesis othersHypothesis =>
      exact typeHypothesis.separated [',', ' '] (by decide) othersHypothesis
  | lastField key type typeHypothesis => exact key.grouped_colon typeHypothesis
  | moreFields key type others typeHypothesis othersHypothesis =>
      exact key.grouped_colon (typeHypothesis.separated [';', ' '] (by decide) othersHypothesis)

/-! ## Programs -/

theorem Value.grouped (value : Value) : Grouped (value.text true) (value.text false) := by
  induction value with
  | named name => exact name.grouped
  | number numeral =>
      have digit {c : Char} (isDigit : c.isDigit = true) : isPlain c = true :=
        isPlain_of_isNamePart (by simp [isNamePart, isDigit])
      refine Grouped.word (List.all_eq_true.mpr fun c member => ?_)
      rcases List.mem_cons.mp member with rfl | isLater
      · exact digit numeral.starts
      · rcases numeral.parts c isLater with isDigit | rfl
        · exact digit isDigit
        · decide
  | call function arguments value valueHypothesis =>
      have called := Grouped.group function arguments.grouped arguments.isArguments
      have applied := called.separated ['('] (by decide)
        (valueHypothesis.closed [')'] (by decide))
      simpa [Value.text, angled] using applied

section Behind

variable {rest bareRest : Text}

theorem grouped_members (members : List Member) (grouped : Grouped rest bareRest) :
    Grouped (members.flatMap (Member.text true) ++ rest)
      (members.flatMap (Member.text false) ++ bareRest) := by
  induction members with
  | nil => exact grouped
  | cons member others inductionHypothesis =>
      have here := (member.key.grouped_colon member.type.grouped).separated [';', ' ']
        (by decide) inductionHypothesis
      simpa [Member.text, ascription] using here

theorem Parameter.grouped (parameter : Parameter) :
    Grouped (parameter.text true) (parameter.text false) := by
  cases isOptional : parameter.isOptional with
  | false =>
      have here := parameter.name.grouped_colon parameter.type.grouped
      simpa [Parameter.text, Parameter.mark, ascription, isOptional] using here
  | true =>
      have here := parameter.name.grouped.separated ['?', ':', ' '] (by decide)
        parameter.type.grouped
      simpa [Parameter.text, Parameter.mark, ascription, isOptional] using here

theorem grouped_parameters (parameters : List Parameter) :
    Grouped (Text.join [',', ' '] (parameters.map (Parameter.text true)))
      (Text.join [',', ' '] (parameters.map (Parameter.text false))) := by
  induction parameters with
  | nil => exact Grouped.word rfl
  | cons parameter others inductionHypothesis =>
      cases others with
      | nil => simpa [Text.join] using parameter.grouped
      | cons second others =>
          have here := parameter.grouped.separated [',', ' '] (by decide) inductionHypothesis
          simpa [Text.join_cons_cons] using here

/-- A type behind a name, with the initializer behind it, at the end of a statement. -/
theorem grouped_initializer (type : TypePhrase) (value : Option Value)
    (grouped : Grouped rest bareRest) :
    Grouped (type.text true ++ (initializer true value ++ ([';', '\n'] ++ rest)))
      (type.text false ++ (initializer false value ++ ([';', '\n'] ++ bareRest))) := by
  cases value with
  | none => exact type.grouped.separated [';', '\n'] (by decide) grouped
  | some value =>
      have here := type.grouped.separated [' ', '=', ' '] (by decide)
        (value.grouped.separated [';', '\n'] (by decide) grouped)
      simpa only [initializer, List.append_assoc] using here

/-- The type arguments of a statement are its groups. -/
theorem Statement.grouped (statement : Statement) (grouped : Grouped rest bareRest) :
    Grouped (statement.text true ++ ['\n'] ++ rest) (statement.text false ++ ['\n'] ++ bareRest) := by
  cases statement with
  | interface name members =>
      have body := grouped_members members (grouped.lead ['\x7d', '\n'] (by decide))
      have whole := (name.grouped.separated [' ', '\x7b', ' '] (by decide) body).lead
        "interface ".toList (by decide)
      simpa only [Statement.text_interface, interfaceText_eq, List.append_assoc, List.cons_append,
        List.nil_append] using whole
  | synonym name type =>
      have body := type.grouped.separated [';', '\n'] (by decide) grouped
      have whole := (name.grouped.separated [' ', '=', ' '] (by decide) body).lead
        "type ".toList (by decide)
      simpa only [Statement.text_synonym, synonymText_eq, List.append_assoc, List.cons_append,
        List.nil_append] using whole
  | binding name type value =>
      have whole := (name.grouped_colon (grouped_initializer type value grouped)).lead "let ".toList
        (by decide)
      simpa only [Statement.text_binding, variableText_eq, ascription, List.append_assoc,
        List.cons_append, List.nil_append] using whole
  | function name parameters result value =>
      have body := value.grouped.separated [';', ' ', '\x7d', '\n'] (by decide) grouped
      have typed := result.type.grouped.separated " \x7b return ".toList (by decide) body
      have signature := (grouped_parameters parameters).separated [')', ':', ' '] (by decide) typed
      have whole := (name.grouped.separated ['('] (by decide) signature).lead
        "function ".toList (by decide)
      simpa only [Statement.text_function, functionText_eq, ascription, List.append_assoc,
        List.cons_append, List.nil_append] using whole

end Behind

/-- Programs with the type arguments of their statements, and programs without them. -/
theorem grouped_lines (program : List Statement) :
    Grouped (lines (program.map (Statement.text true))) (lines (program.map (Statement.text false))) := by
  induction program with
  | nil => exact Grouped.word rfl
  | cons statement others inductionHypothesis => exact statement.grouped inductionHypothesis

end SceneBundler.Typed
