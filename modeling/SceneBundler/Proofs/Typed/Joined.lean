import SceneBundler.Proofs.Source.Written
import SceneBundler.Proofs.Text.Joined
import SceneBundler.Proofs.Text.Lacking
import SceneBundler.Proofs.Typed.Phrase

/-!
Contract: written programs as names joined by punctuation.

Owns:
- the statements that are kept, with or without the types that the passes delete one after another;
- that what holds of names, and of texts joined by the words that stand between them, holds of phrases,
  values and statements;
- from this, which characters programs consist of and which words they lack.

Does not own: what is found in a program.
-/

namespace SceneBundler.Typed

/-! ## Statements on their way -/

/-- A parameter, with its type or without it. -/
structure Slot where
  name : Name
  isOptional : Bool
  type : Option TypePhrase

/-- A parameter as a slot with its mark and its type. -/
def Parameter.slot (parameter : Parameter) : Slot :=
  ⟨parameter.name, parameter.isOptional, some parameter.type⟩

/-- A statement that is kept, with its types or without them. -/
inductive Draft where
  | binding (name : Name) (type : Option TypePhrase) (value : Option Value)
  | function (name : Name) (slots : List Slot) (result : Option Result) (value : Value)

def ascribed (full : Bool) : Option TypePhrase -> Text
  | none => []
  | some type => ascription full type

def Slot.mark (slot : Slot) : Text :=
  if slot.isOptional then ['?'] else []

def Slot.text (full : Bool) (slot : Slot) : Text :=
  slot.name.text ++ (slot.mark ++ ascribed full slot.type)

def Draft.text (full : Bool) : Draft -> Text
  | .binding name type value => variableText name (ascribed full type) (initializer full value)
  | .function name slots result value =>
      functionText name (slots.map (Slot.text full)) (ascribed full (result.map Result.type))
        (value.text full)

theorem Draft.text_binding (full : Bool) (name : Name) (type : Option TypePhrase)
    (value : Option Value) : (binding name type value).text full =
      variableText name (ascribed full type) (initializer full value) :=
  rfl

theorem Draft.text_function (full : Bool) (name : Name) (slots : List Slot) (result : Option Result)
    (value : Value) : (function name slots result value).text full =
      functionText name (slots.map (Slot.text full)) (ascribed full (result.map Result.type))
        (value.text full) :=
  rfl

/-! ## Joined texts -/

/-- The words that stand between names, or around them. -/
def separators (full : Bool) : List Text :=
  [[':', ' '], [',', ' '], [';', ' '], [' ', '|', ' '], ['['], [']'], ['[', ']'], ['\x7b', ' '],
    [' ', '\x7d'], ['('], [')'], [')', ' ', '=', '>', ' '], ['?'], [' ', '=', ' '], [' ', '\x7b', ' '],
    [';'], ['\x7d'], " \x7b return ".toList, [';', ' ', '\x7d']] ++
  if full then [['<'], ['>']] else []

/-- The words that statements begin with. -/
def keywords : List Text :=
  ["interface ", "type ", "let ", "function "].map String.toList

/-- What holds of names and numerals, and of texts that a separator joins. -/
structure Joins (full : Bool) (holds : Text -> Prop) : Prop where
  nil : holds []
  name : ∀ name : Name, holds name.text
  numeral : ∀ numeral : Numeral, holds numeral.text
  joined : ∀ word ∈ separators full, ∀ {first second}, holds first -> holds second ->
    holds (first ++ (word ++ second))

section Joins

variable {full : Bool} {holds : Text -> Prop}

theorem mem_separators {word : Text} (member : word ∈ separators false) : word ∈ separators full := by
  rw [separators, if_neg Bool.false_ne_true, List.append_nil] at member
  exact List.mem_append_left _ member

namespace Joins

variable (joins : Joins full holds)

include joins

theorem between {first second : Text} (word : Text) (separates : word ∈ separators false)
    (holdsFirst : holds first) (holdsSecond : holds second) : holds (first ++ (word ++ second)) :=
  joins.joined word (mem_separators separates) holdsFirst holdsSecond

theorem behind {first : Text} (word : Text) (separates : word ∈ separators false)
    (holdsFirst : holds first) : holds (first ++ word) := by
  simpa using joins.between word separates holdsFirst joins.nil

theorem before {second : Text} (word : Text) (separates : word ∈ separators false)
    (holdsSecond : holds second) : holds (word ++ second) :=
  joins.between word separates joins.nil holdsSecond

theorem angled {first inner : Text} (holdsFirst : holds first) (holdsInner : holds inner) :
    holds (first ++ angled full inner) := by
  cases full with
  | false => simpa [Typed.angled] using holdsFirst
  | true =>
      have closed := joins.joined ['>'] (by decide) holdsInner joins.nil
      simpa [Typed.angled] using joins.joined ['<'] (by decide) holdsFirst closed

theorem phrase {plain : Bool} {kind : Kind} (phrase : Phrase plain kind) :
    holds (phrase.text full) := by
  induction phrase with
  | named name => exact joins.name name
  | array element elementHypothesis => exact joins.behind ['[', ']'] (by decide) elementHypothesis
  | union first second firstHypothesis secondHypothesis =>
      exact joins.between [' ', '|', ' '] (by decide) firstHypothesis secondHypothesis
  | emptyTuple => exact joins.behind ['[', ']'] (by decide) joins.nil
  | tuple items itemsHypothesis =>
      exact joins.before ['['] (by decide) (joins.behind [']'] (by decide) itemsHypothesis)
  | object fields fieldsHypothesis =>
      exact joins.before ['\x7b', ' '] (by decide)
        (joins.behind [' ', '\x7d'] (by decide) fieldsHypothesis)
  | function parameter type result typeHypothesis resultHypothesis =>
      exact joins.before ['('] (by decide) (joins.between [':', ' '] (by decide) (joins.name parameter)
        (joins.between [')', ' ', '=', '>', ' '] (by decide) typeHypothesis resultHypothesis))
  | generic name arguments argumentsHypothesis =>
      exact joins.angled (joins.name name) argumentsHypothesis
  | last type typeHypothesis => exact typeHypothesis
  | more type others typeHypothesis othersHypothesis =>
      exact joins.between [',', ' '] (by decide) typeHypothesis othersHypothesis
  | lastField key type typeHypothesis =>
      exact joins.between [':', ' '] (by decide) (joins.name key) typeHypothesis
  | moreFields key type others typeHypothesis othersHypothesis =>
      exact joins.between [':', ' '] (by decide) (joins.name key)
        (joins.between [';', ' '] (by decide) typeHypothesis othersHypothesis)

theorem value (value : Value) : holds (value.text full) := by
  induction value with
  | named name => exact joins.name name
  | number numeral => exact joins.numeral numeral
  | call function arguments value valueHypothesis =>
      have called := joins.angled (joins.name function) (joins.phrase arguments)
      have applied := joins.between ['('] (by decide) called
        (joins.behind [')'] (by decide) valueHypothesis)
      simpa [Value.text] using applied

theorem ascribed {first : Text} (holdsFirst : holds first) (type : Option TypePhrase) :
    holds (first ++ ascribed full type) := by
  cases type with
  | none => simpa [Typed.ascribed] using holdsFirst
  | some type => exact joins.between [':', ' '] (by decide) holdsFirst (joins.phrase type)

theorem slot (slot : Slot) : holds (slot.text full) := by
  have marked : holds (slot.name.text ++ slot.mark) := by
    rw [Slot.mark]
    split
    · exact joins.behind ['?'] (by decide) (joins.name slot.name)
    · simpa using joins.name slot.name
  simpa [Slot.text] using joins.ascribed marked slot.type

theorem join {texts : List Text} (each : ∀ text ∈ texts, holds text) :
    holds (Text.join [',', ' '] texts) := by
  induction texts with
  | nil => exact joins.nil
  | cons text others inductionHypothesis =>
      have holdsOthers := inductionHypothesis fun other member =>
        each other (List.mem_cons_of_mem text member)
      cases others with
      | nil => simpa [Text.join] using each text List.mem_cons_self
      | cons second others =>
          rw [Text.join_cons_cons]
          simpa using joins.between [',', ' '] (by decide) (each text List.mem_cons_self) holdsOthers

/-- What is set, behind the name of a variable and its type. -/
theorem initialized {first : Text} (holdsFirst : holds first) (value : Option Value) :
    holds (first ++ (initializer full value ++ [';'])) := by
  cases value with
  | none => exact joins.behind [';'] (by decide) holdsFirst
  | some value =>
      have here := joins.between [' ', '=', ' '] (by decide) holdsFirst
        (joins.behind [';'] (by decide) (joins.value value))
      simpa [initializer] using here

/-- A variable behind its keyword. -/
theorem binding (name : Name) (type : Option TypePhrase) (value : Option Value) :
    holds (name.text ++ (Typed.ascribed full type ++ (initializer full value ++ [';']))) := by
  simpa using joins.initialized (joins.ascribed (joins.name name) type) value

/-- A function behind its keyword. -/
theorem function (name : Name) (slots : List Slot) (result : Option TypePhrase) (value : Value) :
    holds (name.text ++ (['('] ++ (Text.join [',', ' '] (slots.map (Slot.text full)) ++ ([')'] ++
      (Typed.ascribed full result ++ (" \x7b return ".toList ++
        (value.text full ++ [';', ' ', '\x7d']))))))) := by
  have each : ∀ text ∈ slots.map (Slot.text full), holds text := by
    intro text member
    obtain ⟨slot, _, rfl⟩ := List.mem_map.mp member
    exact joins.slot slot
  have body := joins.between " \x7b return ".toList (by decide)
    (joins.ascribed joins.nil result) (joins.behind [';', ' ', '\x7d'] (by decide) (joins.value value))
  have signature := joins.between [')'] (by decide) (joins.join each) body
  exact joins.between ['('] (by decide) (joins.name name) signature

end Joins

/-! ## Statements -/

section Statements

variable (joins : Joins full holds) (leads : ∀ word ∈ keywords, ∀ text, holds text → holds (word ++ text))

include joins leads

theorem Draft.joined (draft : Draft) : holds (draft.text full) := by
  cases draft with
  | binding name type value =>
      rw [Draft.text_binding, variableText_eq]
      exact leads _ (by decide) _ (joins.binding name type value)
  | function name slots result value =>
      rw [Draft.text_function, functionText_eq]
      exact leads _ (by decide) _ (joins.function name slots _ value)

theorem Statement.joined (statement : Statement) : holds (statement.text full) := by
  cases statement with
  | interface name members =>
      have each : holds (members.flatMap (Member.text full) ++ ['\x7d']) := by
        induction members with
        | nil => simpa using joins.before ['\x7d'] (by decide) joins.nil
        | cons member others inductionHypothesis =>
            have here := joins.between [':', ' '] (by decide) (joins.name member.key)
              (joins.between [';', ' '] (by decide) (joins.phrase member.type) inductionHypothesis)
            simpa [Member.text, ascription] using here
      rw [Statement.text_interface, interfaceText_eq]
      exact leads _ (by decide) _ (joins.between [' ', '\x7b', ' '] (by decide) (joins.name name) each)
  | synonym name type =>
      rw [Statement.text_synonym, synonymText_eq]
      exact leads _ (by decide) _ (joins.between [' ', '=', ' '] (by decide) (joins.name name)
        (joins.behind [';'] (by decide) (joins.phrase type)))
  | binding name type value => exact Draft.joined joins leads (.binding name (some type) value)
  | function name parameters result value =>
      have same : (Statement.function name parameters result value).text full =
          (Draft.function name (parameters.map Parameter.slot) (some result) value).text full := by
        rw [Statement.text_function, Draft.text_function, List.map_map]
        rfl
      rw [same]
      exact Draft.joined joins leads _

end Statements

end Joins

/-! ## Characters -/

/-- A character of a line. -/
def isLineMark (full : Bool) (c : Char) : Bool :=
  c != '\n' && c != '!' && !Source.opensLiteral c && (full || c != '<')

theorem opensLiteral_of_isNamePart {c : Char} (part : isNamePart c = true) :
    Source.opensLiteral c = false := by
  have marks : ∀ mark ∈ "/'\"\x60".toList, isNamePart mark = false :=
    Text.forall_mem_of_all (by decide)
  rw [← Bool.not_eq_true, Source.opensLiteral, List.contains_iff_mem]
  intro member
  rw [marks c member] at part
  contradiction

theorem isLineMark_of_isNamePart {full : Bool} {c : Char} (part : isNamePart c = true) :
    isLineMark full c = true := by
  have notBreak := ne_of_isNamePart part '\n' (by decide)
  have notMark := ne_of_isNamePart part '!' (by decide)
  have notLess := ne_of_isNamePart part '<' (by decide)
  simp [isLineMark, opensLiteral_of_isNamePart part, notBreak, notMark, notLess]

theorem joins_isLineMark (full : Bool) :
    Joins full fun text => ∀ c ∈ text, isLineMark full c = true where
  nil := by simp
  name name c member := isLineMark_of_isNamePart (name.isNamePart_of_mem member)
  numeral numeral c member := by
    have digit {c : Char} (isDigit : c.isDigit = true) : isLineMark full c = true :=
      isLineMark_of_isNamePart (by simp [isNamePart, isDigit])
    rcases List.mem_cons.mp member with rfl | isLater
    · exact digit numeral.starts
    · rcases numeral.parts c isLater with isDigit | rfl
      · exact digit isDigit
      · cases full <;> decide
  joined word separates {first second} ofFirst ofSecond c member := by
    have allOfWord : ∀ word ∈ separators full, word.all (isLineMark full) = true := by
      cases full <;> decide
    have ofWord : ∀ word ∈ separators full, ∀ c ∈ word, isLineMark full c = true :=
      fun word isSeparator => List.all_eq_true.mp (allOfWord word isSeparator)
    rcases List.mem_append.mp member with isFirst | isLater
    · exact ofFirst c isFirst
    · exact (List.mem_append.mp isLater).elim (ofWord word separates c) (ofSecond c)

theorem leads_isLineMark (full : Bool) : ∀ word ∈ keywords, ∀ text : Text,
    (∀ c ∈ text, isLineMark full c = true) → ∀ c ∈ word ++ text, isLineMark full c = true := by
  have allOfWord : ∀ word ∈ keywords, word.all (isLineMark full) = true := by
    cases full <;> decide
  have ofWord : ∀ word ∈ keywords, ∀ c ∈ word, isLineMark full c = true :=
    fun word isKeyword => List.all_eq_true.mp (allOfWord word isKeyword)
  intro word isKeyword text ofText c member
  exact (List.mem_append.mp member).elim (ofWord word isKeyword c) (ofText c)

/-! ## Bars -/

/-- Whether every bar of a text has a space behind it. -/
def barsApart : Text -> Bool
  | [] => true
  | c :: rest => (c != '|' || rest.head? == some ' ') && barsApart rest

theorem barsApart_append {first second : Text} (apartFirst : barsApart first = true)
    (apartSecond : barsApart second = true) : barsApart (first ++ second) = true := by
  induction first with
  | nil => exact apartSecond
  | cons c rest inductionHypothesis =>
      simp only [barsApart, Bool.and_eq_true, Bool.or_eq_true, beq_iff_eq] at apartFirst
      obtain ⟨spaced, apartRest⟩ := apartFirst
      simp only [List.cons_append, barsApart, inductionHypothesis apartRest, Bool.and_true,
        Bool.or_eq_true, beq_iff_eq]
      refine spaced.imp_right fun space => ?_
      rw [List.head?_append, space, Option.some_or]

theorem barsApart_of_not_mem {text : Text} (absent : '|' ∉ text) : barsApart text = true := by
  induction text with
  | nil => rfl
  | cons c rest inductionHypothesis =>
      obtain ⟨different, absentRest⟩ : '|' ≠ c ∧ '|' ∉ rest := by simpa using absent
      simp [barsApart, Ne.symm different, inductionHypothesis absentRest]

theorem joins_barsApart (full : Bool) : Joins full fun text => barsApart text = true where
  nil := rfl
  name name := barsApart_of_not_mem (name.not_mem (by decide))
  numeral numeral := by
    refine barsApart_of_not_mem fun member => ?_
    rcases List.mem_cons.mp member with isFirst | isLater
    · exact absurd numeral.starts (by rw [← isFirst]; decide)
    · exact absurd (numeral.parts _ isLater) (by decide)
  joined word separates {first second} apartFirst apartSecond := by
    have apart : ∀ word ∈ separators full, barsApart word = true := by
      cases full <;> decide
    exact barsApart_append apartFirst (barsApart_append (apart word separates) apartSecond)

/-! ## Words -/

/-- Words that names must not be, because a pass looks for them. -/
def watchedWords : List Text :=
  ["as", "satisfies", "class", "abstract", "const", "let", "var"].map String.toList

theorem isWord_of_mem_watchedWords :
    ∀ word ∈ watchedWords, ∀ c ∈ word, Character.isWord c = true := by
  have areWords : ∀ word ∈ watchedWords, word.all Character.isWord = true := by decide
  exact fun word watched => List.all_eq_true.mp (areWords word watched)

open Text (Lacks)

theorem lacks_numeral (numeral : Numeral) {word : Text} (watched : word ∈ watchedWords) :
    Lacks word numeral.text := by
  have letters : ∀ word ∈ watchedWords, (word.any fun c => !c.isDigit && c != '.') = true := by decide
  obtain ⟨c, isIn, isLetter⟩ := List.any_eq_true.mp (letters word watched)
  rw [Bool.and_eq_true, Bool.not_eq_true', bne_iff_ne] at isLetter
  obtain ⟨notDigit, notPoint⟩ := isLetter
  refine Text.lacks_of_not_mem isIn fun member => ?_
  rcases List.mem_cons.mp member with rfl | isLater
  · exact Bool.noConfusion (numeral.starts.symm.trans notDigit)
  · rcases numeral.parts c isLater with isDigit | isPoint
    · exact Bool.noConfusion (isDigit.symm.trans notDigit)
    · exact notPoint isPoint

/-- Texts joined of names lack the words that are looked for. -/
theorem joins_lacks (full : Bool) {word : Text} (watched : word ∈ watchedWords) :
    Joins full (Lacks word) where
  nil := by
    have nonempty : ∀ word ∈ watchedWords, word ≠ [] := by decide
    obtain ⟨c, isIn⟩ := List.exists_mem_of_ne_nil word (nonempty word watched)
    exact Text.lacks_of_not_mem isIn List.not_mem_nil
  name name := by
    refine Text.lacks_of_ne (fun c member => isWord_of_isNamePart (name.isNamePart_of_mem member)) ?_
    intro same
    have isReserved : name.text ∈ reservedWords := by
      rw [same]
      exact List.mem_append_right _ watched
    exact name.free isReserved
  numeral numeral := lacks_numeral numeral watched
  joined separator separates {first second} lacksFirst lacksSecond := by
    have apart : ∀ separator ∈ separators full, separator ≠ [] ∧
        separator.head?.any Character.isWord = false ∧
          separator.getLast?.any Character.isWord = false ∧
            ∀ word ∈ watchedWords, (word.any fun c => !separator.contains c) = true := by
      cases full <;> decide
    obtain ⟨nonempty, begins, ends, absent⟩ := apart separator separates
    obtain ⟨c, isIn, notIn⟩ := Text.exists_not_mem_of_any (absent word watched)
    have areWord := isWord_of_mem_watchedWords word watched
    have lacksSeparator : Lacks word separator := Text.lacks_of_not_mem isIn notIn
    have lacksTail := lacksSeparator.append areWord lacksSecond (Or.inl ends)
    refine lacksFirst.append areWord lacksTail (Or.inr ?_)
    cases separator with
    | nil => exact absurd rfl nonempty
    | cons d rest => exact begins

/-- Of the words that are looked for, statements have at most the keyword of variables. -/
theorem leads_lacks {word : Text} (watched : word ∈ watchedWords) (other : word ≠ "let".toList) :
    ∀ keyword ∈ keywords, ∀ text : Text, Lacks word text → Lacks word (keyword ++ text) := by
  have apart : ∀ keyword ∈ keywords, keyword.getLast?.any Character.isWord = false ∧
      ∀ word ∈ watchedWords, word ≠ "let".toList → (word.any fun c => !keyword.contains c) = true := by
    decide
  intro keyword isKeyword text lacks
  obtain ⟨ends, absent⟩ := apart keyword isKeyword
  obtain ⟨c, isIn, notIn⟩ := Text.exists_not_mem_of_any (absent word watched other)
  have lacksKeyword : Lacks word keyword := Text.lacks_of_not_mem isIn notIn
  exact lacksKeyword.append (isWord_of_mem_watchedWords word watched) lacks (Or.inl ends)

end SceneBundler.Typed
