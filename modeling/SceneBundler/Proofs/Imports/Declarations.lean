import SceneBundler.Proofs.Imports.Sequence

/-!
Contract: the names that a list of declarations binds, and those that are found in it.

Owns:
- declarations of functions, classes and variables with patterns of any nesting, and their text;
- the names that they bind, those to which the searches come and those that the searches find besides;
- that a source is searched exactly just if every bound name is found, and no other.

Does not own: the searches.
-/

namespace SceneBundler.Imports.Declaration

open Character (isBlank)

/-! ## Parts of declarations -/

/-- A stretch of blanks. -/
abbrev Blanks := { text : Text // ∀ c ∈ text, isBlank c = true }

/-- A name as programs are read: an ASCII letter, underscore or dollar sign, then word characters and
dollar signs. -/
abbrev Name := { text : Text // IsName text }

/-- A piece of code whose brackets are closed, with a condition on the marks outside all of them. -/
abbrev Code (allowed : Char -> Bool) := { tokens : List Token // Balanced allowed tokens }

def Blanks.tokens (blanks : Blanks) : List Token :=
  blanks.1.map Token.mark

/-- An expression that stands by itself, such as the value that a name has by default. -/
abbrev Expression := Code fun c => !([',', ';'].contains c)

/-- Whether a token can be part of a key that is written out: a name, a number or a masked text in quotes. -/
def isOfKey : Token -> Bool
  | .word _ => true
  | .mark c => isBlank c || Source.isQuote c || c == '.'

/-- The key by which an element of an object is taken. -/
inductive Key where
  | written (tokens : List Token) (areOfKey : tokens.all isOfKey = true)
  | computed (code : Expression)

/-- What stands in front of what an element binds. -/
inductive Lead where
  | plain
  | rest (blanks : Blanks)
  | key (taken : Key) (before after : Blanks)

/-- What stands behind what an element binds: blanks, or also the value that it has by default. -/
inductive Fallback where
  | none (blanks : Blanks)
  | value (blanks : Blanks) (code : Expression)

/-- The brackets of a pattern. -/
inductive Brackets where
  | array
  | object

mutual

/-- What a declarator or an element of a pattern binds: a name, or a pattern of slots. -/
inductive Target where
  | name (name : Name)
  | pattern (brackets : Brackets) (slots : Slots)

/-- The slots of a pattern, which commas keep apart. -/
inductive Slots where
  | last (slot : Slot)
  | more (slot : Slot) (rest : Slots)

/-- An element of a pattern, or none. -/
inductive Slot where
  | hole (blanks : Blanks)
  | element (blanks : Blanks) (lead : Lead) (target : Target) (fallback : Fallback)

end

/-! ## Tokens -/

def Key.tokens : Key -> List Token
  | written tokens _ => tokens
  | computed code => .mark '[' :: (code.1 ++ [.mark ']'])

def Lead.tokens : Lead -> List Token
  | plain => []
  | rest blanks => "...".toList.map Token.mark ++ blanks.tokens
  | .key taken before after => taken.tokens ++ (before.tokens ++ .mark ':' :: after.tokens)

def Fallback.tokens : Fallback -> List Token
  | none blanks => blanks.tokens
  | value blanks code => blanks.tokens ++ .mark '=' :: code.1

def Brackets.opener : Brackets -> Char
  | array => '['
  | object => '\x7b'

mutual

def Target.tokens : Target -> List Token
  | .name name => [.word name.1]
  | .pattern brackets slots => .mark brackets.opener :: (slots.tokens ++ [.mark (closerOf brackets.opener)])

def Slots.tokens : Slots -> List Token
  | .last slot => slot.tokens
  | .more slot rest => slot.tokens ++ .mark ',' :: rest.tokens

def Slot.tokens : Slot -> List Token
  | .hole blanks => blanks.tokens
  | .element blanks lead target fallback =>
      blanks.tokens ++ (lead.tokens ++ (target.tokens ++ fallback.tokens))

end

/-! ## Names -/

mutual

/-- The names that are bound. -/
def Target.bound : Target -> List Text
  | .name name => [name.1]
  | .pattern _ slots => slots.bound

def Slots.bound : Slots -> List Text
  | .last slot => slot.bound
  | .more slot rest => slot.bound ++ rest.bound

def Slot.bound : Slot -> List Text
  | .hole _ => []
  | .element _ _ target _ => target.bound

end

/-! ## What is found besides -/

/-- The names that a key comes to in the search of its pattern. -/
def Key.strays : Key -> List Text
  | written _ _ => []
  | computed code => standing [] code.1

def Lead.strays : Lead -> List Text
  | .plain | .rest _ => []
  | .key taken _ _ => taken.strays

def Fallback.strays : Fallback -> List Text
  | none _ => []
  | value _ code => standing [] code.1

/-- The names that are declared within a key. -/
def Lead.within : Lead -> List Text
  | .plain | .rest _ => []
  | .key taken _ _ => met taken.tokens

def Fallback.within : Fallback -> List Text
  | none _ => []
  | value _ code => met code.1

mutual

/-- The names that are no bindings, but to which the search of a pattern comes: those with which elements end
within its keys and defaults. -/
def Target.strays : Target -> List Text
  | .name _ => []
  | .pattern _ slots => slots.strays

def Slots.strays : Slots -> List Text
  | .last slot => slot.strays
  | .more slot rest => slot.strays ++ rest.strays

def Slot.strays : Slot -> List Text
  | .hole _ => []
  | .element _ lead target fallback => lead.strays ++ (target.strays ++ fallback.strays)

end

mutual

/-- The names that are declared within the keys and defaults of a pattern. -/
def Target.within : Target -> List Text
  | .name _ => []
  | .pattern _ slots => slots.within

def Slots.within : Slots -> List Text
  | .last slot => slot.within
  | .more slot rest => slot.within ++ rest.within

def Slot.within : Slot -> List Text
  | .hole _ => []
  | .element _ lead target fallback => lead.within ++ (target.within ++ fallback.within)

end

/-! ## Brackets of patterns -/

section Balanced

theorem balanced_marks {marks : Text} (plain : ∀ c ∈ marks, "()[]\x7b\x7d".toList.contains c = false) :
    Balanced anything (marks.map Token.mark) := by
  induction marks with
  | nil => exact .nil
  | cons c marks inductionHypothesis =>
      obtain ⟨here, behind⟩ := List.forall_mem_cons.mp plain
      exact .mark here rfl (inductionHypothesis behind)

theorem Blanks.balanced (blanks : Blanks) : Balanced anything blanks.tokens := by
  refine balanced_marks fun c member => Bool.eq_false_iff.mpr fun isBracket => ?_
  have visible : ∀ bracket ∈ "()[]\x7b\x7d".toList, isBlank bracket = false := Text.forall_mem_of_all (by decide)
  exact Bool.noConfusion ((blanks.2 c member).symm.trans (visible c (List.contains_iff_mem.mp isBracket)))

theorem Key.balanced (key : Key) : Balanced anything key.tokens := by
  cases key with
  | computed code => exact .group (Or.inl rfl) rfl code.2.anyhow .nil
  | written tokens areOfKey =>
      induction tokens with
      | nil => exact .nil
      | cons token tokens inductionHypothesis =>
          obtain ⟨here, behind⟩ := Bool.and_eq_true_iff.mp areOfKey
          cases token with
          | word letters => exact .word letters (inductionHypothesis behind)
          | mark c =>
              refine .mark (Bool.eq_false_iff.mpr fun isBracket => ?_) rfl (inductionHypothesis behind)
              have others : ∀ bracket ∈ "()[]\x7b\x7d".toList, isOfKey (.mark bracket) = false :=
                Text.forall_mem_of_all (by decide)
              exact Bool.noConfusion (here.symm.trans (others c (List.contains_iff_mem.mp isBracket)))

theorem Lead.balanced (lead : Lead) : Balanced anything lead.tokens := by
  cases lead with
  | plain => exact .nil
  | rest blanks => exact (balanced_marks (Text.forall_mem_of_all (by decide))).append blanks.balanced
  | key taken before after =>
      exact taken.balanced.append (before.balanced.append (.mark (by decide) rfl after.balanced))

theorem Fallback.balanced (fallback : Fallback) : Balanced anything fallback.tokens := by
  cases fallback with
  | none blanks => exact blanks.balanced
  | value blanks code => exact blanks.balanced.append (.mark (by decide) rfl code.2.anyhow)

theorem Brackets.isOpener (brackets : Brackets) : brackets.opener = '[' ∨ brackets.opener = '\x7b' := by
  cases brackets <;> decide

mutual

theorem Target.balanced (target : Target) : Balanced anything target.tokens := by
  match target with
  | .name name => exact .word name.1 .nil
  | .pattern brackets slots => exact .group brackets.isOpener rfl slots.balanced .nil

theorem Slots.balanced (slots : Slots) : Balanced anything slots.tokens := by
  match slots with
  | .last slot => exact slot.balanced
  | .more slot rest => exact slot.balanced.append (.mark (by decide) rfl rest.balanced)

theorem Slot.balanced (slot : Slot) : Balanced anything slot.tokens := by
  match slot with
  | .hole blanks => exact blanks.balanced
  | .element blanks lead target fallback =>
      exact blanks.balanced.append (lead.balanced.append (target.balanced.append fallback.balanced))

end

end Balanced

/-! ## Names found in patterns -/

section Standing

variable {behind : List Token}

theorem Blanks.endsElement_append (blanks : Blanks) (tokens : List Token) :
    endsElement (blanks.tokens ++ tokens) = endsElement tokens := by
  rw [endsElement, Blanks.tokens, dropWhile_marks blanks.2]
  rfl

theorem Blanks.standing_append (blanks : Blanks) (behind tokens : List Token) :
    standing behind (blanks.tokens ++ tokens) = standing behind tokens :=
  standing_marks behind blanks.1 tokens

theorem Blanks.standing_eq_nil (blanks : Blanks) (behind : List Token) : standing behind blanks.tokens = [] := by
  have whole := blanks.standing_append behind []
  rwa [List.append_nil] at whole

/-- No name within a key ends an element. -/
theorem endsElement_of_isOfKey {tokens : List Token} (areOfKey : tokens.all isOfKey = true) (before : Blanks)
    (behind : List Token) : endsElement (tokens ++ (before.tokens ++ .mark ':' :: behind)) = false := by
  induction tokens with
  | nil =>
      rw [List.nil_append, before.endsElement_append]
      rfl
  | cons token tokens inductionHypothesis =>
      obtain ⟨here, later⟩ := Bool.and_eq_true_iff.mp areOfKey
      cases token with
      | word letters => rfl
      | mark c =>
          rw [List.cons_append, endsElement]
          cases blank : isBlank c with
          | true =>
              rw [List.dropWhile_cons_of_pos (show (Token.mark c).isBlank = true from blank)]
              exact inductionHypothesis later
          | false =>
              rw [List.dropWhile_cons_of_neg (by simpa [Token.isBlank] using blank)]
              refine Bool.eq_false_iff.mpr fun ends => ?_
              have others : ∀ d ∈ [',', '\x7d', ']', '='], isOfKey (.mark d) = false :=
                Text.forall_mem_of_all (by decide)
              exact Bool.noConfusion (here.symm.trans (others c (List.contains_iff_mem.mp ends)))

theorem Key.standing_eq (key : Key) (before : Blanks) (behind : List Token) :
    standing (before.tokens ++ .mark ':' :: behind) key.tokens = key.strays := by
  cases key with
  | computed code =>
      have isBehind : standing (before.tokens ++ .mark ':' :: behind) [.mark ']'] = [] := rfl
      rw [Key.tokens, standing, standing_append, isBehind, List.append_nil]
      exact standing_of_endsElement rfl code.1
  | written tokens areOfKey =>
      rw [Key.tokens, Key.strays]
      induction tokens with
      | nil => rfl
      | cons token tokens inductionHypothesis =>
          obtain ⟨-, later⟩ := Bool.and_eq_true_iff.mp areOfKey
          cases token with
          | mark c => exact inductionHypothesis later
          | word letters =>
              rw [standing, endsElement_of_isOfKey later before behind, inductionHypothesis later]
              rfl

theorem Lead.standing_eq (lead : Lead) (behind : List Token) : standing behind lead.tokens = lead.strays := by
  cases lead with
  | plain => rfl
  | rest blanks => exact (standing_marks behind "...".toList blanks.tokens).trans (blanks.standing_eq_nil behind)
  | key taken before after =>
      rw [Lead.tokens, Imports.standing_append, before.standing_append, standing, after.standing_eq_nil,
        List.append_nil, List.append_assoc, List.cons_append]
      exact taken.standing_eq before _

theorem Fallback.standing_eq (fallback : Fallback) (ends : endsElement behind = true) :
    standing behind fallback.tokens = fallback.strays := by
  cases fallback with
  | none blanks => exact blanks.standing_eq_nil behind
  | value blanks code =>
      rw [Fallback.tokens, blanks.standing_append, standing]
      exact standing_of_endsElement ends code.1

/-- Blanks and a default end what an element binds. -/
theorem Fallback.endsElement_append (fallback : Fallback) (ends : endsElement behind = true) :
    endsElement (fallback.tokens ++ behind) = true := by
  cases fallback with
  | none blanks => exact (blanks.endsElement_append behind).trans ends
  | value blanks code =>
      rw [Fallback.tokens, List.append_assoc, blanks.endsElement_append]
      rfl

theorem Name.standing_eq (name : Name) (ends : endsElement behind = true) :
    standing behind [.word name.1] = [name.1] := by
  obtain ⟨first, rest, isName, starts⟩ := name.2.starts
  have whole : nameIn name.1 = name.1 := by
    rw [nameIn, isName]
    exact List.dropWhile_cons_of_neg (by simp [starts])
  have nonempty : name.1.isEmpty = false := by rw [isName]; rfl
  rw [standing, List.nil_append, if_pos ends, whole, standing]
  simp [nonempty]

mutual

/-- In the text of a pattern, names stand where they are bound, and besides within keys and defaults. -/
theorem Target.mem_standing {behind : List Token} {text : Text} (target : Target)
    (ends : endsElement behind = true) :
    text ∈ standing behind target.tokens ↔ text ∈ target.bound ∨ text ∈ target.strays := by
  match target with
  | .name name =>
      rw [Target.tokens, name.standing_eq ends, Target.bound, Target.strays]
      simp
  | .pattern brackets slots =>
      have closer : endsElement ([.mark (closerOf brackets.opener)] ++ behind) = true := by
        cases brackets <;> rfl
      have nothing : standing behind [.mark (closerOf brackets.opener)] = [] := rfl
      rw [Target.tokens, standing, Imports.standing_append, nothing, List.append_nil, Target.bound, Target.strays]
      exact slots.mem_standing closer

theorem Slots.mem_standing {behind : List Token} {text : Text} (slots : Slots)
    (ends : endsElement behind = true) :
    text ∈ standing behind slots.tokens ↔ text ∈ slots.bound ∨ text ∈ slots.strays := by
  match slots with
  | .last slot => exact slot.mem_standing ends
  | .more slot rest =>
      rw [Slots.tokens, Imports.standing_append, standing, List.mem_append, slot.mem_standing rfl,
        rest.mem_standing ends, Slots.bound, Slots.strays, List.mem_append, List.mem_append]
      exact or_or_or_comm

theorem Slot.mem_standing {behind : List Token} {text : Text} (slot : Slot)
    (ends : endsElement behind = true) :
    text ∈ standing behind slot.tokens ↔ text ∈ slot.bound ∨ text ∈ slot.strays := by
  match slot with
  | .hole blanks =>
      rw [Slot.tokens, blanks.standing_eq_nil]
      simp [Slot.bound, Slot.strays]
  | .element blanks lead target fallback =>
      rw [Slot.tokens, blanks.standing_append, Imports.standing_append, lead.standing_eq, Imports.standing_append,
        fallback.standing_eq ends, List.mem_append, List.mem_append,
        target.mem_standing (fallback.endsElement_append ends), Slot.bound, Slot.strays]
      simp only [List.mem_append]
      rw [or_assoc, or_left_comm]

end

end Standing

/-! ## Names declared within patterns -/

section Within

theorem Blanks.met_append (blanks : Blanks) (tokens : List Token) : met (blanks.tokens ++ tokens) = met tokens :=
  met_marks blanks.1 tokens

theorem Blanks.closes_append (blanks : Blanks) (tokens : List Token) :
    closes (blanks.tokens ++ tokens) = closes tokens :=
  closes_marks blanks.2 tokens

theorem Lead.mem_met_append (lead : Lead) {rest : List Token} {text : Text} :
    text ∈ met (lead.tokens ++ rest) ↔ text ∈ lead.within ∨ text ∈ met rest := by
  cases lead with
  | plain => simp [Lead.tokens, Lead.within]
  | rest blanks =>
      rw [Lead.tokens, List.append_assoc, met_marks, blanks.met_append]
      simp [Lead.within]
  | key taken before after =>
      have closed : closes (before.tokens ++ .mark ':' :: after.tokens ++ rest) = true := by
        rw [List.append_assoc, before.closes_append]
        rfl
      rw [Lead.tokens, List.append_assoc, Imports.mem_met_append taken.balanced (Or.inl closed), List.append_assoc,
        before.met_append, List.cons_append, met_mark, after.met_append, Lead.within]

theorem Fallback.closes_append (fallback : Fallback) {rest : List Token} (closed : closes rest = true) :
    closes (fallback.tokens ++ rest) = true := by
  cases fallback with
  | none blanks => exact (blanks.closes_append rest).trans closed
  | value blanks code =>
      rw [Fallback.tokens, List.append_assoc, blanks.closes_append]
      rfl

theorem Fallback.mem_met_append (fallback : Fallback) {rest : List Token} (closed : closes rest = true)
    {text : Text} : text ∈ met (fallback.tokens ++ rest) ↔ text ∈ fallback.within ∨ text ∈ met rest := by
  cases fallback with
  | none blanks =>
      rw [Fallback.tokens, blanks.met_append]
      simp [Fallback.within]
  | value blanks code =>
      rw [Fallback.tokens, List.append_assoc, blanks.met_append, List.cons_append, met_mark,
        Imports.mem_met_append code.2 (Or.inl closed), Fallback.within]

mutual

/-- In the text of a pattern, names are declared within keys and defaults only. -/
theorem Target.mem_met_append (target : Target) {rest : List Token} (closed : closes rest = true) {text : Text} :
    text ∈ met (target.tokens ++ rest) ↔ text ∈ target.within ∨ text ∈ met rest := by
  match target with
  | .name name =>
      rw [Target.tokens, List.singleton_append, met_word (Or.inl closed)]
      simp [Target.within]
  | .pattern brackets slots =>
      have closer : closes (.mark (closerOf brackets.opener) :: rest) = true := by
        cases brackets <;> rfl
      rw [Target.tokens, List.cons_append, met_mark, List.append_assoc, List.singleton_append,
        slots.mem_met_append closer, met_mark, Target.within]

theorem Slots.mem_met_append (slots : Slots) {rest : List Token} (closed : closes rest = true) {text : Text} :
    text ∈ met (slots.tokens ++ rest) ↔ text ∈ slots.within ∨ text ∈ met rest := by
  match slots with
  | .last slot => exact slot.mem_met_append closed
  | .more slot others =>
      rw [Slots.tokens, List.append_assoc, List.cons_append, slot.mem_met_append rfl, met_mark,
        others.mem_met_append closed, Slots.within, List.mem_append, or_assoc]

theorem Slot.mem_met_append (slot : Slot) {rest : List Token} (closed : closes rest = true) {text : Text} :
    text ∈ met (slot.tokens ++ rest) ↔ text ∈ slot.within ∨ text ∈ met rest := by
  match slot with
  | .hole blanks =>
      rw [Slot.tokens, blanks.met_append]
      simp [Slot.within]
  | .element blanks lead target fallback =>
      rw [Slot.tokens, List.append_assoc, blanks.met_append, List.append_assoc, lead.mem_met_append,
        List.append_assoc, target.mem_met_append (fallback.closes_append closed), fallback.mem_met_append closed,
        Slot.within, List.mem_append, List.mem_append, or_assoc, or_assoc]

end

end Within

/-! ## Statements -/

/-- A stretch of blanks that keeps two words apart. -/
abbrev Gap := { text : Text // text ≠ [] ∧ ∀ c ∈ text, isBlank c = true }

def Gap.tokens (gap : Gap) : List Token :=
  gap.1.map Token.mark

/-- What stands between the keyword of a function and its name: blanks, or the star of a generator. -/
inductive FunctionLead where
  | plain (gap : Gap)
  | generator (before after : Blanks)

def FunctionLead.marks : FunctionLead -> Text
  | plain gap => gap.1
  | generator before after => before.1 ++ '*' :: after.1

def FunctionLead.tokens (lead : FunctionLead) : List Token :=
  lead.marks.map Token.mark

/-- Whether the name behind is found: the star of a generator has to follow the keyword at once, and blanks the
star. -/
def FunctionLead.isRead : FunctionLead -> Bool
  | plain _ => true
  | generator before after => before.1.isEmpty && !after.1.isEmpty

/-- The parameters and the body of a function. -/
structure Routine where
  before : Blanks
  parameters : Code anything
  between : Blanks
  body : Code anything

def Routine.tokens (routine : Routine) : List Token :=
  routine.before.tokens ++ .mark '(' :: (routine.parameters.1 ++ .mark ')' ::
    (routine.between.tokens ++ .mark '\x7b' :: (routine.body.1 ++ [.mark '\x7d'])))

/-- A name from which a declarator is initialised, behind its equality sign. -/
structure Initialiser where
  before : Blanks
  after : Blanks
  source : Name
  behind : Blanks

def Initialiser.tokens (initialiser : Initialiser) : List Token :=
  initialiser.before.tokens ++ .mark '=' :: (initialiser.after.tokens ++
    .word initialiser.source.1 :: initialiser.behind.tokens)

/-- The declarators of a statement, which commas keep apart, and whether a semicolon ends them. -/
inductive Declarators where
  | last (target : Target) (initialiser : Initialiser) (ended : Bool)
  | more (target : Target) (initialiser : Initialiser) (blanks : Blanks) (rest : Declarators)

namespace Declarators

def first : Declarators -> Target
  | last target _ _ => target
  | more target _ _ _ => target

/-- What stands behind the first target. -/
def behindFirst : Declarators -> List Token
  | last _ initialiser ended => initialiser.tokens ++ if ended then [.mark ';'] else []
  | more _ initialiser blanks rest =>
      initialiser.tokens ++ .mark ',' :: (blanks.tokens ++ (rest.first.tokens ++ rest.behindFirst))

def tokens (declarators : Declarators) : List Token :=
  declarators.first.tokens ++ declarators.behindFirst

def bound : Declarators -> List Text
  | last target _ _ => target.bound
  | more target _ _ rest => target.bound ++ rest.bound

def within : Declarators -> List Text
  | last target _ _ => target.within
  | more target _ _ rest => target.within ++ rest.within

theorem bound_of_first (declarators : Declarators) {name : Text} (isBound : name ∈ declarators.first.bound) :
    name ∈ declarators.bound := by
  cases declarators with
  | last => exact isBound
  | more => exact List.mem_append_left _ isBound

/-- Whether the last name is set off from what follows: a semicolon does, and else the name must not end with a
keyword behind a dollar sign. -/
def IsPlain : Declarators -> Prop
  | last _ initialiser ended => ended = true ∨ lastPart initialiser.source.1 ∉ declarationKeywords
  | more _ _ _ rest => rest.IsPlain

end Declarators

/-- The declaration of a function, a class or variables. -/
inductive Statement where
  | ofFunction (asynchronous : Option Gap) (lead : FunctionLead) (name : Name) (routine : Routine)
  | ofClass (gap : Gap) (name : Name) (heritage : Code fun c => !([',', ';', '\x7b'].contains c))
      (body : Code anything)
  | ofVariables (keyword : { letters : Text // letters ∈ variableKeywords }) (lead : Blanks)
      (declarators : Declarators)

namespace Statement

def tokens : Statement -> List Token
  | ofFunction asynchronous lead name routine =>
      (asynchronous.elim [] fun gap => .word "async".toList :: gap.tokens) ++
        .word "function".toList :: (lead.tokens ++ .word name.1 :: routine.tokens)
  | ofClass gap name heritage body =>
      .word "class".toList :: (gap.tokens ++ .word name.1 :: (heritage.1 ++
        .mark '\x7b' :: (body.1 ++ [.mark '\x7d'])))
  | ofVariables keyword lead declarators => .word keyword.1 :: (lead.tokens ++ declarators.tokens)

/-- The names that a statement binds. -/
def bound : Statement -> List Text
  | ofFunction _ _ name _ => [name.1]
  | ofClass _ name _ _ => [name.1]
  | ofVariables _ _ declarators => declarators.bound

/-- The bound names to which the searches come: of declarators those of the first one only, and of a pattern that
follows its keyword at once none. -/
def reached : Statement -> List Text
  | ofFunction _ lead name _ => if lead.isRead then [name.1] else []
  | ofClass _ name _ _ => [name.1]
  | ofVariables _ lead declarators => if lead.1.isEmpty then [] else declarators.first.bound

/-- The names to which the searches come besides: what is declared within the code of a statement, and the names
with which elements end in the keys and defaults of its first pattern. -/
def strays : Statement -> List Text
  | ofFunction _ _ _ routine => met routine.parameters.1 ++ met routine.body.1
  | ofClass _ _ heritage body => met heritage.1 ++ met body.1
  | ofVariables _ lead declarators =>
      (if lead.1.isEmpty then [] else declarators.first.strays) ++ declarators.within

/-- Whether no keyword, behind a dollar sign, stands where a declaration could go on behind it: at the end of a
statement without semicolon, and in front of the body of a class. -/
def IsPlain : Statement -> Prop
  | ofFunction _ _ _ _ => True
  | ofClass _ name heritage _ => lastPart name.1 ∉ declarationKeywords ∧ dangles heritage.1 = false
  | ofVariables _ _ declarators => declarators.IsPlain

end Statement

/-! ## Names found in statements -/

section Found

variable {rest : List Token} {text : Text}

theorem lastPart_of_mem {keyword : Text} (isKeyword : keyword ∈ declarationKeywords) : lastPart keyword = keyword := by
  have checked : declarationKeywords.all (fun keyword => lastPart keyword == keyword) = true := by decide
  exact eq_of_beq (List.all_eq_true.mp checked keyword isKeyword)

theorem nameAhead?_marks {between : Text} (nonempty : between ≠ []) (blank : ∀ c ∈ between, isBlank c = true)
    (name : Name) (later : List Token) :
    nameAhead? (between.map Token.mark ++ .word name.1 :: later) = some (name.1, later) := by
  obtain ⟨first, others, isName, starts⟩ := name.2.starts
  have startsHere : name.1.head?.any Character.startsName = true := by
    rw [isName]
    exact starts
  rw [nameAhead?, gapAhead?_marks nonempty blank rfl]
  exact if_pos startsHere

/-- The name behind the keyword of a function is found just if the lead is read. -/
theorem FunctionLead.nameAhead?_eq (lead : FunctionLead) (name : Name) (later : List Token) :
    nameAhead? (behindStar "function".toList (lead.tokens ++ .word name.1 :: later)) =
      if lead.isRead then some (name.1, later) else none := by
  cases lead with
  | plain gap =>
      rw [FunctionLead.tokens, FunctionLead.marks, behindStar_marks _ gap.2.1 gap.2.2,
        nameAhead?_marks gap.2.1 gap.2.2 name]
      rfl
  | generator before after =>
      obtain ⟨before, blankBefore⟩ := before
      obtain ⟨after, blankAfter⟩ := after
      rw [FunctionLead.tokens, FunctionLead.marks, FunctionLead.isRead]
      dsimp only
      cases before with
      | nil =>
          have isBehind : behindStar "function".toList (('*' :: after).map Token.mark ++ .word name.1 :: later) =
              after.map Token.mark ++ .word name.1 :: later := by
            rw [List.map_cons, List.cons_append, behindStar, if_pos rfl]
          rw [List.nil_append, isBehind]
          cases after with
          | nil => rfl
          | cons c after => exact nameAhead?_marks (List.cons_ne_nil _ _) blankAfter name later
      | cons c before =>
          have split : (c :: before ++ '*' :: after).map Token.mark ++ .word name.1 :: later =
              (c :: before).map Token.mark ++ .mark '*' :: (after.map Token.mark ++ .word name.1 :: later) := by
            simp
          rw [split, behindStar_marks _ (List.cons_ne_nil _ _) blankBefore, nameAhead?,
            gapAhead?_marks (List.cons_ne_nil _ _) blankBefore rfl]
          rfl

theorem FunctionLead.met_eq (lead : FunctionLead) (name : Name) {later : List Token} (closed : closes later = true) :
    met (.word "function".toList :: (lead.tokens ++ .word name.1 :: later)) =
      (if lead.isRead then [name.1] else []) ++ met later := by
  have isKeyword : lastPart "function".toList ∈ declarationKeywords := by decide
  have isSame : lastPart "function".toList = "function".toList := by decide
  have isAhead := lead.nameAhead?_eq name later
  cases isRead : lead.isRead with
  | true =>
      rw [isRead, if_pos rfl, ← isSame] at isAhead
      rw [met_of_nameAhead? isKeyword isAhead (Or.inl closed)]
      rfl
  | false =>
      rw [isRead, if_neg Bool.false_ne_true] at isAhead
      have noPattern : unpacked "function".toList (lead.tokens ++ .word name.1 :: later) = [] :=
        if_neg (by decide)
      rw [met_of_unnamed (fun _ => isSame.symm ▸ isAhead) noPattern, FunctionLead.tokens, met_marks,
        met_word (Or.inl closed)]
      rfl

theorem Routine.closes_append (routine : Routine) (rest : List Token) :
    closes (routine.tokens ++ rest) = true := by
  rw [Routine.tokens, List.append_assoc, routine.before.closes_append]
  rfl

theorem Routine.mem_met_append (routine : Routine) :
    text ∈ met (routine.tokens ++ rest) ↔
      (text ∈ met routine.parameters.1 ∨ text ∈ met routine.body.1) ∨ text ∈ met rest := by
  rw [Routine.tokens, List.append_assoc, routine.before.met_append, List.cons_append, met_mark, List.append_assoc,
    Imports.mem_met_append routine.parameters.2 (Or.inl rfl), List.cons_append, met_mark, List.append_assoc,
    routine.between.met_append, List.cons_append, met_mark, List.append_assoc,
    Imports.mem_met_append routine.body.2 (Or.inl rfl), List.singleton_append, met_mark, or_assoc]

theorem Initialiser.closes_append (initialiser : Initialiser) (rest : List Token) :
    closes (initialiser.tokens ++ rest) = true := by
  rw [Initialiser.tokens, List.append_assoc, initialiser.before.closes_append]
  rfl

/-- The name from which a declarator is initialised declares nothing. -/
theorem Initialiser.met_append (initialiser : Initialiser)
    (quiet : closes rest = true ∨ lastPart initialiser.source.1 ∉ declarationKeywords) :
    met (initialiser.tokens ++ rest) = met rest := by
  have quietHere : closes (initialiser.behind.tokens ++ rest) = true ∨
      lastPart initialiser.source.1 ∉ declarationKeywords := by
    rwa [initialiser.behind.closes_append]
  rw [Initialiser.tokens, List.append_assoc, initialiser.before.met_append, List.cons_append, met_mark,
    List.append_assoc, initialiser.after.met_append, List.cons_append, met_word quietHere,
    initialiser.behind.met_append]

/-- Behind a keyword, the names of a target are found if something stands in between. -/
theorem Target.mem_met_keyword (target : Target) {keyword : Text} (isKeyword : keyword ∈ variableKeywords)
    (lead : Blanks) (apart : (target.tokens ++ rest).head?.any Token.isWord = true → lead.1 ≠ [])
    (closed : closes rest = true) :
    text ∈ met (.word keyword :: (lead.tokens ++ (target.tokens ++ rest))) ↔
      (text ∈ (if lead.1.isEmpty then [] else target.bound) ∨
        text ∈ if lead.1.isEmpty then [] else target.strays) ∨
          text ∈ met (target.tokens ++ rest) := by
  have isDeclaration : keyword ∈ declarationKeywords := variableKeywords_subset isKeyword
  have isSame := lastPart_of_mem isDeclaration
  have notFunction : lastPart keyword ≠ "function".toList := by
    rw [isSame]
    rintro rfl
    exact absurd isKeyword (by decide)
  have isLast : lastPart keyword ∈ variableKeywords := isSame.symm ▸ isKeyword
  match target with
  | .name given =>
      have nonempty : lead.1 ≠ [] := apart rfl
      have isAhead : nameAhead? (behindStar (lastPart keyword) (lead.tokens ++ .word given.1 :: rest)) =
          some (given.1, rest) := by
        rw [behindStar_of_ne notFunction]
        exact nameAhead?_marks nonempty lead.2 given rest
      rw [Target.tokens, List.singleton_append,
        met_of_nameAhead? (variableKeywords_subset isLast) isAhead (Or.inl closed), met_word (Or.inl closed)]
      simp [Target.bound, Target.strays, nonempty]
  | .pattern brackets slots =>
      have isPattern : (Target.pattern brackets slots).tokens ++ rest =
          .mark brackets.opener :: (slots.tokens ++ .mark (closerOf brackets.opener) :: rest) := by
        simp [Target.tokens]
      have visible : (Token.mark brackets.opener).isBlank = false := by cases brackets <;> decide
      have isAhead : gapAhead? (lead.tokens ++ ((Target.pattern brackets slots).tokens ++ rest)) =
          if lead.1.isEmpty then none
          else some (.mark brackets.opener :: (slots.tokens ++ .mark (closerOf brackets.opener) :: rest)) := by
        obtain ⟨between, blank⟩ := lead
        rw [isPattern]
        cases between with
        | nil => exact if_neg (Bool.eq_false_iff.mp visible)
        | cons c between => exact gapAhead?_marks (List.cons_ne_nil _ _) blank visible _
      have unnamed : nameAhead? (lead.tokens ++ ((Target.pattern brackets slots).tokens ++ rest)) = none := by
        rw [nameAhead?, isAhead]
        cases lead.1.isEmpty <;> rfl
      have isUnpacked : unpacked keyword (lead.tokens ++ ((Target.pattern brackets slots).tokens ++ rest)) =
          if lead.1.isEmpty then [] else standing [] slots.tokens := by
        have accepted : (brackets.opener = '[' || brackets.opener = '\x7b') = true := by cases brackets <;> decide
        rw [unpacked, if_pos (List.contains_iff_mem.mpr isLast), bracketAhead?, isAhead]
        cases lead.1.isEmpty with
        | true => rfl
        | false =>
            simp only [Bool.false_eq_true, if_false, accepted, if_true,
              slots.balanced.within_closed brackets.isOpener, Option.getD_some]
      rw [mem_met_of_unnamed fun _ => (behindStar_of_ne notFunction _).symm ▸ unnamed, isUnpacked, lead.met_append]
      refine or_congr_left ?_
      cases lead.1.isEmpty with
      | true => simp
      | false => exact slots.mem_standing rfl

namespace Declarators

theorem closes_append (declarators : Declarators) (rest : List Token) :
    closes (declarators.behindFirst ++ rest) = true := by
  cases declarators with
  | last _ initialiser _ =>
      rw [behindFirst, List.append_assoc]
      exact initialiser.closes_append _
  | more _ initialiser _ _ =>
      rw [behindFirst, List.append_assoc]
      exact initialiser.closes_append _

/-- Without their keyword, declarators declare nothing but what is declared within their patterns. -/
theorem mem_met_append (declarators : Declarators) (plain : declarators.IsPlain) :
    text ∈ met (declarators.first.tokens ++ (declarators.behindFirst ++ rest)) ↔
      text ∈ declarators.within ∨ text ∈ met rest := by
  induction declarators with
  | last target initialiser ended =>
      have isBehind : met (behindFirst (.last target initialiser ended) ++ rest) = met rest := by
        cases ended with
        | true =>
            rw [behindFirst, List.append_assoc]
            exact (initialiser.met_append (Or.inl rfl)).trans (met_mark ';' rest)
        | false =>
            rw [behindFirst, List.append_assoc]
            exact initialiser.met_append (Or.inr (plain.resolve_left Bool.false_ne_true))
      rw [first, target.mem_met_append (closes_append _ rest), isBehind, within]
  | more target initialiser blanks others inductionHypothesis =>
      have isBehind : met (behindFirst (.more target initialiser blanks others) ++ rest) =
          met (others.first.tokens ++ (others.behindFirst ++ rest)) := by
        rw [behindFirst, List.append_assoc, initialiser.met_append (Or.inl rfl), List.cons_append, met_mark,
          List.append_assoc, blanks.met_append, List.append_assoc]
      rw [first, target.mem_met_append (closes_append _ rest), isBehind, inductionHypothesis plain, within,
        List.mem_append, or_assoc]

end Declarators

/-- Behind what a statement binds and declares within, nothing of it is found. -/
theorem Statement.mem_met_append (statement : Statement) (are : AreTokens (statement.tokens ++ rest))
    (plain : statement.IsPlain) :
    text ∈ met (statement.tokens ++ rest) ↔
      (text ∈ statement.reached ∨ text ∈ statement.strays) ∨ text ∈ met rest := by
  cases statement with
  | ofFunction asynchronous lead name routine =>
      have isBehind : met ((Statement.ofFunction asynchronous lead name routine).tokens ++ rest) =
          met (.word "function".toList :: (lead.tokens ++ .word name.1 :: (routine.tokens ++ rest))) := by
        have isText : (Statement.ofFunction asynchronous lead name routine).tokens ++ rest =
            (asynchronous.elim [] fun gap => .word "async".toList :: gap.tokens) ++
              .word "function".toList :: (lead.tokens ++ .word name.1 :: (routine.tokens ++ rest)) := by
          simp [Statement.tokens]
        rw [isText]
        cases asynchronous with
        | none => rfl
        | some gap =>
            have notKeyword : lastPart "async".toList ∉ declarationKeywords := by decide
            rw [Option.elim_some, List.cons_append, met_word (Or.inr notKeyword), Gap.tokens, met_marks]
      rw [isBehind, lead.met_eq name (routine.closes_append rest), List.mem_append, routine.mem_met_append,
        Statement.reached, Statement.strays, List.mem_append]
      simp only [or_assoc]
  | ofClass gap name heritage body =>
      have isText : (Statement.ofClass gap name heritage body).tokens ++ rest =
          .word "class".toList :: (gap.tokens ++ .word name.1 :: (heritage.1 ++
            .mark '\x7b' :: (body.1 ++ .mark '\x7d' :: rest))) := by
        simp [Statement.tokens]
      have isKeyword : lastPart "class".toList ∈ declarationKeywords := by decide
      have notFunction : lastPart "class".toList ≠ "function".toList := by decide
      have isAhead : nameAhead? (behindStar (lastPart "class".toList) (gap.tokens ++ .word name.1 :: (heritage.1 ++
          .mark '\x7b' :: (body.1 ++ .mark '\x7d' :: rest)))) =
            some (name.1, heritage.1 ++ .mark '\x7b' :: (body.1 ++ .mark '\x7d' :: rest)) := by
        rw [behindStar_of_ne notFunction]
        exact nameAhead?_marks gap.2.1 gap.2.2 name _
      have closed : closes (.mark '\x7d' :: rest) = true := rfl
      rw [isText, met_of_nameAhead? isKeyword isAhead (Or.inr plain.1), List.mem_cons,
        Imports.mem_met_append heritage.2 (Or.inr plain.2), met_mark, Imports.mem_met_append body.2 (Or.inl closed),
        met_mark, Statement.reached, Statement.strays, List.mem_singleton, List.mem_append]
      simp only [or_assoc]
  | ofVariables keyword lead declarators =>
      have isText : (Statement.ofVariables keyword lead declarators).tokens ++ rest =
          .word keyword.1 :: (lead.tokens ++ (declarators.first.tokens ++ (declarators.behindFirst ++ rest))) := by
        simp [Statement.tokens, Declarators.tokens]
      rw [isText] at are
      have apart : (declarators.first.tokens ++ (declarators.behindFirst ++ rest)).head?.any Token.isWord = true →
          lead.1 ≠ [] := by
        intro isWord isNil
        rw [Blanks.tokens, isNil, List.map_nil, List.nil_append] at are
        exact Bool.noConfusion (isWord.symm.trans (are.2.1 rfl))
      rw [isText, declarators.first.mem_met_keyword keyword.2 lead apart (declarators.closes_append rest),
        declarators.mem_met_append plain, Statement.reached, Statement.strays, List.mem_append]
      simp only [or_assoc]

end Found

/-! ## Programs -/

/-- A list of declarations with blanks in front of and behind each, of which no two words are next to each
other. -/
structure Program where
  lead : Blanks
  statements : List (Statement × Blanks)
  areTokens : AreTokens (lead.tokens ++ statements.flatMap fun entry => entry.1.tokens ++ entry.2.tokens)

namespace Program

variable (program : Program)

def tokens : List Token :=
  program.lead.tokens ++ program.statements.flatMap fun entry => entry.1.tokens ++ entry.2.tokens

def text : Text :=
  spell program.tokens

/-- The names that the declarations bind. -/
def bound : List Text :=
  program.statements.flatMap (·.1.bound)

def reached : List Text :=
  program.statements.flatMap (·.1.reached)

def strays : List Text :=
  program.statements.flatMap (·.1.strays)

def IsPlain : Prop :=
  ∀ entry ∈ program.statements, entry.1.IsPlain

/-- What is reached is bound. -/
theorem bound_of_reached : ∀ name ∈ program.reached, name ∈ program.bound := by
  intro name isReached
  obtain ⟨⟨statement, blanks⟩, isStatement, member⟩ := List.mem_flatMap.mp isReached
  refine List.mem_flatMap.mpr ⟨_, isStatement, ?_⟩
  cases statement with
  | ofFunction _ lead given _ =>
      cases isRead : lead.isRead with
      | true =>
          rw [Statement.reached, isRead, if_pos rfl] at member
          exact member
      | false =>
          rw [Statement.reached, isRead, if_neg Bool.false_ne_true] at member
          exact nomatch member
  | ofClass => exact member
  | ofVariables _ lead declarators =>
      cases isEmpty : lead.1.isEmpty with
      | true =>
          rw [Statement.reached, isEmpty, if_pos rfl] at member
          exact nomatch member
      | false =>
          rw [Statement.reached, isEmpty, if_neg Bool.false_ne_true] at member
          exact declarators.bound_of_first member

end Program

theorem mem_met_statements (statements : List (Statement × Blanks))
    (are : AreTokens (statements.flatMap fun entry => entry.1.tokens ++ entry.2.tokens))
    (plain : ∀ entry ∈ statements, entry.1.IsPlain) {text : Text} :
    text ∈ met (statements.flatMap fun entry => entry.1.tokens ++ entry.2.tokens) ↔
      text ∈ statements.flatMap (·.1.reached) ∨ text ∈ statements.flatMap (·.1.strays) := by
  induction statements with
  | nil => simp [met, declared, destructured]
  | cons entry statements inductionHypothesis =>
      obtain ⟨plainHere, plainBehind⟩ := List.forall_mem_cons.mp plain
      rw [List.flatMap_cons, List.append_assoc] at are ⊢
      obtain ⟨-, areBehind⟩ := are.of_append.2.of_append
      rw [entry.1.mem_met_append are plainHere, entry.2.met_append, inductionHypothesis areBehind plainBehind,
        List.flatMap_cons, List.flatMap_cons, List.mem_append, List.mem_append]
      exact or_or_or_comm

/-- The names found in a program are the ones that are reached in it and the strays. -/
theorem declaredNames_eq (program : Program) (plain : program.IsPlain) :
    declaredNames program.text = Text.sortedSet (program.reached ++ program.strays) := by
  have found : declaredNames program.text = Text.sortedSet (met program.tokens) :=
    declaredNames_spell program.areTokens
  rw [found, Text.sortedSet_eq_iff]
  intro text
  rw [Program.tokens, program.lead.met_append, mem_met_statements _ program.areTokens.of_append.2 plain,
    List.mem_append]
  rfl

/-- What declarations bind is found exactly just if every bound name is reached, or met by chance, and every name
met by chance is bound. -/
theorem declaredNames_eq_bound_iff (program : Program) (plain : program.IsPlain) :
    declaredNames program.text = Text.sortedSet program.bound ↔
      (∀ name ∈ program.bound, name ∈ program.reached ∨ name ∈ program.strays) ∧
        ∀ name ∈ program.strays, name ∈ program.bound := by
  have isBound := program.bound_of_reached
  rw [declaredNames_eq program plain, Text.sortedSet_eq_iff]
  simp only [List.mem_append]
  constructor
  · intro same
    exact ⟨fun name member => (same name).mpr member, fun name member => (same name).mp (Or.inr member)⟩
  · rintro ⟨found, known⟩ name
    exact ⟨fun member => member.elim (isBound name) (known name), found name⟩

section Samples

private def letter (c : Char) (starts : Character.startsName c = true) : Name :=
  ⟨[c], ⟨c, [], rfl, starts⟩, by simpa [Entry.IsNameText] using Pattern.continuesName_of_startsName starts⟩

private def nothing : Blanks :=
  ⟨[], List.forall_mem_nil _⟩

private def space : Blanks :=
  ⟨[' '], Text.forall_mem_of_all (by decide)⟩

private def lineEnd : Blanks :=
  ⟨['\n'], Text.forall_mem_of_all (by decide)⟩

/-- A pair that is unpacked, and a function. -/
def unpackedPair : Program where
  lead := nothing
  statements :=
    [(.ofVariables ⟨"const".toList, by decide⟩ space (.last
        (.pattern .array (.more (.element nothing .plain (.name (letter 'a' (by decide))) (.none nothing))
          (.last (.element space .plain (.name (letter 'b' (by decide))) (.none nothing)))))
        ⟨space, space, letter 's' (by decide), nothing⟩ true), lineEnd),
      (.ofFunction none (.plain ⟨[' '], by decide, space.2⟩) (letter 'f' (by decide))
        ⟨nothing, ⟨[], .nil⟩, space, ⟨[], .nil⟩⟩, lineEnd)]
  areTokens := by decide

/-- Two declarators in one statement. -/
def twoDeclarators : Program where
  lead := nothing
  statements :=
    [(.ofVariables ⟨"const".toList, by decide⟩ space
        (.more (.name (letter 'a' (by decide))) ⟨space, space, letter 'x' (by decide), nothing⟩ space
          (.last (.name (letter 'b' (by decide))) ⟨space, space, letter 'y' (by decide), nothing⟩ true)), lineEnd)]
  areTokens := by decide

theorem declaredNames_eq_bound_unpackedPair : unpackedPair.IsPlain ∧
    unpackedPair.text = "const [a, b] = s;\nfunction f() \x7b\x7d\n".toList ∧
      declaredNames unpackedPair.text = Text.sortedSet [['a'], ['b'], ['f']] := by
  have plain : unpackedPair.IsPlain := by
    intro entry member
    rcases List.mem_cons.mp member with rfl | member
    · exact Or.inl rfl
    · obtain rfl := List.mem_singleton.mp member
      exact trivial
  refine ⟨plain, rfl, (declaredNames_eq_bound_iff unpackedPair plain).mpr ⟨?_, ?_⟩⟩
  · exact fun name member => Or.inl member
  · have none : unpackedPair.strays = [] := by
      simp [Program.strays, unpackedPair, Statement.strays, Declarators.first, Declarators.within, Target.strays,
        Slots.strays, Slot.strays, Lead.strays, Fallback.strays, Target.within, Slots.within, Slot.within,
        Lead.within, Fallback.within, met, declared, destructured]
    rw [none]
    exact List.forall_mem_nil _

theorem declaredNames_ne_bound_twoDeclarators :
    twoDeclarators.text = "const a = x, b = y;\n".toList ∧ twoDeclarators.bound = [['a'], ['b']] ∧
      declaredNames twoDeclarators.text ≠ Text.sortedSet twoDeclarators.bound := by
  refine ⟨rfl, rfl, fun same => ?_⟩
  have plain : twoDeclarators.IsPlain := by
    intro entry member
    obtain rfl := List.mem_singleton.mp member
    exact Or.inl rfl
  rw [declaredNames_eq twoDeclarators plain, Text.sortedSet_eq_iff] at same
  have found : ['b'] ∈ twoDeclarators.reached ++ twoDeclarators.strays := (same ['b']).mpr (by decide)
  exact absurd found (by decide)

end Samples

end SceneBundler.Imports.Declaration
