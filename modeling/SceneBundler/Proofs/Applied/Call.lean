import SceneBundler.Proofs.Dialect.Peeling

/-!
Contract: calls with type arguments, as they are written.

Owns:
- type arguments as trees: names, arrays, unions, tuples, applications and function types;
- what stands next to what in a call, and the names in front of its angle brackets;
- how many more `>` than `<` a call has, and what is left of one outside its angle brackets.

Does not own: what normalization makes of a call.
-/

namespace SceneBundler.Applied

open Character (continuesName startsName)
open Dialect

/-- A name, as the pattern of names reads one. -/
structure Name where
  text : Text
  isWord : IsWord text

mutual

/-- A type argument. -/
inductive Argument where
  | name (name : Name)
  | array (item : Argument)
  | union (first second : Argument)
  | emptyTuple
  | tuple (items : Arguments)
  | apply (name : Name) (arguments : Arguments)
  | function (parameter : Name) (taken returned : Argument)

/-- A list of type arguments with at least one in it. -/
inductive Arguments where
  | last (argument : Argument)
  | more (argument : Argument) (others : Arguments)

end

mutual

def Argument.text : Argument -> Text
  | .name name => name.text
  | .array item => item.text ++ "[]".toList
  | .union first second => first.text ++ (" | ".toList ++ second.text)
  | .emptyTuple => "[]".toList
  | .tuple items => '[' :: (items.text ++ [']'])
  | .apply name arguments => name.text ++ '<' :: (arguments.text ++ ['>'])
  | .function parameter taken returned =>
      '(' :: (parameter.text ++ (": ".toList ++ (taken.text ++ (") => ".toList ++ returned.text))))

def Arguments.text : Arguments -> Text
  | .last argument => argument.text
  | .more argument others => argument.text ++ (", ".toList ++ others.text)

end

mutual

/-- The names that stand in front of angle brackets. -/
def Argument.heads : Argument -> List Name
  | .name _ => []
  | .array item => item.heads
  | .union first second => first.heads ++ second.heads
  | .emptyTuple => []
  | .tuple items => items.heads
  | .apply name arguments => name :: arguments.heads
  | .function _ taken returned => taken.heads ++ returned.heads

def Arguments.heads : Arguments -> List Name
  | .last argument => argument.heads
  | .more argument others => argument.heads ++ others.heads

end

mutual

/-- The number of function types. -/
def Argument.arrows : Argument -> Nat
  | .name _ => 0
  | .array item => item.arrows
  | .union first second => first.arrows + second.arrows
  | .emptyTuple => 0
  | .tuple items => items.arrows
  | .apply _ arguments => arguments.arrows
  | .function _ taken returned => taken.arrows + returned.arrows + 1

def Arguments.arrows : Arguments -> Nat
  | .last argument => argument.arrows
  | .more argument others => argument.arrows + others.arrows

end

/-- A call of a function on `x`, on a line. -/
def bareCall (name : Name) : Text :=
  name.text ++ "(x);\n".toList

/-- Such a call with type arguments. -/
def call (name : Name) (arguments : Arguments) : Text :=
  (Argument.apply name arguments).text ++ "(x);\n".toList

/-! ## What stands next to what -/

/-- Marks in front of which or behind which spaces stand. -/
def takesSpace (c : Char) : Bool :=
  ",|:=>".toList.contains c

/-- Whether every space of a text behind a character stands next to such a mark. -/
def isSpaced : (previous : Option Char) -> Text -> Bool
  | _, [] => true
  | previous, c :: rest =>
      (c != ' ' || previous.any takesSpace || rest.head?.any takesSpace) && isSpaced (some c) rest

/-- A text that can be peeled, in which every angle bracket that opens stands behind a name of some kind,
and every space next to a mark. -/
structure Sound (accepts : Text -> Prop) (text : Text) : Prop extends Peelable text where
  named : ∀ before after, text = before ++ '<' :: after →
    ∃ word, IsWord word ∧ accepts word ∧ EndsIn word before
  spaced : isSpaced none text = true

/-- Whether a text that ends in one character may stand in front of one that begins with another. -/
def Joins (c d : Char) : Prop :=
  Follows c d ∧ (continuesName c = true → continuesName d = false)

theorem isSpaced_append {first second : Text} {previous : Option Char}
    (spacedFirst : isSpaced previous first = true) (spacedSecond : isSpaced none second = true) :
    isSpaced previous (first ++ second) = true := by
  induction first generalizing previous with
  | nil =>
      cases second with
      | nil => rfl
      | cons c rest =>
          simp only [isSpaced, Option.any_none, Bool.or_false, Bool.and_eq_true] at spacedSecond
          obtain ⟨here, spacedRest⟩ := spacedSecond
          rw [List.nil_append, isSpaced, spacedRest, Bool.and_true, Bool.or_right_comm, here, Bool.true_or]
  | cons c rest inductionHypothesis =>
      obtain ⟨here, spacedRest⟩ := Bool.and_eq_true_iff.mp spacedFirst
      rw [List.cons_append, isSpaced, inductionHypothesis spacedRest, Bool.and_true]
      cases rest with
      | nil =>
          rw [List.head?_nil, Option.any_none, Bool.or_false] at here
          rw [here, Bool.true_or]
      | cons d rest => exact here

theorem takesSpace_of_isSpaced {before after : Text} {previous : Option Char}
    (spaced : isSpaced previous (before ++ ' ' :: after) = true) :
    (before.getLast?.or previous).any takesSpace = true ∨ after.head?.any takesSpace = true := by
  induction before generalizing previous with
  | nil =>
      have here := (Bool.and_eq_true_iff.mp spaced).1
      simpa using here
  | cons c before inductionHypothesis =>
      have later := inductionHypothesis (Bool.and_eq_true_iff.mp spaced).2
      rw [List.getLast?_cons]
      cases isLast : before.getLast? <;> simpa [isLast] using later

variable {accepts : Text -> Prop}

theorem Sound.append {first second : Text} (soundFirst : Sound accepts first)
    (soundSecond : Sound accepts second)
    (joins : ∀ c ∈ first.getLast?, ∀ d ∈ second.head?, Joins c d) : Sound accepts (first ++ second) where
  marks := List.forall_mem_append.mpr ⟨soundFirst.marks, soundSecond.marks⟩
  follows := List.isChain_append.mpr
    ⟨soundFirst.follows, soundSecond.follows, fun c isLast d isFirst => (joins c isLast d isFirst).1⟩
  named := by
    intro before after split
    rcases List.append_eq_append_iff.mp split with ⟨beyond, rfl, isSecond⟩ | ⟨beyond, rfl, isAngle⟩
    · obtain ⟨word, isWord, accepted, earlier, rfl, apart⟩ := soundSecond.named beyond after isSecond
      refine ⟨word, isWord, accepted, first ++ earlier, by simp, ?_⟩
      cases isLast : earlier.getLast? with
      | some c =>
          rw [isLast] at apart
          rwa [List.getLast?_append, isLast, Option.some_or]
      | none =>
          obtain rfl := List.getLast?_eq_none_iff.mp isLast
          obtain ⟨c, rest, isCons, starts⟩ := isWord.starts
          rw [List.append_nil, ← Bool.not_eq_true, Option.any_eq_true]
          rintro ⟨last, isLastOfFirst, continues⟩
          have joined := joins last isLastOfFirst c (by simp [isSecond, isCons])
          have notName := joined.2 continues
          rw [Pattern.continuesName_of_startsName starts] at notName
          contradiction
    · cases beyond with
      | nil =>
          obtain ⟨word, isWord, accepted, earlier, same, _⟩ := soundSecond.named [] after isAngle.symm
          exact absurd (List.append_eq_nil_iff.mp same.symm).2 isWord.ne_nil
      | cons c beyond =>
          obtain ⟨rfl, _⟩ := List.cons.inj isAngle
          exact soundFirst.named before beyond rfl
  spaced := isSpaced_append soundFirst.spaced soundSecond.spaced

/-- A text without angle brackets that open. -/
theorem Sound.of_not_mem {text : Text} (plain : text.all isCallMark = true ∧ text.IsChain Follows ∧
      '<' ∉ text ∧ isSpaced none text = true) : Sound accepts text where
  marks := List.all_eq_true.mp plain.1
  follows := plain.2.1
  named := fun before after split => absurd (by simp [split]) plain.2.2.1
  spaced := plain.2.2.2

theorem Name.sound (name : Name) : Sound accepts name.text := by
  have continues := name.isWord.continues
  refine .of_not_mem ⟨List.all_eq_true.mpr fun c member => by simp [isCallMark, continues c member], ?_,
    name.isWord.not_mem (by decide), ?_⟩
  · refine List.isChain_iff_forall_rel_of_append_cons_cons.mpr fun c d before after split => ?_
    exact follows_of_continuesName (continues c (by simp [split]))
  · have noSpace : ' ' ∉ name.text := name.isWord.not_mem (by decide)
    generalize name.text = text at noSpace
    generalize none = previous
    induction text generalizing previous with
    | nil => rfl
    | cons c rest inductionHypothesis =>
        obtain ⟨notSpace, noSpaceRest⟩ := List.ne_and_not_mem_of_not_mem_cons noSpace
        rw [isSpaced, inductionHypothesis noSpaceRest, Bool.and_true, bne_iff_ne.mpr notSpace.symm]
        rfl

/-! ## Written arguments -/

/-- What a type can begin with. -/
def beginsType (c : Char) : Bool :=
  startsName c || c == '[' || c == '('

/-- What a type can end with. -/
def endsType (c : Char) : Bool :=
  continuesName c || c == ']' || c == '>'

/-- What can stand directly in front of a type. -/
def standsAhead (c : Char) : Bool :=
  " <[(".toList.contains c

/-- What can stand directly behind a type. -/
def standsBehind (c : Char) : Bool :=
  " ,:[]>()".toList.contains c

/-- A sound text that begins and ends as a type does. -/
structure IsType (accepts : Text -> Prop) (text : Text) : Prop extends Sound accepts text where
  begins : text.head?.any beginsType = true
  ends : text.getLast?.any endsType = true

theorem joins_behind {c d : Char} (ends : endsType c = true) (stands : standsBehind d = true) : Joins c d := by
  have marks : ∀ mark ∈ " ,:[]>()".toList, continuesName mark = false ∧ mark ≠ '<' :=
    Text.forall_mem_of_all (by decide)
  obtain ⟨notName, notLess⟩ := marks d (List.contains_iff_mem.mp stands)
  refine ⟨?_, fun _ => notName⟩
  simp only [endsType, Bool.or_eq_true, beq_iff_eq] at ends
  rcases ends with (continues | rfl) | rfl
  · exact follows_of_continuesName continues
  · exact follows_of_not_mem (by decide)
  · exact ⟨nofun, fun _ => ⟨notName, notLess⟩, nofun, nofun, nofun, by decide⟩

theorem joins_ahead {c d : Char} (stands : standsAhead c = true) (begins : beginsType d = true) :
    Joins c d := by
  have marks : ∀ mark ∈ " <[(".toList, continuesName mark = false ∧ (mark = '<' ∨ mark ∉ "<>=|;\n".toList) :=
    Text.forall_mem_of_all (by decide)
  obtain ⟨notName, isLess⟩ := marks c (List.contains_iff_mem.mp stands)
  refine ⟨?_, fun isName => absurd isName (by rw [notName]; exact Bool.false_ne_true)⟩
  rcases isLess with rfl | other
  · simp only [beginsType, Bool.or_eq_true, beq_iff_eq, or_assoc] at begins
    exact ⟨fun _ => begins, nofun, nofun, nofun, nofun, by decide⟩
  · exact follows_of_not_mem other

theorem any_head?_append {first second : Text} {accepts : Char -> Bool}
    (begins : first.head?.any accepts = true) : (first ++ second).head?.any accepts = true := by
  cases first with
  | nil => contradiction
  | cons c rest => exact begins

theorem any_getLast?_append {first second : Text} {accepts : Char -> Bool}
    (ends : second.getLast?.any accepts = true) : (first ++ second).getLast?.any accepts = true := by
  rw [List.getLast?_append]
  cases isLast : second.getLast? with
  | none => simp [isLast] at ends
  | some c => simpa [isLast] using ends

namespace IsType

variable {first second word : Text}

/-- A type behind a word. -/
theorem lead (isType : IsType accepts first) (sound : Sound accepts word)
    (stands : word.getLast?.any standsAhead = true) : Sound accepts (word ++ first) := by
  refine sound.append isType.toSound fun c isLast d isFirst => joins_ahead ?_ ?_
  · simpa [show word.getLast? = some c from isLast] using stands
  · simpa [show first.head? = some d from isFirst] using isType.begins

/-- A type in front of a word. -/
theorem close (isType : IsType accepts first) (sound : Sound accepts word)
    (stands : word.head?.any standsBehind = true) : Sound accepts (first ++ word) := by
  refine isType.toSound.append sound fun c isLast d isFirst => joins_behind ?_ ?_
  · simpa [show first.getLast? = some c from isLast] using isType.ends
  · simpa [show word.head? = some d from isFirst] using stands

/-- A type between two words. -/
theorem enclose (isType : IsType accepts first) (soundLead : Sound accepts word)
    (standsAhead : word.getLast?.any standsAhead = true) (soundClose : Sound accepts second)
    (standsBehind : second.head?.any standsBehind = true) : Sound accepts (word ++ (first ++ second)) := by
  refine soundLead.append (isType.close soundClose standsBehind) fun c isLast d isFirst => joins_ahead ?_ ?_
  · simpa [show word.getLast? = some c from isLast] using standsAhead
  · have begins := @any_head?_append _ second _ isType.begins
    simpa [show (first ++ second).head? = some d from isFirst] using begins

/-- Two types with a word in between. -/
theorem joined (isFirst : IsType accepts first) (isSecond : IsType accepts second) (sound : Sound accepts word)
    (standsBehind : word.head?.any standsBehind = true) (standsAhead : word.getLast?.any standsAhead = true) :
    IsType accepts (first ++ (word ++ second)) where
  toSound := isFirst.close (isSecond.lead sound standsAhead) (any_head?_append standsBehind)
  begins := any_head?_append isFirst.begins
  ends := any_getLast?_append (any_getLast?_append isSecond.ends)

end IsType

theorem Name.isType (name : Name) : IsType accepts name.text where
  toSound := name.sound
  begins := by
    obtain ⟨first, rest, isText, starts⟩ := name.isWord.starts
    rw [isText, List.head?_cons, Option.any_some, beginsType, starts]
    rfl
  ends := by
    obtain ⟨last, isLast, continues⟩ := name.isWord.exists_getLast?
    rw [isLast, Option.any_some, endsType, continues]
    rfl

/-- A name in front of an angle bracket that opens. -/
theorem Name.sound_angle (name : Name) (accepted : accepts name.text) : Sound accepts (name.text ++ ['<']) := by
  have sound : Sound accepts name.text := name.sound
  refine ⟨⟨List.forall_mem_append.mpr ⟨sound.marks, Text.forall_mem_of_all (by decide)⟩, List.isChain_append.mpr
    ⟨sound.follows, by decide, fun c isLast d _ => ?_⟩⟩, fun before after split => ?_,
    isSpaced_append sound.spaced (by decide)⟩
  · exact follows_of_continuesName (name.isWord.continues c (List.mem_of_getLast? isLast))
  · have noLess : '<' ∉ name.text := name.isWord.not_mem (by decide)
    obtain rfl : before = name.text := by
      rcases List.append_eq_append_iff.mp split with ⟨beyond, rfl, isRest⟩ | ⟨beyond, isName, isRest⟩
      · cases beyond with
        | nil => rw [List.append_nil]
        | cons c beyond => simp at isRest
      · cases beyond with
        | nil => rw [isName, List.append_nil]
        | cons c beyond =>
            obtain ⟨rfl, _⟩ := List.cons.inj isRest
            exact absurd (by simp [isName]) noLess
    exact ⟨name.text, name.isWord, accepted, [], rfl, rfl⟩

mutual

/-- A written type argument is sound, if the names in front of its angle brackets are accepted. -/
theorem Argument.isType (argument : Argument) (heads : ∀ name ∈ argument.heads, accepts name.text) :
    IsType accepts argument.text := by
  cases argument with
  | name name => exact name.isType
  | array item =>
      have isItem := item.isType heads
      exact {
        toSound := isItem.close (.of_not_mem (by decide)) (by decide)
        begins := any_head?_append isItem.begins
        ends := any_getLast?_append (by decide) }
  | union first second =>
      obtain ⟨headsFirst, headsSecond⟩ := List.forall_mem_append.mp heads
      exact (first.isType headsFirst).joined (second.isType headsSecond)
        (.of_not_mem (by decide)) (by decide) (by decide)
  | emptyTuple =>
      exact {
        toSound := .of_not_mem (by decide)
        begins := by decide
        ends := by decide }
  | tuple items =>
      have areItems := items.isType heads
      have brackets := @IsType.enclose accepts items.text [']'] ['['] areItems
        (.of_not_mem (by decide)) (by decide)
        (.of_not_mem (by decide)) (by decide)
      exact {
        toSound := brackets
        begins := show beginsType '[' = true by decide
        ends := @any_getLast?_append ['['] _ _ (any_getLast?_append (by decide)) }
  | apply name arguments =>
      obtain ⟨accepted, headsArguments⟩ := List.forall_mem_cons.mp heads
      have areArguments := arguments.isType headsArguments
      have brackets := areArguments.enclose (name.sound_angle accepted) (any_getLast?_append (by decide))
        (.of_not_mem (by decide) : Sound accepts ['>']) (by decide)
      rw [List.append_assoc] at brackets
      exact {
        toSound := brackets
        begins := any_head?_append (@Name.isType accepts name).begins
        ends := any_getLast?_append (@any_getLast?_append ['<'] _ _ (any_getLast?_append (by decide))) }
  | function parameter taken returned =>
      obtain ⟨headsTaken, headsReturned⟩ := List.forall_mem_append.mp heads
      have parameterType : IsType accepts parameter.text := parameter.isType
      have soundParameter : Sound accepts (['('] ++ (parameter.text ++ ": ".toList)) :=
        parameterType.enclose (.of_not_mem (by decide)) (by decide)
          (.of_not_mem (by decide)) (by decide)
      have isArrow : IsType accepts (taken.text ++ (") => ".toList ++ returned.text)) :=
        (taken.isType headsTaken).joined (returned.isType headsReturned)
          (.of_not_mem (by decide)) (by decide) (by decide)
      have sound := isArrow.lead soundParameter (any_getLast?_append (any_getLast?_append (by decide)))
      rw [List.append_assoc, List.append_assoc] at sound
      exact {
        toSound := sound
        begins := show beginsType '(' = true by decide
        ends := @any_getLast?_append ['('] _ _ (any_getLast?_append (any_getLast?_append isArrow.ends)) }

theorem Arguments.isType (arguments : Arguments) (heads : ∀ name ∈ arguments.heads, accepts name.text) :
    IsType accepts arguments.text := by
  cases arguments with
  | last argument => exact argument.isType heads
  | more argument others =>
      obtain ⟨headsFirst, headsOthers⟩ := List.forall_mem_append.mp heads
      exact (argument.isType headsFirst).joined (others.isType headsOthers)
        (.of_not_mem (by decide)) (by decide) (by decide)

end

/-- A call is sound, if the names in front of its angle brackets are accepted. -/
theorem call_sound {name : Name} {arguments : Arguments}
    (heads : ∀ head ∈ name :: arguments.heads, accepts head.text) : Sound accepts (call name arguments) :=
  ((Argument.apply name arguments).isType heads).close
    (.of_not_mem (by decide)) (by decide)

/-! ## Names in front of angle brackets -/

/-- Whether an angle bracket of a text opens directly behind a given name. -/
def OpensBehind (word text : Text) : Prop :=
  ∃ before after, text = before ++ '<' :: after ∧ EndsIn word before

theorem OpensBehind.append {word text : Text} (opens : OpensBehind word text) (rest : Text) :
    OpensBehind word (text ++ rest) := by
  obtain ⟨before, after, rfl, ends⟩ := opens
  exact ⟨before, after ++ rest, by simp, ends⟩

theorem apart_append {front lead : Text} (apart : lead.getLast?.all continuesName = false) :
    (front ++ lead).getLast?.any continuesName = false := by
  rw [List.getLast?_append]
  cases isLast : lead.getLast? with
  | none => simp [isLast] at apart
  | some c => simpa [isLast] using apart

mutual

/-- Behind each name that stands in front of angle brackets, one opens. -/
theorem Argument.opensBehind (argument : Argument) {front : Text}
    (apart : front.getLast?.any continuesName = false) {head : Name} (member : head ∈ argument.heads) :
    OpensBehind head.text (front ++ argument.text) := by
  cases argument with
  | name name => contradiction
  | array item =>
      rw [Argument.text, ← List.append_assoc]
      exact (item.opensBehind apart member).append _
  | union first second =>
      rcases List.mem_append.mp member with ofFirst | ofSecond
      · rw [Argument.text, ← List.append_assoc]
        exact (first.opensBehind apart ofFirst).append _
      · rw [Argument.text, ← List.append_assoc, ← List.append_assoc]
        exact second.opensBehind (apart_append (by decide)) ofSecond
  | emptyTuple => contradiction
  | tuple items =>
      rw [Argument.text, ← List.singleton_append, ← List.append_assoc, ← List.append_assoc]
      exact (items.opensBehind (apart_append (by decide)) member).append _
  | apply name arguments =>
      rcases List.mem_cons.mp member with rfl | ofArguments
      · exact ⟨front ++ head.text, arguments.text ++ ['>'], by simp [Argument.text], front, rfl, apart⟩
      · have opens := arguments.opensBehind
          (apart_append (by decide) : (front ++ name.text ++ ['<']).getLast?.any continuesName = false) ofArguments
        simpa [Argument.text] using opens.append ['>']
  | function parameter taken returned =>
      rcases List.mem_append.mp member with ofTaken | ofReturned
      · have opens := taken.opensBehind (apart_append (by decide) :
          (front ++ '(' :: parameter.text ++ ": ".toList).getLast?.any continuesName = false) ofTaken
        simpa [Argument.text] using opens.append (") => ".toList ++ returned.text)
      · have opens := returned.opensBehind (apart_append (by decide) :
          (front ++ '(' :: (parameter.text ++ (": ".toList ++ taken.text)) ++
            ") => ".toList).getLast?.any continuesName = false) ofReturned
        simpa [Argument.text] using opens

theorem Arguments.opensBehind (arguments : Arguments) {front : Text}
    (apart : front.getLast?.any continuesName = false) {head : Name} (member : head ∈ arguments.heads) :
    OpensBehind head.text (front ++ arguments.text) := by
  cases arguments with
  | last argument => exact argument.opensBehind apart member
  | more argument others =>
      rcases List.mem_append.mp member with ofFirst | ofOthers
      · rw [Arguments.text, ← List.append_assoc]
        exact (argument.opensBehind apart ofFirst).append _
      · rw [Arguments.text, ← List.append_assoc, ← List.append_assoc]
        exact others.opensBehind (apart_append (by decide)) ofOthers

end

theorem call_opensBehind {name head : Name} {arguments : Arguments} (member : head ∈ name :: arguments.heads) :
    OpensBehind head.text (call name arguments) :=
  (@Argument.opensBehind (.apply name arguments) [] rfl head member).append _

/-! ## Angle brackets -/

theorem Name.count_greater (name : Name) : name.text.count '>' = name.text.count '<' := by
  rw [List.count_eq_zero.mpr (name.isWord.not_mem (by decide)),
    List.count_eq_zero.mpr (name.isWord.not_mem (by decide))]

mutual

/-- Each arrow has a `>` more than there are `<`. -/
theorem Argument.count_greater (argument : Argument) :
    argument.text.count '>' = argument.text.count '<' + argument.arrows := by
  cases argument with
  | name name => simp [Argument.text, Argument.arrows, name.count_greater]
  | array item => simp [Argument.text, Argument.arrows, item.count_greater]
  | union first second =>
      simp [Argument.text, Argument.arrows, first.count_greater, second.count_greater]
      omega
  | emptyTuple => simp [Argument.text, Argument.arrows]
  | tuple items => simp [Argument.text, Argument.arrows, items.count_greater]
  | apply name arguments =>
      simp [Argument.text, Argument.arrows, name.count_greater, arguments.count_greater]
      omega
  | function parameter taken returned =>
      simp [Argument.text, Argument.arrows, parameter.count_greater, taken.count_greater, returned.count_greater]
      omega

theorem Arguments.count_greater (arguments : Arguments) :
    arguments.text.count '>' = arguments.text.count '<' + arguments.arrows := by
  cases arguments with
  | last argument => exact argument.count_greater
  | more argument others =>
      simp [Arguments.text, Arguments.arrows, argument.count_greater, others.count_greater]
      omega

end

theorem call_count_greater (name : Name) (arguments : Arguments) :
    (call name arguments).count '>' = (call name arguments).count '<' + arguments.arrows := by
  simp [call, (Argument.apply name arguments).count_greater, Argument.arrows]

/-- What is left of a text outside its angle brackets, if they are balanced: each `<` opens, and each `>`
closes, some depth within them. -/
def outside : (depth : Nat) -> Text -> Option Text
  | 0, [] => some []
  | _ + 1, [] => none
  | 0, c :: rest =>
      if c = '<' then outside 1 rest else if c = '>' then none else (outside 0 rest).map (c :: ·)
  | depth + 1, c :: rest =>
      if c = '<' then outside (depth + 2) rest
      else if c = '>' then outside depth rest
      else outside (depth + 1) rest

theorem outside_append_within {text : Text} (noLess : '<' ∉ text) (noGreater : '>' ∉ text) (depth : Nat)
    (rest : Text) : outside (depth + 1) (text ++ rest) = outside (depth + 1) rest := by
  induction text with
  | nil => rfl
  | cons c text inductionHypothesis =>
      obtain ⟨notLess, noLessRest⟩ := List.ne_and_not_mem_of_not_mem_cons noLess
      obtain ⟨notGreater, noGreaterRest⟩ := List.ne_and_not_mem_of_not_mem_cons noGreater
      rw [List.cons_append, outside, if_neg notLess.symm, if_neg notGreater.symm,
        inductionHypothesis noLessRest noGreaterRest]

theorem outside_append_without {text : Text} (noLess : '<' ∉ text) (noGreater : '>' ∉ text)
    (rest : Text) : outside 0 (text ++ rest) = (outside 0 rest).map (text ++ ·) := by
  induction text with
  | nil => simp
  | cons c text inductionHypothesis =>
      obtain ⟨notLess, noLessRest⟩ := List.ne_and_not_mem_of_not_mem_cons noLess
      obtain ⟨notGreater, noGreaterRest⟩ := List.ne_and_not_mem_of_not_mem_cons noGreater
      rw [List.cons_append, outside, if_neg notLess.symm, if_neg notGreater.symm,
        inductionHypothesis noLessRest noGreaterRest, Option.map_map]
      rfl

/-- Without a `>` no angle bracket is closed. -/
theorem outside_eq_none {text : Text} (noGreater : '>' ∉ text) (depth : Nat) :
    outside (depth + 1) text = none := by
  induction text generalizing depth with
  | nil => rfl
  | cons c text inductionHypothesis =>
      obtain ⟨notGreater, noGreaterRest⟩ := List.ne_and_not_mem_of_not_mem_cons noGreater
      rw [outside, if_neg notGreater.symm, inductionHypothesis noGreaterRest, inductionHypothesis noGreaterRest,
        ite_self]

/-- What stands outside is kept when angle brackets are peeled. -/
theorem outside_eq_of_peels {text next : Text} (peels : Peels text next) : outside 0 text = outside 0 next := by
  obtain ⟨before, inner, after, word, _, ends, noLess, noGreater⟩ := peels
  clear ends
  generalize 0 = depth
  induction before generalizing depth with
  | nil => cases depth <;> simp [outside, outside_append_within noLess noGreater]
  | cons c before inductionHypothesis => cases depth <;> simp [outside, inductionHypothesis]

mutual

/-- Within angle brackets a type without arrows leaves nothing. -/
theorem Argument.outside_append (argument : Argument) (noArrow : argument.arrows = 0) (depth : Nat)
    (rest : Text) : outside (depth + 1) (argument.text ++ rest) = outside (depth + 1) rest := by
  cases argument with
  | name name =>
      exact outside_append_within (name.isWord.not_mem (by decide)) (name.isWord.not_mem (by decide)) depth rest
  | array item =>
      rw [Argument.text, List.append_assoc, item.outside_append noArrow,
        outside_append_within (by decide) (by decide)]
  | union first second =>
      obtain ⟨noArrowFirst, noArrowSecond⟩ := Nat.add_eq_zero_iff.mp noArrow
      rw [Argument.text, List.append_assoc, first.outside_append noArrowFirst, List.append_assoc,
        outside_append_within (by decide) (by decide), second.outside_append noArrowSecond]
  | emptyTuple => exact outside_append_within (by decide) (by decide) depth rest
  | tuple items =>
      rw [Argument.text, ← List.singleton_append, List.append_assoc,
        outside_append_within (by decide) (by decide), List.append_assoc, items.outside_append noArrow,
        outside_append_within (by decide) (by decide)]
  | apply name arguments =>
      rw [Argument.text, List.append_assoc,
        outside_append_within (name.isWord.not_mem (by decide)) (name.isWord.not_mem (by decide)),
        List.cons_append, outside, if_pos rfl, List.append_assoc, arguments.outside_append noArrow]
      rfl
  | function => exact absurd noArrow (Nat.succ_ne_zero _)

theorem Arguments.outside_append (arguments : Arguments) (noArrow : arguments.arrows = 0) (depth : Nat)
    (rest : Text) : outside (depth + 1) (arguments.text ++ rest) = outside (depth + 1) rest := by
  cases arguments with
  | last argument => exact argument.outside_append noArrow depth rest
  | more argument others =>
      obtain ⟨noArrowFirst, noArrowOthers⟩ := Nat.add_eq_zero_iff.mp noArrow
      rw [Arguments.text, List.append_assoc, argument.outside_append noArrowFirst, List.append_assoc,
        outside_append_within (by decide) (by decide), others.outside_append noArrowOthers]

end

/-- Without arrows, what stands outside the angle brackets of a call is the bare call. -/
theorem outside_call {name : Name} {arguments : Arguments} (noArrow : arguments.arrows = 0) :
    outside 0 (call name arguments) = some (bareCall name) := by
  rw [call, Argument.text, List.append_assoc,
    outside_append_without (name.isWord.not_mem (by decide)) (name.isWord.not_mem (by decide)),
    List.cons_append, outside, if_pos rfl, List.append_assoc, arguments.outside_append noArrow]
  rfl

end SceneBundler.Applied
