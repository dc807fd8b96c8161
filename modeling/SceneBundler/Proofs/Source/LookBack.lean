import SceneBundler.Proofs.Text.Blank
import SceneBundler.Source.Mask

/-!
Contract: what a quote, a slash or an angle bracket opens, as far as it is decided by looking back.

Owns:
- the last token of what was read, on which alone both tests for an operand depend;
- that a window shows what it has room for of that token behind the blanks;
- when a test within the window says the same as on everything that was read, and that it does so
  wherever there are not too many blanks;
- that behind a word which calls for no operand none is expected;
- that the reading of one character depends on what was read through the last token alone, where the
  window shows it;
- a division that is read as a regular expression, since the comment in front of it fills the window.

Does not own: what was read before the last token, and how far a literal reaches.
-/

namespace SceneBundler.Source

open Character (isAsciiWord isBlank)

variable {before token : Text} {mayCall : Char -> Bool}

/-! ## The last token -/

/-- The number of blanks that end what was read, which is given nearest character first. -/
def gap (before : Text) : Nat :=
  (before.takeWhile isBlank).length

/-- The last token of what was read, both nearest character first: the nearest character that is not
blank, with the rest of its word if it is a character of a word. -/
def lastToken (before : Text) : Text :=
  match before.dropWhile isBlank with
  | [] => []
  | c :: rest => if isAsciiWord c then (c :: rest).takeWhile isAsciiWord else [c]

/-- Whether a token calls for an operand: it is one of the words that do, or a mark that may, or there is
none since the source begins here. -/
def callsForOperand (mayCall : Char -> Bool) (token : Text) : Bool :=
  match token with
  | [] => true
  | c :: _ => if isAsciiWord c then wordsBeforeOperand.contains token.reverse else mayCall c

/-- Whether a quote opens a string behind a mark that is not blank and no character of a word. -/
def precedesString (c : Char) : Bool :=
  c != ')' && c != ']'

/-- Whether a slash opens a regular expression, and an angle bracket markup, behind such a mark. -/
def precedesOperand (c : Char) : Bool :=
  marksBeforeOperand.contains c

theorem not_marksBeforeOperand {c : Char} (ascii : isAsciiWord c = true) :
    marksBeforeOperand.contains c = false := by
  have marks : ∀ mark ∈ marksBeforeOperand, isAsciiWord mark = false := Text.forall_mem_of_all (by decide)
  rw [← Bool.not_eq_true, List.contains_iff_mem]
  intro member
  rw [marks c member] at ascii
  contradiction

theorem isBlank_of_isAsciiWord {c : Char} (ascii : isAsciiWord c = true) : isBlank c = false := by
  rw [← Bool.not_eq_true]
  intro blank
  rw [Character.isAsciiWord_of_isBlank blank] at ascii
  contradiction

theorem opensString_eq_callsForOperand (before : Text) :
    opensString before = callsForOperand precedesString (lastToken before) := by
  unfold opensString lastToken
  cases before.dropWhile isBlank with
  | nil => rfl
  | cons c rest =>
      dsimp only
      by_cases ascii : isAsciiWord c = true
      · rw [if_pos ascii, if_pos ascii, List.takeWhile_cons_of_pos ascii, callsForOperand, if_pos ascii,
          ← List.takeWhile_cons_of_pos ascii]
        rfl
      · rw [if_neg ascii, if_neg ascii, callsForOperand, if_neg ascii]
        rfl

theorem expectsOperand_eq_callsForOperand (before : Text) :
    expectsOperand before = callsForOperand precedesOperand (lastToken before) := by
  unfold expectsOperand lastToken
  cases before.dropWhile isBlank with
  | nil => rfl
  | cons c rest =>
      dsimp only
      by_cases ascii : isAsciiWord c = true
      · rw [not_marksBeforeOperand ascii, ascii, Bool.true_and, Bool.false_or, if_pos rfl,
          List.takeWhile_cons_of_pos ascii, callsForOperand, if_pos ascii,
          ← List.takeWhile_cons_of_pos ascii]
        rfl
      · rw [if_neg ascii, callsForOperand, if_neg ascii, Bool.eq_false_iff.mpr ascii, Bool.false_and,
          Bool.or_false]
        rfl

/-! ## The window -/

theorem dropWhile_take (accepts : Char -> Bool) (text : Text) (room : Nat) :
    (text.take room).dropWhile accepts =
      (text.dropWhile accepts).take (room - (text.takeWhile accepts).length) := by
  induction text generalizing room with
  | nil => simp
  | cons c rest inductionHypothesis =>
      cases room with
      | zero => simp
      | succ fewer =>
          rw [List.take_succ_cons]
          by_cases accepted : accepts c = true
          · rw [List.dropWhile_cons_of_pos accepted, List.dropWhile_cons_of_pos accepted,
              List.takeWhile_cons_of_pos accepted, inductionHypothesis, List.length_cons,
              Nat.add_sub_add_right]
          · rw [List.dropWhile_cons_of_neg accepted, List.dropWhile_cons_of_neg accepted,
              List.takeWhile_cons_of_neg accepted]
            rfl

/-- Behind the blanks, a window shows what it has room for of the last token. -/
theorem lastToken_take (before : Text) (room : Nat) :
    lastToken (before.take room) = (lastToken before).take (room - gap before) := by
  unfold lastToken
  rw [dropWhile_take, ← gap]
  generalize room - gap before = left
  cases before.dropWhile isBlank with
  | nil => rw [List.take_nil]
  | cons c rest =>
      cases left with
      | zero => rfl
      | succ fewer =>
          rw [List.take_succ_cons]
          dsimp only
          by_cases ascii : isAsciiWord c = true
          · rw [if_pos ascii, if_pos ascii, ← List.take_succ_cons, ← List.take_takeWhile]
          · rw [if_neg ascii, if_neg ascii, List.take_succ_cons, List.take_nil]

/-- A token of more than one character is a word. -/
theorem isAsciiWord_of_mem_lastToken (long : 1 < (lastToken before).length) {c : Char}
    (member : c ∈ lastToken before) : isAsciiWord c = true := by
  unfold lastToken at long member
  split at long
  next => simp at long
  next d rest split =>
    rw [split] at member
    dsimp only at member
    split at long
    next ascii =>
      rw [if_pos ascii] at member
      exact List.all_eq_true.mp List.all_takeWhile c member
    next => simp at long

theorem callsForOperand_of_word (nonempty : token ≠ []) (ascii : ∀ c ∈ token, isAsciiWord c = true) :
    callsForOperand mayCall token = wordsBeforeOperand.contains token.reverse := by
  cases token with
  | nil => contradiction
  | cons c rest => rw [callsForOperand, if_pos (ascii c List.mem_cons_self)]

/-- Directly behind a word, the last token is the whole of it. -/
theorem lastToken_word {word rest : Text} (nonempty : word ≠ []) (ascii : ∀ c ∈ word, isAsciiWord c = true)
    (apart : rest.head?.any isAsciiWord = false) :
    gap (word ++ rest) = 0 ∧ lastToken (word ++ rest) = word := by
  have wholeWord : (word ++ rest).takeWhile isAsciiWord = word := by
    rw [List.takeWhile_append_of_pos ascii]
    cases rest with
    | nil => exact List.append_nil word
    | cons d rest => rw [List.takeWhile_cons_of_neg (by simpa using apart), List.append_nil]
  obtain ⟨c, word', rfl⟩ := List.exists_cons_of_ne_nil nonempty
  have asciiHere := ascii c List.mem_cons_self
  have notBlank : ¬isBlank c = true := by rw [isBlank_of_isAsciiWord asciiHere]; decide
  constructor
  · rw [gap, List.cons_append, List.takeWhile_cons_of_neg notBlank]
    rfl
  · rw [lastToken, List.cons_append, List.dropWhile_cons_of_neg notBlank]
    dsimp only
    rwa [if_pos asciiHere]

/-! ## Agreement -/

/-- Whether the window shows the last token whole. -/
def InSight (before : Text) : Prop :=
  gap before + (lastToken before).length ≤ lookBack

instance (before : Text) : Decidable (InSight before) :=
  inferInstanceAs (Decidable (_ ≤ _))

/-- Whether the window gives a wrong idea of the last token.  Either it shows nothing but blanks, which
is what it shows at the beginning of a source, while the token calls for no operand; or its edge cuts a
word, and only one of the word and the part that is left of it is a word that calls for an operand. -/
def IsMisled (mayCall : Char -> Bool) (before : Text) : Prop :=
  (lookBack ≤ gap before ∧ callsForOperand mayCall (lastToken before) = false) ∨
    (gap before < lookBack ∧ ¬InSight before ∧
      ¬(((lastToken before).take (lookBack - gap before)).reverse ∈ wordsBeforeOperand ↔
        (lastToken before).reverse ∈ wordsBeforeOperand))

theorem take_lastToken_of_inSight (inSight : InSight before) :
    (lastToken before).take (lookBack - gap before) = lastToken before := by
  unfold InSight at inSight
  exact List.take_of_length_le (by omega)

theorem lastToken_take_of_inSight (inSight : InSight before) : lastToken (before.take lookBack) = lastToken before := by
  rw [lastToken_take, take_lastToken_of_inSight inSight]

theorem callsForOperand_take_iff (mayCall : Char -> Bool) (before : Text) :
    callsForOperand mayCall ((lastToken before).take (lookBack - gap before)) =
      callsForOperand mayCall (lastToken before) ↔ ¬IsMisled mayCall before := by
  unfold IsMisled
  by_cases hidden : lookBack ≤ gap before
  · have notPartly : ¬gap before < lookBack := Nat.not_lt.mpr hidden
    rw [Nat.sub_eq_zero_of_le hidden, List.take_zero, callsForOperand, eq_comm]
    simp only [hidden, notPartly, true_and, false_and, or_false, Bool.not_eq_false]
  · have partly : gap before < lookBack := Nat.not_le.mp hidden
    by_cases inSight : InSight before
    · rw [take_lastToken_of_inSight inSight]
      simp only [hidden, inSight, false_and, not_true_eq_false, and_false, or_self, not_false_eq_true]
    · -- The edge of the window lies within the token, so the token is a word.
      have long : lookBack < gap before + (lastToken before).length := Nat.not_le.mp inSight
      have ascii : ∀ c ∈ lastToken before, isAsciiWord c = true := fun c =>
        isAsciiWord_of_mem_lastToken (by omega)
      have nonempty : lastToken before ≠ [] := List.ne_nil_of_length_pos (by omega)
      have partNonempty : (lastToken before).take (lookBack - gap before) ≠ [] :=
        List.ne_nil_of_length_pos (by rw [List.length_take]; omega)
      rw [callsForOperand_of_word nonempty ascii,
        callsForOperand_of_word partNonempty fun c member => ascii c (List.mem_of_mem_take member),
        Bool.eq_iff_iff, List.contains_iff_mem, List.contains_iff_mem]
      simp only [hidden, partly, inSight, false_and, not_false_eq_true, true_and, false_or, not_not]

/-- The words that call for an operand have at most seven characters. -/
theorem length_le_of_mem_wordsBeforeOperand : ∀ word ∈ wordsBeforeOperand, word.length ≤ 7 := by
  decide

/-- Nothing misleads the window where it has room for more than the longest of the words that call for
an operand. -/
theorem not_isMisled_of_gap (near : gap before + 7 < lookBack) : ¬IsMisled mayCall before := by
  rintro (⟨hidden, -⟩ | ⟨-, notInSight, apart⟩)
  · omega
  · have long : lookBack < gap before + (lastToken before).length := Nat.not_le.mp notInSight
    refine apart ⟨fun isPart => ?_, fun isWhole => ?_⟩
    · have short := length_le_of_mem_wordsBeforeOperand _ isPart
      rw [List.length_reverse, List.length_take] at short
      omega
    · have short := length_le_of_mem_wordsBeforeOperand _ isWhole
      rw [List.length_reverse] at short
      omega

theorem opensString_take_iff :
    opensString (before.take lookBack) = opensString before ↔ ¬IsMisled precedesString before := by
  rw [opensString_eq_callsForOperand, opensString_eq_callsForOperand, lastToken_take]
  exact callsForOperand_take_iff precedesString before

theorem expectsOperand_take_iff :
    expectsOperand (before.take lookBack) = expectsOperand before ↔ ¬IsMisled precedesOperand before := by
  rw [expectsOperand_eq_callsForOperand, expectsOperand_eq_callsForOperand, lastToken_take]
  exact callsForOperand_take_iff precedesOperand before

/-- Behind a word that calls for no operand, none is expected, however far the word reaches back. -/
theorem expectsOperand_of_word {earlier word : Text} (nonempty : word ≠ [])
    (ascii : ∀ c ∈ word, isAsciiWord c = true) (other : word ∉ wordsBeforeOperand)
    (apart : earlier.getLast?.any isAsciiWord = false) :
    expectsOperand ((earlier ++ word).reverse.take lookBack) = false := by
  have asciiReversed : ∀ c ∈ word.reverse, isAsciiWord c = true := fun c member =>
    ascii c (List.mem_reverse.mp member)
  have nonemptyReversed : word.reverse ≠ [] := by rwa [Ne, List.reverse_eq_nil_iff]
  have apartReversed : earlier.reverse.head?.any isAsciiWord = false := by rwa [List.head?_reverse]
  obtain ⟨noGap, isToken⟩ := lastToken_word nonemptyReversed asciiReversed apartReversed
  rw [← List.reverse_append] at noGap isToken
  have notMisled : ¬IsMisled precedesOperand (earlier ++ word).reverse :=
    not_isMisled_of_gap (by rw [noGap]; decide)
  rw [expectsOperand_take_iff.mpr notMisled, expectsOperand_eq_callsForOperand, isToken,
    callsForOperand_of_word nonemptyReversed asciiReversed, List.reverse_reverse, ← Bool.not_eq_true,
    List.contains_iff_mem]
  exact other

namespace Reading

/-- A reading with something else read before. -/
def behind (reading : Reading) (before : Text) : Reading :=
  { reading with before := before }

/-- What was read so far matters to the reading of a character through the two tests alone. -/
theorem readPlain_behind {reading : Reading}
    (strings : opensString (before.take lookBack) = opensString reading.window)
    (operands : expectsOperand (before.take lookBack) = expectsOperand reading.window) (c : Char)
    (ahead : Text) :
    (reading.behind before).readPlain c ahead = (reading.readPlain c ahead).map id (·.behind before) := by
  have window : (reading.behind before).window = before.take lookBack := rfl
  have templateDepths : (reading.behind before).templateDepths = reading.templateDepths := rfl
  have depth : (reading.behind before).depth = reading.depth := rfl
  unfold readPlain
  rw [window, templateDepths, depth, strings, operands]
  -- Once it is known what lies ahead, both sides branch on the same conditions.
  cases regexLength? false false 0 ahead <;> cases headStart? ahead <;>
    (simp only [apply_ite (Prod.map id fun next : Reading => next.behind before)]; rfl)

/-- Within the window both tests say what they say of everything that was read, just if it is not misled;
and where it shows the last token whole, the reading of a character depends on what was read through that
token alone, however many blanks stand behind it. -/
theorem window_agrees_iff (reading : Reading) :
    (opensString reading.window = opensString reading.before ↔ ¬IsMisled precedesString reading.before) ∧
    (expectsOperand reading.window = expectsOperand reading.before ↔
      ¬IsMisled precedesOperand reading.before) ∧
    (∀ before, InSight reading.before → InSight before → lastToken before = lastToken reading.before →
      ∀ c ahead, (reading.behind before).readPlain c ahead =
        (reading.readPlain c ahead).map id (·.behind before)) := by
  refine ⟨opensString_take_iff, expectsOperand_take_iff, ?_⟩
  intro before inSight otherInSight sameToken
  have sameWindow : lastToken (before.take lookBack) = lastToken reading.window := by
    rw [window, lastToken_take_of_inSight inSight,
      lastToken_take_of_inSight otherInSight, sameToken]
  refine readPlain_behind ?_ ?_
  · rw [opensString_eq_callsForOperand, opensString_eq_callsForOperand, sameWindow]
  · rw [expectsOperand_eq_callsForOperand, expectsOperand_eq_callsForOperand, sameWindow]

/-- A short comment between the operand and the slash of a division. -/
theorem window_agrees_shortComment :
    let reading := initial.readAll "half = total /* units */ ".toList
    let closer := initial.readAll "half = total ".toList
    opensString reading.window = opensString reading.before ∧
      expectsOperand reading.window = expectsOperand reading.before ∧
      (reading.behind closer.before).readPlain '/' " 2;".toList =
        (reading.readPlain '/' " 2;".toList).map id (·.behind closer.before) := by
  intro reading closer
  have near : gap reading.before + 7 < lookBack := by decide +kernel
  have inSight : InSight reading.before := by decide +kernel
  have closerInSight : InSight closer.before := by decide +kernel
  obtain ⟨strings, operands, dependsOnToken⟩ := window_agrees_iff reading
  exact ⟨strings.mpr (not_isMisled_of_gap near), operands.mpr (not_isMisled_of_gap near),
    dependsOnToken closer.before inSight closerInSight (by decide +kernel) '/' " 2;".toList⟩

/-- An operand and a long comment behind it. -/
def commentedTotal : Text :=
  "const half = total /* the width of the whole scene in world units, as measured */ ".toList

/-- Behind an operand, a long comment fills the window with blanks, as at the beginning of a source: a
division is read as a regular expression through the next slash, and what it encloses is blanked.  Behind
fewer blanks, the edge of the window may leave a word that calls for an operand of one that does not. -/
theorem not_window_agrees_commentedTotal :
    let reading := initial.readAll commentedTotal
    let cut := initial.readAll ("xreturn".toList ++ List.replicate 58 ' ')
    (opensString reading.before = false ∧ opensString reading.window = true) ∧
      (expectsOperand reading.before = false ∧ expectsOperand reading.window = true) ∧
      mask (commentedTotal ++ "/ 2 + rest / 2;\n".toList) =
        "const half = total".toList ++ List.replicate 64 ' ' ++ "/          / 2;\n".toList ∧
      (expectsOperand cut.before = false ∧ expectsOperand cut.window = true) := by
  decide +kernel

end Reading

end SceneBundler.Source
