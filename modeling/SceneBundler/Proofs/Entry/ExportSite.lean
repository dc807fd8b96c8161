import SceneBundler.Proofs.Entry.Naming
import SceneBundler.Proofs.Source.Appended
import SceneBundler.Proofs.Text.Blank

/-!
Contract: the statement that exports a root, and the default exports of a masked source.

Owns:
- the words of the statement, the marks it does not hold, and that it changes nothing in the view of the
  source in front of it, in which it is itself shown or blanked as a whole;
- the places of the token `export` before the token `default`, and of those before a list of local
  exports with a default in it, wherever on a line they stand;
- that text behind a source that takes no part in its exports adds its own places and changes none;
- the one place of the statement that exports a root.

Does not own: which root is exported, and which default exports are removed.
-/

namespace SceneBundler.Entry

open Character (isBlank)
open Source (staysPlain lineIsBlankAfter)
open Text (startsWord trimStart)

theorem exportOf_eq (name : Text) :
    exportOf name =
      "export".toList ++ ' ' :: ("default".toList ++ ' ' :: (name ++ ";\n".toList)) := by
  have lead : "export default ".toList = "export".toList ++ ' ' :: ("default".toList ++ [' ']) := by
    decide
  unfold exportOf
  rw [lead]
  generalize "export".toList = first
  generalize "default".toList = second
  generalize ";\n".toList = last
  simp

section Statement

variable {name : Text}

/-- No mark of any kind is in the statement, but for its semicolon. -/
theorem not_mem_exportOf (isName : IsNameText name) {mark : Char}
    (isMark : mark ∈ "/<>()[]\x7b\x7d".toList) : mark ∉ '\n' :: '\n' :: exportOf name := by
  have everyMark : ∀ mark ∈ "/<>()[]\x7b\x7d".toList, Character.continuesName mark = false ∧
      mark ∉ "export default ".toList ∧ mark ∉ ";\n".toList ∧ mark ≠ '\n' :=
    Text.forall_mem_of_all (by decide)
  obtain ⟨notInNames, notBefore, notAfter, notBreak⟩ := everyMark mark isMark
  have elsewhere : mark ∉ exportOf name :=
    Source.not_mem_around_name isName notInNames notBefore notAfter
  simp [notBreak, elsewhere]

theorem break_of_mem_head? {following : Text} :
    ∀ c ∈ ('\n' :: following).head?, Character.isBlank c = true := by
  intro c isFirst
  obtain rfl := Option.some.inj isFirst
  decide

theorem staysPlain_exportOf (isName : IsNameText name) :
    staysPlain true (exportOf name) = true := by
  have lead : staysPlain true "export default ".toList = true ∧
      lineIsBlankAfter true "export default ".toList = false := by
    decide
  have tail : staysPlain false ";\n".toList = true := by decide
  unfold exportOf
  rw [List.append_assoc, Source.staysPlain_append, Source.staysPlain_append, lead.1, lead.2,
    Source.staysPlain_of_name false isName,
    Source.lineIsBlankAfter_of_name false isName (Or.inl rfl), tail]
  rfl

theorem trimStart_exportOf (name : Text) :
    Text.trimStart ('\n' :: '\n' :: exportOf name) = exportOf name := by
  have letters : "export".toList = 'e' :: "xport".toList := by decide
  rw [exportOf_eq, letters]
  rfl

theorem inert_exportOf (isName : IsNameText name) :
    Source.Inert ('\n' :: '\n' :: exportOf name) := by
  refine ⟨break_of_mem_head?, not_mem_exportOf isName (by decide),
    not_mem_exportOf isName (by decide), ?_⟩
  have letters : "export".toList = 'e' :: "xport".toList := by decide
  rw [trimStart_exportOf, exportOf_eq, letters]
  simp

/-- Behind a source, the statement is shown as a whole or blanked as a whole. -/
theorem mask_append_exportOf (isName : IsNameText name) (source : Text) :
    Source.mask (source ++ '\n' :: '\n' :: exportOf name) =
      Source.mask source ++
        '\n' :: '\n' :: (exportOf name).map (Source.Reading.shown (Source.showsAppended source)) :=
  Source.mask_append_statement (inert_exportOf isName) (staysPlain_exportOf isName)

end Statement

/-! ## Places of exports -/

/-- Whether the token `export` begins at a place. -/
def startsExport (previous : Option Char) (ahead : Text) : Bool :=
  startsWord "export".toList ahead && !previous.any Character.continuesName

/-- The offsets, from a place on, of the tokens `export` for which a test holds of the text that
follows after blanks. -/
def exportsFrom (follows : Text -> Bool) : Option Char -> (offset : Nat) -> Text -> List Nat
  | _, _, [] => []
  | previous, offset, c :: rest =>
      let later := exportsFrom follows (some c) (offset + 1) rest
      if startsExport previous (c :: rest) &&
          follows (trimStart ((c :: rest).drop "export".toList.length)) then
        offset :: later
      else later

/-- The offsets of the tokens `export` with blanks and the token `default` behind them. -/
def defaultExports (masked : Text) : List Nat :=
  exportsFrom (startsWord "default".toList) none 0 masked

/-- Whether a text begins with a list of local exports that exports something as the default. -/
def listsDefault : Text -> Bool
  | '{' :: inner =>
      let items := inner.takeWhile fun c => c != '{' && c != '}'
      let after := inner.dropWhile fun c => c != '{' && c != '}'
      after.head? == some '}' && !startsWord "from".toList (trimStart after.tail) &&
        (Text.split ',' items).any fun item => defaultSpecifier.isFullMatch (Text.trim item)
  | _ => false

/-- The offsets of the lists of local exports that export something as the default. -/
def listedDefaults (masked : Text) : List Nat :=
  exportsFrom listsDefault none 0 masked

/-- Whether a masked source exports no default, neither by itself nor in a list. -/
def NoDefault (masked : Text) : Prop :=
  defaultExports masked = [] ∧ listedDefaults masked = []

/-- Every place that is found lies within the text. -/
theorem lt_of_mem_exportsFrom {follows : Text -> Bool} {previous : Option Char} {offset : Nat}
    {text : Text} {start : Nat} (member : start ∈ exportsFrom follows previous offset text) :
    start < offset + text.length := by
  induction text generalizing previous offset with
  | nil => exact absurd member List.not_mem_nil
  | cons c rest inductionHypothesis =>
      have later (isLater : start ∈ exportsFrom follows (some c) (offset + 1) rest) :
          start < offset + (c :: rest).length := by
        have inside := inductionHypothesis isLater
        rw [List.length_cons]
        omega
      rw [exportsFrom] at member
      split at member
      next =>
        rcases List.mem_cons.mp member with isHere | isLater
        · rw [isHere, List.length_cons]
          omega
        · exact later isLater
      next => exact later member

/-! ## Text behind a source -/

/-- Text that takes no part in an export before it. -/
structure Separate (following : Text) : Prop where
  blankFirst : ∀ c ∈ following.head?, isBlank c = true
  noDefault : startsWord "default".toList (trimStart following) = false
  noList : listsDefault (trimStart following) = false
  noFrom : startsWord "from".toList (trimStart following) = false
  noCloser : '}' ∉ following

section Behind

variable {following : Text}

theorem Separate.default_append (separate : Separate following) (text : Text) :
    startsWord "default".toList (trimStart (text ++ following)) =
      startsWord "default".toList (trimStart text) :=
  Text.startsWord_trimStart_append separate.blankFirst
    (Text.forall_mem_of_all (by decide)) (by decide)
    separate.noDefault text

theorem Separate.from_append (separate : Separate following) (text : Text) :
    startsWord "from".toList (trimStart (text ++ following)) =
      startsWord "from".toList (trimStart text) :=
  Text.startsWord_trimStart_append separate.blankFirst
    (Text.forall_mem_of_all (by decide)) (by decide)
    separate.noFrom text

theorem listsDefault_of_ne {c : Char} (different : c ≠ '{') (rest : Text) :
    listsDefault (c :: rest) = false := by
  unfold listsDefault
  split
  next same => exact absurd (List.cons.inj same).1 different
  next => rfl

/-- A list of exports is no different with text behind the source that does not close it. -/
theorem Separate.listsDefault_append (separate : Separate following) (text : Text) :
    listsDefault (text ++ following) = listsDefault text := by
  cases text with
  | nil =>
      cases following with
      | nil => rfl
      | cons c rest =>
          exact listsDefault_of_ne
            (Character.ne_of_isBlank (separate.blankFirst c rfl) (by decide)) rest
  | cons c inner =>
      by_cases opens : c = '{'
      · subst opens
        rw [List.cons_append, listsDefault, listsDefault]
        rw [List.dropWhile_append, List.takeWhile_append]
        cases rest : inner.dropWhile fun c => c != '{' && c != '}' with
        | nil =>
            -- The list is still open at the end of the source, and nothing behind closes it.
            have notCloser : ((following.dropWhile fun c => c != '{' && c != '}').head? ==
                some '}') = false := by
              rw [beq_eq_false_iff_ne]
              intro isCloser
              exact separate.noCloser
                ((List.dropWhile_suffix _).subset (List.mem_of_head? isCloser))
            simp [notCloser]
        | cons d more =>
            have closes : (inner.takeWhile fun c => c != '{' && c != '}').length ≠ inner.length := by
              intro sameLength
              have whole := congrArg List.length
                (List.takeWhile_append_dropWhile (p := fun c => c != '{' && c != '}') (l := inner))
              rw [rest, List.length_append, List.length_cons] at whole
              omega
            simp only [if_neg closes, List.isEmpty_cons, Bool.false_eq_true, if_false,
              List.cons_append, List.head?_cons, List.tail_cons, separate.from_append]
      · rw [List.cons_append, listsDefault_of_ne opens, listsDefault_of_ne opens]

theorem Separate.trimmed_append (separate : Separate following) (text : Text) :
    listsDefault (trimStart (text ++ following)) = listsDefault (trimStart text) := by
  cases blank : Text.isBlank text with
  | false =>
      rw [Text.trimStart_append_of_not_isBlank blank, separate.listsDefault_append]
  | true =>
      rw [Text.trimStart_append_of_isBlank blank, Text.trimStart_of_isBlank blank, separate.noList]
      rfl

theorem exportsFrom_append {follows : Text -> Bool}
    (blankFirst : ∀ c ∈ following.head?, isBlank c = true)
    (same : ∀ text, follows (trimStart (text ++ following)) = follows (trimStart text))
    (previous : Option Char) (offset : Nat) (text : Text) :
    exportsFrom follows previous offset (text ++ following) =
      exportsFrom follows previous offset text ++
        exportsFrom follows (text.getLast?.or previous) (offset + text.length) following := by
  induction text generalizing previous offset with
  | nil => rfl
  | cons c rest inductionHypothesis =>
      have sameExport : startsExport previous (c :: rest ++ following) =
          startsExport previous (c :: rest) := by
        rw [startsExport, Text.startsWord_append blankFirst (Text.forall_mem_of_all (by decide)),
          startsExport]
      have sameRest : startsExport previous (c :: rest) = true →
          follows (trimStart ((c :: rest ++ following).drop "export".toList.length)) =
            follows (trimStart ((c :: rest).drop "export".toList.length)) := by
        intro starts
        have fits : "export".toList.length ≤ (c :: rest).length := by
          unfold startsExport startsWord at starts
          rw [Bool.and_eq_true, Bool.and_eq_true] at starts
          exact (List.isPrefixOf_iff_prefix.mp starts.1.1).length_le
        rw [List.drop_append_of_le_length fits, same]
      have later := inductionHypothesis (some c) (offset + 1)
      have lastSame : rest.getLast?.or (some c) = (c :: rest).getLast?.or previous := by
        rw [List.getLast?_cons]
        cases rest.getLast? <;> rfl
      have lengthSame : offset + 1 + rest.length = offset + (c :: rest).length := by
        rw [List.length_cons]
        omega
      rw [lastSame, lengthSame] at later
      rw [List.cons_append] at sameExport sameRest ⊢
      rw [exportsFrom, exportsFrom, sameExport, later]
      cases starts : startsExport previous (c :: rest) with
      | false => rfl
      | true =>
          rw [sameRest starts]
          split <;> rfl

/-- Text behind a source that takes no part in its exports adds its own and changes none. -/
theorem defaultExports_append (separate : Separate following) (masked : Text) :
    defaultExports (masked ++ following) =
      defaultExports masked ++
        exportsFrom (startsWord "default".toList) masked.getLast? masked.length following := by
  rw [defaultExports, exportsFrom_append separate.blankFirst separate.default_append, Option.or_none,
    Nat.zero_add, defaultExports]

theorem listedDefaults_append (separate : Separate following) (masked : Text) :
    listedDefaults (masked ++ following) =
      listedDefaults masked ++ exportsFrom listsDefault masked.getLast? masked.length following := by
  rw [listedDefaults, exportsFrom_append separate.blankFirst separate.trimmed_append, Option.or_none,
    Nat.zero_add, listedDefaults]

end Behind

/-- A place at which no `e` stands is not the beginning of an export. -/
theorem exportsFrom_cons_of_ne {c : Char} (different : c ≠ 'e') (follows : Text -> Bool)
    (previous : Option Char) (offset : Nat) (rest : Text) :
    exportsFrom follows previous offset (c :: rest) =
      exportsFrom follows (some c) (offset + 1) rest := by
  have letters : "export".toList = 'e' :: "xport".toList := by decide
  have noExport : startsExport previous (c :: rest) = false := by
    rw [startsExport, startsWord, letters, List.isPrefixOf_cons_cons,
      beq_eq_false_iff_ne.mpr different.symm]
    rfl
  rw [exportsFrom, noExport]
  rfl

/-! ## Blanks behind a source -/

theorem separate_of_isBlank {following : Text} (blank : Text.isBlank following = true) :
    Separate following := by
  have everyBlank := Text.isBlank_iff.mp blank
  refine ⟨fun c isFirst => everyBlank c (List.mem_of_head? isFirst), ?_, ?_, ?_, ?_⟩
  · rw [Text.trimStart_of_isBlank blank]
    decide
  · rw [Text.trimStart_of_isBlank blank]
    rfl
  · rw [Text.trimStart_of_isBlank blank]
    decide
  · exact fun member => absurd (everyBlank _ member) (by decide)

theorem exportsFrom_of_isBlank {following : Text} (blank : Text.isBlank following = true)
    (follows : Text -> Bool) (previous : Option Char) (offset : Nat) :
    exportsFrom follows previous offset following = [] := by
  induction following generalizing previous offset with
  | nil => rfl
  | cons c rest inductionHypothesis =>
      simp only [Text.isBlank, List.all_cons, Bool.and_eq_true] at blank
      rw [exportsFrom_cons_of_ne (Character.ne_of_isBlank blank.1 (by decide))]
      exact inductionHypothesis blank.2 ..

theorem defaultExports_append_blanks {blanks : Text} (blank : Text.isBlank blanks = true)
    (masked : Text) : defaultExports (masked ++ blanks) = defaultExports masked := by
  rw [defaultExports_append (separate_of_isBlank blank), exportsFrom_of_isBlank blank,
    List.append_nil]

theorem listedDefaults_append_blanks {blanks : Text} (blank : Text.isBlank blanks = true)
    (masked : Text) : listedDefaults (masked ++ blanks) = listedDefaults masked := by
  rw [listedDefaults_append (separate_of_isBlank blank), exportsFrom_of_isBlank blank,
    List.append_nil]

/-! ## The statement behind a source -/

theorem separate_exportOf {name : Text} (isName : IsNameText name) :
    Separate ('\n' :: '\n' :: exportOf name) := by
  have letters : "export".toList = 'e' :: "xport".toList := by decide
  have noWord {word : Text} (different : word.head? ≠ some 'e') (isWord : word ≠ []) (rest : Text) :
      startsWord word ('e' :: rest) = false := by
    cases word with
    | nil => exact absurd rfl isWord
    | cons c word =>
        have notSame : c ≠ 'e' := fun same => different (by rw [same]; rfl)
        rw [startsWord, List.isPrefixOf_cons_cons, beq_eq_false_iff_ne.mpr notSame]
        rfl
  refine ⟨break_of_mem_head?, ?_, ?_, ?_, not_mem_exportOf isName (by decide)⟩
  · rw [trimStart_exportOf, exportOf_eq, letters]
    exact noWord (by decide) (by decide) _
  · rw [trimStart_exportOf, exportOf_eq, letters]
    exact listsDefault_of_ne (by decide) _
  · rw [trimStart_exportOf, exportOf_eq, letters]
    exact noWord (by decide) (by decide) _

/-- Within a word no token begins. -/
theorem exportsFrom_word {word : Text} (isName : IsNameText word) {first c : Char}
    (continues : Character.continuesName first = true) (different : c ≠ 'e')
    (follows : Text -> Bool) (offset : Nat) (rest : Text) :
    exportsFrom follows (some first) offset (word ++ c :: rest) =
      exportsFrom follows (some c) (offset + word.length + 1) rest := by
  induction word generalizing first offset with
  | nil => exact exportsFrom_cons_of_ne different follows (some first) offset rest
  | cons d word inductionHypothesis =>
      have noExport (ahead : Text) : startsExport (some first) ahead = false := by
        rw [startsExport, Option.any_some, continues, Bool.not_true, Bool.and_false]
      rw [List.cons_append, exportsFrom, noExport, Bool.false_and, if_neg Bool.false_ne_true,
        inductionHypothesis (fun c member => isName c (List.mem_cons_of_mem d member))
          (isName d List.mem_cons_self), List.length_cons]
      congr 1
      omega

theorem startsExport_of_blank {previous c : Char}
    (apart : Character.continuesName previous = false) (blank : isBlank c = true) (rest : Text) :
    startsExport (some previous) ("export".toList ++ c :: rest) = true := by
  have isPrefix : "export".toList.isPrefixOf ("export".toList ++ c :: rest) = true :=
    List.isPrefixOf_iff_prefix.mpr (List.prefix_append _ _)
  rw [startsExport, startsWord, isPrefix, List.drop_left, Option.any_some, apart, List.head?_cons,
    Option.any_some, Character.continuesName_of_isBlank blank]
  rfl

/-- The statement that exports a root has one token `export`, at its beginning. -/
theorem exportsFrom_exportOf {name : Text} (isName : IsComponentName name) (follows : Text -> Bool)
    (previous : Option Char) (offset : Nat) :
    exportsFrom follows previous offset ('\n' :: '\n' :: exportOf name) =
      if follows ("default".toList ++ ' ' :: (name ++ ";\n".toList)) then [offset + 2] else [] := by
  obtain ⟨⟨first, others, rfl, capital⟩, names⟩ := isName
  have firstLetters : "export".toList = 'e' :: "xport".toList := by decide
  have secondLetters : "default".toList = 'd' :: "efault".toList := by decide
  have lastLetters : ";\n".toList = ';' :: ['\n'] := by decide
  have firstRest : ∀ c ∈ "xport".toList, Character.continuesName c = true :=
    Text.forall_mem_of_all (by decide)
  have secondRest : ∀ c ∈ "efault".toList, Character.continuesName c = true :=
    Text.forall_mem_of_all (by decide)
  have notSmall : first ≠ 'e' := by
    intro same
    rw [same] at capital
    exact absurd capital (by decide)
  have later : exportsFrom follows (some 'e') (offset + 2 + 1)
      ("xport".toList ++ ' ' ::
        ("default".toList ++ ' ' :: (first :: others ++ ";\n".toList))) = [] := by
    rw [exportsFrom_word firstRest (by decide) (by decide), secondLetters,
      List.cons_append, exportsFrom_cons_of_ne (by decide),
      exportsFrom_word secondRest (by decide) (by decide), List.cons_append,
      exportsFrom_cons_of_ne notSmall, lastLetters,
      exportsFrom_word (fun c member => names c (List.mem_cons_of_mem first member))
        (names first List.mem_cons_self) (by decide), exportsFrom_cons_of_ne (by decide)]
    rfl
  have starts : startsExport (some '\n') ("export".toList ++ ' ' ::
      ("default".toList ++ ' ' :: (first :: others ++ ";\n".toList))) = true :=
    startsExport_of_blank (by decide) (by decide) _
  have follower : trimStart (("export".toList ++ ' ' ::
      ("default".toList ++ ' ' :: (first :: others ++ ";\n".toList))).drop "export".toList.length) =
      "default".toList ++ ' ' :: (first :: others ++ ";\n".toList) := by
    rw [List.drop_left, secondLetters]
    rfl
  rw [exportsFrom_cons_of_ne (by decide), exportsFrom_cons_of_ne (by decide), exportOf_eq]
  generalize "default".toList ++ ' ' :: (first :: others ++ ";\n".toList) = rest at *
  rw [firstLetters] at starts follower ⊢
  rw [List.cons_append] at starts follower ⊢
  rw [exportsFrom, starts, firstLetters, follower, Bool.true_and, later]

end SceneBundler.Entry
