import SceneBundler.Catalog.Packaged
import SceneBundler.Proofs.Entry.Naming
import SceneBundler.Proofs.Markup.View
import SceneBundler.Proofs.Source.TagScan
import SceneBundler.Proofs.Text.Preferred
import SceneBundler.Proofs.Text.Reach
import SceneBundler.Proofs.Typed.Quiet

/-!
Contract: the root of a source in which every function returns one tag.

Owns:
- component functions that return the tag of the root container or of a mesh, and their source text;
- that this text is its own masked view, and that no mount code and no default export is found in it;
- the components that are found in it, where they end, and which of them render the root container;
- the root that is chosen, and the entry that is made of it.

Does not own: how a root is chosen among the components of other sources.
-/

namespace SceneBundler.Entry

open Character (isBlank)
open Pattern (blanks char gap indent literal maybe)
open Source (BracketPairs Reading Tag)
open Typed (BeginsLine lines)

/-! ## The source -/

/-- A component function that returns one tag, of the root container or of a mesh. -/
structure SceneFunction where
  name : Text
  isName : IsComponentName name
  rendersRoot : Bool

/-- The name of the tag that a mesh is written with. -/
def mesh : Markup.Name :=
  ⟨"mesh".toList, by decide, Text.forall_mem_of_all (by decide)⟩

/-- What a function begins with. -/
def functionWord : Text :=
  "function ".toList

/-- What the line with the tag begins with. -/
def returnWord : Text :=
  "  return ".toList

namespace SceneFunction

/-- The tag that a function returns. -/
def tag (container : Markup.Name) (function : SceneFunction) : Markup.Name :=
  if function.rendersRoot then container else mesh

/-- A function up to the parenthesis that its parameters begin with. -/
def opening (function : SceneFunction) : Text :=
  functionWord ++ (function.name ++ ['('])

/-- What stands between the braces of a function. -/
def body (container : Markup.Name) (function : SceneFunction) : Text :=
  '\n' :: (returnWord ++ ((function.tag container).singleTag ++ [';', '\n']))

/-- A function through its closing brace. -/
def definition (container : Markup.Name) (function : SceneFunction) : Text :=
  functionWord ++ (function.name ++ ['(', ')', ' ']) ++ '\x7b' :: (function.body container ++ ['\x7d'])

/-- The lines of a function. -/
def written (container : Markup.Name) (function : SceneFunction) : List Text :=
  [function.opening ++ [')', ' ', '\x7b'],
    returnWord ++ ((function.tag container).singleTag ++ [';']), ['\x7d']]

/-- A function as it is written. -/
def text (container : Markup.Name) (function : SceneFunction) : Text :=
  lines (function.written container)

end SceneFunction

/-- Functions one after another. -/
def scenes (container : Markup.Name) (functions : List SceneFunction) : Text :=
  functions.flatMap (SceneFunction.text container)

section View

variable (container : Markup.Name) (function : SceneFunction)

theorem text_eq_append : function.text container = function.definition container ++ ['\n'] := by
  simp [SceneFunction.text, SceneFunction.written, SceneFunction.definition, SceneFunction.body,
    SceneFunction.opening, lines]

/-- Behind `return`, an operand is expected. -/
theorem expectsOperand_returned (before : Text) :
    Source.expectsOperand ((returnWord.reverse ++ before).take Source.lookBack) = true := by
  have letters : returnWord.reverse = " nruter  ".toList := by decide
  have window : (" nruter  ".toList ++ before).take Source.lookBack =
      " nruter  ".toList ++ before.take (Source.lookBack - 9) := by
    rw [List.take_append]
    rfl
  rw [letters, window]
  rfl

variable {container : Markup.Name} {function : SceneFunction} {reading : Reading}

theorem isMark_of_continuesName {c : Char} (continues : Character.continuesName c = true) :
    Reading.isMark c = true := by
  have others : ∀ mark ∈ "/'\"\x60<\x7b\x7d".toList, Character.continuesName mark = false :=
    Text.forall_mem_of_all (by decide)
  rw [Reading.isMark, Bool.not_eq_true', ← Bool.not_eq_true, List.contains_iff_mem]
  intro member
  rw [others c member] at continues
  contradiction

theorem goesOver_body (inCode : reading.InCode) :
    reading.GoesOver (function.body container) (function.body container) := by
  have lead : ∀ c ∈ '\n' :: returnWord, Reading.isMark c = true :=
    Text.forall_mem_of_all (by decide)
  have tail : ∀ c ∈ [';', '\n'], Reading.isMark c = true := Text.forall_mem_of_all (by decide)
  apply (Reading.goesOver_marks inCode lead).append
  intro lineIsBlank
  have inTag := inCode.past ('\n' :: returnWord) lineIsBlank
  have expects : Source.expectsOperand (reading.past ('\n' :: returnWord) lineIsBlank).window = true := by
    have window := expectsOperand_returned ('\n' :: reading.before)
    rwa [Reading.window, Reading.past, List.reverse_cons, List.append_assoc]
  have tag := Markup.takes_past_singleTag inTag.region (Markup.takesTags_of_expectsOperand inTag expects)
    (function.tag container)
  apply Reading.GoesOver.append ⟨false, tag⟩
  intro lineIsBlank
  exact Reading.goesOver_marks (inTag.past _ lineIsBlank) tail

theorem goesOver_text (inCode : reading.InCode) :
    reading.GoesOver (function.text container) (function.text container) := by
  have lead : ∀ c ∈ functionWord ++ (function.name ++ ['(', ')', ' ']), Reading.isMark c = true := by
    have keyword : ∀ c ∈ functionWord, Reading.isMark c = true := Text.forall_mem_of_all (by decide)
    have marks : ∀ c ∈ ['(', ')', ' '], Reading.isMark c = true := Text.forall_mem_of_all (by decide)
    rw [List.forall_mem_append, List.forall_mem_append]
    exact ⟨keyword, fun c member => isMark_of_continuesName (function.isName.isNameText c member), marks⟩
  have tail : ∀ c ∈ ['\n'], Reading.isMark c = true := Text.forall_mem_of_all (by decide)
  rw [text_eq_append, SceneFunction.definition, List.append_assoc]
  apply (Reading.goesOver_marks inCode lead).append
  intro lineIsBlank
  have behind := inCode.past (functionWord ++ (function.name ++ ['(', ')', ' '])) lineIsBlank
  apply (Reading.goesOver_braced behind fun lineIsBlank => goesOver_body (behind.past _ lineIsBlank).deeper).append
  intro lineIsBlank
  exact Reading.goesOver_marks (behind.past _ lineIsBlank) tail

theorem goesOver_scenes (inCode : reading.InCode) (functions : List SceneFunction) :
    reading.GoesOver (scenes container functions) (scenes container functions) := by
  induction functions generalizing reading with
  | nil => exact Reading.goesOver_nil reading
  | cons function others inductionHypothesis =>
      apply (goesOver_text inCode).append
      intro lineIsBlank
      exact inductionHypothesis (inCode.past _ lineIsBlank)

/-- Nothing of the source is blanked. -/
theorem mask_scenes (functions : List SceneFunction) :
    Source.mask (scenes container functions) = scenes container functions := by
  have settles : Source.Settles (scenes container functions) (scenes container functions) := by
    intro before lineIsBlank
    have inCode : (Reading.top before lineIsBlank 0).InCode :=
      ⟨rfl, fun _ member => absurd member List.not_mem_nil, fun _ member => absurd member List.not_mem_nil,
        fun _ member => absurd member List.not_mem_nil⟩
    exact goesOver_scenes inCode functions
  exact settles.mask_eq

end View

/-! ## What is found -/

section Found

variable {container : Markup.Name} {functions : List SceneFunction} (function : SceneFunction)

theorem scenes_eq_lines :
    scenes container functions = lines (functions.flatMap (SceneFunction.written container)) := by
  induction functions with
  | nil => rfl
  | cons function others inductionHypothesis =>
      rw [List.flatMap_cons, Typed.lines_append, ← inductionHypothesis]
      rfl

/-- Whether the first mark of a line behind its spaces is a given one. -/
def BeginsWith (line : Text) (mark : Char) : Prop :=
  ∃ spaces rest, line = spaces ++ mark :: rest ∧ ∀ c ∈ spaces, c = ' '

theorem beginsWith_returned (rest : Text) : BeginsWith (returnWord ++ rest) 'r' :=
  ⟨[' ', ' '], _, rfl, by simp⟩

theorem beginsWith_brace : BeginsWith ['\x7d'] '\x7d' :=
  ⟨[], [], rfl, by simp⟩

/-- A line of a function begins with one of two letters or with a brace, and holds no break. -/
theorem exists_beginsWith {line : Text} (isLine : line ∈ function.written container) :
    '\n' ∉ line ∧ ∃ mark ∈ ['f', 'r', '\x7d'], BeginsWith line mark := by
  have inFunction : '\n' ∉ functionWord := by decide
  have inReturn : '\n' ∉ returnWord := by decide
  have inName : '\n' ∉ function.name := fun member =>
    absurd (function.isName.isNameText _ member) (by decide)
  have inTag := (function.tag container).noBreak
  rw [SceneFunction.written, List.mem_cons, List.mem_cons, List.mem_singleton] at isLine
  rcases isLine with rfl | rfl | rfl
  · exact ⟨by simp [SceneFunction.opening, inFunction, inName], 'f', by decide, [], _, rfl, by simp⟩
  · exact ⟨by simp [Markup.Name.singleTag, inReturn, inTag], 'r', by decide, beginsWith_returned _⟩
  · exact ⟨by decide, '\x7d', by decide, beginsWith_brace⟩

/-- A pattern that goes over spaces to other marks than that of a line is not read at it. -/
theorem not_reads_line {pattern : Pattern} (stops : pattern.mayRepeat ' ' = false) {line : Text} {mark : Char}
    (begins : BeginsWith line mark) (other : mark ≠ ' ') (misses : pattern.mayReach ' ' mark = false)
    (passed following : Text) (next : Cursor) :
    ¬pattern.Reads (Cursor.between passed (line ++ following)) next := by
  intro reads
  obtain ⟨spaces, rest, rfl, areSpaces⟩ := begins
  obtain ⟨lead, d, behind, passes, areLead, notSpace, notMark⟩ := Pattern.exists_lead_of_reads stops misses reads
  have sameAhead : spaces ++ mark :: (rest ++ following) = lead ++ d :: (behind ++ next.ahead) := by
    have ahead := passes.ahead_eq
    simpa [Cursor.between] using ahead
  have dropped := congrArg (List.dropWhile (· == ' ')) sameAhead
  rw [List.dropWhile_append_of_pos (by simpa using areSpaces),
    List.dropWhile_append_of_pos (by simpa using areLead),
    List.dropWhile_cons_of_neg (by simpa using other), List.dropWhile_cons_of_neg (by simpa using notSpace)]
    at dropped
  exact notMark (List.cons.inj dropped).1.symm

theorem all_scenes_eq_nil {pattern : Pattern} (isLineStart : pattern.leftmost = Pattern.lineStart)
    (nonempty : pattern.mayBeEmpty = false) (stops : pattern.mayRepeat ' ' = false)
    (misses : ∀ mark ∈ ['f', 'r', '\x7d'], pattern.mayReach ' ' mark = false) :
    pattern.all (scenes container functions) = [] := by
  rw [scenes_eq_lines]
  refine Typed.all_lines_eq_nil isLineStart nonempty fun line member => ?_
  obtain ⟨function, _, isLine⟩ := List.mem_flatMap.mp member
  obtain ⟨noBreak, mark, isMark, begins⟩ := exists_beginsWith function isLine
  have visible : ∀ mark ∈ ['f', 'r', '\x7d'], mark ≠ ' ' := Text.forall_mem_of_all (by decide)
  have isCons : ∃ c others, line = c :: others := by
    obtain ⟨spaces, rest, rfl, _⟩ := begins
    cases spaces with
    | nil => exact ⟨mark, rest, rfl⟩
    | cons c spaces => exact ⟨c, spaces ++ mark :: rest, rfl⟩
  obtain ⟨c, others, isCons⟩ := isCons
  exact ⟨c, others, isCons, noBreak,
    not_reads_line stops begins (visible mark isMark) (misses mark isMark)⟩

theorem mountEdits_scenes : mountEdits (scenes container functions) = [] := by
  have noLookup : rootLookup.all (scenes container functions) = [] :=
    all_scenes_eq_nil rfl rfl rfl (Text.forall_mem_of_all (by decide))
  have noCreation : rootCreation.all (scenes container functions) = [] :=
    all_scenes_eq_nil rfl rfl rfl (Text.forall_mem_of_all (by decide))
  have noRender : legacyRender.all (scenes container functions) = [] :=
    all_scenes_eq_nil rfl rfl rfl (Text.forall_mem_of_all (by decide))
  simp [mountEdits, rootVariables, callRemovals, noLookup, noCreation, noRender]

theorem stripMountCode_scenes :
    stripMountCode (scenes container functions) = (scenes container functions, []) := by
  rw [stripMountCode, mask_scenes, mountEdits_scenes]
  rfl

theorem nameAnonymousDefault_scenes (rootName : Text) :
    nameAnonymousDefault (scenes container functions) rootName = scenes container functions := by
  have noFunction : anonymousFunction.all (scenes container functions) = [] :=
    all_scenes_eq_nil rfl rfl rfl (Text.forall_mem_of_all (by decide))
  have noArrow : anonymousArrow.all (scenes container functions) = [] :=
    all_scenes_eq_nil rfl rfl rfl (Text.forall_mem_of_all (by decide))
  have noEdit : namingEdit? (scenes container functions) rootName = none := by
    rw [namingEdit?, noFunction, noArrow]
    rfl
  rw [nameAnonymousDefault, mask_scenes, noEdit]

theorem stripDefaultExports_scenes :
    stripDefaultExports (scenes container functions) = scenes container functions := by
  have noDeclaration : defaultDeclaration.all (scenes container functions) = [] :=
    all_scenes_eq_nil rfl rfl rfl (Text.forall_mem_of_all (by decide))
  have noLead : defaultLead.all (scenes container functions) = [] :=
    all_scenes_eq_nil rfl rfl rfl (Text.forall_mem_of_all (by decide))
  have noList : exportList.all (scenes container functions) = [] :=
    all_scenes_eq_nil rfl rfl rfl (Text.forall_mem_of_all (by decide))
  rw [stripDefaultExports, mask_scenes, defaultExportEdits, noDeclaration, noLead, noList]
  rfl

/-- The match of a function at an offset. -/
def SceneFunction.head (offset : Nat) : Match :=
  ⟨offset, offset + function.opening.length,
    [(1, ⟨offset + functionWord.length, offset + functionWord.length + function.name.length⟩)]⟩

theorem leads_componentName {name : Text} (isName : IsComponentName name) (passed : Text) {ahead : Text}
    (ends : ahead.head?.any Character.continuesName = false) :
    componentName.Leads (Cursor.noting [] passed (name ++ ahead))
      (Cursor.noting [(1, ⟨passed.length, passed.length + name.length⟩)] (passed ++ name) ahead) := by
  obtain ⟨⟨first, rest, rfl, isCapital⟩, continues⟩ := isName
  have capital := Pattern.leads_one [] passed isCapital (rest ++ ahead)
  have others := @Pattern.leads_run [] (passed ++ [first]) Character.continuesName 0 rest ahead
    (fun c member => continues c (List.mem_cons_of_mem first member)) ends (Nat.zero_le _)
  rw [List.append_assoc] at others
  exact (capital.append others).capture rfl 1

theorem find_functionComponent {passed : Text} (starts : BeginsLine passed) (ahead : Text) :
    functionComponent.find (Cursor.between passed (function.opening ++ ahead)) =
      some (function.head passed.length) := by
  have isWord : functionWord = "function".toList ++ [' '] := by decide
  have letters : function.opening ++ ahead =
      "function".toList ++ ([' '] ++ (function.name ++ ('(' :: ahead))) := by
    rw [SceneFunction.opening, isWord]
    simp
  have reached : passed ++ "function".toList ++ [' '] = passed ++ functionWord := by
    rw [isWord, List.append_assoc]
  have visible : (function.name ++ '(' :: ahead).head?.any isBlank = false := by
    obtain ⟨first, rest, isName, _⟩ := function.isName.capital
    have isPart := function.isName.isNameText first (by rw [isName]; exact List.mem_cons_self)
    rw [isName]
    exact Source.not_isBlank_of_continuesName isPart
  have line : Pattern.lineStart.Leads (Cursor.noting [] passed (function.opening ++ ahead)) _ :=
    Pattern.leads_between starts
  have absent {letters : String} (other : (literal letters ++ gap).mayBegin 'f' = false) :
      (maybe (literal letters ++ gap)).Leads (Cursor.noting [] passed (function.opening ++ ahead))
        (Cursor.noting [] passed (function.opening ++ ahead)) :=
    Pattern.leads_maybe_of_not_reads fun there =>
      Pattern.not_reads_of_mayBegin (Bool.and_false _) other rfl
  have keyword := Pattern.leads_literal [] passed "function" ([' '] ++ (function.name ++ ('(' :: ahead)))
  have blank := @Pattern.leads_run [] (passed ++ "function".toList) isBlank 1 [' ']
    (function.name ++ ('(' :: ahead)) (Text.forall_mem_of_all (by decide)) visible (Nat.le_refl 1)
  rw [reached] at blank
  have named := @leads_componentName _ function.isName (passed ++ functionWord) ('(' :: ahead) rfl
  have brace := Pattern.leads_char
    [(1, ⟨(passed ++ functionWord).length, (passed ++ functionWord).length + function.name.length⟩)]
    (passed ++ functionWord ++ function.name) '(' ahead
  have noBlanks := @Pattern.leads_star_nil
    [(1, ⟨(passed ++ functionWord).length, (passed ++ functionWord).length + function.name.length⟩)]
    (passed ++ functionWord ++ function.name) isBlank ('(' :: ahead) rfl
  have indented := @Pattern.leads_star_nil [] passed Text.isIndent (function.opening ++ ahead) rfl
  rw [← letters] at keyword
  have whole := (((((((line.append indented).append (@absent "export" rfl)).append
    (@absent "async" rfl)).append keyword).append blank).append named).append noBlanks).append brace
  refine (Pattern.find_of_leads whole).trans ?_
  simp [Cursor.noting, SceneFunction.head, SceneFunction.opening]

/-- A line that begins with another mark than a function has none. -/
theorem finds_line_nil {line : Text} (isLine : line ∈ function.written container) {mark : Char}
    (begins : BeginsWith line mark) (other : mark ≠ ' ') (misses : functionComponent.mayReach ' ' mark = false)
    (passed following : Text) : functionComponent.Finds passed (line ++ ['\n']) following [] := by
  obtain ⟨noBreak, _⟩ := exists_beginsWith function isLine
  have notFound : Typed.foundAt functionComponent id passed line following = none :=
    Pattern.find_eq_none (not_reads_line rfl begins other misses passed ('\n' :: following))
  have finds {c : Char} {rest : Text} (isCons : line = c :: rest) :
      functionComponent.Finds passed (line ++ ['\n']) following [] := by
    have found := @Typed.finds_line Text id functionComponent rfl line c rest isCons noBreak passed following
      (by rw [notFound]; exact nofun)
    rwa [notFound] at found
  obtain ⟨spaces, rest, split, _⟩ := begins
  cases spaces with
  | nil => exact finds split
  | cons c spaces => exact finds split

theorem finds_text {passed : Text} (starts : BeginsLine passed) (following : Text) :
    functionComponent.Finds passed (function.text container) following [function.head passed.length] := by
  have split : function.text container = function.opening ++ ([')', ' ', '\x7b'] ++ ['\n'] ++
      (returnWord ++ ((function.tag container).singleTag ++ [';']) ++ ['\n'] ++ (['\x7d'] ++ ['\n']))) := by
    simp [SceneFunction.text, SceneFunction.written, lines]
  have isOpening : passed ++ function.opening = passed ++ (functionWord ++ function.name) ++ ['('] := by
    simp [SceneFunction.opening]
  rw [split]
  have first (ahead : Text) : functionComponent.Finds passed function.opening ahead [function.head passed.length] :=
    Pattern.Finds.of_find (find_functionComponent function starts ahead) (by simp [SceneFunction.opening]) rfl
  have rest (ahead : Text) : functionComponent.Finds (passed ++ function.opening)
      ([')', ' ', '\x7b'] ++ ['\n']) ahead [] := by
    rw [isOpening]
    exact Pattern.Finds.of_silent (Pattern.silent_of_lineStart rfl (by decide))
  have second (passed ahead : Text) := @finds_line_nil container function
    (returnWord ++ ((function.tag container).singleTag ++ [';'])) (by simp [SceneFunction.written])
    'r' (beginsWith_returned _) (by decide) rfl passed ahead
  have third (passed ahead : Text) := @finds_line_nil container function ['\x7d']
    (by simp [SceneFunction.written]) '\x7d' beginsWith_brace (by decide) rfl passed ahead
  exact (first _).append ((rest _).append ((second _ _).append (third _ following)))

/-- The matches of functions from an offset on. -/
def headsFrom (container : Markup.Name) : Nat -> List SceneFunction -> List Match
  | _, [] => []
  | offset, function :: others =>
      function.head offset :: headsFrom container (offset + (function.text container).length) others

theorem finds_scenes {passed : Text} (starts : BeginsLine passed) (following : Text) :
    functionComponent.Finds passed (scenes container functions) following
      (headsFrom container passed.length functions) := by
  induction functions generalizing passed with
  | nil => exact fun _ => by simp [scenes, headsFrom]
  | cons function others inductionHypothesis =>
      have startsNext : BeginsLine (passed ++ function.text container) := by
        rw [text_eq_append, ← List.append_assoc, BeginsLine, List.getLast?_concat]
        rfl
      have later := inductionHypothesis startsNext
      rw [List.length_append] at later
      exact (finds_text function starts _).append later

theorem all_functionComponent :
    functionComponent.all (scenes container functions) = headsFrom container 0 functions := by
  have finds := @finds_scenes container functions [] rfl []
  exact finds.all_eq fun next => Pattern.not_reads_at_end rfl rfl

end Found

/-! ## Components -/

section Components

variable (container : Markup.Name) (function : SceneFunction)

/-- The component that a function is where it stands. -/
def SceneFunction.candidate (offset : Nat) : Candidate :=
  ⟨function.name, offset, offset + (function.definition container).length⟩

/-- The components that functions are from an offset on. -/
def candidatesFrom (container : Markup.Name) : Nat -> List SceneFunction -> List Candidate
  | _, [] => []
  | offset, function :: others =>
      function.candidate container offset ::
        candidatesFrom container (offset + (function.text container).length) others

/-- Neither letters of tags nor the marks between them are braces. -/
theorem not_mem_body {mark : Char} (isMark : mark ∈ ['\x7b', '\x7d']) : mark ∉ function.body container := by
  have others : mark ∉ returnWord ∧ mark ∉ ['\n', '<', ' ', '/', '>', ';'] ∧ mark.isAlpha = false := by
    rw [List.mem_pair] at isMark
    rcases isMark with rfl | rfl <;> decide
  obtain ⟨notInReturn, notMark, notLetter⟩ := others
  have notInTag : mark ∉ (function.tag container).text := by
    intro member
    rw [(function.tag container).letters mark member] at notLetter
    contradiction
  simp only [List.mem_cons, not_or] at notMark
  simp [SceneFunction.body, Markup.Name.singleTag, notInReturn, notInTag, notMark]

/-- A function ends with the brace behind its body. -/
theorem functionEnd?_head (passed following : Text) :
    functionEnd? (passed ++ (function.definition container ++ following))
        (BracketPairs.ofText (passed ++ (function.definition container ++ following)))
        ((function.head passed.length).stop - 1) =
      some (passed.length + (function.definition container).length) := by
  have atParen : passed ++ (function.definition container ++ following) =
      (passed ++ (functionWord ++ function.name)) ++
        '(' :: ([] ++ ')' :: (' ' :: '\x7b' :: (function.body container ++ '\x7d' :: following))) := by
    simp [SceneFunction.definition]
  have behindParen : passed ++ (function.definition container ++ following) =
      (passed ++ (functionWord ++ function.name) ++ ['(']) ++
        ([')', ' '] ++ '\x7b' :: (function.body container ++ '\x7d' :: following)) := by
    simp [SceneFunction.definition]
  have atBrace : passed ++ (function.definition container ++ following) =
      (passed ++ (functionWord ++ function.name) ++ ['(', ')', ' ']) ++
        '\x7b' :: (function.body container ++ '\x7d' :: following) := by
    simp [SceneFunction.definition]
  have stop : (function.head passed.length).stop - 1 = (passed ++ (functionWord ++ function.name)).length := by
    simp [SceneFunction.head, SceneFunction.opening]
    omega
  have paren : (BracketPairs.ofText (passed ++ (function.definition container ++ following))).closerOf?
      (passed ++ (functionWord ++ function.name)).length =
        some (passed ++ (functionWord ++ function.name) ++ ['(']).length := by
    have enclosed := @BracketPairs.closerOf?_enclosed .round (passed ++ (functionWord ++ function.name)) []
      (' ' :: '\x7b' :: (function.body container ++ '\x7d' :: following)) []
      (.of_unmarked List.not_mem_nil List.not_mem_nil _)
    have reached : (passed ++ (functionWord ++ function.name) ++ ['(']).length =
        (passed ++ (functionWord ++ function.name)).length + 1 + ([] : Text).length := by
      simp [Nat.add_assoc]
    rw [atParen, reached]
    exact enclosed
  have brace : Text.offsetOf? '\x7b' (passed ++ (function.definition container ++ following))
      (passed ++ (functionWord ++ function.name) ++ ['(']).length =
        some (passed ++ (functionWord ++ function.name) ++ ['(', ')', ' ']).length := by
    rw [behindParen, Text.offsetOf?_behind (by decide)]
    simp [Nat.add_assoc]
  have body : (BracketPairs.ofText (passed ++ (function.definition container ++ following))).closerOf?
      (passed ++ (functionWord ++ function.name) ++ ['(', ')', ' ']).length =
        some ((passed ++ (functionWord ++ function.name) ++ ['(', ')', ' ']).length + 1 +
          (function.body container).length) := by
    rw [atBrace]
    exact @BracketPairs.closerOf?_enclosed .curly _ (function.body container) following []
      (.of_unmarked (not_mem_body container function (by decide))
        (not_mem_body container function (by decide)) _)
  rw [functionEnd?, stop, paren, Option.bind_some, brace, Option.bind_some, body]
  simp [SceneFunction.definition]
  omega

/-- As many braces open in functions as close. -/
theorem count_brace_scenes (functions : List SceneFunction) :
    (scenes container functions).count '\x7b' = (scenes container functions).count '\x7d' := by
  induction functions with
  | nil => rfl
  | cons function others inductionHypothesis =>
      have even : (function.text container).count '\x7b' = (function.text container).count '\x7d' := by
        have inWord : functionWord.count '\x7b' = 0 ∧ functionWord.count '\x7d' = 0 := by decide
        have inName {mark : Char} (isMark : Character.continuesName mark = false) :
            function.name.count mark = 0 := by
          apply List.count_eq_zero_of_not_mem
          intro member
          rw [function.isName.isNameText mark member] at isMark
          contradiction
        have inBody {mark : Char} (isMark : mark ∈ ['\x7b', '\x7d']) :
            (function.body container).count mark = 0 :=
          List.count_eq_zero_of_not_mem (not_mem_body container function isMark)
        rw [text_eq_append, SceneFunction.definition]
        simp [inWord, @inName '\x7b' (by decide), @inName '\x7d' (by decide), @inBody '\x7b' (by decide),
          @inBody '\x7d' (by decide)]
      rw [scenes, List.flatMap_cons, List.count_append, List.count_append, even]
      exact congrArg _ inductionHypothesis

theorem isTopLevel_scenes (functions : List SceneFunction) (following : Text) :
    isTopLevel (scenes container functions ++ following) (scenes container functions).length = true := by
  rw [isTopLevel, Source.braceDepthAt, List.take_left, count_brace_scenes]
  simp

theorem length_scenes_concat (before : List SceneFunction) (function : SceneFunction) :
    (scenes container (before ++ [function])).length =
      (scenes container before).length + (function.text container).length := by
  simp [scenes]

theorem scenes_append_cons (before : List SceneFunction) (function : SceneFunction) (others : List SceneFunction) :
    scenes container (before ++ function :: others) =
      scenes container before ++ (function.definition container ++ ('\n' :: scenes container others)) := by
  simp [scenes, text_eq_append]

/-- A function is found as a component that ends with its last brace. -/
theorem componentsOf_functions (functions : List SceneFunction) :
    componentsOf (scenes container functions) functionComponent
        (fun found => functionEnd? (scenes container functions)
          (BracketPairs.ofText (scenes container functions)) (found.stop - 1)) =
      candidatesFrom container 0 functions := by
  have behind (before : List SceneFunction) :
      (headsFrom container (scenes container before).length functions).filterMap (fun found =>
          if isTopLevel (scenes container (before ++ functions)) found.start then
            (functionEnd? (scenes container (before ++ functions))
              (BracketPairs.ofText (scenes container (before ++ functions))) (found.stop - 1)).map
                fun stop => ⟨found.captured (scenes container (before ++ functions)) 1, found.start, stop⟩
          else none) =
        candidatesFrom container (scenes container before).length functions := by
    induction functions generalizing before with
    | nil => rfl
    | cons function others inductionHypothesis =>
        have later := inductionHypothesis (before ++ [function])
        have split := scenes_append_cons container before function others
        have isCaptured : (function.head (scenes container before).length).captured
            (scenes container (before ++ function :: others)) 1 = function.name := by
          have around : scenes container (before ++ function :: others) =
              (scenes container before ++ functionWord) ++ (function.name ++ (['(', ')', ' '] ++
                '\x7b' :: (function.body container ++ '\x7d' :: '\n' :: scenes container others))) := by
            rw [split, SceneFunction.definition]
            simp
          exact Text.slice_eq _ _ around (by simp) (by simp)
        rw [List.append_assoc, List.singleton_append, length_scenes_concat] at later
        have ends := functionEnd?_head container function (scenes container before) ('\n' :: scenes container others)
        have top := isTopLevel_scenes container before
          (function.definition container ++ '\n' :: scenes container others)
        rw [← split] at ends top
        rw [headsFrom, List.filterMap_cons, candidatesFrom, ← later, isCaptured, ends]
        simp [SceneFunction.head, SceneFunction.candidate, top]
  rw [componentsOf, all_functionComponent]
  exact behind []

theorem le_start_of_mem_candidatesFrom {offset : Nat} {functions : List SceneFunction} {candidate : Candidate}
    (member : candidate ∈ candidatesFrom container offset functions) : offset ≤ candidate.start := by
  induction functions generalizing offset with
  | nil => exact absurd member List.not_mem_nil
  | cons function others inductionHypothesis =>
      rcases List.mem_cons.mp member with rfl | isLater
      · exact Nat.le_refl offset
      · exact (Nat.le_add_right _ _).trans (inductionHypothesis isLater)

theorem pairwise_candidatesFrom (offset : Nat) (functions : List SceneFunction) :
    (candidatesFrom container offset functions).Pairwise fun first second => first.start < second.start := by
  induction functions generalizing offset with
  | nil => exact List.Pairwise.nil
  | cons function others inductionHypothesis =>
      refine List.pairwise_cons.mpr ⟨fun candidate isLater => ?_, inductionHypothesis _⟩
      have behind := le_start_of_mem_candidatesFrom container isLater
      have nonempty : 0 < (function.text container).length := by
        rw [text_eq_append, List.length_append]
        exact Nat.succ_pos _
      show offset < candidate.start
      omega

theorem lastByStart_of_pairwise {found : List Candidate}
    (ordered : found.Pairwise fun first second => first.start < second.start) : lastByStart found = found := by
  induction found with
  | nil => rfl
  | cons candidate rest inductionHypothesis =>
      obtain ⟨first, later⟩ := List.pairwise_cons.mp ordered
      have alone : rest.any (·.start == candidate.start) = false := by
        rw [List.any_eq_false]
        intro other member same
        have behind := first other member
        rw [beq_iff_eq] at same
        omega
      rw [lastByStart, alone, inductionHypothesis later]
      rfl

theorem topLevelComponents_scenes (functions : List SceneFunction) :
    topLevelComponents (scenes container functions) = candidatesFrom container 0 functions := by
  have noExpression : functionExpressionComponent.all (scenes container functions) = [] :=
    all_scenes_eq_nil rfl rfl rfl (Text.forall_mem_of_all (by decide))
  have noArrow : arrowComponent.all (scenes container functions) = [] :=
    all_scenes_eq_nil rfl rfl rfl (Text.forall_mem_of_all (by decide))
  have noClass : classComponent.all (scenes container functions) = [] :=
    all_scenes_eq_nil rfl rfl rfl (Text.forall_mem_of_all (by decide))
  have ordered := pairwise_candidatesFrom container 0 functions
  rw [topLevelComponents]
  rw [componentsOf_functions, componentsOf, noExpression, componentsOf, noArrow, componentsOf, noClass]
  simp only [List.filterMap_nil, List.append_nil]
  rw [lastByStart_of_pairwise ordered]
  exact Order.sort_eq_self (ordered.imp fun before => decide_eq_true (Nat.le_of_lt before))

end Components

/-! ## What is rendered -/

section Rendered

variable {container : Markup.Name} {function : SceneFunction}

/-- Where a mark stands but once, two cuts at it are the same. -/
theorem eq_of_cut {mark : Char} {front back passed ahead : Text} (notBefore : mark ∉ front) (notBehind : mark ∉ back)
    (same : front ++ mark :: back = passed ++ mark :: ahead) : passed = front ∧ ahead = back := by
  have once : (front ++ mark :: back).count mark = 1 := by
    rw [List.count_append, List.count_cons_self, List.count_eq_zero_of_not_mem notBefore,
      List.count_eq_zero_of_not_mem notBehind]
  rw [same, List.count_append, List.count_cons_self] at once
  have notPassed : mark ∉ passed := List.count_eq_zero.mp (by omega)
  obtain ⟨sameFront, sameBack⟩ := Pattern.append_cons_inj notBefore notPassed same
  exact ⟨sameFront.symm, sameBack.symm⟩

/-- The part of a function in front of its tag. -/
def SceneFunction.front (function : SceneFunction) : Text :=
  functionWord ++ (function.name ++ ['(', ')', ' ']) ++ '\x7b' :: '\n' :: returnWord

theorem definition_eq : function.definition container =
    function.front ++ '<' :: ((function.tag container).text ++ [' ', '/', '>', ';', '\n', '\x7d']) := by
  simp [SceneFunction.definition, SceneFunction.front, SceneFunction.body, Markup.Name.singleTag]

theorem not_mem_front : '<' ∉ function.front := by
  have inWords : '<' ∉ functionWord ∧ '<' ∉ returnWord := by decide
  have inName : '<' ∉ function.name := fun member =>
    absurd (function.isName.isNameText _ member) (by decide)
  simp [SceneFunction.front, inWords, inName]

theorem not_mem_back (name : Markup.Name) : '<' ∉ name.text ++ [' ', '/', '>', ';', '\n', '\x7d'] := by
  have inName : '<' ∉ name.text := fun member => absurd (name.letters _ member) (by decide)
  simp [inName]

theorem takeWhile_continues {word rest : Text} (continues : ∀ c ∈ word, TagName.continues c = true)
    (ends : rest.head?.any TagName.continues = false) : (word ++ rest).takeWhile TagName.continues = word := by
  rw [List.takeWhile_append_of_pos continues]
  cases rest with
  | nil => simp
  | cons c others => rw [List.takeWhile_cons_of_neg (by simpa using ends), List.append_nil]

/-- The only tag of a function is the one that it returns. -/
theorem eq_of_mem_scan {tag : Tag} (member : tag ∈ Tag.scan (function.definition container)) :
    tag.name = (function.tag container).text ∧ tag.kind ≠ .closing := by
  obtain ⟨passed, lead, inner, rest, split, shape⟩ := Tag.exists_hasShape_of_mem_scan member
  rw [definition_eq] at split
  obtain ⟨-, ahead⟩ := eq_of_cut not_mem_front (not_mem_back _) split
  obtain ⟨c, others, isText, letter⟩ := (function.tag container).exists_cons
  have opens : lead = [] ∧ tag.kind ≠ .closing := by
    refine shape.slash.resolve_right fun ⟨isLead, _⟩ => ?_
    rw [isLead, isText] at ahead
    exact Markup.ne_of_isAlpha letter '/' (by decide) (List.cons.inj ahead).1.symm
  rw [opens.1, List.nil_append] at ahead
  have names := congrArg (List.takeWhile TagName.continues) ahead
  rw [takeWhile_continues shape.named shape.ends, takeWhile_continues
    (fun d member => Markup.continues_of_isAlpha ((function.tag container).letters d member)) (by decide)] at names
  exact ⟨names, opens.2⟩

/-- The tag that a function returns is recognised. -/
theorem at?_singleTag (name : Markup.Name) (offset : Nat) (rest : Text) :
    ∃ tag, Tag.at? (some ' ') offset (name.text ++ ' ' :: '/' :: '>' :: rest) = some tag := by
  obtain ⟨c, others, isText, letter⟩ := name.exists_cons
  have notSlash : c ≠ '/' := Markup.ne_of_isAlpha letter '/' (by decide)
  have notEnd : c ≠ '>' := Markup.ne_of_isAlpha letter '>' (by decide)
  have isName := Markup.read?_name name ' ' (by decide) ('/' :: '>' :: rest)
  have first : (name.text ++ ' ' :: '/' :: '>' :: rest).head? = some c := by rw [isText]; rfl
  have apart : Character.continuesName ' ' = false := by decide
  have tail : Tag.tail? 0 false 0 (' ' :: '/' :: '>' :: rest) = some (3, true) := by
    simp [Tag.tail?]
  unfold Tag.at?
  simp [first, notSlash, notEnd, isName, apart, tail]

theorem exists_mem_scan : ∃ tag, tag ∈ Tag.scan (function.definition container) := by
  have behindBlank : function.front.getLast? = some ' ' := by
    have isLast : returnWord.getLast? = some ' ' := by decide
    simp [SceneFunction.front, List.getLast?_append, List.getLast?_cons, isLast]
  obtain ⟨tag, isTag⟩ := at?_singleTag (function.tag container) function.front.length [';', '\n', '\x7d']
  refine ⟨tag, Tag.mem_scan_iff.mpr ⟨⟨function.front, _, definition_eq, ?_⟩, ?_⟩⟩
  · rw [behindBlank]
    exact isTag
  · rintro other isOther ⟨after, _⟩
    obtain ⟨passed, lead, inner, rest, split, shape⟩ := Tag.exists_hasShape_of_mem_scan isOther
    rw [definition_eq] at split
    obtain ⟨same, -⟩ := eq_of_cut not_mem_front (not_mem_back _) split
    rw [shape.start, same, Tag.start_of_at? isTag] at after
    exact Nat.lt_irrefl _ after

theorem renders_definition (apart : container.text ≠ mesh.text) :
    renders container.text (function.definition container) = function.rendersRoot := by
  cases rendersRoot : function.rendersRoot with
  | true =>
      have isContainer : function.tag container = container := by rw [SceneFunction.tag, if_pos rendersRoot]
      obtain ⟨tag, member⟩ := @exists_mem_scan container function
      obtain ⟨named, opens⟩ := eq_of_mem_scan member
      rw [renders, List.any_eq_true]
      refine ⟨tag, member, ?_⟩
      rw [named, isContainer]
      simpa using opens
  | false =>
      have isMesh : function.tag container = mesh := by rw [SceneFunction.tag, rendersRoot]; rfl
      rw [renders, List.any_eq_false]
      intro tag member isRoot
      obtain ⟨named, _⟩ := eq_of_mem_scan member
      rw [Bool.and_eq_true, beq_iff_eq, named, isMesh] at isRoot
      exact apart isRoot.1.symm

/-- The names of the functions that render the root container, in order. -/
def rendering (functions : List SceneFunction) : List Text :=
  (functions.filter SceneFunction.rendersRoot).map SceneFunction.name

theorem map_name_candidates (apart : container.text ≠ mesh.text) (functions : List SceneFunction) :
    (candidates (scenes container functions) container.text).map Candidate.name = rendering functions := by
  have behind (before : List SceneFunction) :
      ((candidatesFrom container (scenes container before).length functions).filter fun component =>
          renders container.text (Text.slice (scenes container (before ++ functions)) component.start
            component.stop)).map Candidate.name = rendering functions := by
    induction functions generalizing before with
    | nil => rfl
    | cons function others inductionHypothesis =>
        have later := inductionHypothesis (before ++ [function])
        have split := scenes_append_cons container before function others
        have isDefinition : Text.slice (scenes container (before ++ function :: others))
            (function.candidate container (scenes container before).length).start
            (function.candidate container (scenes container before).length).stop = function.definition container :=
          Text.slice_eq _ _ split rfl rfl
        rw [List.append_assoc, List.singleton_append, length_scenes_concat] at later
        rw [candidatesFrom, List.filter_cons, isDefinition, renders_definition apart]
        cases rendersRoot : function.rendersRoot with
        | true =>
            rw [rendering, List.filter_cons_of_pos rendersRoot]
            exact congrArg (function.name :: ·) later
        | false =>
            rw [rendering, List.filter_cons_of_neg (by simp [rendersRoot])]
            exact later
  rw [candidates, mask_scenes, topLevelComponents_scenes]
  exact behind []

end Rendered

/-! ## The root -/

/-- The name of the root among those of functions that render the root container: the only one, or else
the conventional one, or else the first. -/
def selectedRoot (rootName : Text) : List Text -> Option Text
  | [] => none
  | [only] => some only
  | first :: others => some (if (first :: others).contains rootName then rootName else first)

theorem map_name_chooseRoot (rootName : Text) (found : List Candidate) :
    (chooseRoot rootName found).map Candidate.name = selectedRoot rootName (found.map Candidate.name) := by
  unfold chooseRoot
  cases named : found.find? (·.name == rootName) with
  | some root =>
      have isNamed : root.name = rootName := by simpa using List.find?_some named
      have isOne : rootName ∈ found.map Candidate.name :=
        List.mem_map.mpr ⟨root, List.mem_of_find?_eq_some named, isNamed⟩
      rw [Option.some_or, Option.map_some, isNamed]
      cases found with
      | nil => contradiction
      | cons first others =>
          cases others with
          | nil => exact congrArg some (List.mem_singleton.mp isOne)
          | cons second rest => exact congrArg some (if_pos (List.contains_iff_mem.mpr isOne)).symm
  | none =>
      have notOne : rootName ∉ found.map Candidate.name := by
        intro isOne
        obtain ⟨root, member, isNamed⟩ := List.mem_map.mp isOne
        exact List.find?_eq_none.mp named root member (beq_iff_eq.mpr isNamed)
      rw [Option.none_or]
      cases found with
      | nil => rfl
      | cons first others =>
          cases others with
          | nil => rfl
          | cons second rest => exact congrArg some (if_neg fun isOne => notOne (List.contains_iff_mem.mp isOne)).symm

/-- The tag of the root container of a packaged catalog. -/
def containerTag (framework : Framework) : Markup.Name where
  text := (Catalog.packaged framework).rootContainer
  nonempty := by cases framework <;> decide
  letters := by cases framework <;> exact Text.forall_mem_of_all (by decide)

theorem trim_scenes (container : Markup.Name) (functions : List SceneFunction) :
    Text.trim (scenes container functions) = Text.trimEnd (scenes container functions) := by
  have isStart : Text.trimStart (scenes container functions) = scenes container functions := by
    cases functions with
    | nil => rfl
    | cons function others => rfl
  rw [Text.trim, isStart]

/-- Among functions that each return one tag, the root is chosen by the tags and the names alone, and
exported behind them. -/
theorem componentEntry_scenes (framework : Framework) (functions : List SceneFunction) :
    componentEntry (Catalog.packaged framework) (scenes (containerTag framework) functions) =
      match selectedRoot (Catalog.packaged framework).rootName (rendering functions) with
      | some root =>
          (Text.trim (scenes (containerTag framework) functions) ++ "\n\nexport default ".toList ++ root ++
            ";\n".toList, [])
      | none =>
          (scenes (containerTag framework) functions,
            [.error .entry "no_entry_point_candidate"
              ("No top-level component renders <".toList ++ (Catalog.packaged framework).rootContainer ++
                ">.".toList)]) := by
  have apart : (containerTag framework).text ≠ mesh.text := by cases framework <;> decide
  have names : (candidates (scenes (containerTag framework) functions)
      (Catalog.packaged framework).rootContainer).map Candidate.name = rendering functions :=
    map_name_candidates apart functions
  rw [componentEntry, stripMountCode_scenes]
  dsimp only
  rw [nameAnonymousDefault_scenes, stripDefaultExports_scenes, trim_scenes, ← names, ← map_name_chooseRoot]
  cases chooseRoot (Catalog.packaged framework).rootName
      (candidates (scenes (containerTag framework) functions) (Catalog.packaged framework).rootContainer) with
  | none => rfl
  | some root => rfl

example (isName : IsComponentName "App".toList) :
    scenes (containerTag .reactThreeFiber) [⟨"App".toList, isName, true⟩] =
      "function App() \x7b\n  return <Canvas />;\n\x7d\n".toList :=
  rfl

end SceneBundler.Entry
