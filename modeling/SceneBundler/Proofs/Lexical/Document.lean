import SceneBundler.Proofs.Source.Heading
import SceneBundler.Source.Mask

/-!
Contract: source text as a tree of code, comments, quoted strings and nested templates, and its masked view.

Owns:
- documents, whose items are code, braces, strings, comments and templates, and templates, whose holes hold
  documents again;
- how a document is written, and the same text with the contents of its literals blanked;
- places of a reading outside all markup, and what is shown on the way from one to another;
- that the view of a document shows all but its comments and the contents of its strings and template text,
  however deep templates and braces are nested.

Does not own: markup and regular expressions.
-/

namespace SceneBundler.Lexical

open Source (isQuote)

/-- A character of code that is no quote, backtick, slash, angle bracket or brace. -/
def isOrdinary (c : Char) : Bool :=
  !"'\"\x60/<\x7b\x7d".toList.contains c

/-- A part of a literal: a character that stands for itself, or one behind a backslash. -/
inductive Part where
  | literal (c : Char)
  | escape (c : Char)
deriving DecidableEq

def Part.text : Part -> Text
  | literal c => [c]
  | escape c => ['\\', c]

/-- The parts of a literal as they are written. -/
def written (parts : List Part) : Text :=
  parts.flatMap Part.text

/-! ## Strings and comments -/

/-- Whether a part can stand in a string between the given quotes. -/
def Part.FitsQuotes (quote : Char) : Part -> Prop
  | literal c => c ≠ '\\' ∧ c ≠ quote ∧ c ≠ '\n'
  | escape _ => True

/-- A string between single or double quotes, on one line but for escaped line breaks. -/
structure Quoted where
  quote : Char
  isMark : isQuote quote = true
  parts : List Part
  fits : ∀ part ∈ parts, part.FitsQuotes quote

/-- The operators that strings stand behind. -/
inductive Operator where
  | equals
  | parenthesis
  | comma
  | bracket
  | colon
  | plus

def Operator.mark : Operator -> Char
  | equals => '='
  | parenthesis => '('
  | comma => ','
  | bracket => '['
  | colon => ':'
  | plus => '+'

/-- What stands behind the two slashes of a comment, up to the end of its line. -/
structure LineComment where
  text : Text
  noBreak : '\n' ∉ text

/-- What stands between the two marks of a block comment. -/
structure BlockComment where
  text : Text
  unclosed : Text.occursIn ['*', '/'] text = false

/-! ## Templates -/

/-- Whether parts of template text open no hole and end nowhere: no backtick and no backslash stands for
itself, and no dollar sign in front of a brace. -/
def staysText : List Part -> Bool
  | [] => true
  | .literal c :: rest =>
      c != '\\' && c != '\x60' && !(c == '$' && rest.head? == some (.literal '\x7b')) && staysText rest
  | .escape _ :: rest => staysText rest

/-- The text of a template between its ends and holes. -/
structure Run where
  parts : List Part
  stays : staysText parts = true

/-! ## Documents -/

mutual

/-- A list of items: each constructor is a first item with those after it. -/
inductive Document where
  | nil
  | plain (c : Char) (ordinary : isOrdinary c = true) (after : Document)
  | group (inner after : Document)
  | string (operator : Operator) (quoted : Quoted) (after : Document)
  | lineComment (comment : LineComment) (after : Document)
  | blockComment (comment : BlockComment) (after : Document)
  | template (template : Template) (after : Document)

/-- A template behind its backtick: text up to the end, or up to a hole with the rest after it. -/
inductive Template where
  | last (run : Run)
  | hole (run : Run) (inside : Document) (rest : Template)

end

mutual

/-- A document as it is written, with comments and the contents of literals in a given form. -/
def Document.text (form : Text -> Text) : Document -> Text
  | .nil => []
  | .plain c _ after => c :: after.text form
  | .group inner after => '\x7b' :: (inner.text form ++ '\x7d' :: after.text form)
  | .string operator quoted after =>
      operator.mark :: quoted.quote :: (form (written quoted.parts) ++ quoted.quote :: after.text form)
  | .lineComment comment after => form ('/' :: '/' :: comment.text) ++ '\n' :: after.text form
  | .blockComment comment after =>
      form ('/' :: '*' :: (comment.text ++ ['*', '/'])) ++ after.text form
  | .template template after => '\x60' :: (template.text form ++ after.text form)

/-- A template as it is written behind its backtick, with its text in a given form. -/
def Template.text (form : Text -> Text) : Template -> Text
  | .last run => form (written run.parts) ++ ['\x60']
  | .hole run inside rest =>
      form (written run.parts) ++ '$' :: '\x7b' :: (inside.text form ++ '\x7d' :: rest.text form)

end

/-- A text with a space in place of each of its characters but line breaks. -/
def blanked (text : Text) : Text :=
  text.map fun c => if c = '\n' then c else ' '

end SceneBundler.Lexical

namespace SceneBundler.Lexical

open Source (Region Reading isQuote opensString)

/-! ## Ways -/

/-- A place of a reading outside all markup: what kind of text is read there, and the braces around it. -/
structure Place where
  region : Region
  depths : List Int
  depth : Int

/-- The reading at a place, behind given masked characters. -/
def Place.reading (place : Place) (before : Text) (lineIsBlank : Bool) : Reading :=
  ⟨place.region, before, lineIsBlank, [], [], place.depths, place.depth⟩

/-- Whether a text in front of another one is shown in some form on the way from one place to another. -/
def Leads (following before : Text) (here : Place) (text shown : Text) (there : Place) : Prop :=
  ∀ lineIsBlank, ∃ stillBlank,
    (here.reading before lineIsBlank).viewBefore following text = shown ∧
      (here.reading before lineIsBlank).readBefore following text =
        there.reading (shown.reverse ++ before) stillBlank

namespace Leads

variable {following before : Text} {here middle there : Place}

theorem nil (here : Place) : Leads following before here [] [] here :=
  fun lineIsBlank => ⟨lineIsBlank, rfl, rfl⟩

/-- A character, and then the rest of a text. -/
theorem cons {c : Char} {visible : Bool} {rest restShown : Text}
    (reads : ∀ lineIsBlank, (here.reading before lineIsBlank).read c (rest ++ following) =
      (visible, middle.reading before lineIsBlank))
    (goesOn : Leads following (Reading.shown visible c :: before) middle rest restShown there) :
    Leads following before here (c :: rest) (Reading.shown visible c :: restShown) there := by
  intro lineIsBlank
  have step : (here.reading before lineIsBlank).advance c (rest ++ following) =
      middle.reading (Reading.shown visible c :: before)
        (c == '\n' || (lineIsBlank && Character.isBlank c)) := by
    rw [Reading.advance, reads]
    rfl
  obtain ⟨stillBlank, view, read⟩ := goesOn (c == '\n' || (lineIsBlank && Character.isBlank c))
  refine ⟨stillBlank, ?_, ?_⟩
  · rw [Reading.viewBefore, step, view, reads]
  · rw [Reading.readBefore, step, read, List.reverse_cons, List.append_assoc]
    rfl

theorem append {first second firstShown secondShown : Text}
    (leadsFirst : Leads (second ++ following) before here first firstShown middle)
    (leadsSecond : Leads following (firstShown.reverse ++ before) middle second secondShown there) :
    Leads following before here (first ++ second) (firstShown ++ secondShown) there := by
  intro lineIsBlank
  obtain ⟨between, viewFirst, readFirst⟩ := leadsFirst lineIsBlank
  obtain ⟨stillBlank, viewSecond, readSecond⟩ := leadsSecond between
  refine ⟨stillBlank, ?_, ?_⟩
  · rw [Reading.viewBefore_append, viewFirst, readFirst, viewSecond]
  · rw [Reading.readBefore_append, readFirst, readSecond, List.reverse_append, List.append_assoc]

/-- A character that is kept. -/
theorem keep (middle : Place) {c : Char} {rest restShown : Text}
    (reads : ∀ lineIsBlank, (here.reading before lineIsBlank).read c (rest ++ following) =
      (true, middle.reading before lineIsBlank))
    (goesOn : Leads following (c :: before) middle rest restShown there) :
    Leads following before here (c :: rest) (c :: restShown) there :=
  cons reads goesOn

/-- A character that is blanked. -/
theorem blank (middle : Place) {c : Char} {rest restShown : Text}
    (reads : ∀ lineIsBlank, (here.reading before lineIsBlank).read c (rest ++ following) =
      (false, middle.reading before lineIsBlank))
    (goesOn : Leads following (blanked [c] ++ before) middle rest restShown there) :
    Leads following before here (c :: rest) (blanked [c] ++ restShown) there := by
  have form : blanked [c] = [Reading.shown false c] := by simp [blanked, Reading.shown]
  rw [form] at goesOn ⊢
  exact cons reads goesOn

end Leads

theorem blanked_cons (c : Char) (rest : Text) : blanked (c :: rest) = blanked [c] ++ blanked rest :=
  rfl

/-- Code behind the braces of some templates. -/
def code (depths : List Int) (depth : Int) : Place :=
  ⟨.code, depths, depth⟩

variable {following before : Text} {depths : List Int} {depth : Int}

theorem read_code (before : Text) (lineIsBlank : Bool) (c : Char) (ahead : Text) :
    ((code depths depth).reading before lineIsBlank).read c ahead =
      ((code depths depth).reading before lineIsBlank).readPlain c ahead :=
  rfl

/-! ## Comments -/

theorem leads_lineComment (comment : LineComment) :
    Leads ('\n' :: following) before (code depths depth) ('/' :: '/' :: comment.text)
      (blanked ('/' :: '/' :: comment.text)) ⟨.lineComment, depths, depth⟩ := by
  have inside (before : Text) {text : Text} (noBreak : '\n' ∉ text) :
      Leads ('\n' :: following) before ⟨.lineComment, depths, depth⟩ text (blanked text)
        ⟨.lineComment, depths, depth⟩ := by
    induction text generalizing before with
    | nil => exact Leads.nil _
    | cons c rest inductionHypothesis =>
        obtain ⟨notBreak, noBreakRest⟩ : '\n' ≠ c ∧ '\n' ∉ rest := by simpa using noBreak
        rw [blanked_cons]
        refine Leads.blank _ (fun lineIsBlank => ?_) (inductionHypothesis _ noBreakRest)
        simp [Reading.read, Place.reading, Ne.symm notBreak]
  rw [blanked_cons]
  refine Leads.blank ⟨.lineComment, depths, depth⟩ (fun lineIsBlank => ?_) ?_
  · rw [read_code]
    simp [Reading.readPlain, code, Place.reading]
  · exact inside _ (by simpa using comment.noBreak)

/-- Behind the opening mark of a block comment everything is blanked through the first closing mark. -/
theorem leads_blockComment (comment : BlockComment) :
    Leads following before (code depths depth) ('/' :: '*' :: (comment.text ++ ['*', '/']))
      (blanked ('/' :: '*' :: (comment.text ++ ['*', '/']))) (code depths depth) := by
  have inside (before : Text) {text : Text} (unclosed : Text.occursIn ['*', '/'] text = false) :
      Leads following before ⟨.blockComment, depths, depth⟩ (text ++ ['*', '/'])
        (blanked (text ++ ['*', '/'])) (code depths depth) := by
    induction text generalizing before with
    | nil =>
        rw [List.nil_append, blanked_cons]
        refine Leads.blank ⟨.held false 0 .code, depths, depth⟩ (fun lineIsBlank => ?_) ?_
        · simp [Reading.read, Place.reading, Region.hold]
        · refine Leads.blank (code depths depth) (fun lineIsBlank => ?_) (Leads.nil _)
          simp [Reading.read, Place.reading, Region.hold, code]
    | cons c rest inductionHypothesis =>
        rw [Text.occursIn, Bool.or_eq_false_iff] at unclosed
        rw [List.cons_append, blanked_cons]
        refine Leads.blank _ (fun lineIsBlank => ?_) (inductionHypothesis _ unclosed.2)
        have goesOn : (c = '*' && (rest ++ ['*', '/'] ++ following).head? == some '/') = false := by
          cases rest with
          | nil => simp
          | cons d rest =>
              by_contra closes
              obtain ⟨rfl, rfl⟩ : c = '*' ∧ d = '/' := by simpa using closes
              exact absurd unclosed.1 (by simp)
        simp only [Reading.read, Place.reading, goesOn]
        rfl
  rw [blanked_cons]
  refine Leads.blank ⟨.held false 0 .blockComment, depths, depth⟩ (fun lineIsBlank => ?_) ?_
  · rw [read_code]
    simp [Reading.readPlain, code, Place.reading, Region.hold]
  · rw [blanked_cons]
    refine Leads.blank _ (fun lineIsBlank => ?_) (inside _ comment.unclosed)
    simp [Reading.read, Place.reading, Region.hold]

/-! ## Literals -/

/-- A backslash and the character behind it are blanked in a literal. -/
theorem Leads.escape {region : Region} {there : Place} {c : Char} {rest restShown : Text}
    (isLiteral : (∃ quote, region = .quoted quote) ∨ region = .template)
    (goesOn : Leads following (blanked [c] ++ (blanked ['\\'] ++ before)) ⟨region, depths, depth⟩ rest
      restShown there) :
    Leads following before ⟨region, depths, depth⟩ ('\\' :: c :: rest)
      (blanked ['\\'] ++ (blanked [c] ++ restShown)) there := by
  refine Leads.blank ⟨.held false 0 region, depths, depth⟩ (fun lineIsBlank => ?_) ?_
  · rcases isLiteral with ⟨quote, rfl⟩ | rfl
    · simp [Reading.read, Place.reading, Region.hold]
    · simp [Reading.read, Place.reading, Region.hold]
  · refine Leads.blank _ (fun lineIsBlank => ?_) goesOn
    simp [Reading.read, Place.reading, Region.hold]

/-- Behind an operator a quote opens a string. -/
theorem opensString_mark (operator : Operator) (before : Text) :
    opensString ((operator.mark :: before).take Source.lookBack) = true := by
  cases operator <;> rfl

theorem read_mark (operator : Operator) (before : Text) (lineIsBlank : Bool) (ahead : Text) :
    ((code depths depth).reading before lineIsBlank).read operator.mark ahead =
      (true, (code depths depth).reading before lineIsBlank) := by
  rw [read_code]
  cases operator <;> simp [Operator.mark, Reading.readPlain, isQuote]

/-- The text of a string, through its closing quote. -/
theorem leads_parts {quote : Char} (isMark : isQuote quote = true) {parts : List Part}
    (fits : ∀ part ∈ parts, part.FitsQuotes quote) :
    Leads following before ⟨.quoted quote, depths, depth⟩ (written parts ++ [quote])
      (blanked (written parts) ++ [quote]) (code depths depth) := by
  induction parts generalizing before with
  | nil =>
      refine Leads.keep (code depths depth) (fun lineIsBlank => ?_) (Leads.nil _)
      have notEscape : quote ≠ '\\' := by
        rintro rfl
        exact absurd isMark (by decide)
      simp [Reading.read, Place.reading, code, notEscape]
  | cons part rest inductionHypothesis =>
      obtain ⟨fitsHere, fitsRest⟩ := List.forall_mem_cons.mp fits
      cases part with
      | literal c =>
          obtain ⟨notEscape, notQuote, notBreak⟩ := fitsHere
          refine Leads.blank _ (fun lineIsBlank => ?_) (inductionHypothesis fitsRest)
          simp [Reading.read, Place.reading, notEscape, notQuote, notBreak]
      | escape c => exact Leads.escape (Or.inl ⟨quote, rfl⟩) (inductionHypothesis fitsRest)

theorem leads_quoted (operator : Operator) (quoted : Quoted) :
    Leads following before (code depths depth)
      (operator.mark :: quoted.quote :: (written quoted.parts ++ [quoted.quote]))
      (operator.mark :: quoted.quote :: (blanked (written quoted.parts) ++ [quoted.quote]))
      (code depths depth) := by
  refine Leads.keep (code depths depth) (fun lineIsBlank => read_mark operator _ _ _) ?_
  refine Leads.keep ⟨.quoted quoted.quote, depths, depth⟩ (fun lineIsBlank => ?_)
    (leads_parts quoted.isMark quoted.fits)
  have isOne : quoted.quote = '\x27' ∨ quoted.quote = '\x22' := by
    simpa [isQuote] using quoted.isMark
  have opens := opensString_mark operator before
  rw [read_code]
  rcases isOne with isQuoteMark | isQuoteMark <;>
    simp [Reading.readPlain, Reading.window, Place.reading, code, isQuoteMark, isQuote, opens]

/-! ## Templates and documents -/

/-- The text of a template in front of its end or of a hole. -/
theorem leads_run {parts : List Part} (stays : staysText parts = true)
    (ends : following.head? ≠ some '\x7b') :
    Leads following before ⟨.template, depths, depth⟩ (written parts) (blanked (written parts))
      ⟨.template, depths, depth⟩ := by
  induction parts generalizing before with
  | nil => exact Leads.nil _
  | cons part rest inductionHypothesis =>
      cases part with
      | literal c =>
          simp only [staysText, Bool.and_eq_true, bne_iff_ne, Bool.not_eq_true'] at stays
          obtain ⟨⟨⟨notEscape, notTick⟩, noHole⟩, staysRest⟩ := stays
          change Leads following before _ (c :: written rest) (blanked [c] ++ blanked (written rest)) _
          refine Leads.blank _ (fun lineIsBlank => ?_) (inductionHypothesis staysRest)
          have noHoleAhead : (c = '$' && (written rest ++ following).head? == some '\x7b') = false := by
            cases rest with
            | nil => simpa [written] using fun _ => ends
            | cons next rest =>
                cases next with
                | literal d => simpa [written, Part.text] using noHole
                | escape d => simp [written, Part.text]
          simp only [Reading.read, Place.reading, notEscape, notTick, noHoleAhead]
          rfl
      | escape c => exact Leads.escape (Or.inr rfl) (inductionHypothesis stays)

/-- An ordinary character of code is kept, and the reading stays in code. -/
theorem read_ordinary {c : Char} (ordinary : isOrdinary c = true) (before : Text) (lineIsBlank : Bool)
    (ahead : Text) :
    ((code depths depth).reading before lineIsBlank).read c ahead =
      (true, (code depths depth).reading before lineIsBlank) := by
  have differs : ∀ mark ∈ "'\"\x60/<\x7b\x7d".toList, c ≠ mark := by
    rintro mark isIn rfl
    simp only [isOrdinary, Bool.not_eq_true'] at ordinary
    exact absurd (List.contains_iff_mem.mpr isIn) (by simp only [ordinary, Bool.false_eq_true, not_false_iff])
  have notSingle := differs '\x27' (by decide)
  have notDouble := differs '\x22' (by decide)
  have notTick := differs '\x60' (by decide)
  have notSlash := differs '/' (by decide)
  have notLess := differs '<' (by decide)
  have notOpen := differs '\x7b' (by decide)
  have notClose := differs '\x7d' (by decide)
  rw [read_code]
  simp [Reading.readPlain, isQuote, notSingle, notDouble, notTick, notSlash, notLess, notOpen, notClose]

mutual

/-- A document is shown with its literals and comments blanked, and its reading comes back to where it
began.  No brace of the document closes a hole around it: the innermost hole stands no deeper. -/
theorem leads_document (document : Document) {following before : Text} {depths : List Int} {depth : Int}
    (outside : ∀ hole ∈ depths.head?, hole ≤ depth) :
    Leads following before (code depths depth) (document.text id) (document.text blanked)
      (code depths depth) := by
  cases document with
  | nil => exact Leads.nil _
  | plain c ordinary after =>
      exact Leads.keep _ (fun lineIsBlank => read_ordinary ordinary _ _ _) (leads_document after outside)
  | group inner after =>
      have deeper : ∀ hole ∈ depths.head?, hole ≤ depth + 1 := fun hole innermost => by
        have := outside hole innermost
        omega
      refine Leads.keep (code depths (depth + 1)) (fun lineIsBlank => ?_)
        (Leads.append (leads_document inner deeper)
          (Leads.keep (code depths depth) (fun lineIsBlank => ?_) (leads_document after outside)))
      · rw [read_code]
        simp [Reading.readPlain, Reading.deeper, code, Place.reading, isQuote]
      · have closesNoHole : depths.head? ≠ some (depth + 1) := fun innermost => by
          have := outside _ innermost
          omega
        rw [read_code]
        simp [Reading.readPlain, Reading.shallower, code, Place.reading, isQuote, closesNoHole]
  | string operator quoted after =>
      have goesOn : Leads following before (code depths depth) (_ ++ after.text id)
          (_ ++ after.text blanked) (code depths depth) :=
        Leads.append (leads_quoted operator quoted) (leads_document after outside)
      simpa [Document.text] using goesOn
  | lineComment comment after =>
      refine Leads.append (leads_lineComment comment) (Leads.keep (code depths depth) (fun lineIsBlank => ?_)
        (leads_document after outside))
      rfl
  | blockComment comment after =>
      exact Leads.append (leads_blockComment comment) (leads_document after outside)
  | template template after =>
      refine Leads.keep ⟨.template, depths, depth⟩ (fun lineIsBlank => ?_)
        (Leads.append (leads_template template outside) (leads_document after outside))
      rw [read_code]
      simp [Reading.readPlain, code, Place.reading]

/-- Behind its backtick a template is shown with its text blanked, and its reading comes back to the
code around it. -/
theorem leads_template (template : Template) {following before : Text} {depths : List Int} {depth : Int}
    (outside : ∀ hole ∈ depths.head?, hole ≤ depth) :
    Leads following before ⟨.template, depths, depth⟩ (template.text id) (template.text blanked)
      (code depths depth) := by
  cases template with
  | last run =>
      refine Leads.append (leads_run run.stays (by simp)) (Leads.keep _ (fun lineIsBlank => ?_) (Leads.nil _))
      simp [Reading.read, Place.reading, code]
  | hole run inside rest =>
      have innermost : ∀ hole ∈ (depth :: depths).head?, hole ≤ depth := by simp
      refine Leads.append (leads_run run.stays (by simp))
        (Leads.keep ⟨.held true 0 .code, depth :: depths, depth⟩ (fun lineIsBlank => ?_)
          (Leads.keep (code (depth :: depths) depth) (fun lineIsBlank => ?_)
            (Leads.append (leads_document inside innermost)
              (Leads.keep ⟨.template, depths, depth⟩ (fun lineIsBlank => ?_)
                (leads_template rest outside)))))
      · simp [Reading.read, Place.reading, Region.hold]
      · simp [Reading.read, Place.reading, Region.hold, code]
      · rw [read_code]
        simp [Reading.readPlain, code, Place.reading]

end

/-- The masked view of a document keeps every character but those of comments, strings and template
text, and blanks these. -/
theorem mask_text_eq_blanked (document : Document) :
    Source.mask (document.text id) = document.text blanked := by
  have leads : Leads [] [] (code [] 0) (document.text id) (document.text blanked) (code [] 0) :=
    leads_document document (by simp)
  obtain ⟨stillBlank, view, read⟩ := leads true
  have whole := Reading.initial.view_append (document.text id) []
  rw [List.append_nil, Reading.view, List.append_nil] at whole
  rw [Source.mask_eq_view, whole]
  exact view

end SceneBundler.Lexical
