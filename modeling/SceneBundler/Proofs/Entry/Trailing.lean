import Mathlib.Data.List.Basic
import SceneBundler.Proofs.Entry.Naming
import SceneBundler.Proofs.Source.Behind
import SceneBundler.Proofs.Source.Locality
import SceneBundler.Proofs.Source.View
import SceneBundler.Proofs.Text.Trailing

/-!
Contract: the root candidates of a source with blanks at its end.

Owns:
- that the components that are found are the same, up to where the last one ends;
- that the same of them render the root container, so that the candidates have the same names.

Does not own: which candidate is chosen.
-/

namespace SceneBundler.Entry

open Pattern (EndsVisibly endsVisibly_sequence endsVisibly_char endsVisibly_word)
open Source (BracketPairs Tag)

/-- A candidate whose definition ends at a limit if it would end beyond it. -/
def Candidate.clip (limit : Nat) (candidate : Candidate) : Candidate :=
  { candidate with stop := min candidate.stop limit }

variable {masked tail : Text}

section Patterns

open Pattern (anyOf gap plus blanks indent char name)

theorem ignoresTrailing_componentVariable : Pattern.IgnoresTrailing componentVariable := by
  simp [componentVariable, exportLead, componentName, indent, gap, plus, blanks, Pattern.star, char, anyOf,
    Pattern.IgnoresTrailing]

theorem endsVisibly_functionComponent (blank : Text.isBlank tail = true) :
    EndsVisibly functionComponent tail := by
  refine endsVisibly_sequence blank ?_ (endsVisibly_char blank (by decide))
  simp [exportLead, componentName, indent, gap, plus, blanks, Pattern.star]

theorem endsVisibly_functionExpressionComponent (blank : Text.isBlank tail = true) :
    EndsVisibly functionExpressionComponent tail := by
  refine endsVisibly_sequence blank ?_ (endsVisibly_char blank (by decide))
  simp [ignoresTrailing_componentVariable, Pattern.star]

theorem endsVisibly_arrowComponent (blank : Text.isBlank tail = true) :
    EndsVisibly arrowComponent tail := by
  have arrow : Pattern.literal "=>" = Pattern.word (['='] ++ ['>']) := rfl
  unfold arrowComponent
  rw [arrow]
  refine endsVisibly_sequence blank ?_ (endsVisibly_word blank (by decide))
  simp [ignoresTrailing_componentVariable, arrowParameters, outsideParens, blanks, Pattern.star,
    char, name, Pattern.IgnoresTrailing]

theorem endsVisibly_classComponent (blank : Text.isBlank tail = true) :
    EndsVisibly classComponent tail := by
  refine endsVisibly_sequence blank ?_ (endsVisibly_char blank (by decide))
  simp [exportLead, componentName, indent, gap, plus, Pattern.star]

end Patterns

/-! ## Ends of definitions -/

/-- The place after a closer lies within the text. -/
theorem closerEnd_clip (opened : Nat) :
    (((BracketPairs.ofText masked).closerOf? opened).map (· + 1)).map (min · masked.length) =
      ((BracketPairs.ofText masked).closerOf? opened).map (· + 1) := by
  cases closes : (BracketPairs.ofText masked).closerOf? opened with
  | none => rfl
  | some closed =>
      have inside := BracketPairs.lt_of_closerOf? closes
      simp only [Option.map_some, Option.some.injEq]
      omega

theorem functionEnd?_append_blanks (blank : Text.isBlank tail = true) (opened : Nat) :
    (functionEnd? (masked ++ tail) (BracketPairs.ofText masked) opened).map (min · masked.length) =
      functionEnd? masked (BracketPairs.ofText masked) opened := by
  unfold functionEnd?
  cases closes : (BracketPairs.ofText masked).closerOf? opened with
  | none => rfl
  | some closed =>
      have inside := BracketPairs.lt_of_closerOf? closes
      have noBrace := Text.not_mem_of_isBlank blank '\x7b' (by decide)
      simp only [Option.bind_some, Text.offsetOf?_append noBrace (Nat.le_of_lt inside)]
      cases Text.offsetOf? '\x7b' masked closed with
      | none => rfl
      | some body => exact closerEnd_clip body

/-- Where an arrow function ends whose body begins at an offset. -/
def bodyEnd (masked : Text) (pairs : BracketPairs) (body : Nat) : Nat :=
  let bracketed := masked[body]?.any fun c => c == '(' || c == '\x7b'
  match if bracketed then pairs.closerOf? body else none with
  | some closed => closed + 1
  | none => Source.lineEndFrom masked body

theorem bodyEnd_append_blanks {body : Nat} (inside : body < masked.length) :
    min (bodyEnd (masked ++ tail) (BracketPairs.ofText masked) body) masked.length =
      bodyEnd masked (BracketPairs.ofText masked) body := by
  unfold bodyEnd
  rw [List.getElem?_append_left inside]
  dsimp only
  cases found : if masked[body]?.any fun c => c == '(' || c == '\x7b' then
      (BracketPairs.ofText masked).closerOf? body else none with
  | none => exact Source.lineEndFrom_append (Nat.le_of_lt inside)
  | some closed =>
      split at found
      next =>
        have lastInside := BracketPairs.lt_of_closerOf? found
        dsimp only
        omega
      next => exact nomatch found

/-- Without a character at the beginning of the body, an arrow function ends with the text. -/
theorem bodyEnd_of_length_le {pairs : BracketPairs} {body : Nat} (beyond : masked.length ≤ body) :
    bodyEnd masked pairs body = masked.length := by
  have noBreak : Text.offsetOf? '\n' masked body = none := by
    rw [Text.offsetOf?, List.drop_eq_nil_of_le beyond]
    rfl
  rw [bodyEnd, List.getElem?_eq_none beyond]
  simp [Source.lineEndFrom, noBreak]

theorem arrowEnd_append_blanks (blank : Text.isBlank tail = true) {afterArrow : Nat}
    (inside : afterArrow ≤ masked.length) :
    min (arrowEnd (masked ++ tail) (BracketPairs.ofText masked) afterArrow) masked.length =
      arrowEnd masked (BracketPairs.ofText masked) afterArrow := by
  have isBodyEnd (text : Text) : arrowEnd text (BracketPairs.ofText masked) afterArrow =
      bodyEnd text (BracketPairs.ofText masked)
        (Text.skip Character.isBlank text afterArrow) := rfl
  rw [isBodyEnd, isBodyEnd, Text.skip, Text.skip, List.drop_append_of_le_length inside]
  by_cases onlyBlanks : Text.isBlank (masked.drop afterArrow) = true
  · have allBlank : ((masked.drop afterArrow) ++ tail).takeWhile Character.isBlank =
        masked.drop afterArrow ++ tail := by
      rw [List.takeWhile_eq_self_iff]
      intro c member
      rcases List.mem_append.mp member with here | behind
      · exact Text.isBlank_iff.mp onlyBlanks c here
      · exact Text.isBlank_iff.mp blank c behind
    have hereBlank : (masked.drop afterArrow).takeWhile Character.isBlank =
        masked.drop afterArrow :=
      List.takeWhile_eq_self_iff.mpr (Text.isBlank_iff.mp onlyBlanks)
    rw [allBlank, hereBlank, bodyEnd_of_length_le, bodyEnd_of_length_le]
    · simp
    · rw [List.length_drop]
      omega
    · rw [List.length_append, List.length_append, List.length_drop]
      omega
  · have stops : ((masked.drop afterArrow).takeWhile Character.isBlank).length <
        (masked.drop afterArrow).length := by
      refine Nat.lt_of_le_of_ne (List.takeWhile_prefix _).length_le fun sameLength => onlyBlanks ?_
      have whole := (List.takeWhile_prefix Character.isBlank).eq_of_length sameLength
      rw [Text.isBlank_iff]
      exact List.takeWhile_eq_self_iff.mp whole
    have same : ((masked.drop afterArrow) ++ tail).takeWhile Character.isBlank =
        (masked.drop afterArrow).takeWhile Character.isBlank := by
      rw [List.takeWhile_append, if_neg (Nat.ne_of_lt stops)]
    rw [same]
    refine bodyEnd_append_blanks ?_
    rw [List.length_drop] at stops
    omega

/-! ## Components -/

theorem slice_append_of_le {text : Text} {span : Span} (inside : span.stop ≤ text.length) :
    span.of (text ++ tail) = span.of text := by
  rw [Span.of, Span.of, Text.slice, Text.slice, List.drop_append, List.take_append]
  have nothingBehind : span.stop - span.start - (text.drop span.start).length = 0 := by
    rw [List.length_drop]
    omega
  rw [nothingBehind, List.take_zero, List.append_nil]

theorem componentsOf_append_blanks (masked : Text) (blank : Text.isBlank tail = true)
    {pattern : Pattern} (ends : EndsVisibly pattern tail) (only : pattern.CapturesOnly IsComponentName)
    {stop? extended? : Match -> Option Nat}
    (sameStops : ∀ found : Match, found.stop ≤ masked.length →
      (extended? found).map (min · masked.length) = stop? found) :
    (componentsOf (masked ++ tail) pattern extended?).map (Candidate.clip masked.length) =
      componentsOf masked pattern stop? := by
  unfold componentsOf
  rw [Pattern.all_append_blanks ends blank, List.map_filterMap]
  refine List.filterMap_congr fun found member => ?_
  obtain ⟨ordered, inside, captured⟩ := Pattern.bounds_of_mem_all only member
  have sameDepth : isTopLevel (masked ++ tail) found.start = isTopLevel masked found.start := by
    rw [isTopLevel, isTopLevel, Source.braceDepthAt_append (Nat.le_trans ordered inside)]
  have sameName : found.captured (masked ++ tail) 1 = found.captured masked 1 := by
    unfold Match.captured Match.captured? Match.span?
    cases known : found.captures.lookup 1 with
    | none => rfl
    | some span =>
        obtain ⟨before, after, split, _⟩ := List.lookup_eq_some_iff.mp known
        have spanInside := (captured (1, span) (by simp [split])).1
        simp only [Option.map_some, slice_append_of_le spanInside]
  rw [sameDepth, sameName, ← sameStops found inside]
  split
  · simp [Option.map_map, Function.comp_def, Candidate.clip]
  · rfl

theorem lastByStart_clip (limit : Nat) (found : List Candidate) :
    lastByStart (found.map (Candidate.clip limit)) =
      (lastByStart found).map (Candidate.clip limit) := by
  induction found with
  | nil => rfl
  | cons first rest inductionHypothesis =>
      have sameStarts : (rest.map (Candidate.clip limit)).any (·.start == first.start) =
          rest.any (·.start == first.start) := by
        rw [List.any_map]
        rfl
      rw [List.map_cons, lastByStart, lastByStart, inductionHypothesis]
      simp only [Candidate.clip, sameStarts] at *
      split <;> rfl

theorem topLevelComponents_append_blanks (blank : Text.isBlank tail = true) (masked : Text) :
    (topLevelComponents (masked ++ tail)).map (Candidate.clip masked.length) =
      topLevelComponents masked := by
  have functions := componentsOf_append_blanks masked blank
    (endsVisibly_functionComponent blank) capturesOnly_functionComponent
    fun found _ => functionEnd?_append_blanks blank (found.stop - 1)
  have expressions := componentsOf_append_blanks masked blank
    (endsVisibly_functionExpressionComponent blank) capturesOnly_functionExpressionComponent
    fun found _ => functionEnd?_append_blanks blank (found.stop - 1)
  have arrowStops (found : Match) (inside : found.stop ≤ masked.length) :
      (some (arrowEnd (masked ++ tail) (BracketPairs.ofText masked) found.stop)).map
          (min · masked.length) =
        some (arrowEnd masked (BracketPairs.ofText masked) found.stop) :=
    congrArg some (arrowEnd_append_blanks blank inside)
  have arrows := componentsOf_append_blanks masked blank (endsVisibly_arrowComponent blank)
    capturesOnly_arrowComponent arrowStops
  have classes := componentsOf_append_blanks masked blank
    (endsVisibly_classComponent blank) capturesOnly_classComponent
    fun found _ => closerEnd_clip (found.stop - 1)
  unfold topLevelComponents
  dsimp only
  rw [BracketPairs.ofText_append_blanks blank, ← functions, ← expressions, ← arrows, ← classes,
    ← List.map_append, ← List.map_append, ← List.map_append, lastByStart_clip, Order.sort_map]
  exact fun first second => rfl

/-! ## Candidates -/

theorem renders_append_blanks (blank : Text.isBlank tail = true) (rootContainer text : Text) :
    renders rootContainer (text ++ tail) = renders rootContainer text := by
  have blankFirst : ∀ c ∈ tail.head?, Character.isBlank c = true :=
    fun c isFirst => Text.isBlank_iff.mp blank c (List.mem_of_head? isFirst)
  rw [renders, renders, Tag.scan_append blankFirst (Text.not_mem_of_isBlank blank '<' (by decide))
    (Text.not_mem_of_isBlank blank '>' (by decide))]

/-- Blanks at the end of a source change nothing in its candidates but where the last one ends. -/
theorem candidates_append_blanks (blank : Text.isBlank tail = true) (source rootContainer : Text) :
    (candidates (source ++ tail) rootContainer).map (Candidate.clip source.length) =
      candidates source rootContainer := by
  have viewBlank := Source.isBlank_view (Source.Reading.initial.readAll source) blank
  unfold candidates
  dsimp only
  rw [Source.mask_append_of_inert (Source.inert_of_isBlank blank), ← Source.length_mask source,
    ← topLevelComponents_append_blanks viewBlank (Source.mask source), List.filter_map]
  refine congrArg _ (List.filter_congr fun component _ => ?_)
  obtain ⟨blanks, onlyBlanks, same⟩ := Text.slice_append_blanks viewBlank (Source.mask source)
    component.start component.stop
  rw [same, renders_append_blanks onlyBlanks]
  rfl

/-- The names of the candidates of a source. -/
def candidateNames (source rootContainer : Text) : List Text :=
  (candidates source rootContainer).map (·.name)

theorem candidateNames_append_blanks (blank : Text.isBlank tail = true)
    (source rootContainer : Text) :
    candidateNames (source ++ tail) rootContainer = candidateNames source rootContainer := by
  rw [candidateNames, candidateNames, ← candidates_append_blanks blank source, List.map_map]
  rfl

end SceneBundler.Entry
