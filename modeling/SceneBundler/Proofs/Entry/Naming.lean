import SceneBundler.Entry.Candidate
import SceneBundler.Entry.Synthesis
import SceneBundler.Proofs.Text.Ordered
import SceneBundler.Proofs.Text.Search

/-!
Contract: the source in which the root is looked for, and the names of its candidates.

Owns:
- the source without mount code and default exports, in which the root is looked for;
- the default export that is added to it, after an empty line;
- the two outcomes of looking for the root;
- that every candidate has a name that begins with a capital and is made of the characters of names.

Does not own: which components are candidates, and what is left of default exports.
-/

namespace SceneBundler.Entry

open Pattern (CapturesOnly)

/-- A source as the root is looked for in it: without mount code, and without the default exports that
are recognised. -/
def stripped (catalog : Catalog) (text : Text) : Text :=
  stripDefaultExports (nameAnonymousDefault (stripMountCode text).1 catalog.rootName)

/-- The statement that exports a name as the default. -/
def exportOf (name : Text) : Text :=
  "export default ".toList ++ name ++ ";\n".toList

/-- The root of a source without default exports. -/
def rootOf (catalog : Catalog) (source : Text) : Option Candidate :=
  chooseRoot catalog.rootName (candidates source catalog.rootContainer)

private theorem append_exportOf (source name : Text) :
    source ++ "\n\nexport default ".toList ++ name ++ ";\n".toList =
      source ++ '\n' :: '\n' :: exportOf name := by
  have lead : "\n\nexport default ".toList = '\n' :: '\n' :: "export default ".toList := by
    decide
  unfold exportOf
  rw [lead]
  generalize "export default ".toList = first
  generalize ";\n".toList = last
  simp

/-- The entry of a component source, by what looking for the root comes to. -/
theorem componentEntry_eq (catalog : Catalog) (text : Text) :
    componentEntry catalog text =
      match rootOf catalog (stripped catalog text) with
      | none =>
          (stripped catalog text,
            (stripMountCode text).2 ++
              [noEntry ("No top-level component renders <".toList ++ catalog.rootContainer ++
                ">.".toList)])
      | some root =>
          (Text.trimEnd (stripped catalog text) ++ '\n' :: '\n' :: exportOf root.name,
            (stripMountCode text).2) := by
  unfold componentEntry rootOf stripped
  generalize stripMountCode text = mounted
  obtain ⟨unmounted, reports⟩ := mounted
  simp only
  generalize chooseRoot _ _ = chosen
  cases chosen with
  | none => rfl
  | some root =>
      exact congrArg (·, reports) (append_exportOf _ root.name)

theorem code_noEntry (message : Text) :
    (noEntry message).code = "no_entry_point_candidate".toList :=
  rfl

theorem isError_noEntry (message : Text) : (noEntry message).isError = true :=
  rfl

/-- The root that is chosen is one of the candidates. -/
theorem mem_of_chooseRoot {rootName : Text} {found : List Candidate} {root : Candidate}
    (chosen : chooseRoot rootName found = some root) : root ∈ found := by
  rcases Option.or_eq_some_iff.mp chosen with named | ⟨_, isFirst⟩
  · exact List.mem_of_find?_eq_some named
  · exact List.mem_of_head? isFirst

/-- What the removal of mount code reports is a warning. -/
theorem eq_of_mem_stripMountCode {text : Text} {finding : Diagnostic}
    (member : finding ∈ (stripMountCode text).2) :
    ∃ message line, finding = .warning .entry "mount_code_removed" message line := by
  unfold stripMountCode at member
  dsimp only at member
  split at member
  next => exact absurd member List.not_mem_nil
  next => exact ⟨_, _, List.mem_singleton.mp member⟩

/-! ## Names of components -/

/-- Whether a text holds only characters that names continue with. -/
def IsNameText (text : Text) : Prop :=
  ∀ c ∈ text, Character.continuesName c = true

/-- The names of components: a capital letter and characters that names continue with. -/
structure IsComponentName (text : Text) : Prop where
  capital : ∃ first rest, text = first :: rest ∧ first.isUpper = true
  isNameText : IsNameText text

theorem continuesName_of_isUpper {c : Char} (upper : c.isUpper = true) :
    Character.continuesName c = true := by
  have ascii : c.toNat < 0x80 := by
    have bounds : c.val ≥ 'A'.val ∧ c.val ≤ 'Z'.val := of_decide_eq_true upper
    have bound := UInt32.le_iff_toNat_le.mp bounds.2
    have code : c.toNat = c.val.toNat := rfl
    have last : 'Z'.val.toNat = 90 := rfl
    omega
  have alphanumeric : c.isAlphanum = true := by
    have split : c.isAlphanum = (c.isUpper || c.isLower || c.isDigit) := rfl
    rw [split, upper]
    rfl
  simp [Character.continuesName, Character.isWord, ascii, alphanumeric]

theorem capturesOnly_componentName : Pattern.CapturesOnly IsComponentName componentName := by
  refine ⟨⟨trivial, trivial⟩, ?_⟩
  intro cursor next word reads passes
  obtain ⟨middle, stepped, readsRest⟩ := reads
  obtain ⟨c, upper, passesFirst, _⟩ := Cursor.passes_of_step? stepped
  obtain ⟨rest, continues, _, passesRest⟩ := Pattern.passes_of_reads_run readsRest
  obtain rfl : word = [c] ++ rest := passes.unique (passesFirst.trans passesRest)
  refine ⟨⟨c, rest, rfl, upper⟩, ?_⟩
  intro d member
  rcases List.mem_cons.mp member with isFirst | isLater
  · exact isFirst ▸ continuesName_of_isUpper upper
  · exact continues d isLater

section Patterns

open Pattern (anyOf gap plus blanks indent char lineStart wordBoundary name maybe)

theorem capturesOnly_exportLead : CapturesOnly IsComponentName exportLead := by
  simp [exportLead, lineStart, indent, Pattern.star, gap, plus]

theorem capturesOnly_componentVariable : CapturesOnly IsComponentName componentVariable := by
  simp [componentVariable, capturesOnly_exportLead, capturesOnly_componentName, CapturesOnly,
    anyOf, gap, plus, blanks, Pattern.star, char]

theorem capturesOnly_functionComponent : CapturesOnly IsComponentName functionComponent := by
  simp [functionComponent, capturesOnly_exportLead, capturesOnly_componentName, gap, plus, blanks,
    Pattern.star, char]

theorem capturesOnly_functionExpressionComponent :
    CapturesOnly IsComponentName functionExpressionComponent := by
  simp [functionExpressionComponent, capturesOnly_componentVariable, wordBoundary, Pattern.star, char]

theorem capturesOnly_arrowComponent : CapturesOnly IsComponentName arrowComponent := by
  simp [arrowComponent, arrowParameters, outsideParens, capturesOnly_componentVariable,
    CapturesOnly, blanks, Pattern.star, char, name]

theorem capturesOnly_classComponent : CapturesOnly IsComponentName classComponent := by
  simp [classComponent, capturesOnly_exportLead, capturesOnly_componentName, gap, plus, Pattern.star, char]

end Patterns

theorem isComponentName_of_mem_componentsOf {masked : Text} {pattern : Pattern}
    {stop? : Match -> Option Nat} {candidate : Candidate}
    (only : pattern.CapturesOnly IsComponentName) (captures : pattern.Captures 1)
    (member : candidate ∈ componentsOf masked pattern stop?) :
    IsComponentName candidate.name := by
  obtain ⟨found, isFound, isCandidate⟩ := List.mem_filterMap.mp member
  split at isCandidate
  next =>
    obtain ⟨_, _, rfl⟩ := Option.map_eq_some_iff.mp isCandidate
    exact Pattern.captured_of_mem_all only captures isFound
  next => contradiction

theorem mem_of_mem_lastByStart {found : List Candidate} {candidate : Candidate}
    (member : candidate ∈ lastByStart found) : candidate ∈ found := by
  induction found with
  | nil => exact member
  | cons first rest inductionHypothesis =>
      rw [lastByStart] at member
      split at member
      next => exact List.mem_cons_of_mem first (inductionHypothesis member)
      next =>
        rcases List.mem_cons.mp member with isFirst | isLater
        · exact isFirst ▸ List.mem_cons_self
        · exact List.mem_cons_of_mem first (inductionHypothesis isLater)

/-- Every root candidate has the name of a component. -/
theorem isComponentName_of_mem_candidates {source rootContainer : Text} {candidate : Candidate}
    (member : candidate ∈ candidates source rootContainer) : IsComponentName candidate.name := by
  have isTopLevel := mem_of_mem_lastByStart (Order.mem_sort.mp (List.mem_filter.mp member).1)
  have ofVariable : Pattern.Captures 1 componentVariable := by
    simp [componentVariable, componentName]
  rcases List.mem_append.mp isTopLevel with others | isClass
  · rcases List.mem_append.mp others with isFunction | isArrow
    · rcases List.mem_append.mp isFunction with isDeclared | isExpression
      · exact isComponentName_of_mem_componentsOf capturesOnly_functionComponent
          (by simp [functionComponent, componentName]) isDeclared
      · exact isComponentName_of_mem_componentsOf capturesOnly_functionExpressionComponent
          (by simp [functionExpressionComponent, ofVariable]) isExpression
    · exact isComponentName_of_mem_componentsOf capturesOnly_arrowComponent
        (by simp [arrowComponent, ofVariable]) isArrow
  · exact isComponentName_of_mem_componentsOf capturesOnly_classComponent
      (by simp [classComponent, componentName]) isClass

/-- The root that is chosen has the name of a component. -/
theorem isComponentName_of_rootOf {catalog : Catalog} {source : Text} {root : Candidate}
    (chosen : rootOf catalog source = some root) : IsComponentName root.name :=
  isComponentName_of_mem_candidates (mem_of_chooseRoot chosen)

end SceneBundler.Entry
