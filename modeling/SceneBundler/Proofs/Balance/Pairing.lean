import Mathlib.Data.List.Nodup
import SceneBundler.Imports.Element
import SceneBundler.Proofs.Balance.Settled

/-!
Contract: the two ways of finding the tag that closes an opening tag.

Owns:
- the pairing by a stack with its pairs written down;
- that counting the tags of one name passes over tags that a stack pairs all;
- that in tags without an unpaired one, counting finds the partner on the stack of every opening tag, and
  so the whole of its element.

Does not own: tags of which some have no partner.
-/

namespace SceneBundler.Source.Tag

/-! ## The pairs on a stack -/

/-- The pairs of positions that a stack makes of opening and closing tags, and the tags it finds no
partner for; the tags on the stack are kept with their positions, innermost first. -/
def pairUp : (stack : List (Nat × Tag)) -> (position : Nat) -> List Tag ->
    List (Nat × Nat) × List Tag
  | stack, _, [] => ([], (stack.map Prod.snd).reverse)
  | stack, position, tag :: rest =>
      match tag.kind with
      | .selfClosing => pairUp stack (position + 1) rest
      | .opening => pairUp ((position, tag) :: stack) (position + 1) rest
      | .closing =>
          match stack with
          | [] =>
              let (pairs, left) := pairUp [] (position + 1) rest
              (pairs, tag :: left)
          | innermost :: outer =>
              if innermost.2.name = tag.name then
                let (pairs, left) := pairUp outer (position + 1) rest
                ((innermost.1, position) :: pairs, left)
              else
                let (pairs, left) := pairUp (innermost :: outer) (position + 1) rest
                (pairs, tag :: left)

/-- The pairs of positions that a stack makes of the tags of a text. -/
def pairs (tags : List Tag) : List (Nat × Nat) :=
  (pairUp [] 0 tags).1

/-- What a tag at a position does to the stack of the tags that are open: the pair that it makes, and what it
leaves without a partner. -/
inductive PairStep (position : Nat) (tag : Tag) :
    (stack next : List (Nat × Tag)) -> (made : List (Nat × Nat)) -> (left : List Tag) -> Prop where
  | selfClosing {stack : List (Nat × Tag)} (isSelf : tag.kind = .selfClosing) :
      PairStep position tag stack stack [] []
  | opening {stack : List (Nat × Tag)} (opens : tag.kind = .opening) :
      PairStep position tag stack ((position, tag) :: stack) [] []
  | closing {innermost : Nat × Tag} {outer : List (Nat × Tag)} (closes : tag.kind = .closing)
      (sameName : innermost.2.name = tag.name) :
      PairStep position tag (innermost :: outer) outer [(innermost.1, position)] []
  | unpaired {stack : List (Nat × Tag)} (closes : tag.kind = .closing)
      (otherName : ∀ innermost ∈ stack.head?, innermost.2.name ≠ tag.name) :
      PairStep position tag stack stack [] [tag]

section Steps

variable {stack next : List (Nat × Tag)} {position : Nat} {tag : Tag} {made : List (Nat × Nat)} {left : List Tag}

theorem exists_pairStep (stack : List (Nat × Tag)) (position : Nat) (tag : Tag) :
    ∃ next made left, PairStep position tag stack next made left := by
  cases isKind : tag.kind with
  | selfClosing => exact ⟨_, _, _, .selfClosing isKind⟩
  | opening => exact ⟨_, _, _, .opening isKind⟩
  | closing =>
      cases stack with
      | nil => exact ⟨_, _, _, .unpaired isKind nofun⟩
      | cons innermost outer =>
          by_cases sameName : innermost.2.name = tag.name
          · exact ⟨_, _, _, .closing isKind sameName⟩
          · refine ⟨_, _, _, .unpaired isKind fun other isFirst => ?_⟩
            rwa [← Option.some.inj isFirst]

/-- Without the positions, it is what the tag does to a stack of tags. -/
theorem PairStep.stackStep (step : PairStep position tag stack next made left) :
    StackStep tag (stack.map Prod.snd) (next.map Prod.snd) left := by
  cases step with
  | selfClosing isSelf => exact .selfClosing isSelf
  | opening opens => exact .opening opens
  | closing closes sameName => exact .closing closes sameName
  | unpaired closes otherName =>
      refine .unpaired closes fun innermost isFirst => ?_
      rw [List.head?_map] at isFirst
      obtain ⟨first, wasFirst, rfl⟩ := Option.map_eq_some_iff.mp isFirst
      exact otherName first wasFirst

theorem pairUp_cons (step : PairStep position tag stack next made left) (rest : List Tag) :
    pairUp stack position (tag :: rest) =
      (made ++ (pairUp next (position + 1) rest).1, left ++ (pairUp next (position + 1) rest).2) := by
  rw [pairUp.eq_def]
  dsimp only
  cases step with
  | selfClosing isSelf => rw [isSelf, List.nil_append, List.nil_append]
  | opening opens => rw [opens, List.nil_append, List.nil_append]
  | closing closes sameName =>
      rw [closes]
      exact if_pos sameName
  | unpaired closes otherName =>
      rw [closes]
      cases stack with
      | nil => rfl
      | cons innermost outer => exact if_neg (otherName innermost rfl)

end Steps

/-- The tags left are those that are reported as unpaired. -/
theorem snd_pairUp (stack : List (Nat × Tag)) (position : Nat) (tags : List Tag) :
    (pairUp stack position tags).2 = unpaired (stack.map Prod.snd) tags := by
  induction tags generalizing stack position with
  | nil => rfl
  | cons tag rest inductionHypothesis =>
      obtain ⟨next, made, left, step⟩ := exists_pairStep stack position tag
      rw [pairUp_cons step, unpaired_cons step.stackStep, inductionHypothesis]

/-- A run over tags that come first makes pairs and leaves tags, whatever comes behind them. -/
theorem exists_pairUp_append (stack : List (Nat × Tag)) (position : Nat) (before : List Tag) :
    ∃ made left stack', ∀ behind, pairUp stack position (before ++ behind) =
      (made ++ (pairUp stack' (position + before.length) behind).1,
        left ++ (pairUp stack' (position + before.length) behind).2) := by
  induction before generalizing stack position with
  | nil => exact ⟨[], [], stack, fun _ => rfl⟩
  | cons tag rest inductionHypothesis =>
      have length : position + (tag :: rest).length = position + 1 + rest.length := by
        rw [List.length_cons]
        omega
      obtain ⟨next, madeHere, leftHere, step⟩ := exists_pairStep stack position tag
      obtain ⟨made, left, stack', runs⟩ := inductionHypothesis next (position + 1)
      refine ⟨madeHere ++ made, leftHere ++ left, stack', fun behind => ?_⟩
      rw [length, List.cons_append, pairUp_cons step, runs, List.append_assoc, List.append_assoc]

/-- No tag opens two pairs: the opening tag of a pair is on the stack or still ahead, and leaves the stack
with its pair. -/
theorem nodup_pairUp {stack : List (Nat × Tag)} {position : Nat} {tags : List Tag}
    (distinct : (stack.map Prod.fst).Nodup) (passed : ∀ place ∈ stack.map Prod.fst, place < position) :
    ((pairUp stack position tags).1.map Prod.fst).Nodup ∧
      ∀ place ∈ (pairUp stack position tags).1.map Prod.fst,
        place ∈ stack.map Prod.fst ∨ position ≤ place := by
  induction tags generalizing stack position with
  | nil => exact ⟨List.nodup_nil, List.forall_mem_nil _⟩
  | cons tag rest inductionHypothesis =>
      have passedLater : ∀ place ∈ stack.map Prod.fst, place < position + 1 := fun place isOpen =>
        Nat.lt_succ_of_lt (passed place isOpen)
      obtain ⟨next, made, left, step⟩ := exists_pairStep stack position tag
      rw [pairUp_cons step]
      cases step with
      | selfClosing _ | unpaired _ _ =>
          obtain ⟨nodup, among⟩ := @inductionHypothesis stack (position + 1) distinct passedLater
          exact ⟨nodup, fun place isPaired => (among place isPaired).imp_right Nat.le_of_succ_le⟩
      | opening _ =>
          have notOpen : position ∉ stack.map Prod.fst := fun isOpen =>
            Nat.lt_irrefl position (passed position isOpen)
          obtain ⟨nodup, among⟩ := @inductionHypothesis ((position, tag) :: stack) (position + 1)
            (List.nodup_cons.mpr ⟨notOpen, distinct⟩)
            (List.forall_mem_cons.mpr ⟨Nat.lt_succ_self position, passedLater⟩)
          refine ⟨nodup, fun place isPaired => ?_⟩
          rcases among place isPaired with isOpen | isAhead
          · rcases List.mem_cons.mp isOpen with isHere | isOuter
            · exact Or.inr (Nat.le_of_eq isHere.symm)
            · exact Or.inl isOuter
          · exact Or.inr (Nat.le_of_succ_le isAhead)
      | @closing innermost _ _ _ =>
          rw [List.map_cons] at distinct passed passedLater
          obtain ⟨notOuter, distinctOuter⟩ := List.nodup_cons.mp distinct
          obtain ⟨nodup, among⟩ := @inductionHypothesis next (position + 1) distinctOuter
            fun place isOpen => passedLater place (List.mem_cons_of_mem _ isOpen)
          refine ⟨List.nodup_cons.mpr ⟨fun isPaired => ?_, nodup⟩, List.forall_mem_cons.mpr ⟨?_, ?_⟩⟩
          · have before := passed innermost.1 List.mem_cons_self
            have ahead := (among innermost.1 isPaired).resolve_left notOuter
            omega
          · exact Or.inl List.mem_cons_self
          · intro place isPaired
            exact (among place isPaired).imp (List.mem_cons_of_mem _) Nat.le_of_succ_le

/-! ## Counting -/

/-- Counting the tags of a name passes over tags that a stack pairs all, with those of the name that are on
the stack counted before. -/
theorem closingPosition?_append {stack inner : List Tag} (paired : unpaired stack inner = [])
    (name : Text) (depth position : Nat) (behind : List Tag) :
    closingPosition? name (depth + (stack.map Tag.name).count name) position (inner ++ behind) =
      closingPosition? name depth (position + inner.length) behind := by
  induction inner generalizing stack position with
  | nil =>
      obtain rfl : stack = [] := List.reverse_eq_nil_iff.mp paired
      rfl
  | cons tag rest inductionHypothesis =>
      have length : position + (tag :: rest).length = position + 1 + rest.length := by
        rw [List.length_cons]
        omega
      obtain ⟨next, step, pairedRest⟩ := exists_stackStep_of_paired paired
      have later := inductionHypothesis pairedRest (position + 1)
      rw [length, List.cons_append, closingPosition?.eq_def]
      dsimp only
      by_cases same : tag.name = name
      · rw [if_pos same]
        cases step with
        | selfClosing isSelf => rw [isSelf, later]
        | opening opens =>
            rw [List.map_cons, same, List.count_cons_self, ← Nat.add_assoc] at later
            rw [opens]
            exact later
        | closing closes sameName =>
            rw [List.map_cons, sameName, same, List.count_cons_self, ← Nat.add_assoc, closes]
            exact later
      · rw [if_neg same]
        cases step with
        | selfClosing _ => exact later
        | opening _ =>
            rw [List.map_cons, List.count_cons_of_ne same] at later
            exact later
        | closing _ sameName =>
            rw [List.map_cons, sameName, List.count_cons_of_ne same]
            exact later

/-! ## Partners -/

/-- A tag that opened below the top of a stack is closed behind tags that close what lies above it. -/
theorem exists_closer {stack outer : List (Nat × Tag)} {opened : Nat × Tag} {position : Nat}
    {tags : List Tag} (paired : (pairUp (stack ++ opened :: outer) position tags).2 = []) :
    ∃ inner closer behind, tags = inner ++ closer :: behind ∧
      unpaired (stack.map Prod.snd) inner = [] ∧ closer.kind = .closing ∧
      closer.name = opened.2.name ∧
      (opened.1, position + inner.length) ∈ (pairUp (stack ++ opened :: outer) position tags).1 := by
  induction tags generalizing stack position with
  | nil => simp [pairUp] at paired
  | cons tag rest inductionHypothesis =>
      have length (inner : List Tag) : position + (tag :: inner).length = position + 1 + inner.length := by
        rw [List.length_cons]
        omega
      obtain ⟨next, made, left, step⟩ := exists_pairStep (stack ++ opened :: outer) position tag
      rw [pairUp_cons step] at paired ⊢
      obtain ⟨rfl, pairedRest⟩ := List.append_eq_nil_iff.mp paired
      -- What opened is still on the stack, unless this tag closes it.
      have stillOpen {above : List (Nat × Tag)} (isNext : next = above ++ opened :: outer)
          (steps : StackStep tag (stack.map Prod.snd) (above.map Prod.snd) []) :
          ∃ inner closer behind, tag :: rest = inner ++ closer :: behind ∧
            unpaired (stack.map Prod.snd) inner = [] ∧ closer.kind = .closing ∧
            closer.name = opened.2.name ∧
            (opened.1, position + inner.length) ∈ made ++ (pairUp next (position + 1) rest).1 := by
        subst isNext
        obtain ⟨inner, closer, behind, rfl, closes, isClosing, sameName, isPair⟩ := inductionHypothesis pairedRest
        refine ⟨tag :: inner, closer, behind, rfl, ?_, isClosing, sameName, ?_⟩
        · rw [unpaired_cons steps, closes]
          rfl
        · exact List.mem_append_right made (length inner ▸ isPair)
      generalize isWhole : stack ++ opened :: outer = whole at step
      cases step with
      | selfClosing isSelf => exact stillOpen isWhole.symm (.selfClosing isSelf)
      | opening opens =>
          have isNext : (position, tag) :: whole = ((position, tag) :: stack) ++ opened :: outer :=
            congrArg ((position, tag) :: ·) isWhole.symm
          exact stillOpen isNext (.opening opens)
      | closing closes sameName =>
          cases stack with
          | nil =>
              obtain ⟨rfl, rfl⟩ := List.cons.inj isWhole
              exact ⟨[], tag, rest, rfl, rfl, closes, sameName.symm, List.mem_cons_self⟩
          | cons innermost above =>
              obtain ⟨rfl, rfl⟩ := List.cons.inj isWhole
              exact stillOpen rfl (.closing closes sameName)

/-- In tags that leave none unpaired, counting the tags of its name finds for every opening tag the partner
that a stack gives it: the one closing tag of its name behind tags that are balanced in themselves.  So the
removal of an element takes it through its own closing tag, and no tag is taken for an unclosed one. -/
theorem findClosing?_finds_partner {tags : List Tag} (balanced : unbalanced tags = []) {position : Nat}
    {tag : Tag} (isThere : tags[position]? = some tag) (opens : tag.kind = .opening) :
    ∃ inner closer behind,
      tags = tags.take position ++ tag :: (inner ++ closer :: behind) ∧
      closer.kind = .closing ∧ closer.name = tag.name ∧ unbalanced inner = [] ∧
      findClosing? tags position = some (position + 1 + inner.length) ∧
      (∀ closing, (position, closing) ∈ pairs tags ↔ closing = position + 1 + inner.length) ∧
      Imports.elementEnd tags position tag = closer.stop ∧ Balance.danglingTags tags = [] := by
  have nonePaired := unbalanced_eq_nil_iff.mp balanced
  obtain ⟨inside, same⟩ := List.getElem?_eq_some_iff.mp isThere
  have ahead : tags.drop position = tag :: tags.drop (position + 1) := by
    rw [List.drop_eq_getElem_cons inside, same]
  have split : tags = tags.take position ++ tag :: tags.drop (position + 1) := by
    rw [← ahead, List.take_append_drop]
  have reached : 0 + (tags.take position).length = position := by
    rw [Nat.zero_add, List.length_take_of_le (Nat.le_of_lt inside)]
  obtain ⟨made, left, stack, runs⟩ := exists_pairUp_append [] 0 (tags.take position)
  have run := runs (tag :: tags.drop (position + 1))
  rw [← split, reached, pairUp_cons (.opening opens), List.nil_append, List.nil_append] at run
  have noneLeft :
      (pairUp ([] ++ (position, tag) :: stack) (position + 1) (tags.drop (position + 1))).2 = [] := by
    have whole := snd_pairUp [] 0 tags
    rw [run, List.map_nil, nonePaired] at whole
    exact (List.append_eq_nil_iff.mp whole).2
  obtain ⟨inner, closer, behind, isRest, closes, isClosing, sameName, isPair⟩ := exists_closer noneLeft
  have partner : (position, position + 1 + inner.length) ∈ pairs tags := by
    rw [pairs, run]
    exact List.mem_append_right _ isPair
  have found : findClosing? tags position = some (position + 1 + inner.length) := by
    have passesOver := closingPosition?_append closes tag.name 0 (position + 1) (closer :: behind)
    rw [List.map_nil, List.map_nil, List.count_nil] at passesOver
    rw [findClosing?, ahead, isRest]
    dsimp only
    rw [passesOver, closingPosition?.eq_def]
    simp only [sameName, isClosing, if_true]
  have closerThere : tags[position + 1 + inner.length]? = some closer := by
    rw [← List.getElem?_drop, isRest, List.getElem?_append_right (Nat.le_refl _), Nat.sub_self]
    rfl
  refine ⟨inner, closer, behind, isRest ▸ split, isClosing, sameName, unbalanced_eq_nil_iff.mpr closes, found,
    fun closing => ⟨fun isOther => ?_, fun isHere => isHere ▸ partner⟩, ?_,
      Balance.danglingTags_eq_nil nonePaired⟩
  · have distinct := (@nodup_pairUp [] 0 tags List.nodup_nil (List.forall_mem_nil _)).1
    exact (Prod.mk.inj (List.inj_on_of_nodup_map distinct isOther partner rfl)).2
  · rw [Imports.elementEnd, if_pos opens, found, Option.bind_some, closerThere]

/-- In `<A><B><A></A></B></A>` the outer `<A>` passes over the inner one of its name. -/
theorem findClosing?_finds_partner_nested :
    unbalanced (scan "<A><B><A></A></B></A>".toList) = [] ∧
      (scan "<A><B><A></A></B></A>".toList)[0]? = some ⟨['A'], 0, 3, .opening⟩ ∧
      findClosing? (scan "<A><B><A></A></B></A>".toList) 0 = some 5 ∧
      ∀ closing, (0, closing) ∈ pairs (scan "<A><B><A></A></B></A>".toList) ↔ closing = 5 := by
  have balanced : unbalanced (scan "<A><B><A></A></B></A>".toList) = [] := by decide
  have isThere : (scan "<A><B><A></A></B></A>".toList)[0]? = some ⟨['A'], 0, 3, .opening⟩ := by decide
  have isFifth : findClosing? (scan "<A><B><A></A></B></A>".toList) 0 = some 5 := by decide
  obtain ⟨inner, _, _, _, _, _, _, found, partners, _⟩ := findClosing?_finds_partner balanced isThere rfl
  have isPlace : 0 + 1 + inner.length = 5 := Option.some.inj (found.symm.trans isFifth)
  exact ⟨balanced, isThere, isFifth, fun closing => isPlace ▸ partners closing⟩

end SceneBundler.Source.Tag
