import SceneBundler.Proofs.Dialect.Stretch
import SceneBundler.Proofs.Text.Blank
import SceneBundler.Proofs.Text.Joined
import SceneBundler.Proofs.Text.Pieces
import SceneBundler.Proofs.Text.Search

/-!
Contract: the items between the commas of a range of a masked text.

Owns:
- the texts of the items, and that the spans of the items are theirs, one behind another with a comma
  between them and within the range;
- that put together with commas the items are the range;
- that the items of a nested range are nested, and hold no comma outside brackets;
- that a range which is put together from such items comes apart into just these.

Does not own: what an item declares.
-/

namespace SceneBundler.Dialect

open Source

/-! ## Texts of items -/

/-- The texts between the commas at which no bracket is open as brackets are counted: `current` is what
stands in front of the rest in the current one. -/
def itemTexts (depth : Int) (current : Text) : Text -> List Text
  | [] => [current]
  | c :: rest =>
      if c = ',' && depth == 0 then current :: itemTexts (depthBehind depth c) [] rest
      else itemTexts (depthBehind depth c) (current ++ [c]) rest

/-- The spans of texts that stand one behind another, with one character between each two. -/
def spansFrom (start : Nat) : List Text -> List (Nat × Nat)
  | [] => []
  | piece :: rest => (start, start + piece.length) :: spansFrom (start + piece.length + 1) rest

section Texts

variable {depth : Int} {current : Text}

theorem itemTexts_ne_nil (text : Text) : itemTexts depth current text ≠ [] := by
  induction text generalizing depth current with
  | nil => exact List.cons_ne_nil _ _
  | cons c rest inductionHypothesis =>
      rw [itemTexts]
      split
      · exact List.cons_ne_nil _ _
      · exact inductionHypothesis

/-- The spans of items are those of their texts. -/
theorem itemsFrom_eq_spansFrom (start : Nat) (text : Text) :
    itemsFrom depth start (start + current.length) text = spansFrom start (itemTexts depth current text) := by
  induction text generalizing depth current start with
  | nil => rfl
  | cons c rest inductionHypothesis =>
      rw [itemsFrom_cons, itemTexts]
      split
      · rw [spansFrom, ← inductionHypothesis]
        rfl
      · rw [add_length_concat, inductionHypothesis]

/-- Put together with commas, the texts of the items are the text. -/
theorem join_itemTexts (text : Text) : Text.join [','] (itemTexts depth current text) = current ++ text := by
  induction text generalizing depth current with
  | nil => simp [itemTexts, Text.join]
  | cons c rest inductionHypothesis =>
      rw [itemTexts]
      split
      next ends =>
        obtain rfl : c = ',' := of_decide_eq_true (Bool.and_eq_true_iff.mp ends).1
        rw [Text.join_cons_of_ne_nil (itemTexts_ne_nil rest), inductionHypothesis]
        rfl
      next => rw [inductionHypothesis, ← List.append_cons]

end Texts

/-! ## Spans of items -/

/-- Whether spans follow one another through a range of a text: the first begins where the range does, each
of the others behind the comma at which the one in front of it ends, and the last ends where the range
does. -/
inductive Tiles (text : Text) : (start stop : Nat) -> List (Nat × Nat) -> Prop where
  | last {start stop : Nat} : start ≤ stop → Tiles text start stop [(start, stop)]
  | next {start place stop : Nat} {items : List (Nat × Nat)} : start ≤ place → text[place]? = some ',' →
      Tiles text (place + 1) stop items → Tiles text start stop ((start, place) :: items)

theorem tiles_spansFrom {pieces : List Text} (nonempty : pieces ≠ []) (before after : Text) :
    Tiles (before ++ (Text.join [','] pieces ++ after)) before.length
      (before.length + (Text.join [','] pieces).length) (spansFrom before.length pieces) := by
  induction pieces generalizing before with
  | nil => contradiction
  | cons piece rest inductionHypothesis =>
      by_cases isLast : rest = []
      · subst isLast
        rw [show Text.join [','] [piece] = piece by simp [Text.join]]
        exact .last (Nat.le_add_right _ _)
      · have behind := inductionHypothesis isLast (before ++ (piece ++ [',']))
        have reached : before.length + (piece ++ ([','] ++ Text.join [','] rest)).length =
            before.length + piece.length + 1 + (Text.join [','] rest).length := by
          rw [List.length_append, List.length_append, List.length_singleton]
          omega
        rw [Text.join_cons_of_ne_nil isLast, spansFrom, reached]
        simp only [List.append_assoc, List.length_append, List.length_singleton, List.cons_append,
          List.nil_append, ← Nat.add_assoc] at behind ⊢
        refine .next (Nat.le_add_right _ _) ?_ behind
        rw [← List.append_assoc, ← List.length_append]
        exact Text.getElem?_behind _ _ _

theorem map_slice_spansFrom (pieces : List Text) (before after : Text) :
    (spansFrom before.length pieces).map (fun item =>
      Text.slice (before ++ (Text.join [','] pieces ++ after)) item.1 item.2) = pieces := by
  induction pieces generalizing before with
  | nil => rfl
  | cons piece rest inductionHypothesis =>
      rw [spansFrom, List.map_cons]
      by_cases isLast : rest = []
      · subst isLast
        rw [show Text.join [','] [piece] = piece by simp [Text.join], Text.slice_behind]
        rfl
      · have behind := inductionHypothesis (before ++ (piece ++ [',']))
        rw [Text.join_cons_of_ne_nil isLast]
        simp only [List.append_assoc, List.length_append, List.length_singleton, List.cons_append,
          List.nil_append, ← Nat.add_assoc] at behind ⊢
        rw [behind, Text.slice_behind]

/-! ## Items -/

/-- Whether a text is one item of a list: its brackets nest in each other, and none of its commas stands
outside them. -/
structure IsItem (piece : Text) : Prop where
  nested : Nested piece
  alone : ∀ front back, piece = front ++ ',' :: back → ¬Nested front

theorem isItem_of_mem_itemTexts {depth : Int} {opened : List BracketKind} {current text piece : Text}
    (opens : openAfter [] current = some opened) (isDepth : depth = opened.length)
    (alone : ∀ front back, current = front ++ ',' :: back → ¬Nested front)
    (closes : openAfter opened text = some []) (member : piece ∈ itemTexts depth current text) :
    IsItem piece := by
  induction text generalizing depth opened current with
  | nil =>
      rw [List.mem_singleton.mp member]
      obtain rfl := Option.some.inj closes
      exact ⟨opens, alone⟩
  | cons c rest inductionHypothesis =>
      obtain ⟨next, opensNext, isNext, closesNext⟩ := exists_openAfter_concat opens isDepth closes
      rw [itemTexts] at member
      split at member
      next ends =>
        obtain ⟨isComma, outside⟩ := Bool.and_eq_true_iff.mp ends
        rcases List.mem_cons.mp member with rfl | isLater
        · exact ⟨nested_of_outside opens isDepth outside, alone⟩
        · have isPlain : depthBehind depth c = depth := by
            rw [of_decide_eq_true isComma]
            rfl
          obtain rfl : next = [] := List.length_eq_zero_iff.mp (by
            rw [isPlain, beq_iff_eq.mp outside] at isNext
            omega)
          exact inductionHypothesis rfl isNext (by simp) closesNext isLater
      next goesOn =>
        refine inductionHypothesis opensNext isNext (fun front back split nested => ?_) closesNext member
        -- A comma at the end stands within brackets, or the item would have ended there.
        rcases List.eq_nil_or_concat back with rfl | ⟨others, last, rfl⟩
        · obtain ⟨rfl, isComma⟩ := List.append_inj' split rfl
          obtain rfl := Option.some.inj (nested.symm.trans opens)
          rw [isDepth, (List.cons.inj isComma).1] at goesOn
          exact goesOn rfl
        · rw [List.concat_eq_append, ← List.cons_append, ← List.append_assoc] at split
          exact alone front others (List.append_inj' split rfl).1 nested

/-- What stands behind the first of some texts that are put together with commas. -/
def behindFirst : List Text -> Text
  | [] => []
  | piece :: rest => ',' :: Text.join [','] (piece :: rest)

theorem join_cons_eq (piece : Text) (rest : List Text) :
    Text.join [','] (piece :: rest) = piece ++ behindFirst rest := by
  cases rest with
  | nil => simp [Text.join, behindFirst]
  | cons second others => rw [Text.join_cons_cons, behindFirst, List.singleton_append]

theorem bounds_of_mem_spansFrom {start : Nat} {pieces : List Text} {item : Nat × Nat}
    (member : item ∈ spansFrom start pieces) :
    start ≤ item.1 ∧ item.2 ≤ start + (Text.join [','] pieces).length := by
  induction pieces generalizing start with
  | nil => contradiction
  | cons piece rest inductionHypothesis =>
      rw [join_cons_eq, List.length_append]
      rcases List.mem_cons.mp member with rfl | isLater
      · exact ⟨Nat.le_refl _, by dsimp only; omega⟩
      · cases rest with
        | nil => contradiction
        | cons second others =>
            have bounds := inductionHypothesis isLater
            rw [behindFirst, List.length_cons]
            omega

/-- An item ends at the first comma outside brackets, so no item goes on where another one ends. -/
theorem length_le_of_isItem {piece other : Text} {rest others : List Text} (isItem : IsItem piece)
    (isOther : IsItem other) (same : piece ++ behindFirst rest = other ++ behindFirst others) :
    other.length ≤ piece.length := by
  by_contra longer
  obtain ⟨extra, isLonger, isBehind⟩ := Text.exists_between same (by omega)
  cases extra with
  | nil => simp [isLonger] at longer
  | cons c extra =>
      cases rest with
      | nil => contradiction
      | cons second rest =>
          obtain ⟨rfl, _⟩ := List.cons.inj isBehind
          exact isOther.alone piece extra isLonger isItem.nested

/-- A text is put together from items with commas in one way only. -/
theorem eq_of_join_eq {pieces others : List Text} (nonempty : pieces ≠ []) (nonemptyOthers : others ≠ [])
    (areItems : ∀ piece ∈ pieces, IsItem piece) (othersAreItems : ∀ piece ∈ others, IsItem piece)
    (same : Text.join [','] pieces = Text.join [','] others) : pieces = others := by
  induction pieces generalizing others with
  | nil => contradiction
  | cons piece rest inductionHypothesis =>
      obtain ⟨other, otherRest, rfl⟩ := List.exists_cons_of_ne_nil nonemptyOthers
      obtain ⟨isItem, restAreItems⟩ := List.forall_mem_cons.mp areItems
      obtain ⟨isOther, otherRestAreItems⟩ := List.forall_mem_cons.mp othersAreItems
      rw [join_cons_eq, join_cons_eq] at same
      have sameLength := Nat.le_antisymm (length_le_of_isItem isOther isItem same.symm)
        (length_le_of_isItem isItem isOther same)
      obtain ⟨rfl, sameBehind⟩ := List.append_inj same sameLength
      cases rest with
      | nil =>
          cases otherRest with
          | nil => rfl
          | cons => contradiction
      | cons second rest =>
          cases otherRest with
          | nil => contradiction
          | cons otherSecond otherRest =>
              rw [inductionHypothesis (List.cons_ne_nil _ _) (List.cons_ne_nil _ _) restAreItems
                otherRestAreItems (List.cons.inj sameBehind).2]

/-! ## Ranges -/

/-- The texts of the items of a range of a masked text. -/
def itemsBetween (masked : Text) (start stop : Nat) : List Text :=
  (splitTopLevel masked start stop).map fun item => Text.slice masked item.1 item.2

section Ranges

variable {masked : Text} {start stop : Nat}

theorem splitTopLevel_eq_spansFrom (masked : Text) (start stop : Nat) :
    splitTopLevel masked start stop = spansFrom start (itemTexts 0 [] (Text.slice masked start stop)) :=
  @itemsFrom_eq_spansFrom 0 [] start _

theorem join_itemTexts_slice (masked : Text) (start stop : Nat) :
    Text.join [','] (itemTexts 0 [] (Text.slice masked start stop)) = Text.slice masked start stop :=
  join_itemTexts _

/-- The items of a range lie within it. -/
theorem bounds_of_mem_splitTopLevel {item : Nat × Nat} (ordered : start ≤ stop)
    (member : item ∈ splitTopLevel masked start stop) : start ≤ item.1 ∧ item.2 ≤ stop := by
  rw [splitTopLevel_eq_spansFrom] at member
  have bounds := bounds_of_mem_spansFrom member
  have room : (Text.slice masked start stop).length ≤ stop - start := List.length_take_le _ _
  rw [join_itemTexts_slice] at bounds
  omega

/-- A range is what its items are put together to, between what stands in front of it and behind it. -/
theorem eq_append_join (masked : Text) (ordered : start ≤ stop) :
    masked = masked.take start ++
      (Text.join [','] (itemTexts 0 [] (Text.slice masked start stop)) ++ masked.drop stop) := by
  rw [join_itemTexts_slice, ← Text.drop_eq_slice_append masked ordered, List.take_append_drop]

theorem itemsBetween_eq (masked : Text) (ordered : start ≤ stop) :
    itemsBetween masked start stop = itemTexts 0 [] (Text.slice masked start stop) := by
  rw [itemsBetween, splitTopLevel_eq_spansFrom]
  by_cases begins : start ≤ masked.length
  · have texts := map_slice_spansFrom (itemTexts 0 [] (Text.slice masked start stop)) (masked.take start)
      (masked.drop stop)
    rwa [← eq_append_join masked ordered, List.length_take_of_le begins] at texts
  · -- Behind the end of the text there is nothing, in the range as in its one item.
    have none (stop : Nat) : Text.slice masked start stop = [] := by
      rw [Text.slice, List.drop_eq_nil_of_le (by omega), List.take_nil]
    rw [none]
    simp [itemTexts, spansFrom, none]

/-- The items of a nested range are single items. -/
theorem isItem_of_mem_itemsBetween {piece : Text} (ordered : start ≤ stop)
    (nested : Nested (Text.slice masked start stop)) (member : piece ∈ itemsBetween masked start stop) :
    IsItem piece := by
  rw [itemsBetween_eq masked ordered] at member
  exact isItem_of_mem_itemTexts rfl rfl (by simp) nested member

theorem nested_join {pieces : List Text} (nonempty : pieces ≠ []) (areItems : ∀ piece ∈ pieces, IsItem piece) :
    Nested (Text.join [','] pieces) := by
  have comma : Nested [','] := .of_plain (Text.forall_mem_of_all (by decide))
  exact Text.join_of_glue (fun _ _ first second => first.append (comma.append second)) nonempty
    fun piece member => (areItems piece member).nested

end Ranges

/-- A range of a masked text comes apart into items that follow one another through it, and that put together
with commas are the range. Where the brackets of the range nest, each of them is a single item; and a range
that is put together from single items comes apart into just these. -/
theorem splitTopLevel_isLossless {masked : Text} {start stop : Nat} (ordered : start ≤ stop)
    (inside : stop ≤ masked.length) :
    Text.join [','] (itemsBetween masked start stop) = Text.slice masked start stop ∧
    Tiles masked start stop (splitTopLevel masked start stop) ∧
    (Nested (Text.slice masked start stop) → ∀ piece ∈ itemsBetween masked start stop, IsItem piece) ∧
    ∀ pieces, pieces ≠ [] → (∀ piece ∈ pieces, IsItem piece) →
      Text.slice masked start stop = Text.join [','] pieces → itemsBetween masked start stop = pieces := by
  have isJoin := join_itemTexts_slice masked start stop
  refine ⟨by rw [itemsBetween_eq masked ordered, isJoin], ?_,
    fun nested piece => isItem_of_mem_itemsBetween ordered nested, fun pieces nonempty areItems same => ?_⟩
  · have tiles := tiles_spansFrom (@itemTexts_ne_nil 0 [] (Text.slice masked start stop)) (masked.take start)
      (masked.drop stop)
    rwa [← eq_append_join masked ordered, List.length_take_of_le (Nat.le_trans ordered inside),
      ← splitTopLevel_eq_spansFrom, isJoin, Text.length_slice inside, Nat.add_sub_of_le ordered] at tiles
  · have nested : Nested (Text.slice masked start stop) := same ▸ nested_join nonempty areItems
    have someItem : itemsBetween masked start stop ≠ [] := itemsBetween_eq masked ordered ▸ itemTexts_ne_nil _
    refine eq_of_join_eq someItem nonempty (fun piece => isItem_of_mem_itemsBetween ordered nested) areItems ?_
    rw [itemsBetween_eq masked ordered, isJoin, same]

/-- A masked list of parameters, with brackets of all kinds within each other and a comma at its end. -/
def bracketedList : Text :=
  "(a, [b, (c)], \x7bd: [e, f]\x7d,)".toList

theorem splitTopLevel_isLossless_bracketedList :
    1 ≤ 26 ∧ 26 ≤ bracketedList.length ∧ Nested (Text.slice bracketedList 1 26) ∧
      Text.join [','] (itemsBetween bracketedList 1 26) = Text.slice bracketedList 1 26 ∧
      Tiles bracketedList 1 26 (splitTopLevel bracketedList 1 26) ∧
      ∀ piece ∈ itemsBetween bracketedList 1 26, IsItem piece := by
  have ordered : 1 ≤ 26 := by decide
  have inside : 26 ≤ bracketedList.length := by decide
  have nested : Nested (Text.slice bracketedList 1 26) := by decide
  obtain ⟨isJoin, tiles, areItems, _⟩ := splitTopLevel_isLossless ordered inside
  exact ⟨ordered, inside, nested, isJoin, tiles, areItems nested⟩

example : itemsBetween bracketedList 1 26 =
    ["a", " [b, (c)]", " \x7bd: [e, f]\x7d", ""].map String.toList := by
  decide

end SceneBundler.Dialect
