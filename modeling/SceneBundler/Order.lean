/-!
Contract: lists put in order.

Owns: the stable sort by a comparison, where of two items that compare equal the earlier stays in
front.

Does not own: any particular comparison.
-/

namespace SceneBundler.Order

variable {Item : Type}

/-- An ordered list with one more item, in front of the first item that it comes no later than. -/
def insert (le : Item -> Item -> Bool) (item : Item) : List Item -> List Item
  | [] => [item]
  | first :: rest =>
      if le item first then item :: first :: rest else first :: insert le item rest

/-- The items of a list in order. -/
def sort (le : Item -> Item -> Bool) (items : List Item) : List Item :=
  items.foldr (insert le) []

end SceneBundler.Order
