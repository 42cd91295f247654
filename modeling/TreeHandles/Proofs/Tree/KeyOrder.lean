import TreeHandles.Proofs.Tree.Subtrees

/-!
# Trees in the order of their keys

A caller who enumerates the entries of an object gets them in the order of their keys, at every depth.
What such a caller sees of a tree is the tree with the entries of every object arranged in this order.

**Results.**
* `inKeyOrder_contents_array` and `inKeyOrder_contents_object`: what is seen of a composite is made of
  what is seen of its parts.
-/

namespace TreeHandles

namespace Tree

variable {α : Type}

mutual

/-- The same tree with the entries of every object in the order of their keys. -/
def inKeyOrder : Tree α → Tree α
  | leaf s => leaf s
  | array label items => array label (itemsInKeyOrder items)
  | object label entries => object label (Entries.sorted (entriesInKeyOrder entries))

/-- The same elements with the entries of every object in the order of their keys. -/
def itemsInKeyOrder : List (Tree α) → List (Tree α)
  | [] => []
  | t :: rest => t.inKeyOrder :: itemsInKeyOrder rest

/-- The same entries with the entries of every object in a value in the order of their keys. -/
def entriesInKeyOrder : List (String × Tree α) → List (String × Tree α)
  | [] => []
  | (k, t) :: rest => (k, t.inKeyOrder) :: entriesInKeyOrder rest

end

theorem inKeyOrder_array (label : α) (items : List (Tree α)) :
    (array label items).inKeyOrder = array label (items.map inKeyOrder) := by
  have each : itemsInKeyOrder items = items.map inKeyOrder := by
    induction items with
    | nil => rfl
    | cons t rest ih => rw [itemsInKeyOrder, ih, List.map_cons]
  rw [inKeyOrder, each]

theorem inKeyOrder_object (label : α) (entries : List (String × Tree α)) :
    (object label entries).inKeyOrder =
      object label (Entries.mapValues inKeyOrder (Entries.sorted entries)) := by
  have each : entriesInKeyOrder entries = Entries.mapValues inKeyOrder entries := by
    induction entries with
    | nil => rfl
    | cons e rest ih => rw [entriesInKeyOrder, ih, Entries.mapValues_cons]
  rw [inKeyOrder, each, Entries.sorted_mapValues]

theorem inKeyOrder_contents_array (label : α) (items : List (Tree α)) :
    (array label items).contents.inKeyOrder =
      array () (items.map fun t => t.contents.inKeyOrder) := by
  rw [contents, relabel, relabelItems_eq_map, inKeyOrder_array, List.map_map]
  rfl

theorem inKeyOrder_contents_object (label : α) (entries : List (String × Tree α)) :
    (object label entries).contents.inKeyOrder =
      object () (Entries.mapValues (fun t => t.contents.inKeyOrder) (Entries.sorted entries)) := by
  have sorted := Entries.sorted_mapValues contents entries
  rw [contents, relabel, relabelEntries_eq_map, inKeyOrder_object]
  show object () (Entries.mapValues inKeyOrder (Entries.sorted (Entries.mapValues contents _))) = _
  rw [sorted, Entries.mapValues, Entries.mapValues, List.map_map]
  rfl

end Tree

end TreeHandles
