import TreeHandles.Entries
import TreeHandles.Scalar

/-!
# Trees

A tree is a scalar, an array of trees, or an object, whose entries are trees under keys in the
order of their insertion.  Arrays and objects carry a label.  In a *document* the label says
nothing; elsewhere it tells apart composites that have the same contents.

**Results.**
* `kind_relabel` and `size_relabel`: relabelling changes neither the kind nor the size.
-/

namespace TreeHandles

/-- A tree whose arrays and objects carry labels of type `α`. -/
inductive Tree (α : Type) where
  | leaf (s : Scalar)
  | array (label : α) (items : List (Tree α))
  | object (label : α) (entries : List (String × Tree α))

/-- A tree without labels. -/
abbrev Document := Tree Unit

namespace Tree

variable {α β : Type}

/-- The tree of the null value. -/
abbrev null : Tree α := leaf .null

instance : Inhabited (Tree α) := ⟨null⟩

/-- The kind of the root. -/
def kind : Tree α → Kind
  | leaf s => s.kind
  | array _ _ => .array
  | object _ _ => .object

/-- Whether the root is the null value. -/
def isNull : Tree α → Bool
  | leaf .null => true
  | _ => false

/-- The number of children of the root; a scalar has none. -/
def size : Tree α → Nat
  | leaf _ => 0
  | array _ items => items.length
  | object _ entries => entries.length

mutual

/-- The same tree with every label replaced. -/
def relabel (f : α → β) : Tree α → Tree β
  | leaf s => leaf s
  | array label items => array (f label) (relabelItems f items)
  | object label entries => object (f label) (relabelEntries f entries)

/-- The same elements with every label replaced. -/
def relabelItems (f : α → β) : List (Tree α) → List (Tree β)
  | [] => []
  | t :: rest => t.relabel f :: relabelItems f rest

/-- The same entries with every label replaced. -/
def relabelEntries (f : α → β) : List (String × Tree α) → List (String × Tree β)
  | [] => []
  | (k, t) :: rest => (k, t.relabel f) :: relabelEntries f rest

end

/-- The tree without its labels. -/
def contents (t : Tree α) : Document := t.relabel fun _ => ()

theorem relabelItems_eq_map (f : α → β) (items : List (Tree α)) :
    relabelItems f items = items.map (relabel f) := by
  induction items with
  | nil => rfl
  | cons t rest ih => simp [relabelItems, ih]

theorem relabelEntries_eq_map (f : α → β) (entries : List (String × Tree α)) :
    relabelEntries f entries = entries.map fun e => (e.1, e.2.relabel f) := by
  induction entries with
  | nil => rfl
  | cons e rest ih => simp [relabelEntries, ih]

theorem kind_relabel (f : α → β) (t : Tree α) : (t.relabel f).kind = t.kind := by
  cases t <;> rfl

theorem size_relabel (f : α → β) (t : Tree α) : (t.relabel f).size = t.size := by
  cases t <;> simp [relabel, size, relabelItems_eq_map, relabelEntries_eq_map]

end Tree

end TreeHandles
