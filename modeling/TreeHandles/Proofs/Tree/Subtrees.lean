import TreeHandles.Proofs.Enumeration
import TreeHandles.Tree

/-!
# What is inside a tree

The subtrees of a tree are the trees at all of its positions, the tree itself first.  They hold
every composite that the tree is made of, so that what is to be true everywhere inside a tree is
said of its subtrees.

**Results.**
* `induction_children`: what passes from the children of a tree to the tree holds of every tree.
* `subtrees_eq`: the subtrees of a tree are the tree and the subtrees of its children.
* `subtrees_subset`: a subtree of a subtree is a subtree.
* `inOrder_perm`: the children in the order of enumeration are all the children.
* `labels_relabel`: relabelling a tree changes its labels one by one.
-/

namespace TreeHandles
namespace Tree

variable {α β : Type}

section Shape

/-- The trees directly under the root, in the order of their insertion. -/
def children : Tree α → List (Tree α)
  | leaf _ => []
  | array _ items => items
  | object _ entries => entries.map Prod.snd

/-- The trees directly under the root, in the order in which they are enumerated. -/
def inOrder : Tree α → List (Tree α)
  | leaf _ => []
  | array _ items => items
  | object _ entries => (Entries.sorted entries).map Prod.snd

/-- The keys of the root, in the order of their insertion; only an object has any. -/
def keys : Tree α → List String
  | object _ entries => Entries.keys entries
  | _ => []

/-- The label of the root; a scalar has none. -/
def label? : Tree α → Option α
  | leaf _ => none
  | array label _ => some label
  | object label _ => some label

/-- Whether the root is an array or an object. -/
def isComposite (t : Tree α) : Bool := t.label?.isSome

mutual

/-- The trees at all positions, the tree itself first. -/
def subtrees : Tree α → List (Tree α)
  | leaf s => [leaf s]
  | array label items => array label items :: subtreesOfItems items
  | object label entries => object label entries :: subtreesOfEntries entries

/-- The subtrees of all elements. -/
def subtreesOfItems : List (Tree α) → List (Tree α)
  | [] => []
  | t :: rest => t.subtrees ++ subtreesOfItems rest

/-- The subtrees of all values. -/
def subtreesOfEntries : List (String × Tree α) → List (Tree α)
  | [] => []
  | (_, t) :: rest => t.subtrees ++ subtreesOfEntries rest

end

/-- The trees of a list that are not null. -/
def present (ts : List (Tree α)) : List (Tree α) := ts.filter fun t => !t.isNull

/-- The labels of all composites inside a tree, in the order in which they open. -/
def labels (t : Tree α) : List α := t.subtrees.filterMap label?

/-- The keys of every object inside a tree have a property. -/
def EveryKeys (P : List String → Prop) (t : Tree α) : Prop := ∀ s ∈ t.subtrees, P s.keys

/-- No object inside a tree has two entries with one key. -/
abbrev DistinctKeys (t : Tree α) : Prop := t.EveryKeys List.Nodup

/-- The entries of every object inside a tree stand in the order of their keys. -/
abbrev OrderedKeys (t : Tree α) : Prop := t.EveryKeys (List.Pairwise (· < ·))

end Shape

/-- What passes from the children of a tree to the tree holds of every tree. -/
@[elab_as_elim]
theorem induction_children {motive : Tree α → Prop}
    (node : ∀ t : Tree α, (∀ c ∈ t.children, motive c) → motive t) : ∀ t, motive t
  | leaf s => node (leaf s) fun _ hc => nomatch hc
  | array label items => node _ fun c hc =>
      have : sizeOf c < sizeOf items := List.sizeOf_lt_of_mem hc
      induction_children node c
  | object label entries => node _ fun c hc => by
      obtain ⟨e, he, rfl⟩ := List.mem_map.mp hc
      have : sizeOf e < sizeOf entries := List.sizeOf_lt_of_mem he
      have : sizeOf e.2 < sizeOf e := by
        obtain ⟨k, t⟩ := e
        show sizeOf t < sizeOf (k, t)
        rw [Prod.mk.sizeOf_spec]
        omega
      exact induction_children node e.2
termination_by t => sizeOf t
decreasing_by
  all_goals simp_wf; omega

section Subtrees

theorem subtreesOfItems_eq (items : List (Tree α)) :
    subtreesOfItems items = items.flatMap subtrees := by
  induction items with
  | nil => rfl
  | cons t rest ih => rw [subtreesOfItems, ih, List.flatMap_cons]

theorem subtreesOfEntries_eq (entries : List (String × Tree α)) :
    subtreesOfEntries entries = (entries.map Prod.snd).flatMap subtrees := by
  induction entries with
  | nil => rfl
  | cons e rest ih => rw [subtreesOfEntries, ih, List.map_cons, List.flatMap_cons]

theorem subtrees_eq (t : Tree α) : t.subtrees = t :: t.children.flatMap subtrees := by
  cases t with
  | leaf s => rfl
  | array label items => rw [subtrees, subtreesOfItems_eq, children]
  | object label entries => rw [subtrees, subtreesOfEntries_eq, children]

theorem self_mem_subtrees (t : Tree α) : t ∈ t.subtrees := by
  rw [subtrees_eq]
  exact List.mem_cons_self

theorem mem_subtrees_iff {s t : Tree α} :
    s ∈ t.subtrees ↔ s = t ∨ ∃ c ∈ t.children, s ∈ c.subtrees := by
  rw [subtrees_eq, List.mem_cons, List.mem_flatMap]

theorem subtrees_subset {s t : Tree α} (inside : s ∈ t.subtrees) : s.subtrees ⊆ t.subtrees := by
  induction t using induction_children with
  | node t ih =>
      rcases mem_subtrees_iff.mp inside with rfl | ⟨c, hc, hs⟩
      · exact List.Subset.refl _
      · intro r hr
        exact mem_subtrees_iff.mpr (.inr ⟨c, hc, ih c hc hs hr⟩)

theorem subtrees_child_subset {c t : Tree α} (child : c ∈ t.children) :
    c.subtrees ⊆ t.subtrees :=
  subtrees_subset (mem_subtrees_iff.mpr (.inr ⟨c, child, self_mem_subtrees c⟩))

theorem length_subtrees_child {c t : Tree α} (child : c ∈ t.children) :
    c.subtrees.length < t.subtrees.length := by
  rw [subtrees_eq t, List.length_cons]
  exact Nat.lt_succ_of_le (List.sublist_flatten_of_mem (List.mem_map_of_mem child)).length_le

theorem labels_eq (t : Tree α) : t.labels = t.label?.toList ++ t.children.flatMap labels := by
  rw [labels, subtrees_eq, List.filterMap_cons, List.filterMap_flatMap]
  cases t.label? <;> rfl

theorem mem_labels_iff {a : α} {t : Tree α} :
    a ∈ t.labels ↔ ∃ s ∈ t.subtrees, s.label? = some a := List.mem_filterMap

variable {P : List String → Prop}

theorem EveryKeys.root {t : Tree α} (every : t.EveryKeys P) : P t.keys :=
  every t t.self_mem_subtrees

theorem EveryKeys.child {c t : Tree α} (every : t.EveryKeys P) (child : c ∈ t.children) :
    c.EveryKeys P := fun s hs => every s (subtrees_child_subset child hs)

theorem EveryKeys.of_children {t : Tree α} (root : P t.keys)
    (below : ∀ c ∈ t.children, c.EveryKeys P) : t.EveryKeys P := by
  intro s hs
  rcases mem_subtrees_iff.mp hs with rfl | ⟨c, hc, hs⟩
  · exact root
  · exact below c hc s hs

theorem OrderedKeys.distinct {t : Tree α} (ordered : t.OrderedKeys) : t.DistinctKeys := by
  intro s hs
  refine (ordered s hs).imp ?_
  rintro j k before rfl
  exact String.lt_irrefl j before

/-- **Nothing is left out by enumerating.** -/
theorem inOrder_perm {t : Tree α} (distinct : t.keys.Nodup) : t.inOrder.Perm t.children := by
  cases t with
  | leaf s => exact .refl _
  | array label items => exact .refl _
  | object label entries => exact (Entries.sorted_perm distinct).map Prod.snd

end Subtrees

section Relabelling

variable (f : α → β)

theorem children_relabel (t : Tree α) : (t.relabel f).children = t.children.map (relabel f) := by
  cases t <;> simp [relabel, children, relabelItems_eq_map, relabelEntries_eq_map]

theorem label?_relabel (t : Tree α) : (t.relabel f).label? = t.label?.map f := by
  cases t <;> rfl

theorem keys_relabel (t : Tree α) : (t.relabel f).keys = t.keys := by
  cases t <;> simp [relabel, keys, Entries.keys, relabelEntries_eq_map]

theorem inOrder_relabel (t : Tree α) : (t.relabel f).inOrder = t.inOrder.map (relabel f) := by
  cases t with
  | leaf s => rfl
  | array label items => simp [relabel, inOrder, relabelItems_eq_map]
  | object label entries =>
      have commutes := Entries.sorted_mapValues (relabel f) entries
      simp only [Entries.mapValues] at commutes
      simp [relabel, inOrder, relabelEntries_eq_map, commutes]

theorem isNull_relabel (t : Tree α) : (t.relabel f).isNull = t.isNull := by
  cases t with
  | leaf s => cases s <;> rfl
  | array label items => rfl
  | object label entries => rfl

theorem subtrees_relabel (t : Tree α) : (t.relabel f).subtrees = t.subtrees.map (relabel f) := by
  induction t using induction_children with
  | node t ih =>
      rw [subtrees_eq, subtrees_eq t, children_relabel, List.map_cons, List.map_flatMap,
        List.flatMap_map]
      congr 1
      rw [List.flatMap_def, List.flatMap_def]
      exact congrArg List.flatten (List.map_congr_left ih)

theorem labels_relabel (t : Tree α) : (t.relabel f).labels = t.labels.map f := by
  rw [labels, labels, subtrees_relabel, List.filterMap_map, List.map_filterMap]
  congr 1
  funext s
  exact label?_relabel f s

theorem everyKeys_relabel {P : List String → Prop} {t : Tree α} :
    (t.relabel f).EveryKeys P ↔ t.EveryKeys P := by
  simp only [EveryKeys, subtrees_relabel, List.forall_mem_map, keys_relabel]

end Relabelling

end Tree

end TreeHandles
