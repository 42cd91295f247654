import TreeHandles.Json.Document
import TreeHandles.Proofs.Tree.Subtrees

/-!
# What JSON text keeps of a tree

JSON text says less than a tree: it has no labels, it gives the entries of an object in the order of
their keys, it writes an unsigned integer in the signed range like a signed one, and a floating-point
number that is not finite like null.  The canonical form of a tree is the document that is left.  How
deep composites nest matters as well, because a reader allows so many levels and no more.

**Results.**
* `canonical_array` and `canonical_object`: the canonical form of a composite, by its parts.
* `canonical_eq_self`: a document whose entries are in order and whose scalars are canonical is its
  own canonical form.
* `depth_le_iff`: how deep a composite nests, by its children.
-/

namespace TreeHandles

namespace Entries

variable {ν : Type}

theorem insertSorted_append {k : String} {v : ν} {es : List (String × ν)}
    (before : ∀ j ∈ keys es, j < k) : insertSorted k v es = es ++ [(k, v)] := by
  induction es with
  | nil => rfl
  | cons e rest ih =>
      have first : e.1 < k := before e.1 List.mem_cons_self
      have notAfter : ¬ k < e.1 := fun after => String.lt_irrefl k (String.lt_trans after first)
      have other : e.1 ≠ k := by
        rintro rfl
        exact notAfter first
      rw [insertSorted, if_neg notAfter, if_neg other,
        ih fun j hj => before j (List.mem_cons_of_mem _ hj), List.cons_append]

/-- Entries in the order of their keys are arranged already. -/
theorem sorted_eq_self {es : List (String × ν)} (ordered : (keys es).Pairwise (· < ·)) :
    sorted es = es := by
  suffices ∀ acc : List (String × ν), (keys (acc ++ es)).Pairwise (· < ·) →
      es.foldl (fun acc e => insertSorted e.1 e.2 acc) acc = acc ++ es from this [] ordered
  induction es with
  | nil => exact fun acc _ => (List.append_nil acc).symm
  | cons e rest ih =>
      intro acc orderedAll
      have last : ∀ j ∈ keys acc, j < e.1 := by
        intro j hj
        rw [keys, List.map_append] at orderedAll
        exact (List.pairwise_append.mp orderedAll).2.2 j hj e.1 List.mem_cons_self
      have restOrdered : (keys rest).Pairwise (· < ·) := (List.pairwise_cons.mp ordered).2
      rw [List.foldl_cons, insertSorted_append last, ih restOrdered, List.append_assoc]
      · rfl
      · rwa [List.append_assoc]

end Entries

/-- The scalar that is left of a scalar in JSON text. -/
def Scalar.canonical : Scalar → Scalar
  | uint u => if u.toNat < Json.integerBound then int (Int64.ofInt u.toNat) else uint u
  | float x => if x.isFinite then float x else null
  | s => s

/-- A scalar of which JSON text keeps all that is left of it: any but a finite floating-point number,
which a reader need not restore. -/
def Scalar.Exact (s : Scalar) : Prop := ∀ x, s = float x → x.isFinite = false

/-- A scalar is no unsigned integer in the range of the signed ones. -/
def Scalar.Narrow (s : Scalar) : Prop := ∀ u, s = uint u → Json.integerBound ≤ u.toNat

/-- A scalar is no floating-point number. -/
def Scalar.NoFloat (s : Scalar) : Prop := ∀ x, s ≠ float x

theorem Scalar.canonical_eq_self {s : Scalar} (narrow : s.Narrow) (noFloat : s.NoFloat) :
    s.canonical = s := by
  cases s with
  | uint u => rw [canonical, if_neg (Nat.not_lt.mpr (narrow u rfl))]
  | float x => exact absurd rfl (noFloat x)
  | null | bool | int | string => rfl

namespace Tree

variable {α : Type}

mutual

/-- The document that is left of a tree in JSON text. -/
def canonical : Tree α → Document
  | leaf s => leaf s.canonical
  | array _ items => array () (canonicalItems items)
  | object _ entries => object () (Entries.sorted (canonicalEntries entries))

/-- What is left of the elements of an array. -/
def canonicalItems : List (Tree α) → List Document
  | [] => []
  | t :: rest => t.canonical :: canonicalItems rest

/-- What is left of the entries of an object, before they are arranged. -/
def canonicalEntries : List (String × Tree α) → List (String × Document)
  | [] => []
  | (k, t) :: rest => (k, t.canonical) :: canonicalEntries rest

end

mutual

/-- How many composites are inside each other at most. -/
def depth : Tree α → Nat
  | leaf _ => 0
  | array _ items => depthOfItems items + 1
  | object _ entries => depthOfEntries entries + 1

/-- How deep the elements of an array nest at most. -/
def depthOfItems : List (Tree α) → Nat
  | [] => 0
  | t :: rest => max t.depth (depthOfItems rest)

/-- How deep the values of an object nest at most. -/
def depthOfEntries : List (String × Tree α) → Nat
  | [] => 0
  | (_, t) :: rest => max t.depth (depthOfEntries rest)

end

/-- Every scalar inside a tree has a property. -/
def EveryScalar (P : Scalar → Prop) (t : Tree α) : Prop := ∀ s, leaf s ∈ t.subtrees → P s

section Canonical

theorem canonical_array (label : α) (items : List (Tree α)) :
    (array label items).canonical = array () (items.map canonical) := by
  have each : canonicalItems items = items.map canonical := by
    induction items with
    | nil => rfl
    | cons t rest ih => rw [canonicalItems, ih, List.map_cons]
  rw [canonical, each]

theorem canonical_object (label : α) (entries : List (String × Tree α)) :
    (object label entries).canonical =
      object () (Entries.mapValues canonical (Entries.sorted entries)) := by
  have each : canonicalEntries entries = Entries.mapValues canonical entries := by
    induction entries with
    | nil => rfl
    | cons e rest ih => rw [canonicalEntries, ih, Entries.mapValues_cons]
  rw [canonical, each, Entries.sorted_mapValues]

end Canonical

section Depth

theorem depthOfItems_le_iff {items : List (Tree α)} {levels : Nat} :
    depthOfItems items ≤ levels ↔ ∀ t ∈ items, t.depth ≤ levels := by
  induction items with
  | nil => simp [depthOfItems]
  | cons t rest ih => rw [depthOfItems, Nat.max_le, ih, List.forall_mem_cons]

theorem depthOfEntries_le_iff {entries : List (String × Tree α)} {levels : Nat} :
    depthOfEntries entries ≤ levels ↔ ∀ e ∈ entries, e.2.depth ≤ levels := by
  induction entries with
  | nil => simp [depthOfEntries]
  | cons e rest ih => rw [depthOfEntries, Nat.max_le, ih, List.forall_mem_cons]

/-- **A composite nests one level deeper than its children.** -/
theorem depth_le_iff {t : Tree α} {levels : Nat} (composite : t.isComposite = true) :
    t.depth ≤ levels + 1 ↔ ∀ c ∈ t.children, c.depth ≤ levels := by
  cases t with
  | leaf s => cases composite
  | array label items =>
      rw [depth, Nat.add_le_add_iff_right, depthOfItems_le_iff, children]
  | object label entries =>
      rw [depth, Nat.add_le_add_iff_right, depthOfEntries_le_iff, children, List.forall_mem_map]

end Depth

section Scalars

variable {P : Scalar → Prop} {t c : Tree α}

theorem EveryScalar.leaf {s : Scalar} (every : (leaf s : Tree α).EveryScalar P) : P s :=
  every s (self_mem_subtrees _)

theorem EveryScalar.child (every : t.EveryScalar P) (child : c ∈ t.children) : c.EveryScalar P :=
  fun s hs => every s (subtrees_child_subset child hs)

theorem everyScalar_leaf {s : Scalar} (holds : P s) : (Tree.leaf s : Tree α).EveryScalar P := by
  intro r hr
  rw [subtrees, List.mem_singleton] at hr
  cases hr
  exact holds

instance [DecidablePred P] (t : Tree α) : Decidable (t.EveryScalar P) :=
  decidable_of_iff (t.subtrees.all (fun | .leaf s => decide (P s) | _ => true) = true) <| by
    rw [List.all_eq_true]
    constructor
    · exact fun checked s inside => of_decide_eq_true (checked _ inside)
    · intro every s inside
      cases s with
      | leaf s => exact decide_eq_true (every s inside)
      | array label items => rfl
      | object label entries => rfl

theorem EveryScalar.of_children (composite : t.isComposite = true)
    (below : ∀ c ∈ t.children, c.EveryScalar P) : t.EveryScalar P := by
  intro s hs
  rcases mem_subtrees_iff.mp hs with rfl | ⟨c, hc, hs⟩
  · cases composite
  · exact below c hc s hs

end Scalars

/-- **A document that is in order and has canonical scalars is its own canonical form.** -/
theorem canonical_eq_self {d : Document} (ordered : d.OrderedKeys)
    (scalars : d.EveryScalar fun s => s.canonical = s) : d.canonical = d := by
  induction d using induction_children with
  | node d ih =>
      have below : ∀ c ∈ d.children, c.canonical = c := fun c hc =>
        ih c hc (ordered.child hc) (scalars.child hc)
      cases d with
      | leaf s => rw [canonical, scalars.leaf]
      | array label items =>
          have same : ∀ t ∈ items, t.canonical = t := below
          rw [canonical_array, List.map_congr_left same, List.map_id']
      | object label entries =>
          have same : ∀ e ∈ entries, (e.1, e.2.canonical) = e := fun e he => by
            rw [below e.2 (List.mem_map_of_mem he)]
          rw [canonical_object, Entries.sorted_eq_self ordered.root, Entries.mapValues,
            List.map_congr_left same, List.map_id']

end Tree

end TreeHandles
