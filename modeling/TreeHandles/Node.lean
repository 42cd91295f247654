import TreeHandles.Tree

/-!
# Nodes

A node is a tree in memory: each of its arrays and objects was allocated at some moment, and a
clone of a node shares its allocations.  The label of a composite is the number of its allocation.
Allocations are numbered from a supply, so that no two constructions give one number.

**Results.**
* `same_comm`: identity is symmetric, and `same_self`: it is reflexive.
* `contents_ofDocument`: placing a document in memory does not change what it says.
-/

namespace TreeHandles

/-- The number of an allocation. -/
structure Allocation where
  number : Nat
  deriving DecidableEq, Repr, Inhabited

/-- The allocation that follows in the supply. -/
def Allocation.next (a : Allocation) : Allocation := ⟨a.number + 1⟩

/-- A tree in memory. -/
abbrev Node := Tree Allocation

namespace Node

open TreeHandles.Tree

/-- Identity: scalars by value, floating-point numbers by their bits, composites by allocation. -/
def same : Node → Node → Bool
  | leaf a, leaf b => a == b
  | array a _, array b _ => a == b
  | object a _, object b _ => a == b
  | _, _ => false

theorem same_self (n : Node) : same n n = true := by
  cases n <;> simp [same]

theorem same_comm (m n : Node) : same m n = same n m := by
  cases m <;> cases n <;> simp [same, Bool.beq_comm]

mutual

/-- Equality in depth: scalars by value, with floating-point numbers as numbers, arrays element by
element, and objects key by key.  Objects that share one allocation are not looked into. -/
def equal : Node → Node → Bool
  | leaf a, leaf b => a.equal b
  | array _ xs, array _ ys => equalItems xs ys
  | object a xs, object b ys => a == b || xs.length == ys.length && equalEntries xs ys
  | _, _ => false

/-- Equality of arrays, element by element. -/
def equalItems : List Node → List Node → Bool
  | [], [] => true
  | x :: xs, y :: ys => equal x y && equalItems xs ys
  | _, _ => false

/-- Whether every entry of the first object has an equal value in the second. -/
def equalEntries : List (String × Node) → List (String × Node) → Bool
  | [], _ => true
  | (k, x) :: xs, ys =>
      (match Entries.find? k ys with
        | some y => equal x y
        | none => false) && equalEntries xs ys

end

mutual

/-- A document in memory: the composites take allocations from the supply in the order in which
they open. -/
def ofDocument : Document → Allocation → Node × Allocation
  | leaf s, supply => (leaf s, supply)
  | array _ items, supply =>
      let placed := ofItems items supply.next
      (array supply placed.1, placed.2)
  | object _ entries, supply =>
      let placed := ofEntries entries supply.next
      (object supply placed.1, placed.2)

/-- The elements of an array in memory. -/
def ofItems : List Document → Allocation → List Node × Allocation
  | [], supply => ([], supply)
  | t :: rest, supply =>
      let first := ofDocument t supply
      let others := ofItems rest first.2
      (first.1 :: others.1, others.2)

/-- The entries of an object in memory. -/
def ofEntries : List (String × Document) → Allocation → List (String × Node) × Allocation
  | [], supply => ([], supply)
  | (k, t) :: rest, supply =>
      let first := ofDocument t supply
      let others := ofEntries rest first.2
      ((k, first.1) :: others.1, others.2)

end

mutual

theorem contents_ofDocument : ∀ (t : Document) (supply : Allocation),
    (ofDocument t supply).1.contents = t
  | leaf _, _ => rfl
  | array _ items, supply => by
      simp [ofDocument, contents, relabel, contents_ofItems items supply.next]
  | object _ entries, supply => by
      simp [ofDocument, contents, relabel, contents_ofEntries entries supply.next]

theorem contents_ofItems : ∀ (items : List Document) (supply : Allocation),
    relabelItems (fun _ => ()) (ofItems items supply).1 = items
  | [], _ => rfl
  | t :: rest, supply => by
      have first := contents_ofDocument t supply
      have others := contents_ofItems rest (ofDocument t supply).2
      simp_all [ofItems, relabelItems, contents]

theorem contents_ofEntries : ∀ (entries : List (String × Document)) (supply : Allocation),
    relabelEntries (fun _ => ()) (ofEntries entries supply).1 = entries
  | [], _ => rfl
  | (k, t) :: rest, supply => by
      have first := contents_ofDocument t supply
      have others := contents_ofEntries rest (ofDocument t supply).2
      simp_all [ofEntries, relabelEntries, contents]

end

end Node

end TreeHandles
