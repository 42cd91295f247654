import TreeHandles.Node

/-!
# How a host makes nodes

A host makes nodes one after the other.  Each step makes a scalar, allocates a composite whose
children are clones of nodes made by earlier steps, or clones a node that the host got from
elsewhere.  A step that names a node that is not there makes null.
-/

namespace TreeHandles

/-- One step of making nodes.  Earlier nodes are named by their place in the order of making, and
nodes from elsewhere by a reference of type `ρ`. -/
inductive Assembly (ρ : Type) where
  | scalar (s : Scalar)
  | array (items : List Nat)
  | object (entries : List (String × Nat))
  | clone (source : ρ)
  deriving DecidableEq, Repr

namespace Assembly

variable {ρ : Type}

/-- The nodes made so far, in order, and the supply of allocations. -/
structure Bench where
  made : Array Node
  supply : Allocation

/-- The node that an earlier step made. -/
def Bench.get (b : Bench) (i : Nat) : Node := b.made[i]?.getD .null

/-- The node made last. -/
def Bench.last (b : Bench) : Node := b.made.back?.getD .null

/-- Makes one node; a key that is repeated keeps its place and takes the last value. -/
def step (resolve : ρ → Option Node) (b : Bench) : Assembly ρ → Bench
  | scalar s => { b with made := b.made.push (.leaf s) }
  | array items => ⟨b.made.push (.array b.supply (items.map b.get)), b.supply.next⟩
  | object entries =>
      let bound := Entries.ofWrites (entries.map fun e => (e.1, b.get e.2))
      ⟨b.made.push (.object b.supply bound), b.supply.next⟩
  | clone source => { b with made := b.made.push ((resolve source).getD .null) }

/-- Makes the nodes of a list of steps, from a supply of allocations. -/
def assemble (resolve : ρ → Option Node) (supply : Allocation) (steps : List (Assembly ρ)) :
    Bench :=
  steps.foldl (step resolve) ⟨#[], supply⟩

end Assembly

end TreeHandles
