import TreeHandles.Node.Assembly
import TreeHandles.Proofs.Tree.Subtrees

/-!
# Memory

A memory is the list of all composites that were ever allocated, in the order of their allocation.
It only grows.  A node is *held* by a memory if every composite inside it is what the memory has at
its allocation.  So two composites of one allocation that are held by one memory are the same tree.

**Results.**
* `eq_of_same`: in one memory, identical nodes are equal in depth.
* `Held.of_append`: what was allocated later does not matter.
* `labels_ofDocument`: the composites of a document take the next allocations, in their order.
* `held_ofDocument`: a document that is placed in memory is held by the memory that it extends.
* `held_assemble`: so are the nodes that a host makes from nodes that are held.
-/

namespace TreeHandles

open TreeHandles.Tree

namespace Allocation

/-- Some allocations in a row, from the given one on. -/
def block (a : Allocation) (k : Nat) : List Allocation := (List.range' a.number k).map .mk

/-- The allocation that is some places further on. -/
def skip (a : Allocation) (k : Nat) : Allocation := ⟨a.number + k⟩

theorem skip_skip (a : Allocation) (j k : Nat) : (a.skip j).skip k = a.skip (j + k) := by
  simp [skip, Nat.add_assoc]

theorem block_append (a : Allocation) (j k : Nat) :
    a.block j ++ (a.skip j).block k = a.block (j + k) := by
  rw [block, block, block, ← List.map_append, skip, List.range'_append_1]

end Allocation

namespace Node

/-- Every composite inside a node is what the memory has at its allocation. -/
def Held (memory : List Node) (n : Node) : Prop :=
  ∀ s ∈ n.subtrees, ∀ a, s.label? = some a → memory[a.number]? = some s

/-- The composites inside a node, in the order in which they open. -/
def composites (n : Node) : List Node := n.subtrees.filter Tree.isComposite

variable {memory : List Node} {m n c : Node}

section Holding

theorem held_leaf (memory : List Node) (s : Scalar) : Held memory (leaf s) := by
  intro t ht a ha
  rw [subtrees_eq, children, List.flatMap_nil, List.mem_singleton] at ht
  subst ht
  cases ha

theorem Held.child (held : Held memory n) (child : c ∈ n.children) : Held memory c :=
  fun s hs => held s (subtrees_child_subset child hs)

theorem Held.of_children (root : ∀ a, n.label? = some a → memory[a.number]? = some n)
    (below : ∀ c ∈ n.children, Held memory c) : Held memory n := by
  intro s hs
  rcases mem_subtrees_iff.mp hs with rfl | ⟨c, hc, hs⟩
  · exact root
  · exact below c hc s hs

theorem Held.of_append (held : Held memory n) (more : List Node) : Held (memory ++ more) n := by
  intro s hs a ha
  obtain ⟨inside, _⟩ := List.getElem?_eq_some_iff.mp (held s hs a ha)
  rw [List.getElem?_append_left inside]
  exact held s hs a ha

/-- A composite that is allocated now is held, if its children are. -/
theorem held_allocated (now : n.label? = some ⟨memory.length⟩)
    (below : ∀ c ∈ n.children, Held memory c) : Held (memory ++ [n]) n := by
  refine .of_children ?_ fun c hc => (below c hc).of_append [n]
  intro a ha
  rw [now] at ha
  cases ha
  simp

theorem Held.number_lt (held : Held memory n) {a : Allocation} (ha : a ∈ n.labels) :
    a.number < memory.length := by
  obtain ⟨s, hs, label⟩ := mem_labels_iff.mp ha
  exact (List.getElem?_eq_some_iff.mp (held s hs a label)).1

theorem Held.distinctKeys (held : Held memory n) (distinct : ∀ s ∈ memory, s.keys.Nodup) :
    n.DistinctKeys := by
  intro s hs
  cases hl : s.label? with
  | none =>
      cases s with
      | leaf s => exact .nil
      | array label items => cases hl
      | object label entries => cases hl
  | some a => exact distinct s (List.mem_of_getElem? (held s hs a hl))

/-- **In one memory, identical nodes are equal.** -/
theorem eq_of_same (hm : Held memory m) (hn : Held memory n) (same : Node.same m n = true) :
    m = n := by
  have byLabel : ∀ a, m.label? = some a → n.label? = some a → m = n := by
    intro a ha hb
    have here := hm m m.self_mem_subtrees a ha
    have there := hn n n.self_mem_subtrees a hb
    exact Option.some.inj (here.symm.trans there)
  cases m with
  | leaf s =>
      cases n with
      | leaf t =>
          simp only [Node.same, beq_iff_eq] at same
          rw [same]
      | array b items => cases same
      | object b entries => cases same
  | array a items =>
      cases n with
      | leaf t => cases same
      | array b items' =>
          simp only [Node.same, beq_iff_eq] at same
          subst same
          exact byLabel a rfl rfl
      | object b entries => cases same
  | object a entries =>
      cases n with
      | leaf t => cases same
      | array b items => cases same
      | object b entries' =>
          simp only [Node.same, beq_iff_eq] at same
          subst same
          exact byLabel a rfl rfl

/-- In one memory, composites are identical exactly if they are of one allocation. -/
theorem same_iff_label?_eq (hm : Held memory m) (hn : Held memory n)
    (composite : m.isComposite = true) : Node.same m n = true ↔ m.label? = n.label? := by
  constructor
  · intro same
    rw [eq_of_same hm hn same]
  · intro label
    obtain ⟨a, ha⟩ := Option.isSome_iff_exists.mp composite
    have here := hm m m.self_mem_subtrees a ha
    have there := hn n n.self_mem_subtrees a (label ▸ ha)
    rw [Option.some.inj (here.symm.trans there)]
    exact same_self n

end Holding

section Documents

theorem map_label?_composites (n : Node) : n.composites.map label? = n.labels.map some := by
  rw [composites, labels]
  induction n.subtrees with
  | nil => rfl
  | cons s rest ih =>
      cases hl : s.label? with
      | none => simpa [Tree.isComposite, hl] using ih
      | some a => simpa [Tree.isComposite, hl] using ih

mutual

/-- **The composites of a document take the next allocations.** -/
theorem labels_ofDocument : ∀ (d : Document) (supply : Allocation),
    ∃ k, (ofDocument d supply).1.labels = supply.block k ∧ (ofDocument d supply).2 = supply.skip k
  | leaf _, supply => ⟨0, rfl, rfl⟩
  | array _ items, supply => by
      obtain ⟨k, taken, left⟩ := labels_ofItems items supply.next
      refine ⟨1 + k, ?_, ?_⟩
      · rw [labels_eq, ← supply.block_append]
        exact congrArg (supply.block 1 ++ ·) taken
      · rw [← supply.skip_skip]
        exact left
  | object _ entries, supply => by
      obtain ⟨k, taken, left⟩ := labels_ofEntries entries supply.next
      refine ⟨1 + k, ?_, ?_⟩
      · rw [labels_eq, ← supply.block_append]
        exact congrArg (supply.block 1 ++ ·) taken
      · rw [← supply.skip_skip]
        exact left

theorem labels_ofItems : ∀ (items : List Document) (supply : Allocation),
    ∃ k, (ofItems items supply).1.flatMap labels = supply.block k ∧
      (ofItems items supply).2 = supply.skip k
  | [], supply => ⟨0, rfl, rfl⟩
  | t :: rest, supply => by
      obtain ⟨j, takenFirst, leftFirst⟩ := labels_ofDocument t supply
      obtain ⟨k, taken, left⟩ := labels_ofItems rest (ofDocument t supply).2
      refine ⟨j + k, ?_, ?_⟩
      · rw [ofItems, List.flatMap_cons, takenFirst, taken, leftFirst, supply.block_append]
      · rw [ofItems, left, leftFirst, supply.skip_skip]

theorem labels_ofEntries : ∀ (entries : List (String × Document)) (supply : Allocation),
    ∃ k, ((ofEntries entries supply).1.map Prod.snd).flatMap labels = supply.block k ∧
      (ofEntries entries supply).2 = supply.skip k
  | [], supply => ⟨0, rfl, rfl⟩
  | (_, t) :: rest, supply => by
      obtain ⟨j, takenFirst, leftFirst⟩ := labels_ofDocument t supply
      obtain ⟨k, taken, left⟩ := labels_ofEntries rest (ofDocument t supply).2
      refine ⟨j + k, ?_, ?_⟩
      · rw [ofEntries, List.map_cons, List.flatMap_cons, takenFirst, taken, leftFirst,
          supply.block_append]
      · rw [ofEntries, left, leftFirst, supply.skip_skip]

end

/-- **A document that is placed in memory is held there.** -/
theorem held_ofDocument (d : Document) {supply : Allocation}
    (counted : memory.length = supply.number) :
    Held (memory ++ (ofDocument d supply).1.composites) (ofDocument d supply).1 ∧
      (memory ++ (ofDocument d supply).1.composites).length = (ofDocument d supply).2.number := by
  obtain ⟨k, taken, left⟩ := labels_ofDocument d supply
  have aligned := map_label?_composites (ofDocument d supply).1
  rw [taken] at aligned
  constructor
  · intro s hs a ha
    have composite : s ∈ (ofDocument d supply).1.composites :=
      List.mem_filter.mpr ⟨hs, by simp [Tree.isComposite, ha]⟩
    obtain ⟨i, hi⟩ := List.mem_iff_getElem?.mp composite
    -- The place of a composite among the new ones is what its allocation is beyond the old ones.
    have place : (supply.block k)[i]? = some a := by
      have at_i := congrArg (·[i]?) aligned
      simpa [hi, ha] using at_i.symm
    have beyond : a.number = memory.length + i := by
      simp only [Allocation.block, List.getElem?_map, Option.map_eq_some_iff] at place
      obtain ⟨j, hj, rfl⟩ := place
      obtain ⟨_, hj⟩ := List.getElem?_eq_some_iff.mp hj
      rw [List.getElem_range'] at hj
      show j = memory.length + i
      omega
    rw [beyond, List.getElem?_append_right (Nat.le_add_right _ _), Nat.add_sub_cancel_left]
    exact hi
  · have length := congrArg List.length aligned
    simp only [List.length_map, Allocation.block, List.length_range'] at length
    rw [List.length_append, length, left, counted]
    rfl

end Documents

end Node

namespace Assembly

open Node

variable {ρ : Type}

/-- The nodes on a bench are held by a memory of which the supply is next. -/
structure Bench.Held (memory : List Node) (b : Bench) : Prop where
  counted : memory.length = b.supply.number
  distinct : ∀ n ∈ memory, n.keys.Nodup
  made : ∀ n ∈ b.made, Node.Held memory n

variable {memory : List Node} {b : Bench} {resolve : ρ → Option Node}

namespace Bench.Held

theorem get (held : b.Held memory) (i : Nat) : Node.Held memory (b.get i) := by
  rw [Bench.get]
  cases hn : b.made[i]? with
  | none => exact held_leaf memory .null
  | some n => exact held.made n (Array.mem_of_getElem? hn)

theorem last (held : b.Held memory) : Node.Held memory b.last := by
  rw [Bench.last]
  cases hn : b.made.back? with
  | none => exact held_leaf memory .null
  | some n => exact held.made n (Array.mem_of_back? hn)

theorem push (held : b.Held memory) {n : Node} (now : Node.Held memory n) :
    Held memory ⟨b.made.push n, b.supply⟩ := by
  refine ⟨held.counted, held.distinct, fun m hm => ?_⟩
  rcases Array.mem_push.mp hm with old | rfl
  · exact held.made m old
  · exact now

theorem allocate (held : b.Held memory) {n : Node} (label : n.label? = some b.supply)
    (keys : n.keys.Nodup) (below : ∀ c ∈ n.children, Node.Held memory c) :
    Held (memory ++ [n]) ⟨b.made.push n, b.supply.next⟩ := by
  have now : n.label? = some ⟨memory.length⟩ := by rw [label, held.counted]
  refine ⟨?_, ?_, fun m hm => ?_⟩
  · rw [List.length_append, held.counted]
    rfl
  · intro m hm
    rcases List.mem_append.mp hm with old | new
    · exact held.distinct m old
    · rw [List.mem_singleton.mp new]
      exact keys
  · rcases Array.mem_push.mp hm with old | rfl
    · exact (held.made m old).of_append [n]
    · exact held_allocated now below

end Bench.Held

theorem held_step (held : b.Held memory)
    (resolved : ∀ {r n}, resolve r = some n → Node.Held memory n) (s : Assembly ρ) :
    ∃ more, (step resolve b s).Held (memory ++ more) := by
  cases s with
  | scalar s =>
      refine ⟨[], ?_⟩
      rw [List.append_nil]
      exact held.push (held_leaf memory s)
  | array items =>
      refine ⟨_, held.allocate rfl .nil fun c hc => ?_⟩
      obtain ⟨i, _, rfl⟩ := List.mem_map.mp hc
      exact held.get i
  | object entries =>
      refine ⟨_, held.allocate rfl (Entries.nodup_keys_ofWrites _) fun c hc => ?_⟩
      obtain ⟨e, he, rfl⟩ := List.mem_map.mp hc
      obtain ⟨d, _, rfl⟩ := List.mem_map.mp (Entries.mem_of_mem_ofWrites he)
      exact held.get d.2
  | clone source =>
      refine ⟨[], ?_⟩
      rw [List.append_nil]
      refine held.push ?_
      cases hn : resolve source with
      | none => exact held_leaf memory .null
      | some n => exact resolved hn

/-- **What a host makes of nodes that are held is held.** -/
theorem held_assemble {supply : Allocation} (counted : memory.length = supply.number)
    (distinct : ∀ n ∈ memory, n.keys.Nodup)
    (resolved : ∀ {r n}, resolve r = some n → Node.Held memory n) (steps : List (Assembly ρ)) :
    ∃ more, (assemble resolve supply steps).Held (memory ++ more) := by
  suffices ∀ (b : Bench) (memory : List Node), b.Held memory →
      (∀ {r n}, resolve r = some n → Node.Held memory n) →
      ∃ more, (steps.foldl (step resolve) b).Held (memory ++ more) from
    this _ memory ⟨counted, distinct, fun _ hn => absurd hn (Array.not_mem_empty _)⟩ resolved
  clear counted distinct resolved
  induction steps with
  | nil =>
      intro b memory held _
      exact ⟨[], by rwa [List.append_nil]⟩
  | cons s rest ih =>
      intro b memory held resolved
      obtain ⟨first, heldFirst⟩ := held_step held resolved s
      obtain ⟨more, heldAll⟩ := ih _ _ heldFirst fun hn => (resolved hn).of_append first
      exact ⟨first ++ more, by rwa [← List.append_assoc]⟩

end Assembly

end TreeHandles
