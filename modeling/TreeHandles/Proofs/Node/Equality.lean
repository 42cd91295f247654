import Mathlib.Data.List.Perm.Subperm
import TreeHandles.Proofs.Table.Memory

/-!
# Equality in depth

Equality in depth compares objects in one direction only: each entry of the first must have an equal
value in the second, and both must have as many entries.  Objects that share one allocation are not
looked into, arrays always are.  A not-a-number makes what holds it unequal to itself, unless an
object hides it.  All the same, equality in depth is symmetric and transitive.  Symmetry rests on
distinct keys alone: as many keys of which all are known are all the keys.  Transitivity needs that
all nodes are held by one memory, so that objects of one allocation are one tree.

**Results.**
* `equalItems_iff` and `equalEntries_iff`: what is compared of two arrays and of two objects.
* `equal_object_iff_rel`: objects of different allocations are compared as maps.
* `equal_symm`: equality is symmetric, where keys are distinct.
* `equal_trans`: equality is transitive in one memory.
* `equal_partial_equivalence`: equality among all nodes that a host can have.
-/

namespace TreeHandles

open TreeHandles.Tree

namespace Entries

variable {ν μ : Type} {k : String}

theorem exists_find?_of_mem_keys {es : List (String × ν)} (inside : k ∈ keys es) :
    ∃ v, find? k es = some v :=
  Option.isSome_iff_exists.mp (mem_keys_iff_isSome.mp inside)

theorem mem_of_find? {es : List (String × ν)} {v : ν} (found : find? k es = some v) :
    (k, v) ∈ es := by
  induction es with
  | nil => cases found
  | cons e rest ih =>
      by_cases he : e.1 = k
      · subst he
        simp only [find?, if_pos, Option.some.injEq] at found
        exact found ▸ List.mem_cons_self
      · simp only [find?, he, if_false] at found
        exact List.mem_cons_of_mem _ (ih found)

/-- Distinct keys that are all among as many others are all of them. -/
theorem keys_subset_of_length {xs : List (String × ν)} {ys : List (String × μ)}
    (distinct : (keys xs).Nodup) (subset : keys xs ⊆ keys ys) (length : xs.length = ys.length) :
    keys ys ⊆ keys xs := by
  have fits : (keys ys).length ≤ (keys xs).length :=
    Nat.le_of_eq (by rw [keys, keys, List.length_map, List.length_map, length])
  exact ((distinct.subperm subset).perm_of_length_le fits).symm.subset

/-- Two values that may be missing are related if both or neither is there, and the values are. -/
theorem rel_iff {R : ν → μ → Prop} {v? : Option ν} {w? : Option μ} :
    Option.Rel R v? w? ↔ v?.isSome = w?.isSome ∧ ∀ v ∈ v?, ∀ w ∈ w?, R v w := by
  constructor
  · intro related
    cases related with
    | some holds => exact ⟨rfl, fun v hv w hw => by cases hv; cases hw; exact holds⟩
    | none => exact ⟨rfl, fun v hv => nomatch hv⟩
  · rintro ⟨both, holds⟩
    cases v? with
    | none =>
        cases w? with
        | none => exact .none
        | some w => cases both
    | some v =>
        cases w? with
        | none => cases both
        | some w => exact .some (holds v rfl w rfl)

/-- **Entries that are compared in one direction are compared as maps**, where keys are distinct. -/
theorem rel_find?_iff {R : ν → μ → Prop} {xs : List (String × ν)} {ys : List (String × μ)}
    (hx : (keys xs).Nodup) (hy : (keys ys).Nodup) :
    (∀ k, Option.Rel R (find? k xs) (find? k ys)) ↔
      xs.length = ys.length ∧ ∀ e ∈ xs, ∃ y, find? e.1 ys = some y ∧ R e.2 y := by
  simp only [rel_iff]
  constructor
  · intro each
    have listed : ∀ k, k ∈ keys xs ↔ k ∈ keys ys := fun k => by
      rw [mem_keys_iff_isSome, mem_keys_iff_isSome, (each k).1]
    have perm := (List.perm_ext_iff_of_nodup hx hy).mpr listed
    refine ⟨by simpa [keys] using perm.length_eq, fun e he => ?_⟩
    obtain ⟨y, hy⟩ := exists_find?_of_mem_keys ((listed e.1).mp (List.mem_map_of_mem he))
    exact ⟨y, hy, (each e.1).2 e.2 ((find?_eq_some_iff_mem hx).mpr he) y hy⟩
  · rintro ⟨length, each⟩ k
    have known : keys xs ⊆ keys ys := by
      intro k hk
      obtain ⟨d, hd, rfl⟩ := List.mem_map.mp hk
      obtain ⟨y, hy, _⟩ := each d hd
      exact List.mem_map_of_mem (mem_of_find? hy)
    -- As many keys of which all are known are all the keys, so that none is missing on the left.
    have all := keys_subset_of_length hx known length
    refine ⟨?_, fun x hx y hy => ?_⟩
    · rw [Bool.eq_iff_iff, ← mem_keys_iff_isSome, ← mem_keys_iff_isSome]
      exact ⟨fun inside => known inside, fun inside => all inside⟩
    · obtain ⟨y', hy', related⟩ := each _ (mem_of_find? hx)
      cases hy.symm.trans hy'
      exact related

end Entries

theorem Binary64.equal_trans {x y z : Binary64} (first : x.equal y = true)
    (second : y.equal z = true) : x.equal z = true := by
  simp only [Binary64.equal, Bool.and_eq_true, Bool.or_eq_true, beq_iff_eq] at first second ⊢
  obtain ⟨⟨numberX, _⟩, same⟩ := first
  obtain ⟨⟨_, numberZ⟩, sameThen⟩ := second
  refine ⟨⟨numberX, numberZ⟩, ?_⟩
  rcases same with rfl | ⟨zeroX, zeroY⟩
  · exact sameThen
  · rcases sameThen with rfl | ⟨_, zeroZ⟩
    · exact .inr ⟨zeroX, zeroY⟩
    · exact .inr ⟨zeroX, zeroZ⟩

theorem Scalar.equal_trans {s t u : Scalar} (first : s.equal t = true)
    (second : t.equal u = true) : s.equal u = true := by
  cases s with
  | float x =>
      cases t with
      | float y =>
          cases u with
          | float z => exact Binary64.equal_trans first second
          | null | bool | int | uint | string => simp [Scalar.equal] at second
      | null | bool | int | uint | string => simp [Scalar.equal] at first
  | null | bool | int | uint | string =>
      simp only [Scalar.equal, beq_iff_eq] at first
      exact first ▸ second

namespace Node

section Comparing

theorem equalItems_iff {xs ys : List Node} :
    equalItems xs ys = true ↔ List.Forall₂ (fun x y => equal x y = true) xs ys := by
  induction xs generalizing ys with
  | nil => cases ys <;> simp [equalItems]
  | cons x xs ih => cases ys <;> simp [equalItems, ih]

theorem equalEntries_iff {xs ys : List (String × Node)} :
    equalEntries xs ys = true ↔
      ∀ e ∈ xs, ∃ y, Entries.find? e.1 ys = some y ∧ equal e.2 y = true := by
  induction xs with
  | nil => simp [equalEntries]
  | cons e rest ih =>
      rw [equalEntries, Bool.and_eq_true, ih, List.forall_mem_cons]
      refine and_congr_left fun _ => ?_
      cases Entries.find? e.1 ys <;> simp

theorem equal_array_iff {a b : Allocation} {xs ys : List Node} :
    equal (array a xs) (array b ys) = true ↔
      xs.length = ys.length ∧ ∀ i hx hy, equal (xs.get ⟨i, hx⟩) (ys.get ⟨i, hy⟩) = true := by
  rw [equal, equalItems_iff, List.forall₂_iff_get]

theorem equal_object_iff {a b : Allocation} {xs ys : List (String × Node)} :
    equal (object a xs) (object b ys) = true ↔
      a = b ∨ xs.length = ys.length ∧
        ∀ e ∈ xs, ∃ y, Entries.find? e.1 ys = some y ∧ equal e.2 y = true := by
  simp [equal, equalEntries_iff]

/-- Objects that do not share an allocation are compared as maps, where keys are distinct. -/
theorem equal_object_iff_rel {a b : Allocation} {xs ys : List (String × Node)}
    (hx : (Entries.keys xs).Nodup) (hy : (Entries.keys ys).Nodup) :
    equal (object a xs) (object b ys) = true ↔
      a = b ∨ ∀ k, Option.Rel (fun x y => equal x y = true) (Entries.find? k xs)
        (Entries.find? k ys) := by
  rw [equal_object_iff, Entries.rel_find?_iff hx hy]

/-- What a key of an object is found with is one of its children. -/
theorem mem_children_of_find? {a : Allocation} {xs : List (String × Node)} {k : String} {x : Node}
    (found : Entries.find? k xs = some x) : x ∈ (object a xs).children :=
  List.mem_map_of_mem (Entries.mem_of_find? found)

variable {n : Node} {a : Allocation}

/-- What equals a scalar is a scalar. -/
theorem exists_leaf_of_equal {s : Scalar} (same : equal (leaf s) n = true) : ∃ t, n = leaf t := by
  cases n with
  | leaf t => exact ⟨t, rfl⟩
  | array b ys => cases same
  | object b ys => cases same

/-- What equals an array is an array. -/
theorem exists_array_of_equal {xs : List Node} (same : equal (array a xs) n = true) :
    ∃ b ys, n = array b ys := by
  cases n with
  | leaf t => cases same
  | array b ys => exact ⟨b, ys, rfl⟩
  | object b ys => cases same

/-- What equals an object is an object. -/
theorem exists_object_of_equal {xs : List (String × Node)} (same : equal (object a xs) n = true) :
    ∃ b ys, n = object b ys := by
  cases n with
  | leaf t => cases same
  | array b ys => cases same
  | object b ys => exact ⟨b, ys, rfl⟩

end Comparing

section Symmetry

/-- **Equality in depth is symmetric**, where no key stands twice. -/
theorem equal_symm {m n : Node} (hm : m.DistinctKeys) (hn : n.DistinctKeys)
    (same : equal m n = true) : equal n m = true := by
  induction m using induction_children generalizing n with
  | node m ih =>
      cases m with
      | leaf s =>
          obtain ⟨t, rfl⟩ := exists_leaf_of_equal same
          rw [equal] at same ⊢
          rwa [Scalar.equal_comm]
      | array a xs =>
          obtain ⟨b, ys, rfl⟩ := exists_array_of_equal same
          rw [equal_array_iff] at same ⊢
          obtain ⟨length, each⟩ := same
          refine ⟨length.symm, fun i hy hx => ?_⟩
          have childX : xs.get ⟨i, hx⟩ ∈ (array a xs).children := List.get_mem xs _
          have childY : ys.get ⟨i, hy⟩ ∈ (array b ys).children := List.get_mem ys _
          exact ih _ childX (hm.child childX) (hn.child childY) (each i hx hy)
      | object a xs =>
          obtain ⟨b, ys, rfl⟩ := exists_object_of_equal same
          rw [equal_object_iff_rel hm.root hn.root] at same
          rw [equal_object_iff_rel hn.root hm.root]
          simp only [Entries.rel_iff] at same ⊢
          refine same.imp Eq.symm fun each k => ⟨(each k).1.symm, fun y hy x hx => ?_⟩
          have childX : x ∈ (object a xs).children := mem_children_of_find? hx
          have childY : y ∈ (object b ys).children := mem_children_of_find? hy
          exact ih x childX (hm.child childX) (hn.child childY) ((each k).2 x hx y hy)

end Symmetry

section Transitivity

variable {memory : List Node} {m n p : Node}

/-- **Equality in depth is transitive** among nodes that one memory holds. -/
theorem equal_trans (distinct : ∀ n ∈ memory, n.keys.Nodup) (hm : Held memory m)
    (hn : Held memory n) (hp : Held memory p) (first : equal m n = true)
    (second : equal n p = true) : equal m p = true := by
  induction m using induction_children generalizing n p with
  | node m ih =>
      cases m with
      | leaf s =>
          obtain ⟨t, rfl⟩ := exists_leaf_of_equal first
          obtain ⟨u, rfl⟩ := exists_leaf_of_equal second
          exact Scalar.equal_trans first second
      | array a xs =>
          obtain ⟨b, ys, rfl⟩ := exists_array_of_equal first
          obtain ⟨c, zs, rfl⟩ := exists_array_of_equal second
          rw [equal_array_iff] at first second ⊢
          refine ⟨first.1.trans second.1, fun i hx hz => ?_⟩
          have hy : i < ys.length := first.1 ▸ hx
          have childX : xs.get ⟨i, hx⟩ ∈ (array a xs).children := List.get_mem xs _
          have childY : ys.get ⟨i, hy⟩ ∈ (array b ys).children := List.get_mem ys _
          have childZ : zs.get ⟨i, hz⟩ ∈ (array c zs).children := List.get_mem zs _
          exact ih _ childX (hm.child childX) (hn.child childY) (hp.child childZ)
            (first.2 i hx hy) (second.2 i hy hz)
      | object a xs =>
          obtain ⟨b, ys, rfl⟩ := exists_object_of_equal first
          obtain ⟨c, zs, rfl⟩ := exists_object_of_equal second
          rw [equal_object_iff] at first second
          -- Objects of one allocation are one tree, so that nothing is left to show for them.
          rcases first with rfl | ⟨length, each⟩
          · rw [eq_of_same hm hn (by simp [same]), equal_object_iff]
            exact second
          rcases second with rfl | ⟨lengthThen, eachThen⟩
          · rw [← eq_of_same hn hp (by simp [same]), equal_object_iff]
            exact .inr ⟨length, each⟩
          rw [equal_object_iff]
          refine .inr ⟨length.trans lengthThen, fun e he => ?_⟩
          obtain ⟨y, hy, sameValue⟩ := each e he
          have insideY := (Entries.find?_eq_some_iff_mem (hn.distinctKeys distinct).root).mp hy
          obtain ⟨z, hz, sameThen⟩ := eachThen _ insideY
          have insideZ := (Entries.find?_eq_some_iff_mem (hp.distinctKeys distinct).root).mp hz
          have childX : e.2 ∈ (object a xs).children := List.mem_map_of_mem he
          have childY : y ∈ (object b ys).children := List.mem_map_of_mem insideY
          have childZ : z ∈ (object c zs).children := List.mem_map_of_mem insideZ
          exact ⟨z, hz, ih _ childX (hm.child childX) (hn.child childY) (hp.child childZ)
            sameValue sameThen⟩

end Transitivity

end Node

namespace Session

/-- **Equality in depth is a partial equivalence.**  Take a session that is reached, and whatever a
host makes there step by step: scalars of all kinds, arrays and objects whose children are clones of
earlier nodes, and clones of the nodes of the session, which were loaded, built or registered.  Among
all these nodes equality in depth is symmetric and transitive. -/
theorem equal_partial_equivalence (options : Options) (calls : List AnyCall) (x : Session)
    (hx : (new options).run calls = .ok x) (steps : List (Assembly Handle)) :
    let bench := Assembly.assemble x.node? x.table.supply steps
    (∀ i j, Node.equal (bench.get i) (bench.get j) = true →
      Node.equal (bench.get j) (bench.get i) = true) ∧
    ∀ i j k, Node.equal (bench.get i) (bench.get j) = true →
      Node.equal (bench.get j) (bench.get k) = true →
      Node.equal (bench.get i) (bench.get k) = true := by
  intro bench
  obtain ⟨memory, held⟩ := exists_held_assemble hx steps
  have distinct : ∀ i, (bench.get i).DistinctKeys := fun i =>
    (held.get i).distinctKeys held.distinct
  exact ⟨fun i j => Node.equal_symm (distinct i) (distinct j),
    fun i j k => Node.equal_trans held.distinct (held.get i) (held.get j) (held.get k)⟩

/-- A not-a-number differs from itself, and so does an array that holds it; two objects that share an
object with it inside are equal, in whatever order their entries stand. -/
theorem equal_partial_equivalence_around_nan :
    let bench := Assembly.assemble (new {}).node? (new {}).table.supply
      [.scalar (.float ⟨0x7ff8000000000000⟩), .array [0], .object [("x", 1)], .scalar (.int 7),
        .object [("p", 2), ("q", 3)], .object [("q", 3), ("p", 2)], .object [("p", 2), ("q", 3)]]
    Node.equal (bench.get 1) (bench.get 1) = false ∧
      Node.equal (bench.get 4) (bench.get 5) = true ∧
      Node.equal (bench.get 5) (bench.get 4) = true ∧
      Node.equal (bench.get 4) (bench.get 6) = true := by
  intro bench
  obtain ⟨symm, trans⟩ := equal_partial_equivalence {} [] (new {}) rfl
    [.scalar (.float ⟨0x7ff8000000000000⟩), .array [0], .object [("x", 1)], .scalar (.int 7),
      .object [("p", 2), ("q", 3)], .object [("q", 3), ("p", 2)], .object [("p", 2), ("q", 3)]]
  have first : Node.equal (bench.get 4) (bench.get 5) = true := by decide
  have second : Node.equal (bench.get 5) (bench.get 6) = true := by decide
  exact ⟨by decide, first, symm 4 5 first, trans 4 5 6 first second⟩

end Session

end TreeHandles
