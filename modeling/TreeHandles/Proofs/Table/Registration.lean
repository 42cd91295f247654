import TreeHandles.Proofs.Table.Run
import TreeHandles.Proofs.Tree.Subtrees

/-!
# Registering one node after the other

When nodes are registered one after the other, and nothing else is done, the nodes that are not null
get the next handles in their order.

**Results.**
* `allocations_registrations`: as many handles are issued as there are nodes that are not null.
* `getElem?_nodes_registrations`: which node each of the new handles names.
* `getElem?_nodes_registrations_of_le`: the handles that were issued before name what they named.
* `run_registrations_parts`: builders and the supply of allocations stay.
-/

namespace TreeHandles

namespace Table

open TreeHandles.Tree

/-- To register some nodes, one after the other. -/
def registrations (ns : List Node) : List Operation := ns.map .registerNode

variable {t : Table} {base k : Handle} {ns : List Node}

theorem register_of_null {n : Node} (null : n.isNull = true) : t.register n = (.null, t) :=
  if_pos null

theorem register_of_present {n : Node} (present : n.isNull = false) :
    t.register n =
      (t.last.next, { t with last := t.last.next, nodes := t.nodes.insert t.last.next n }) := by
  simp [register, present]

theorem free_not_mem_registrations (ns : List Node) : .free ∉ registrations ns := by
  simp [registrations]

theorem run_registrations_cons (t : Table) (n : Node) (ns : List Node) :
    t.run (registrations (n :: ns)) = (t.register n).2.run (registrations ns) := rfl

theorem run_registrations_append (t : Table) (ns more : List Node) :
    t.run (registrations (ns ++ more)) = (t.run (registrations ns)).run (registrations more) := by
  rw [registrations, List.map_append, run_append]
  rfl

/-- **Every node that is not null gets a handle.** -/
theorem allocations_registrations (t : Table) (ns : List Node) :
    allocations t (registrations ns) = (present ns).length := by
  induction ns generalizing t with
  | nil => rfl
  | cons n rest ih =>
      have step : allocations t (registrations (n :: rest)) =
          draws t (t.register n).2 + allocations (t.register n).2 (registrations rest) := rfl
      rw [step, ih]
      cases hn : n.isNull with
      | true => simp [register_of_null hn, draws, present, hn]
      | false =>
          simp [register_of_present hn, draws, Handle.next_ne, present, hn, Nat.add_comm]

theorem run_registrations_parts (t : Table) (ns : List Node) :
    (t.run (registrations ns)).builders = t.builders ∧
      (t.run (registrations ns)).supply = t.supply := by
  induction ns generalizing t with
  | nil => exact ⟨rfl, rfl⟩
  | cons n rest ih =>
      rw [run_registrations_cons]
      have after := ih (t.register n).2
      cases hn : n.isNull with
      | true =>
          rw [register_of_null hn] at after ⊢
          exact after
      | false =>
          rw [register_of_present hn] at after ⊢
          exact after

theorem getElem?_nodes_registrations_of_le (room : Room t (registrations ns)) (old : k ≤ t.last) :
    (t.run (registrations ns)).nodes[k]? = t.nodes[k]? := by
  induction ns generalizing t with
  | nil => rfl
  | cons n rest ih =>
      have roomRest : Room (t.register n).2 (registrations rest) := room.tail
      have forward : t.last ≤ (t.register n).2.last := room.last_le_after
      rw [run_registrations_cons, ih roomRest (Nat.le_trans old forward)]
      cases hn : n.isNull with
      | true => rw [register_of_null hn]
      | false =>
          rw [register_of_present hn] at forward ⊢
          have other : t.last.next ≠ k := by
            rintro rfl
            exact absurd (Handle.lt_next_of_le forward) (Nat.not_lt.mpr old)
          exact Handle.getElem?_insert_of_ne _ _ other

/-- **The new handles name the nodes that are not null, in their order.** -/
theorem getElem?_nodes_registrations (sound : Sound base t) (room : Room t (registrations ns))
    (beyond : t.last < k) :
    (t.run (registrations ns)).nodes[k]? =
      (present ns)[k.raw.toNat - t.last.raw.toNat - 1]? := by
  induction ns generalizing t with
  | nil =>
      simp only [present, List.filter_nil, List.getElem?_nil]
      exact sound.nodes_within.getElem?_of_lt beyond
  | cons n rest ih =>
      have roomRest : Room (t.register n).2 (registrations rest) := room.tail
      have forward : t.last ≤ (t.register n).2.last := room.last_le_after
      have soundThen : Sound base (t.register n).2 := sound.after (.registerNode n) forward
      have counted : (t.register n).2.last.raw.toNat =
          t.last.raw.toNat + draws t (t.register n).2 := room.toNat_last_after
      rw [run_registrations_cons]
      cases hn : n.isNull with
      | true =>
          have dropped : present (n :: rest) = present rest := by simp [present, hn]
          rw [register_of_null hn] at soundThen roomRest ⊢
          rw [dropped, ih soundThen roomRest beyond]
      | false =>
          have kept : present (n :: rest) = n :: present rest := by simp [present, hn]
          rw [register_of_present hn] at soundThen roomRest forward ⊢
          have next := Handle.toNat_next_of_le forward
          rw [Handle.lt_iff] at beyond
          by_cases now : k = t.last.next
          · have later := Continues.run soundThen (free_not_mem_registrations rest) roomRest
            have named := later.node (h := k) (n := n) (by
              rw [now]
              exact Handle.getElem?_insert_self ..)
            have first : k.raw.toNat - t.last.raw.toNat - 1 = 0 := by
              rw [now, next]
              omega
            rw [named, kept, first, List.getElem?_cons_zero]
          · have other : k.raw.toNat ≠ t.last.next.raw.toNat := fun he =>
              now (Handle.ext_iff_toNat.mpr he)
            have past : t.last.next < k := by
              rw [Handle.lt_iff]
              omega
            have shifted : k.raw.toNat - t.last.raw.toNat - 1 =
                k.raw.toNat - t.last.next.raw.toNat - 1 + 1 := by
              rw [Handle.lt_iff] at past
              omega
            rw [ih soundThen roomRest past, kept, shifted, List.getElem?_cons_succ]

end Table

end TreeHandles
