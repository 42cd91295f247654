import TreeHandles.Proofs.Session.Construction
import TreeHandles.Proofs.Table.Issue
import TreeHandles.Proofs.Table.Memory

/-!
# Sessions that stand

In a session that calls lead to, while the numbers last, the table is sound and one memory holds all
of its nodes.  Neither depends on what happens on a breach of the contract, so that both hold under
either policy.

**Results.**
* `Standing.of_run`: a session that is reached stands, and its counter is the number of allocations.
* `Standing.perform`: a call for which there are numbers keeps a session standing.
* `Standing.node?_request` and `Standing.node?_run`: short of an emptying, nothing takes from a
  handle what it resolves to.
* `node?_eq_none_of_free`: a handle from before an emptying is dead.
* `allocations_append`: the allocations of a run can be counted piece by piece.
* `record_of_no_violation`: an error that breaks no contract is recorded under either policy.
-/

namespace TreeHandles
namespace Session

variable {s : Shape} {options : Options} {calls more : List AnyCall} {x y : Session}

/-- What holds of every session that is reached while the numbers last. -/
structure Standing (x : Session) : Prop where
  sound : Table.Sound .null x.table
  stored : ∃ memory, Table.Stored memory x.table

section Recording

theorem record_of_no_violation {e : Error} (harmless : e.violation? = none) :
    x.record e = .ok { x with errors := { x.errors with last := some e } } := by
  have kept : x.errors.record e = .ok { x.errors with last := some e } := by
    simp [ErrorChannel.record, harmless]
  rw [record, kept]
  rfl

end Recording

section Counting

theorem allocations_append (hx : x.run calls = .ok y) :
    allocations x (calls ++ more) = allocations x calls + allocations y more := by
  induction calls generalizing x with
  | nil =>
      cases hx
      exact (Nat.zero_add _).symm
  | cons c rest ih =>
      obtain ⟨a, w, hc, hx⟩ := run_cons.mp hx
      simp only [List.cons_append, allocations, hc]
      rw [ih hx, Nat.add_assoc]

end Counting

theorem Ready.of_run (hx : (new options).run calls = .ok x)
    (few : allocations (new options) calls < UInt64.size - 1) :
    Ready .null (new options) calls := by
  rw [allocations_eq hx] at few
  exact ⟨.empty .null ⟨0⟩, .of_few few⟩

/-- Only to free a session empties its table. -/
theorem eq_free_of_operation? {c : AnyCall} (hop : c.2.operation? options = some .free) :
    c = Call.free.toAny := by
  obtain ⟨s, c⟩ := c
  cases c with
  | request r => exact absurd rfl (Request.target?_of_operation? hop).1
  | register steps => cases hop
  | free => rfl
  | report e => cases hop
  | clearError => cases hop
  | hasError => cases hop

theorem ne_null_of_node? {h : Handle} {n : Node} (found : x.node? h = some n) : h ≠ .null := by
  rintro rfl
  cases found

namespace Standing

/-- **A session that is reached stands.** -/
theorem of_run (hx : (new options).run calls = .ok x)
    (few : allocations (new options) calls < UInt64.size - 1) :
    x.Standing ∧ x.table.last.raw.toNat = allocations (new options) calls := by
  have ready := Ready.of_run hx few
  have table : x.table = Table.run {} (operations options calls) := (table_run hx).1
  have sound : Table.Sound .null (Table.run {} (operations options calls)) :=
    ready.sound.run ready.room
  have counted : (Table.run {} (operations options calls)).last.raw.toNat =
      0 + Table.allocations {} (operations options calls) := ready.room.toNat_last_run
  have sourced : ∀ op ∈ operations options calls, op.Sourced := fun _ => sourced_of_mem_operations
  obtain ⟨memory, stored⟩ := Table.Stored.empty.run sourced
  rw [← table] at sound stored counted
  refine ⟨⟨sound, _, stored⟩, ?_⟩
  rw [counted, allocations_eq hx, Nat.zero_add]
  rfl

/-- A call keeps a session standing, if the counter does not wrap around. -/
theorem perform (standing : x.Standing) {c : Call s} {a : s.Answer}
    (hc : x.perform c = .ok (a, y)) (forward : x.table.last ≤ y.table.last) : y.Standing := by
  have table := (perform_keeps hc).1
  cases hop : c.operation? x.options with
  | none =>
      rw [hop] at table
      exact ⟨table ▸ standing.sound, table ▸ standing.stored⟩
  | some op =>
      rw [hop] at table
      have same : y.table = x.table.after op := table
      obtain ⟨memory, stored⟩ := standing.stored
      obtain ⟨more, stored⟩ := stored.after (sourced_of_operation? hop)
      rw [same] at forward
      exact ⟨same ▸ standing.sound.after op forward, _, same ▸ stored⟩

section Nodes

variable {h k : Handle} {m n : Node}

theorem distinctKeys (standing : x.Standing) (found : x.node? h = some n) : n.DistinctKeys := by
  obtain ⟨memory, stored⟩ := standing.stored
  exact stored.distinctKeys found

theorem isNull_eq_false (standing : x.Standing) (found : x.node? h = some n) :
    n.isNull = false := standing.sound.node_present (Table.getElem?_of_node? found)

theorem node?_eq (standing : x.Standing) (h : Handle) : x.node? h = x.table.nodes[h]? :=
  standing.sound.node?_eq h

theorem le_last (standing : x.Standing) (found : x.node? h = some n) : h ≤ x.table.last :=
  (standing.sound.nodes_within.range (Table.getElem?_of_node? found)).2

theorem continues (standing : x.Standing) {r : Request String s} {a : s.Answer}
    (hr : x.request r = .ok (a, y)) (forward : x.table.last ≤ y.table.last) :
    Table.Continues x.table y.table := by
  have table : y.table = x.table.run (r.operation? x.options).toList :=
    (perform_keeps (c := .request r) hr).1
  cases hop : r.operation? x.options with
  | none =>
      rw [hop] at table
      exact table ▸ .refl x.table
  | some op =>
      rw [hop] at table
      have same : y.table = x.table.after op := table
      rw [same] at forward ⊢
      exact .change standing.sound
        (x.table.change_apply (Request.target?_of_operation? hop).1) forward

/-- **What a handle resolves to, it resolves to after a request.** -/
theorem node?_request (standing : x.Standing) {r : Request String s} {a : s.Answer}
    (hr : x.request r = .ok (a, y)) (forward : x.table.last ≤ y.table.last)
    (found : x.node? h = some n) : y.node? h = some n := by
  have standingThen : y.Standing := standing.perform (c := .request r) hr forward
  rw [standingThen.node?_eq]
  exact (standing.continues hr forward).node (Table.getElem?_of_node? found)

/-- In a session that stands, identical nodes are equal in depth. -/
theorem eq_of_same (standing : x.Standing) (hm : x.node? h = some m) (hn : x.node? k = some n)
    (same : Node.same m n = true) : m = n := by
  obtain ⟨memory, stored⟩ := standing.stored
  exact Node.eq_of_same (stored.node? hm) (stored.node? hn) same

end Nodes

section Running

variable {base h : Handle} {n : Node}

theorem run (standing : x.Standing) (ready : Ready base x (calls ++ more))
    (hx : x.run calls = .ok y) : y.Standing := by
  induction calls generalizing x with
  | nil =>
      cases hx
      exact standing
  | cons c rest ih =>
      obtain ⟨a, w, hc, hx⟩ := run_cons.mp hx
      obtain ⟨readyThen, forward⟩ := ready.perform hc
      exact ih (standing.perform hc forward) readyThen hx

/-- **What a handle resolves to, it resolves to until the session is emptied.** -/
theorem node?_run (standing : x.Standing) (ready : Ready base x (calls ++ more))
    (hx : x.run calls = .ok y) (kept : Call.free.toAny ∉ calls) (found : x.node? h = some n) :
    y.node? h = some n := by
  have standingThen := standing.run ready hx
  have notFreed : .free ∉ operations x.options calls := by
    intro freed
    obtain ⟨c, hc, hop⟩ := List.mem_flatMap.mp freed
    exact kept (eq_free_of_operation? (Option.mem_toList.mp hop) ▸ hc)
  have room : Table.Room x.table (operations x.options calls ++ operations x.options more) := by
    rw [operations, operations, ← List.flatMap_append]
    exact ready.room
  have continues := Table.Continues.run ready.sound notFreed room.left
  rw [← (table_run hx).1] at continues
  rw [standingThen.node?_eq]
  exact continues.node (Table.getElem?_of_node? found)

end Running

end Standing

section Freeing

variable {base h : Handle} {n : Node} {z : Session} {before rest : List AnyCall}

/-- A handle from before an emptying never resolves again. -/
theorem node?_eq_none_of_free (ready : Ready base x (before ++ Call.free.toAny :: rest))
    (hy : x.run before = .ok y) (hz : x.run (before ++ Call.free.toAny :: rest) = .ok z)
    (old : h ≤ y.table.last) : z.node? h = none := by
  have cut : operations x.options (before ++ Call.free.toAny :: rest) =
      operations x.options before ++ .free :: operations x.options rest := by
    simp [operations, Call.operation?]
  have room : Table.Room x.table
      (operations x.options before ++ .free :: operations x.options rest) := cut ▸ ready.room
  have table := (table_run hz).1
  rw [cut] at table
  rw [(table_run hy).1] at old
  rw [node?, table]
  exact ((Table.sound_after_free room).dead_of_le old).2.2.1

/-- If a handle that was issued resolves at the end of a run, then the run empties nothing. -/
theorem free_not_mem_of_node? (ready : Ready base x calls) (hx : x.run calls = .ok y)
    (old : h ≤ x.table.last) (found : y.node? h = some n) : Call.free.toAny ∉ calls := by
  intro freed
  obtain ⟨before, rest, rfl⟩ := List.append_of_mem freed
  obtain ⟨w, hw, _⟩ := run_append.mp hx
  have room : Table.Room x.table (operations x.options before ++
      operations x.options (Call.free.toAny :: rest)) := by
    rw [operations, operations, ← List.flatMap_append]
    exact ready.room
  have forward := room.left.last_le_run
  rw [← (table_run hw).1] at forward
  rw [node?_eq_none_of_free ready hw hx (Nat.le_trans old forward)] at found
  cases found

end Freeing

end Session

end TreeHandles
