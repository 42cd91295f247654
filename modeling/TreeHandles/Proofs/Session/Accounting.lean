import TreeHandles.Proofs.Origin.Identity
import TreeHandles.Proofs.Table.Accounting

/-!
# No handle is leaked or lost

Whatever is called on a session, each handle that a call answers is bound at once, and no other is.
So since the last emptying the answered handles are numbers in a row up to the counter, and each of
them names a node, or a builder that is still open.

**Results.**
* `handles_eq_issued`: the handles in the answers of a run are those that its operations issue.
* `accounted_run`: from an emptied session, a run without emptying keeps all handles accounted for.
* `handles_accounted`: what is bound in every session that is reached, and which calls issue no
  handle.
-/

namespace TreeHandles
namespace Session

variable {s : Shape} {options : Options} {calls more : List AnyCall} {x y z : Session}
  {base : Handle}

/-- The handles that the calls of a run answer, in order.  The null handle is none. -/
def handles : Session → List AnyCall → List Handle
  | _, [] => []
  | x, c :: rest =>
      match x.perform c.2 with
      | .ok (a, y) => [c.1.given a].filter (fun h => !h.isNull) ++ handles y rest
      | .error _ => []

/-- Whether a call empties the session. -/
def Call.isFree : Call s → Bool
  | .free => true
  | _ => false

/-- The calls up to the last emptying; none if there is no emptying. -/
def upToFree (calls : List AnyCall) : List AnyCall :=
  (calls.reverse.dropWhile fun c => !c.2.isFree).reverse

/-- The calls after the last emptying; all if there is no emptying. -/
def sinceFree (calls : List AnyCall) : List AnyCall :=
  (calls.reverse.takeWhile fun c => !c.2.isFree).reverse

section Issuing

theorem given_of_failure {r : Request String s} {a : s.Answer} {e : Error}
    (fails : (r.answer x.options x.table).1 = .error e) (hr : x.request r = .ok (a, y)) :
    s.given a = .null ∧ y.table = x.table := by
  rcases request_cases r hr with ⟨ok, _⟩ | ⟨_, rfl, rfl⟩ | ⟨_, _, _, rfl, rfl⟩
  · rw [fails] at ok
    cases ok
  · exact ⟨s.given_empty, rfl⟩
  · exact ⟨r.given_fallback, rfl⟩

theorem request_valueAt_of_null {h : Handle} {index : Nat} {n : Node}
    (child : (x.table.view h).childAt index = .ok n) (null : n.isNull = true) :
    x.request (.valueAt h index) = .ok (.null, x) := by
  have read : (Request.valueAt h index : Request String _).answer x.options x.table =
      (.ok .null, x.table) := by
    simp only [Request.answer, Table.valueAt, child, Table.register_of_null null, Table.done]
  rw [request_of_ok (congrArg Prod.fst read), read]

theorem request_newArray_of_long {length : Nat} (long : x.options.maxArrayLength.toNat < length) :
    x.request (.newArray length) =
      .ok (.null, x.withError (.arrayTooLarge length x.options.maxArrayLength.toNat)) := by
  have fails : ((Request.newArray length : Request String _).answer x.options x.table).1 =
      .error (.arrayTooLarge length x.options.maxArrayLength.toNat) := by
    simp only [Request.answer, long, if_true]
  rw [request_of_error fails (by simp), record_of_no_violation rfl]
  rfl

/-- A call that does nothing to the table answers no handle. -/
theorem given_of_idle {c : Call s} {a : s.Answer} (hc : x.perform c = .ok (a, y))
    (idle : c.operation? x.options = none) : s.given a = .null := by
  cases c with
  | request r =>
      cases r with
      | loadJson source =>
          simp only [Call.operation?, Request.operation?] at idle
          split at idle
          · cases idle
          · next e unreadable =>
              have fails : ((Request.loadJson source).answer x.options x.table).1 =
                  .error (.invalidInput (.json e)) := by
                simp only [Request.answer, unreadable]
              exact (given_of_failure fails hc).1
      | newArray length =>
          simp only [Call.operation?, Request.operation?] at idle
          split at idle
          · next long =>
              have fails : ((Request.newArray length : Request String _).answer x.options
                  x.table).1 = .error (.arrayTooLarge length x.options.maxArrayLength.toNat) := by
                simp only [Request.answer, long, if_true]
              exact (given_of_failure fails hc).1
          · cases idle
      | valueAt | newObject | newString | newInt | newUint | newFloat | newBool | setValue
      | setKeyValue | build => cases idle
      | _ => rfl
  | register | free => cases idle
  | report | clearError | hasError => rfl

/-- **The handles in the answers of a run are those that its operations issue.** -/
theorem handles_eq_issued (hx : x.run calls = .ok y) :
    handles x calls = Table.issued x.table (operations x.options calls) := by
  induction calls generalizing x with
  | nil => rfl
  | cons c rest ih =>
      obtain ⟨a, w, hc, hx⟩ := run_cons.mp hx
      obtain ⟨table, sameOptions, _⟩ := perform_keeps hc
      have later := ih hx
      rw [sameOptions] at later
      have split : operations x.options (c :: rest) =
          (c.2.operation? x.options).toList ++ operations x.options rest := rfl
      simp only [handles, hc]
      rw [later, split, table]
      cases hop : c.2.operation? x.options with
      | none =>
          rw [given_of_idle hc hop]
          rfl
      | some op =>
          rw [given_perform hc hop]
          rfl

/-- A session binds every handle that it issues. -/
theorem binding_of_operation? {c : Call s} {op : Table.Operation}
    (hop : c.operation? options = some op) : op.Binding := by
  cases c with
  | request r =>
      cases r with
      | loadJson source =>
          simp only [Call.operation?, Request.operation?] at hop
          split at hop
          · cases hop
            trivial
          · cases hop
      | newArray length =>
          simp only [Call.operation?, Request.operation?] at hop
          split at hop
          · cases hop
          · cases hop
            trivial
      | kind | asString | asInt | asUint | asFloat | asBool | size | keyAt | sameAs | toJson =>
          cases hop
      | _ =>
          cases hop
          trivial
  | register | free =>
      cases hop
      trivial
  | report | clearError | hasError => cases hop

end Issuing

section Running

theorem eq_free_of_isFree {c : AnyCall} (frees : c.2.isFree = true) : c = Call.free.toAny := by
  obtain ⟨s, c⟩ := c
  cases c with
  | free => rfl
  | request | register | report | clearError | hasError => cases frees

/-- **From an emptied session, a run without emptying keeps all handles accounted for.** -/
theorem accounted_run (accounted : Table.Accounted base y.table) (sound : Table.Sound base y.table)
    (room : Table.Room y.table (operations y.options calls)) (kept : Call.free.toAny ∉ calls)
    (hx : y.run calls = .ok x) :
    Table.Accounted base x.table ∧ Table.Sound base x.table := by
  have binding : ∀ op ∈ operations y.options calls, op.Binding := by
    intro op member
    obtain ⟨c, _, hop⟩ := List.mem_flatMap.mp member
    exact binding_of_operation? (Option.mem_toList.mp hop)
  have notFreed : .free ∉ operations y.options calls := by
    intro freed
    obtain ⟨c, hc, hop⟩ := List.mem_flatMap.mp freed
    exact kept (eq_free_of_operation? (Option.mem_toList.mp hop) ▸ hc)
  rw [(table_run hx).1]
  exact ⟨accounted.run binding notFreed room, sound.run room⟩

theorem upToFree_append_sinceFree (calls : List AnyCall) :
    upToFree calls ++ sinceFree calls = calls := by
  rw [upToFree, sinceFree, ← List.reverse_append, List.takeWhile_append_dropWhile,
    List.reverse_reverse]

theorem free_not_mem_sinceFree (calls : List AnyCall) : Call.free.toAny ∉ sinceFree calls := by
  intro freed
  have keeps := List.all_takeWhile (p := fun c : AnyCall => !c.2.isFree) (l := calls.reverse)
  exact absurd (List.all_eq_true.mp keeps _ (List.mem_reverse.mp freed)) (by decide)

theorem upToFree_cases (calls : List AnyCall) :
    upToFree calls = [] ∨ ∃ earlier, upToFree calls = earlier ++ [Call.free.toAny] := by
  cases hd : calls.reverse.dropWhile fun c => !c.2.isFree with
  | nil => exact .inl (by rw [upToFree, hd, List.reverse_nil])
  | cons c rest =>
      refine .inr ⟨rest.reverse, ?_⟩
      have stops := List.head?_dropWhile_not (fun c : AnyCall => !c.2.isFree) calls.reverse
      rw [hd] at stops
      have frees : c = Call.free.toAny := eq_free_of_isFree (by simpa using stops)
      rw [upToFree, hd, frees, List.reverse_cons]

/-- A new session, and one that was just emptied, has nothing to account for. -/
theorem accounted_emptied {before : List AnyCall} (hy : (new options).run before = .ok y)
    (start : before = [] ∨ ∃ earlier, before = earlier ++ [Call.free.toAny]) :
    Table.Accounted y.table.last y.table ∧ Table.Sound y.table.last y.table := by
  rcases start with rfl | ⟨earlier, rfl⟩
  · cases hy
    exact ⟨.emptied ⟨0⟩, .empty .null ⟨0⟩⟩
  · obtain ⟨z, _, freed⟩ := run_append.mp hy
    cases freed
    exact ⟨.emptied z.table.supply, .empty z.table.last z.table.supply⟩

end Running

/-- **No handle is leaked or lost.**  In every session that is reached while the numbers last, the
handles that name nodes or builders are those that were answered since the last emptying.  They are
numbered in a row up to the counter, and there are as many as there are nodes and open builders,
because the handle of a builder names a node exactly if the builder is built.  A call that fails, a
reading of a child that is null, a registration of null and an array that is too long issue no
handle. -/
theorem handles_accounted (options : Options) (calls : List AnyCall) (x : Session)
    (hx : (new options).run calls = .ok x)
    (few : allocations (new options) calls < UInt64.size - 1) :
    (∃ y, (new options).run (upToFree calls) = .ok y ∧
      let answered := handles y (sinceFree calls)
      (∀ h, h ∈ x.table.nodes ∨ h ∈ x.table.builders ↔ h ∈ answered) ∧
      answered.map (·.raw.toNat) =
        List.range' (y.table.last.raw.toNat + 1) answered.length ∧
      x.table.last.raw.toNat = y.table.last.raw.toNat + answered.length ∧
      answered.length = x.table.nodeCount + x.table.openHandles.length) ∧
    (∀ h b, x.table.builder? h = some b → (h ∈ x.table.nodes ↔ b.isBuilt = true)) ∧
    (∀ (s : Shape) (r : Request String s) (e : Error) (a : s.Answer) (y : Session),
      (r.answer x.options x.table).1 = .error e → x.perform (.request r) = .ok (a, y) →
      s.given a = .null ∧ y.table = x.table) ∧
    (∀ h index n, (x.table.view h).childAt index = .ok n → n.isNull = true →
      x.perform (.request (.valueAt h index)) = .ok (.null, x)) ∧
    (∀ steps, (Assembly.assemble x.table.node? x.table.supply steps).last.isNull = true →
      ∃ y, x.perform (.register steps) = .ok (.null, y) ∧ y.table.last = x.table.last ∧
        y.table.nodes = x.table.nodes ∧ y.table.builders = x.table.builders) ∧
    (∀ length, x.options.maxArrayLength.toNat < length →
      ∃ y, x.perform (.request (.newArray length)) = .ok (.null, y) ∧ y.table = x.table) := by
  have cut := upToFree_append_sinceFree calls
  have ready := Ready.of_run hx few
  rw [← cut] at hx ready
  obtain ⟨y, hy, hafter⟩ := run_append.mp hx
  have readyThen := ready.run hy
  obtain ⟨accountedFirst, soundFirst⟩ := accounted_emptied hy (upToFree_cases calls)
  obtain ⟨accounted, sound⟩ :=
    accounted_run accountedFirst soundFirst readyThen.room (free_not_mem_sinceFree calls) hafter
  have row := Table.map_toNat_issued readyThen.room
  have counted := readyThen.room.toNat_last_run
  rw [← (table_run hafter).1] at counted
  rw [← handles_eq_issued hafter] at row
  have length : (handles y (sinceFree calls)).length =
      Table.allocations y.table (operations y.options (sinceFree calls)) := by
    rw [← List.length_map (·.raw.toNat), row, List.length_range']
  rw [← length] at row counted
  refine ⟨⟨y, hy, ?_, row, counted, ?_⟩, ?_, ?_, ?_, ?_, ?_⟩
  · intro h
    rw [accounted.named_iff sound]
    rw [Handle.mem_iff_of_row row, Handle.lt_iff, Handle.le_iff]
    omega
  · have balanced := accounted.length_eq sound
    omega
  · intro h b found
    exact accounted.node_iff_built sound (Table.getElem?_of_builder? found)
  · intro s r e a y fails performed
    exact given_of_failure fails performed
  · intro h index n child null
    exact request_valueAt_of_null child null
  · intro steps null
    let supply := (Assembly.assemble x.table.node? x.table.supply steps).supply
    have registered : x.register steps = (.null, { x with table := { x.table with supply } }) := by
      simp only [register, Table.registerAssembly, Table.register_of_null null, supply]
    exact ⟨_, congrArg Except.ok registered, rfl, rfl, rfl⟩
  · intro length long
    exact ⟨_, request_newArray_of_long long, rfl⟩

/-- A run with an emptying: what was bound before is gone, and of the three handles since, one
names an open builder, and two name what was built. -/
theorem handles_accounted_across_free :
    let calls : List AnyCall :=
      [(Call.request (.newInt 7)).toAny, (Call.request (.newArray 0)).toAny, Call.free.toAny,
        (Call.request (.newObject 0)).toAny, (Call.request (.newArray 1)).toAny,
        (Call.request (.setKeyValue ⟨3⟩ "a" ⟨1⟩)).toAny, (Call.request (.build ⟨4⟩)).toAny,
        (Call.request (.valueAt ⟨5⟩ 0)).toAny, (Call.request (.newArray 16777217)).toAny]
    ∃ x, (new {}).run calls = .ok x ∧
      (∀ h, h ∈ x.table.nodes ∨ h ∈ x.table.builders ↔ h ∈ [⟨3⟩, ⟨4⟩, ⟨5⟩]) ∧
      3 = x.table.nodeCount + x.table.openHandles.length ∧
      (⟨4⟩ ∈ x.table.nodes ∧ ⟨3⟩ ∉ x.table.nodes) ∧
      x.perform (.request (.valueAt ⟨5⟩ 0)) = .ok (.null, x) := by
  intro calls
  obtain ⟨x, hx⟩ : ∃ x, (new {}).run calls = .ok x := ⟨_, rfl⟩
  obtain ⟨⟨y, hy, named, _, _, total⟩, built, _, nullChild, _⟩ :=
    handles_accounted {} calls x hx (by decide)
  cases hx
  cases hy
  exact ⟨_, rfl, named, total, ⟨(built ⟨4⟩ _ rfl).mpr rfl, fun names =>
    absurd ((built ⟨3⟩ _ rfl).mp names) (by decide)⟩, nullChild ⟨5⟩ 0 _ rfl rfl⟩

end Session

end TreeHandles
