import TreeHandles.Proofs.Session.Run
import TreeHandles.Proofs.Table.Staging

/-!
# What a building produces

Between the opening of a builder and its building a caller can do anything: write to this builder
and to others, fail, read, load, and build others.  Of all that, only the successful writes to this
builder count.

**Results.**
* `getElem?_builders_perform`: a call puts into a builder what it successfully writes to it.
* `getElem?_builders_run`: after a list of calls, a builder is what it was, with all successful
  writes put in.
* `built_as_written`: what an array or an object is built into, after any calls.
-/

namespace TreeHandles

variable {s : Shape}

/-- The handle of the builder that a request works on. -/
def Request.target? {τ : Type} : Request τ s → Option Handle
  | .setValue h _ _ | .setKeyValue h _ _ | .build h => some h
  | _ => none

theorem Request.target?_of_operation? {options : Options} {r : Request String s}
    {op : Table.Operation} (h : r.operation? options = some op) :
    op ≠ .free ∧ op.target? = r.target? := by
  cases r with
  | loadJson source =>
      simp only [operation?] at h
      split at h
      · cases h
        simp [target?, Table.Operation.target?]
      · cases h
  | newArray length =>
      simp only [operation?] at h
      split at h
      · cases h
      · cases h
        simp [target?, Table.Operation.target?]
  | kind | asString | asInt | asUint | asFloat | asBool | size | keyAt | sameAs | toJson => cases h
  | _ =>
      cases h
      simp [target?, Table.Operation.target?]

namespace Session

/-- The handle of the builder that a call works on. -/
def Call.target? : Call s → Option Handle
  | .request r => r.target?
  | _ => none

/-- The place and the node that a call successfully writes to the array of a handle. -/
def slotWrite? (h : Handle) (x : Session) : AnyCall → Option (Nat × Node)
  | ⟨_, .request (.setValue k index c)⟩ => if k = h then x.table.slotWrite? h index c else none
  | _ => none

/-- The key and the node that a call successfully writes to the object of a handle. -/
def keyWrite? (h : Handle) (x : Session) : AnyCall → Option (String × Node)
  | ⟨_, .request (.setKeyValue k key c)⟩ => if k = h then x.table.keyWrite? h key c else none
  | _ => none

/-- The successful writes to the array of a handle along a run, oldest first. -/
def slotWrites (h : Handle) (x : Session) (calls : List AnyCall) : List (Nat × Node) :=
  history (slotWrite? h) x calls

/-- The successful writes to the object of a handle along a run, oldest first. -/
def keyWrites (h : Handle) (x : Session) (calls : List AnyCall) : List (String × Node) :=
  history (keyWrite? h) x calls

variable {x y : Session} {h base : Handle} {b : Builder}

section Calling

variable {c : AnyCall} {rest : List AnyCall}

theorem writes_of_other (other : c.2.target? ≠ some h) :
    slotWrite? h x c = none ∧ keyWrite? h x c = none := by
  obtain ⟨s, c⟩ := c
  cases c with
  | request r =>
      cases r with
      | setValue k index c => exact ⟨if_neg fun he => other (congrArg some he), rfl⟩
      | setKeyValue k key c => exact ⟨rfl, if_neg fun he => other (congrArg some he)⟩
      | _ => exact ⟨rfl, rfl⟩
  | _ => exact ⟨rfl, rfl⟩

theorem eq_of_target? (target : c.2.target? = some h) :
    (∃ index d, c = (Call.request (.setValue h index d)).toAny) ∨
      (∃ key d, c = (Call.request (.setKeyValue h key d)).toAny) ∨
      c = (Call.request (.build h)).toAny := by
  obtain ⟨s, c⟩ := c
  cases c with
  | request r =>
      cases r with
      | setValue k index d =>
          cases target
          exact .inl ⟨index, d, rfl⟩
      | setKeyValue k key d =>
          cases target
          exact .inr (.inl ⟨key, d, rfl⟩)
      | build k =>
          cases target
          exact .inr (.inr rfl)
      | _ => cases target
  | _ => cases target

theorem operation?_of_other {options : Options} {op : Table.Operation}
    (hop : c.2.operation? options = some op) (kept : c ≠ Call.free.toAny)
    (other : c.2.target? ≠ some h) : op ≠ .free ∧ op.target? ≠ some h := by
  obtain ⟨s, c⟩ := c
  cases c with
  | request r =>
      obtain ⟨notFree, same⟩ := Request.target?_of_operation? hop
      exact ⟨notFree, same ▸ other⟩
  | register steps =>
      cases hop
      simp [Table.Operation.target?]
  | free => exact absurd rfl kept
  | report e => cases hop
  | clearError => cases hop
  | hasError => cases hop

theorem getElem?_builders_of_other {a : c.1.Answer} (ready : Ready base x (c :: rest))
    (hc : x.perform c.2 = .ok (a, y)) (kept : c ≠ Call.free.toAny)
    (other : c.2.target? ≠ some h) (found : x.table.builders[h]? = some b) :
    y.table.builders[h]? = some b := by
  obtain ⟨table, _, _⟩ := perform_keeps hc
  have forward := (ready.perform hc).2
  cases hop : c.2.operation? x.options with
  | none =>
      rw [hop] at table
      rw [table]
      exact found
  | some op =>
      obtain ⟨notFree, apart⟩ := operation?_of_other hop kept other
      rw [hop] at table
      rw [table] at forward ⊢
      have issued := (ready.sound.builders_within.range found).2
      exact (Table.getElem?_builders_after_of_other notFree apart issued forward).trans found

/-- A call puts into a builder what it successfully writes to it, and nothing else. -/
theorem getElem?_builders_perform {a : c.1.Answer} (ready : Ready base x (c :: rest))
    (hc : x.perform c.2 = .ok (a, y)) (kept : c ≠ Call.free.toAny)
    (unbuilt : c ≠ (Call.request (.build h)).toAny) (found : x.table.builders[h]? = some b) :
    y.table.builders[h]? =
      some (b.stage (slotWrite? h x c).toList (keyWrite? h x c).toList) := by
  by_cases other : c.2.target? = some h
  · obtain ⟨table, _, _⟩ := perform_keeps hc
    rw [← ready.sound.builder?_eq] at found
    rcases eq_of_target? other with ⟨index, d, rfl⟩ | ⟨key, d, rfl⟩ | rfl
    · have written : slotWrite? h x (Call.request (.setValue h index d)).toAny =
          x.table.slotWrite? h index d := if_pos rfl
      rw [table, written]
      exact Table.getElem?_builders_setValue found index d
    · have written : keyWrite? h x (Call.request (.setKeyValue h key d)).toAny =
          x.table.keyWrite? h key d := if_pos rfl
      rw [table, written]
      exact Table.getElem?_builders_setKeyValue found key d
    · exact absurd rfl unbuilt
  · obtain ⟨noSlot, noKey⟩ := writes_of_other (x := x) other
    rw [noSlot, noKey]
    exact (getElem?_builders_of_other ready hc kept other found).trans
      (congrArg some b.stage_nil.symm)

end Calling

section Running

variable {calls more : List AnyCall}

/-- **A builder after a list of calls.** -/
theorem getElem?_builders_run (ready : Ready base x (calls ++ more)) (hx : x.run calls = .ok y)
    (kept : Call.free.toAny ∉ calls) (unbuilt : (Call.request (.build h)).toAny ∉ calls)
    (found : x.table.builders[h]? = some b) :
    y.table.builders[h]? = some (b.stage (slotWrites h x calls) (keyWrites h x calls)) := by
  induction calls generalizing x b with
  | nil =>
      cases hx
      exact found.trans (congrArg some b.stage_nil.symm)
  | cons c rest ih =>
      obtain ⟨a, w, hc, hx⟩ := run_cons.mp hx
      rw [List.mem_cons, not_or] at kept unbuilt
      have first := getElem?_builders_perform ready hc (Ne.symm kept.1) (Ne.symm unbuilt.1) found
      have later := ih (ready.perform hc).1 hx kept.2 unbuilt.2 first
      rw [later, Builder.stage_stage]
      simp only [slotWrites, keyWrites, history, hc]

/-- The handle that the building of an open builder gives names the node that the builder makes. -/
theorem node?_of_build {r : Handle} {n : Node} {rest : List AnyCall}
    (ready : Ready base x ((Call.request (.build h)).toAny :: rest))
    (found : x.table.builders[h]? = some b) (made : b.finish? x.table.supply = some n)
    (built : x.perform (.request (.build h)) = .ok (r, y)) :
    r ≠ .null ∧ y.node? r = some n := by
  have forward := (ready.perform built).2
  rw [(perform_keeps built).1] at forward
  obtain ⟨ok, issued, named⟩ := Table.node?_build ready.sound found made forward
  have answer : ((Request.build h).answer x.options x.table).1 = .ok x.table.last.next := ok
  rw [perform, request_of_ok answer] at built
  cases built
  exact ⟨issued, named⟩

/-- An open builder that is not built meanwhile is built into a node, whatever else is called. -/
theorem exists_build (report : x.errors.policy = .report)
    (ready : Ready base x (calls ++ [(Call.request (.build h)).toAny]))
    (kept : Call.free.toAny ∉ calls) (unbuilt : (Call.request (.build h)).toAny ∉ calls)
    (found : x.table.builders[h]? = some b) (isOpen : b.isBuilt = false) :
    ∃ y r z n, x.run calls = .ok y ∧ y.perform (.request (.build h)) = .ok (r, z) ∧
      r ≠ .null ∧ z.node? r = some n ∧
      (b.stage (slotWrites h x calls) (keyWrites h x calls)).finish? y.table.supply = some n := by
  obtain ⟨y, hy⟩ := exists_run report calls
  have foundThen := getElem?_builders_run ready hy kept unbuilt found
  obtain ⟨n, made⟩ := Builder.exists_finish?
    ((b.isBuilt_stage (slotWrites h x calls) (keyWrites h x calls)).trans isOpen) y.table.supply
  have reportThen : y.errors.policy = .report := (table_run hy).2.2.trans report
  obtain ⟨r, z, built⟩ := exists_perform reportThen (Call.request (.build h))
  obtain ⟨issued, named⟩ := node?_of_build (ready.run hy) foundThen made built
  exact ⟨y, r, z, n, hy, built, issued, named, made⟩

end Running

section Opening

variable {t : Handle}

theorem builder_of_newArray {n : Nat} (opened : x.perform (.request (.newArray n)) = .ok (t, y))
    (handle : t ≠ .null) : y.table.builders[t]? = some (.array (List.replicate n .null)) := by
  rcases request_cases _ opened with ⟨ok, rfl⟩ | ⟨_, rfl, _⟩ | ⟨e, _, _, rfl, _⟩
  · simp only [Request.answer] at ok ⊢
    split at ok
    · cases ok
    · next fits =>
        cases ok
        rw [if_neg fits]
        exact Handle.getElem?_insert_self ..
  · exact absurd rfl handle
  · exact absurd rfl handle

theorem builder_of_newObject {hint : Nat}
    (opened : x.perform (.request (.newObject hint)) = .ok (t, y)) :
    y.table.builders[t]? = some (.object []) := by
  cases opened
  exact Handle.getElem?_insert_self ..

end Opening

/-- **What a building produces.**  In every session that is reached under the policy that reports,
a builder that is opened can be called with anything, together with any other calls, short of
freeing and of building it.  Then building it gives a handle.  The handle of an array names the
array of the declared length in which every place holds what the last successful write to it put
there, and null if there was none; the handle of an object names the object of the keys that were
successfully written, in the order of their first writes, each with what the last write bound. -/
theorem built_as_written (options : Options) (report : options.violationPolicy = .report)
    (before : List AnyCall) :
    ∃ x, (new options).run before = .ok x ∧
      (∀ n t y, x.perform (.request (.newArray n)) = .ok (t, y) → t ≠ .null →
        ∀ after, Call.free.toAny ∉ after → (Call.request (.build t)).toAny ∉ after →
          allocations (new options) (before ++ (Call.request (.newArray n)).toAny :: after ++
            [(Call.request (.build t)).toAny]) < UInt64.size - 1 →
          let writes := slotWrites t y after
          ∃ z b w allocation, y.run after = .ok z ∧
            z.perform (.request (.build t)) = .ok (b, w) ∧ b ≠ .null ∧
            w.node? b = some (.array allocation
              ((List.range n).map fun i => (writes.reverse.lookup i).getD .null))) ∧
      (∀ hint t y, x.perform (.request (.newObject hint)) = .ok (t, y) →
        ∀ after, Call.free.toAny ∉ after → (Call.request (.build t)).toAny ∉ after →
          allocations (new options) (before ++ (Call.request (.newObject hint)).toAny :: after ++
            [(Call.request (.build t)).toAny]) < UInt64.size - 1 →
          let writes := keyWrites t y after
          ∃ z b w allocation, y.run after = .ok z ∧
            z.perform (.request (.build t)) = .ok (b, w) ∧ b ≠ .null ∧
            w.node? b = some (.object allocation
              ((Entries.keys writes).eraseDups.map fun k =>
                (k, (writes.reverse.lookup k).getD .null)))) := by
  obtain ⟨x, hx⟩ : ∃ x, (new options).run before = .ok x := exists_run report before
  have reportThen : x.errors.policy = .report := (table_run hx).2.2.trans report
  refine ⟨x, hx, ?_, ?_⟩
  · intro n t y opened handle after kept unbuilt few writes
    rw [List.append_assoc] at few
    have ready := ((Ready.of_few report few).run hx).perform opened
    have found := builder_of_newArray opened handle
    have reportOpened := (perform_keeps opened).2.2.trans reportThen
    obtain ⟨z, b, w, node, hz, built, issued, named, made⟩ :=
      exists_build reportOpened ready.1 kept unbuilt found rfl
    cases made
    rw [setPlaces_replicate] at named
    exact ⟨z, b, w, _, hz, built, issued, named⟩
  · intro hint t y opened after kept unbuilt few writes
    rw [List.append_assoc] at few
    have ready := ((Ready.of_few report few).run hx).perform opened
    have found := builder_of_newObject opened
    have reportOpened := (perform_keeps opened).2.2.trans reportThen
    obtain ⟨z, b, w, node, hz, built, issued, named, made⟩ :=
      exists_build reportOpened ready.1 kept unbuilt found rfl
    cases made
    rw [← Entries.ofWrites, Entries.ofWrites_eq .null] at named
    exact ⟨z, b, w, _, hz, built, issued, named⟩

/-- An array and an object, each filled while the next builder is open, with refused writes between
the others. -/
theorem built_as_written_among_refusals :
    let seven : Node := .leaf (.int 7)
    let before : List AnyCall := [(Call.request (.newInt 7)).toAny]
    let places : List AnyCall :=
      [(Call.request (.newObject 0)).toAny, (Call.request (.setValue ⟨2⟩ 1 ⟨3⟩)).toAny,
        (Call.request (.setValue ⟨2⟩ 0 ⟨1⟩)).toAny, (Call.request (.setKeyValue ⟨3⟩ "a" ⟨1⟩)).toAny,
        (Call.request (.setValue ⟨2⟩ 2 ⟨1⟩)).toAny, (Call.request (.setValue ⟨2⟩ 1 ⟨1⟩)).toAny,
        (Call.request (.setValue ⟨2⟩ 0 .null)).toAny]
    let keys : List AnyCall :=
      [(Call.request (.newArray 1)).toAny, (Call.request (.setKeyValue ⟨2⟩ "b" ⟨1⟩)).toAny,
        (Call.request (.setValue ⟨2⟩ 0 ⟨1⟩)).toAny, (Call.request (.setKeyValue ⟨2⟩ "a" ⟨1⟩)).toAny,
        (Call.request (.setKeyValue ⟨2⟩ "c" ⟨3⟩)).toAny,
        (Call.request (.setKeyValue ⟨2⟩ "b" .null)).toAny]
    ∃ x, (new {}).run before = .ok x ∧
      (∃ y z b w allocation, x.perform (.request (.newArray 2)) = .ok (⟨2⟩, y) ∧
        y.run places = .ok z ∧ z.perform (.request (.build ⟨2⟩)) = .ok (b, w) ∧
        w.node? b = some (.array allocation [.null, seven])) ∧
      ∃ y z b w allocation, x.perform (.request (.newObject 0)) = .ok (⟨2⟩, y) ∧
        y.run keys = .ok z ∧ z.perform (.request (.build ⟨2⟩)) = .ok (b, w) ∧
        w.node? b = some (.object allocation [("b", .null), ("a", seven)]) := by
  intro seven before places keys
  obtain ⟨x, hx, arrays, objects⟩ := built_as_written {} rfl before
  cases hx
  obtain ⟨z, b, w, allocation, hz, built, _, named⟩ :=
    arrays 2 ⟨2⟩ _ rfl (by decide) places (by simp [places]) (by simp [places]) (by decide)
  obtain ⟨u, c, v, allocation', hu, builtToo, _, namedToo⟩ :=
    objects 0 ⟨2⟩ _ rfl keys (by simp [keys]) (by simp [keys]) (by decide)
  exact ⟨_, rfl, ⟨_, z, b, w, allocation, rfl, hz, built, named⟩,
    ⟨_, u, c, v, allocation', rfl, hu, builtToo, namedToo⟩⟩

end Session

end TreeHandles
