import TreeHandles.Proofs.Session.Adding
import TreeHandles.Proofs.Session.Identity

/-!
# Nodes that are shared

No node is copied on its way through a session.  A child that is read twice is one node under two
handles.  What is read back from a parent that was built is the node that was written, if nothing
was written to its place later.  A node that the host registers again is the same node under another
handle.

**Results.**
* `at?_put`, `at?_stage` and `at?_of_finish?`: what stands at a place of a builder and of its node.
* `sameAs_valueAt_twice`: reading a child twice.
* `sameAs_valueAt_written`: reading back what was written.
* `sameAs_register_clone`: registering again.
-/

namespace TreeHandles

open TreeHandles.Tree

section Places

variable {α : Type}

/-- The child at a place. -/
def Tree.at? : Tree α → Place → Option (Tree α)
  | .array _ items, .index index => items[index]?
  | .object _ entries, .key key => Entries.find? key entries
  | _, _ => none

namespace Builder

/-- What a builder holds in a place. -/
def at? : Builder → Place → Option Node
  | array slots, .index index => slots[index]?
  | object entries, .key key => Entries.find? key entries
  | _, _ => none

variable {b d : Builder} {n m : Node} {place : Place}

theorem at?_put (written : b.put n place = .ok d) : d.at? place = some n := by
  cases place with
  | index index =>
      obtain ⟨slots, rfl, inside, rfl⟩ := exists_of_write written
      exact List.getElem?_set_self inside
  | key key =>
      obtain ⟨entries, rfl, rfl⟩ := exists_of_bind written
      exact (Entries.find?_insert key key n entries).trans (if_pos rfl)

theorem lookup_of_not_mem {κ ν : Type} [BEq κ] [LawfulBEq κ] {k : κ} {writes : List (κ × ν)}
    (other : k ∉ writes.map Prod.fst) : writes.reverse.lookup k = none := by
  rw [List.lookup_eq_none_iff]
  rintro ⟨j, v⟩ hw
  rw [List.mem_reverse] at hw
  rw [bne_iff_ne]
  rintro rfl
  exact other (List.mem_map_of_mem hw)

/-- Writes to other places leave what stands at a place. -/
theorem at?_stage {places : List (Nat × Node)} {bindings : List (String × Node)}
    (apart : place ∉ places.map (fun w => .index w.1) ++ bindings.map fun w => .key w.1)
    (here : b.at? place = some m) : (b.stage places bindings).at? place = some m := by
  rw [List.mem_append, not_or] at apart
  cases b with
  | built mode => cases here
  | array slots =>
      cases place with
      | key key => cases here
      | index index =>
          have inside := (List.getElem?_eq_some_iff.mp here).1
          have untouched : index ∉ places.map Prod.fst := fun hm => by
            obtain ⟨w, hw, rfl⟩ := List.mem_map.mp hm
            exact apart.1 (List.mem_map.mpr ⟨w, hw, rfl⟩)
          show (setPlaces slots places)[index]? = some m
          rw [getElem?_setPlaces _ _ inside, lookup_of_not_mem untouched]
          exact here
  | object entries =>
      cases place with
      | index index => cases here
      | key key =>
          have untouched : key ∉ bindings.map Prod.fst := fun hm => by
            obtain ⟨w, hw, rfl⟩ := List.mem_map.mp hm
            exact apart.2 (List.mem_map.mpr ⟨w, hw, rfl⟩)
          show Entries.find? key (bindings.foldl _ entries) = some m
          rw [Entries.find?_foldl Entries.find?_insert, lookup_of_not_mem untouched]
          exact here

theorem at?_of_finish? {supply : Allocation} (made : b.finish? supply = some n) :
    n.at? place = b.at? place := by
  cases b with
  | built mode => cases made
  | array slots =>
      cases made
      cases place <;> rfl
  | object entries =>
      cases made
      cases place <;> rfl

theorem isBuilt_of_at? (here : b.at? place = some m) : b.isBuilt = false := by
  cases b with
  | built mode => cases here
  | array slots => rfl
  | object entries => rfl

end Builder

end Places

namespace Session

variable {x y z w v u : Session} {a b c d h r t : Handle} {n m : Node} {index : Nat}
  {place : Place} {between after : List AnyCall}

/-- The places of a builder to which a run of calls writes with success. -/
def placesWritten (h : Handle) (x : Session) (calls : List AnyCall) : List Place :=
  (slotWrites h x calls).map (fun w => .index w.1) ++ (keyWrites h x calls).map fun w => .key w.1

/-- A child is enumerated at an index: that of its place in an array, or where its key is found. -/
def EnumeratedAt (x : Session) (h : Handle) (index : Nat) : Place → Prop
  | .index i => index = i
  | .key key => x.perform (.request (.keyAt h index)) = .ok (some key, x)

section Children

theorem keyAt_of_perform {key : String}
    (told : x.perform (.request (.keyAt h index)) = .ok (some key, y)) :
    (x.table.view h).keyAt index = .ok key := by
  rcases request_cases _ told with ⟨ok, _⟩ | ⟨_, none, _⟩ | ⟨e, _, _, none, _⟩
  · obtain ⟨k, hk, same⟩ := exists_of_map_eq_ok ok
    cases same
    exact hk
  · cases none
  · cases none

theorem inOrder_of_at? (standing : x.Standing) (found : x.node? h = some n)
    (here : n.at? place = some m) (enumerated : x.EnumeratedAt h index place) :
    n.inOrder[index]? = some m := by
  cases n with
  | leaf s => cases here
  | array label items =>
      cases place with
      | key key => cases here
      | index i =>
          cases enumerated
          exact here
  | object label entries =>
      cases place with
      | index i => cases here
      | key key =>
          have distinct : (Entries.keys entries).Nodup := (standing.distinctKeys found).root
          have told := keyAt_of_perform enumerated
          rw [View.keyAt_object (v := x.table.view h) found] at told
          rw [inOrder, List.getElem?_map]
          cases he : (Entries.sorted entries)[index]? with
          | none =>
              rw [he] at told
              cases told
          | some e =>
              rw [he] at told
              cases told
              have inside := (Entries.sorted_perm distinct).mem_iff.mp (List.mem_of_getElem? he)
              exact ((Entries.find?_eq_some_iff_mem distinct).mpr inside).symm.trans here

/-- Reading a child that is there gives a handle for it, or the null handle for null. -/
theorem node?_of_valueAt (standing : x.Standing) (found : x.node? h = some n)
    (here : n.inOrder[index]? = some m) (standingThen : y.Standing)
    (read : x.perform (.request (.valueAt h index)) = .ok (c, y)) :
    (m.isNull = false ∧ c = x.table.last.next ∧ y.node? c = some m) ∨
      (m.isNull = true ∧ c = .null) := by
  have child : (x.table.view h).childAt index = .ok m :=
    (View.childAt_eq_ok_iff (v := x.table.view h) found (standing.distinctKeys found).root).mpr here
  rcases valueAt_cases read with ⟨k, hk, present, issued, named⟩ | ⟨absent, none, _⟩
  · cases child.symm.trans hk
    exact .inl ⟨present, issued, (standingThen.node?_eq c).trans named⟩
  · exact .inr ⟨absent m child, none⟩

/-- **A child that is read twice is one node under two handles.** -/
theorem sameAs_valueAt_twice (standing : x.Standing)
    (ready : Ready .null x ((Call.request (.valueAt a index)).toAny :: between ++
      [(Call.request (.valueAt b index)).toAny]))
    (same : x.SameAs a b) (first : x.perform (.request (.valueAt a index)) = .ok (c, y))
    (meanwhile : y.run between = .ok w) (kept : Call.free.toAny ∉ between)
    (second : w.perform (.request (.valueAt b index)) = .ok (d, z)) (issued : c ≠ .null) :
    d ≠ .null ∧ c ≠ d ∧ z.SameAs c d := by
  obtain ⟨readyThen, forward⟩ := ready.perform first
  have standingThen : y.Standing := standing.perform first forward
  have standingMid : w.Standing := standingThen.run readyThen meanwhile
  have readyMid := readyThen.run meanwhile
  have forwardLast := (readyMid.perform second).2
  have standingLast : z.Standing := standingMid.perform second forwardLast
  rw [sameAs_iff standing] at same
  rcases valueAt_cases first with ⟨m, hm, present, _, named⟩ | ⟨_, none, _⟩
  · rw [← standingThen.node?_eq] at named
    cases ha : x.node? a with
    | none => cases (View.childAt_of_none (v := x.table.view a) ha).symm.trans hm
    | some n =>
        have here : n.inOrder[index]? = some m :=
          (View.childAt_eq_ok_iff (v := x.table.view a) ha (standing.distinctKeys ha).root).mp hm
        have parent : y.node? b = some n := standing.node?_request first forward (same ▸ ha)
        have parentThen := standingThen.node?_run readyThen meanwhile kept parent
        have childThen := standingThen.node?_run readyThen meanwhile kept named
        rcases node?_of_valueAt standingMid parentThen here standingLast second with
          ⟨_, rfl, again⟩ | ⟨absent, _⟩
        · have issuedThen := ne_null_of_node? again
          refine ⟨issuedThen, ?_, ?_⟩
          · rintro rfl
            exact issuedThen (Handle.next_eq_null_of_le (standingMid.le_last childThen))
          · rw [sameAs_iff standingLast, standingMid.node?_request second forwardLast childThen, again]
        · rw [present] at absent
          cases absent
  · exact absurd none issued

/-- What it takes for a write into a builder to be carried out. -/
theorem putting_of_ok (performed : x.perform (.request (putting t c place)) = .ok ((), y))
    (written : ((putting t c place).answer x.options x.table).1 = .ok ()) :
    ∃ (m : Node) (b d : Builder), x.table.child c = .ok m ∧ b.put m place = .ok d ∧
      y.table.builders[t]? = some d := by
  have table : y.table = ((putting t c place).answer x.options x.table).2 := by
    rw [perform, request_of_ok written] at performed
    cases performed
    rfl
  rw [table]
  have cases : ∀ change : Builder → Node → Except Violation Builder,
      (∀ b m, change b m = b.put m place) → (x.table.modify t c change).1 = .ok () →
      ∃ (m : Node) (b d : Builder), x.table.child c = .ok m ∧ b.put m place = .ok d ∧
        (x.table.modify t c change).2.builders[t]? = some d := by
    intro change same ok
    rcases x.table.modify_effect t c change with ⟨e, he⟩ | ⟨m, b, d, hm, _, hd, he⟩
    · rw [he] at ok
      cases ok
    · rw [he]
      exact ⟨m, b, d, hm, (same b m).symm.trans hd, Handle.getElem?_insert_self ..⟩
  cases place with
  | index index => exact cases _ (fun _ _ => rfl) written
  | key key => exact cases _ (fun _ _ => rfl) written

/-- What stands in a place of an open builder stands there in the node that is built, if nothing is
written to the place meanwhile. -/
theorem at?_of_build {new : Builder} {rest : List AnyCall}
    (ready : Ready .null y (between ++ (Call.request (.build t)).toAny :: rest))
    (meanwhile : y.run between = .ok z) (kept : Call.free.toAny ∉ between)
    (unbuilt : (Call.request (.build t)).toAny ∉ between) (last : place ∉ placesWritten t y between)
    (staged : y.table.builders[t]? = some new) (here : new.at? place = some m)
    (built : z.perform (.request (.build t)) = .ok (b, w)) :
    ∃ n, w.node? b = some n ∧ n.at? place = some m := by
  have stagedThen := getElem?_builders_run ready meanwhile kept unbuilt staged
  have hereThen := Builder.at?_stage last here
  obtain ⟨n, made⟩ := Builder.exists_finish? (Builder.isBuilt_of_at? hereThen) z.table.supply
  have named := (node?_of_build (ready.run meanwhile) stagedThen made built).2
  exact ⟨n, named, (Builder.at?_of_finish? made).trans hereThen⟩

/-- **What is read back from a built parent is what was written.** -/
theorem sameAs_valueAt_written (standing : x.Standing)
    (ready : Ready .null x ((Call.request (putting t c place)).toAny :: (between ++
      (Call.request (.build t)).toAny :: (after ++ [(Call.request (.valueAt a index)).toAny]))))
    (performed : x.perform (.request (putting t c place)) = .ok ((), y))
    (written : ((putting t c place).answer x.options x.table).1 = .ok ())
    (meanwhile : y.run between = .ok z) (kept : Call.free.toAny ∉ between)
    (unbuilt : (Call.request (.build t)).toAny ∉ between) (last : place ∉ placesWritten t y between)
    (built : z.perform (.request (.build t)) = .ok (b, w))
    (later : w.run after = .ok v) (keptLater : Call.free.toAny ∉ after)
    (same : v.SameAs a b) (enumerated : v.EnumeratedAt a index place)
    (read : v.perform (.request (.valueAt a index)) = .ok (d, u)) :
    u.SameAs c d ∧ (d = .null ↔ c = .null) := by
  obtain ⟨readyThen, forward⟩ := ready.perform performed
  have standingThen : y.Standing := standing.perform performed forward
  have standingMid : z.Standing := standingThen.run readyThen meanwhile
  have readyMid := readyThen.run meanwhile
  obtain ⟨readyBuilt, forwardBuilt⟩ := readyMid.perform built
  have standingBuilt : w.Standing := standingMid.perform built forwardBuilt
  have standingLater : v.Standing := standingBuilt.run readyBuilt later
  have forwardLast := ((readyBuilt.run later).perform read).2
  have standingLast : u.Standing := standingLater.perform read forwardLast
  obtain ⟨m, old, new, child, put, staged⟩ := putting_of_ok performed written
  obtain ⟨n, parent, here⟩ := at?_of_build readyThen meanwhile kept unbuilt last staged
    (Builder.at?_put put) built
  have parentLater := standingBuilt.node?_run readyBuilt later keptLater parent
  have parentShown : v.node? a = some n := ((sameAs_iff standingLater).mp same).trans parentLater
  have shown := inOrder_of_at? standingLater parentShown here enumerated
  rw [sameAs_iff standingLast]
  by_cases null : c = .null
  · subst null
    cases child
    rcases node?_of_valueAt standingLater parentShown shown standingLast read with
      ⟨present, _⟩ | ⟨_, rfl⟩
    · cases present
    · exact ⟨rfl, Iff.rfl⟩
  · have named : x.node? c = some m := node?_of_child child null
    have namedThen : y.node? c = some m := standing.node?_request performed forward named
    have namedMid := standingThen.node?_run readyThen meanwhile kept namedThen
    have namedBuilt := standingMid.node?_request built forwardBuilt namedMid
    have namedLater := standingBuilt.node?_run readyBuilt later keptLater namedBuilt
    have namedLast := standingLater.node?_request read forwardLast namedLater
    rcases node?_of_valueAt standingLater parentShown shown standingLast read with
      ⟨_, _, again⟩ | ⟨absent, _⟩
    · refine ⟨namedLast.trans again.symm, ?_⟩
      simp [null, ne_null_of_node? again]
    · rw [standing.isNull_eq_false named] at absent
      cases absent

/-- **A node that is registered again is shared.** -/
theorem sameAs_register_clone (standing : x.Standing) (found : x.node? h = some n)
    (performed : x.perform (.register [.clone h]) = .ok (r, y))
    (forward : x.table.last ≤ y.table.last) : r ≠ h ∧ y.SameAs h r := by
  have standingThen : y.Standing := standing.perform performed forward
  have resolved : x.table.node? h = some n := found
  have registered : x.table.registerAssembly [.clone h] = x.table.register n := by
    simp [Table.registerAssembly, Assembly.assemble, Assembly.step, Assembly.Bench.last, resolved]
  have present : n.isNull = false := standing.isNull_eq_false found
  have outcome : x.register [.clone h] = (r, y) := Except.ok.inj performed
  rw [register, registered, Table.register_of_present present] at outcome
  cases outcome
  have other : x.table.last.next ≠ h := Handle.next_ne_of_le forward (standing.le_last found)
  refine ⟨other, ?_⟩
  rw [sameAs_iff standingThen, standingThen.node?_eq, standingThen.node?_eq]
  show (x.table.nodes.insert x.table.last.next n)[h]? =
    (x.table.nodes.insert x.table.last.next n)[x.table.last.next]?
  rw [Handle.getElem?_insert_of_ne _ _ other, Handle.getElem?_insert_self]
  exact Table.getElem?_of_node? found

end Children

end Session

end TreeHandles
