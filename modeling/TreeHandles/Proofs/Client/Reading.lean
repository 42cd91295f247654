import TreeHandles.Proofs.Client
import TreeHandles.Proofs.Session.Standing
import TreeHandles.Proofs.Table.Registration
import TreeHandles.Proofs.Tree.KeyOrder

/-!
# Reading whole trees

A caller who holds a handle can read the tree behind it: ask for the kind, then for the payload of a
scalar, or for the children of a composite one after the other, each through a handle of its own.
Every step issues handles in the table that the remaining steps work on, but the handle of the parent
still names the parent, so that nothing is lost.  The children of an object come in the order of its
keys.

**Results.**
* `run_mapM_parts`: visiting the parts of a composite one after the other registers the nodes that the
  visits register.
* `reads_node`: what reading a node in which no key stands twice gives, and what it does.
* `read_in_full`: every node of a session that is reached is read in full, and nothing else changes
  than that each tree inside it gets a handle.
-/

namespace TreeHandles

namespace Session

/-- The session after some nodes were registered, one after the other. -/
def registering (x : Session) (ns : List Node) : Session :=
  { x with table := x.table.run (Table.registrations ns) }

variable {x : Session} {h : Handle} {n : Node} {ns : List Node}

theorem registering_append (x : Session) (ns more : List Node) :
    x.registering (ns ++ more) = (x.registering ns).registering more := by
  rw [registering, Table.run_registrations_append]
  rfl

end Session

namespace Client

open TreeHandles.Tree

/-- Reads the tree that a handle names, through the handles of its parts.  The time bounds how deep
the client goes. -/
def read : Nat → Handle → Client Document
  | 0, _ => throw .exhausted
  | time + 1, h =>
      if h.isNull then pure .null
      else do
        match ← ask (.request (.kind h)) with
        | .null => pure .null
        | .string => return .leaf (.string ((← ask (.request (.asString h))).getD ""))
        | .int => return .leaf (.int (← ask (.request (.asInt h))))
        | .uint => return .leaf (.uint (← ask (.request (.asUint h))))
        | .float => return .leaf (.float (← ask (.request (.asFloat h))))
        | .bool => return .leaf (.bool (← ask (.request (.asBool h))))
        | .array =>
            let size ← ask (.request (.size h))
            let items ← (List.range size).mapM fun index => do
              read time (← ask (.request (.valueAt h index)))
            return .array () items
        | .object =>
            let size ← ask (.request (.size h))
            let entries ← (List.range size).mapM fun index => do
              let key ← ask (.request (.keyAt h index))
              let child ← ask (.request (.valueAt h index))
              return (key.getD "", ← read time child)
            return .object () entries

variable {x y : Session} {h : Handle} {n c : Node} {time : Nat}

/-- What a client needs to read a node through a handle: the handle names the node, and there are
numbers for the handles that the reading takes. -/
structure Readable (x : Session) (h : Handle) (n : Node) (cost : Nat) : Prop where
  sound : Table.Sound .null x.table
  node : x.node? h = some n
  room : x.table.last.raw.toNat + cost < UInt64.size

namespace Readable

variable {cost less : Nat} {ns : List Node}

theorem mono (readable : Readable x h n cost) (le : less ≤ cost) : Readable x h n less :=
  ⟨readable.sound, readable.node, Nat.lt_of_le_of_lt (Nat.add_le_add_left le _) readable.room⟩

theorem ne_null (readable : Readable x h n cost) : h ≠ .null := by
  rintro rfl
  cases readable.node

theorem roomFor (readable : Readable x h n cost) (le : (present ns).length ≤ cost) :
    Table.Room x.table (Table.registrations ns) := by
  have room := (readable.mono le).room
  rwa [← Table.allocations_registrations x.table ns] at room

/-- What was readable is so after some nodes were registered, with as many numbers less. -/
theorem registering (readable : Readable x h n cost) (fits : (present ns).length + less ≤ cost) :
    Readable (x.registering ns) h n less := by
  have room : Table.Room x.table (Table.registrations ns) := readable.roomFor (by omega)
  have sound := readable.sound.run room
  have counted := room.toNat_last_run
  have kept := Table.Continues.run readable.sound (Table.free_not_mem_registrations ns) room
  refine ⟨sound, ?_, ?_⟩
  · rw [Session.node?, Session.registering, sound.node?_eq]
    exact kept.node (Table.getElem?_of_node? readable.node)
  · have enough := readable.room
    rw [Table.allocations_registrations] at counted
    rw [Session.registering, counted]
    omega

/-- A node that is registered can be read through the handle that it got. -/
theorem registered (readable : Readable x h n cost) (here : c.isNull = false)
    (fits : 1 + less ≤ cost) :
    Readable (x.registering [c]) (x.table.register c).1 c less := by
  have single : (present [c]).length = 1 := by simp [present, here]
  have after : Readable (x.registering [c]) h n less := readable.registering (by omega)
  refine ⟨after.sound, ?_, after.room⟩
  rw [Session.node?, after.sound.node?_eq, Table.register_of_present here]
  show ((x.table.register c).2).nodes[x.table.last.next]? = some c
  rw [Table.register_of_present here]
  exact Handle.getElem?_insert_self ..

end Readable

section Steps

variable {cost index : Nat}

theorem ask_kind (found : x.node? h = some n) : ask (.request (.kind h)) x = .ok (n.kind, x) :=
  ask_of_answer (by simp [Request.answer, View.kind, Table.view, show x.table.node? h = _ from found])

theorem ask_size (found : x.node? h = some n) : ask (.request (.size h)) x = .ok (n.size, x) :=
  ask_of_answer (by simp [Request.answer, View.size, Table.view, show x.table.node? h = _ from found])

theorem ask_valueAt (found : (x.table.view h).childAt index = .ok c) :
    ask (.request (.valueAt h index)) x = .ok ((x.table.register c).1, x.registering [c]) := by
  apply ask_of_ok
  have answer : (Request.valueAt h index).answer x.options x.table =
      Table.done (x.table.register c) := by
    simp only [Request.answer, Table.valueAt, found]
  show x.request _ = _
  rw [Session.request_of_ok (a := (x.table.register c).1) (by rw [answer]; rfl), answer]
  rfl

theorem ask_keyAt {label : Allocation} {entries : List (String × Node)} {e : String × Node}
    (found : x.node? h = some (.object label entries))
    (here : (Entries.sorted entries)[index]? = some e) :
    ask (.request (.keyAt h index)) x = .ok (some e.1, x) := by
  apply ask_of_answer
  have shown : (x.table.view h).node? = some (.object label entries) := found
  simp only [Request.answer, View.keyAt_object shown, here]
  rfl

theorem payload_of_leaf {s : Scalar} {p : Payload} {a : p.Carrier}
    (found : x.node? h = some (.leaf s)) (carried : s.as? p = some a) :
    (x.table.view h).payload p = .ok a := View.payload_eq_ok_iff.mpr ⟨s, found, carried⟩

end Steps

section Whole

/-- Within a time, the client reads a node in full through any handle of it, and registers exactly
the trees at its other positions. -/
def Reads (time : Nat) (n : Node) : Prop :=
  ∀ x h, Readable x h n (present n.subtrees.tail).length →
    ∃ ns, ns.Perm n.subtrees.tail ∧
      read time h x = .ok (n.contents.inKeyOrder, x.registering ns)

theorem reads_leaf (time : Nat) (s : Scalar) : Reads (time + 1) (leaf s) := by
  intro x h readable
  refine ⟨[], .refl _, ?_⟩
  have issued : ¬ h.isNull = true := by simpa [Handle.isNull] using readable.ne_null
  have found := readable.node
  rw [read, if_neg issued, run_bind_of_ok (ask_kind found)]
  cases s with
  | null => cases readable.sound.node_present (Table.getElem?_of_node? found)
  | string s =>
      have payload := payload_of_leaf (p := .string) found rfl
      have asked : ask (.request (.asString h)) x = .ok (some s, x) :=
        ask_of_answer (by simp only [Request.answer, payload]; rfl)
      exact (run_bind_of_ok asked _).trans rfl
  | int i =>
      have payload := payload_of_leaf (p := .int) found rfl
      have asked : ask (.request (.asInt h)) x = .ok (i, x) :=
        ask_of_answer (by simp only [Request.answer, payload])
      exact (run_bind_of_ok asked _).trans rfl
  | uint u =>
      have payload := payload_of_leaf (p := .uint) found rfl
      have asked : ask (.request (.asUint h)) x = .ok (u, x) :=
        ask_of_answer (by simp only [Request.answer, payload])
      exact (run_bind_of_ok asked _).trans rfl
  | float f =>
      have payload := payload_of_leaf (p := .float) found rfl
      have asked : ask (.request (.asFloat h)) x = .ok (f, x) :=
        ask_of_answer (by simp only [Request.answer, payload])
      exact (run_bind_of_ok asked _).trans rfl
  | bool b =>
      have payload := payload_of_leaf (p := .bool) found rfl
      have asked : ask (.request (.asBool h)) x = .ok (b, x) :=
        ask_of_answer (by simp only [Request.answer, payload])
      exact (run_bind_of_ok asked _).trans rfl

/-- A child that was given a handle is read through it; null was given none, and is read as null. -/
theorem read_registered (reads : Reads time c) (started : time ≠ 0)
    (readable : Readable x h n (present c.subtrees).length) :
    ∃ ns, ns.Perm c.subtrees ∧
      read time (x.table.register c).1 (x.registering [c]) =
        .ok (c.contents.inKeyOrder, x.registering ns) := by
  rw [subtrees_eq] at readable ⊢
  cases hc : c.isNull with
  | true =>
      have single : c = .null := by
        cases c with
        | leaf s =>
            cases s with
            | null => rfl
            | _ => cases hc
        | _ => cases hc
      subst single
      obtain ⟨time, rfl⟩ := Nat.exists_eq_succ_of_ne_zero started
      exact ⟨[.null], .refl _, rfl⟩
  | false =>
      have tail : c.subtrees.tail = c.children.flatMap subtrees := by
        rw [subtrees_eq, List.tail_cons]
      have count : (present (c :: c.children.flatMap subtrees)).length =
          1 + (present c.subtrees.tail).length := by
        simp [present, hc, tail, Nat.add_comm]
      obtain ⟨ns, perm, done⟩ := reads _ _ (readable.registered hc (Nat.le_of_eq count.symm))
      refine ⟨c :: ns, (tail ▸ perm).cons c, ?_⟩
      rw [done, ← Session.registering_append]
      rfl

/-- If every part of a composite can be visited when its turn comes, by registering some nodes, then
all of them can be visited in turn. -/
theorem run_mapM_parts {γ β : Type} {f : Nat → Client β} (places : γ → List Node) {out : γ → β}
    {parts : List γ}
    (step : ∀ index p y, parts[index]? = some p →
      Readable y h n (present (places p)).length →
      ∃ ns, ns.Perm (places p) ∧ f index y = .ok (out p, y.registering ns))
    (readable : Readable x h n (present (parts.flatMap places)).length) :
    ∃ ns, ns.Perm (parts.flatMap places) ∧
      (List.range parts.length).mapM f x = .ok (parts.map out, x.registering ns) := by
  suffices ∀ (rest : List γ) (index : Nat) (x : Session), parts.drop index = rest →
      Readable x h n (present (rest.flatMap places)).length →
      ∃ ns, ns.Perm (rest.flatMap places) ∧
        (List.range' index rest.length).mapM f x = .ok (rest.map out, x.registering ns) by
    simpa [List.range_eq_range'] using this parts 0 x rfl readable
  clear readable
  intro rest
  induction rest with
  | nil => exact fun index x _ _ => ⟨[], .refl _, rfl⟩
  | cons p rest ih =>
      intro index x split readable
      have here : parts[index]? = some p := by
        rw [← List.head?_drop, split, List.head?_cons]
      have later : parts.drop (index + 1) = rest := by
        rw [← List.tail_drop, split, List.tail_cons]
      rw [List.flatMap_cons, present, List.filter_append, List.length_append] at readable
      obtain ⟨ms, permFirst, first⟩ := step index p x here (readable.mono (Nat.le_add_right _ _))
      have counted : (present ms).length = (present (places p)).length :=
        (permFirst.filter _).length_eq
      have readableRest := readable.registering (Nat.le_of_eq (congrArg (· + _) counted))
      obtain ⟨ns, permRest, others⟩ := ih (index + 1) _ later readableRest
      refine ⟨ms ++ ns, ?_, ?_⟩
      · rw [List.flatMap_cons]
        exact permFirst.append permRest
      · rw [List.length_cons, List.range'_succ, List.mapM_cons, run_bind_of_ok first,
          run_bind_of_ok others, Session.registering_append]
        rfl

section Composites

variable (started : n.children ≠ [] → time ≠ 0) (below : ∀ c ∈ n.children, Reads time c)

include started below

/-- The child at a place, asked for and read. -/
theorem read_child (distinct : n.keys.Nodup) {index : Nat} (here : n.inOrder[index]? = some c)
    (readable : Readable x h n (present c.subtrees).length) :
    ∃ ns, ns.Perm c.subtrees ∧ ask (.request (.valueAt h index)) x =
        .ok ((x.table.register c).1, x.registering [c]) ∧
      read time (x.table.register c).1 (x.registering [c]) =
        .ok (c.contents.inKeyOrder, x.registering ns) := by
  have found : (x.table.view h).childAt index = .ok c :=
    (View.childAt_eq_ok_iff readable.node distinct).mpr here
  have inside : c ∈ n.children := (inOrder_perm distinct).mem_iff.mp (List.mem_of_getElem? here)
  obtain ⟨ns, perm, done⟩ :=
    read_registered (below c inside) (started (List.ne_nil_of_mem inside)) readable
  exact ⟨ns, perm, ask_valueAt found, done⟩

theorem reads_array {label : Allocation} {items : List Node} (shape : n = array label items) :
    Reads (time + 1) n := by
  intro x h readable
  have found := readable.node
  have issued : ¬ h.isNull = true := by simpa [Handle.isNull] using readable.ne_null
  have tail : n.subtrees.tail = items.flatMap subtrees := by
    rw [subtrees_eq, List.tail_cons, shape, children]
  rw [tail] at readable ⊢
  have distinct : n.keys.Nodup := shape ▸ .nil
  have step : ∀ index c y, items[index]? = some c →
      Readable y h n (present c.subtrees).length →
      ∃ ns, ns.Perm c.subtrees ∧ (ask (.request (.valueAt h index)) >>= read time) y =
        .ok (c.contents.inKeyOrder, y.registering ns) := by
    intro index c y here readable
    have place : n.inOrder[index]? = some c := shape ▸ here
    obtain ⟨ns, perm, asked, done⟩ := read_child started below distinct place readable
    exact ⟨ns, perm, (run_bind_of_ok asked _).trans done⟩
  obtain ⟨ns, perm, done⟩ := run_mapM_parts subtrees step readable
  refine ⟨ns, perm, ?_⟩
  subst shape
  rw [read, if_neg issued, run_bind_of_ok (ask_kind found)]
  refine (run_bind_of_ok (ask_size found) _).trans ((run_bind_of_ok done _).trans ?_)
  rw [inKeyOrder_contents_array]
  rfl

theorem reads_object {label : Allocation} {entries : List (String × Node)}
    (shape : n = object label entries) (distinct : (Entries.keys entries).Nodup) :
    Reads (time + 1) n := by
  intro x h readable
  have found := readable.node
  have issued : ¬ h.isNull = true := by simpa [Handle.isNull] using readable.ne_null
  have arranged := Entries.sorted_perm distinct
  have positions : ((Entries.sorted entries).flatMap fun e => e.2.subtrees).Perm n.subtrees.tail := by
    rw [subtrees_eq, List.tail_cons, shape, children, List.flatMap_map]
    exact arranged.flatMap_right _
  have counted : (present ((Entries.sorted entries).flatMap fun e => e.2.subtrees)).length =
      (present n.subtrees.tail).length := (positions.filter _).length_eq
  have distinctRoot : n.keys.Nodup := shape ▸ distinct
  have step : ∀ index e y, (Entries.sorted entries)[index]? = some e →
      Readable y h n (present e.2.subtrees).length →
      ∃ ns, ns.Perm e.2.subtrees ∧
        (do
          let key ← ask (.request (.keyAt h index))
          let child ← ask (.request (.valueAt h index))
          return (key.getD "", ← read time child) : Client (String × Document)) y =
            .ok ((e.1, e.2.contents.inKeyOrder), y.registering ns) := by
    intro index e y here readable
    have place : n.inOrder[index]? = some e.2 := by
      rw [shape, inOrder, List.getElem?_map, here]
      rfl
    obtain ⟨ns, perm, asked, done⟩ := read_child started below distinctRoot place readable
    have key := ask_keyAt (shape ▸ readable.node) here
    exact ⟨ns, perm, (run_bind_of_ok key _).trans
      ((run_bind_of_ok asked _).trans (run_bind_of_ok done _))⟩
  obtain ⟨ns, perm, done⟩ :=
    run_mapM_parts (fun e : String × Node => e.2.subtrees) step (counted ▸ readable)
  refine ⟨ns, perm.trans positions, ?_⟩
  subst shape
  rw [read, if_neg issued, run_bind_of_ok (ask_kind found)]
  refine (run_bind_of_ok (ask_size found) _).trans ?_
  have size : (object label entries).size = (Entries.sorted entries).length :=
    arranged.length_eq.symm
  rw [size]
  refine (run_bind_of_ok done _).trans ?_
  rw [inKeyOrder_contents_object]
  rfl

end Composites

/-- **A node in which no key stands twice is read in full.** -/
theorem reads_node (distinct : n.DistinctKeys) (enough : n.subtrees.length ≤ time) :
    Reads time n := by
  induction n using induction_children generalizing time with
  | node n ih =>
      have some := List.length_pos_of_mem n.self_mem_subtrees
      obtain ⟨time, rfl⟩ := Nat.exists_eq_succ_of_ne_zero (show time ≠ 0 by omega)
      have below : ∀ c ∈ n.children, time ≠ 0 ∧ Reads time c := by
        intro c hc
        have less := length_subtrees_child hc
        have some := List.length_pos_of_mem c.self_mem_subtrees
        exact ⟨by omega, ih c hc (distinct.child hc) (by omega)⟩
      have started : n.children ≠ [] → time ≠ 0 := by
        intro inhabited
        obtain ⟨c, hc⟩ := List.exists_mem_of_ne_nil _ inhabited
        exact (below c hc).1
      have reads : ∀ c ∈ n.children, Reads time c := fun c hc => (below c hc).2
      cases n with
      | leaf s => exact reads_leaf time s
      | array label items => exact reads_array started reads rfl
      | object label entries => exact reads_object started reads rfl distinct.root

end Whole

/-- **Reading loses nothing.**  In every session that is reached, the client reads the node of a
handle within as many levels as it has positions, if there are numbers left for all proper
descendants that are not null.  It gets the contents of the node with the entries of each object in
the order of their keys.  No error is recorded, the builders and all handles that were issued before
stay as they are, and the handles that were issued since name, one each, the proper descendants that
are not null. -/
theorem read_in_full (options : Options) (calls : List Session.AnyCall) (x : Session)
    (hx : (Session.new options).run calls = .ok x) (h : Handle) (n : Node)
    (found : x.node? h = some n)
    (few : Session.allocations (.new options) calls + (present n.subtrees.tail).length <
      UInt64.size - 1) (time : Nat) (enough : n.subtrees.length ≤ time) :
    ∃ y, read time h x = .ok (n.contents.inKeyOrder, y) ∧
      y.errors = x.errors ∧ y.options = x.options ∧ y.table.builders = x.table.builders ∧
      (∀ k, k ≤ x.table.last → y.node? k = x.node? k) ∧
      ∃ ns : List Node, ns.Perm (present n.subtrees.tail) ∧
        y.table.last.raw.toNat = x.table.last.raw.toNat + ns.length ∧
        ∀ k, x.table.last < k → y.node? k = ns[k.raw.toNat - x.table.last.raw.toNat - 1]? := by
  obtain ⟨standing, counted⟩ := Session.Standing.of_run hx (by omega)
  have readable : Readable x h n (present n.subtrees.tail).length :=
    ⟨standing.sound, found, by omega⟩
  obtain ⟨ns, perm, done⟩ := reads_node (standing.distinctKeys found) enough x h readable
  have permPresent : (present ns).Perm (present n.subtrees.tail) := perm.filter _
  have room := readable.roomFor (Nat.le_of_eq permPresent.length_eq)
  have sound := standing.sound.run room
  have last := room.toNat_last_run
  rw [Table.allocations_registrations] at last
  refine ⟨_, done, rfl, rfl, (Table.run_registrations_parts x.table ns).1, ?_,
    present ns, permPresent, last, ?_⟩
  · intro k old
    rw [standing.node?_eq, Session.node?, Session.registering, sound.node?_eq]
    exact Table.getElem?_nodes_registrations_of_le room old
  · intro k beyond
    rw [Session.node?, Session.registering, sound.node?_eq]
    exact Table.getElem?_nodes_registrations standing.sound room beyond

/-- An object with an explicit null and an array, read through the handle that building it gave. -/
theorem read_in_full_of_built_object :
    let calls : List Session.AnyCall :=
      [(Session.Call.request (.newInt 7)).toAny, (Session.Call.request (.newArray 2)).toAny,
        (Session.Call.request (.setValue ⟨2⟩ 1 ⟨1⟩)).toAny,
        (Session.Call.request (.build ⟨2⟩)).toAny, (Session.Call.request (.newObject 2)).toAny,
        (Session.Call.request (.setKeyValue ⟨4⟩ "b" ⟨3⟩)).toAny,
        (Session.Call.request (.setKeyValue ⟨4⟩ "a" .null)).toAny,
        (Session.Call.request (.build ⟨4⟩)).toAny]
    ∃ x y, (Session.new {}).run calls = .ok x ∧
      read 5 ⟨5⟩ x = .ok (.object () [("a", .null), ("b", .array () [.null, .leaf (.int 7)])], y) ∧
      x.table.last = ⟨5⟩ ∧ y.table.last = ⟨7⟩ := by
  intro calls
  obtain ⟨x, hx⟩ : ∃ x, (Session.new {}).run calls = .ok x := ⟨_, rfl⟩
  have found : x.node? ⟨5⟩ =
      some (.object ⟨1⟩ [("b", .array ⟨0⟩ [.null, .leaf (.int 7)]), ("a", .null)]) := by
    cases hx
    rfl
  have last : x.table.last = ⟨5⟩ := by
    cases hx
    rfl
  obtain ⟨y, done, _, _, _, _, ns, perm, counted, _⟩ :=
    read_in_full {} calls x hx ⟨5⟩ _ found (by decide) 5 (by decide)
  have length : ns.length = 2 := perm.length_eq
  refine ⟨x, y, hx, done.trans ?_, last, Handle.ext_iff_toNat.mpr ?_⟩
  · rfl
  · rw [counted, last, length]
    rfl

end Client

end TreeHandles
