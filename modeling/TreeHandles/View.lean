import TreeHandles.Error
import TreeHandles.Node

/-!
# Reading one node

A view is what a handle shows: a node, or nothing.  Where there is nothing it looks like null, but
every reading that asks for something definite misses.  The children of an object are enumerated
in the order of its keys.

**Results.**
* `sameAs_comm`: showing the same is symmetric.
* `payload_eq_ok_iff`: a payload can be read exactly from the scalars that carry it.
-/

namespace TreeHandles

/-- A handle with the node that it resolves to, if any. -/
structure View where
  handle : Handle
  node? : Option Node

namespace View

/-- The kind of the node; nothing looks like null. -/
def kind (v : View) : Kind := (v.node?.map Tree.kind).getD .null

/-- The number of children. -/
def size (v : View) : Nat := (v.node?.map Tree.size).getD 0

/-- The payload of a scalar of the asked kind. -/
def payload (v : View) (p : Payload) : Except Error p.Carrier :=
  match v.node? with
  | none => .error (.lookupMiss v.handle)
  | some (.leaf s) =>
      match s.as? p with
      | some a => .ok a
      | none => .error (.kindMismatch p.kind s.kind)
  | some n => .error (.kindMismatch p.kind n.kind)

/-- The payload, or the empty one of its kind. -/
def payloadOrEmpty (v : View) (p : Payload) : p.Carrier :=
  match v.payload p with
  | .ok a => a
  | .error _ => p.empty

/-- The key at a place in the order of the keys of an object. -/
def keyAt (v : View) (index : Nat) : Except Error String :=
  match v.node? with
  | none => .error (.lookupMiss v.handle)
  | some (.object _ entries) =>
      match (Entries.sortedKeys entries)[index]? with
      | some key => .ok key
      | none => .error (.indexOutOfRange index entries.length)
  | some n => .error (.kindMismatch .object n.kind)

/-- The child at a place: an element of an array, or the value of a key in the order of the keys. -/
def childAt (v : View) (index : Nat) : Except Error Node :=
  match v.node? with
  | none => .error (.lookupMiss v.handle)
  | some (.array _ items) =>
      match items[index]? with
      | some n => .ok n
      | none => .error (.indexOutOfRange index items.length)
  | some (.object _ entries) =>
      match v.keyAt index with
      | .error e => .error e
      | .ok key =>
          match Entries.find? key entries with
          | some n => .ok n
          | none => .error (.missingKey key)
  | some n => .error (.notContainer n.kind)

/-- Whether two views show the same node.  A view that shows nothing shows the same as null. -/
def sameAs (v w : View) : Bool :=
  match v.node?, w.node? with
  | some m, some n => Node.same m n
  | m, n => (m.map Tree.isNull).getD true && (n.map Tree.isNull).getD true

/-- Whether two views show equal nodes.  Views that show nothing are equal to each other only. -/
def equal (v w : View) : Bool :=
  match v.node?, w.node? with
  | some m, some n => Node.equal m n
  | m, n => m.isNone && n.isNone

theorem sameAs_comm (v w : View) : v.sameAs w = w.sameAs v := by
  simp only [sameAs]
  cases v.node? <;> cases w.node? <;> simp [Node.same_comm]

theorem payload_eq_ok_iff {v : View} {p : Payload} {a : p.Carrier} :
    v.payload p = .ok a ↔ ∃ s, v.node? = some (.leaf s) ∧ s.as? p = some a := by
  rcases v with ⟨h, _ | n⟩
  · simp [payload]
  · cases n with
    | leaf s =>
        cases hs : s.as? p <;> simp [payload, hs]
    | array label items => simp [payload]
    | object label entries => simp [payload]

end View

end TreeHandles
