import TreeHandles.Builder
import TreeHandles.Node.Assembly
import TreeHandles.View

/-!
# The table of handles

A table owns the finished nodes and the builders that a caller can name.  Both get their handles
from one counter, which only grows, so that no handle is issued twice, also not after the table was
emptied.  When a builder is finished, its own handle comes to name the finished node too.

An operation that can fail gives its answer or an error, and the table after it in both cases.

**Results.**
* `node?_register`: a registered node is found under its handle, and all other handles are as
  before.
* `node?_null` and `builder?_null`: the null handle names nothing.
* `table_valueAt_of_error`, `table_modify_of_error` and `table_build_of_error`: an operation that
  fails leaves the table as it was.
-/

namespace TreeHandles

/-- The finished nodes and the builders of a session, with the counter of handles and the supply of
allocations. -/
structure Table where
  last : Handle := .null
  supply : Allocation := ⟨0⟩
  nodes : Std.TreeMap Handle Node := ∅
  builders : Std.TreeMap Handle Builder := ∅

namespace Table

/-- The node that a handle names. -/
def node? (t : Table) (h : Handle) : Option Node := if h.isNull then none else t.nodes[h]?

/-- The builder that a handle names. -/
def builder? (t : Table) (h : Handle) : Option Builder := if h.isNull then none else t.builders[h]?

/-- What a handle shows. -/
def view (t : Table) (h : Handle) : View := ⟨h, t.node? h⟩

/-- The number of handles that name nodes. -/
def nodeCount (t : Table) : Nat := t.nodes.size

/-- The number of handles that name builders, built ones included. -/
def builderCount (t : Table) : Nat := t.builders.size

/-- Issues the next handle. -/
def allocate (t : Table) : Handle × Table := (t.last.next, { t with last := t.last.next })

/-- Issues a handle for a finished node; null needs none. -/
def register (t : Table) (n : Node) : Handle × Table :=
  if n.isNull then (.null, t)
  else (t.last.next, { t with last := t.last.next, nodes := t.nodes.insert t.last.next n })

/-- Issues a handle for the node that a host makes in steps, which may clone nodes of the table. -/
def registerAssembly (t : Table) (steps : List (Assembly Handle)) : Handle × Table :=
  let bench := Assembly.assemble t.node? t.supply steps
  { t with supply := bench.supply }.register bench.last

/-- Issues a handle for a document. -/
def registerDocument (t : Table) (d : Document) : Handle × Table :=
  let placed := Node.ofDocument d t.supply
  { t with supply := placed.2 }.register placed.1

/-- Issues a handle for a new builder. -/
def openBuilder (t : Table) (mode : BuilderMode) (size : Nat) : Handle × Table :=
  (t.last.next,
    { t with last := t.last.next, builders := t.builders.insert t.last.next (.new mode size) })

/-- The answer of an operation, or why it failed, and the table after it. -/
abbrev Outcome (α : Type) := Except Error α × Table

/-- The outcome of an operation that cannot fail. -/
def done {α : Type} (result : α × Table) : Outcome α := (.ok result.1, result.2)

/-- Issues a handle for the child at a place of the node that a handle names. -/
def valueAt (t : Table) (h : Handle) (index : Nat) : Outcome Handle :=
  match (t.view h).childAt index with
  | .error e => (.error e, t)
  | .ok child => done (t.register child)

/-- The node that a handle stands for as a child: the null handle for null, others for what they
name. -/
def child (t : Table) (h : Handle) : Except Error Node :=
  if h.isNull then .ok .null
  else
    match t.node? h with
    | some n => .ok n
    | none => .error (.contractViolation (.unresolvedChild h))

/-- Changes the builder that a handle names, after its child was looked up. -/
def modify (t : Table) (h child : Handle) (change : Builder → Node → Except Violation Builder) :
    Outcome Unit :=
  match t.child child with
  | .error e => (.error e, t)
  | .ok n =>
      match t.builder? h with
      | none => (.error (.contractViolation (.notTemporary h)), t)
      | some b =>
          match change b n with
          | .error v => (.error (.contractViolation v), t)
          | .ok c => (.ok (), { t with builders := t.builders.insert h c })

/-- Puts the node of a handle in a place of an array under construction. -/
def setValue (t : Table) (h : Handle) (index : Nat) (child : Handle) : Outcome Unit :=
  t.modify h child fun b n => b.write index n

/-- Binds a key of an object under construction to the node of a handle. -/
def setKeyValue (t : Table) (h : Handle) (key : String) (child : Handle) : Outcome Unit :=
  t.modify h child fun b n => b.bind key n

/-- Changes the builder that a handle names in place, as a host does that borrows it.  What the
builder answers is for the host alone. -/
def borrow (t : Table) (h : Handle) (change : Builder → Except Violation Builder) :
    Option (Except Violation Unit) × Table :=
  match t.builder? h with
  | none => (none, t)
  | some b =>
      match change b with
      | .error v => (some (.error v), t)
      | .ok c => (some (.ok ()), { t with builders := t.builders.insert h c })

/-- Takes the node out of a builder without issuing a handle for it. -/
def finish (t : Table) (h : Handle) : Option (Option Node) × Table :=
  match t.builder? h with
  | none => (none, t)
  | some b =>
      match b.finish? t.supply with
      | none => (some none, t)
      | some n =>
          (some (some n),
            { t with supply := t.supply.next, builders := t.builders.insert h b.finished })

/-- Finishes a builder, and issues a handle for the node.  The handle of the builder comes to name
it too.  A builder that was built, or a finished node, gives the null handle. -/
def build (t : Table) (h : Handle) : Outcome Handle :=
  match t.finish h with
  | (none, u) =>
      if (u.node? h).isSome then (.ok .null, u)
      else (.error (.contractViolation (.notTemporary h)), u)
  | (some none, u) => (.ok .null, u)
  | (some (some n), u) =>
      let registered := u.register n
      (.ok registered.1, { registered.2 with nodes := registered.2.nodes.insert h n })

/-- Forgets all nodes and builders.  The counter goes on. -/
def free (t : Table) : Table := { t with nodes := ∅, builders := ∅ }

theorem node?_null (t : Table) : t.node? .null = none := rfl

theorem builder?_null (t : Table) : t.builder? .null = none := rfl

theorem node?_register {t : Table} {n : Node} (present : n.isNull = false)
    (room : t.last.next ≠ .null) (h : Handle) :
    (t.register n).2.node? h = if h = t.last.next then some n else t.node? h := by
  have issued : t.last.next.isNull = false := by simpa [Handle.isNull] using room
  by_cases he : h = t.last.next
  · subst he
    simp [register, present, node?, issued]
  · have : t.last.next ≠ h := fun hn => he hn.symm
    simp [register, present, node?, he, this, Std.TreeMap.getElem?_insert]

theorem finish_of_none {t : Table} {h : Handle} (absent : t.builder? h = none) :
    t.finish h = (none, t) := by
  simp [finish, absent]

theorem table_valueAt_of_error {t : Table} {h : Handle} {index : Nat} {e : Error}
    (fails : (t.valueAt h index).1 = .error e) : (t.valueAt h index).2 = t := by
  simp only [valueAt] at fails ⊢
  split at fails
  · rfl
  · cases fails

theorem table_modify_of_error {t : Table} {h child : Handle}
    {change : Builder → Node → Except Violation Builder} {e : Error}
    (fails : (t.modify h child change).1 = .error e) : (t.modify h child change).2 = t := by
  simp only [modify] at fails ⊢
  split at fails
  · rfl
  · split at fails
    · rfl
    · split at fails
      · rfl
      · cases fails

theorem table_build_of_error {t : Table} {h : Handle} {e : Error}
    (fails : (t.build h).1 = .error e) : (t.build h).2 = t := by
  unfold build at fails ⊢
  cases hb : t.builder? h with
  | none =>
      rw [finish_of_none hb]
      by_cases named : (t.node? h).isSome <;> simp [named]
  | some b => cases hf : b.finish? t.supply <;> simp [finish, hb, hf] at fails

end Table

end TreeHandles
