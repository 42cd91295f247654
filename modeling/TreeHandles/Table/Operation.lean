import TreeHandles.Table

/-!
# Operations on a table

The operations that can change a table, as values, so that one can speak of everything that
happens to a table.  Looking things up changes nothing and is no operation.

**Results.**
* `run_append`: a run can be cut anywhere.
-/

namespace TreeHandles
namespace Table

/-- An operation that can change a table. -/
inductive Operation where
  | allocate
  /-- A host makes a node in steps, and registers it. -/
  | register (steps : List (Assembly Handle))
  /-- A host registers a node that it has from anywhere, such as one that it kept. -/
  | registerNode (n : Node)
  /-- A host registers a document. -/
  | registerDocument (d : Document)
  | openBuilder (mode : BuilderMode) (size : Nat)
  /-- A host puts a node that it has in a place of a builder that it borrows. -/
  | write (h : Handle) (index : Nat) (n : Node)
  /-- A host binds a key of a builder that it borrows to a node that it has. -/
  | bind (h : Handle) (key : String) (n : Node)
  | finish (h : Handle)
  | valueAt (h : Handle) (index : Nat)
  | setValue (h : Handle) (index : Nat) (child : Handle)
  | setKeyValue (h : Handle) (key : String) (child : Handle)
  | build (h : Handle)
  | free

/-- What an operation does: the handle that it gives, null if it gives none, or why it fails, and
the table after it. -/
def apply (t : Table) : Operation → Outcome Handle
  | .allocate => done t.allocate
  | .register steps => done (t.registerAssembly steps)
  | .registerNode n => done (t.register n)
  | .registerDocument d => done (t.registerDocument d)
  | .openBuilder mode size => done (t.openBuilder mode size)
  | .write h index n => (.ok .null, (t.borrow h fun b => b.write index n).2)
  | .bind h key n => (.ok .null, (t.borrow h fun b => b.bind key n).2)
  | .finish h => (.ok .null, (t.finish h).2)
  | .valueAt h index => t.valueAt h index
  | .setValue h index child =>
      let outcome := t.setValue h index child
      (outcome.1.map fun _ => .null, outcome.2)
  | .setKeyValue h key child =>
      let outcome := t.setKeyValue h key child
      (outcome.1.map fun _ => .null, outcome.2)
  | .build h => t.build h
  | .free => (.ok .null, t.free)

/-- The table after an operation. -/
def after (t : Table) (op : Operation) : Table := (t.apply op).2

/-- The table after a list of operations. -/
def run (t : Table) (ops : List Operation) : Table := ops.foldl after t

theorem run_append (t : Table) (ops more : List Operation) :
    t.run (ops ++ more) = (t.run ops).run more := by
  simp [run]

end Table

end TreeHandles
