import TreeHandles.Node
import TreeHandles.Violation

/-!
# Builders

A builder collects the children of one array or one object.  Its mode is fixed when it is opened.
An array has its full length from the start, with null in every place; an object starts without
entries.  Finishing a builder takes its contents for a node; after that it stays, without
contents.

Preparing room for children is not modelled.  The hint for an object prepares none, so that no
hint, however great, overflows a capacity; nor does the length of an array.

**Results.**
* `exists_of_write` and `exists_of_bind`: what a change of a builder does, if it succeeds.
* `mode_write` and `mode_bind`: no change of a builder changes its mode.
* `length_write`: writing to an array keeps its length.
-/

namespace TreeHandles

/-- An array or object under construction, or what remains of it when it is built. -/
inductive Builder where
  | object (entries : List (String × Node))
  | array (slots : List Node)
  | built (mode : BuilderMode)

namespace Builder

/-- A new builder.  The size is the length of an array; for an object it is only a hint. -/
def new : BuilderMode → Nat → Builder
  | .object, _ => object []
  | .array, size => array (List.replicate size .null)

/-- What a builder makes or has made. -/
def mode : Builder → BuilderMode
  | object _ => .object
  | array _ => .array
  | built mode => mode

/-- Whether a builder was built. -/
def isBuilt : Builder → Bool
  | built _ => true
  | _ => false

/-- The number of entries or places of an open builder; a built one has none. -/
def length : Builder → Nat
  | object entries => entries.length
  | array slots => slots.length
  | built _ => 0

/-- Puts a node in a place of an array; the last write to a place counts. -/
def write (b : Builder) (index : Nat) (n : Node) : Except Violation Builder :=
  match b with
  | built _ => .error .alreadyBuilt
  | object _ => .error (.wrongMode .array .object)
  | array slots =>
      if index < slots.length then .ok (array (slots.set index n))
      else .error (.indexBeyondLength index slots.length)

/-- Binds a key of an object to a node; the last write to a key counts. -/
def bind (b : Builder) (key : String) (n : Node) : Except Violation Builder :=
  match b with
  | built _ => .error .alreadyBuilt
  | array _ => .error (.wrongMode .object .array)
  | object entries => .ok (object (Entries.insert key n entries))

/-- The node that a builder makes, at an allocation of its own; a built one makes none. -/
def finish? (b : Builder) (allocation : Allocation) : Option Node :=
  match b with
  | object entries => some (.object allocation entries)
  | array slots => some (.array allocation slots)
  | built _ => none

/-- What remains of a builder when it is built. -/
def finished (b : Builder) : Builder := built b.mode

/-- A write that succeeds is one to a place of an array. -/
theorem exists_of_write {b c : Builder} {index : Nat} {n : Node} (h : b.write index n = .ok c) :
    ∃ slots, b = array slots ∧ index < slots.length ∧ c = array (slots.set index n) := by
  cases b with
  | array slots =>
      simp only [write] at h
      split at h
      · next inside =>
          cases h
          exact ⟨slots, rfl, inside, rfl⟩
      · cases h
  | object entries => cases h
  | built mode => cases h

/-- A binding that succeeds is one of a key of an object. -/
theorem exists_of_bind {b c : Builder} {key : String} {n : Node} (h : b.bind key n = .ok c) :
    ∃ entries, b = object entries ∧ c = object (Entries.insert key n entries) := by
  cases b with
  | array slots => cases h
  | object entries =>
      cases h
      exact ⟨entries, rfl, rfl⟩
  | built mode => cases h

theorem mode_write {b c : Builder} {index : Nat} {n : Node} (h : b.write index n = .ok c) :
    c.mode = b.mode := by
  obtain ⟨slots, rfl, _, rfl⟩ := exists_of_write h
  rfl

theorem mode_bind {b c : Builder} {key : String} {n : Node} (h : b.bind key n = .ok c) :
    c.mode = b.mode := by
  obtain ⟨entries, rfl, rfl⟩ := exists_of_bind h
  rfl

theorem length_write {b c : Builder} {index : Nat} {n : Node} (h : b.write index n = .ok c) :
    c.length = b.length := by
  obtain ⟨slots, rfl, _, rfl⟩ := exists_of_write h
  exact List.length_set

end Builder

end TreeHandles
