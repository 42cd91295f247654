import TreeHandles.Proofs.Client
import TreeHandles.Proofs.Session.Adding

/-!
# Clients that build trees

A tree is built from its parts: scalars by one call each, a composite by a builder that is opened,
given the children one after the other in the order of their insertion, and built.  The children of a
composite can all be made before its builder is opened, or each just before it is put in its place; a
plan says which, for every composite on its own.

**Results.**
* `handleCount_composite`: how many handles the building of a composite takes.
* `construct_composite`: what a client does that builds a composite.
-/

namespace TreeHandles

open TreeHandles.Tree TreeHandles.Session

/-- How a client builds one composite: whether it makes the children before it opens the builder, or
each one just before it puts it in its place, and what it says about the size of an object. -/
structure Plan where
  childrenFirst : Bool
  hint : Nat
  deriving DecidableEq, Repr

namespace Tree

variable {α : Type}

/-- The number of handles that the building of a tree takes: one for each position that is not null,
and one more for each composite, which is made by a builder. -/
def handleCount (t : Tree α) : Nat := (present t.subtrees).length + t.labels.length

/-- The number of handles that the building of some trees takes. -/
def handleCounts (ts : List (Tree α)) : Nat :=
  (present (ts.flatMap subtrees)).length + (ts.flatMap labels).length

theorem handleCounts_cons (t : Tree α) (rest : List (Tree α)) :
    handleCounts (t :: rest) = t.handleCount + handleCounts rest := by
  simp only [handleCounts, handleCount, present, List.flatMap_cons, List.filter_append,
    List.length_append]
  omega

theorem handleCount_composite {t : Tree α} (composite : t.isComposite = true) :
    t.handleCount = 2 + handleCounts t.children := by
  obtain ⟨a, label⟩ := Option.isSome_iff_exists.mp composite
  have here : t.isNull = false := by
    cases t with
    | leaf s => cases composite
    | array label items => rfl
    | object label entries => rfl
  rw [handleCount, handleCounts, subtrees_eq, labels_eq, label, present, List.filter_cons, here]
  simp only [present, Bool.not_false, if_true, List.length_cons, Option.toList, List.cons_append,
    List.nil_append]
  omega

end Tree

namespace Client

section Programs

/-- Makes a scalar.  Null needs no call. -/
def newScalar : Scalar → Client Handle
  | .null => pure .null
  | .bool b => ask (.request (.newBool b))
  | .int i => ask (.request (.newInt i))
  | .uint u => ask (.request (.newUint u))
  | .float f => ask (.request (.newFloat f))
  | .string s => ask (.request (.newString s))

/-- Opens a builder, makes the children one after the other and puts each in its place, and builds. -/
def fill (opening : Client Handle) (parts : List (Place × Client Handle)) : Client Handle := do
  let h ← opening
  parts.forM fun p => do
    let c ← p.2
    ask (.request (putting h c p.1))
  ask (.request (.build h))

/-- Makes the children one after the other, and gives their handles with their places. -/
def makeAll (parts : List (Place × Client Handle)) : Client (List (Place × Handle)) :=
  parts.mapM fun p => do return (p.1, ← p.2)

/-- Puts a composite together.  Children that are made first are only named when it is filled. -/
def assemble (childrenFirst : Bool) (opening : Client Handle)
    (parts : List (Place × Client Handle)) : Client Handle :=
  if childrenFirst then do
    let made ← makeAll parts
    fill opening (made.map fun m => (m.1, pure m.2))
  else fill opening parts

mutual

/-- Builds a tree as its labels say. -/
def construct : Tree Plan → Client Handle
  | leaf s => newScalar s
  | array plan items =>
      assemble plan.childrenFirst (ask (.request (.newArray items.length))) (constructItems 0 items)
  | object plan entries =>
      assemble plan.childrenFirst (ask (.request (.newObject plan.hint))) (constructEntries entries)

/-- The elements of an array with their places, as clients that build them. -/
def constructItems : Nat → List (Tree Plan) → List (Place × Client Handle)
  | _, [] => []
  | index, t :: rest => (.index index, construct t) :: constructItems (index + 1) rest

/-- The values of an object with their places, as clients that build them. -/
def constructEntries : List (String × Tree Plan) → List (Place × Client Handle)
  | [] => []
  | (key, t) :: rest => (.key key, construct t) :: constructEntries rest

end

/-- Opens the builder of a composite. -/
def opening : Tree Plan → Client Handle
  | leaf _ => pure .null
  | array _ items => ask (.request (.newArray items.length))
  | object plan _ => ask (.request (.newObject plan.hint))

/-- Children with their places, as clients that build them. -/
def constructing (ps : List (Place × Tree Plan)) : List (Place × Client Handle) :=
  ps.map fun p => (p.1, construct p.2)

theorem construct_composite {t : Tree Plan} {plan : Plan} (label : t.label? = some plan) :
    construct t = assemble plan.childrenFirst (opening t) (constructing t.places) := by
  cases t with
  | leaf s => cases label
  | array plan items =>
      cases label
      have each : ∀ index, constructItems index items =
          (items.zipIdx index).map fun p => (.index p.2, construct p.1) := by
        induction items with
        | nil => exact fun index => rfl
        | cons t rest ih =>
            intro index
            rw [constructItems, ih, List.zipIdx_cons, List.map_cons]
      rw [construct, each, constructing, places, List.map_map]
      rfl
  | object plan entries =>
      cases label
      have each : constructEntries entries = entries.map fun e => (.key e.1, construct e.2) := by
        induction entries with
        | nil => rfl
        | cons e rest ih => rw [constructEntries, ih, List.map_cons]
      rw [construct, each, constructing, places, List.map_map]
      rfl

end Programs

end Client

end TreeHandles
