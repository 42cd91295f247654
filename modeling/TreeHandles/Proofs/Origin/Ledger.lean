import TreeHandles.Proofs.Session.Run
import TreeHandles.Proofs.Tree.Paths
import TreeHandles.Proofs.Tree.Places

/-!
# A ledger of origins

A caller who wants to know which composites are the same need not ask.  It can keep a ledger of its
own calls and of the handles that they answered, in which every composite has an origin: the call
that built it, a position in the document that a call loaded, or a step of the host in a call that
registered what it made.  The ledger knows nothing of allocations.  What is written into a builder,
read back from a node or registered again keeps the origins that it has.
-/

namespace TreeHandles

open TreeHandles.Tree

/-- Where a composite comes from. -/
inductive Origin where
  /-- The call that built it. -/
  | built (call : Nat)
  /-- A position in the document that a call loaded. -/
  | loaded (call : Nat) (path : List Nat)
  /-- A step in which the host made it, and the call that registered what the host made. -/
  | made (call step : Nat)
  deriving DecidableEq, Repr

instance : Inhabited Origin := ⟨.built 0⟩

/-- The call from which a composite is. -/
def Origin.call : Origin → Nat
  | built call | loaded call _ | made call _ => call

/-- A builder as a ledger shows it. -/
inductive Draft where
  | object (entries : List (String × Tree Origin))
  | array (slots : List (Tree Origin))

namespace Draft

/-- A new draft, with null in every place. -/
def new : BuilderMode → Nat → Draft
  | .object, _ => object []
  | .array, size => array (List.replicate size .null)

/-- The draft with a tree put in a place, if it has the place. -/
def put : Draft → Tree Origin → Place → Option Draft
  | object entries, t, .key key => some (object (Entries.insert key t entries))
  | array slots, t, .index index =>
      if index < slots.length then some (array (slots.set index t)) else none
  | _, _, _ => none

/-- The composite that a draft becomes. -/
def finish (origin : Origin) : Draft → Tree Origin
  | object entries => .object origin entries
  | array slots => .array origin slots

end Draft

/-- What a caller knows of the origins of the nodes and of the open builders that its handles
name. -/
structure Ledger where
  nodes : Std.TreeMap Handle (Tree Origin) := ∅
  drafts : Std.TreeMap Handle Draft := ∅

namespace Ledger

/-- The origin of the composite that a handle names. -/
def origin? (g : Ledger) (h : Handle) : Option Origin := g.nodes[h]?.bind label?

/-- What a handle stands for as a child. -/
def child? (g : Ledger) (h : Handle) : Option (Tree Origin) :=
  if h.isNull then some .null else g.nodes[h]?

/-- Enters what a handle names, if it is a handle. -/
def name (g : Ledger) (h : Handle) (t : Tree Origin) : Ledger :=
  if h.isNull then g else { g with nodes := g.nodes.insert h t }

/-- Enters that a child was written, if the draft takes it. -/
def put (g : Ledger) (h : Handle) (place : Place) (child : Handle) : Ledger :=
  match (g.child? child).bind fun t => g.drafts[h]?.bind (·.put t place) with
  | some d => { g with drafts := g.drafts.insert h d }
  | none => g

/-- What an earlier step of the host made. -/
def earlier (made : Array (Tree Origin)) (i : Nat) : Tree Origin := made[i]?.getD .null

/-- What a host makes in one step. -/
def makes (g : Ledger) (call : Nat) (made : Array (Tree Origin)) : Assembly Handle → Tree Origin
  | .scalar s => .leaf s
  | .array items => .array (.made call made.size) (items.map (earlier made))
  | .object entries =>
      .object (.made call made.size)
        (Entries.ofWrites (entries.map fun e => (e.1, earlier made e.2)))
  | .clone source => g.nodes[source]?.getD .null

/-- All that a host makes in some steps, in order. -/
def assembled (g : Ledger) (call : Nat) (steps : List (Assembly Handle)) : Array (Tree Origin) :=
  steps.foldl (fun made step => made.push (g.makes call made step)) #[]

/-- Enters an operation that a call carried out, and the handle that it gave. -/
def record (g : Ledger) (call : Nat) (r : Handle) : Table.Operation → Ledger
  | .register steps => g.name r ((g.assembled call steps).back?.getD .null)
  | .registerNode (.leaf s) => g.name r (.leaf s)
  | .registerDocument d => g.name r (d.located (.loaded call))
  | .openBuilder mode size => { g with drafts := g.drafts.insert r (.new mode size) }
  | .valueAt h index =>
      match g.nodes[h]?.bind (·.inOrder[index]?) with
      | some t => g.name r t
      | none => g
  | .setValue h index child => g.put h (.index index) child
  | .setKeyValue h key child => g.put h (.key key) child
  | .finish h => { g with drafts := g.drafts.erase h }
  | .build h =>
      match g.drafts[h]? with
      | some d =>
          let t := d.finish (.built call)
          { nodes := (g.nodes.insert r t).insert h t, drafts := g.drafts.erase h }
      | none => g
  | .free => {}
  | _ => g

variable {g : Ledger} {h : Handle} {t : Tree Origin}

theorem name_of_ne_null (issued : h ≠ .null) :
    g.name h t = { g with nodes := g.nodes.insert h t } := by
  have notNull : h.isNull = false := by simpa [Handle.isNull] using issued
  rw [name, notNull]
  rfl

end Ledger

/-- The handle in an answer; null if the answer is none. -/
def Shape.given : (s : Shape) → s.Answer → Handle
  | .handle, h => h
  | _, _ => .null

namespace Session

variable {s : Shape}

/-- Enters a call of a session and its answer. -/
def note (options : Options) (call : Nat) (c : Call s) (a : s.Answer) (g : Ledger) : Ledger :=
  match c.operation? options with
  | some op => g.record call (s.given a) op
  | none => g

/-- The ledger after a list of calls, of which the first one has the given number. -/
def ledger : Session → Nat → Ledger → List AnyCall → Ledger
  | _, _, g, [] => g
  | x, call, g, c :: rest =>
      match x.perform c.2 with
      | .ok (a, y) => ledger y (call + 1) (note x.options call c.2 a g) rest
      | .error _ => g

end Session

end TreeHandles
