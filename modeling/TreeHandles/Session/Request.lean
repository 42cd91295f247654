import TreeHandles.Options
import TreeHandles.Json.Document
import TreeHandles.Table

/-!
# Requests to a session

A foreign caller asks a session to read, to make or to finish something.  Texts come in some form
`τ`: as text inside the program, as bytes at its boundary.  Each request has a shape, which says
what kind of answer it gets; each shape has an empty answer, for a caller who gets nothing.

The hint of a new object says for how many entries room is to be prepared.  It is cut down to the
limit in the options, and nothing depends on it after that.  Preparing room is not modelled, and
neither is the overflow of a capacity by a hint that the limit lets through although no memory has
so much room: here such a hint opens an object like any other.

**Results.**
* `table_answer_of_error`: a request that fails leaves the table as it was.
-/

namespace TreeHandles

/-- What kind of answer a caller gets. -/
inductive Shape where
  | nothing | flag | handle | text | int | uint | float | size | kind
  deriving DecidableEq, Repr

namespace Shape

/-- The answers of a shape.  A text can be absent. -/
abbrev Answer : Shape → Type
  | nothing => Unit
  | flag => Bool
  | handle => Handle
  | text => Option String
  | int => Int64
  | uint => UInt64
  | float => Binary64
  | size => Nat
  | kind => Kind

/-- The answer that says nothing. -/
def empty : (s : Shape) → s.Answer
  | nothing => ()
  | flag => false
  | handle => .null
  | text => none
  | int => 0
  | uint => 0
  | float => .zero
  | size => 0
  | kind => .null

end Shape

/-- What a foreign caller can ask, with texts of type `τ`, by the shape of the answer. -/
inductive Request (τ : Type) : Shape → Type where
  | kind (h : Handle) : Request τ .kind
  | asString (h : Handle) : Request τ .text
  | asInt (h : Handle) : Request τ .int
  | asUint (h : Handle) : Request τ .uint
  | asFloat (h : Handle) : Request τ .float
  | asBool (h : Handle) : Request τ .flag
  | size (h : Handle) : Request τ .size
  | keyAt (h : Handle) (index : Nat) : Request τ .text
  | valueAt (h : Handle) (index : Nat) : Request τ .handle
  | sameAs (a b : Handle) : Request τ .flag
  | toJson (h : Handle) : Request τ .text
  | loadJson (source : τ) : Request τ .handle
  | newObject (hint : Nat) : Request τ .handle
  | newArray (length : Nat) : Request τ .handle
  | newString (s : τ) : Request τ .handle
  | newInt (i : Int64) : Request τ .handle
  | newUint (u : UInt64) : Request τ .handle
  | newFloat (x : Binary64) : Request τ .handle
  | newBool (b : Bool) : Request τ .handle
  | setValue (h : Handle) (index : Nat) (child : Handle) : Request τ .nothing
  | setKeyValue (h : Handle) (key : τ) (child : Handle) : Request τ .nothing
  | build (h : Handle) : Request τ .handle

namespace Request

variable {τ υ ε : Type} {s : Shape}

/-- The request with its text understood, or why the text cannot be. -/
def mapText (f : τ → Except ε υ) : Request τ s → Except ε (Request υ s)
  | kind h => .ok (kind h)
  | asString h => .ok (asString h)
  | asInt h => .ok (asInt h)
  | asUint h => .ok (asUint h)
  | asFloat h => .ok (asFloat h)
  | asBool h => .ok (asBool h)
  | size h => .ok (size h)
  | keyAt h index => .ok (keyAt h index)
  | valueAt h index => .ok (valueAt h index)
  | sameAs a b => .ok (sameAs a b)
  | toJson h => .ok (toJson h)
  | loadJson source => (f source).map loadJson
  | newObject hint => .ok (newObject hint)
  | newArray length => .ok (newArray length)
  | newString s => (f s).map newString
  | newInt i => .ok (newInt i)
  | newUint u => .ok (newUint u)
  | newFloat x => .ok (newFloat x)
  | newBool b => .ok (newBool b)
  | setValue h index child => .ok (setValue h index child)
  | setKeyValue h key child => (f key).map fun key => setKeyValue h key child
  | build h => .ok (build h)

/-- The answer to a request of which the failure was recorded.  It is the empty one, except that
the text of a node of another kind is an empty text and not an absent one. -/
def fallback : Request τ s → s.Answer
  | asString _ => some ""
  | _ => s.empty

/-- The answer to a request, or why it fails, and the table after it.  Text that cannot be read
counts as null, for which no handle is issued. -/
def answer (options : Options) (t : Table) : Request String s → Table.Outcome s.Answer
  | kind h => (.ok (t.view h).kind, t)
  | asString h => (((t.view h).payload .string).map some, t)
  | asInt h => ((t.view h).payload .int, t)
  | asUint h => ((t.view h).payload .uint, t)
  | asFloat h => ((t.view h).payload .float, t)
  | asBool h => ((t.view h).payload .bool, t)
  | size h => (.ok (t.view h).size, t)
  | keyAt h index => (((t.view h).keyAt index).map some, t)
  | valueAt h index => t.valueAt h index
  | sameAs a b => (.ok ((t.view a).sameAs (t.view b)), t)
  | toJson h => (.ok ((t.node? h).map Tree.toJson), t)
  | loadJson source =>
      match Json.parse source with
      | .ok d => Table.done (t.registerDocument d)
      | .error e => (.error (.invalidInput (.json e)), (t.register .null).2)
  | newObject hint => Table.done (t.openBuilder .object (min hint options.maxCapacityHint.toNat))
  | newArray length =>
      if options.maxArrayLength.toNat < length then
        (.error (.arrayTooLarge length options.maxArrayLength.toNat), t)
      else Table.done (t.openBuilder .array length)
  | newString s => Table.done (t.register (.leaf (.string s)))
  | newInt i => Table.done (t.register (.leaf (.int i)))
  | newUint u => Table.done (t.register (.leaf (.uint u)))
  | newFloat x => Table.done (t.register (.leaf (.float x)))
  | newBool b => Table.done (t.register (.leaf (.bool b)))
  | setValue h index child => t.setValue h index child
  | setKeyValue h key child => t.setKeyValue h key child
  | build h => t.build h

theorem table_answer_of_error {options : Options} {t : Table} {r : Request String s} {e : Error}
    (fails : (r.answer options t).1 = .error e) : (r.answer options t).2 = t := by
  cases r with
  | valueAt h index => exact Table.table_valueAt_of_error fails
  | setValue h index child => exact Table.table_modify_of_error fails
  | setKeyValue h key child => exact Table.table_modify_of_error fails
  | build h => exact Table.table_build_of_error fails
  | loadJson source =>
      simp only [answer] at fails ⊢
      split at fails
      · cases fails
      · rfl
  | newArray length =>
      simp only [answer] at fails ⊢
      split at fails
      · next long => simp [long]
      · cases fails
  | newObject | newString | newInt | newUint | newFloat | newBool => cases fails
  | _ => rfl

end Request

end TreeHandles
