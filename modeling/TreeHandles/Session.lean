import TreeHandles.ErrorChannel
import TreeHandles.Session.Request

/-!
# Sessions

A session is a table with a channel for the last error.  No call fails outwards.  A call that
fails gives an empty answer, leaves the table as it was and records its error, with one exception:
a reading through a handle that names nothing misses silently, because such a handle reads as
null.  Under the policy that aborts, a breach of the contract of building ends the process
instead.

A host registers what it makes in steps for the call: scalars, fresh composites, and clones of
nodes that handles name at the time.  A node that it kept from an earlier call, or across a `free`,
is registered by no call of a session; of the operations on a table, `registerNode` registers such
nodes too.

**Results.**
* `request_of_ok`: a request that succeeds leaves the last error alone.
* `request_of_miss`: a miss changes nothing at all.
* `request_of_error`: any other failure is recorded, and that is all that it changes.
-/

namespace TreeHandles

/-- A table with its options and the last error. -/
structure Session where
  options : Options := {}
  errors : ErrorChannel := {}
  table : Table := {}

namespace Session

/-- A session without nodes. -/
def new (options : Options) : Session :=
  { options, errors := { policy := options.violationPolicy } }

/-- The last error. -/
def lastError (x : Session) : Option Error := x.errors.last

/-- Keeps an error as the last one, or ends the process. -/
def record (x : Session) (e : Error) : Except Violation Session :=
  (x.errors.record e).map fun errors => { x with errors }

/-- Forgets the last error. -/
def clearError (x : Session) : Session := { x with errors := x.errors.clear }

/-- Forgets all nodes and builders. -/
def free (x : Session) : Session := { x with table := x.table.free }

/-- The node that a handle names. -/
def node? (x : Session) (h : Handle) : Option Node := x.table.node? h

/-- Issues a handle for a node that the host makes in some steps. -/
def register (x : Session) (steps : List (Assembly Handle)) : Handle × Session :=
  let registered := x.table.registerAssembly steps
  (registered.1, { x with table := registered.2 })

variable {s : Shape}

/-- The answer to a request, and the session after it. -/
def request (x : Session) (r : Request String s) : Except Violation (s.Answer × Session) :=
  let outcome := r.answer x.options x.table
  let y := { x with table := outcome.2 }
  match outcome.1 with
  | .ok a => .ok (a, y)
  | .error (.lookupMiss _) => .ok (s.empty, y)
  | .error e => (y.record e).map fun z => (r.fallback, z)

/-- What can be done with a session: requests of the foreign caller, and what the host and the
boundary do around them. -/
inductive Call : Shape → Type where
  | request {s : Shape} (r : Request String s) : Call s
  | register (steps : List (Assembly Handle)) : Call .handle
  | free : Call .nothing
  | report (e : Error) : Call .nothing
  | clearError : Call .nothing
  | hasError : Call .flag

/-- What a call gives, and the session after it. -/
def perform (x : Session) : Call s → Except Violation (s.Answer × Session)
  | .request r => x.request r
  | .register steps => .ok (x.register steps)
  | .free => .ok ((), x.free)
  | .report e => (x.record e).map fun y => ((), y)
  | .clearError => .ok ((), x.clearError)
  | .hasError => .ok (x.errors.isSet, x)

theorem request_of_ok {x : Session} {r : Request String s} {a : s.Answer}
    (h : (r.answer x.options x.table).1 = .ok a) :
    x.request r = .ok (a, { x with table := (r.answer x.options x.table).2 }) := by
  simp [request, h]

theorem request_of_miss {x : Session} {r : Request String s} {h : Handle}
    (miss : (r.answer x.options x.table).1 = .error (.lookupMiss h)) :
    x.request r = .ok (s.empty, x) := by
  simp [request, miss, Request.table_answer_of_error miss]

theorem request_of_error {x : Session} {r : Request String s} {e : Error}
    (fails : (r.answer x.options x.table).1 = .error e) (recorded : ∀ h, e ≠ .lookupMiss h) :
    x.request r = (x.record e).map fun y => (r.fallback, y) := by
  cases e with
  | lookupMiss h => exact absurd rfl (recorded h)
  | _ => simp [request, fails, Request.table_answer_of_error fails]

end Session

end TreeHandles
