import TreeHandles.Session

/-!
# Clients of a session

A client is a program that calls a session, and goes on according to the answers.  It stops early
if a call ends the process, or if it was given a bound on its time and exhausts it.

**Results.**
* `ask_of_ok` and `run_bind_of_ok`: how a client goes on after a call, and after a part of it is
  done.
-/

namespace TreeHandles

/-- Why a client stops before it is done. -/
inductive Halt where
  | violation (v : Violation)
  | exhausted
  deriving DecidableEq, Repr

/-- A program that calls a session and gives a result. -/
abbrev Client (α : Type) := StateT Session (Except Halt) α

namespace Client

variable {s : Shape} {α β : Type} {x y : Session} {a : α}

/-- Makes one call. -/
def ask (c : Session.Call s) : Client s.Answer := fun x => (x.perform c).mapError .violation

theorem ask_of_ok {c : Session.Call s} {a : s.Answer} (h : x.perform c = .ok (a, y)) :
    ask c x = .ok (a, y) := by
  rw [ask, h]
  rfl

/-- A request that is answered from the table as it is changes nothing. -/
theorem ask_of_answer {r : Request String s} {a : s.Answer}
    (h : r.answer x.options x.table = (.ok a, x.table)) : ask (.request r) x = .ok (a, x) := by
  apply ask_of_ok
  show x.request r = _
  rw [Session.request_of_ok (congrArg Prod.fst h), h]

theorem run_bind_of_ok {m : Client α} (h : m x = .ok (a, y)) (k : α → Client β) :
    (m >>= k) x = k a y := by
  show (m x >>= fun result => k result.1 result.2) = k a y
  rw [h]
  rfl

end Client

end TreeHandles
