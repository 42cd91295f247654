import TreeHandles.Error
import TreeHandles.Options

/-!
# The last error of a session

A channel keeps the newest error until it is taken or cleared.  Under the policy that aborts,
recording a breach of the contract ends the process instead; the breach is then the outcome of the
call, and there is no channel any more.

**Results.**
* `record_report`: under the policy that reports, the recorded error is the last one.
* `record_eq_error_iff`: recording ends the process exactly for a breach under the policy that
  aborts.
-/

namespace TreeHandles

/-- The newest error of a session, and what happens on a breach of the contract. -/
structure ErrorChannel where
  policy : ViolationPolicy := .report
  last : Option Error := none
  deriving DecidableEq, Repr

namespace ErrorChannel

/-- Whether there is an error. -/
def isSet (ch : ErrorChannel) : Bool := ch.last.isSome

/-- Keeps an error as the last one, or ends the process. -/
def record (ch : ErrorChannel) (e : Error) : Except Violation ErrorChannel :=
  match ch.policy, e.violation? with
  | .abort, some v => .error v
  | _, _ => .ok { ch with last := some e }

/-- Forgets the last error. -/
def clear (ch : ErrorChannel) : ErrorChannel := { ch with last := none }

/-- Hands out the last error, and forgets it. -/
def take (ch : ErrorChannel) : Option Error × ErrorChannel := (ch.last, ch.clear)

theorem record_report {ch : ErrorChannel} (h : ch.policy = .report) (e : Error) :
    ch.record e = .ok { ch with last := some e } := by
  simp [record, h]

theorem record_eq_error_iff {ch : ErrorChannel} {e : Error} {v : Violation} :
    ch.record e = .error v ↔ ch.policy = .abort ∧ e = .contractViolation v := by
  rw [← Error.violation?_eq_some_iff, record]
  cases ch.policy <;> cases e.violation? <;> simp

end ErrorChannel

end TreeHandles
