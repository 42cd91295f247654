import TreeHandles.Json.Fault
import TreeHandles.Text.Utf8
import TreeHandles.Violation

/-!
# Errors

An error says why a call could not do what it was asked: a handle that names nothing, a node of
another kind, an index out of range, a breach of the contract of building, an array that is too
long, or input that cannot be understood.

**Results.**
* `violation?_eq_some_iff`: the errors that can end the process are the breaches of the contract.
-/

namespace TreeHandles

/-- Input that cannot be understood, and why. -/
inductive InputError where
  | json (e : Json.Error)
  | missingText
  | notUtf8 (e : Text.Utf8Error)
  | other (description : String)
  deriving DecidableEq, Repr

/-- The words for input that cannot be understood. -/
def InputError.message : InputError → String
  | json e => e.message
  | missingText => "null string pointer"
  | notUtf8 e => "string is not UTF-8: " ++ e.message
  | other description => description

/-- Why a call failed. -/
inductive Error where
  | lookupMiss (h : Handle)
  | kindMismatch (expected actual : Kind)
  | notContainer (actual : Kind)
  | indexOutOfRange (index size : Nat)
  | missingKey (key : String)
  | contractViolation (v : Violation)
  | arrayTooLarge (length limit : Nat)
  | invalidInput (e : InputError)
  | missingSession
  deriving DecidableEq, Repr

namespace Error

/-- The words of an error. -/
def message : Error → String
  | lookupMiss h => "handle " ++ h.render ++ " does not resolve to a node"
  | kindMismatch expected actual => "expected " ++ expected.name ++ ", got: " ++ actual.name
  | notContainer actual => "expected object or array, got: " ++ actual.name
  | indexOutOfRange index size => "index out of bounds: " ++ index.repr ++ ", " ++ size.repr
  | missingKey key => "cannot fetch key: " ++ Text.quoteDiagnostic key
  | contractViolation v => "contract violation: " ++ v.message
  | arrayTooLarge length limit =>
      "array length " ++ length.repr ++ " exceeds the configured maximum of " ++ limit.repr
  | invalidInput e => "invalid input: " ++ e.message
  | missingSession => "no session context"

/-- The breach of the contract that an error reports, if it reports one. -/
def violation? : Error → Option Violation
  | contractViolation v => some v
  | _ => none

theorem violation?_eq_some_iff {e : Error} {v : Violation} :
    e.violation? = some v ↔ e = contractViolation v := by
  cases e <;> simp [violation?]

end Error

end TreeHandles
