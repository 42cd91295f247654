import TreeHandles.Binary64

/-!
# Kinds and scalars

A scalar is a value without children: the null value, a truth value, an integer in one of two
ranges, a floating-point number or a text.  Every value has a kind, and the five kinds of scalars
other than null are the ones that a caller can read a payload from.

**Results.**
* `Scalar.as?_eq_none_iff`: a scalar has the payload of a kind exactly when it is of that kind.
* `Scalar.equal_comm`: numerical equality of scalars is symmetric.
-/

namespace TreeHandles

/-- What a value is, without its contents. -/
inductive Kind where
  | null | object | array | string | int | uint | float | bool
  deriving DecidableEq, Repr

/-- The name of a kind, as messages give it. -/
def Kind.name : Kind → String
  | .null => "null"
  | .object => "object"
  | .array => "array"
  | .string => "string"
  | .int => "int"
  | .uint => "uint"
  | .float => "float"
  | .bool => "bool"

/-- A value without children. -/
inductive Scalar where
  | null
  | bool (b : Bool)
  | int (i : Int64)
  | uint (u : UInt64)
  | float (x : Binary64)
  | string (s : String)
  deriving DecidableEq, Repr

/-- The kinds of scalars that carry a payload. -/
inductive Payload where
  | string | int | uint | float | bool
  deriving DecidableEq, Repr

namespace Payload

/-- The kind of the scalars that carry this payload. -/
def kind : Payload → Kind
  | string => .string
  | int => .int
  | uint => .uint
  | float => .float
  | bool => .bool

/-- What a payload is. -/
abbrev Carrier : Payload → Type
  | string => String
  | int => Int64
  | uint => UInt64
  | float => Binary64
  | bool => Bool

/-- The payload that stands in where there is none: an empty text, a zero, or false. -/
def empty : (p : Payload) → p.Carrier
  | string => ""
  | int => 0
  | uint => 0
  | float => Binary64.zero
  | bool => false

end Payload

namespace Scalar

/-- The kind of a scalar. -/
def kind : Scalar → Kind
  | null => .null
  | bool _ => .bool
  | int _ => .int
  | uint _ => .uint
  | float _ => .float
  | string _ => .string

/-- The payload of a scalar, if it is of the asked kind. -/
def as? : (p : Payload) → Scalar → Option p.Carrier
  | .string, string s => some s
  | .int, int i => some i
  | .uint, uint u => some u
  | .float, float x => some x
  | .bool, bool b => some b
  | _, _ => none

theorem as?_eq_none_iff (p : Payload) (s : Scalar) : s.as? p = none ↔ s.kind ≠ p.kind := by
  cases p <;> cases s <;> simp [as?, kind, Payload.kind]

/-- Equality by value, with floating-point numbers compared as numbers. -/
def equal : Scalar → Scalar → Bool
  | float x, float y => x.equal y
  | a, b => a == b

theorem equal_comm (a b : Scalar) : a.equal b = b.equal a := by
  cases a <;> cases b <;> simp [equal, Binary64.equal_comm, Bool.beq_comm]

end Scalar

end TreeHandles
