import TreeHandles.Handle

/-!
# Breaches of the contract of building

A caller who builds through handles has to name open builders, to write to them in their mode and
within their length, and to name finished nodes as children.  Each way to break this is a
violation.
-/

namespace TreeHandles

/-- What a builder makes. -/
inductive BuilderMode where
  | object
  | array
  deriving DecidableEq, Repr

/-- The name of a mode. -/
def BuilderMode.name : BuilderMode → String
  | object => "object"
  | array => "array"

/-- A breach of the contract of building. -/
inductive Violation where
  | wrongMode (expected actual : BuilderMode)
  | alreadyBuilt
  | indexBeyondLength (index length : Nat)
  | notTemporary (h : Handle)
  | unresolvedChild (h : Handle)
  deriving DecidableEq, Repr

/-- The words of a violation. -/
def Violation.message : Violation → String
  | wrongMode expected actual =>
      expected.name ++ " builder required, got " ++ actual.name ++ " builder"
  | alreadyBuilt => "builder was already built"
  | indexBeyondLength index length =>
      "index " ++ index.repr ++ " is beyond the declared array length " ++ length.repr
  | notTemporary h => "handle " ++ h.render ++ " is not a temporary node"
  | unresolvedChild h => "child handle " ++ h.render ++ " does not resolve to a finalized node"

end TreeHandles
