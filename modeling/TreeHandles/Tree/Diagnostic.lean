import TreeHandles.Decimal.Layout
import TreeHandles.Text.Diagnostic
import TreeHandles.Tree

/-!
# Trees in diagnostic output

Diagnostic output names the kind of every value before its contents, shows entries in the order of
their insertion, and gives every text in quotes.
-/

namespace TreeHandles

/-- Floating-point numbers in diagnostic output: positional from one ten-thousandth up to sixteen
digits, no sign on a positive exponent, and ties upwards. -/
def Binary64.diagnosticLayout : Decimal.Layout :=
  { least := -4, most := 15, plusSign := false, tie := .up }

/-- A floating-point number as diagnostic output shows it. -/
def Binary64.describe (x : Binary64) : String :=
  if x.isFinite then String.ofList (diagnosticLayout.render x)
  else if x.isNaN then "NaN"
  else if x.isNegative then "-inf"
  else "inf"

/-- A scalar as diagnostic output shows it. -/
def Scalar.describe : Scalar → String
  | null => "Null"
  | bool b => "Bool(" ++ (if b then "true" else "false") ++ ")"
  | int i => "Int(" ++ i.toInt.repr ++ ")"
  | uint u => "Uint(" ++ u.toNat.repr ++ ")"
  | float x => "Float(" ++ x.describe ++ ")"
  | string s => "String(" ++ Text.quoteDiagnostic s ++ ")"

namespace Tree

variable {α : Type}

mutual

/-- A tree as diagnostic output shows it. -/
def describe : Tree α → String
  | leaf s => s.describe
  | array _ items => "Array([" ++ ", ".intercalate (describeItems items) ++ "])"
  | object _ entries => "Object(\x7b" ++ ", ".intercalate (describeEntries entries) ++ "\x7d)"

/-- The elements of an array, one text each. -/
def describeItems : List (Tree α) → List String
  | [] => []
  | t :: rest => t.describe :: describeItems rest

/-- The entries of an object, one text each. -/
def describeEntries : List (String × Tree α) → List String
  | [] => []
  | (k, t) :: rest => (Text.quoteDiagnostic k ++ ": " ++ t.describe) :: describeEntries rest

end

end Tree

end TreeHandles
