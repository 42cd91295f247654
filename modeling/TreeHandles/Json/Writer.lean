import TreeHandles.Decimal.Layout
import TreeHandles.Json.Quoted
import TreeHandles.Tree

/-!
# Trees as JSON text

The text is compact: no blanks, and the entries of every object in the order of their keys.  JSON
has no text for infinities and for what is no number; they are written as null.  Every other
floating-point number keeps a point or an exponent, so that it cannot be read back as an integer.
-/

namespace TreeHandles

/-- Floating-point numbers in JSON: positional from five zeros before the first digit up to sixteen
digits, a sign on every exponent, and ties to the even digit. -/
def Binary64.jsonLayout : Decimal.Layout :=
  { least := -5, most := 15, plusSign := true, tie := .toEven }

/-- The characters of a floating-point number in JSON. -/
def Binary64.json (x : Binary64) : List Char :=
  if x.isFinite then jsonLayout.render x else "null".toList

/-- The characters of an integer: its digits, after a minus if it is negative. -/
def Json.integer (i : Int) : List Char :=
  (if i < 0 then ['-'] else []) ++ Nat.toDigits 10 i.natAbs

/-- The characters of a scalar in JSON. -/
def Scalar.json : Scalar → List Char
  | null => "null".toList
  | bool true => "true".toList
  | bool false => "false".toList
  | int i => Json.integer i.toInt
  | uint u => Nat.toDigits 10 u.toNat
  | float x => x.json
  | string s => Json.quote s

/-- One member of an object: the quoted key, a colon and the text of the value. -/
def Json.member (key : String) (value : List Char) : List Char := quote key ++ ':' :: value

namespace Tree

variable {α : Type}

mutual

/-- The characters of a tree in JSON. -/
def json : Tree α → List Char
  | leaf s => s.json
  | array _ items => '[' :: [','].intercalate (jsonItems items) ++ [']']
  | object _ entries =>
      '{' :: [','].intercalate ((Entries.sorted (jsonEntries entries)).map fun e =>
        Json.member e.1 e.2) ++ ['}']

/-- The elements of an array, one text each. -/
def jsonItems : List (Tree α) → List (List Char)
  | [] => []
  | t :: rest => t.json :: jsonItems rest

/-- The entries of an object with the texts of their values. -/
def jsonEntries : List (String × Tree α) → List (String × List Char)
  | [] => []
  | (k, t) :: rest => (k, t.json) :: jsonEntries rest

end

/-- A tree as compact JSON text. -/
def toJson (t : Tree α) : String := String.ofList t.json

end Tree

end TreeHandles
