import TreeHandles.Decimal.Shortest

/-!
# How a floating-point number is laid out

A format writes numbers whose leading digit has a moderate exponent positionally, always with a
point and at least one digit after it, and all others with an exponent.  A layout holds the choices
of one format.  In exponent form a point is written only before further digits.
-/

namespace TreeHandles
namespace Decimal

/-- The choices of a format: which exponents of the leading digit are written positionally, whether
a positive exponent has a sign, and how ties between shortest decimals go. -/
structure Layout where
  least : Int
  most : Int
  plusSign : Bool
  tie : Tie
  deriving DecidableEq, Repr

/-- Positional digits: a point at the place that the exponent gives, zeros where digits lack. -/
def positional (d : Decimal) : List Char :=
  if d.exponent < 0 then
    '0' :: '.' :: List.replicate (-d.exponent - 1).toNat '0' ++ d.digits
  else
    let places := d.exponent.toNat + 1
    if d.digits.length ≤ places then
      d.digits ++ List.replicate (places - d.digits.length) '0' ++ ['.', '0']
    else
      d.digits.take places ++ '.' :: d.digits.drop places

/-- The decimal digits of an exponent, with its sign. -/
def exponentDigits (plusSign : Bool) (e : Int) : List Char :=
  (if e < 0 then ['-'] else if plusSign then ['+'] else []) ++ Nat.toDigits 10 e.natAbs

/-- Exponent form: one digit, the others after a point, and the exponent. -/
def scientific (plusSign : Bool) (d : Decimal) : List Char :=
  let rest := d.digits.drop 1
  d.digits.take 1 ++ (if rest.isEmpty then [] else '.' :: rest) ++
    'e' :: exponentDigits plusSign d.exponent

/-- A positive decimal in the form that its exponent asks for. -/
def Layout.write (l : Layout) (d : Decimal) : List Char :=
  if l.least ≤ d.exponent ∧ d.exponent ≤ l.most then positional d else scientific l.plusSign d

/-- The text of the magnitude of a finite number. -/
def Layout.writeMagnitude (l : Layout) (x : Binary64) : List Char :=
  if x.isZero then ['0', '.', '0'] else l.write (shortest l.tie x)

/-- The text of a finite number. -/
def Layout.render (l : Layout) (x : Binary64) : List Char :=
  (if x.isNegative then ['-'] else []) ++ l.writeMagnitude x

end Decimal

end TreeHandles
