import TreeHandles.Binary64

/-!
# The shortest decimal that reads back

A positive finite number is rounded to by an interval of reals.  The shortest decimal of the number
is the point of that interval with the fewest digits, and the one nearest to the number when several
have as few.  The search looks at coarser grids first and, on each grid, only at the two neighbours
of the number: if any point of a grid lies in the interval, one of these two does.

All arithmetic is exact, on natural numbers over a common denominator.

**Results.**
* `Grid.floor_le`: the lower candidate is not above the number.
* `Interval.nearest_mem`: a candidate that is chosen lies in the interval.
-/

namespace TreeHandles
namespace Decimal

/-- The reals that round to a number, with the number itself, all over one denominator. -/
structure Interval where
  low : Nat
  value : Nat
  high : Nat
  denominator : Nat
  closed : Bool

/-- The reals that round to a positive finite number: half way to each neighbour, ends included when
the significand is even; the neighbour below a power of two is only half as far away. -/
def Interval.ofBinary64 (x : Binary64) : Interval :=
  let m := x.significand
  let gap := if m = Binary64.hiddenBit ∧ 1 < x.biasedExponent then 1 else 2
  let scale := Nat.pow 2 (x.exponent - 2).toNat
  { low := (4 * m - gap) * scale
    value := 4 * m * scale
    high := (4 * m + 2) * scale
    denominator := Nat.pow 2 (2 - x.exponent).toNat
    closed := m % 2 = 0 }

/-- The multiples of one power of ten, as the fraction `numerator / denominator`. -/
structure Grid where
  numerator : Nat
  denominator : Nat

/-- The grid of the multiples of `10 ^ e`. -/
def Grid.powerOfTen (e : Int) : Grid := ⟨Nat.pow 10 e.toNat, Nat.pow 10 (-e).toNat⟩

/-- A bound of an interval and a grid point, brought to a common denominator. -/
def Grid.scaled (g : Grid) (iv : Interval) (c : Nat) : Nat := c * g.numerator * iv.denominator

/-- The greatest grid point that is not above the value of an interval. -/
def Grid.floor (g : Grid) (iv : Interval) : Nat :=
  iv.value * g.denominator / (g.numerator * iv.denominator)

/-- Whether a grid point lies in an interval. -/
def Interval.contains (iv : Interval) (g : Grid) (c : Nat) : Bool :=
  let point := g.scaled iv c
  let low := iv.low * g.denominator
  let high := iv.high * g.denominator
  low < point && point < high || iv.closed && (point == low || point == high)

/-- Which of two equally near grid points is taken. -/
inductive Tie where
  /-- The one whose last digit is even. -/
  | toEven
  /-- The greater one. -/
  | up
  deriving DecidableEq, Repr

/-- Whether the lower of two neighbouring grid points is nearer to the value of an interval. -/
def Interval.prefersLower (iv : Interval) (g : Grid) (tie : Tie) (c : Nat) : Bool :=
  let twice := 2 * (iv.value * g.denominator)
  let middle := g.scaled iv c + g.scaled iv (c + 1)
  match tie with
  | .toEven => twice < middle || twice == middle && c % 2 == 0
  | .up => twice < middle

/-- The grid point that lies in an interval, the nearer one if both neighbours of the value do. -/
def Interval.nearest? (iv : Interval) (g : Grid) (tie : Tie) : Option Nat :=
  let c := g.floor iv
  match iv.contains g c, iv.contains g (c + 1) with
  | true, true => some (if iv.prefersLower g tie c then c else c + 1)
  | true, false => some c
  | false, true => some (c + 1)
  | false, false => none

/-- The exponent of the leading decimal digit of the value, a positive finite number. -/
def Interval.leadingExponent (iv : Interval) : Int :=
  ((Nat.toDigits 10 (iv.value * Nat.pow 10 324 / iv.denominator)).length : Int) - 325

end Decimal

/-- A positive decimal: its digits, without trailing zeros, and the exponent of the leading one. -/
structure Decimal where
  digits : List Char
  exponent : Int
  deriving DecidableEq, Repr

namespace Decimal

/-- The decimal `c * 10 ^ e`. -/
def ofGrid (c : Nat) (e : Int) : Decimal :=
  let digits := Nat.toDigits 10 c
  { digits := (digits.reverse.dropWhile (· == '0')).reverse
    exponent := e + digits.length - 1 }

/-- The shortest decimal that rounds to a positive finite number; seventeen digits always do. -/
def shortest (tie : Tie) (x : Binary64) : Decimal :=
  let iv := Interval.ofBinary64 x
  let lead := iv.leadingExponent
  let grids := (List.range 17).map fun n : Nat => lead - n
  let found := grids.findSome? fun e => (iv.nearest? (.powerOfTen e) tie).map (ofGrid · e)
  found.getD (ofGrid ((Grid.powerOfTen (lead - 16)).floor iv) (lead - 16))

section Neighbours

theorem Grid.floor_le (g : Grid) (iv : Interval) :
    g.scaled iv (g.floor iv) ≤ iv.value * g.denominator := by
  rw [Grid.scaled, Grid.floor, Nat.mul_assoc]
  exact Nat.div_mul_le_self _ _

theorem Interval.nearest_mem {iv : Interval} {g : Grid} {tie : Tie} {c : Nat}
    (h : iv.nearest? g tie = some c) : iv.contains g c = true := by
  simp only [Interval.nearest?] at h
  split at h
  case h_1 lower upper =>
    simp only [Option.some.injEq] at h
    split at h <;> simp_all
  all_goals simp_all

end Neighbours

end Decimal

end TreeHandles
