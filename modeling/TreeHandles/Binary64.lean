/-!
# Binary floating-point numbers by their bits

A 64-bit floating-point number is kept as its bit pattern, so that every not-a-number payload and
the sign of zero travel unchanged.  A finite number is the sign times `significand * 2 ^ exponent`.

**Results.**
* `equal_comm`: numerical equality is symmetric.
* `equal_self_iff`: a number equals itself exactly when it is not a not-a-number.
-/

namespace TreeHandles

/-- A 64-bit binary floating-point number, as its bit pattern. -/
structure Binary64 where
  bits : UInt64
  deriving DecidableEq, Repr

namespace Binary64

/-- The bits of a machine number. -/
def ofFloat (x : Float) : Binary64 := ⟨x.toBits⟩

/-- The machine number with these bits. -/
def toFloat (x : Binary64) : Float := Float.ofBits x.bits

/-- Positive zero. -/
def zero : Binary64 := ⟨0⟩

/-- The pattern of negative zero, which is the sign bit alone. -/
def signBit : Nat := 0x8000000000000000

/-- The bit above the stored fraction, which every normal significand has. -/
def hiddenBit : Nat := 0x10000000000000

/-- The pattern without its sign bit. -/
def magnitude (x : Binary64) : Nat := x.bits.toNat % signBit

/-- The pattern of positive infinity, the least one that is no finite magnitude. -/
def infinityBits : Nat := 0x7ff0000000000000

/-- Whether the sign bit is set. -/
def isNegative (x : Binary64) : Bool := signBit ≤ x.bits.toNat

/-- Whether the pattern stands for a real number. -/
def isFinite (x : Binary64) : Bool := x.magnitude < infinityBits

/-- Whether the pattern stands for no number at all. -/
def isNaN (x : Binary64) : Bool := infinityBits < x.magnitude

/-- Whether the pattern is a zero of either sign. -/
def isZero (x : Binary64) : Bool := x.magnitude == 0

/-- The same pattern with the other sign. -/
def negate (x : Binary64) : Binary64 := ⟨x.bits ^^^ 0x8000000000000000⟩

/-- The stored exponent; zero is shared by zeros and subnormal numbers. -/
def biasedExponent (x : Binary64) : Nat := x.magnitude / hiddenBit

/-- The whole number that the power of two scales. -/
def significand (x : Binary64) : Nat :=
  x.magnitude % hiddenBit + if x.biasedExponent = 0 then 0 else hiddenBit

/-- The exponent of the power of two that scales the significand. -/
def exponent (x : Binary64) : Int := max x.biasedExponent 1 - 1075

/-- Numerical equality: a not-a-number equals nothing, and the two zeros equal each other. -/
def equal (x y : Binary64) : Bool :=
  !x.isNaN && !y.isNaN && (x == y || x.isZero && y.isZero)

theorem equal_comm (x y : Binary64) : x.equal y = y.equal x := by
  simp only [equal, Bool.and_comm x.isZero, Bool.beq_comm (a := x)]
  cases x.isNaN <;> cases y.isNaN <;> rfl

theorem equal_self_iff (x : Binary64) : x.equal x = true ↔ x.isNaN = false := by
  simp [equal]

end Binary64

end TreeHandles
