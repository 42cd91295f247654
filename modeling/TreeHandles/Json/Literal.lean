import TreeHandles.Json.Reader

/-!
# Number literals

A literal is an optional minus, a whole number without superfluous zeros, and optionally a
fraction and an exponent.  A literal with neither of the two is an integer, if it fits one of the
integer ranges.  All others are floating-point numbers: of their digits as many as fit 64 bits are
kept, and the number is scaled by a power of ten with one rounding per step, so that it need not
be the nearest.

**Results.**
* `absorb_le`: the digits that are kept never exceed the limit.
* `absorb_append`: the digits that are kept and those that are not make up the digits given.
-/

namespace TreeHandles
namespace Json

/-- A number as it is written. -/
structure Literal where
  negative : Bool
  /-- The digits before the point. -/
  whole : List Char
  /-- The digits after the point; none if there is no point. -/
  fraction : List Char
  /-- Whether the exponent is negative, and its digits. -/
  exponent : Option (Bool × List Char)
  deriving DecidableEq, Repr

/-- Reads the digits after a place where one is required. -/
def someDigits (atEnd : Cause) : Reader true (List Char) :=
  .peek fun
    | none => .refuse atEnd 0
    | some c =>
        if c.isDigit then
          (Reader.next atEnd).bind fun d => (Reader.span Char.isDigit).map (d :: ·)
        else .refuse .numberInvalid 1

/-- Reads the digits before the point: a zero alone, or digits that do not start with one. -/
def wholeDigits (atEnd : Cause) : Reader true (List Char) :=
  .peek fun
    | some '0' =>
        (Reader.next atEnd).andThen <| .peek fun
          | some c => if c.isDigit then .refuse .numberInvalid 1 else .pure ['0']
          | none => .pure ['0']
    | _ => someDigits atEnd

/-- Reads a point and the digits after it, if there is one. -/
def fractionDigits (atEnd : Cause) : Reader false (List Char) :=
  .peek fun
    | some '.' => ((Reader.next atEnd).andThen (someDigits atEnd)).relax
    | _ => .pure []

/-- Reads the sign of an exponent, if there is one, and tells whether it is a minus. -/
def exponentSign (atEnd : Cause) : Reader false Bool :=
  .peek fun
    | some '+' => ((Reader.next atEnd).map fun _ => false).relax
    | some '-' => ((Reader.next atEnd).map fun _ => true).relax
    | _ => .pure false

/-- Reads an exponent, if there is one. -/
def exponentPart (atEnd : Cause) : Reader false (Option (Bool × List Char)) :=
  .peek fun c =>
    if c = some 'e' ∨ c = some 'E' then
      ((Reader.next atEnd).andThen <| (exponentSign atEnd).bind fun negative =>
        (someDigits atEnd).map fun digits => some (negative, digits)).relax
    else .pure none

/-- Reads a minus, if there is one, and tells whether there is. -/
def minusSign (atEnd : Cause) : Reader false Bool :=
  .peek fun
    | some '-' => ((Reader.next atEnd).map fun _ => true).relax
    | _ => .pure false

/-- Reads a literal, given the cause of a fault where the text ends inside it. -/
def literal (atEnd : Cause) : Reader true Literal :=
  (minusSign atEnd).bind fun negative =>
    (wholeDigits atEnd).bind fun whole =>
      (fractionDigits atEnd).bind fun fraction =>
        (exponentPart atEnd).map fun exponent => ⟨negative, whole, fraction, exponent⟩

/-- The value of a decimal digit. -/
def digitValue (c : Char) : Nat := c.toNat - '0'.toNat

/-- Appends digits to a number as long as it stays within a limit; the others are left over. -/
def absorb (limit : Nat) : Nat → List Char → Nat × List Char
  | n, [] => (n, [])
  | n, d :: rest =>
      if n * 10 + digitValue d ≤ limit then absorb limit (n * 10 + digitValue d) rest
      else (n, d :: rest)

theorem absorb_le {limit n : Nat} (h : n ≤ limit) (digits : List Char) :
    (absorb limit n digits).1 ≤ limit := by
  fun_induction absorb limit n digits with
  | case1 => exact h
  | case2 n d rest fits ih => exact ih fits
  | case3 => exact h

theorem absorb_append (limit n : Nat) (digits : List Char) :
    ∃ kept, digits = kept ++ (absorb limit n digits).2 := by
  fun_induction absorb limit n digits with
  | case1 => exact ⟨[], rfl⟩
  | case2 n d rest fits ih =>
      obtain ⟨kept, h⟩ := ih
      exact ⟨d :: kept, by rw [List.cons_append, ← h]⟩
  | case3 => exact ⟨[], rfl⟩

/-- A number of 64 bits, with the power of ten that scales it. -/
structure Scaled where
  significand : Nat
  exponent : Int
  deriving DecidableEq, Repr

/-- The greatest significand, that of 64 bits. -/
def significandLimit : Nat := 0xffffffffffffffff

/-- The greatest exponent that is read in full, that of 31 bits. -/
def exponentLimit : Nat := 0x7fffffff

/-- The number of negative integers, one more than that of positive ones. -/
def integerBound : Nat := 0x8000000000000000

namespace Literal

/-- The digits of a literal that fit, without its exponent.  Whole digits that do not fit only
scale; digits of the fraction that do not fit are dropped. -/
def scaled (l : Literal) : Scaled :=
  let whole := absorb significandLimit 0 l.whole
  let fraction := absorb significandLimit whole.1 l.fraction
  { significand := fraction.1
    exponent := whole.2.length - (l.fraction.length - fraction.2.length : Nat) }

end Literal

/-- The floating-point number of a power of ten up to the 308th. -/
def powerOfTen (e : Nat) : Float := Float.ofScientific 1 false e

/-- Divides by a power of ten, in steps of at most the 308th, until nothing is left. -/
def scaleDown (x : Float) (e : Nat) : Float :=
  if h : e ≤ 308 then x / powerOfTen e
  else if x == 0 then x
  else scaleDown (x / powerOfTen 308) (e - 308)
termination_by e

/-- The floating-point number of a scaled significand; none if it is beyond the range. -/
def Scaled.toFloat? (s : Scaled) : Option Float :=
  let x := s.significand.toUInt64.toFloat
  let e := s.exponent.natAbs
  if s.exponent < 0 then some (scaleDown x e)
  else if e ≤ 308 then
    let y := x * powerOfTen e
    if y.isInf then none else some y
  else if x == 0 then some x
  else none

/-- A floating-point number with the sign of a literal. -/
def signed (negative : Bool) (x : Float) : Scalar :=
  let x := Binary64.ofFloat x
  .float (if negative then x.negate else x)

/-- The floating-point scalar of a scaled significand, or nothing left to read when it is too
large. -/
def Scaled.scalar (negative : Bool) (s : Scaled) : Except (List Char) Scalar :=
  match s.toFloat? with
  | some x => .ok (signed negative x)
  | none => .error []

namespace Literal

/-- The scalar of an integer literal of which all digits fit. -/
def integer (negative : Bool) (n : Nat) : Scalar :=
  if negative then
    if n = 0 ∨ integerBound < n then signed true n.toUInt64.toFloat else .int (Int64.ofInt (-n))
  else if n < integerBound then .int (Int64.ofInt n)
  else .uint n.toUInt64

/-- The scalar that a literal writes.  A literal that is too large is refused at its end, or after
the digit of its exponent by which that leaves its range; the characters after that place are the
error. -/
def scalar (l : Literal) : Except (List Char) Scalar :=
  match l.exponent with
  | none =>
      if l.fraction.isEmpty && l.scaled.exponent == 0 then
        .ok (integer l.negative l.scaled.significand)
      else l.scaled.scalar l.negative
  | some (negative, digits) =>
      match absorb exponentLimit 0 digits with
      | (e, []) =>
          let exponent := if negative then l.scaled.exponent - e else l.scaled.exponent + e
          Scaled.scalar l.negative { l.scaled with exponent := exponent }
      | (_, _ :: unread) =>
          if l.scaled.significand ≠ 0 ∧ !negative then .error unread else .ok (signed l.negative 0)

end Literal

/-- Reads a number. -/
def number : Reader true Scalar :=
  (literal .valueMissing).bind fun l =>
    match l.scalar with
    | .ok s => .pure s
    | .error unread => .refuseBefore unread .numberTooLarge

/-- Skips a number, whatever its size. -/
def skipNumber : Reader true Unit := (literal .numberInvalid).map fun _ => ()

end Json

end TreeHandles
