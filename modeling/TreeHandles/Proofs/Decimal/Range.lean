import TreeHandles.Proofs.Decimal.Digits

/-!
# The range of the shortest decimal

The shortest decimal of a finite number has at most seventeen digits, and none of its first digits
write more than the greatest finite number does.  The interval around a number ends below the decimal
of the greatest one, unless it is the interval of the greatest number itself, whose decimal is known.

**Results.**
* `Interval.Chosen.le`: the search ends with a point of at most seventeen digits.
* `Interval.high_le`: what rounds to a number below the greatest one is less than the latter's decimal.
* `exists_moderate`: the shortest decimal of a finite number is in the range of the finite numbers.
* `Moderate.prefix_le`: so are the first digits of such a decimal, at their place.
-/

namespace TreeHandles
namespace Decimal

section Lengths

variable {iv : Interval} {n c : Nat}

/-- A number is less than the power of ten behind its leading exponent. -/
theorem Interval.value_lt (positive : 0 < iv.denominator) : ∃ length scale : Nat,
    iv.leadingExponent + scale + 1 = length ∧
      iv.value * Nat.pow 10 scale < Nat.pow 10 length * iv.denominator := by
  obtain ⟨scale, same⟩ : ∃ scale : Nat, scale = 324 := ⟨_, rfl⟩
  refine ⟨_, scale, ?_, (Nat.div_lt_iff_lt_mul positive).mp <|
    (Nat.length_toDigits_le_iff (by decide) Nat.length_toDigits_pos).mp (Nat.le_refl _)⟩
  rw [Interval.leadingExponent, ← same]
  omega

/-- Two fractions are compared over the product of two scales. -/
theorem mul_lt_of_balanced {a b d v p q s : Nat} (balanced : a * (q * s) = b * p)
    (scaled : v * s < p * d) (positive : 0 < b) : v * b < q * (a * d) := by
  refine Nat.lt_of_mul_lt_mul_right (a := s) ?_
  calc v * b * s = v * s * b := Nat.mul_right_comm ..
    _ < p * d * b := Nat.mul_lt_mul_of_pos_right scaled positive
    _ = b * p * d := by ac_rfl
    _ = q * (a * d) * s := by rw [← balanced]; ac_rfl

theorem Grid.floor_lt_of_value {e : Int} {k l s : Nat} (sum : (k : Int) = e + (l + s : Nat))
    (positive : 0 < iv.denominator)
    (bound : iv.value * Nat.pow 10 s < Nat.pow 10 k * iv.denominator) :
    (Grid.powerOfTen e).floor iv < Nat.pow 10 l := by
  have scale := Grid.powerOfTen_pos e
  have balanced := Grid.powerOfTen_balanced sum
  have split : Nat.pow 10 (l + s) = Nat.pow 10 l * Nat.pow 10 s := Nat.pow_add 10 l s
  rw [split] at balanced
  rw [Grid.floor, Nat.div_lt_iff_lt_mul (Nat.mul_pos scale.1 positive)]
  exact mul_lt_of_balanced balanced bound scale.2

/-- **A grid that is looked at has few points below the number.** -/
theorem Interval.floor_lt (positive : 0 < iv.denominator) (n : Nat) :
    (iv.grid n).floor iv < Nat.pow 10 (n + 1) := by
  obtain ⟨length, scale, exponent, bound⟩ := iv.value_lt positive
  exact Grid.floor_lt_of_value (by omega) positive bound

/-- **The search ends with a point of at most seventeen digits**, or the power of ten behind those. -/
theorem Interval.Chosen.le (chosen : iv.Chosen n c) (positive : 0 < iv.denominator) :
    c ≤ Nat.pow 10 17 := by
  have bound := iv.floor_lt positive n
  have coarse : Nat.pow 10 (n + 1) ≤ Nat.pow 10 17 :=
    Nat.pow_le_pow_right (by decide) (Nat.succ_le_succ chosen.fine)
  have near := chosen.near
  omega

end Lengths

section Bounds

variable {n c : Nat} {x : Binary64}

theorem Interval.ofBinary64_ordered (x : Binary64) :
    (Interval.ofBinary64 x).low ≤ (Interval.ofBinary64 x).high ∧
      (Interval.ofBinary64 x).value ≤ (Interval.ofBinary64 x).high :=
  ⟨Nat.mul_le_mul_right _ (by omega), Nat.mul_le_mul_right _ (by omega)⟩

/-- A point that the search ends with is not above the interval. -/
theorem Interval.Chosen.scaled_le (chosen : (Interval.ofBinary64 x).Chosen n c) :
    ((Interval.ofBinary64 x).grid n).scaled (.ofBinary64 x) c ≤
      (Interval.ofBinary64 x).high * ((Interval.ofBinary64 x).grid n).denominator := by
  obtain ⟨low, value⟩ := Interval.ofBinary64_ordered x
  rcases chosen.origin with inside | ⟨_, rfl⟩
  · have ends := Nat.mul_le_mul_right ((Interval.ofBinary64 x).grid n).denominator low
    simp only [Interval.contains, Bool.or_eq_true, Bool.and_eq_true, decide_eq_true_eq,
      beq_iff_eq] at inside
    omega
  · exact Nat.le_trans (Grid.floor_le _ _) (Nat.mul_le_mul_right _ value)

/-- The power of ten that scales the digits of the greatest finite number.  It is irreducible, so that
no such power is computed while a proof is elaborated. -/
@[irreducible] def greatestExponent : Nat := 292

theorem greatestExponent_eq : greatestExponent = 292 := by
  unfold greatestExponent
  rfl

/-- The greatest finite number as it is written, in seventeen digits. -/
def greatest : Nat := 17976931348623157 * Nat.pow 10 greatestExponent

/-- The magnitude of the greatest finite number. -/
def greatestBits : Nat := Binary64.infinityBits - 1

theorem significand_lt (x : Binary64) : x.significand < 0x20000000000000 := by
  rw [Binary64.significand, Binary64.hiddenBit]
  split <;> omega

/-- The greatest significand belongs to the greatest number. -/
theorem significand_le (below : x.magnitude < greatestBits) (top : 2046 ≤ x.biasedExponent) :
    x.significand ≤ 0x1ffffffffffffe := by
  have nonzero : x.biasedExponent ≠ 0 := by omega
  rw [Binary64.significand, if_neg nonzero]
  rw [Binary64.biasedExponent, Binary64.hiddenBit] at top
  rw [greatestBits, Binary64.infinityBits] at below
  rw [Binary64.hiddenBit]
  omega

/-- **What rounds to a number below the greatest one is less than the decimal of the greatest one.** -/
theorem Interval.high_le (below : x.magnitude < greatestBits) :
    (Interval.ofBinary64 x).high ≤ greatest * (Interval.ofBinary64 x).denominator := by
  have biased : x.biasedExponent ≤ 2046 := by
    rw [greatestBits, Binary64.infinityBits] at below
    rw [Binary64.biasedExponent, Binary64.hiddenBit]
    omega
  have scale (k bound : Nat) (le : (x.exponent - 2).toNat ≤ k)
      (ends : 4 * x.significand + 2 ≤ bound) (fits : bound * Nat.pow 2 k ≤ greatest) :
      (Interval.ofBinary64 x).high ≤ greatest * (Interval.ofBinary64 x).denominator := by
    refine Nat.le_trans ?_ (Nat.le_mul_of_pos_right _ (Nat.pow_pos (by decide)))
    exact Nat.le_trans (Nat.mul_le_mul ends (Nat.pow_le_pow_right (by decide) le)) fits
  -- With the greatest exponent, the greatest significand is out of the question.
  rcases Nat.lt_or_ge x.biasedExponent 2046 with small | top
  · have bound := significand_lt x
    refine scale 968 0x80000000000000 ?_ (by omega) (by decide +kernel)
    rw [Binary64.exponent]
    omega
  · have bound := significand_le below top
    refine scale 969 0x7ffffffffffffa ?_ (by omega) (by decide +kernel)
    rw [Binary64.exponent]
    omega

/-- The decimal of the greatest number, of either sign. -/
theorem shortest_greatest (tie : Tie) (same : x.magnitude = greatestBits) :
    shortest tie x = ofGrid 17976931348623157 greatestExponent := by
  have bound := x.bits.toNat_lt
  simp only [Binary64.magnitude, Binary64.signBit, greatestBits, Binary64.infinityBits] at same
  have bits : x.bits.toNat = 0x7fefffffffffffff ∨ x.bits.toNat = 0xffefffffffffffff := by omega
  have either : x = ⟨0x7fefffffffffffff⟩ ∨ x = ⟨0xffefffffffffffff⟩ :=
    bits.imp (fun h => congrArg Binary64.mk (UInt64.toNat_inj.mp h))
      fun h => congrArg Binary64.mk (UInt64.toNat_inj.mp h)
  rcases either with rfl | rfl <;> cases tie <;> decide +kernel

end Bounds

section Range

variable {n c : Nat} {e : Int} {x : Binary64}

/-- A grid point above zero that has few digits and is no greater than the greatest finite number. -/
structure Moderate (c : Nat) (e : Int) : Prop where
  positive : 0 < c
  short : c ≤ Nat.pow 10 17
  least : -400 ≤ e
  most : e ≤ 308
  bounded : c * (Grid.powerOfTen e).numerator ≤ greatest * (Grid.powerOfTen e).denominator

theorem moderate_greatest : Moderate 17976931348623157 greatestExponent :=
  ⟨by decide, by decide, by decide +kernel, by decide +kernel, by decide +kernel⟩

theorem Interval.Chosen.moderate (chosen : (Interval.ofBinary64 x).Chosen n c)
    (nonzero : x.isZero = false) (below : x.magnitude < greatestBits) :
    Moderate c ((Interval.ofBinary64 x).leadingExponent - n) := by
  have denominator : 0 < (Interval.ofBinary64 x).denominator := Nat.pow_pos (by decide)
  have fine := chosen.fine
  refine ⟨chosen.pos nonzero, chosen.le denominator, ?least, ?most, ?bounded⟩
  case least =>
    rw [Interval.leadingExponent]
    omega
  case most =>
    have length : (Nat.toDigits 10 ((Interval.ofBinary64 x).value * Nat.pow 10 324 /
        (Interval.ofBinary64 x).denominator)).length ≤ 633 := by
      rw [Nat.length_toDigits_le_iff (by decide) (by decide), Nat.div_lt_iff_lt_mul denominator]
      calc (Interval.ofBinary64 x).value * Nat.pow 10 324
          ≤ greatest * (Interval.ofBinary64 x).denominator * Nat.pow 10 324 :=
            Nat.mul_le_mul_right _
              (Nat.le_trans (Interval.ofBinary64_ordered x).2 (Interval.high_le below))
        _ = greatest * Nat.pow 10 324 * (Interval.ofBinary64 x).denominator := Nat.mul_right_comm ..
        _ < _ := Nat.mul_lt_mul_of_pos_right (by decide +kernel) denominator
    rw [Interval.leadingExponent]
    omega
  case bounded =>
    refine Nat.le_of_mul_le_mul_right ?_ denominator
    calc c * (Grid.powerOfTen _).numerator * (Interval.ofBinary64 x).denominator
        ≤ (Interval.ofBinary64 x).high * (Grid.powerOfTen _).denominator := chosen.scaled_le
      _ ≤ greatest * (Interval.ofBinary64 x).denominator * (Grid.powerOfTen _).denominator :=
          Nat.mul_le_mul_right _ (Interval.high_le below)
      _ = greatest * (Grid.powerOfTen _).denominator * (Interval.ofBinary64 x).denominator :=
          Nat.mul_right_comm ..

/-- **The shortest decimal of a finite number is in the range of the finite numbers.** -/
theorem exists_moderate (tie : Tie) (finite : x.isFinite = true) (nonzero : x.isZero = false) :
    ∃ c e, shortest tie x = ofGrid c e ∧ Moderate c e := by
  have bits : x.magnitude < Binary64.infinityBits := by simpa [Binary64.isFinite] using finite
  rcases Nat.lt_or_eq_of_le (Nat.le_sub_one_of_lt bits) with below | same
  · obtain ⟨n, c, chosen, shortest⟩ := exists_chosen tie x
    exact ⟨c, _, shortest, chosen.moderate nonzero below⟩
  · exact ⟨_, _, shortest_greatest tie same, moderate_greatest⟩

end Range

section Prefixes

variable {c : Nat} {e : Int}

/-- The first digits of a number write no more than the number, at their place. -/
theorem ofDigitChars_take_le (c a : Nat) :
    Nat.ofDigitChars 10 ((Nat.toDigits 10 c).take a) 0 *
      Nat.pow 10 ((Nat.toDigits 10 c).length - a) ≤ c := by
  have whole : Nat.ofDigitChars 10 (Nat.toDigits 10 c) 0 = c := Nat.ofDigitChars_ten_toDigits
  rw [← List.take_append_drop a (Nat.toDigits 10 c), Nat.ofDigitChars_append,
    Nat.ofDigitChars_eq_ofDigitChars_zero, List.length_drop, Nat.mul_comm] at whole
  exact Nat.le_of_add_right_le (Nat.le_of_eq whole)

/-- **The first digits of a decimal in the range are in the range**, as a number with few digits that a
power of ten brings to their place. -/
theorem Moderate.prefix_le {a k : Nat} (moderate : Moderate c e)
    (inside : a ≤ (ofGrid c e).digits.length) (place : (k : Int) = (ofGrid c e).exponent + 1 - a) :
    Nat.ofDigitChars 10 ((ofGrid c e).digits.take a) 0 ≤ Nat.pow 10 17 ∧
      Nat.ofDigitChars 10 ((ofGrid c e).digits.take a) 0 * Nat.pow 10 k ≤ greatest := by
  obtain ⟨zeros, whole⟩ := prefix_digits_ofGrid c e
  have same : (ofGrid c e).digits.take a = (Nat.toDigits 10 c).take a := by
    rw [← whole, List.take_append_of_le_length inside]
  have balanced : (Grid.powerOfTen e).numerator * Nat.pow 10 ((Nat.toDigits 10 c).length - a) =
      (Grid.powerOfTen e).denominator * Nat.pow 10 k := by
    have exponent : (ofGrid c e).exponent = e + (Nat.toDigits 10 c).length - 1 := rfl
    have shorter := (prefix_digits_ofGrid c e).length_le
    exact Grid.powerOfTen_balanced (by omega)
  have bound := ofDigitChars_take_le c a
  rw [same]
  generalize Nat.ofDigitChars 10 ((Nat.toDigits 10 c).take a) 0 = first at bound ⊢
  refine ⟨?_, ?_⟩
  · have less : first ≤ c :=
      Nat.le_trans (Nat.le_mul_of_pos_right _ (Nat.pow_pos (by decide))) bound
    exact Nat.le_trans less moderate.short
  · refine Nat.le_of_mul_le_mul_right ?_ (Grid.powerOfTen_pos e).2
    calc first * Nat.pow 10 k * (Grid.powerOfTen e).denominator
        = first * ((Grid.powerOfTen e).denominator * Nat.pow 10 k) := by
          rw [Nat.mul_assoc, Nat.mul_comm (Nat.pow 10 k)]
      _ = first * Nat.pow 10 ((Nat.toDigits 10 c).length - a) * (Grid.powerOfTen e).numerator := by
          rw [← balanced, Nat.mul_comm (Grid.powerOfTen e).numerator, ← Nat.mul_assoc]
      _ ≤ c * (Grid.powerOfTen e).numerator := Nat.mul_le_mul_right _ bound
      _ ≤ greatest * (Grid.powerOfTen e).denominator := moderate.bounded

theorem Moderate.natAbs_exponent_le (moderate : Moderate c e) :
    (ofGrid c e).exponent.natAbs ≤ 500 := by
  have length : (Nat.toDigits 10 c).length ≤ 18 := by
    rw [Nat.length_toDigits_le_iff (by decide) (by decide)]
    exact Nat.lt_of_le_of_lt moderate.short (by decide)
  have exponent : (ofGrid c e).exponent = e + (Nat.toDigits 10 c).length - 1 := rfl
  have least := moderate.least
  have most := moderate.most
  omega

end Prefixes

end Decimal
end TreeHandles
