import Mathlib
import TreeHandles.Json.Literal

/-!
# How far a machine number is from what it was rounded from

Rounding keeps 53 bits of a significand and takes the nearer neighbour, so that a number grows by at
most one part in `2 ^ 53`.  This holds of a whole number of 64 bits, of a power of ten, and of the
product of two numbers.  A product of two such numbers is therefore finite as long as what they stand
for has a product that is well below `2 ^ 1024`, where the range ends.

**Results.**
* `exists_round`: a significand of 53 bits or more is rounded to a normal one, half a unit off at most.
* `unpack_pack`: a normal number within the range is unpacked as it was packed.
* `close_ofNat` and `close_powerOfTen`: whole numbers and powers of ten are close to their machine
  numbers.
* `isInf_mul`: a product of machine numbers that are close to small numbers is finite.
-/

namespace TreeHandles
namespace Rounding

open Float.Model Float.Model.UnpackedFloat

section Shifting

variable {em : ExtendedMantissa}

theorem shift_succ (em : ExtendedMantissa) (k : Nat) : em >>> (k + 1) = (em >>> k).shiftRightOne :=
  rfl

theorem mantissa_shift (em : ExtendedMantissa) (k : Nat) :
    (em >>> k).mantissa = em.mantissa / 2 ^ k := by
  induction k with
  | zero => exact (Nat.div_one _).symm
  | succ k ih =>
      rw [shift_succ, ExtendedMantissa.shiftRightOne, ih, Nat.div_div_eq_div_mul, Nat.pow_succ]

theorem le_mod_of_roundBit_shift {k : Nat} (set : (em >>> (k + 1)).roundBit = true) :
    2 ^ k ≤ em.mantissa % 2 ^ (k + 1) := by
  rw [shift_succ, ExtendedMantissa.shiftRightOne, mantissa_shift] at set
  have odd : em.mantissa / 2 ^ k % 2 = 1 := by simpa using set
  rw [Nat.pow_succ, Nat.mod_mul, odd]
  omega

/-- Rounding adds one at most, and nothing if the bit behind the significand is not set. -/
theorem roundedMantissa_mem (em : ExtendedMantissa) :
    em.mantissa ≤ em.roundedMantissa ∧ em.roundedMantissa ≤ em.mantissa + em.roundBit.toNat := by
  obtain ⟨m, round, sticky⟩ := em
  cases round <;> cases sticky <;>
    simp [ExtendedMantissa.roundedMantissa, ExtendedMantissa.accuracy, Accuracy.roundToNearestEven]
  omega

/-- **A significand that is rounded exceeds what it stood for by at most half a unit.** -/
theorem rounded_shift_le (em : ExtendedMantissa) (exact : em.roundBit = false) (k : Nat) :
    2 * ((em >>> k).roundedMantissa * 2 ^ k) ≤ 2 * em.mantissa + 2 ^ k := by
  have rounded := (roundedMantissa_mem (em >>> k)).2
  rw [mantissa_shift] at rounded
  have whole := Nat.div_add_mod' em.mantissa (2 ^ k)
  have scaled := Nat.mul_le_mul_right (2 ^ k) rounded
  rw [Nat.add_mul] at scaled
  cases bit : (em >>> k).roundBit with
  | false =>
      rw [bit, Bool.toNat_false, Nat.zero_mul] at scaled
      omega
  | true =>
      rw [bit, Bool.toNat_true, Nat.one_mul] at scaled
      cases k with
      | zero => exact absurd (exact.symm.trans bit) Bool.false_ne_true
      | succ k =>
          -- It is rounded up only from the middle on.
          have half : 2 ^ k ≤ em.mantissa % 2 ^ (k + 1) := le_mod_of_roundBit_shift bit
          have double : 2 ^ (k + 1) = 2 * 2 ^ k := Nat.pow_succ'
          omega

end Shifting

section Rounding

/-- The significand of a normal number. -/
structure Normal (m : Nat) : Prop where
  least : 2 ^ 52 ≤ m
  most : m < 2 ^ 53

instance (m : Nat) : Decidable (Normal m) :=
  decidable_of_iff (2 ^ 52 ≤ m ∧ m < 2 ^ 53) ⟨fun h => ⟨h.1, h.2⟩, fun h => ⟨h.1, h.2⟩⟩

variable {m k : Nat} {e : Int}

theorem log2_of_normal (normal : Normal m) : m.log2 = 52 :=
  (Nat.log2_eq_iff (by have := normal.least; omega)).mpr ⟨normal.least, normal.most⟩

/-- A significand of 53 bits or more is shifted until it has 53. -/
theorem shiftToTargetExponent_eq (large : 2 ^ 52 ≤ m) (least : -1074 ≤ e) :
    shiftToTargetExponent .binary64 m e .exact =
      (ExtendedMantissa.mk m false false >>> (m.log2 - 52), e + (m.log2 - 52 : Nat)) := by
  have log : 52 ≤ m.log2 := (Nat.le_log2 (by omega)).mpr large
  have amount : (Format.targetExponent .binary64 (totalExponent m e) - e).toNat = m.log2 - 52 := by
    simp only [Format.targetExponent, totalExponent, Format.mantissaBits, Format.minExponent]
    omega
  simp only [shiftToTargetExponent, shiftToExponent, amount]
  rfl

/-- The shifted significand has 53 bits, or it is the power of two behind those. -/
theorem rounded_mem (low : 2 ^ (k + 52) ≤ m) (high : m < 2 ^ (k + 53)) :
    2 ^ 52 ≤ (ExtendedMantissa.mk m false false >>> k).roundedMantissa ∧
      (ExtendedMantissa.mk m false false >>> k).roundedMantissa ≤ 2 ^ 53 := by
  have quotient := (roundedMantissa_mem (ExtendedMantissa.mk m false false >>> k)).1
  have bound := rounded_shift_le ⟨m, false, false⟩ rfl k
  rw [mantissa_shift] at quotient
  generalize (ExtendedMantissa.mk m false false >>> k).roundedMantissa = r at quotient bound ⊢
  dsimp only at quotient bound
  refine ⟨Nat.le_trans ((Nat.le_div_iff_mul_le (Nat.two_pow_pos k)).mpr ?_) quotient, ?_⟩
  · rw [← Nat.pow_add, Nat.add_comm]
    exact low
  · have scaled : r * 2 ^ k < (2 ^ 53 + 1) * 2 ^ k := by
      rw [Nat.add_mul, ← Nat.pow_add, Nat.add_comm 53]
      omega
    exact Nat.le_of_lt_succ (Nat.lt_of_mul_lt_mul_right scaled)

/-- **A significand of 53 bits or more is rounded to a normal one**, and what it stands for grows by at
most half of the unit that is lost. -/
theorem exists_round (large : 2 ^ 52 ≤ m) (least : -1074 ≤ e) (s : Sign) :
    ∃ r j k : Nat, ∃ positive : 0 < r,
      roundWithAccuracy .binary64 s m e .exact = .finite s r (e + j) positive ∧
      Normal r ∧ 2 ^ (k + 52) ≤ m ∧ 2 * (r * 2 ^ j) ≤ 2 * m + 2 ^ k := by
  have log : 52 ≤ m.log2 := (Nat.le_log2 (by omega)).mpr large
  obtain ⟨k, hk⟩ : ∃ k, m.log2 = k + 52 := ⟨m.log2 - 52, by omega⟩
  obtain ⟨low, high⟩ : 2 ^ (k + 52) ≤ m ∧ m < 2 ^ (k + 53) := (Nat.log2_eq_iff (by omega)).mp hk
  have first := shiftToTargetExponent_eq large least
  rw [hk, Nat.add_sub_cancel] at first
  have bound := rounded_shift_le ⟨m, false, false⟩ rfl k
  obtain ⟨atLeast, atMost⟩ := rounded_mem low high
  generalize rounded : (ExtendedMantissa.mk m false false >>> k).roundedMantissa = r
    at bound atLeast atMost
  have second := shiftToTargetExponent_eq (e := e + k) atLeast (by omega)
  rcases Nat.lt_or_eq_of_le atMost with normal | full
  · refine ⟨r, k, k, by omega, ?_, ⟨atLeast, normal⟩, low, bound⟩
    rw [log2_of_normal ⟨atLeast, normal⟩] at second
    simp only [roundWithAccuracy, first, rounded, second, mantissa_shift]
    rw [dif_neg]
    · simp
    · simp
      omega
  · -- Rounding has carried into one bit more, and the significand is shifted once again.
    subst full
    refine ⟨2 ^ 52, k + 1, k, by decide, ?_, ⟨Nat.le_refl _, by decide⟩, low, ?_⟩
    · simp only [Nat.log2_two_pow] at second
      simp only [roundWithAccuracy, first, rounded, second, mantissa_shift]
      rw [dif_neg]
      · congr 1
        push_cast
        omega
      · decide
    · have carried : 2 ^ 52 * 2 ^ (k + 1) = 2 ^ 53 * 2 ^ k := by ring
      rw [carried]
      exact bound

end Rounding

section Packing

variable {m : Nat} {e : Int}

/-- **A normal number within the range is unpacked as it was packed.** -/
theorem unpack_pack (normal : Normal m) (positive : 0 < m) (least : -1074 ≤ e) (most : e ≤ 971)
    (s : Sign) : (pack (.finite s m e positive)).unpack = .finite s m e positive := by
  obtain ⟨biased, hb⟩ : ∃ biased : Nat, (biased : Int) = e + 1075 := ⟨(e + 1075).toNat, by omega⟩
  have exponent : (e + Format.exponentBias .binary64 + (52 : Nat)).toNat = biased := by
    show (e + 1023 + 52).toNat = biased
    omega
  have inside : ¬ 2 ^ 11 ≤ biased + 1 := by omega
  have stored : (BitVec.ofNat 11 biased).toNat = biased := Nat.mod_eq_of_lt (by omega)
  -- The patterns of the subnormal numbers and of the infinities are not used.
  have notLeast : BitVec.ofNat 11 biased ≠ 0#11 := by
    intro same
    rw [same, BitVec.toNat_zero] at stored
    omega
  have notMost : BitVec.ofNat 11 biased ≠ -1#11 := by
    intro same
    rw [same] at stored
    have all : (-1#11).toNat = 2047 := rfl
    omega
  have fraction : (1#1 ++ BitVec.ofNat 52 m).toNat = m := by
    have low := normal.least
    have high := normal.most
    rw [BitVec.toNat_append, ← Nat.shiftLeft_add_eq_or_of_lt (BitVec.isLt _), Nat.shiftLeft_eq,
      BitVec.toNat_ofNat]
    show 1 * 2 ^ 52 + m % 2 ^ 52 = m
    omega
  have packed : UnpackedFloat.pack .binary64 (.finite s m e positive) =
      packComponents .binary64 s (BitVec.ofNat 11 biased) (BitVec.ofNat 52 m) := by
    simp only [UnpackedFloat.pack, exponent, log2_of_normal normal]
    rw [if_neg inside]
    rfl
  show UnpackedFloat.unpack .binary64 (UnpackedFloat.pack .binary64 _) = _
  rw [packed]
  simp only [UnpackedFloat.unpack, unpackMantissa_packComponents, unpackExponent_packComponents,
    unpackSign_packComponents, Sign.ofBitVec_toBitVec, if_neg notMost, if_neg notLeast, fraction,
    stored]
  congr 1
  show (biased : Int) - (1023 + 52) = e
  omega

end Packing

section Closeness

/-- An unpacked number that exceeds a whole number by at most one part in `2 ^ 53`. -/
def Close (v : Nat) : UnpackedFloat → Prop
  | .finite _ m e _ => Normal m ∧ -53 ≤ e ∧ m * 2 ^ (e + 53).toNat ≤ v * (2 ^ 53 + 1)
  | _ => False

instance (v : Nat) : (x : UnpackedFloat) → Decidable (Close v x)
  | .finite _ m e _ => inferInstanceAs (Decidable (Normal m ∧ -53 ≤ e ∧ _ ≤ _))
  | .notANumber | .zero _ | .infinity _ => isFalse id

variable {v : Nat}

/-- A close number has a significand and an exponent. -/
theorem Close.exists_finite {x : UnpackedFloat} (close : Close v x) :
    ∃ s m, ∃ j : Nat, ∃ positive, x = .finite s m (j - 53) positive ∧ Normal m ∧
      m * 2 ^ j ≤ v * (2 ^ 53 + 1) := by
  cases x with
  | finite s m e positive =>
      obtain ⟨normal, least, bound⟩ := close
      refine ⟨s, m, (e + 53).toNat, positive, ?_, normal, bound⟩
      congr 1
      omega
  | _ => exact close.elim

/-- Half a unit is at most one part in `2 ^ 53` of what was rounded. -/
theorem rounded_le {m r j k : Nat} (low : 2 ^ (k + 52) ≤ m)
    (bound : 2 * (r * 2 ^ j) ≤ 2 * m + 2 ^ k) : 2 ^ 53 * (r * 2 ^ j) ≤ m * (2 ^ 53 + 1) := by
  rw [Nat.pow_add] at low
  omega

/-- What is close to a number that is not too large has an exponent that is not too large. -/
theorem lt_of_close {r j k : Nat} (normal : Normal r) (close : r * 2 ^ j ≤ v)
    (small : v < 2 ^ (52 + k)) : j < k := by
  refine Nat.lt_of_not_le fun beyond => Nat.lt_irrefl v (Nat.lt_of_lt_of_le small ?_)
  calc 2 ^ (52 + k) ≤ 2 ^ (52 + j) := Nat.pow_le_pow_right (by decide) (by omega)
    _ = 2 ^ 52 * 2 ^ j := Nat.pow_add ..
    _ ≤ r * 2 ^ j := Nat.mul_le_mul_right _ normal.least
    _ ≤ v := close

/-- **A whole number is close to what it is rounded to**, when it is shifted first so that it has
enough bits. -/
theorem close_of_round {shift k : Nat} (large : 2 ^ 52 ≤ v * 2 ^ shift) (short : shift ≤ 53)
    (within : k ≤ 1025) (small : v * (2 ^ 53 + 1) < 2 ^ (52 + k)) (s : Sign) :
    Close v (pack (roundWithAccuracy .binary64 s (v * 2 ^ shift) (-shift) .exact)).unpack := by
  obtain ⟨r, j, _, positive, rounded, normal, low, bound⟩ :=
    exists_round (e := -shift) large (by omega) s
  have close : r * 2 ^ (53 - shift + j) ≤ v * (2 ^ 53 + 1) := by
    refine Nat.le_of_mul_le_mul_left ?_ (Nat.two_pow_pos shift)
    calc 2 ^ shift * (r * 2 ^ (53 - shift + j))
        = 2 ^ shift * 2 ^ (53 - shift) * (r * 2 ^ j) := by rw [Nat.pow_add]; ac_rfl
      _ = 2 ^ 53 * (r * 2 ^ j) := by rw [← Nat.pow_add, Nat.add_sub_cancel' short]
      _ ≤ v * 2 ^ shift * (2 ^ 53 + 1) := rounded_le low bound
      _ = 2 ^ shift * (v * (2 ^ 53 + 1)) := by ac_rfl
  have inside := lt_of_close normal close small
  have least : -(1074 : Int) ≤ -shift + j := by omega
  have most : -(shift : Int) + j ≤ 971 := by omega
  have exponent : (-(shift : Int) + j + 53).toNat = 53 - shift + j := by omega
  rw [rounded, unpack_pack normal positive least most]
  refine ⟨normal, by omega, ?_⟩
  rw [exponent]
  exact close

/-- **A whole number of 64 bits is close to its machine number.** -/
theorem close_ofNat {n : Nat} (positive : 0 < n) (bound : n < 2 ^ 64) :
    Close n (pack (UnpackedFloat.ofNat .binary64 n)).unpack := by
  have log : n.log2 < 64 := (Nat.log2_lt (by omega)).mpr bound
  have amount : (0 - Format.targetExponent .binary64 (totalExponent n 0)).toNat =
      52 - n.log2 := by
    simp only [Format.targetExponent, totalExponent, Format.mantissaBits, Format.minExponent]
    omega
  have large : 2 ^ 52 ≤ n * 2 ^ (52 - n.log2) := by
    calc 2 ^ 52 ≤ 2 ^ (n.log2 + (52 - n.log2)) :=
          Nat.pow_le_pow_right (by decide) (by omega)
      _ = 2 ^ n.log2 * 2 ^ (52 - n.log2) := Nat.pow_add ..
      _ ≤ n * 2 ^ (52 - n.log2) := Nat.mul_le_mul_right _ (Nat.log2_self_le (by omega))
  have same : UnpackedFloat.ofNat .binary64 n =
      roundWithAccuracy .binary64 .positive (n * 2 ^ (52 - n.log2)) (-(52 - n.log2 : Nat)) .exact := by
    rw [UnpackedFloat.ofNat, UnpackedFloat.ofInt, UnpackedFloat.normalize, Int.compare_eq_gt.mpr (by omega),
      Int.toNat_natCast]
    dsimp only [UnpackedFloat.round, decreaseExponent]
    rw [amount, Nat.shiftLeft_eq, Int.zero_sub]
  rw [same]
  exact close_of_round (k := 66) large (by omega) (by decide) (by omega) .positive

/-- The powers of ten that are machine numbers themselves. -/
theorem close_powerOfTen_short : ∀ e ≤ 22, Close (10 ^ e) (Json.powerOfTen e).toModel.unpack := by
  decide +kernel

theorem powerOfTen_lt {e : Nat} (small : e ≤ 308) : 10 ^ e * (2 ^ 53 + 1) < 2 ^ (52 + 1025) := by
  refine Nat.lt_of_le_of_lt (Nat.mul_le_mul_right _ (Nat.pow_le_pow_right (by decide) small)) ?_
  decide +kernel

/-- **A power of ten up to the 308th is close to its machine number.** -/
theorem close_powerOfTen {e : Nat} (small : e ≤ 308) :
    Close (10 ^ e) (Json.powerOfTen e).toModel.unpack := by
  rcases Nat.lt_or_ge 22 e with long | short
  · have large : 2 ^ 52 ≤ 10 ^ e * 2 ^ 53 := by
      have positive := Nat.pow_pos (n := e) (show 0 < 10 by decide)
      omega
    have same : UnpackedFloat.ofScientific .binary64 1 e =
        roundWithAccuracy .binary64 .positive (10 ^ e * 2 ^ 53) (-(53 : Nat)) .exact := by
      have finite : ¬ (e : Int) > 2 ^ Format.binary64.exponentBits := by
        show ¬ (e : Int) > 2 ^ 11
        omega
      have nonzero : ¬ (e : Int) < -((2 : Int) ^ Format.binary64.exponentBits + Nat.log2 1) := by
        show ¬ (e : Int) < -((2 : Int) ^ 11 + Nat.log2 1)
        omega
      rw [UnpackedFloat.ofScientific, dif_neg (by decide), if_neg finite, if_neg nonzero,
        if_pos (Int.natCast_nonneg e)]
      dsimp only [UnpackedFloat.mul, Int.toNat_natCast]
      rw [Nat.shiftLeft_eq, Nat.one_mul, Nat.mul_comm, Int.add_zero]
      rfl
    rw [Json.powerOfTen, Float.ofScientific, dif_neg (by omega)]
    show Close _ (pack (UnpackedFloat.ofScientific .binary64 1 e)).unpack
    rw [same]
    exact close_of_round large (Nat.le_refl _) (Nat.le_refl _) (powerOfTen_lt small) .positive
  · exact close_powerOfTen_short e short

end Closeness

section Products

/-- What two close numbers can gain together, and half a unit of their product, on a product well below
`2 ^ 1024`. -/
theorem product_lt {v unit : Nat} (half : unit ≤ 2 ^ 1077) (small : v ≤ 2 ^ 1024 - 5 * 2 ^ 970) :
    unit + 2 * (v * ((2 ^ 53 + 1) * (2 ^ 53 + 1))) < 2 * 2 ^ (52 + 1078) := by
  have limit : 2 ^ 1077 + 2 * ((2 ^ 1024 - 5 * 2 ^ 970) * ((2 ^ 53 + 1) * (2 ^ 53 + 1))) <
      2 * 2 ^ (52 + 1078) := by
    decide +kernel
  exact Nat.lt_of_le_of_lt
    (Nat.add_le_add half (Nat.mul_le_mul_left 2 (Nat.mul_le_mul_right _ small))) limit

/-- **The product of two close numbers is finite**, if that of the numbers they are close to is a few
units below the end of the range. -/
theorem isInf_mul {x y : Float} {v w : Nat} (left : Close v x.toModel.unpack)
    (right : Close w y.toModel.unpack) (small : v * w ≤ 2 ^ 1024 - 5 * 2 ^ 970) :
    (x * y).isInf = false := by
  obtain ⟨s, m, i, _, hx, normalX, closeX⟩ := left.exists_finite
  obtain ⟨t, n, j, _, hy, normalY, closeY⟩ := right.exists_finite
  have large : 2 ^ 52 ≤ m * n :=
    Nat.le_trans (by decide) (Nat.mul_le_mul normalX.least normalY.least)
  have least : -(1074 : Int) ≤ (i : Int) - 53 + (j - 53) := by omega
  obtain ⟨r, l, k, positive, rounded, normal, low, bound⟩ := exists_round large least (s * t)
  have product : (x * y).toModel =
      pack (roundWithAccuracy .binary64 (s * t) (m * n) (i - 53 + (j - 53)) .exact) := by
    show pack (UnpackedFloat.mul .binary64 x.toModel.unpack y.toModel.unpack) = _
    rw [hx, hy, UnpackedFloat.mul]
  have close : m * n * 2 ^ (i + j) ≤ v * w * ((2 ^ 53 + 1) * (2 ^ 53 + 1)) := by
    calc m * n * 2 ^ (i + j) = m * 2 ^ i * (n * 2 ^ j) := by rw [Nat.pow_add]; ac_rfl
      _ ≤ v * (2 ^ 53 + 1) * (w * (2 ^ 53 + 1)) := Nat.mul_le_mul closeX closeY
      _ = v * w * ((2 ^ 53 + 1) * (2 ^ 53 + 1)) := by ac_rfl
  -- The unit that rounding loses is small, and so the rounded product is still below the range's end.
  have half : k + (i + j) < 1078 := by
    have total := product_lt (Nat.zero_le _) small
    rw [Nat.zero_add] at total
    refine lt_of_close (r := 2 ^ 52) ⟨Nat.le_refl _, by decide⟩ ?_ (Nat.lt_of_mul_lt_mul_left total)
    calc 2 ^ 52 * 2 ^ (k + (i + j)) = 2 ^ (k + 52) * 2 ^ (i + j) := by ring
      _ ≤ m * n * 2 ^ (i + j) := Nat.mul_le_mul_right _ low
      _ ≤ _ := close
  have inside : i + j + l < 1078 := by
    have total : 2 * (r * 2 ^ (i + j + l)) < 2 * 2 ^ (52 + 1078) := by
      calc 2 * (r * 2 ^ (i + j + l)) = 2 * (r * 2 ^ l) * 2 ^ (i + j) := by
            rw [Nat.pow_add]; ac_rfl
        _ ≤ (2 * (m * n) + 2 ^ k) * 2 ^ (i + j) := Nat.mul_le_mul_right _ bound
        _ = 2 ^ (k + (i + j)) + 2 * (m * n * 2 ^ (i + j)) := by
            rw [Nat.add_mul, ← Nat.pow_add, Nat.mul_assoc, Nat.add_comm]
        _ ≤ 2 ^ (k + (i + j)) + 2 * (v * w * ((2 ^ 53 + 1) * (2 ^ 53 + 1))) :=
            Nat.add_le_add_left (Nat.mul_le_mul_left 2 close) _
        _ < 2 * 2 ^ (52 + 1078) :=
            product_lt (pow_le_pow_right₀ (by decide) (Nat.le_of_lt_succ half)) small
    exact lt_of_close normal (Nat.le_refl _) (Nat.lt_of_mul_lt_mul_left total)
  have most : (i : Int) - 53 + (j - 53) + l ≤ 971 := by omega
  show (x * y).toModel.unpack.isInf = false
  rw [product, rounded, unpack_pack normal positive (by omega) most]
  rfl

end Products

end Rounding
end TreeHandles
