import TreeHandles.Proofs.Binary64.Rounding
import TreeHandles.Proofs.Decimal.Range
import TreeHandles.Proofs.Json.Floats

/-!
# Literals within the range of the reader

The reader turns the digits that fit 64 bits into a machine number and scales it by a power of ten.
Scaling down always has a result, but scaling up may leave the range.  The reader rounds more than once,
so that a decimal of the range is not enough by itself: a few units below its end an estimate of the
errors decides, and the last three significands are scaled one by one.  The text of a finite number stays
within these bounds.

**Results.**
* `Scaled.inRange_of_le_greatest`: what is not above the decimal of the greatest number is scaled within
  the range.
* `Literal.scalar_eq_rescaled`: a literal that is no integer is read as what its digits are scaled to.
* `Literal.Positional.inRange` and `inRange_scientificLiteral`: both forms of a finite number are within
  the range.
* `exists_literal_inRange`: so is the text of every finite number.
-/

namespace TreeHandles
namespace Json

open Decimal Rounding

section Ranges

/-- A scaled significand is within the range of the machine numbers. -/
def Scaled.InRange (s : Scaled) : Prop := s.toFloat?.isSome = true

instance (s : Scaled) : Decidable s.InRange := inferInstanceAs (Decidable (_ = true))

variable {n k : Nat}

theorem Scaled.inRange_of_neg {s : Scaled} (below : s.exponent < 0) : s.InRange := by
  rw [InRange, toFloat?, if_pos below]
  rfl

/-- What is scaled up is in the range if the product is finite. -/
theorem Scaled.inRange_of_isInf (small : k ≤ 308)
    (finite : (n.toUInt64.toFloat * powerOfTen k).isInf = false) : Scaled.InRange ⟨n, k⟩ := by
  have up : ¬ (k : Int) < 0 := by omega
  simp only [InRange, toFloat?]
  rw [if_neg up, Int.natAbs_natCast, if_pos small, finite, if_neg Bool.false_ne_true]
  rfl

theorem close_toFloat (positive : 0 < n) (bound : n < 2 ^ 64) :
    Close n n.toUInt64.toFloat.toModel.unpack := by
  have same : n.toUInt64.toNat = n := UInt64.toNat_ofNat_of_lt' bound
  show Close n (Float.Model.pack (.ofNat .binary64 n.toUInt64.toNat)).unpack
  rw [same]
  exact close_ofNat positive bound

theorem Scaled.inRange_of_mul_le (positive : 0 < n) (bound : n < 2 ^ 64) (small : k ≤ 308)
    (product : n * 10 ^ k ≤ 2 ^ 1024 - 5 * 2 ^ 970) : Scaled.InRange ⟨n, k⟩ :=
  inRange_of_isInf small <|
    isInf_mul (close_toFloat positive bound) (close_powerOfTen small) product

/-- The significands that are too close to the end of the range for an estimate. -/
theorem Scaled.inRange_last : Scaled.InRange ⟨17976931348623155, 292⟩ ∧
    Scaled.InRange ⟨17976931348623156, 292⟩ ∧ Scaled.InRange ⟨17976931348623157, 292⟩ := by
  decide +kernel

theorem lt_of_pow_le {b limit : Nat} (top : limit < Nat.pow 10 b) (le : Nat.pow 10 k ≤ limit) :
    k < b :=
  (Nat.pow_lt_pow_iff_right (a := 10) (by decide)).mp (Nat.lt_of_le_of_lt le top)

theorem lt_of_lt_mul_pow {b m limit : Nat} (bottom : m * Nat.pow 10 b ≤ limit) (short : n ≤ m)
    (large : limit < n * Nat.pow 10 k) : b < k := by
  refine Nat.lt_of_not_le fun less => Nat.lt_irrefl limit (Nat.lt_of_lt_of_le large ?_)
  exact Nat.le_trans (Nat.mul_le_mul short (Nat.pow_le_pow_right (by decide) less)) bottom

/-- What is above the estimate but not above the greatest number has its first seventeen digits among
three numbers. -/
theorem last_of_lt_mul (short : n ≤ Nat.pow 10 17) (bounded : n * Nat.pow 10 k ≤ greatest)
    (large : 2 ^ 1024 - 5 * 2 ^ 970 < n * Nat.pow 10 k) :
    k = greatestExponent ∧ 17976931348623155 ≤ n ∧ n ≤ 17976931348623157 := by
  have low : 17976931348623154 * Nat.pow 10 greatestExponent < n * Nat.pow 10 k :=
    Nat.lt_of_le_of_lt (by decide +kernel) large
  have enough : 291 < k := lt_of_lt_mul_pow (by decide +kernel) short low
  obtain ⟨j, rfl⟩ : ∃ j, k = j + greatestExponent :=
    Nat.exists_eq_add_of_le' (greatestExponent_eq ▸ enough)
  have sum (a b : Nat) : Nat.pow 10 (a + b) = Nat.pow 10 a * Nat.pow 10 b := Nat.pow_add 10 a b
  rw [sum, ← Nat.mul_assoc] at low bounded
  have least := Nat.lt_of_mul_lt_mul_right low
  have most : n * Nat.pow 10 j ≤ 17976931348623157 :=
    Nat.le_of_mul_le_mul_right bounded (Nat.pow_pos (by decide))
  -- No multiple of ten is in between.
  cases j with
  | zero =>
      have one : n * Nat.pow 10 0 = n := Nat.mul_one n
      exact ⟨Nat.zero_add _, by omega, by omega⟩
  | succ i =>
      have ten : n * Nat.pow 10 (i + 1) = 10 * (n * Nat.pow 10 i) := by
        show n * (Nat.pow 10 i * 10) = _
        ac_rfl
      omega

theorem Scaled.inRange_of_le_greatest (positive : 0 < n) (short : n ≤ Nat.pow 10 17)
    (bounded : n * Nat.pow 10 k ≤ greatest) : Scaled.InRange ⟨n, k⟩ := by
  rcases Nat.lt_or_ge (2 ^ 1024 - 5 * 2 ^ 970) (n * Nat.pow 10 k) with large | small
  · obtain ⟨rfl, least, most⟩ := last_of_lt_mul short bounded large
    rw [greatestExponent_eq]
    obtain ⟨first, second, third⟩ := Scaled.inRange_last
    have cases : n = 17976931348623155 ∨ n = 17976931348623156 ∨ n = 17976931348623157 := by omega
    rcases cases with rfl | rfl | rfl
    · exact first
    · exact second
    · exact third
  · exact inRange_of_mul_le positive (Nat.lt_of_le_of_lt short (by decide))
      (Nat.le_of_lt_succ (lt_of_pow_le (by decide +kernel)
        (Nat.le_trans (Nat.le_mul_of_pos_left _ positive) bounded))) small

end Ranges

section Values

variable {digits : List Char} {d : Char} {n : Nat}

theorem digitValue_le (digit : d.isDigit = true) : digitValue d ≤ 9 := by
  have range := Char.isDigit_iff_toNat.mp digit
  rw [digitValue]
  exact Nat.sub_le_of_le_add range.2

/-- Digits write less than the power of ten that has one digit more. -/
theorem ofDigitChars_lt (digit : ∀ c ∈ digits, c.isDigit = true) (n : Nat) :
    Nat.ofDigitChars 10 digits n < (n + 1) * Nat.pow 10 digits.length := by
  induction digits generalizing n with
  | nil => exact Nat.lt_of_lt_of_eq (Nat.lt_succ_self n) (Nat.mul_one _).symm
  | cons d ds ih =>
      obtain ⟨first, others⟩ := List.forall_mem_cons.mp digit
      have small := digitValue_le first
      rw [ofDigitChars_cons_digitValue]
      calc Nat.ofDigitChars 10 ds (n * 10 + digitValue d)
          < (n * 10 + digitValue d + 1) * Nat.pow 10 ds.length := ih others _
        _ ≤ (n + 1) * 10 * Nat.pow 10 ds.length := Nat.mul_le_mul_right _ (by omega)
        _ = (n + 1) * Nat.pow 10 (ds.length + 1) := by
          rw [Nat.mul_assoc, Nat.mul_comm 10]
          rfl

/-- Digits of which the first one is not a zero write a number above zero. -/
theorem ofDigitChars_pos (digit : d.isDigit = true) (other : d ≠ '0') :
    0 < Nat.ofDigitChars 10 (d :: digits) 0 := by
  have range := Char.isDigit_iff_toNat.mp digit
  have value : 0 < digitValue d :=
    Nat.sub_pos_of_lt (Nat.lt_of_le_of_ne range.1 fun same => other (Char.toNat_inj.mp same.symm))
  rw [ofDigitChars_cons_digitValue, Nat.zero_mul, Nat.zero_add,
    Nat.ofDigitChars_eq_ofDigitChars_zero]
  exact Nat.lt_of_lt_of_le (Nat.mul_pos (Nat.pow_pos (by decide)) value) (Nat.le_add_right _ _)

/-- A digit that certainly fits is not left over. -/
theorem length_snd_absorb_le {limit : Nat} (digit : d.isDigit = true) (fits : n * 10 + 9 ≤ limit) :
    (absorb limit n (d :: digits)).2.length ≤ digits.length := by
  have small := digitValue_le digit
  rw [absorb, if_pos (by omega)]
  obtain ⟨kept, whole⟩ := absorb_append limit (n * 10 + digitValue d) digits
  have length := congrArg List.length whole
  rw [List.length_append] at length
  omega

end Values

section Literals

/-- The exponent that a literal writes. -/
def Literal.power (l : Literal) : Int :=
  match l.exponent with
  | none => 0
  | some (negative, digits) =>
      if negative then -(Nat.ofDigitChars 10 digits 0 : Int) else Nat.ofDigitChars 10 digits 0

/-- The digits of a literal that fit, with its exponent. -/
def Literal.rescaled (l : Literal) : Scaled :=
  { l.scaled with exponent := l.scaled.exponent + l.power }

variable {l : Literal}

/-- A literal whose exponent is read in full and whose digits are scaled within the range. -/
structure Literal.InRange (l : Literal) : Prop where
  exponent : ∀ e ∈ l.exponent, Nat.ofDigitChars 10 e.2 0 ≤ exponentLimit
  rescaled : l.rescaled.InRange

/-- **A literal with a fraction or an exponent writes the number that its digits are scaled to**, if its
exponent is read in full. -/
theorem Literal.scalar_eq_rescaled (floating : l.Floating)
    (fits : ∀ e ∈ l.exponent, Nat.ofDigitChars 10 e.2 0 ≤ exponentLimit) :
    l.scalar = l.rescaled.scalar l.negative := by
  rw [scalar, rescaled, power]
  cases exponent : l.exponent with
  | none =>
      have some : l.fraction.isEmpty = false := by
        rcases floating with some | some
        · simpa using some
        · exact absurd exponent some
      simp [some]
  | some e =>
      obtain ⟨negative, digits⟩ := e
      rw [exponent] at fits
      simp only [absorb_of_le (fits _ rfl)]
      cases negative <;> rfl

theorem Literal.InRange.exists_scalar (inRange : l.InRange) (floating : l.Floating) :
    ∃ y, l.rescaled.toFloat? = some y ∧ l.scalar = .ok (signed l.negative y) := by
  obtain ⟨y, scaled⟩ := Option.isSome_iff_exists.mp inRange.rescaled
  refine ⟨y, scaled, ?_⟩
  rw [scalar_eq_rescaled floating inRange.exponent, Scaled.scalar, scaled]

/-- The digits before the point of a literal in positional form are few enough to be kept, and so is the
first one behind it. -/
theorem Literal.Positional.inRange (proper : l.Proper) (form : l.Positional 16) : l.InRange := by
  obtain ⟨d, ds, fraction⟩ := List.exists_cons_of_ne_nil form.fraction
  have digit : d.isDigit = true := proper.fraction d (by rw [fraction]; exact List.mem_cons_self)
  have small : Nat.ofDigitChars 10 l.whole 0 < Nat.pow 10 16 := by
    have bound := ofDigitChars_lt proper.whole.digit 0
    rw [Nat.zero_add, Nat.one_mul] at bound
    exact Nat.lt_of_lt_of_le bound (Nat.pow_le_pow_right (by decide) form.places)
  have limit : Nat.pow 10 16 * 10 + 9 ≤ significandLimit := by decide
  have whole : absorb significandLimit 0 l.whole = (Nat.ofDigitChars 10 l.whole 0, []) :=
    absorb_of_le (by omega)
  have length : (absorb significandLimit (Nat.ofDigitChars 10 l.whole 0) (d :: ds)).2.length ≤
      ds.length := length_snd_absorb_le digit (by omega)
  refine ⟨?_, Scaled.inRange_of_neg ?_⟩
  · rw [form.exponent]
    exact nofun
  · rw [rescaled, power, form.exponent]
    simp only [scaled, whole, fraction, List.length_nil, List.length_cons]
    omega

variable {d : Decimal} {c : Nat} {e : Int}

theorem power_scientificLiteral (d : Decimal) : (scientificLiteral d).power = d.exponent := by
  rw [Literal.power, scientificLiteral]
  simp only [Nat.ofDigitChars_ten_toDigits, decide_eq_true_eq]
  split <;> omega

/-- The digits of a decimal in exponent form that fit are its first ones. -/
theorem exists_rescaled_scientificLiteral (leading : d.Leading) : ∃ a,
    a ≤ d.digits.length ∧ 0 < Nat.ofDigitChars 10 (d.digits.take a) 0 ∧
      (scientificLiteral d).rescaled =
        ⟨Nat.ofDigitChars 10 (d.digits.take a) 0, d.exponent + 1 - a⟩ := by
  obtain ⟨k, hk, other⟩ := leading.first
  obtain ⟨ds, same⟩ : ∃ ds, d.digits = k :: ds := List.head?_eq_some_iff.mp hk
  have digit : k.isDigit = true := leading.digit k (by rw [same]; exact List.mem_cons_self)
  have small : Nat.ofDigitChars 10 [k] 0 ≤ significandLimit := by
    have bound := digitValue_le digit
    rw [significandLimit]
    show 10 * 0 + digitValue k ≤ _
    omega
  obtain ⟨kept, split, value⟩ :=
    exists_kept_absorb significandLimit (Nat.ofDigitChars 10 [k] 0) ds
  have first : d.digits.take (kept.length + 1) = k :: kept := by
    rw [same, split, List.take_succ_cons, List.take_left]
  have length := congrArg List.length split
  rw [List.length_append] at length
  refine ⟨kept.length + 1, ?_, ?_, ?_⟩
  · rw [same, List.length_cons]
    omega
  · rw [first]
    exact ofDigitChars_pos digit other
  · rw [Literal.rescaled, power_scientificLiteral, first]
    simp only [Literal.scaled, scientificLiteral, same, List.take_succ_cons, List.take_zero,
      List.drop_succ_cons, List.drop_zero, absorb_of_le small, value, List.length_nil]
    rw [Scaled.mk.injEq]
    exact ⟨rfl, by omega⟩

/-- **A decimal in exponent form is in the range** if it is no greater than the greatest number. -/
theorem inRange_scientificLiteral (moderate : Moderate c e) :
    (scientificLiteral (ofGrid c e)).InRange := by
  refine ⟨?_, ?_⟩
  · rintro _ ⟨⟩
    rw [Nat.ofDigitChars_ten_toDigits]
    exact Nat.le_trans moderate.natAbs_exponent_le (by decide)
  · obtain ⟨a, inside, positive, rescaled⟩ :=
      exists_rescaled_scientificLiteral (leading_ofGrid moderate.positive e)
    rw [rescaled]
    rcases Int.lt_or_le ((ofGrid c e).exponent + 1 - a) 0 with below | above
    · exact Scaled.inRange_of_neg below
    · obtain ⟨k, place⟩ := Int.eq_ofNat_of_zero_le above
      obtain ⟨short, bounded⟩ := moderate.prefix_le inside place.symm
      rw [place]
      exact Scaled.inRange_of_le_greatest positive short bounded

/-- **The text of a finite number is a literal that the reader scales within the range**, and it has a
minus exactly if the sign of the number is set. -/
theorem exists_literal_inRange {x : Binary64} (finite : x.isFinite = true) :
    ∃ l : Literal, l.Proper ∧ l.Floating ∧ l.InRange ∧ l.negative = x.isNegative ∧
      l.written = x.json := by
  have magnitude : ∃ l : Literal, l.Proper ∧ l.Floating ∧ l.InRange ∧
      l.unsigned = Binary64.jsonLayout.writeMagnitude x := by
    refine Layout.writeMagnitude_cases
      (motive := fun text => ∃ l : Literal, l.Proper ∧ l.Floating ∧ l.InRange ∧ l.unsigned = text)
      ?zero (fun nonzero most => ?positional) fun nonzero => ?scientific
    case zero =>
      obtain ⟨l, proper, form, text⟩ := exists_literal_zero
      exact ⟨l, proper, .inl form.fraction, (form.mono (by decide)).inRange proper, text⟩
    case positional =>
      obtain ⟨l, proper, form, text⟩ := exists_literal_positional (leading_shortest _ nonzero)
      have places : (shortest Binary64.jsonLayout.tie x).exponent.toNat + 1 ≤ 16 :=
        Nat.succ_le_succ (Int.toNat_le.mpr most)
      exact ⟨l, proper, .inl form.fraction, (form.mono places).inRange proper, text⟩
    case scientific =>
      obtain ⟨c, e, found, moderate⟩ := exists_moderate Binary64.jsonLayout.tie finite nonzero
      have leading := leading_shortest Binary64.jsonLayout.tie nonzero
      rw [found] at leading ⊢
      exact ⟨_, proper_scientificLiteral leading, .inr nofun, inRange_scientificLiteral moderate,
        unsigned_scientificLiteral _⟩
  obtain ⟨l, proper, floating, inRange, text⟩ := magnitude
  exact ⟨{ l with negative := x.isNegative }, proper.signed _, floating,
    ⟨inRange.exponent, inRange.rescaled⟩, rfl, written_of_magnitude finite text⟩

end Literals

end Json
end TreeHandles
