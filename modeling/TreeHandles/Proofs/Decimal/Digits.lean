import Mathlib.Data.List.TakeWhile
import TreeHandles.Decimal.Layout
import TreeHandles.Proofs.Json.Numbers

/-!
# The digits of the shortest decimal

The shortest decimal of a number that is not zero has at least one digit, and the first one is not a
zero.  This rests on the search: every grid point that it looks at lies above zero, because the interval
around the number does, and the last resort is a point with seventeen digits.

**Results.**
* `Interval.low_pos_ofBinary64`: the reals that round to a number lie above zero.
* `Interval.floor_pos`: the finest grid that is looked at has a point above zero below the number.
* `leading_ofGrid`: a grid point above zero has a leading digit.
* `exists_chosen`: the shortest decimal is a grid point next to the number.
* `leading_shortest`: the shortest decimal of a number that is not zero has a leading digit.
-/

namespace TreeHandles
namespace Decimal

/-- A decimal has digits only, and the first one is not a zero. -/
structure Leading (d : Decimal) : Prop where
  digit : ∀ c ∈ d.digits, c.isDigit = true
  first : ∃ c ∈ d.digits.head?, c ≠ '0'

theorem Leading.ne_nil {d : Decimal} (leading : d.Leading) : d.digits ≠ [] := by
  obtain ⟨c, hc, _⟩ := leading.first
  rintro none
  rw [none] at hc
  cases hc

section Grids

/-- The first digit of a number that is not zero is not a zero. -/
theorem head_toDigits {n : Nat} (positive : 0 < n) :
    ∃ c ∈ (Nat.toDigits 10 n).head?, c ≠ '0' := by
  have plain := Json.plain_toDigits n
  obtain ⟨c, cs, same⟩ := List.exists_cons_of_ne_nil plain.some
  refine ⟨c, by rw [same]; rfl, ?_⟩
  rintro rfl
  have value : Nat.ofDigitChars 10 (Nat.toDigits 10 n) 0 = n := Nat.ofDigitChars_ten_toDigits
  rw [plain.zero (by rw [same]; rfl)] at value
  have zero : n = 0 := value.symm
  omega

/-- The digits of a grid point are the first digits of its number. -/
theorem prefix_digits_ofGrid (c : Nat) (e : Int) : (ofGrid c e).digits <+: Nat.toDigits 10 c := by
  have suffix := (List.dropWhile_suffix (l := (Nat.toDigits 10 c).reverse) (· == '0')).reverse
  rwa [List.reverse_reverse] at suffix

/-- **A grid point above zero has a leading digit**, also after its trailing zeros were dropped. -/
theorem leading_ofGrid {c : Nat} (positive : 0 < c) (e : Int) : (ofGrid c e).Leading := by
  obtain ⟨d, first, other⟩ := head_toDigits positive
  obtain ⟨ds, same⟩ : ∃ ds, Nat.toDigits 10 c = d :: ds := by
    cases h : Nat.toDigits 10 c with
    | nil => rw [h] at first; cases first
    | cons d ds =>
        rw [h] at first
        cases first
        exact ⟨ds, rfl⟩
  -- What is left when zeros are dropped at the end starts with the same digit.
  have start : (ofGrid c e).digits <+: d :: ds := same ▸ prefix_digits_ofGrid c e
  have some : (ofGrid c e).digits ≠ [] := by
    rw [ofGrid, same, Ne, List.reverse_eq_nil_iff, List.dropWhile_eq_nil_iff]
    intro zeros
    exact other (by simpa using zeros d (by simp))
  refine ⟨fun k hk => ?_, ?_⟩
  · have inside := start.subset hk
    rw [← same] at inside
    exact Nat.isDigit_of_mem_toDigits (by decide) (by decide) inside
  · obtain ⟨k, ks, kept⟩ := List.exists_cons_of_ne_nil some
    rw [kept, List.cons_prefix_cons] at start
    rw [kept, start.1]
    exact ⟨d, rfl, other⟩

end Grids

section Intervals

variable {iv : Interval} {g : Grid} {c : Nat} {x : Binary64}

theorem significand_pos (nonzero : x.isZero = false) : 0 < x.significand := by
  have some : x.magnitude ≠ 0 := by simpa [Binary64.isZero] using nonzero
  rw [Binary64.significand]
  split
  · next small =>
      rw [Binary64.biasedExponent, Binary64.hiddenBit] at small
      rw [Binary64.hiddenBit]
      omega
  · exact Nat.lt_of_lt_of_le (by decide) (Nat.le_add_left _ _)

/-- **The reals that round to a number lie above zero.** -/
theorem Interval.low_pos_ofBinary64 (nonzero : x.isZero = false) :
    0 < (Interval.ofBinary64 x).low ∧ 0 < (Interval.ofBinary64 x).high := by
  have some := significand_pos nonzero
  have scale : 0 < Nat.pow 2 (x.exponent - 2).toNat := Nat.pow_pos (by decide)
  refine ⟨Nat.mul_pos ?_ scale, Nat.mul_pos (by omega) scale⟩
  split <;> omega

theorem Grid.powerOfTen_pos (e : Int) :
    0 < (Grid.powerOfTen e).numerator ∧ 0 < (Grid.powerOfTen e).denominator :=
  ⟨Nat.pow_pos (by decide), Nat.pow_pos (by decide)⟩

/-- The fraction of a power of ten, against two powers that differ by it. -/
theorem Grid.powerOfTen_balanced {e : Int} {k l : Nat} (sum : (k : Int) = e + l) :
    (Grid.powerOfTen e).numerator * Nat.pow 10 l = (Grid.powerOfTen e).denominator * Nat.pow 10 k := by
  show 10 ^ e.toNat * 10 ^ l = 10 ^ (-e).toNat * 10 ^ k
  rw [← Nat.pow_add, ← Nat.pow_add]
  congr 1
  omega

/-- A grid point in an interval above zero is not the zero. -/
theorem Interval.pos_of_contains (low : 0 < iv.low) (high : 0 < iv.high) (grid : 0 < g.denominator)
    (inside : iv.contains g c = true) : 0 < c := by
  apply Nat.pos_of_ne_zero
  rintro rfl
  have lowPoint := Nat.mul_pos low grid
  have highPoint := Nat.mul_pos high grid
  simp only [Interval.contains, Grid.scaled, Nat.zero_mul, Bool.or_eq_true, Bool.and_eq_true,
    decide_eq_true_eq, beq_iff_eq] at inside
  omega

/-- A number that is not zero is no less than the smallest power of ten that is looked at. -/
theorem Interval.denominator_le (nonzero : x.isZero = false) :
    (Interval.ofBinary64 x).denominator ≤ (Interval.ofBinary64 x).value * Nat.pow 10 324 := by
  have some := significand_pos nonzero
  have least : -1074 ≤ x.exponent := by rw [Binary64.exponent]; omega
  have scale : 0 < Nat.pow 2 (x.exponent - 2).toNat := Nat.pow_pos (by decide)
  have value : 4 ≤ (Interval.ofBinary64 x).value := by
    have product := Nat.mul_pos some scale
    show 4 ≤ 4 * x.significand * _
    rw [Nat.mul_assoc]
    omega
  have powers (limit bound : Nat) (le : (2 - x.exponent).toNat ≤ limit)
      (fits : Nat.pow 2 limit ≤ bound) : Nat.pow 2 (2 - x.exponent).toNat ≤ bound :=
    Nat.le_trans (Nat.pow_le_pow_right (by decide) le) fits
  refine Nat.le_trans ?_ (Nat.mul_le_mul_right (Nat.pow 10 324) value)
  apply powers 1076 _ (by omega)
  decide +kernel

/-- Two fractions are compared over the lesser of two scales. -/
theorem mul_le_mul_of_balanced {a b d v p small large : Nat} (balanced : a * large = b * p)
    (scaled : p * d ≤ v * small) (le : small ≤ large) (positive : 0 < large) : a * d ≤ v * b := by
  refine Nat.le_of_mul_le_mul_right ?_ positive
  calc a * d * large
      = b * (p * d) := by rw [Nat.mul_right_comm, balanced, Nat.mul_assoc]
    _ ≤ b * (v * large) :=
        Nat.mul_le_mul_left b (Nat.le_trans scaled (Nat.mul_le_mul_left v le))
    _ = v * b * large := by rw [← Nat.mul_assoc, Nat.mul_comm b v]

/-- **The leading digit of a number is where its exponent says**, so that the finest grid that is
looked at has a point above zero that is no greater than the number. -/
theorem Interval.floor_pos (positive : 0 < iv.denominator)
    (bound : iv.denominator ≤ iv.value * Nat.pow 10 324) :
    0 < (Grid.powerOfTen (iv.leadingExponent - 16)).floor iv := by
  obtain ⟨length, digits⟩ : ∃ length,
      (Nat.toDigits 10 (iv.value * Nat.pow 10 324 / iv.denominator)).length = length + 1 :=
    Nat.exists_eq_succ_of_ne_zero (Nat.ne_of_gt Nat.length_toDigits_pos)
  have some : 0 < iv.value * Nat.pow 10 324 / iv.denominator := Nat.div_pos bound positive
  -- As many digits as there are, so great is the number at least.
  have least : Nat.pow 10 length ≤ iv.value * Nat.pow 10 324 / iv.denominator := by
    cases length with
    | zero => exact some
    | succ l =>
        have more : ¬ (Nat.toDigits 10 (iv.value * Nat.pow 10 324 / iv.denominator)).length ≤
            l + 1 := by omega
        rw [Nat.length_toDigits_le_iff (by decide) (Nat.succ_pos l)] at more
        exact Nat.not_lt.mp more
  have scaled : Nat.pow 10 length * iv.denominator ≤ iv.value * Nat.pow 10 324 :=
    (Nat.le_div_iff_mul_le positive).mp least
  have exponent : iv.leadingExponent - 16 = (length : Int) - (340 : Nat) := by
    rw [Interval.leadingExponent, digits]
    omega
  have powers {k l : Nat} (le : k ≤ l) : Nat.pow 10 k ≤ Nat.pow 10 l :=
    Nat.pow_le_pow_right (by decide) le
  rw [exponent, Grid.floor]
  refine Nat.div_pos ?_ (Nat.mul_pos (Grid.powerOfTen_pos _).1 positive)
  refine mul_le_mul_of_balanced (Grid.powerOfTen_balanced (l := 340) (by omega)) scaled ?_ ?_
  · apply powers
    decide
  · apply Nat.pow_pos
    decide

end Intervals

section Search

variable {iv : Interval} {g : Grid} {n c : Nat} {x : Binary64} {tie : Tie}

theorem Interval.le_floor_succ_of_nearest (h : iv.nearest? g tie = some c) :
    c ≤ g.floor iv + 1 := by
  simp only [Interval.nearest?] at h
  split at h
  · simp only [Option.some.injEq] at h
    split at h <;> omega
  · cases h
    exact Nat.le_succ _
  · cases h
    exact Nat.le_refl _
  · cases h

/-- The grid that the search looks at after a number of coarser ones. -/
abbrev Interval.grid (iv : Interval) (n : Nat) : Grid := .powerOfTen (iv.leadingExponent - n)

/-- A grid point that the search can end with: one next to the number that lies in the interval, or, as
the last resort, the one below the number on the finest grid. -/
structure Interval.Chosen (iv : Interval) (n c : Nat) : Prop where
  fine : n ≤ 16
  near : c ≤ (iv.grid n).floor iv + 1
  origin : iv.contains (iv.grid n) c = true ∨ n = 16 ∧ c = (iv.grid n).floor iv

/-- **The shortest decimal is a grid point that the search ended with.** -/
theorem exists_chosen (tie : Tie) (x : Binary64) :
    ∃ n c, (Interval.ofBinary64 x).Chosen n c ∧
      shortest tie x = ofGrid c ((Interval.ofBinary64 x).leadingExponent - n) := by
  rw [shortest]
  generalize search : List.findSome? _ _ = found
  cases found with
  | none => exact ⟨16, _, ⟨Nat.le_refl _, Nat.le_succ _, .inr ⟨rfl, rfl⟩⟩, rfl⟩
  | some d =>
      obtain ⟨e, inside, here⟩ := List.exists_of_findSome?_eq_some search
      obtain ⟨n, small, rfl⟩ := List.mem_map.mp inside
      obtain ⟨c, nearest, rfl⟩ := Option.map_eq_some_iff.mp here
      exact ⟨n, c, ⟨Nat.le_of_lt_succ (List.mem_range.mp small),
        Interval.le_floor_succ_of_nearest nearest, .inl (Interval.nearest_mem nearest)⟩, rfl⟩

theorem Interval.Chosen.pos (chosen : (Interval.ofBinary64 x).Chosen n c)
    (nonzero : x.isZero = false) : 0 < c := by
  obtain ⟨low, high⟩ := Interval.low_pos_ofBinary64 nonzero
  rcases chosen.origin with inside | ⟨rfl, rfl⟩
  · exact Interval.pos_of_contains low high (Grid.powerOfTen_pos _).2 inside
  · exact Interval.floor_pos (Nat.pow_pos (by decide)) (Interval.denominator_le nonzero)

end Search

/-- **The shortest decimal of a number that is not zero has a leading digit.** -/
theorem leading_shortest (tie : Tie) {x : Binary64} (nonzero : x.isZero = false) :
    (shortest tie x).Leading := by
  obtain ⟨n, c, chosen, found⟩ := exists_chosen tie x
  rw [found]
  exact leading_ofGrid (chosen.pos nonzero) _

/-- What holds of the text of zero and of both forms of the shortest decimal holds of the text of the
magnitude. -/
theorem Layout.writeMagnitude_cases {layout : Layout} {x : Binary64} {motive : List Char → Prop}
    (zero : motive ['0', '.', '0'])
    (plain : x.isZero = false → (shortest layout.tie x).exponent ≤ layout.most →
      motive (positional (shortest layout.tie x)))
    (scaled : x.isZero = false → motive (scientific layout.plusSign (shortest layout.tie x))) :
    motive (layout.writeMagnitude x) := by
  rw [writeMagnitude]
  split
  · exact zero
  · next other =>
      have nonzero : x.isZero = false := by simpa using other
      rw [write]
      split
      · next within => exact plain nonzero within.2
      · exact scaled nonzero

end Decimal
end TreeHandles
