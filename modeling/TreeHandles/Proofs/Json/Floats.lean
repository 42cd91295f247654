import TreeHandles.Json.Writer
import TreeHandles.Proofs.Decimal.Digits

/-!
# Floating-point numbers as literals

A finite number is written positionally, padded with zeros on either side where digits lack, or with an
exponent.  Each of these forms is a well-formed literal: its digits before the point are a zero alone,
or they start with the leading digit of the decimal.  And each has a fraction or an exponent, so that no
number changes its kind by being written.

**Results.**
* `floating_positional` and `floating_scientific`: both forms of a decimal are literals.
* `exists_literal_json`: so is the text of a finite number, and its minus is the sign of the number.
-/

namespace TreeHandles
namespace Json

open Decimal

/-- A literal with a fraction or an exponent. -/
def Literal.Floating (l : Literal) : Prop := l.fraction ≠ [] ∨ l.exponent ≠ none

/-- A literal with a fraction, without an exponent, and with few digits before the point. -/
structure Literal.Positional (l : Literal) (places : Nat) : Prop where
  fraction : l.fraction ≠ []
  exponent : l.exponent = none
  places : l.whole.length ≤ places

theorem Literal.Positional.mono {l : Literal} {m n : Nat} (form : l.Positional m) (le : m ≤ n) :
    l.Positional n := ⟨form.fraction, form.exponent, Nat.le_trans form.places le⟩

/-- A text that is that of a well-formed literal with a fraction or an exponent, apart from its sign. -/
def IsFloating (text : List Char) : Prop :=
  ∃ l : Literal, l.Proper ∧ l.Floating ∧ l.unsigned = text

section Decimals

variable {d : Decimal} {digits : List Char}

/-- Digits of which the first one is not a zero are those of a whole number. -/
theorem plain_of_head (digit : ∀ c ∈ digits, c.isDigit = true)
    (first : ∃ c ∈ digits.head?, c ≠ '0') : Plain digits := by
  obtain ⟨c, hc, other⟩ := first
  refine ⟨digit, ?_, fun zero => ?_⟩
  · rintro rfl
    cases hc
  · exact absurd (Option.some_inj.mp (hc.symm.trans zero)) other

theorem exists_literal_fraction {whole fraction : List Char} {places : Nat} (plain : Plain whole)
    (digit : ∀ c ∈ fraction, c.isDigit = true) (some : fraction ≠ []) (short : whole.length ≤ places) :
    ∃ l : Literal, l.Proper ∧ l.Positional places ∧ l.unsigned = whole ++ '.' :: fraction := by
  refine ⟨⟨false, whole, fraction, none⟩, ⟨plain, digit, nofun⟩, ⟨some, rfl, short⟩, ?_⟩
  obtain ⟨d, ds, rfl⟩ := List.exists_cons_of_ne_nil some
  simp [Literal.unsigned, fractionText, exponentText]

/-- A single zero, where there are no digits. -/
theorem digit_zero : ∀ c ∈ ['0'], c.isDigit = true := List.forall_mem_singleton.mpr (by decide)

theorem digit_replicate {n : Nat} : ∀ c ∈ List.replicate n '0', c.isDigit = true := by
  intro c hc
  rw [List.eq_of_mem_replicate hc]
  decide

/-- A decimal in positional form is a literal whose digits before the point end with that of the unit. -/
theorem exists_literal_positional (leading : d.Leading) :
    ∃ l : Literal, l.Proper ∧ l.Positional (d.exponent.toNat + 1) ∧ l.unsigned = positional d := by
  rw [positional]
  split
  · -- The point comes first, and zeros stand between it and the digits.
    refine exists_literal_fraction (plain_toDigits 0) ?_ ?_ (Nat.succ_le_succ (Nat.zero_le _))
    · intro c hc
      exact (List.mem_append.mp hc).elim (digit_replicate c) (leading.digit c)
    · exact List.append_ne_nil_of_right_ne_nil _ leading.ne_nil
  · obtain ⟨c, hc, other⟩ := leading.first
    obtain ⟨ds, same⟩ : ∃ ds, d.digits = c :: ds := List.head?_eq_some_iff.mp hc
    dsimp only
    split
    · next fits =>
        refine exists_literal_fraction (plain_of_head ?_ ⟨c, ?_, other⟩) digit_zero
          (List.cons_ne_nil _ _) ?_
        · intro k hk
          exact (List.mem_append.mp hk).elim (leading.digit k) (digit_replicate k)
        · rw [same]
          rfl
        · rw [List.length_append, List.length_replicate]
          omega
    · next longer =>
        refine exists_literal_fraction (plain_of_head ?_ ⟨c, ?_, other⟩) ?_ ?_
          (List.length_take_le _ _)
        · exact fun k hk => leading.digit k (List.mem_of_mem_take hk)
        · rw [same]
          rfl
        · exact fun k hk => leading.digit k (List.mem_of_mem_drop hk)
        · simpa using Nat.not_le.mp longer

/-- **A decimal in positional form is a literal with a fraction.** -/
theorem floating_positional (leading : d.Leading) : IsFloating (positional d) := by
  obtain ⟨l, proper, form, text⟩ := exists_literal_positional leading
  exact ⟨l, proper, .inl form.fraction, text⟩

/-- The literal of a decimal in exponent form. -/
def scientificLiteral (d : Decimal) : Literal :=
  ⟨false, d.digits.take 1, d.digits.drop 1,
    some (decide (d.exponent < 0), Nat.toDigits 10 d.exponent.natAbs)⟩

theorem proper_scientificLiteral (leading : d.Leading) : (scientificLiteral d).Proper := by
  obtain ⟨c, hc, other⟩ := leading.first
  obtain ⟨ds, same⟩ : ∃ ds, d.digits = c :: ds := List.head?_eq_some_iff.mp hc
  have exponent := plain_toDigits d.exponent.natAbs
  refine ⟨plain_of_head ?_ ⟨c, ?_, other⟩, fun k hk => leading.digit k (List.mem_of_mem_drop hk), ?_⟩
  · exact fun k hk => leading.digit k (List.mem_of_mem_take hk)
  · rw [scientificLiteral, same]
    rfl
  · rintro e ⟨⟩
    exact ⟨exponent.some, exponent.digit⟩

theorem unsigned_scientificLiteral (d : Decimal) :
    (scientificLiteral d).unsigned = scientific true d := by
  by_cases negative : d.exponent < 0 <;>
    simp [Literal.unsigned, fractionText, exponentText, scientific, exponentDigits,
      scientificLiteral, negative]

/-- **A decimal in exponent form is a literal with an exponent.** -/
theorem floating_scientific (leading : d.Leading) : IsFloating (scientific true d) :=
  ⟨scientificLiteral d, proper_scientificLiteral leading, .inr nofun, unsigned_scientificLiteral d⟩

/-- The text of zero. -/
theorem exists_literal_zero :
    ∃ l : Literal, l.Proper ∧ l.Positional 1 ∧ l.unsigned = ['0', '.', '0'] :=
  exists_literal_fraction (plain_toDigits 0) digit_zero (List.cons_ne_nil _ _) (Nat.le_refl _)

theorem floating_zero : IsFloating ['0', '.', '0'] := by
  obtain ⟨l, proper, form, text⟩ := exists_literal_zero
  exact ⟨l, proper, .inl form.fraction, text⟩

end Decimals

theorem Literal.Proper.signed {l : Literal} (proper : l.Proper) (negative : Bool) :
    Literal.Proper { l with negative } := ⟨proper.whole, proper.fraction, proper.exponent⟩

/-- The text of a finite number is that of its magnitude, after a minus if its sign is set. -/
theorem written_of_magnitude {x : Binary64} {l : Literal} (finite : x.isFinite = true)
    (text : l.unsigned = Binary64.jsonLayout.writeMagnitude x) :
    Literal.written { l with negative := x.isNegative } = x.json := by
  rw [Binary64.json, if_pos finite, Layout.render, ← text]
  rfl

/-- **The text of a finite number is a literal with a fraction or an exponent**, and it has a minus
exactly if the sign of the number is set. -/
theorem exists_literal_json {x : Binary64} (finite : x.isFinite = true) :
    ∃ l : Literal, l.Proper ∧ l.Floating ∧ l.negative = x.isNegative ∧ l.written = x.json := by
  have magnitude : IsFloating (Binary64.jsonLayout.writeMagnitude x) :=
    Layout.writeMagnitude_cases floating_zero
      (fun nonzero _ => floating_positional (leading_shortest _ nonzero))
      fun nonzero => floating_scientific (leading_shortest _ nonzero)
  obtain ⟨l, proper, floating, text⟩ := magnitude
  exact ⟨{ l with negative := x.isNegative }, proper.signed _, floating, rfl,
    written_of_magnitude finite text⟩

end Json

end TreeHandles
