import TreeHandles.Node
import TreeHandles.Proofs.Json.Integers
import TreeHandles.Proofs.Json.Scaling

/-!
# Floating-point numbers keep their kind

The exported text of a finite number has a fraction or an exponent, also if the number is whole, so that
the reader scales its digits to a floating-point number again, though not always to the same one.  A
minus is written for the sign bit, so that it tells the two zeros apart.  What is no finite number has
no text of its own.

**Results.**
* `head?_written`: the text of a literal starts with a minus exactly if the literal is negative.
* `parse_float_text`: the text of every finite number is read as a floating-point number.
-/

namespace TreeHandles
namespace Json

/-- The exported text of a floating-point number. -/
def floatText (x : Binary64) : String := (Tree.leaf (.float x) : Node).toJson

/-- **The text of a literal starts with a minus exactly if the literal is negative.** -/
theorem head?_written {l : Literal} (proper : l.Proper) :
    l.written.head? = some '-' ↔ l.negative = true := by
  obtain ⟨d, ds, same⟩ := List.exists_cons_of_ne_nil proper.whole.some
  have digit : d.isDigit = true := proper.whole.digit d (by rw [same]; exact List.mem_cons_self)
  have other : d ≠ '-' := by
    rintro rfl
    exact absurd digit (by decide)
  cases negative : l.negative <;> simp [Literal.written, Literal.unsigned, negative, same, other]

theorem isNegative_eq_testBit (x : Binary64) : x.isNegative = x.bits.toNat.testBit 63 := by
  have bound := x.bits.toNat_lt
  rw [Binary64.isNegative, Binary64.signBit, Nat.testBit_eq_decide_div_mod_eq, decide_eq_decide]
  omega

/-- **Floating-point numbers never change their kind through text.**  The text of a finite number is a
well-formed literal with a fraction or an exponent, it starts with a minus exactly if the sign bit is
set, and it is read as the floating-point number that the digits of this literal are scaled to, thus
neither refused nor read as an integer.  The text of any other number is the word for null. -/
theorem parse_float_text (x : Binary64) :
    (x.isFinite = true →
      (∃ l : Literal, l.Proper ∧ l.Floating ∧ floatText x = String.ofList l.written ∧
        ∃ y, l.rescaled.toFloat? = some y ∧
          parse (floatText x) = .ok (.leaf (signed l.negative y))) ∧
      ((floatText x).toList.head? = some '-' ↔ x.bits.toNat.testBit 63 = true) ∧
      ∃ z : Binary64, parse (floatText x) = .ok (.leaf (.float z))) ∧
    (x.isFinite = false → floatText x = "null") := by
  refine ⟨fun finite => ?_, fun infinite => ?_⟩
  · obtain ⟨l, proper, floating, inRange, sign, written⟩ := exists_literal_inRange finite
    obtain ⟨y, scaled, scalar⟩ := inRange.exists_scalar floating
    have text : floatText x = String.ofList l.written := by
      rw [written]
      rfl
    have read : parse (floatText x) = .ok (.leaf (signed l.negative y)) := by
      rw [text]
      exact parse_literal proper scalar
    refine ⟨⟨l, proper, floating, text, y, scaled, read⟩, ?_, _, read⟩
    rw [text, String.toList_ofList, head?_written proper, sign, isNegative_eq_testBit]
  · show String.ofList x.json = "null"
    rw [Binary64.json, infinite, if_neg Bool.false_ne_true]
    rfl

/-- A negative zero, the least number above zero, the greatest number, and an infinity. -/
theorem parse_float_text_at_extremes :
    (∃ z, parse "-0.0" = .ok (.leaf (.float z))) ∧
    (∃ z, parse "5e-324" = .ok (.leaf (.float z))) ∧
    (∃ z, parse "1.7976931348623157e+308" = .ok (.leaf (.float z))) ∧
    floatText ⟨0x7ff0000000000000⟩ = "null" := by
  have zero : floatText ⟨0x8000000000000000⟩ = "-0.0" := by decide
  have least : floatText ⟨1⟩ = "5e-324" := by decide +kernel
  have greatest : floatText ⟨0x7fefffffffffffff⟩ = "1.7976931348623157e+308" := by decide +kernel
  exact ⟨zero ▸ ((parse_float_text ⟨0x8000000000000000⟩).1 (by decide)).2.2,
    least ▸ ((parse_float_text ⟨1⟩).1 (by decide)).2.2,
    greatest ▸ ((parse_float_text ⟨0x7fefffffffffffff⟩).1 (by decide)).2.2,
    (parse_float_text ⟨0x7ff0000000000000⟩).2 (by decide)⟩

end Json
end TreeHandles
