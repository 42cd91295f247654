import TreeHandles.Proofs.Json.RoundTrip

/-!
# Integers of any size as texts

The digits of a number are taken into 64 bits one after the other, and a guard stops before the digit
by which they would be left.  Digits that are left over scale the number, and a number that is scaled is
no integer any more.  So an integer that was read is the one that was written, however long the text.

**Results.**
* `fst_absorb_of_snd_eq_nil`: digits of which none is left over are kept at their value.
* `scalar_of_large`: digits beyond 64 bits write a floating-point number, or one that is too large.
* `parse_literal` and `refusedFor_literal`: what becomes of a written number follows from its literal.
* `parse_integer_text`: what a written integer of any size and sign is read as.
-/

namespace TreeHandles
namespace Json

open Reader

variable {digits : List Char} {negative : Bool} {n : Nat} {s : Scalar} {unread : List Char}

/-- An integer as a text, with a minus or without. -/
def integerText (negative : Bool) (n : Nat) : String :=
  (if negative then "-" else "") ++ toString n

/-- A text is invalid input for a certain cause, whoever loads it. -/
def RefusedFor (source : String) (cause : Cause) : Prop :=
  ∃ e, parse source = .error e ∧ e.cause = cause ∧
    ∀ (options : Options) (table : Table),
      (Request.answer options table (.loadJson source)).1 = .error (.invalidInput (.json e))

/-- A text is read as a floating-point number, or it is invalid input for its size. -/
def LeavesIntegers (source : String) : Prop :=
  (∃ x, parse source = .ok (.leaf (.float x))) ∨ RefusedFor source .numberTooLarge

section Digits

/-- Digits of which none is left over are kept at their value. -/
theorem fst_absorb_of_snd_eq_nil {limit : Nat} (all : (absorb limit n digits).2 = []) :
    (absorb limit n digits).1 = Nat.ofDigitChars 10 digits n := by
  obtain ⟨kept, whole, value⟩ := exists_kept_absorb limit n digits
  rw [all, List.append_nil] at whole
  rw [value, whole]

/-- **Digits beyond the limit are not all kept.** -/
theorem snd_absorb_ne_nil_of_lt {limit : Nat} (start : n ≤ limit)
    (beyond : limit < Nat.ofDigitChars 10 digits n) : (absorb limit n digits).2 ≠ [] := by
  intro all
  have kept := fst_absorb_of_snd_eq_nil all
  have bound := absorb_le start digits
  omega

/-- **Digits beyond 64 bits write no integer.** -/
theorem scalar_of_large (negative : Bool) (large : significandLimit < n) :
    (∃ x, Literal.scalar ⟨negative, Nat.toDigits 10 n, [], none⟩ = .ok (.float x)) ∨
      Literal.scalar ⟨negative, Nat.toDigits 10 n, [], none⟩ = .error [] := by
  have value : Nat.ofDigitChars 10 (Nat.toDigits 10 n) 0 = n := Nat.ofDigitChars_ten_toDigits
  have left : (absorb significandLimit 0 (Nat.toDigits 10 n)).2 ≠ [] :=
    snd_absorb_ne_nil_of_lt (Nat.zero_le _) (value.symm ▸ large)
  -- What is left over scales the number, so that it does not count as an integer.
  have scaled : ¬ (Literal.scaled ⟨negative, Nat.toDigits 10 n, [], none⟩).exponent = 0 := by
    simp [Literal.scaled, absorb, left]
  rw [Literal.scalar]
  simp only [List.isEmpty_nil, Bool.true_and, beq_iff_eq, scaled, if_false]
  rw [Scaled.scalar]
  cases Scaled.toFloat? _ with
  | some x => exact .inl ⟨_, rfl⟩
  | none => exact .inr rfl

end Digits

section Texts

variable {l : Literal}

/-- A written literal is read as its scalar. -/
theorem reads_literal (proper : l.Proper) (scalar : l.scalar = .ok s) : number.Reads l.written s := by
  intro rest ends
  rw [number, read_bind_of_ok _ (proper.read ends), scalar]
  rfl

/-- A written literal is refused if it is too large. -/
theorem refuses_literal (proper : l.Proper) (scalar : l.scalar = .error unread) :
    number.Refuses l.written .numberTooLarge := by
  intro rest ends
  rw [number, read_bind_of_ok _ (proper.read ends), scalar]
  exact ⟨_, rfl, rfl⟩

theorem parse_literal (proper : l.Proper) (scalar : l.scalar = .ok s) :
    parse (String.ofList l.written) = .ok (.leaf s) :=
  parse_of_reads (reads_valueWith_of_opens proper.opens (.map _ (reads_literal proper scalar)))

theorem refusedFor_literal (proper : l.Proper) (scalar : l.scalar = .error unread) :
    RefusedFor (String.ofList l.written) .numberTooLarge := by
  have refused : (value levelLimit).Refuses l.written .numberTooLarge :=
    refuses_valueWith_of_opens proper.opens (.map _ (refuses_literal proper scalar))
  obtain ⟨e, failed, cause⟩ := parse_of_refuses refused
  refine ⟨e, failed, cause, fun options table => ?_⟩
  rw [Request.answer, failed]

theorem integerText_eq (negative : Bool) (n : Nat) : integerText negative n =
    String.ofList (Literal.written ⟨negative, Nat.toDigits 10 n, [], none⟩) := by
  rw [integerText, Literal.written_integer]
  apply String.ext
  cases negative <;> simp [Nat.toString_eq_repr]

theorem leavesIntegers_of_large (negative : Bool) (large : significandLimit < n) :
    LeavesIntegers (integerText negative n) := by
  have proper := Literal.proper_integer negative (plain_toDigits n)
  rw [integerText_eq]
  rcases scalar_of_large negative large with ⟨x, scalar⟩ | scalar
  · exact .inl ⟨x, parse_literal proper scalar⟩
  · exact .inr (refusedFor_literal proper scalar)

/-- An integer of which all digits fit. -/
theorem parse_integerText (negative : Bool) (fits : n ≤ significandLimit) :
    parse (integerText negative n) = .ok (.leaf (Literal.integer negative n)) := by
  rw [integerText_eq]
  exact parse_literal (Literal.proper_integer negative (plain_toDigits n))
    (scalar_of_digits negative fits)

end Texts

/-- **Written integers do not wrap around.**  A whole number of any size, written without a sign, is
read as the signed integer of this value if it is in the signed range, as the unsigned integer of this
value if it is in the range of those, and else not as an integer.  Written behind a minus it is read as
the signed integer of the negated value if that is in the signed range, as the negative zero if it is
zero, and else not as an integer. -/
theorem parse_integer_text (n : Nat) :
    (n ≤ 0x7fffffffffffffff →
      ∃ i : Int64, parse (toString n) = .ok (.leaf (.int i)) ∧ i.toInt = n) ∧
    (0x8000000000000000 ≤ n → n ≤ 0xffffffffffffffff →
      ∃ u : UInt64, parse (toString n) = .ok (.leaf (.uint u)) ∧ u.toNat = n) ∧
    (0xffffffffffffffff < n → LeavesIntegers (toString n)) ∧
    (1 ≤ n → n ≤ 0x8000000000000000 →
      ∃ i : Int64, parse ("-" ++ toString n) = .ok (.leaf (.int i)) ∧ i.toInt = -n) ∧
    (n = 0 → parse ("-" ++ toString n) = .ok (.leaf (.float ⟨0x8000000000000000⟩))) ∧
    (0x8000000000000000 < n → LeavesIntegers ("-" ++ toString n)) := by
  have plain : toString n = integerText false n := by
    rw [integerText, if_neg Bool.false_ne_true, String.empty_append]
  have negated : "-" ++ toString n = integerText true n := rfl
  rw [negated, plain]
  refine ⟨fun small => ?signed, fun large fits => ?unsigned, fun large => ?beyond,
    fun positive small => ?minus, fun zero => ?zero, fun large => ?below⟩
  case signed =>
    have low : n < integerBound := by rw [integerBound]; omega
    refine ⟨Int64.ofInt n, ?_, Int64.toInt_ofInt_of_le (by omega) (by omega)⟩
    rw [parse_integerText false (by rw [significandLimit]; omega), Literal.integer]
    simp [low]
  case unsigned =>
    have high : ¬ n < integerBound := by rw [integerBound]; omega
    refine ⟨n.toUInt64, ?_, UInt64.toNat_ofNat_of_lt' (by rw [UInt64.size]; omega)⟩
    rw [parse_integerText false (by rw [significandLimit]; omega), Literal.integer]
    simp [high]
  case beyond => exact leavesIntegers_of_large false large
  case minus =>
    have within : ¬ (n = 0 ∨ integerBound < n) := by rw [integerBound]; omega
    refine ⟨Int64.ofInt (-n), ?_, Int64.toInt_ofInt_of_le (by omega) (by omega)⟩
    rw [parse_integerText true (by rw [significandLimit]; omega), Literal.integer, if_pos rfl,
      if_neg within]
  case zero =>
    have negativeZero : Literal.integer true 0 = .float ⟨0x8000000000000000⟩ := by decide
    rw [zero, parse_integerText true (Nat.zero_le _), negativeZero]
  case below =>
    rcases Nat.lt_or_ge significandLimit n with beyond | fits
    · exact leavesIntegers_of_large true beyond
    · have float : Literal.integer true n = signed true n.toUInt64.toFloat := by
        rw [Literal.integer, if_pos rfl, if_pos (.inr large)]
      exact .inl ⟨_, float ▸ parse_integerText true fits⟩

/-- The limits of both ranges: the digits of one number are unsigned without a minus and signed behind
one, and those of the next powers are neither. -/
theorem parse_integer_text_at_limits :
    (∃ u : UInt64, parse "9223372036854775808" = .ok (.leaf (.uint u)) ∧
      u.toNat = 9223372036854775808) ∧
    (∃ i : Int64, parse "-9223372036854775808" = .ok (.leaf (.int i)) ∧
      i.toInt = -9223372036854775808) ∧
    parse "-0" = .ok (.leaf (.float ⟨0x8000000000000000⟩)) ∧
    LeavesIntegers "-9223372036854775809" ∧ LeavesIntegers "18446744073709551616" := by
  obtain ⟨_, unsigned, _, signed, _, _⟩ := parse_integer_text 9223372036854775808
  obtain ⟨_, _, _, _, zero, _⟩ := parse_integer_text 0
  obtain ⟨_, _, _, _, _, below⟩ := parse_integer_text 9223372036854775809
  obtain ⟨_, _, beyond, _, _, _⟩ := parse_integer_text 18446744073709551616
  exact ⟨unsigned (by decide) (by decide), signed (by decide) (by decide), zero rfl,
    below (by decide), beyond (by decide)⟩

end Json

end TreeHandles
