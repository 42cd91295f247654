import TreeHandles.Json.Document

/-!
# Numbers that are read back

A number is written as its decimal digits, after a minus if it is negative, and a floating-point number
with a fraction or an exponent behind them.  The reader takes the digits as far as they go, so that what
is read depends on what follows: a number ends where the text goes on with something that cannot
continue it.  Digits of an integer that fit 64 bits are all kept, and their value decides which of the
two ranges of integers they belong to.

**Results.**
* `plain_toDigits`: the digits of a number have no superfluous zeros.
* `read_wholeDigits`: such digits are read as they stand.
* `absorb_of_le`: digits are all kept if their value fits.
* `exists_kept_absorb`: what is kept is the value of the first digits.
* `Literal.Proper.read`: a well-formed literal is read back, with all its parts.
* `read_number_of_digits`: the digits of a number are read as the number.
* `read_number_int` and `read_number_uint`: both kinds of integers are read back.
-/

namespace TreeHandles
namespace Json

/-- A text that does not continue a number before it. -/
def EndsNumber (rest : List Char) : Prop :=
  ∀ c ∈ rest.head?, c.isDigit = false ∧ c ≠ '.' ∧ c ≠ 'e' ∧ c ≠ 'E'

/-- A text that does not continue the digits before it. -/
def EndsDigits (rest : List Char) : Prop := ∀ c ∈ rest.head?, c.isDigit = false

theorem EndsNumber.endsDigits {rest : List Char} (ends : EndsNumber rest) : EndsDigits rest :=
  fun c hc => (ends c hc).1

/-- The digits of a whole number, at least one, and the first one a zero only if it stands alone. -/
structure Plain (digits : List Char) : Prop where
  digit : ∀ c ∈ digits, c.isDigit = true
  some : digits ≠ []
  zero : digits.head? = Option.some '0' → digits = ['0']

variable {digits rest : List Char} {atEnd : Cause}

section Digits

theorem plain_toDigits (n : Nat) : Plain (Nat.toDigits 10 n) := by
  refine ⟨fun c hc => Nat.isDigit_of_mem_toDigits (by decide) (by decide) hc, Nat.toDigits_ne_nil, ?_⟩
  induction n using Nat.strongRecOn with
  | ind n ih =>
      rw [Nat.toDigits_eq_if (by decide)]
      split
      · intro first
        rw [List.head?_cons, Option.some_inj] at first
        rw [first]
      · next large =>
          -- The first digit is that of a smaller number, which is not zero.
          obtain ⟨d, ds, same⟩ := List.exists_cons_of_ne_nil (Nat.toDigits_ne_nil (n := n / 10))
          rw [same]
          intro first
          have alone := ih (n / 10) (by omega) (by rw [same]; exact first)
          have value : Nat.ofDigitChars 10 (Nat.toDigits 10 (n / 10)) 0 = n / 10 :=
            Nat.ofDigitChars_ten_toDigits
          rw [alone] at value
          have none : n / 10 = 0 := value.symm
          omega

theorem takeWhile_digits (digit : ∀ c ∈ digits, c.isDigit = true) (ends : EndsDigits rest) :
    (digits ++ rest).takeWhile Char.isDigit = digits ∧
      (digits ++ rest).dropWhile Char.isDigit = rest := by
  have stop : rest.takeWhile Char.isDigit = [] ∧ rest.dropWhile Char.isDigit = rest := by
    cases rest with
    | nil => exact ⟨rfl, rfl⟩
    | cons c r =>
        have other : c.isDigit = false := ends c rfl
        simp [other]
  rw [List.takeWhile_append_of_pos digit, List.dropWhile_append_of_pos digit, stop.1, stop.2,
    List.append_nil]
  exact ⟨rfl, rfl⟩

theorem read_someDigits {d : Char} {ds : List Char} (digit : ∀ c ∈ d :: ds, c.isDigit = true)
    (ends : EndsDigits rest) :
    (someDigits atEnd).read (d :: ds ++ rest) = .ok (d :: ds, rest) := by
  have first : d.isDigit = true := digit d List.mem_cons_self
  obtain ⟨taken, left⟩ := takeWhile_digits (fun c hc => digit c (List.mem_cons_of_mem _ hc)) ends
  simp [someDigits, first, Reader.read_bind, Reader.map, taken, left]

/-- **Digits of a whole number are read as they stand.** -/
theorem read_wholeDigits (plain : Plain digits) (ends : EndsDigits rest) :
    (wholeDigits atEnd).read (digits ++ rest) = .ok (digits, rest) := by
  obtain ⟨digit, some, zero⟩ := plain
  cases digits with
  | nil => exact absurd rfl some
  | cons d ds =>
      by_cases first : d = '0'
      · subst first
        cases zero rfl
        cases rest with
        | nil => rfl
        | cons c r =>
            have other : c.isDigit = false := ends c rfl
            simp [wholeDigits, Reader.andThen, Reader.read_bind, other]
      · have nonzero : (wholeDigits atEnd).read (d :: ds ++ rest) =
            (someDigits atEnd).read (d :: ds ++ rest) := by
          simp [wholeDigits, first]
        rw [nonzero]
        exact read_someDigits digit ends

/-- The value of digits, with the first one taken as the reader takes it. -/
theorem ofDigitChars_cons_digitValue (d : Char) (ds : List Char) (n : Nat) :
    Nat.ofDigitChars 10 (d :: ds) n = Nat.ofDigitChars 10 ds (n * 10 + digitValue d) := by
  rw [Nat.ofDigitChars_cons, digitValue, Nat.mul_comm]

/-- **Digits are all kept if their value fits.** -/
theorem absorb_of_le {limit n : Nat} (fits : Nat.ofDigitChars 10 digits n ≤ limit) :
    absorb limit n digits = (Nat.ofDigitChars 10 digits n, []) := by
  induction digits generalizing n with
  | nil => rfl
  | cons d rest ih =>
      rw [ofDigitChars_cons_digitValue] at fits ⊢
      -- The value so far is no more than the value of all the digits.
      have grows := @Nat.ofDigitChars_eq_ofDigitChars_zero rest (n * 10 + digitValue d)
      have positive : 0 < 10 ^ rest.length := Nat.pow_pos (by decide)
      have scale := Nat.le_mul_of_pos_left (n * 10 + digitValue d) positive
      rw [absorb, if_pos (by omega), ih fits]

/-- **What is kept is the value of the first digits**, those before the ones that are left over. -/
theorem exists_kept_absorb (limit n : Nat) (digits : List Char) :
    ∃ kept, digits = kept ++ (absorb limit n digits).2 ∧
      (absorb limit n digits).1 = Nat.ofDigitChars 10 kept n := by
  fun_induction absorb limit n digits with
  | case1 => exact ⟨[], rfl, rfl⟩
  | case2 n d rest fits ih =>
      obtain ⟨kept, whole, value⟩ := ih
      refine ⟨d :: kept, by rw [List.cons_append, ← whole], ?_⟩
      rw [ofDigitChars_cons_digitValue]
      exact value
  | case3 => exact ⟨[], rfl, rfl⟩

end Digits

section Literals

/-- The text of a fraction, with its point. -/
def fractionText (digits : List Char) : List Char :=
  if digits.isEmpty then [] else '.' :: digits

/-- The text of an exponent, with its mark and its sign. -/
def exponentText : Option (Bool × List Char) → List Char
  | none => []
  | some (negative, digits) => 'e' :: (if negative then '-' else '+') :: digits

/-- The text of a literal behind its minus. -/
def Literal.unsigned (l : Literal) : List Char :=
  l.whole ++ fractionText l.fraction ++ exponentText l.exponent

/-- The text of a literal. -/
def Literal.written (l : Literal) : List Char :=
  (if l.negative then ['-'] else []) ++ l.unsigned

/-- A literal that is well formed: digits everywhere, no superfluous zeros before the point, and at
least one digit in an exponent. -/
structure Literal.Proper (l : Literal) : Prop where
  whole : Plain l.whole
  fraction : ∀ c ∈ l.fraction, c.isDigit = true
  exponent : ∀ e ∈ l.exponent, e.2 ≠ [] ∧ ∀ c ∈ e.2, c.isDigit = true

/-- The literal of an integer has neither a fraction nor an exponent. -/
theorem Literal.written_integer (negative : Bool) (digits : List Char) :
    Literal.written ⟨negative, digits, [], none⟩ =
      (if negative then ['-'] else []) ++ digits := by
  simp [Literal.written, Literal.unsigned, fractionText, exponentText]

theorem Literal.proper_integer (negative : Bool) (plain : Plain digits) :
    Literal.Proper ⟨negative, digits, [], none⟩ := ⟨plain, nofun, nofun⟩

theorem read_minusSign (negative : Bool) (plain : Plain digits) (rest : List Char) :
    (minusSign atEnd).read ((if negative then ['-'] else []) ++ (digits ++ rest)) =
      .ok (negative, digits ++ rest) := by
  obtain ⟨d, ds, rfl⟩ := List.exists_cons_of_ne_nil plain.some
  cases negative with
  | true => rfl
  | false =>
      have other : d ≠ '-' := by
        rintro rfl
        exact absurd (plain.digit '-' List.mem_cons_self) (by decide)
      simp [minusSign, other]

theorem read_fractionDigits (digit : ∀ c ∈ digits, c.isDigit = true) (ends : EndsDigits rest)
    (noPoint : '.' ∉ rest.head?) :
    (fractionDigits atEnd).read (fractionText digits ++ rest) = .ok (digits, rest) := by
  cases digits with
  | nil =>
      cases rest with
      | nil => rfl
      | cons c r =>
          have other : c ≠ '.' := fun same => noPoint (by rw [same]; rfl)
          simp [fractionText, fractionDigits, other]
  | cons d ds =>
      have point : (Reader.next atEnd).read ('.' :: (d :: ds ++ rest)) =
          .ok ('.', d :: ds ++ rest) := rfl
      show ((Reader.next atEnd).andThen (someDigits atEnd)).read ('.' :: (d :: ds ++ rest)) = _
      rw [Reader.read_andThen_of_ok _ point, read_someDigits digit ends]

theorem read_exponentPart {exponent : Option (Bool × List Char)}
    (proper : ∀ e ∈ exponent, e.2 ≠ [] ∧ ∀ c ∈ e.2, c.isDigit = true) (ends : EndsNumber rest) :
    (exponentPart atEnd).read (exponentText exponent ++ rest) = .ok (exponent, rest) := by
  cases exponent with
  | none =>
      cases rest with
      | nil => rfl
      | cons c r => simp [exponentText, exponentPart, (ends c rfl).2.2.1, (ends c rfl).2.2.2]
  | some e =>
      obtain ⟨negative, digits⟩ := e
      obtain ⟨nonempty, digit⟩ := proper _ rfl
      obtain ⟨d, ds, rfl⟩ := List.exists_cons_of_ne_nil nonempty
      have mark (r : List Char) : (Reader.next atEnd).read ('e' :: r) = .ok ('e', r) := rfl
      have sign (r : List Char) : (exponentSign atEnd).read ((if negative then '-' else '+') :: r) =
          .ok (negative, r) := by
        cases negative <;> rfl
      have digits : (someDigits atEnd).read (d :: ds ++ rest) = .ok (d :: ds, rest) :=
        read_someDigits digit ends.endsDigits
      rw [exponentText, exponentPart, List.cons_append, List.cons_append, Reader.read_peek_cons,
        if_pos (.inl rfl), Reader.read_relax, Reader.read_andThen_of_ok _ (mark _),
        Reader.read_bind_of_ok _ (sign _), Reader.read_map_of_ok _ digits]

/-- What follows the fraction of a literal: the mark of its exponent, or what follows the literal. -/
theorem endsNumber_exponentText (exponent : Option (Bool × List Char)) (ends : EndsNumber rest) :
    EndsDigits (exponentText exponent ++ rest) ∧ '.' ∉ (exponentText exponent ++ rest).head? := by
  cases exponent with
  | none => exact ⟨ends.endsDigits, fun point => (ends '.' point).2.1 rfl⟩
  | some e =>
      refine ⟨fun c hc => ?_, fun point => ?_⟩
      · cases hc
        decide
      · cases point

/-- **A well-formed literal is read back.** -/
theorem Literal.Proper.read {l : Literal} (proper : l.Proper) (ends : EndsNumber rest) :
    (literal atEnd).read (l.written ++ rest) = .ok (l, rest) := by
  obtain ⟨behind, noPoint⟩ := endsNumber_exponentText l.exponent ends
  have whole : EndsDigits (fractionText l.fraction ++ (exponentText l.exponent ++ rest)) := by
    cases l.fraction with
    | nil => exact behind
    | cons d ds =>
        intro c hc
        cases hc
        decide
  rw [Literal.written, Literal.unsigned]
  simp only [List.append_assoc]
  rw [literal, Reader.read_bind_of_ok _ (read_minusSign l.negative proper.whole _),
    Reader.read_bind_of_ok _ (read_wholeDigits proper.whole whole),
    Reader.read_bind_of_ok _ (read_fractionDigits proper.fraction behind noPoint),
    Reader.read_map_of_ok _ (read_exponentPart proper.exponent ends)]

end Literals

section Integers

theorem read_literal (negative : Bool) (plain : Plain digits) (ends : EndsNumber rest) :
    (literal atEnd).read ((if negative then ['-'] else []) ++ digits ++ rest) =
      .ok (⟨negative, digits, [], none⟩, rest) := by
  rw [← Literal.written_integer]
  exact (Literal.proper_integer negative plain).read ends

theorem scalar_of_digits (negative : Bool) {n : Nat} (fits : n ≤ significandLimit) :
    Literal.scalar ⟨negative, Nat.toDigits 10 n, [], none⟩ = .ok (Literal.integer negative n) := by
  have value : Nat.ofDigitChars 10 (Nat.toDigits 10 n) 0 = n := Nat.ofDigitChars_ten_toDigits
  have kept : absorb significandLimit 0 (Nat.toDigits 10 n) = (n, []) := by
    rw [absorb_of_le (value.symm ▸ fits), value]
  simp [Literal.scalar, Literal.scaled, kept, absorb]

/-- **The digits of a number are read as the number**, with a minus or without. -/
theorem read_number_of_digits (negative : Bool) {n : Nat} (fits : n ≤ significandLimit)
    (ends : EndsNumber rest) :
    number.read ((if negative then ['-'] else []) ++ Nat.toDigits 10 n ++ rest) =
      .ok (Literal.integer negative n, rest) := by
  rw [number, Reader.read_bind_of_ok _ (read_literal negative (plain_toDigits n) ends),
    scalar_of_digits negative fits]
  rfl

/-- **A signed integer is read back.** -/
theorem read_number_int (i : Int64) (ends : EndsNumber rest) :
    number.read (integer i.toInt ++ rest) = .ok (.int i, rest) := by
  have low := i.le_toInt
  have high := i.toInt_lt
  have fits : i.toInt.natAbs ≤ significandLimit := by
    rw [significandLimit]
    omega
  have read := read_number_of_digits (decide (i.toInt < 0)) fits ends
  simp only [decide_eq_true_eq] at read
  rw [integer, read]
  have same : Literal.integer (decide (i.toInt < 0)) i.toInt.natAbs = .int i := by
    by_cases negative : i.toInt < 0
    · have magnitude : -(i.toInt.natAbs : Int) = i.toInt := by omega
      have some : ¬ (i.toInt.natAbs = 0 ∨ integerBound < i.toInt.natAbs) := by
        rw [integerBound]
        omega
      rw [Literal.integer, if_pos (decide_eq_true negative), if_neg some, magnitude,
        Int64.ofInt_toInt]
    · have magnitude : (i.toInt.natAbs : Int) = i.toInt := by omega
      have small : i.toInt.natAbs < integerBound := by
        rw [integerBound]
        omega
      simp [Literal.integer, negative, small, magnitude]
  rw [same]

/-- **An unsigned integer is read back**, as a signed one if it is in the range of those. -/
theorem read_number_uint (u : UInt64) (ends : EndsNumber rest) :
    number.read (Nat.toDigits 10 u.toNat ++ rest) =
      .ok (if u.toNat < integerBound then .int (Int64.ofInt u.toNat) else .uint u, rest) := by
  have fits : u.toNat ≤ significandLimit := by
    have bound := u.toNat_lt
    rw [significandLimit]
    omega
  have read := read_number_of_digits false fits ends
  simp only [Bool.false_eq_true, if_false, List.nil_append] at read
  rw [read]
  simp [Literal.integer]

end Integers

end Json

end TreeHandles
