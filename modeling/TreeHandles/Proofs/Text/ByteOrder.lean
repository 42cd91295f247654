import Mathlib.Data.List.Lex
import Mathlib.Data.String.Basic
import Mathlib.Tactic.SplitIfs

/-!
# The order of texts and the order of their bytes

Texts are ordered by the code points of their characters, from the first on.  A first byte tells how
many bytes encode a character, and it is the greater the more there are; the further bytes hold the
digits of the code point to the base 64, the most significant first.  So the lesser of two characters
has the lesser byte at the first place where they differ, and the order of texts is that of the bytes
that encode them.

**Results.**
* `bytes_eq_toUTF8`: the bytes of a text are those of its encoding.
* `eq_or_le_of_mem_utf8EncodeChar`: what the bytes of a character tell about its number.
* `encode_lt_encode`: of two characters the lesser one has the lesser bytes, whatever follows.
* `bytes_lt_bytes_iff`: the order of texts is the lexicographic order of their bytes.
-/

namespace TreeHandles
namespace Text

/-- The bytes that encode a text. -/
def bytes (s : String) : List UInt8 := s.toList.flatMap String.utf8EncodeChar

theorem bytes_eq_toUTF8 (s : String) : bytes s = s.toUTF8.data.toList := by
  have each (cs : List Char) : cs.utf8Encode.data.toList = cs.flatMap String.utf8EncodeChar := by
    rw [List.utf8Encode, List.data_toByteArray]
  rw [String.toUTF8_eq_toByteArray, bytes, ← each, ← String.toByteArray_ofList, String.ofList_toList]

section Digits

/-- The last digits of a number to the base 64, as the bytes that continue a character. -/
def continuing : Nat → Nat → List UInt8
  | 0, _ => []
  | count + 1, v => .ofNat (0x80 + v / 64 ^ count % 64) :: continuing count v

variable {a b v w : Nat} {x y : List UInt8}

/-- Bytes compare like their numbers. -/
theorem ofNat_cons_lt (small : b < 256) (less : a < b ∨ a = b ∧ x < y) :
    UInt8.ofNat a :: x < UInt8.ofNat b :: y := by
  rw [List.cons_lt_cons_iff]
  rcases less with less | ⟨rfl, less⟩
  · refine .inl (UInt8.lt_iff_toNat_lt.mpr ?_)
    rwa [UInt8.toNat_ofNat_of_lt' (by rw [UInt8.size]; omega),
      UInt8.toNat_ofNat_of_lt' (by rw [UInt8.size]; omega)]
  · exact .inr ⟨rfl, less⟩

/-- Two numbers compare like their quotients, and like their remainders where those are equal. -/
theorem div_lt_or_mod_lt (less : v < w) (unit : Nat) :
    v / unit < w / unit ∨ v / unit = w / unit ∧ v % unit < w % unit := by
  rcases Nat.lt_or_eq_of_le (Nat.div_le_div_right (c := unit) less.le) with high | same
  · exact .inl high
  · refine .inr ⟨same, ?_⟩
    have := Nat.div_add_mod v unit
    have := Nat.div_add_mod w unit
    rw [same] at *
    omega

/-- The last digits compare like the number that they write. -/
theorem continuing_lt {count : Nat} (less : v % 64 ^ count < w % 64 ^ count) :
    continuing count v ++ x < continuing count w ++ y := by
  induction count with
  | zero => simp [Nat.mod_one] at less
  | succ count ih =>
      have digit : v % 64 ^ (count + 1) / 64 ^ count = v / 64 ^ count % 64 := by
        rw [Nat.pow_succ, Nat.mod_mul_right_div_self]
      have digit' : w % 64 ^ (count + 1) / 64 ^ count = w / 64 ^ count % 64 := by
        rw [Nat.pow_succ, Nat.mod_mul_right_div_self]
      have divides : 64 ^ count ∣ 64 ^ (count + 1) := Nat.pow_dvd_pow 64 (Nat.le_succ count)
      rw [continuing, continuing, List.cons_append, List.cons_append]
      refine ofNat_cons_lt (by omega) ?_
      rcases div_lt_or_mod_lt less (64 ^ count) with high | ⟨high, low⟩
      · exact .inl (by omega)
      · rw [Nat.mod_mod_of_dvd _ divides, Nat.mod_mod_of_dvd _ divides] at low
        exact .inr ⟨by omega, ih low⟩

theorem le_of_mem_continuing {count : Nat} {byte : UInt8} (inside : byte ∈ continuing count v) :
    0x80 ≤ byte.toNat := by
  induction count with
  | zero => exact absurd inside List.not_mem_nil
  | succ count ih =>
      rcases List.mem_cons.mp inside with rfl | later
      · rw [UInt8.toNat_ofNat_of_lt' (by rw [UInt8.size]; omega)]
        omega
      · exact ih later

end Digits

section Characters

/-- The number of bytes that continue a character, by its code point. -/
def width (v : Nat) : Nat :=
  if v ≤ 0x7f then 0 else if v ≤ 0x7ff then 1 else if v ≤ 0xffff then 2 else 3

/-- What the first byte adds to the most significant digit to tell how many bytes follow. -/
def mark : Nat → Nat
  | 0 => 0
  | 1 => 0xc0
  | 2 => 0xe0
  | _ + 3 => 0xf0

/-- The first byte of a character, by its code point. -/
def first (v : Nat) : Nat := mark (width v) + v / 64 ^ width v

/-- The bytes that encode a code point. -/
def encode (v : Nat) : List UInt8 := .ofNat (first v) :: continuing (width v) v

theorem width_cases (v : Nat) :
    (width v = 0 ∧ v ≤ 0x7f) ∨ (width v = 1 ∧ 0x7f < v ∧ v ≤ 0x7ff) ∨
      (width v = 2 ∧ 0x7ff < v ∧ v ≤ 0xffff) ∨ (width v = 3 ∧ 0xffff < v) := by
  rw [width]
  split_ifs <;> omega

theorem codePoint_lt (c : Char) : c.toNat < 0x110000 := by
  rcases c.valid with low | ⟨_, high⟩
  · exact Nat.lt_trans low (by decide)
  · exact high

theorem utf8EncodeChar_eq_encode (c : Char) : String.utf8EncodeChar c = encode c.toNat := by
  have bound := codePoint_lt c
  have same : c.val.toNat = c.toNat := rfl
  rw [String.utf8EncodeChar, encode, first]
  simp only [same]
  -- One case for each number of bytes.
  rcases width_cases c.toNat with
    ⟨width, low⟩ | ⟨width, low, high⟩ | ⟨width, low, high⟩ | ⟨width, low⟩
  · rw [width, if_pos low]
    simp [mark, continuing]
  · rw [width, if_neg (by omega), if_pos high]
    simp [mark, continuing, Nat.add_comm, Nat.mod_eq_of_lt (show c.toNat / 64 < 32 by omega)]
  · rw [width, if_neg (by omega), if_neg (by omega), if_pos high]
    simp [mark, continuing, Nat.add_comm, Nat.mod_eq_of_lt (show c.toNat / 4096 < 16 by omega)]
  · rw [width, if_neg (by omega), if_neg (by omega), if_neg (by omega)]
    simp [mark, continuing, Nat.add_comm, Nat.mod_eq_of_lt (show c.toNat / 262144 < 8 by omega)]

/-- The first bytes of the characters of each width have a range of their own. -/
theorem first_cases {v : Nat} (bound : v < 0x110000) :
    (width v = 0 ∧ first v < 0x80) ∨ (width v = 1 ∧ 0xc0 ≤ first v ∧ first v < 0xe0) ∨
      (width v = 2 ∧ 0xe0 ≤ first v ∧ first v < 0xf0) ∨
      (width v = 3 ∧ 0xf0 ≤ first v ∧ first v < 0xf8) := by
  rw [first]
  rcases width_cases v with ⟨width, _⟩ | ⟨width, _, _⟩ | ⟨width, _, _⟩ | ⟨width, _⟩
  all_goals
    simp only [width, mark, Nat.reducePow, true_and]
    omega

/-- **Of two characters the lesser one has the lesser bytes**, whatever follows. -/
theorem encode_lt_encode {v w : Nat} (less : v < w) (bound : w < 0x110000) (x y : List UInt8) :
    encode v ++ x < encode w ++ y := by
  have range := first_cases (less.trans bound)
  have range' := first_cases bound
  rw [encode, encode, List.cons_append, List.cons_append]
  refine ofNat_cons_lt (by omega) ?_
  by_cases same : width v = width w
  · rw [first, first, same]
    rcases div_lt_or_mod_lt less (64 ^ width w) with high | ⟨high, low⟩
    · exact .inl (by omega)
    · exact .inr ⟨by omega, continuing_lt low⟩
  · -- The greater character is the wider one, which its first byte tells.
    have cases := width_cases v
    have cases' := width_cases w
    exact .inl (by omega)

/-- **A character has its own number as its only byte, or none of its bytes is a character.** -/
theorem eq_or_le_of_mem_utf8EncodeChar {c : Char} {b : UInt8} (inside : b ∈ String.utf8EncodeChar c) :
    b.toNat = c.toNat ∨ 0x80 ≤ b.toNat := by
  have range := first_cases (codePoint_lt c)
  rw [utf8EncodeChar_eq_encode, encode] at inside
  rcases List.mem_cons.mp inside with rfl | later
  · rw [UInt8.toNat_ofNat_of_lt' (by rw [UInt8.size]; omega)]
    rcases range with ⟨single, _⟩ | _ | _ | _
    · rw [first, single]
      simp [mark]
    all_goals omega
  · exact .inr (le_of_mem_continuing later)

end Characters

section Texts

theorem flatMap_lt_of_lt {cs ds : List Char} (less : cs < ds) :
    cs.flatMap String.utf8EncodeChar < ds.flatMap String.utf8EncodeChar := by
  induction cs generalizing ds with
  | nil =>
      cases ds with
      | nil => exact absurd less (List.lt_irrefl _)
      | cons d ds =>
          rw [List.flatMap_cons, utf8EncodeChar_eq_encode]
          exact List.nil_lt_cons _ _
  | cons c cs ih =>
      cases ds with
      | nil => exact absurd less (List.not_lt_nil _)
      | cons d ds =>
          rw [List.flatMap_cons, List.flatMap_cons]
          rcases List.cons_lt_cons_iff.mp less with first | ⟨rfl, rest⟩
          · rw [utf8EncodeChar_eq_encode, utf8EncodeChar_eq_encode]
            exact encode_lt_encode first (codePoint_lt d) _ _
          · exact List.append_left_lt (ih rest)

/-- **The order of texts is the lexicographic order of their bytes.** -/
theorem bytes_lt_bytes_iff {s t : String} : bytes s < bytes t ↔ s < t := by
  have forward {s t : String} (less : s < t) : bytes s < bytes t :=
    flatMap_lt_of_lt less
  refine ⟨fun less => ?_, forward⟩
  by_contra notLess
  have notLess := String.not_lt.mp notLess
  by_cases same : s = t
  · subst same
    exact List.lt_irrefl _ less
  · have more : t < s := by
      by_contra notMore
      exact same (String.le_antisymm (String.not_lt.mp notMore) notLess)
    exact List.lt_asymm less (forward more)

end Texts

end Text

end TreeHandles
