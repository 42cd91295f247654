import Mathlib.Data.List.Forall2
import TreeHandles.Proofs.Text.ByteOrder
import TreeHandles.Text.Utf8

/-!
# Bytes that encode texts, and bytes that do not

The ranges that a first byte is owed are chosen so that the bytes that fit are those of the characters:
what they gather is the number of a character that takes as many bytes and starts with this one.  So
decoding reads a character where the bytes start with one.  Where they do not, no text goes on there,
because bytes are split into characters in one way only; and the bytes that are left can be completed
to a character exactly if they ended before all that is owed has come.

**Results.**
* `encode_of_fits` and `fits_of_encode`: the bytes that fit are those of the characters.
* `decodeFrom_owed`, `decodeFrom_cons` and `decodeFrom_cases`: what becomes of the bytes of a character
  that was begun, of those at its start, and of all bytes.
* `decodeUtf8_eq_ok_iff`: bytes are decoded exactly to the text that they encode.
* `decodeUtf8_error`: the place where decoding fails, and whether the bytes can be completed.
-/

namespace TreeHandles
namespace Text

section Bytes

variable {b q : UInt8} {owed : List ByteRange} {bits : Nat}

theorem ByteRange.contains_iff {r : ByteRange} :
    r.contains b = true ↔ r.low.toNat ≤ b.toNat ∧ b.toNat ≤ r.high.toNat := by
  rw [contains, Bool.and_eq_true, decide_eq_true_eq, decide_eq_true_eq, UInt8.le_iff_toNat_le,
    UInt8.le_iff_toNat_le]

theorem contains_continuation : continuation.contains q = true ↔ 0x80 ≤ q.toNat ∧ q.toNat ≤ 0xbf :=
  ByteRange.contains_iff

/-- The range of the second byte is cut from below for one first byte, and from above for another. -/
theorem contains_second {least most low high : UInt8} (apart : least ≠ most) :
    (if b = least then (⟨low, 0xbf⟩ : ByteRange) else if b = most then ⟨0x80, high⟩
        else continuation).contains q = true ↔
      (if b = least then low.toNat else 0x80) ≤ q.toNat ∧
        q.toNat ≤ if b = most then high.toNat else 0xbf := by
  split
  · next same =>
      subst same
      rw [if_neg apart, ByteRange.contains_iff]
      rfl
  · split
    · exact ByteRange.contains_iff
    · exact contains_continuation

/-- A first byte tells how many bytes follow and in which ranges, and what it adds to the number. -/
theorem firstByte?_cases (begun : firstByte? b = some (owed, bits)) :
    (owed = [] ∧ b.toNat = bits ∧ bits < 0x80) ∨
      (owed = [continuation] ∧ b.toNat = 0xc0 + bits ∧ 2 ≤ bits ∧ bits < 0x20) ∨
      (∃ second : ByteRange, owed = [second, continuation] ∧ b.toNat = 0xe0 + bits ∧ bits < 0x10 ∧
        ∀ q, second.contains q = true ↔ 0x80 ≤ q.toNat ∧ q.toNat ≤ 0xbf ∧
          (bits = 0 → 0xa0 ≤ q.toNat) ∧ (bits = 0xd → q.toNat ≤ 0x9f)) ∨
      ∃ second : ByteRange, owed = [second, continuation, continuation] ∧ b.toNat = 0xf0 + bits ∧
        bits ≤ 4 ∧ ∀ q, second.contains q = true ↔ 0x80 ≤ q.toNat ∧ q.toNat ≤ 0xbf ∧
          (bits = 0 → 0x90 ≤ q.toNat) ∧ (bits = 4 → q.toNat ≤ 0x8f) := by
  simp only [firstByte?, UInt8.lt_iff_toNat_lt, UInt8.reduceToNat] at begun
  split at begun
  · cases begun
    exact .inl ⟨rfl, rfl, ‹_›⟩
  split at begun
  · cases begun
  split at begun
  · cases begun
    exact .inr (.inl ⟨rfl, by omega, by omega, by omega⟩)
  split at begun
  · cases begun
    refine .inr (.inr (.inl ⟨_, rfl, by omega, by omega, fun q => ?_⟩))
    rw [contains_second (by decide)]
    simp only [← UInt8.toNat_inj, UInt8.reduceToNat]
    split_ifs <;> omega
  split at begun
  · cases begun
    refine .inr (.inr (.inr ⟨_, rfl, by omega, by omega, fun q => ?_⟩))
    rw [contains_second (by decide)]
    simp only [← UInt8.toNat_inj, UInt8.reduceToNat]
    split_ifs <;> omega
  · cases begun

/-- What is no first byte continues a character, starts a longer form of one, or lies beyond all. -/
theorem not_first (refused : firstByte? b = none) :
    0x80 ≤ b.toNat ∧ b.toNat < 0xc2 ∨ 0xf5 ≤ b.toNat := by
  simp only [firstByte?, UInt8.lt_iff_toNat_lt, UInt8.reduceToNat] at refused
  split_ifs at refused <;> omega

end Bytes

section Characters

/-- The number that some bits and the bytes that continue them make. -/
def gather (bits : Nat) (qs : List UInt8) : Nat :=
  qs.foldl (fun v q => v * 64 + (q.toNat - 0x80)) bits

/-- Bytes lie in the ranges that they are owed in, one by one. -/
def Fits (owed : List ByteRange) (qs : List UInt8) : Prop :=
  List.Forall₂ (fun range q => range.contains q = true) owed qs

variable {b : UInt8} {qs : List UInt8} {owed : List ByteRange} {bits : Nat}

theorem gather_nil : gather bits [] = bits := rfl

theorem gather_cons {q : UInt8} :
    gather bits (q :: qs) = gather (bits * 64 + (q.toNat - 0x80)) qs := by
  rw [gather, List.foldl_cons, gather]

theorem gather_continuing (count v : Nat) : gather (v / 64 ^ count) (continuing count v) = v := by
  induction count with
  | zero => simp [continuing, gather_nil]
  | succ count ih =>
      have digit : v / 64 ^ (count + 1) * 64 + (0x80 + v / 64 ^ count % 64 - 0x80) =
          v / 64 ^ count := by
        rw [Nat.pow_succ, ← Nat.div_div_eq_div_mul]
        omega
      rw [continuing, gather_cons, UInt8.toNat_ofNat_of_lt' (by rw [UInt8.size]; omega), digit, ih]

theorem continuing_gather (each : ∀ q ∈ qs, continuation.contains q = true) :
    continuing qs.length (gather bits qs) = qs ∧ gather bits qs / 64 ^ qs.length = bits := by
  induction qs generalizing bits with
  | nil => simp [continuing, gather_nil]
  | cons q qs ih =>
      obtain ⟨here, later⟩ := List.forall_mem_cons.mp each
      rw [contains_continuation] at here
      obtain ⟨digits, above⟩ :
          continuing qs.length (gather (bits * 64 + (q.toNat - 0x80)) qs) = qs ∧
            gather (bits * 64 + (q.toNat - 0x80)) qs / 64 ^ qs.length =
              bits * 64 + (q.toNat - 0x80) := ih later
      have last : (bits * 64 + (q.toNat - 0x80)) % 64 = q.toNat - 0x80 := by omega
      have byte : 0x80 + (q.toNat - 0x80) = q.toNat := by omega
      rw [gather_cons, List.length_cons, continuing, digits, above, last, byte, UInt8.ofNat_toNat,
        Nat.pow_succ, ← Nat.div_div_eq_div_mul, above]
      exact ⟨rfl, by omega⟩

/-- The bytes of a character whose number was gathered from bytes are these bytes. -/
theorem encode_gather (each : ∀ q ∈ qs, continuation.contains q = true)
    (valid : (gather bits qs).isValidChar) (wide : width (gather bits qs) = qs.length)
    (lead : b.toNat = mark qs.length + bits) :
    String.utf8EncodeChar (Char.ofNat (gather bits qs)) = b :: qs := by
  obtain ⟨digits, above⟩ : continuing qs.length (gather bits qs) = qs ∧
      gather bits qs / 64 ^ qs.length = bits := continuing_gather each
  have number : (Char.ofNat (gather bits qs)).toNat = gather bits qs := by
    rw [Char.ofNat, dif_pos valid]
    rfl
  rw [utf8EncodeChar_eq_encode, number, encode, first, wide, above, ← lead, UInt8.ofNat_toNat,
    digits]

/-- **Bytes that a first byte is owed encode a character.** -/
theorem encode_of_fits (begun : firstByte? b = some (owed, bits)) (fits : Fits owed qs) :
    String.utf8EncodeChar (Char.ofNat (gather bits qs)) = b :: qs := by
  have middle {q : UInt8} (fitting : continuation.contains q = true) :
      0x80 ≤ q.toNat ∧ q.toNat ≤ 0xbf := contains_continuation.mp fitting
  -- One case for each number of bytes that follow; the narrower ranges keep the number a character.
  rcases firstByte?_cases begun with
    ⟨rfl, lead, low⟩ | ⟨rfl, lead, low, high⟩ | ⟨second, rfl, lead, high, narrow⟩ |
    ⟨second, rfl, lead, high, narrow⟩
  · cases fits
    refine encode_gather nofun ?_ ?_ ?_
    · rw [gather_nil]
      exact .inl (by omega)
    · rw [gather_nil, width, if_pos (by omega)]
      rfl
    · rw [lead]
      exact (Nat.zero_add _).symm
  · obtain _ | ⟨fit, rest⟩ := fits
    cases rest
    have := middle fit
    refine encode_gather (by simpa using fit) ?_ ?_ lead
    · simp only [gather_cons, gather_nil]
      exact .inl (by omega)
    · simp only [gather_cons, gather_nil, width]
      rw [if_neg (by omega), if_pos (by omega)]
      rfl
  · obtain _ | ⟨fit, _ | ⟨fit', rest⟩⟩ := fits
    cases rest
    have := (narrow _).mp fit
    have := middle fit'
    refine encode_gather ?_ ?_ ?_ lead
    · simp only [List.forall_mem_cons, contains_continuation]
      exact ⟨by omega, by omega, nofun⟩
    · simp only [gather_cons, gather_nil, Nat.isValidChar]
      omega
    · simp only [gather_cons, gather_nil, width]
      rw [if_neg (by omega), if_neg (by omega), if_pos (by omega)]
      rfl
  · obtain _ | ⟨fit, _ | ⟨fit', _ | ⟨fit'', rest⟩⟩⟩ := fits
    cases rest
    have := (narrow _).mp fit
    have := middle fit'
    have := middle fit''
    refine encode_gather ?_ ?_ ?_ lead
    · simp only [List.forall_mem_cons, contains_continuation]
      exact ⟨by omega, by omega, by omega, nofun⟩
    · simp only [gather_cons, gather_nil, Nat.isValidChar]
      omega
    · simp only [gather_cons, gather_nil, width]
      rw [if_neg (by omega), if_neg (by omega), if_neg (by omega)]
      rfl

theorem toNat_digit (v : Nat) : (UInt8.ofNat (0x80 + v % 64)).toNat = 0x80 + v % 64 :=
  UInt8.toNat_ofNat_of_lt' (by rw [UInt8.size]; omega)

theorem contains_digit (v : Nat) : continuation.contains (.ofNat (0x80 + v % 64)) = true := by
  rw [contains_continuation, toNat_digit]
  omega

/-- **The bytes of a character are those that its first byte is owed.** -/
theorem fits_of_encode {c : Char} (encoded : String.utf8EncodeChar c = b :: qs) :
    ∃ owed bits, firstByte? b = some (owed, bits) ∧ Fits owed qs ∧
      Char.ofNat (gather bits qs) = c := by
  have valid : c.toNat < 0xd800 ∨ 0xdfff < c.toNat ∧ c.toNat < 0x110000 := c.valid
  rw [utf8EncodeChar_eq_encode, encode, List.cons.injEq] at encoded
  obtain ⟨rfl, rfl⟩ := encoded
  have lead : (UInt8.ofNat (first c.toNat)).toNat = first c.toNat :=
    UInt8.toNat_ofNat_of_lt' (by have := first_cases (codePoint_lt c); rw [UInt8.size]; omega)
  suffices ∃ owed, firstByte? (.ofNat (first c.toNat)) =
      some (owed, c.toNat / 64 ^ width c.toNat) ∧ Fits owed (continuing (width c.toNat) c.toNat) by
    obtain ⟨owed, begun, fits⟩ := this
    exact ⟨owed, _, begun, fits, by rw [gather_continuing, Char.ofNat_toNat]⟩
  cases begun : firstByte? (.ofNat (first c.toNat)) with
  | none =>
      have refused := not_first begun
      rw [lead, first] at refused
      rcases width_cases c.toNat with ⟨wide, _⟩ | ⟨wide, _⟩ | ⟨wide, _⟩ | ⟨wide, _⟩
      all_goals
        simp only [wide, mark, Nat.reducePow] at refused
        omega
  | some start =>
      obtain ⟨owed, bits⟩ := start
      have ways := firstByte?_cases begun
      rw [lead, first] at ways
      refine ⟨owed, ?_⟩
      rcases width_cases c.toNat with ⟨wide, low⟩ | ⟨wide, low⟩ | ⟨wide, low⟩ | ⟨wide, low⟩
      -- In each case the range of the first byte leaves one of the four ways.
      all_goals
        simp only [wide, mark, Nat.reducePow] at ways ⊢
        simp only [continuing, Nat.reducePow, Nat.div_one]
      · rcases ways with ⟨rfl, same, _⟩ | ⟨_, same, _⟩ | ⟨_, _, same, _⟩ | ⟨_, _, same, _⟩ <;> try omega
        exact ⟨by rw [show bits = c.toNat by omega], .nil⟩
      · rcases ways with ⟨_, same, _⟩ | ⟨rfl, same, _⟩ | ⟨_, _, same, _⟩ | ⟨_, _, same, _⟩ <;> try omega
        refine ⟨by rw [show bits = c.toNat / 64 by omega], .cons (contains_digit _) .nil⟩
      · rcases ways with ⟨_, same, _⟩ | ⟨_, same, _⟩ | ⟨_, rfl, same, _, narrow⟩ | ⟨_, _, same, _⟩ <;>
          try omega
        refine ⟨by rw [show bits = c.toNat / 4096 by omega], .cons ?_ (.cons (contains_digit _) .nil)⟩
        rw [narrow, toNat_digit]
        omega
      · rcases ways with ⟨_, same, _⟩ | ⟨_, same, _⟩ | ⟨_, _, same, _⟩ | ⟨_, rfl, same, _, narrow⟩ <;>
          try omega
        refine ⟨by rw [show bits = c.toNat / 262144 by omega],
          .cons ?_ (.cons (contains_digit _) (.cons (contains_digit _) .nil))⟩
        rw [narrow, toNat_digit]
        omega

end Characters

section Decoding

variable {b q : UInt8} {qs rest : List UInt8} {owed : List ByteRange} {range : ByteRange} {bits : Nat}

theorem exists_fits_cons {P : List UInt8 → Prop} : (∃ qs, Fits (range :: owed) qs ∧ P qs) ↔
    ∃ q, range.contains q = true ∧ ∃ qs, Fits owed qs ∧ P (q :: qs) := by
  constructor
  · rintro ⟨_, _ | ⟨fit, later⟩, holds⟩
    exact ⟨_, fit, _, later, holds⟩
  · rintro ⟨q, fit, qs, later, holds⟩
    exact ⟨q :: qs, .cons fit later, holds⟩

/-- Bytes that start with all that is owed, and bytes that end before. -/
theorem exists_fits_comparable :
    ((∃ qs, Fits (range :: owed) qs ∧ qs <+: q :: rest) ↔
        range.contains q = true ∧ ∃ qs, Fits owed qs ∧ qs <+: rest) ∧
      ((∃ qs, Fits (range :: owed) qs ∧ q :: rest <+: qs) ↔
        range.contains q = true ∧ ∃ qs, Fits owed qs ∧ rest <+: qs) := by
  simp only [exists_fits_cons, List.cons_prefix_cons]
  grind

/-- Some bytes fit if each range has one. -/
theorem exists_fits (feasible : ∀ range ∈ owed, ∃ q, range.contains q = true) :
    ∃ qs, Fits owed qs := by
  induction owed with
  | nil => exact ⟨[], .nil⟩
  | cons range owed ih =>
      obtain ⟨⟨q, fit⟩, more⟩ := List.forall_mem_cons.mp feasible
      obtain ⟨qs, later⟩ := ih more
      exact ⟨q :: qs, .cons fit later⟩

/-- **Decoding goes on as long as the bytes fit.**  After bytes that are all that is owed, the character
is there; else it fails, and the bytes are broken unless they end before all that is owed has come. -/
theorem decodeFrom_owed (valid seen : Nat) (some : owed ≠ [])
    (feasible : ∀ range ∈ owed, ∃ q, range.contains q = true) (rest : List UInt8) :
    (∃ qs tail, rest = qs ++ tail ∧ Fits owed qs ∧
        decodeFrom valid ⟨owed, seen, bits⟩ rest =
          (decodeFrom (valid + seen + qs.length) .none tail).map (Char.ofNat (gather bits qs) :: ·)) ∨
      (¬ ∃ qs, Fits owed qs ∧ qs <+: rest) ∧ ∃ broken,
        decodeFrom valid ⟨owed, seen, bits⟩ rest = .error ⟨valid, broken⟩ ∧
          (broken = none ↔ ∃ qs, Fits owed qs ∧ rest <+: qs) := by
  induction rest generalizing owed seen bits with
  | nil =>
      refine .inr ⟨?_, none, decodeFrom_pending valid some, ?_⟩
      · rintro ⟨qs, fits, start⟩
        rw [List.prefix_nil] at start
        subst start
        cases fits
        exact some rfl
      · obtain ⟨qs, fits⟩ := exists_fits feasible
        exact ⟨fun _ => ⟨qs, fits, List.nil_prefix⟩, fun _ => rfl⟩
  | cons q rest ih =>
      obtain ⟨range, owed, rfl⟩ := List.exists_cons_of_ne_nil some
      obtain ⟨whole, short⟩ := @exists_fits_comparable q rest owed range
      cases fit : range.contains q with
      | false =>
          refine .inr ⟨?_, seen, ?_, ?_⟩
          · rw [whole, fit]
            exact fun both => nomatch both.1
          · simp [decodeFrom, fit]
          · rw [short, fit]
            simp
      | true =>
          cases owed with
          | nil =>
              refine .inl ⟨[q], rest, rfl, .cons fit .nil, ?_⟩
              simp [decodeFrom, fit, gather_cons, gather_nil]
          | cons next owed =>
              have step : decodeFrom valid ⟨range :: next :: owed, seen, bits⟩ (q :: rest) =
                  decodeFrom valid ⟨next :: owed, seen + 1, bits * 64 + (q.toNat - 0x80)⟩ rest := by
                simp [decodeFrom, fit]
              rw [step, whole, short, fit]
              simp only [true_and]
              have more := (List.forall_mem_cons.mp feasible).2
              refine (ih (seen + 1) (List.cons_ne_nil _ _) more).imp ?_ id
              rintro ⟨qs, tail, rfl, fits, decoded⟩
              refine ⟨q :: qs, tail, rfl, .cons fit fits, ?_⟩
              have count : valid + (seen + 1) + qs.length = valid + seen + (qs.length + 1) := by omega
              rw [decoded, gather_cons, List.length_cons, count]

/-- A second byte is left over when the range is cut from one side only. -/
theorem exists_contains {second : ByteRange} {least last most : Nat} (apart : last ≠ 0)
    (below : least ≤ 0xbf) (above : 0x80 ≤ most)
    (narrow : ∀ q, second.contains q = true ↔ 0x80 ≤ q.toNat ∧ q.toNat ≤ 0xbf ∧
      (bits = 0 → least ≤ q.toNat) ∧ (bits = last → q.toNat ≤ most)) :
    ∃ q, second.contains q = true := by
  by_cases zero : bits = 0
  · have whole : bits ≠ last := fun same => apart (same.symm.trans zero)
    exact ⟨0xbf, (narrow _).mpr ⟨by decide, by decide, fun _ => below, fun same => absurd same whole⟩⟩
  · exact ⟨0x80, (narrow _).mpr ⟨by decide, by decide, fun same => absurd same zero, fun _ => above⟩⟩

theorem feasible_of_begun (begun : firstByte? b = some (owed, bits)) :
    ∀ range ∈ owed, ∃ q, range.contains q = true := by
  have middle : ∃ q, continuation.contains q = true := ⟨0x80, by decide⟩
  rcases firstByte?_cases begun with
    ⟨rfl, _⟩ | ⟨rfl, _⟩ | ⟨second, rfl, _, _, narrow⟩ | ⟨second, rfl, _, _, narrow⟩
  · exact nofun
  · simpa using middle
  · have fit := exists_contains (by decide) (by decide) (by decide) narrow
    simpa using ⟨fit, middle⟩
  · have fit := exists_contains (by decide) (by decide) (by decide) narrow
    simpa using ⟨fit, middle⟩

/-- The characters that start with a first byte are the ways to give what it is owed. -/
theorem exists_encode_iff (begun : firstByte? b = some (owed, bits)) {P : List UInt8 → Prop} :
    (∃ c qs, String.utf8EncodeChar c = b :: qs ∧ P qs) ↔ ∃ qs, Fits owed qs ∧ P qs := by
  constructor
  · rintro ⟨c, qs, encoded, holds⟩
    obtain ⟨owed', bits', begun', fits, _⟩ := fits_of_encode encoded
    cases begun.symm.trans begun'
    exact ⟨qs, fits, holds⟩
  · rintro ⟨qs, fits, holds⟩
    exact ⟨_, qs, encode_of_fits begun fits, holds⟩

theorem exists_utf8EncodeChar_eq_cons (c : Char) : ∃ b qs, String.utf8EncodeChar c = b :: qs :=
  ⟨_, _, utf8EncodeChar_eq_encode c⟩

theorem encode_prefix_iff {c : Char} : String.utf8EncodeChar c <+: b :: rest ↔
    ∃ qs, String.utf8EncodeChar c = b :: qs ∧ qs <+: rest := by
  obtain ⟨p, qs, encoded⟩ := exists_utf8EncodeChar_eq_cons c
  rw [encoded, List.cons_prefix_cons]
  grind

theorem prefix_encode_iff {c : Char} : b :: rest <+: String.utf8EncodeChar c ↔
    ∃ qs, String.utf8EncodeChar c = b :: qs ∧ rest <+: qs := by
  obtain ⟨p, qs, encoded⟩ := exists_utf8EncodeChar_eq_cons c
  rw [encoded, List.cons_prefix_cons]
  grind

/-- **Decoding one character.**  Where the bytes start with those of a character, it is read; else
decoding fails, and the bytes are broken unless they are the start of those of a character. -/
theorem decodeFrom_cons (valid : Nat) (b : UInt8) (rest : List UInt8) :
    (∃ c tail, b :: rest = String.utf8EncodeChar c ++ tail ∧
        decodeFrom valid .none (b :: rest) =
          (decodeFrom (valid + (String.utf8EncodeChar c).length) .none tail).map (c :: ·)) ∨
      (¬ ∃ c, String.utf8EncodeChar c <+: b :: rest) ∧ ∃ broken,
        decodeFrom valid .none (b :: rest) = .error ⟨valid, broken⟩ ∧
          (broken = none ↔ ∃ c, b :: rest <+: String.utf8EncodeChar c) := by
  simp only [encode_prefix_iff, prefix_encode_iff]
  cases begun : firstByte? b with
  | none =>
      have refused : ∀ c qs, String.utf8EncodeChar c ≠ b :: qs := by
        intro c qs encoded
        obtain ⟨_, _, begun', _⟩ := fits_of_encode encoded
        cases begun.symm.trans begun'
      refine .inr ⟨?_, some 1, by simp [decodeFrom, Pending.none, begun], nofun, ?_⟩
      · rintro ⟨c, qs, encoded, _⟩
        exact refused c qs encoded
      · rintro ⟨c, qs, encoded, _⟩
        exact absurd encoded (refused c qs)
  | some start =>
      obtain ⟨owed, bits⟩ := start
      rw [exists_encode_iff begun, exists_encode_iff begun]
      cases owed with
      | nil =>
          have encoded := encode_of_fits begun .nil
          refine .inl ⟨_, rest, by rw [encoded]; rfl, ?_⟩
          rw [encoded]
          simp [decodeFrom, Pending.none, begun, gather_nil]
      | cons range owed =>
          have step : decodeFrom valid .none (b :: rest) =
              decodeFrom valid ⟨range :: owed, 1, bits⟩ rest := by
            simp [decodeFrom, Pending.none, begun]
          rw [step]
          have feasible := feasible_of_begun begun
          refine (decodeFrom_owed valid 1 (List.cons_ne_nil _ _) feasible rest).imp ?_ id
          rintro ⟨qs, tail, rfl, fits, decoded⟩
          have encoded := encode_of_fits begun fits
          refine ⟨_, tail, by rw [encoded]; rfl, ?_⟩
          rw [decoded, encoded, List.length_cons, Nat.add_assoc, Nat.add_comm 1]

end Decoding

section Texts

variable {cs ds : List Char} {bad rest bs : List UInt8} {s : String} {e : Utf8Error}

/-- No character starts with the bytes of another one. -/
theorem eq_of_encode_append {c d : Char} {x y : List UInt8}
    (same : String.utf8EncodeChar c ++ x = String.utf8EncodeChar d ++ y) : c = d := by
  rw [utf8EncodeChar_eq_encode, utf8EncodeChar_eq_encode] at same
  rcases Nat.lt_trichotomy c.toNat d.toNat with less | equal | more
  · have := encode_lt_encode less (codePoint_lt d) x y
    rw [same] at this
    exact absurd this (List.lt_irrefl _)
  · exact Char.toNat_inj.mp equal
  · have := encode_lt_encode more (codePoint_lt c) y x
    rw [same] at this
    exact absurd this (List.lt_irrefl _)

/-- **Bytes are split into characters in one way.** -/
theorem exists_append_of_flatMap
    (same : cs.flatMap String.utf8EncodeChar ++ rest = ds.flatMap String.utf8EncodeChar) :
    ∃ es, ds = cs ++ es ∧ rest = es.flatMap String.utf8EncodeChar := by
  induction cs generalizing ds with
  | nil => exact ⟨ds, rfl, same⟩
  | cons c cs ih =>
      cases ds with
      | nil =>
          obtain ⟨b, qs, encoded⟩ := exists_utf8EncodeChar_eq_cons c
          simp [encoded] at same
      | cons d ds =>
          rw [List.flatMap_cons, List.flatMap_cons, List.append_assoc] at same
          obtain rfl := eq_of_encode_append same
          obtain ⟨es, rfl, tail⟩ := ih (List.append_cancel_left same)
          exact ⟨es, rfl, tail⟩

/-- **Decoding bytes.**  They are those of some characters, or else those of the characters before the
place where it fails, with more bytes that start no character. -/
theorem decodeFrom_cases (valid : Nat) (bs : List UInt8) :
    (∃ cs : List Char, bs = cs.flatMap String.utf8EncodeChar ∧ decodeFrom valid .none bs = .ok cs) ∨
      ∃ (cs : List Char) (bad : List UInt8) (broken : Option Nat),
        bs = cs.flatMap String.utf8EncodeChar ++ bad ∧ bad ≠ [] ∧
        (¬ ∃ c, String.utf8EncodeChar c <+: bad) ∧
        decodeFrom valid .none bs =
          .error ⟨valid + (cs.flatMap String.utf8EncodeChar).length, broken⟩ ∧
        (broken = none ↔ ∃ c, bad <+: String.utf8EncodeChar c) := by
  -- By the number of bytes, because a character takes several of them.
  induction size : bs.length using Nat.strongRecOn generalizing valid bs with
  | ind length ih =>
      cases bs with
      | nil => exact .inl ⟨[], rfl, by simp [decodeFrom, Pending.none]⟩
      | cons b rest =>
          rcases decodeFrom_cons valid b rest with
            ⟨c, tail, split, decoded⟩ | ⟨bad, broken, failed, short⟩
          · have less : tail.length < length := by
              obtain ⟨p, qs, encoded⟩ := exists_utf8EncodeChar_eq_cons c
              rw [← size, split, encoded, List.length_append, List.length_cons]
              omega
            rcases ih _ less (valid + (String.utf8EncodeChar c).length) tail rfl with
              ⟨cs, rfl, read⟩ | ⟨cs, bad, broken, rfl, some, start, failed, short⟩
            · exact .inl ⟨c :: cs, split, by rw [decoded, read]; rfl⟩
            · refine .inr ⟨c :: cs, bad, broken, ?_, some, start, ?_, short⟩
              · rw [split, List.flatMap_cons, List.append_assoc]
              · rw [decoded, failed, List.flatMap_cons, List.length_append, Nat.add_assoc]
                rfl
          · exact .inr ⟨[], b :: rest, broken, rfl, List.cons_ne_nil _ _, bad, failed, short⟩

theorem bytes_injective {s t : String} (same : bytes s = bytes t) : s = t := by
  rw [bytes_eq_toUTF8, bytes_eq_toUTF8] at same
  exact String.toByteArray_inj.mp (ByteArray.ext (Array.toList_inj.mp same))

theorem decodeUtf8_cases (bs : List UInt8) :
    (∃ s, bytes s = bs ∧ decodeUtf8 bs = .ok s) ∨
      ∃ s bad broken, bs = bytes s ++ bad ∧ bad ≠ [] ∧ (¬ ∃ c, String.utf8EncodeChar c <+: bad) ∧
        decodeUtf8 bs = .error ⟨(bytes s).length, broken⟩ ∧
        (broken = none ↔ ∃ c, bad <+: String.utf8EncodeChar c) := by
  rcases decodeFrom_cases 0 bs with
    ⟨cs, rfl, read⟩ | ⟨cs, bad, broken, rfl, some, start, failed, short⟩
  · refine .inl ⟨String.ofList cs, ?_, ?_⟩
    · rw [bytes, String.toList_ofList]
    · rw [decodeUtf8, read]
      rfl
  · refine .inr ⟨String.ofList cs, bad, broken, ?_, some, start, ?_, short⟩
    · rw [bytes, String.toList_ofList]
    · rw [decodeUtf8, failed, bytes, String.toList_ofList, Nat.zero_add]
      rfl

/-- What starts no character is no start of a text with something in it. -/
theorem eq_nil_of_bytes_within (start : ¬ ∃ c, String.utf8EncodeChar c <+: bad)
    (within : ds.flatMap String.utf8EncodeChar <+: bad) : ds = [] := by
  cases ds with
  | nil => rfl
  | cons d ds =>
      rw [List.flatMap_cons] at within
      exact absurd ⟨d, (List.prefix_append _ _).trans within⟩ start

/-- **Bytes are decoded exactly to the text that they encode.** -/
theorem decodeUtf8_eq_ok_iff : decodeUtf8 bs = .ok s ↔ bytes s = bs := by
  rcases decodeUtf8_cases bs with
    ⟨t, rfl, read⟩ | ⟨t, bad, broken, rfl, some, start, failed, _⟩
  · rw [read, Except.ok.injEq]
    exact ⟨fun same => by rw [same], fun same => (bytes_injective same).symm⟩
  · rw [failed]
    refine ⟨nofun, fun same => ?_⟩
    obtain ⟨es, _, rfl⟩ := exists_append_of_flatMap same.symm
    rw [eq_nil_of_bytes_within start (List.prefix_refl _)] at some
    exact absurd rfl some

/-- **Where decoding fails.**  The length that is reported is that of the longest text at the start of
the bytes, and they are not broken exactly if they can be completed to a text. -/
theorem decodeUtf8_error (failed : decodeUtf8 bs = .error e) :
    (∃ s, bytes s <+: bs ∧ (bytes s).length = e.validLength) ∧
      (∀ s, bytes s <+: bs → (bytes s).length ≤ e.validLength) ∧
      (e.brokenLength = none ↔ ∃ s, bs <+: bytes s) := by
  rcases decodeUtf8_cases bs with
    ⟨t, rfl, read⟩ | ⟨t, bad, broken, rfl, some, start, fails, short⟩
  · rw [read] at failed
    cases failed
  · cases failed.symm.trans fails
    refine ⟨⟨t, List.prefix_append _ _, rfl⟩, fun s within => ?_, short.trans ⟨?_, ?_⟩⟩
    · by_contra notLess
      have longer : (bytes t).length < (bytes s).length := Nat.not_le.mp notLess
      -- A longer text at the start would go on with a character behind the valid part.
      have before : bytes t <+: bytes s :=
        List.prefix_of_prefix_length_le (List.prefix_append _ _) within longer.le
      obtain ⟨more, same⟩ := before
      obtain ⟨es, _, rfl⟩ := exists_append_of_flatMap same
      rw [← same, List.prefix_append_right_inj] at within
      rw [← same, eq_nil_of_bytes_within start within] at longer
      simp at longer
    · rintro ⟨c, short⟩
      refine ⟨String.ofList (t.toList ++ [c]), ?_⟩
      rw [bytes, bytes, String.toList_ofList, List.flatMap_append, List.prefix_append_right_inj,
        List.flatMap_singleton]
      exact short
    · rintro ⟨s, more, same⟩
      rw [List.append_assoc] at same
      obtain ⟨es, _, split⟩ := exists_append_of_flatMap same
      cases es with
      | nil => simp [some] at split
      | cons c es =>
          have bads : bad <+: (c :: es).flatMap String.utf8EncodeChar := ⟨more, split⟩
          have chars : String.utf8EncodeChar c <+: (c :: es).flatMap String.utf8EncodeChar :=
            ⟨_, List.flatMap_cons.symm⟩
          exact ⟨c, (List.prefix_or_prefix_of_prefix bads chars).resolve_right fun within =>
            start ⟨c, within⟩⟩

end Texts

end Text

end TreeHandles
