import TreeHandles.Text.Unprintable

/-!
# Text in diagnostic output

Diagnostic output shows a text between double quotes, with everything escaped that a reader could
not see or could misread: the quote and the backslash by a backslash, the usual control characters
by their letters, and every other unprintable character by its number in braces.

**Results.**
* `nul_not_mem_escapeDiagnostic`: no character is written with a NUL, so quoting removes all of
  them.
-/

namespace TreeHandles
namespace Text

/-- The number of a character in lower-case hexadecimal digits. -/
def hexDigits (c : Char) : List Char := Nat.toDigits 16 c.toNat

/-- How one character is written in diagnostic output. -/
def escapeDiagnostic (c : Char) : List Char :=
  if c = '"' then ['\\', '"']
  else if c = '\\' then ['\\', '\\']
  else if c = '\n' then ['\\', 'n']
  else if c = '\r' then ['\\', 'r']
  else if c = '\t' then ['\\', 't']
  else if c = '\x00' then ['\\', '0']
  else if isUnprintable c then '\\' :: 'u' :: '{' :: hexDigits c ++ ['}']
  else [c]

/-- A text as diagnostic output shows it. -/
def quoteDiagnostic (s : String) : String :=
  String.ofList ('"' :: s.toList.flatMap escapeDiagnostic ++ ['"'])

section Nul

theorem exists_digitChar_of_mem_toDigitsCore {base fuel n : Nat} {ds : List Char} {c : Char}
    (h : c ∈ Nat.toDigitsCore base fuel n ds) : c ∈ ds ∨ ∃ k, c = Nat.digitChar k := by
  induction fuel generalizing n ds with
  | zero => exact .inl (by simpa [Nat.toDigitsCore] using h)
  | succ fuel ih =>
      simp only [Nat.toDigitsCore] at h
      split at h
      · rcases List.mem_cons.mp h with rfl | h
        · exact .inr ⟨_, rfl⟩
        · exact .inl h
      · rcases ih h with h | h
        · rcases List.mem_cons.mp h with rfl | h
          · exact .inr ⟨_, rfl⟩
          · exact .inl h
        · exact .inr h

theorem digitChar_ne_nul (k : Nat) : Nat.digitChar k ≠ '\x00' := by
  rcases Nat.lt_or_ge k 16 with h | h
  · exact (by decide : ∀ k < 16, Nat.digitChar k ≠ '\x00') k h
  · have : Nat.digitChar k = '*' := by
      simp only [Nat.digitChar, show ∀ n < 16, k ≠ n from fun n hn => by omega, Nat.reduceLT,
        ↓reduceIte]
    simp [this]

theorem nul_not_mem_hexDigits (c : Char) : '\x00' ∉ hexDigits c := by
  intro h
  rcases exists_digitChar_of_mem_toDigitsCore h with h | ⟨k, h⟩
  · simp at h
  · exact digitChar_ne_nul k h.symm

theorem nul_not_mem_escapeDiagnostic (c : Char) : '\x00' ∉ escapeDiagnostic c := by
  rw [escapeDiagnostic]
  iterate 6
    split
    · decide
  split
  · simp [nul_not_mem_hexDigits]
  · simpa using fun h : '\x00' = c => ‹c ≠ '\x00'› h.symm

end Nul

end Text

end TreeHandles
