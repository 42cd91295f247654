import TreeHandles.Entries

/-!
# Quoted text in JSON

A text is written between double quotes.  The quote and the backslash are escaped by a backslash,
the characters below the space by their letter or by four hexadecimal digits, and nothing else is
escaped.

**Results.**
* `escape_of_printable`: a character from the space on, other than the two marks, stands for itself.
* `le_of_mem_quote`: no character below the space is left in a quoted text.
-/

namespace TreeHandles
namespace Json

/-- How one character is written inside quotes. -/
def escape (c : Char) : List Char :=
  if c = '"' then ['\\', '"']
  else if c = '\\' then ['\\', '\\']
  else if c = '\x08' then ['\\', 'b']
  else if c = '\x0c' then ['\\', 'f']
  else if c = '\n' then ['\\', 'n']
  else if c = '\r' then ['\\', 'r']
  else if c = '\t' then ['\\', 't']
  else if c.toNat < 0x20 then
    ['\\', 'u', '0', '0', Nat.digitChar (c.toNat / 16), Nat.digitChar (c.toNat % 16)]
  else [c]

/-- The characters of a text in quotes. -/
def quote (s : String) : List Char := '"' :: s.toList.flatMap escape ++ ['"']

theorem escape_of_printable {c : Char} (low : 0x20 ≤ c.toNat) (mark : c ≠ '"') (slash : c ≠ '\\') :
    escape c = [c] := by
  have above (d : Char) (h : d.toNat < 0x20) : c ≠ d := fun he => by
    subst he
    omega
  simp only [escape, mark, slash, above _ (by decide : '\x08'.toNat < 0x20),
    above _ (by decide : '\x0c'.toNat < 0x20), above _ (by decide : '\n'.toNat < 0x20),
    above _ (by decide : '\r'.toNat < 0x20), above _ (by decide : '\t'.toNat < 0x20),
    Nat.not_lt.mpr low, if_false]

theorem le_of_mem_escape {c d : Char} (h : d ∈ escape c) : 0x20 ≤ d.toNat := by
  suffices (escape c).all (fun d => 0x20 ≤ d.toNat) = true by
    simpa using List.all_eq_true.mp this d h
  by_cases low : c.toNat < 0x20
  · have below : ∀ n < 32, (escape (Char.ofNat n)).all (fun d => 0x20 ≤ d.toNat) = true := by decide
    simpa using below c.toNat low
  · by_cases mark : c = '"'
    · subst mark
      decide
    · by_cases slash : c = '\\'
      · subst slash
        decide
      · rw [escape_of_printable (Nat.not_lt.mp low) mark slash]
        simpa using Nat.not_lt.mp low

theorem le_of_mem_quote {s : String} {d : Char} (h : d ∈ quote s) : 0x20 ≤ d.toNat := by
  simp only [quote, List.mem_cons, List.mem_append, List.mem_flatMap, List.not_mem_nil,
    or_false] at h
  rcases h with (rfl | ⟨c, _, h⟩) | rfl
  · decide
  · exact le_of_mem_escape h
  · decide

end Json

end TreeHandles
