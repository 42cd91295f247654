import Mathlib.Data.List.Forall2
import TreeHandles.Json.Document

/-!
# Texts that are read back

A text is written character by character, and each written form tells the reader where it ends: the
closing quote cannot be inside one.  So whatever characters a text has, the reader takes one written
form after the other, and ends at the closing quote.

**Results.**
* `textFrom_escape`: the written form of a character is read as one character.
* `read_text`: a quoted text is read back.
* `read_skipText`: a quoted text is skipped up to its end.
-/

namespace TreeHandles
namespace Json

section Characters

variable {digits : Reader true Char} {ahead : Nat}

/-- The letters of the short escapes. -/
theorem read_escaped_letter {c d : Char} (letter : letter? c = some d) (s : List Char) :
    (escaped digits).read (c :: s) = .ok (d, s) := by
  have other : c ≠ 'u' := by
    rintro rfl
    cases letter
  simp [escaped, other, letter, Reader.map]

/-- The four hexadecimal digits of a control character. -/
def controlDigits (c : Char) : List Char :=
  ['0', '0', Nat.digitChar (c.toNat / 16), Nat.digitChar (c.toNat % 16)]

theorem read_fourHex_control {c : Char} (low : c.toNat < 0x20) (s : List Char) :
    fourHex.read (controlDigits c ++ s) = .ok (c.toNat, s) := by
  have all : ∀ m < 0x20,
      hexNumber? ['0', '0', Nat.digitChar (m / 16), Nat.digitChar (m % 16)] = some m := by
    decide
  simp [fourHex, controlDigits, all c.toNat low]

theorem read_codeUnits_control {c : Char} (low : c.toNat < 0x20) (s : List Char) :
    codeUnits.read (controlDigits c ++ s) = .ok (c, s) := by
  have noTrailing : isTrailing c.toNat = false := by
    simp [isTrailing]
    omega
  have noLeading : isLeading c.toNat = false := by
    simp [isLeading]
    omega
  simp [codeUnits, Reader.read_bind, read_fourHex_control low, noTrailing, noLeading]

/-- What stands behind a backslash is read as the escaped character. -/
theorem textFrom_backslash {escape : Reader true Char} {c : Char} {written s : List Char}
    (read : escape.read (written ++ s) = .ok (c, s)) :
    textFrom escape ahead ('\\' :: written ++ s) =
      (textFrom escape ahead s).map fun taken => (c :: taken.1, taken.2) := by
  rw [List.cons_append, textFrom]
  simp only [show ('\\' = '"') = False by decide, if_false, if_true]
  split
  · next failed => simp [read] at failed
  · next done =>
      cases read.symm.trans done
      cases textFrom escape ahead s <;> rfl

/-- The three forms in which a character is written: a letter behind a backslash, four digits behind
it, or the character itself. -/
theorem escape_cases (c : Char) :
    (∃ d, escape c = ['\\', d] ∧ letter? d = some c) ∨
      (c.toNat < 0x20 ∧ escape c = '\\' :: 'u' :: controlDigits c) ∨
      (0x20 ≤ c.toNat ∧ c ≠ '"' ∧ c ≠ '\\' ∧ escape c = [c]) := by
  by_cases quoted : c = '"'
  · exact .inl ⟨'"', by simp [escape, quoted], by simp [letter?, quoted]⟩
  by_cases slash : c = '\\'
  · exact .inl ⟨'\\', by simp [escape, slash], by simp [letter?, slash]⟩
  by_cases low : c.toNat < 0x20
  · by_cases backspace : c = '\x08'
    · exact .inl ⟨'b', by simp [escape, backspace], by simp [letter?, backspace]⟩
    by_cases formFeed : c = '\x0c'
    · exact .inl ⟨'f', by simp [escape, formFeed], by simp [letter?, formFeed]⟩
    by_cases lineFeed : c = '\n'
    · exact .inl ⟨'n', by simp [escape, lineFeed], by simp [letter?, lineFeed]⟩
    by_cases carriage : c = '\r'
    · exact .inl ⟨'r', by simp [escape, carriage], by simp [letter?, carriage]⟩
    by_cases tab : c = '\t'
    · exact .inl ⟨'t', by simp [escape, tab], by simp [letter?, tab]⟩
    exact .inr (.inl ⟨low, by
      simp [escape, controlDigits, quoted, slash, low, backspace, formFeed, lineFeed, carriage,
        tab]⟩)
  · have printable := Nat.not_lt.mp low
    exact .inr (.inr ⟨printable, quoted, slash, escape_of_printable printable quoted slash⟩)

/-- **The written form of a character is read as one character**: as the character itself, unless it is
a control character, which is read as its digits are. -/
theorem textFrom_escape {code : Char → Char}
    (control : ∀ c s, c.toNat < 0x20 → digits.read (controlDigits c ++ s) = .ok (code c, s))
    (c : Char) (s : List Char) : ∃ d, (d = c ∨ d = code c) ∧
      textFrom (escaped digits) ahead (escape c ++ s) =
        (textFrom (escaped digits) ahead s).map fun taken => (d :: taken.1, taken.2) := by
  rcases escape_cases c with ⟨d, form, letter⟩ | ⟨low, form⟩ | ⟨printable, quoted, slash, form⟩
  · refine ⟨c, .inl rfl, ?_⟩
    rw [form]
    exact @textFrom_backslash ahead _ c [d] s (read_escaped_letter letter s)
  · refine ⟨code c, .inr rfl, ?_⟩
    have mark (r : List Char) : (Reader.next .stringUnclosed).read ('u' :: r) = .ok ('u', r) := rfl
    rw [form]
    have read : (escaped digits).read ('u' :: controlDigits c ++ s) = .ok (code c, s) := by
      rw [escaped, List.cons_append, Reader.read_peek_cons]
      dsimp only
      rw [if_pos rfl, Reader.read_andThen_of_ok _ (mark _), control c s low]
    exact textFrom_backslash read
  · refine ⟨c, .inl rfl, ?_⟩
    rw [form, List.singleton_append, textFrom]
    simp only [quoted, slash, Nat.not_lt.mpr printable, if_false]
    cases textFrom (escaped digits) ahead s <;> rfl

end Characters

section Texts

variable {digits : Reader true Char} {code : Char → Char}

/-- Written characters up to the closing quote are read one by one. -/
theorem textFrom_quoted (ahead : Nat)
    (control : ∀ c s, c.toNat < 0x20 → digits.read (controlDigits c ++ s) = .ok (code c, s))
    (cs rest : List Char) : ∃ ds, List.Forall₂ (fun d c => d = c ∨ d = code c) ds cs ∧
      textFrom (escaped digits) ahead (cs.flatMap escape ++ '"' :: rest) = .ok (ds, rest) := by
  induction cs with
  | nil => exact ⟨[], .nil, by rw [List.flatMap_nil, List.nil_append, textFrom, if_pos rfl]⟩
  | cons c cs ih =>
      obtain ⟨ds, same, later⟩ := ih
      obtain ⟨d, first, read⟩ := textFrom_escape control c (cs.flatMap escape ++ '"' :: rest)
      refine ⟨d :: ds, .cons first same, ?_⟩
      rw [List.flatMap_cons, List.append_assoc, read, later]
      rfl

/-- **A quoted text is read back**, once its opening quote was read. -/
theorem read_text (s : String) (rest : List Char) :
    text.read (s.toList.flatMap escape ++ '"' :: rest) = .ok (s, rest) := by
  have control (c : Char) (s : List Char) (low : c.toNat < 0x20) :
      codeUnits.read (controlDigits c ++ s) = .ok (id c, s) := read_codeUnits_control low s
  obtain ⟨ds, same, read⟩ := textFrom_quoted 1 control s.toList rest
  obtain rfl : ds = s.toList := by simpa using same
  simp [text, Reader.map, read]

/-- **A quoted text is skipped** up to its end, once its opening quote was read. -/
theorem read_skipText (s : String) (rest : List Char) :
    skipText.read (s.toList.flatMap escape ++ '"' :: rest) = .ok ((), rest) := by
  have control (c : Char) (s : List Char) (low : c.toNat < 0x20) :
      (fourHex.map fun _ => ' ').read (controlDigits c ++ s) = .ok (' ', s) :=
    Reader.read_map_of_ok _ (read_fourHex_control low s)
  obtain ⟨ds, _, read⟩ := textFrom_quoted 0 control s.toList rest
  exact Reader.read_map_of_ok (fun _ => ()) read

end Texts

end Json

end TreeHandles
