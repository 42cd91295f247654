import TreeHandles.Proofs.Json.RoundTrip
import TreeHandles.Proofs.Text.ByteOrder

/-!
# Exported text without control characters

A text is clear if all of its characters are from the space on.  Everything that the export puts into
its text is clear: marks, digits and words are, and quoting escapes the characters below the space in
keys and in texts.  Clear text is encoded by bytes from the space on, because a byte below 0x80 is a
character of its own.

**Results.**
* `clear_json`: the exported text of a tree is clear, at any depth.
* `le_of_mem_toUTF8`: no byte of it is below the space.
-/

namespace TreeHandles

namespace Text

/-- No character of a text is below the space. -/
def Clear (cs : List Char) : Prop := ∀ c ∈ cs, 0x20 ≤ c.toNat

instance (cs : List Char) : Decidable (Clear cs) :=
  List.decidableBAll (fun c : Char => 0x20 ≤ c.toNat) cs

variable {cs ds : List Char} {c : Char}

namespace Clear

@[simp] theorem nil : Clear [] := nofun

@[simp] theorem cons_iff : Clear (c :: cs) ↔ 0x20 ≤ c.toNat ∧ Clear cs := List.forall_mem_cons

@[simp] theorem append_iff : Clear (cs ++ ds) ↔ Clear cs ∧ Clear ds := List.forall_mem_append

theorem mono (clear : Clear cs) (within : ds ⊆ cs) : Clear ds := fun c hc => clear c (within hc)

theorem intercalate {mark : List Char} (clear : Clear mark) {parts : List (List Char)}
    (each : ∀ part ∈ parts, Clear part) : Clear (mark.intercalate parts) := by
  induction parts with
  | nil => exact nil
  | cons part rest ih =>
      obtain ⟨here, later⟩ := List.forall_mem_cons.mp each
      cases rest with
      | nil => simpa using here
      | cons next rest =>
          rw [List.intercalate_cons_cons, append_iff, append_iff]
          exact ⟨⟨here, clear⟩, ih later⟩

theorem of_digits (digit : ∀ c ∈ cs, c.isDigit = true) : Clear cs := by
  intro c hc
  have low : '0'.toNat ≤ c.toNat := by
    have range := digit c hc
    simp only [Char.isDigit, Bool.and_eq_true, decide_eq_true_eq] at range
    exact range.1
  exact Nat.le_trans (by decide) low

theorem toDigits (n : Nat) : Clear (Nat.toDigits 10 n) :=
  of_digits fun _ hc => Nat.isDigit_of_mem_toDigits (by decide) (by decide) hc

theorem repr (n : Nat) : Clear n.repr.toList := by
  rw [Nat.toList_repr]
  exact toDigits n

theorem nul_not_mem (clear : Clear cs) : '\x00' ∉ cs := fun inside =>
  absurd (clear _ inside) (by decide)

/-- Clear text has no byte below the space. -/
theorem le_of_mem_bytes {s : String} (clear : Clear s.toList) {b : UInt8} (inside : b ∈ bytes s) :
    0x20 ≤ b.toNat := by
  obtain ⟨c, hc, hb⟩ := List.mem_flatMap.mp inside
  rcases eq_or_le_of_mem_utf8EncodeChar hb with same | high
  · rw [same]
    exact clear c hc
  · exact Nat.le_trans (by decide) high

end Clear

end Text

open Text

namespace Decimal

/-- The digits of a decimal are digits. -/
def Digital (d : Decimal) : Prop := ∀ c ∈ d.digits, c.isDigit = true

theorem digital_ofGrid (c : Nat) (e : Int) : (ofGrid c e).Digital := fun _ hd =>
  Nat.isDigit_of_mem_toDigits (by decide) (by decide) ((prefix_digits_ofGrid c e).subset hd)

theorem digital_shortest (tie : Tie) (x : Binary64) : (shortest tie x).Digital := by
  obtain ⟨n, c, _, found⟩ := exists_chosen tie x
  rw [found]
  exact digital_ofGrid c _

variable {d : Decimal}

theorem clear_positional (digital : d.Digital) : Clear (positional d) := by
  have digits : Clear d.digits := .of_digits digital
  have zeros (n : Nat) : Clear (List.replicate n '0') := by
    intro c hc
    rw [List.eq_of_mem_replicate hc]
    decide
  simp only [positional]
  split
  · simp [digits, zeros]
  · split
    · simp [digits, zeros]
    · simp [digits.mono (List.take_subset _ _), digits.mono (List.drop_subset _ _)]

theorem clear_scientific (plusSign : Bool) (digital : d.Digital) :
    Clear (scientific plusSign d) := by
  have digits : Clear d.digits := .of_digits digital
  have first : Clear (d.digits.take 1) := digits.mono (List.take_subset _ _)
  have rest : Clear (d.digits.drop 1) := digits.mono (List.drop_subset _ _)
  have point : Clear (if (d.digits.drop 1).isEmpty then [] else '.' :: d.digits.drop 1) := by
    split
    · exact .nil
    · exact Clear.cons_iff.mpr ⟨by decide, rest⟩
  have sign : Clear (if d.exponent < 0 then ['-'] else if plusSign then ['+'] else []) := by
    split
    · simp
    · split <;> simp
  simp only [scientific, exponentDigits, Clear.append_iff, Clear.cons_iff]
  exact ⟨⟨first, point⟩, by decide, sign, .toDigits _⟩

theorem clear_render (l : Layout) (x : Binary64) : Clear (l.render x) := by
  have digital := digital_shortest l.tie x
  have sign : Clear (if x.isNegative then ['-'] else []) := by split <;> simp
  have magnitude : Clear (l.writeMagnitude x) := by
    rw [Layout.writeMagnitude]
    split
    · simp
    · rw [Layout.write]
      split
      · exact clear_positional digital
      · exact clear_scientific _ digital
  exact Clear.append_iff.mpr ⟨sign, magnitude⟩

end Decimal

theorem Binary64.clear_json (x : Binary64) : Clear x.json := by
  rw [Binary64.json]
  split
  · exact Decimal.clear_render _ _
  · simp

theorem Json.clear_integer (i : Int) : Clear (Json.integer i) := by
  have sign : Clear (if i < 0 then ['-'] else []) := by split <;> simp
  exact Clear.append_iff.mpr ⟨sign, .toDigits _⟩

theorem Json.clear_quote (s : String) : Clear (Json.quote s) := fun _ => le_of_mem_quote

theorem Scalar.clear_json (s : Scalar) : Clear s.json := by
  cases s with
  | null => simp [Scalar.json]
  | bool b => cases b <;> simp [Scalar.json]
  | int i => exact Json.clear_integer _
  | uint u => exact .toDigits _
  | float x => exact x.clear_json
  | string s => exact Json.clear_quote s

namespace Tree

variable {α : Type}

/-- **The exported text of a tree is clear**, whatever its keys and texts are. -/
theorem clear_json (t : Tree α) : Clear t.json := by
  have comma : Clear [','] := by simp
  induction t using induction_children with
  | node t ih =>
      cases t with
      | leaf s => exact s.clear_json
      | array label items =>
          have inner : Clear ([','].intercalate (items.map json)) :=
            comma.intercalate (List.forall_mem_map.mpr ih)
          simp [Json.json_array, inner]
      | object label entries =>
          have member : ∀ e ∈ Entries.sorted entries, Clear (Json.member e.1 e.2.json) := by
            intro e he
            have value := ih e.2 (List.mem_map_of_mem (Entries.mem_of_mem_sorted he))
            simp [Json.member, Json.clear_quote, value]
          have inner := comma.intercalate (List.forall_mem_map.mpr member)
          simp [Json.json_object, inner]

/-- **No byte of an exported text is below the space.** -/
theorem le_of_mem_toUTF8 (t : Tree α) {b : UInt8} (inside : b ∈ t.toJson.toUTF8.data.toList) :
    0x20 ≤ b := by
  have clear : Clear t.toJson.toList := by
    rw [toJson, String.toList_ofList]
    exact t.clear_json
  rw [← bytes_eq_toUTF8] at inside
  exact UInt8.le_iff_toNat_le.mpr (clear.le_of_mem_bytes inside)

end Tree

end TreeHandles
