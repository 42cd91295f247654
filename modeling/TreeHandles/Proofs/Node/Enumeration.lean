import TreeHandles.Proofs.Text.ByteOrder
import TreeHandles.Proofs.View

/-!
# The enumeration of an object

An object holds its entries in the order of their insertion, and a caller enumerates them by the order
of their keys.  The arranged entries are the given ones, so that the places below the size and the keys
belong together one to one, and under a key that is found at a place there is always a value.

**Results.**
* `exists_entry_at`: at every place below the size there is one entry, its key and its value.
* `beyond_size`: beyond the size there is neither a key nor a child.
* `keyAt_lt_keyAt`: the keys increase from place to place.
* `mem_keys_iff_existsUnique_keyAt`: every key stands at exactly one place.
* `enumerates_by_keys`: the enumeration of an object goes once through all entries, in the order of the
  bytes of their keys.
-/

namespace TreeHandles
namespace View

variable {v : View} {label : Allocation} {entries : List (String × Node)} {index : Nat}

section Places

theorem keyAt_eq_ok_iff (shown : v.node? = some (.object label entries)) {key : String} :
    v.keyAt index = .ok key ↔ ∃ e, (Entries.sorted entries)[index]? = some e ∧ e.1 = key := by
  rw [keyAt_object shown]
  cases (Entries.sorted entries)[index]? <;> simp

/-- **At every place below the size there is one entry.** -/
theorem exists_entry_at (shown : v.node? = some (.object label entries))
    (distinct : (Entries.keys entries).Nodup) (inside : index < entries.length) :
    ∃ e ∈ entries, v.keyAt index = .ok e.1 ∧ v.childAt index = .ok e.2 := by
  have arranged := Entries.sorted_perm distinct
  have within : index < (Entries.sorted entries).length := arranged.length_eq ▸ inside
  have here := List.getElem?_eq_getElem within
  refine ⟨(Entries.sorted entries)[index], arranged.mem_iff.mp (List.getElem_mem within), ?_, ?_⟩
  · rw [keyAt_object shown, here]
  · rw [childAt_object shown distinct, here]

/-- Beyond the size there is neither a key nor a child. -/
theorem beyond_size (shown : v.node? = some (.object label entries))
    (distinct : (Entries.keys entries).Nodup) (outside : entries.length ≤ index) :
    v.keyAt index = .error (.indexOutOfRange index entries.length) ∧
      v.childAt index = .error (.indexOutOfRange index entries.length) := by
  have none : (Entries.sorted entries)[index]? = .none := by
    rw [List.getElem?_eq_none_iff, (Entries.sorted_perm distinct).length_eq]
    exact outside
  rw [keyAt_object shown, childAt_object shown distinct, none]
  exact ⟨rfl, rfl⟩

end Places

section Order

variable {i j : Nat} {a b : String}

/-- **The keys increase from place to place.** -/
theorem keyAt_lt_keyAt (shown : v.node? = some (.object label entries)) (before : i < j)
    (first : v.keyAt i = .ok a) (second : v.keyAt j = .ok b) : a < b := by
  obtain ⟨e, he, rfl⟩ := (keyAt_eq_ok_iff shown).mp first
  obtain ⟨f, hf, rfl⟩ := (keyAt_eq_ok_iff shown).mp second
  obtain ⟨hi, rfl⟩ := List.getElem?_eq_some_iff.mp he
  obtain ⟨hj, rfl⟩ := List.getElem?_eq_some_iff.mp hf
  have increasing := List.pairwise_map.mp (Entries.sorted_pairwise entries)
  exact List.pairwise_iff_getElem.mp increasing i j hi hj before

/-- A key is found at one place at most. -/
theorem eq_of_keyAt_eq (shown : v.node? = some (.object label entries))
    (first : v.keyAt i = .ok a) (second : v.keyAt j = .ok a) : i = j := by
  rcases Nat.lt_trichotomy i j with before | same | after
  · exact absurd (keyAt_lt_keyAt shown before first second) (String.lt_irrefl a)
  · exact same
  · exact absurd (keyAt_lt_keyAt shown after second first) (String.lt_irrefl a)

/-- **Every key stands at exactly one place.** -/
theorem mem_keys_iff_existsUnique_keyAt (shown : v.node? = some (.object label entries))
    (distinct : (Entries.keys entries).Nodup) :
    a ∈ Entries.keys entries ↔ ∃! i, v.keyAt i = .ok a := by
  have arranged := (Entries.sorted_perm distinct).map Prod.fst
  constructor
  · intro inside
    obtain ⟨e, he, rfl⟩ := List.mem_map.mp (arranged.mem_iff.mpr inside)
    obtain ⟨i, here⟩ := List.mem_iff_getElem?.mp he
    have found := (keyAt_eq_ok_iff shown).mpr ⟨e, here, rfl⟩
    exact ⟨i, found, fun j other => eq_of_keyAt_eq shown other found⟩
  · rintro ⟨i, found, _⟩
    obtain ⟨e, here, rfl⟩ := (keyAt_eq_ok_iff shown).mp found
    exact List.mem_map_of_mem (Entries.mem_of_mem_sorted (List.mem_of_getElem? here))

end Order

/-- **An object is enumerated by its keys.**  The entries that any list of writes leaves have distinct
keys.  Of an object with such entries, in whatever order they stand:

* a key and a child are found at the places below the size, and together they are an entry;
* at all other places both are out of range, so that no key is ever missing;
* the keys increase strictly in the lexicographic order of their UTF-8 bytes;
* the keys that are found are the keys of the object, each at one place. -/
theorem enumerates_by_keys :
    (∀ writes : List (String × Node), (Entries.keys (Entries.ofWrites writes)).Nodup) ∧
    ∀ (h : Handle) (label : Allocation) (entries : List (String × Node)),
      (Entries.keys entries).Nodup →
      let v : View := ⟨h, some (.object label entries)⟩
      v.size = entries.length ∧
      (∀ i, i < v.size → ∃ k c, v.keyAt i = .ok k ∧ v.childAt i = .ok c ∧ (k, c) ∈ entries) ∧
      (∀ i, v.size ≤ i → v.keyAt i = .error (.indexOutOfRange i v.size) ∧
        v.childAt i = .error (.indexOutOfRange i v.size)) ∧
      (∀ i k, v.childAt i ≠ .error (.missingKey k)) ∧
      (∀ i j a b, i < j → v.keyAt i = .ok a → v.keyAt j = .ok b →
        a.toUTF8.data.toList < b.toUTF8.data.toList) ∧
      ∀ k, k ∈ Entries.keys entries ↔ ∃! i, v.keyAt i = .ok k := by
  refine ⟨Entries.nodup_keys_ofWrites, ?_⟩
  intro h label entries distinct v
  have shown : v.node? = some (.object label entries) := rfl
  have found : ∀ i, i < entries.length →
      ∃ k c, v.keyAt i = .ok k ∧ v.childAt i = .ok c ∧ (k, c) ∈ entries := by
    intro i inside
    obtain ⟨e, he, key, child⟩ := exists_entry_at shown distinct inside
    exact ⟨e.1, e.2, key, child, he⟩
  refine ⟨rfl, found, fun i outside => beyond_size shown distinct outside, ?_, ?_,
    fun k => mem_keys_iff_existsUnique_keyAt shown distinct⟩
  · intro i k missing
    rcases Nat.lt_or_ge i entries.length with inside | outside
    · obtain ⟨_, _, _, child, _⟩ := found i inside
      cases child.symm.trans missing
    · cases (beyond_size shown distinct outside).2.symm.trans missing
  · intro i j a b before first second
    rw [← Text.bytes_eq_toUTF8, ← Text.bytes_eq_toUTF8, Text.bytes_lt_bytes_iff]
    exact keyAt_lt_keyAt shown before first second

/-- Three keys, of which one lies beyond the basic plane and another at its end: by their bytes, as by
their code points, the latter comes first. -/
theorem enumerates_by_keys_beyond_basic_plane :
    let one : Node := .leaf (.int 1)
    let entries := [("𝄞", one), ("\uFFFD", .null), ("a", one)]
    (Entries.keys entries).Nodup ∧
      let v : View := ⟨⟨1⟩, some (.object ⟨0⟩ entries)⟩
      v.keyAt 1 = .ok "\uFFFD" ∧ v.childAt 1 = .ok .null ∧
        v.childAt 3 = .error (.indexOutOfRange 3 3) ∧
        "\uFFFD".toUTF8.data.toList < "𝄞".toUTF8.data.toList := by
  intro one entries
  have distinct : (Entries.keys entries).Nodup := by decide
  obtain ⟨_, enumerated⟩ := enumerates_by_keys
  obtain ⟨_, _, beyond, _, increasing, _⟩ := enumerated ⟨1⟩ ⟨0⟩ entries distinct
  have second : (View.mk ⟨1⟩ (some (.object ⟨0⟩ entries))).keyAt 1 = .ok "\uFFFD" := by
    decide +kernel
  have third : (View.mk ⟨1⟩ (some (.object ⟨0⟩ entries))).keyAt 2 = .ok "𝄞" := by decide +kernel
  have child : (View.mk ⟨1⟩ (some (.object ⟨0⟩ entries))).childAt 1 = .ok .null := by
    simp only [childAt, second]
    rfl
  exact ⟨distinct, second, child, (beyond 3 (Nat.le_refl 3)).2,
    increasing 1 2 _ _ (by decide) second third⟩

end View

end TreeHandles
