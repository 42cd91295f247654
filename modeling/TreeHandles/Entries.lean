/-!
# Keyed entries in the order of their insertion

The entries of an object are a list of keys with values.  Writing a key that is already there
replaces its value in place; a new key goes to the end.  Besides this order there is the order of
the keys themselves, by code points and so by the bytes of their encoding, in which entries are
enumerated.

**Results.**
* `mem_keys_iff_isSome`: a key is there exactly if something is found with it.
* `find?_insert` and `find?_insertSorted`: both ways of writing bind the key and leave the others
  alone.
* `keys_insert_of_mem` and `keys_insert_of_not_mem`: where a written key stands.
* `sorted_pairwise`: the sorted view has strictly increasing keys.
-/

namespace TreeHandles
namespace Entries

variable {ν : Type}

/-- The value that the first entry with this key holds. -/
def find? (k : String) : List (String × ν) → Option ν
  | [] => none
  | (j, v) :: rest => if j = k then some v else find? k rest

/-- Binds a key: in place if it is there, at the end if not. -/
def insert (k : String) (v : ν) : List (String × ν) → List (String × ν)
  | [] => [(k, v)]
  | (j, w) :: rest => if j = k then (k, v) :: rest else (j, w) :: insert k v rest

/-- Binds a key in a list that is sorted by key: in place if it is there, at its place if not. -/
def insertSorted (k : String) (v : ν) : List (String × ν) → List (String × ν)
  | [] => [(k, v)]
  | (j, w) :: rest =>
      if k < j then (k, v) :: (j, w) :: rest
      else if j = k then (k, v) :: rest
      else (j, w) :: insertSorted k v rest

/-- The entries of a list of writes, in the order of the first write of each key. -/
def ofWrites (writes : List (String × ν)) : List (String × ν) :=
  writes.foldl (fun es e => insert e.1 e.2 es) []

/-- The entries in the order of their keys. -/
def sorted (es : List (String × ν)) : List (String × ν) :=
  es.foldl (fun acc e => insertSorted e.1 e.2 acc) []

/-- The keys in the order of the entries. -/
def keys (es : List (String × ν)) : List String := es.map Prod.fst

/-- The keys in their own order. -/
def sortedKeys (es : List (String × ν)) : List String := keys (sorted es)

theorem mem_keys_iff_isSome {k : String} {es : List (String × ν)} :
    k ∈ keys es ↔ (find? k es).isSome := by
  induction es with
  | nil => simp [keys, find?]
  | cons e rest ih =>
      by_cases he : e.1 = k
      · simp [keys, find?, he]
      · have other : k ≠ e.1 := Ne.symm he
        rw [find?, if_neg he, ← ih]
        simp [keys, other]

section Writing

theorem find?_insert (k j : String) (v : ν) (es : List (String × ν)) :
    find? j (insert k v es) = if k = j then some v else find? j es := by
  induction es with
  | nil => simp [insert, find?]
  | cons e rest ih =>
      by_cases hk : e.1 = k <;> by_cases hj : k = j <;> simp_all [insert, find?]

theorem keys_insert_of_mem {k : String} (v : ν) {es : List (String × ν)} (h : k ∈ keys es) :
    keys (insert k v es) = keys es := by
  induction es with
  | nil => simp [keys] at h
  | cons e rest ih =>
      by_cases hk : e.1 = k
      · simp [insert, keys, hk]
      · have : k ∈ keys rest := (List.mem_cons.mp h).resolve_left fun he => hk he.symm
        simpa [insert, keys, hk] using ih this

theorem keys_insert_of_not_mem {k : String} (v : ν) {es : List (String × ν)} (h : k ∉ keys es) :
    keys (insert k v es) = keys es ++ [k] := by
  induction es with
  | nil => simp [insert, keys]
  | cons e rest ih =>
      have hk : e.1 ≠ k := fun he => h (by simp [keys, he])
      have : k ∉ keys rest := fun hm => h (by simpa [keys] using .inr (by simpa [keys] using hm))
      simpa [insert, keys, hk] using ih this

end Writing

section Sorting

theorem find?_insertSorted (k j : String) (v : ν) (es : List (String × ν)) :
    find? j (insertSorted k v es) = if k = j then some v else find? j es := by
  induction es with
  | nil => simp [insertSorted, find?]
  | cons e rest ih =>
      simp only [insertSorted]
      split
      · simp [find?]
      · by_cases hk : e.1 = k <;> by_cases hj : k = j <;> simp_all [find?]

theorem mem_keys_insertSorted {k j : String} {v : ν} {es : List (String × ν)} :
    j ∈ keys (insertSorted k v es) ↔ j = k ∨ j ∈ keys es := by
  induction es with
  | nil => simp [insertSorted, keys]
  | cons e rest ih =>
      simp only [insertSorted]
      split
      · simp [keys]
      · by_cases hk : e.1 = k
        · simp [keys, hk]
        · rw [if_neg hk]
          simp only [keys, List.map_cons, List.mem_cons] at ih ⊢
          rw [ih]
          exact or_left_comm

/-- Binding a key keeps strictly increasing keys strictly increasing. -/
theorem pairwise_keys_insertSorted {k : String} {v : ν} {es : List (String × ν)}
    (h : (keys es).Pairwise (· < ·)) : (keys (insertSorted k v es)).Pairwise (· < ·) := by
  induction es with
  | nil => simp [insertSorted, keys]
  | cons e rest ih =>
      have first := (List.pairwise_cons.mp h).1
      have later := (List.pairwise_cons.mp h).2
      simp only [insertSorted]
      split
      case isTrue before =>
        refine List.pairwise_cons.mpr ⟨?_, h⟩
        intro j hj
        rcases List.mem_cons.mp hj with rfl | hj
        · exact before
        · exact String.lt_trans before (first j hj)
      case isFalse notBefore =>
        by_cases hk : e.1 = k
        · rw [if_pos hk]
          exact hk ▸ h
        · rw [if_neg hk]
          refine List.pairwise_cons.mpr ⟨?_, ih later⟩
          intro j hj
          rcases mem_keys_insertSorted.mp hj with rfl | hj
          · exact Decidable.byContradiction fun notAfter =>
              hk (String.le_antisymm (String.not_lt.mp notBefore) (String.not_lt.mp notAfter))
          · exact first j hj

theorem sorted_pairwise (es : List (String × ν)) : (sortedKeys es).Pairwise (· < ·) := by
  suffices ∀ acc : List (String × ν), (keys acc).Pairwise (· < ·) →
      (keys (es.foldl (fun acc e => insertSorted e.1 e.2 acc) acc)).Pairwise (· < ·) from
    this [] List.Pairwise.nil
  intro acc h
  induction es generalizing acc with
  | nil => exact h
  | cons e rest ih => exact ih _ (pairwise_keys_insertSorted h)

end Sorting

end Entries

end TreeHandles
