import TreeHandles.Proofs.Writes

/-!
# Entries in the order of their keys

Entries with distinct keys have one arrangement in the order of their keys.  It holds the same
entries, so that counting and changing every value give the same before and after the arranging, and
it is the same for all entries in which every key is found with the same value.

**Results.**
* `sorted_perm`: the arranged entries are the given ones.
* `sorted_eq_of_find?_eq`: entries that look-ups cannot tell apart are arranged alike.
* `sorted_mapValues` and `ofWrites_mapValues`: arranging and writing commute with a change of every
  value.
-/

namespace TreeHandles
namespace Entries

variable {ν μ : Type}

section Values

/-- The same keys with every value changed. -/
def mapValues (f : ν → μ) (es : List (String × ν)) : List (String × μ) :=
  es.map fun e => (e.1, f e.2)

@[simp] theorem mapValues_cons (f : ν → μ) (e : String × ν) (rest : List (String × ν)) :
    mapValues f (e :: rest) = (e.1, f e.2) :: mapValues f rest := rfl

theorem keys_mapValues (f : ν → μ) (es : List (String × ν)) : keys (mapValues f es) = keys es := by
  simp [keys, mapValues]

theorem find?_mapValues (f : ν → μ) (k : String) (es : List (String × ν)) :
    find? k (mapValues f es) = (find? k es).map f := by
  induction es with
  | nil => rfl
  | cons e rest ih =>
      rw [mapValues_cons, find?, find?]
      split
      · rfl
      · exact ih

theorem insert_mapValues (f : ν → μ) (k : String) (v : ν) (es : List (String × ν)) :
    insert k (f v) (mapValues f es) = mapValues f (insert k v es) := by
  induction es with
  | nil => rfl
  | cons e rest ih =>
      rw [mapValues_cons, insert, insert]
      split
      · rfl
      · rw [ih, mapValues_cons]

theorem insertSorted_mapValues (f : ν → μ) (k : String) (v : ν) (es : List (String × ν)) :
    insertSorted k (f v) (mapValues f es) = mapValues f (insertSorted k v es) := by
  induction es with
  | nil => rfl
  | cons e rest ih =>
      rw [mapValues_cons, insertSorted, insertSorted]
      split
      · rfl
      · split
        · rfl
        · rw [ih, mapValues_cons]

theorem sorted_mapValues (f : ν → μ) (es : List (String × ν)) :
    sorted (mapValues f es) = mapValues f (sorted es) := by
  suffices ∀ acc : List (String × ν),
      (mapValues f es).foldl (fun acc e => insertSorted e.1 e.2 acc) (mapValues f acc) =
        mapValues f (es.foldl (fun acc e => insertSorted e.1 e.2 acc) acc) from this []
  induction es with
  | nil => exact fun acc => rfl
  | cons e rest ih =>
      intro acc
      rw [mapValues_cons, List.foldl_cons, List.foldl_cons, ← ih, ← insertSorted_mapValues]

theorem ofWrites_mapValues (f : ν → μ) (writes : List (String × ν)) :
    ofWrites (mapValues f writes) = mapValues f (ofWrites writes) := by
  suffices ∀ acc : List (String × ν),
      (mapValues f writes).foldl (fun es e => insert e.1 e.2 es) (mapValues f acc) =
        mapValues f (writes.foldl (fun es e => insert e.1 e.2 es) acc) from this []
  induction writes with
  | nil => exact fun acc => rfl
  | cons e rest ih =>
      intro acc
      rw [mapValues_cons, List.foldl_cons, List.foldl_cons, ← ih, ← insert_mapValues]

end Values

section Arranging

theorem mem_insertSorted {k : String} {v : ν} {es : List (String × ν)} {e : String × ν}
    (inside : e ∈ insertSorted k v es) : e = (k, v) ∨ e ∈ es := by
  induction es with
  | nil => exact .inl (List.mem_singleton.mp inside)
  | cons d rest ih =>
      simp only [insertSorted] at inside
      split at inside
      · exact List.mem_cons.mp inside
      · split at inside
        · exact (List.mem_cons.mp inside).imp id (List.mem_cons_of_mem _)
        · rcases List.mem_cons.mp inside with rfl | inside
          · exact .inr List.mem_cons_self
          · exact (ih inside).imp id (List.mem_cons_of_mem _)

theorem mem_of_mem_sorted {es : List (String × ν)} {e : String × ν} (inside : e ∈ sorted es) :
    e ∈ es := by
  suffices ∀ acc, e ∈ es.foldl (fun acc e => insertSorted e.1 e.2 acc) acc → e ∈ acc ∨ e ∈ es from
    (this [] inside).resolve_left List.not_mem_nil
  clear inside
  induction es with
  | nil => exact fun acc => .inl
  | cons d rest ih =>
      intro acc inside
      rcases ih _ inside with first | later
      · rcases mem_insertSorted first with rfl | old
        · exact .inr List.mem_cons_self
        · exact .inl old
      · exact .inr (List.mem_cons_of_mem _ later)

theorem insertSorted_perm {k : String} {v : ν} {es : List (String × ν)} (fresh : k ∉ keys es) :
    (insertSorted k v es).Perm ((k, v) :: es) := by
  induction es with
  | nil => exact .refl _
  | cons e rest ih =>
      have other : e.1 ≠ k := fun he => fresh (by simp [keys, he])
      have freshRest : k ∉ keys rest := fun hm => fresh (List.mem_cons_of_mem _ hm)
      simp only [insertSorted, if_neg other]
      split
      · exact .refl _
      · exact ((ih freshRest).cons e).trans (.swap _ _ _)

/-- Of several entries with distinct keys, one can be taken out and put in front. -/
theorem nodup_keys_middle {e : String × ν} {before rest : List (String × ν)}
    (nodup : (keys (before ++ e :: rest)).Nodup) :
    e.1 ∉ keys before ∧ (keys (e :: (before ++ rest))).Nodup := by
  have moved : (keys (e :: (before ++ rest))).Nodup :=
    (List.perm_middle.map Prod.fst).nodup_iff.mp nodup
  refine ⟨fun hm => (List.nodup_cons.mp moved).1 ?_, moved⟩
  simp only [keys, List.map_append] at hm ⊢
  exact List.mem_append_left _ hm

/-- **Arranging keeps the entries.** -/
theorem sorted_perm {es : List (String × ν)} (nodup : (keys es).Nodup) : (sorted es).Perm es := by
  suffices ∀ acc : List (String × ν), (keys (acc ++ es)).Nodup →
      (es.foldl (fun acc e => insertSorted e.1 e.2 acc) acc).Perm (acc ++ es) from this [] nodup
  clear nodup
  induction es with
  | nil => exact fun acc _ => by simp
  | cons e rest ih =>
      intro acc nodup
      obtain ⟨fresh, moved⟩ := nodup_keys_middle nodup
      have inserted := insertSorted_perm (v := e.2) fresh
      have nodupNext : (keys (insertSorted e.1 e.2 acc ++ rest)).Nodup :=
        ((inserted.append_right rest).map Prod.fst).nodup_iff.mpr moved
      exact (ih _ nodupNext).trans ((inserted.append_right rest).trans List.perm_middle.symm)

theorem find?_eq_some_iff_mem {k : String} {v : ν} {es : List (String × ν)}
    (nodup : (keys es).Nodup) : find? k es = some v ↔ (k, v) ∈ es := by
  induction es with
  | nil => simp [find?]
  | cons e rest ih =>
      obtain ⟨fresh, nodupRest⟩ := List.nodup_cons.mp nodup
      by_cases he : e.1 = k
      · subst he
        have absent : (e.1, v) ∉ rest := fun hm => fresh (List.mem_map.mpr ⟨_, hm, rfl⟩)
        simp [find?, absent, Prod.ext_iff, eq_comm]
      · have other : (k, v) ≠ e := fun hk => he (by rw [← hk])
        simp [find?, he, ih nodupRest, other]

theorem nodup_of_nodup_keys {es : List (String × ν)} (nodup : (keys es).Nodup) : es.Nodup :=
  List.Pairwise.of_map Prod.fst (fun _ _ other same => other (congrArg Prod.fst same)) nodup

/-- **Entries in which every key is found with the same value are arranged alike**, in whatever order
they stand. -/
theorem sorted_eq_of_find?_eq {xs ys : List (String × ν)} (hx : (keys xs).Nodup)
    (hy : (keys ys).Nodup) (same : ∀ k, find? k xs = find? k ys) : sorted xs = sorted ys := by
  have entries : xs.Perm ys := by
    refine (List.perm_ext_iff_of_nodup (nodup_of_nodup_keys hx) (nodup_of_nodup_keys hy)).mpr ?_
    intro e
    rw [← find?_eq_some_iff_mem hx, ← find?_eq_some_iff_mem hy, same]
  have arranged : (sorted xs).Perm (sorted ys) :=
    (sorted_perm hx).trans (entries.trans (sorted_perm hy).symm)
  refine arranged.eq_of_pairwise ?_ (List.pairwise_map.mp (sorted_pairwise xs))
    (List.pairwise_map.mp (sorted_pairwise ys))
  intro d e _ _ before after
  exact absurd (String.lt_trans before after) (String.lt_irrefl d.1)

end Arranging

section Writing

theorem mem_insert {k : String} {v : ν} {es : List (String × ν)} {e : String × ν}
    (inside : e ∈ insert k v es) : e = (k, v) ∨ e ∈ es := by
  induction es with
  | nil => exact .inl (List.mem_singleton.mp inside)
  | cons d rest ih =>
      simp only [insert] at inside
      split at inside
      · exact (List.mem_cons.mp inside).imp id (List.mem_cons_of_mem _)
      · rcases List.mem_cons.mp inside with rfl | inside
        · exact .inr List.mem_cons_self
        · exact (ih inside).imp id (List.mem_cons_of_mem _)

theorem mem_of_mem_ofWrites {writes : List (String × ν)} {e : String × ν}
    (inside : e ∈ ofWrites writes) : e ∈ writes := by
  suffices ∀ es, e ∈ writes.foldl (fun es e => insert e.1 e.2 es) es → e ∈ es ∨ e ∈ writes from
    (this [] inside).resolve_left List.not_mem_nil
  clear inside
  induction writes with
  | nil => exact fun es => .inl
  | cons d rest ih =>
      intro es inside
      rcases ih _ inside with first | later
      · rcases mem_insert first with rfl | old
        · exact .inr List.mem_cons_self
        · exact .inl old
      · exact .inr (List.mem_cons_of_mem _ later)

end Writing

end Entries

end TreeHandles
