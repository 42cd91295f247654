import TreeHandles.Entries

/-!
# What a list of writes leaves

A list of writes, oldest first, is applied to the places of a list or to keyed entries.  What
remains does not depend on how the writes are interleaved: a place holds what was written to it
last, and a key stands where it was written first with what was bound to it last.

**Results.**
* `setPlaces_replicate`: the places after a list of writes.
* `Entries.insert_of_not_mem` and `Entries.exists_insert_of_mem`: where one written key stands.
* `Entries.find?_ofWrites`: what a key is found with after a list of writes.
* `Entries.ofWrites_eq`: the entries after a list of writes, and `Entries.nodup_keys_ofWrites`:
  their keys are distinct.
-/

namespace TreeHandles

variable {ν : Type}

section Places

/-- Writes places of a list one after the other; a place that is not there is passed over. -/
def setPlaces (places : List ν) (writes : List (Nat × ν)) : List ν :=
  writes.foldl (fun places e => places.set e.1 e.2) places

theorem length_setPlaces (places : List ν) (writes : List (Nat × ν)) :
    (setPlaces places writes).length = places.length := by
  induction writes generalizing places with
  | nil => rfl
  | cons e rest ih => exact (ih (places.set e.1 e.2)).trans List.length_set

theorem getElem?_setPlaces (places : List ν) (writes : List (Nat × ν)) {i : Nat}
    (inside : i < places.length) :
    (setPlaces places writes)[i]? = (writes.reverse.lookup i).or places[i]? := by
  induction writes generalizing places with
  | nil => simp [setPlaces]
  | cons e rest ih =>
      obtain ⟨j, v⟩ := e
      have first : (places.set j v)[i]? = ([(j, v)].lookup i).or places[i]? := by
        by_cases he : j = i
        · subst he
          simp [inside]
        · have other : (i == j) = false := by simpa using fun h : i = j => he h.symm
          rw [List.getElem?_set_ne he, List.lookup_cons, other]
          rfl
      have later := ih (places.set j v) (by rw [List.length_set]; exact inside)
      calc (setPlaces places ((j, v) :: rest))[i]?
          = (rest.reverse.lookup i).or (places.set j v)[i]? := later
        _ = (rest.reverse.lookup i).or (([(j, v)].lookup i).or places[i]?) := by rw [first]
        _ = (((j, v) :: rest).reverse.lookup i).or places[i]? := by
            rw [List.reverse_cons, List.lookup_append, Option.or_assoc]

theorem setPlaces_replicate (n : Nat) (v : ν) (writes : List (Nat × ν)) :
    setPlaces (List.replicate n v) writes =
      (List.range n).map fun i => (writes.reverse.lookup i).getD v := by
  apply List.ext_getElem?
  intro i
  by_cases inside : i < n
  · rw [getElem?_setPlaces _ _ (by simpa using inside)]
    cases hw : writes.reverse.lookup i <;> simp [inside, hw]
  · rw [List.getElem?_eq_none (by rw [length_setPlaces, List.length_replicate]; omega)]
    simp [inside]

end Places

namespace Entries

/-- Whichever way keys are bound, one after the other, a key is found with what was bound to it last. -/
theorem find?_foldl {binding : String → ν → List (String × ν) → List (String × ν)}
    (binds : ∀ j k v es, find? k (binding j v es) = if j = k then some v else find? k es)
    (k : String) (es writes : List (String × ν)) :
    find? k (writes.foldl (fun es e => binding e.1 e.2 es) es) =
      (writes.reverse.lookup k).or (find? k es) := by
  induction writes generalizing es with
  | nil => rfl
  | cons e rest ih =>
      obtain ⟨j, v⟩ := e
      have first : find? k (binding j v es) = ([(j, v)].lookup k).or (find? k es) := by
        rw [binds]
        by_cases he : j = k
        · subst he
          simp
        · have other : (k == j) = false := by simpa using fun h : k = j => he h.symm
          rw [if_neg he, List.lookup_cons, other]
          rfl
      rw [List.foldl_cons, ih, first, List.reverse_cons, List.lookup_append, Option.or_assoc]

/-- A key is found with what was bound to it last. -/
theorem find?_ofWrites (k : String) (writes : List (String × ν)) :
    find? k (ofWrites writes) = writes.reverse.lookup k := by
  rw [ofWrites, find?_foldl find?_insert]
  simp [find?]

theorem keys_foldl_insert (es writes : List (String × ν)) :
    keys (writes.foldl (fun es e => insert e.1 e.2 es) es) =
      keys es ++ ((keys writes).removeAll (keys es)).eraseDups := by
  induction writes generalizing es with
  | nil => simp [keys]
  | cons e rest ih =>
      rw [List.foldl_cons, ih, show keys (e :: rest) = e.1 :: keys rest from rfl,
        List.cons_removeAll]
      by_cases known : e.1 ∈ keys es
      · simp [keys_insert_of_mem e.2 known, known]
      · have without : (keys rest).removeAll (keys es ++ [e.1]) =
            ((keys rest).removeAll (keys es)).filter fun k => !k == e.1 := by
          rw [List.removeAll, List.removeAll, List.filter_filter]
          refine List.filter_congr ?_
          intro k _
          by_cases he : k = e.1 <;> simp [he]
        simp [keys_insert_of_not_mem e.2 known, known, without, List.eraseDups_cons]

theorem mem_keys_insert_self (k : String) (v : ν) (es : List (String × ν)) :
    k ∈ keys (insert k v es) := by
  by_cases known : k ∈ keys es
  · rw [keys_insert_of_mem v known]
    exact known
  · rw [keys_insert_of_not_mem v known]
    exact List.mem_append_right _ List.mem_cons_self

/-- A key that is not there goes to the end. -/
theorem insert_of_not_mem {k : String} (v : ν) {es : List (String × ν)} (fresh : k ∉ keys es) :
    insert k v es = es ++ [(k, v)] := by
  induction es with
  | nil => rfl
  | cons e rest ih =>
      have other : e.1 ≠ k := fun he => fresh (he ▸ List.mem_cons_self)
      rw [insert, if_neg other, ih fun later => fresh (List.mem_cons_of_mem _ later),
        List.cons_append]

/-- A key that is there keeps its place, and so does everything around it. -/
theorem exists_insert_of_mem {k : String} (v : ν) {es : List (String × ν)} (known : k ∈ keys es) :
    ∃ before old rest, es = before ++ (k, old) :: rest ∧
      insert k v es = before ++ (k, v) :: rest := by
  induction es with
  | nil => exact absurd known List.not_mem_nil
  | cons e rest ih =>
      by_cases he : e.1 = k
      · subst he
        exact ⟨[], e.2, rest, rfl, if_pos rfl⟩
      · obtain ⟨before, old, after, same, written⟩ :=
          ih ((List.mem_cons.mp known).resolve_left fun hk => he hk.symm)
        refine ⟨e :: before, old, after, congrArg (e :: ·) same, ?_⟩
        rw [insert, if_neg he, written, List.cons_append]

theorem nodup_keys_insert {k : String} {v : ν} {es : List (String × ν)} (nodup : (keys es).Nodup) :
    (keys (insert k v es)).Nodup := by
  by_cases known : k ∈ keys es
  · rw [keys_insert_of_mem v known]
    exact nodup
  · rw [keys_insert_of_not_mem v known, List.nodup_append]
    refine ⟨nodup, List.pairwise_singleton _ k, ?_⟩
    rintro a ha b hb rfl
    rw [List.mem_singleton] at hb
    exact known (hb ▸ ha)

theorem nodup_keys_ofWrites (writes : List (String × ν)) : (keys (ofWrites writes)).Nodup := by
  suffices ∀ es : List (String × ν), (keys es).Nodup →
      (keys (writes.foldl (fun es e => insert e.1 e.2 es) es)).Nodup from this [] .nil
  induction writes with
  | nil => exact fun es nodup => nodup
  | cons e rest ih => exact fun es nodup => ih _ (nodup_keys_insert nodup)

/-- Entries with distinct keys are their keys, each with the value that it is found with. -/
theorem eq_map_keys (v : ν) {es : List (String × ν)} (nodup : (keys es).Nodup) :
    es = (keys es).map fun k => (k, (find? k es).getD v) := by
  induction es with
  | nil => rfl
  | cons e rest ih =>
      obtain ⟨fresh, nodupRest⟩ := List.nodup_cons.mp nodup
      have others : (keys rest).map (fun k => (k, (find? k (e :: rest)).getD v)) =
          (keys rest).map fun k => (k, (find? k rest).getD v) := by
        apply List.map_congr_left
        intro k hk
        have other : e.1 ≠ k := fun he => fresh (he ▸ hk)
        simp [find?, other]
      show e :: rest = (e.1, (find? e.1 (e :: rest)).getD v) :: (keys rest).map _
      rw [others, ← ih nodupRest]
      simp [find?]

/-- **The entries after a list of writes.** -/
theorem ofWrites_eq (v : ν) (writes : List (String × ν)) :
    ofWrites writes =
      (keys writes).eraseDups.map fun k => (k, (writes.reverse.lookup k).getD v) := by
  have stands : keys (ofWrites writes) = (keys writes).eraseDups := by
    rw [ofWrites, keys_foldl_insert, show keys ([] : List (String × ν)) = [] from rfl,
      List.removeAll_nil, List.nil_append]
  calc ofWrites writes
      = (keys (ofWrites writes)).map fun k => (k, (find? k (ofWrites writes)).getD v) :=
        eq_map_keys v (nodup_keys_ofWrites writes)
    _ = (keys writes).eraseDups.map fun k => (k, (writes.reverse.lookup k).getD v) := by
        rw [stands]
        simp only [find?_ofWrites]

end Entries

end TreeHandles
