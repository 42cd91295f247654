import TreeHandles.Proofs.Tree.Subtrees
import TreeHandles.View

/-!
# Enumerating the children of a node

If no key of an object stands twice, then the key at a place and the child at this place belong
together, and the places are those below the size.

**Results.**
* `keyAt_object` and `childAt_eq`: what is found at a place.
* `childAt_eq_ok_iff`: a child is found where the enumeration has it.
* `payload_congr`, `keyAt_congr` and `childAt_congr`: a reading of a node depends on the node alone.
* `ofReading_payload`, `ofReading_keyAt` and `ofReading_childAt`: the errors with which a reading fails;
  none of them is a breach of a contract.
-/

namespace TreeHandles

/-- An error says that a node, or nothing, was asked for what it does not have. -/
def Error.OfReading : Error → Prop
  | lookupMiss _ | kindMismatch _ _ | notContainer _ | indexOutOfRange _ _ | missingKey _ => True
  | contractViolation _ | arrayTooLarge _ _ | invalidInput _ | missingSession => False

theorem Error.OfReading.violation?_eq_none {e : Error} (reading : e.OfReading) :
    e.violation? = none := by
  cases e with
  | contractViolation v => cases reading
  | _ => rfl

namespace View

open TreeHandles.Tree

variable {v : View} {n c : Node} {index : Nat}

section Enumeration

theorem keyAt_object {label : Allocation} {entries : List (String × Node)}
    (shown : v.node? = some (.object label entries)) (index : Nat) :
    v.keyAt index =
      match (Entries.sorted entries)[index]? with
      | some e => .ok e.1
      | none => .error (.indexOutOfRange index entries.length) := by
  simp only [keyAt, shown, Entries.sortedKeys, Entries.keys, List.getElem?_map]
  cases (Entries.sorted entries)[index]? <;> rfl

theorem childAt_object {label : Allocation} {entries : List (String × Node)}
    (shown : v.node? = some (.object label entries)) (distinct : (Entries.keys entries).Nodup)
    (index : Nat) :
    v.childAt index =
      match (Entries.sorted entries)[index]? with
      | some e => .ok e.2
      | none => .error (.indexOutOfRange index entries.length) := by
  simp only [childAt, shown, keyAt_object shown]
  cases he : (Entries.sorted entries)[index]? with
  | none => rfl
  | some e =>
      have perm := Entries.sorted_perm distinct
      have inside : (e.1, e.2) ∈ entries := perm.mem_iff.mp (List.mem_of_getElem? he)
      simp only [(Entries.find?_eq_some_iff_mem distinct).mpr inside]

/-- **The child at a place.** -/
theorem childAt_eq (shown : v.node? = some n) (distinct : n.keys.Nodup) (index : Nat) :
    v.childAt index =
      match n.inOrder[index]? with
      | some c => .ok c
      | none =>
          .error (if n.isComposite then .indexOutOfRange index n.size else .notContainer n.kind) := by
  cases n with
  | leaf s => simp [childAt, shown, inOrder, isComposite, label?]
  | array label items =>
      simp only [childAt, shown, inOrder]
      cases items[index]? <;> rfl
  | object label entries =>
      rw [childAt_object shown distinct, inOrder, List.getElem?_map]
      cases (Entries.sorted entries)[index]? <;> rfl

theorem childAt_eq_ok_iff (shown : v.node? = some n) (distinct : n.keys.Nodup) :
    v.childAt index = .ok c ↔ n.inOrder[index]? = some c := by
  rw [childAt_eq shown distinct]
  cases n.inOrder[index]? <;> simp

end Enumeration

section Dependence

variable {w : View} {p : Payload}

theorem payload_of_none (blank : v.node? = none) : v.payload p = .error (.lookupMiss v.handle) := by
  simp only [payload, blank]

theorem keyAt_of_none (blank : v.node? = none) :
    v.keyAt index = .error (.lookupMiss v.handle) := by
  simp only [keyAt, blank]

theorem childAt_of_none (blank : v.node? = none) :
    v.childAt index = .error (.lookupMiss v.handle) := by
  simp only [childAt, blank]

theorem payload_congr (hv : v.node? = some n) (hw : w.node? = some n) :
    v.payload p = w.payload p := by
  simp only [payload, hv, hw]
  cases n <;> rfl

theorem keyAt_congr (hv : v.node? = some n) (hw : w.node? = some n) :
    v.keyAt index = w.keyAt index := by
  simp only [keyAt, hv, hw]
  cases n <;> rfl

theorem childAt_congr (hv : v.node? = some n) (hw : w.node? = some n) :
    v.childAt index = w.childAt index := by
  simp only [childAt, hv, hw, keyAt_congr hv hw]
  cases n <;> rfl

/-- Views of one node find the same child, or fail for the same reason, unless they show nothing. -/
theorem childAt_agree (same : v.node? = w.node?) (index : Nat) :
    (∀ c, v.childAt index = .ok c ↔ w.childAt index = .ok c) ∧
      ∀ e, (∀ h, e ≠ .lookupMiss h) → (v.childAt index = .error e ↔ w.childAt index = .error e) := by
  cases hv : v.node? with
  | none =>
      rw [childAt_of_none hv, childAt_of_none (same ▸ hv)]
      refine ⟨fun c => ⟨nofun, nofun⟩, fun e found => ?_⟩
      simp [Ne.symm (found v.handle), Ne.symm (found w.handle)]
  | some n =>
      rw [childAt_congr hv (same ▸ hv)]
      exact ⟨fun c => Iff.rfl, fun e _ => Iff.rfl⟩

end Dependence

section Errors

variable {e : Error}

theorem ofReading_payload {p : Payload} (fails : v.payload p = .error e) : e.OfReading := by
  simp only [payload] at fails
  split at fails
  · cases fails
    trivial
  · split at fails
    · cases fails
    · cases fails
      trivial
  · cases fails
    trivial

theorem ofReading_keyAt (fails : v.keyAt index = .error e) : e.OfReading := by
  simp only [keyAt] at fails
  split at fails
  · cases fails
    trivial
  · split at fails
    · cases fails
    · cases fails
      trivial
  · cases fails
    trivial

theorem ofReading_childAt (fails : v.childAt index = .error e) : e.OfReading := by
  simp only [childAt] at fails
  split at fails
  · cases fails
    trivial
  · split at fails
    · cases fails
    · cases fails
      trivial
  · split at fails
    · next noKey =>
        cases fails
        exact ofReading_keyAt noKey
    · split at fails
      · cases fails
      · cases fails
        trivial
  · cases fails
    trivial

theorem violation?_payload {p : Payload} (fails : v.payload p = .error e) :
    e.violation? = none := (ofReading_payload fails).violation?_eq_none

theorem violation?_keyAt (fails : v.keyAt index = .error e) : e.violation? = none :=
  (ofReading_keyAt fails).violation?_eq_none

theorem violation?_childAt (fails : v.childAt index = .error e) : e.violation? = none :=
  (ofReading_childAt fails).violation?_eq_none

end Errors

end View

end TreeHandles
