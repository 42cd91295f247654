import TreeHandles.Proofs.Json.Ensures
import TreeHandles.Proofs.Json.RoundTrip
import TreeHandles.Proofs.Text.ByteOrder

/-!
# Imported documents are canonical

A reader gives every level of nesting one level less than the one around it, gives scalars that are
narrow and objects that are in order.  So a document that was read is its own canonical form, floating
point apart, and export followed by import leaves it as it is.

**Results.**
* `depth_le_of_parse` and `narrow_of_parse`: how deep a document that was read nests, and what
  integers are in it.
* `canonical_of_parse`: documents that were read are canonical, and are read back exactly.
-/

namespace TreeHandles
namespace Json

open TreeHandles.Tree

variable {source : String} {d : Document}

theorem inductive_depth : Inductive fun levels t => t.depth ≤ levels where
  scalar levels _ _ := Nat.zero_le levels
  array _ _ each := (depth_le_iff rfl).mpr each
  object _ _ members := (depth_le_iff rfl).mpr fun c hc => by
    obtain ⟨e, he, rfl⟩ := List.mem_map.mp hc
    exact members.2 e he

theorem inductive_narrow : Inductive fun _ t => t.EveryScalar Scalar.Narrow where
  scalar _ _ narrow := everyScalar_leaf narrow
  array _ _ each := .of_children rfl each
  object _ _ members := .of_children rfl fun c hc => by
    obtain ⟨e, he, rfl⟩ := List.mem_map.mp hc
    exact members.2 e he

theorem depth_le_of_parse (h : parse source = .ok d) : d.depth ≤ levelLimit :=
  of_parse inductive_depth h

theorem narrow_of_parse (h : parse source = .ok d) : d.EveryScalar Scalar.Narrow :=
  of_parse inductive_narrow h

/-- **Documents that were read are canonical.**  In every object inside the keys are distinct and in
the order of their bytes; unsigned integers are beyond the signed range; composites nest at most 127
deep; and a document without floating-point numbers is exported and imported exactly. -/
theorem canonical_of_parse (h : parse source = .ok d) :
    d.DistinctKeys ∧
      (d.EveryKeys fun keys => (keys.map Text.bytes).Pairwise (· < ·)) ∧
      (d.EveryScalar fun s => ∀ u, s = .uint u → 0x7fffffffffffffff < u.toNat) ∧
      d.depth ≤ 127 ∧
      ((d.EveryScalar fun s => ∀ x, s ≠ .float x) → parse d.toJson = .ok d) := by
  have ordered := orderedKeys_of_parse h
  have narrow := narrow_of_parse h
  have fits := depth_le_of_parse h
  refine ⟨ordered.distinct, ?bytes, ?unsigned, fits, fun noFloat => ?exact⟩
  case bytes =>
    intro t ht
    exact (ordered t ht).map Text.bytes fun _ _ less => Text.bytes_lt_bytes_iff.mpr less
  case unsigned =>
    intro s hs u same
    exact narrow s hs u same
  case exact =>
    have same : d.canonical = d := canonical_eq_self ordered fun s hs =>
      Scalar.canonical_eq_self (narrow s hs) (noFloat s hs)
    have exact : d.EveryScalar Scalar.Exact := fun s hs x float => absurd float (noFloat s hs x)
    have reads := parse_of_reads (reads_value exact fits)
    rwa [same] at reads

/-- Members out of order, one of them repeated, become an object that is read back. -/
theorem canonical_of_parse_repeated_key :
    ∃ d, parse "\x7b\"b\":5,\"a\":[],\"b\":null\x7d" = .ok d ∧ parse d.toJson = .ok d := by
  have noFloat : ∀ t ∈ [leaf (.int 5), array () [], leaf .null],
      t.EveryScalar Scalar.NoFloat := by
    simp only [List.forall_mem_cons]
    exact ⟨everyScalar_leaf nofun, .of_children rfl nofun, everyScalar_leaf nofun, nofun⟩
  have members : ∀ e ∈ [("b", leaf (.int 5)), ("a", array () []), ("b", leaf .null)],
      (value 126).Reads e.2.json e.2.canonical := by
    intro e he
    have inside : e.2 ∈ [leaf (.int 5), array () [], leaf .null] := List.mem_map_of_mem he
    have exact : e.2.EveryScalar Scalar.Exact := fun s hs x float =>
      absurd float (noFloat e.2 inside s hs x)
    have fits : ∀ t ∈ [leaf (.int 5), array () [], leaf .null], (t : Document).depth ≤ 126 := by
      simp only [List.forall_mem_cons]
      decide
    exact reads_value exact (fits e.2 inside)
  have parsed := parse_of_reads (reads_members members)
  refine ⟨_, parsed, (canonical_of_parse parsed).2.2.2.2 (.of_children rfl fun c hc => ?_)⟩
  -- The last value of the repeated key is left.
  have left : c ∈ [array () [], leaf .null] := hc
  exact noFloat c (List.mem_cons_of_mem _ left)

end Json

end TreeHandles
