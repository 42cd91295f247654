import TreeHandles.Proofs.Json.RoundTrip
import TreeHandles.Proofs.Node.Equality

/-!
# Equal nodes are exported alike

Two equal numbers other than the zeros have the same bits.  So two scalars that are equal, neither
of them a zero, are the same scalar, and are written alike.  Two equal objects either are one object,
whatever is inside, or have equal values under the same keys.  Then the texts of their values stand
under the same keys too, and an export, which goes by the order of the keys, cannot tell in which
order the entries were made.

**Results.**
* `Scalar.eq_of_equal`: equal scalars that are no zeros are the same.
* `sortedKeys_eq_of_equal`: equal objects have the same keys.
* `json_eq_of_equal`: equal nodes without a zero have the same text.
* `toJson_eq_of_equal`: both, among all nodes that a host can have.
-/

namespace TreeHandles

open TreeHandles.Tree

section Scalars

/-- A scalar that is not a zero of either sign, among the floating-point numbers. -/
def Scalar.NotZero (s : Scalar) : Prop := ∀ x, s = .float x → x.isZero = false

instance : DecidablePred Scalar.NotZero
  | .float x => decidable_of_iff (x.isZero = false)
      ⟨fun notZero y hy => by cases hy; exact notZero, fun notZero => notZero x rfl⟩
  | .null | .bool _ | .int _ | .uint _ | .string _ => isTrue nofun

theorem Binary64.eq_of_equal {x y : Binary64} (notZero : x.isZero = false)
    (same : x.equal y = true) : x = y := by
  simpa [Binary64.equal, notZero] using (Bool.and_eq_true_iff.mp same).2

theorem Scalar.eq_of_equal {s t : Scalar} (notZero : s.NotZero) (same : s.equal t = true) :
    s = t := by
  cases s with
  | float x =>
      cases t with
      | float y => rw [Binary64.eq_of_equal (notZero x rfl) same]
      | null | bool | int | uint | string => simp [Scalar.equal] at same
  | null | bool | int | uint | string => simpa [Scalar.equal] using same

end Scalars

namespace Entries

variable {ν μ κ : Type} {R : ν → μ → Prop}

/-- Values that may be missing and are related are seen alike, if related values are. -/
theorem map_eq_of_rel {f : ν → κ} {g : μ → κ} {v? : Option ν} {w? : Option μ}
    (related : Option.Rel R v? w?) (same : ∀ v ∈ v?, ∀ w ∈ w?, R v w → f v = g w) :
    v?.map f = w?.map g := by
  cases related with
  | some holds => exact congrArg some (same _ rfl _ rfl holds)
  | none => rfl

variable {xs : List (String × ν)} {ys : List (String × μ)}

/-- If what is seen of the values is the same under every key, the entries are seen alike in the
order of their keys. -/
theorem mapValues_sorted_eq {f : ν → κ} {g : μ → κ} (hx : (keys xs).Nodup) (hy : (keys ys).Nodup)
    (same : ∀ k, (find? k xs).map f = (find? k ys).map g) :
    mapValues f (sorted xs) = mapValues g (sorted ys) := by
  rw [← sorted_mapValues, ← sorted_mapValues]
  refine sorted_eq_of_find?_eq (by rwa [keys_mapValues]) (by rwa [keys_mapValues]) fun k => ?_
  rw [find?_mapValues, find?_mapValues, same]

/-- Entries that are related as maps have the same keys in the same order, once they are arranged. -/
theorem sortedKeys_eq_of_rel (hx : (keys xs).Nodup) (hy : (keys ys).Nodup)
    (each : ∀ k, Option.Rel R (find? k xs) (find? k ys)) : sortedKeys xs = sortedKeys ys := by
  have arranged : mapValues (fun _ => ()) (sorted xs) = mapValues (fun _ => ()) (sorted ys) :=
    mapValues_sorted_eq hx hy fun k => map_eq_of_rel (each k) fun _ _ _ _ _ => rfl
  rw [sortedKeys, sortedKeys, ← keys_mapValues (fun _ => ()), arranged, keys_mapValues]

end Entries

/-- Objects under whose keys stand the same texts have the same text. -/
theorem Json.json_object_congr {α β : Type} {a : α} {b : β} {xs : List (String × Tree α)}
    {ys : List (String × Tree β)} (hx : (Entries.keys xs).Nodup) (hy : (Entries.keys ys).Nodup)
    (same : ∀ k, (Entries.find? k xs).map Tree.json = (Entries.find? k ys).map Tree.json) :
    (object a xs).json = (object b ys).json := by
  have members := congrArg (List.map fun e => Json.member e.1 e.2)
    (Entries.mapValues_sorted_eq hx hy same)
  rw [Entries.mapValues, Entries.mapValues, List.map_map, List.map_map] at members
  rw [json_object, json_object]
  exact congrArg (fun texts => ['{'] ++ ([','].intercalate texts ++ ['}'])) members

namespace Node

variable {memory : List Node} {m n : Node}

/-- Equal objects have the same keys. -/
theorem sortedKeys_eq_of_equal (distinct : ∀ n ∈ memory, n.keys.Nodup) {a b : Allocation}
    {xs ys : List (String × Node)} (hm : Held memory (object a xs))
    (hn : Held memory (object b ys)) (same : equal (object a xs) (object b ys) = true) :
    Entries.sortedKeys xs = Entries.sortedKeys ys := by
  have hx := (hm.distinctKeys distinct).root
  have hy := (hn.distinctKeys distinct).root
  rcases (equal_object_iff_rel hx hy).mp same with rfl | each
  · cases eq_of_same hm hn (by simp [Node.same])
    rfl
  · exact Entries.sortedKeys_eq_of_rel hx hy each

/-- **Equal nodes without a zero have the same text.** -/
theorem json_eq_of_equal (distinct : ∀ n ∈ memory, n.keys.Nodup) (hm : Held memory m)
    (hn : Held memory n) (every : m.EveryScalar Scalar.NotZero) (same : equal m n = true) :
    m.json = n.json := by
  induction m using induction_children generalizing n with
  | node m ih =>
      cases m with
      | leaf s =>
          obtain ⟨t, rfl⟩ := exists_leaf_of_equal same
          rw [Scalar.eq_of_equal every.leaf same]
      | array a xs =>
          obtain ⟨b, ys, rfl⟩ := exists_array_of_equal same
          obtain ⟨length, each⟩ := equal_array_iff.mp same
          have texts : xs.map Tree.json = ys.map Tree.json := by
            refine List.ext_get (by simpa using length) fun i hx hy => ?_
            rw [List.length_map] at hx hy
            have childX : xs.get ⟨i, hx⟩ ∈ (array a xs).children := List.get_mem xs _
            have childY : ys.get ⟨i, hy⟩ ∈ (array b ys).children := List.get_mem ys _
            simpa using ih _ childX (hm.child childX) (hn.child childY) (every.child childX)
              (each i hx hy)
          rw [Json.json_array, Json.json_array, texts]
      | object a xs =>
          obtain ⟨b, ys, rfl⟩ := exists_object_of_equal same
          have hx := (hm.distinctKeys distinct).root
          have hy := (hn.distinctKeys distinct).root
          rcases (equal_object_iff_rel hx hy).mp same with rfl | each
          · -- One object has one text, even if what is inside differs from itself.
            rw [eq_of_same hm hn (by simp [Node.same])]
          · refine Json.json_object_congr hx hy fun k => ?_
            refine Entries.map_eq_of_rel (each k) fun x foundX y foundY sameValue => ?_
            have childX : x ∈ (object a xs).children := mem_children_of_find? foundX
            have childY : y ∈ (object b ys).children := mem_children_of_find? foundY
            exact ih x childX (hm.child childX) (hn.child childY) (every.child childX) sameValue

end Node

namespace Session

/-- **Equal nodes are exported alike.**  Take a session that is reached, and whatever a host makes
there step by step: scalars of all kinds, arrays and objects whose children are clones of earlier
nodes, and clones of the nodes of the session.  If one of these nodes is equal to another, they have
the same keys in the order of their enumeration, if they are objects; and if no floating-point number
inside the one is a zero, they are exported as the same text. -/
theorem toJson_eq_of_equal (options : Options) (calls : List AnyCall) (x : Session)
    (hx : (new options).run calls = .ok x) (steps : List (Assembly Handle)) :
    let bench := Assembly.assemble x.node? x.table.supply steps
    ∀ i j, Node.equal (bench.get i) (bench.get j) = true →
      (∀ a b xs ys, bench.get i = object a xs → bench.get j = object b ys →
        Entries.sortedKeys xs = Entries.sortedKeys ys) ∧
      ((bench.get i).EveryScalar Scalar.NotZero →
        (bench.get i).toJson = (bench.get j).toJson) := by
  intro bench i j same
  obtain ⟨memory, held⟩ := exists_held_assemble hx steps
  refine ⟨fun a b xs ys hi hj => ?_, fun every => ?_⟩
  · exact Node.sortedKeys_eq_of_equal held.distinct (hi ▸ held.get i) (hj ▸ held.get j)
      (by rwa [← hi, ← hj])
  · exact congrArg String.ofList
      (Node.json_eq_of_equal held.distinct (held.get i) (held.get j) every same)

/-- Two objects are exported alike whose entries stand in another order, with an infinity and one
object that hides a not-a-number as their values. -/
theorem toJson_eq_of_equal_around_nan :
    let steps : List (Assembly Handle) :=
      [.clone ⟨1⟩, .object [("x", 0)], .scalar (.float ⟨0xfff0000000000000⟩),
        .object [("p", 1), ("q", 2)], .object [("q", 2), ("p", 1)]]
    ∃ x, (new {}).run [Call.toAny (.request (.newFloat ⟨0x7ff8000000000000⟩))] = .ok x ∧
      let bench := Assembly.assemble x.node? x.table.supply steps
      Node.equal (bench.get 0) (bench.get 0) = false ∧
        (∃ a b xs ys, bench.get 3 = object a xs ∧ bench.get 4 = object b ys ∧
          Entries.keys xs ≠ Entries.keys ys ∧ Entries.sortedKeys xs = Entries.sortedKeys ys) ∧
        (bench.get 3).EveryScalar Scalar.NotZero ∧
        (bench.get 3).toJson = (bench.get 4).toJson := by
  intro steps
  obtain ⟨x, hx⟩ : ∃ x, (new {}).run
      [Call.toAny (.request (.newFloat ⟨0x7ff8000000000000⟩))] = .ok x := ⟨_, rfl⟩
  refine ⟨x, hx, ?_⟩
  intro bench
  have differs : Node.equal (bench.get 0) (bench.get 0) = false := by cases hx; decide
  have same : Node.equal (bench.get 3) (bench.get 4) = true := by cases hx; decide
  have notZero : (bench.get 3).EveryScalar Scalar.NotZero := by cases hx; decide
  have shapes : ∃ a b xs ys, bench.get 3 = object a xs ∧ bench.get 4 = object b ys ∧
      Entries.keys xs ≠ Entries.keys ys := by
    cases hx
    exact ⟨_, _, _, _, rfl, rfl, by decide⟩
  obtain ⟨sameKeys, sameText⟩ := toJson_eq_of_equal {} _ x hx steps 3 4 same
  obtain ⟨a, b, xs, ys, hi, hj, order⟩ := shapes
  exact ⟨differs, ⟨a, b, xs, ys, hi, hj, order, sameKeys a b xs ys hi hj⟩, notZero,
    sameText notZero⟩

end Session

end TreeHandles
