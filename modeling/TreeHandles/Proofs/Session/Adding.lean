import TreeHandles.Proofs.Session.Standing
import TreeHandles.Proofs.Table.Registration
import TreeHandles.Proofs.Tree.Places

/-!
# What is added to a session

A caller who only makes new things leaves everything alone that was there before: each handle that
was issued names the node and the builder that it named, no error is recorded, and the composites
that are made are of new allocations.  This is so also while the caller fills a builder, as long as
the builder is one of the new things.

**Results.**
* `Adds.trans`: adding in several steps is adding.
* `adds_scalar` and `adds_builder`: what registering a scalar and opening a builder add.
* `Adds.put` and `Adds.build`: filling and building a builder that was added.
-/

namespace TreeHandles
namespace Session

open TreeHandles.Tree

variable {x y z : Session} {h c : Handle} {m n : Node} {b d : Builder}

/-- The second session is the first one with new things. -/
structure Adds (x y : Session) : Prop where
  before : x.Standing
  after : y.Standing
  errors_eq : y.errors = x.errors
  options_eq : y.options = x.options
  last_le : x.table.last ≤ y.table.last
  supply_le : x.table.supply.number ≤ y.table.supply.number
  nodes_eq : ∀ {h : Handle}, h ≤ x.table.last → y.table.nodes[h]? = x.table.nodes[h]?
  builders_eq : ∀ {h : Handle}, h ≤ x.table.last → y.table.builders[h]? = x.table.builders[h]?
  fresh : ∀ {h : Handle} {n : Node} {a : Allocation}, x.table.last < h →
    y.table.nodes[h]? = some n → n.label? = some a → x.table.supply.number ≤ a.number

theorem child_of_node? (found : x.node? h = some n) : x.table.child h = .ok n := by
  have issued : h.isNull = false := by simpa [Handle.isNull] using ne_null_of_node? found
  have named : x.table.node? h = some n := found
  simp only [Table.child, issued, named]
  rfl

theorem node?_of_child (resolves : x.table.child h = .ok n) (issued : h ≠ .null) :
    x.node? h = some n := by
  have notNull : h.isNull = false := by simpa [Handle.isNull] using issued
  simp only [Table.child, notNull, Bool.false_eq_true, if_false] at resolves
  split at resolves
  · next found =>
      cases resolves
      exact found
  · cases resolves

namespace Adds

theorem refl (standing : x.Standing) : Adds x x := by
  refine ⟨standing, standing, rfl, rfl, Nat.le_refl _, Nat.le_refl _, fun _ => rfl, fun _ => rfl, ?_⟩
  intro h n a beyond found _
  rw [standing.sound.nodes_within.getElem?_of_lt beyond] at found
  cases found

theorem trans (first : Adds x y) (second : Adds y z) : Adds x z := by
  refine ⟨first.before, second.after, second.errors_eq.trans first.errors_eq,
    second.options_eq.trans first.options_eq, Nat.le_trans first.last_le second.last_le,
    Nat.le_trans first.supply_le second.supply_le, ?_, ?_, ?_⟩
  · intro h old
    rw [second.nodes_eq (Nat.le_trans old first.last_le), first.nodes_eq old]
  · intro h old
    rw [second.builders_eq (Nat.le_trans old first.last_le), first.builders_eq old]
  · intro h n a beyond found label
    by_cases old : h ≤ y.table.last
    · rw [second.nodes_eq old] at found
      exact first.fresh beyond found label
    · exact Nat.le_trans first.supply_le (second.fresh (Nat.not_le.mp old) found label)

section Kept

variable (adds : Adds x y)

include adds

theorem node?_eq (old : h ≤ x.table.last) : y.node? h = x.node? h := by
  rw [adds.after.node?_eq, adds.before.node?_eq, adds.nodes_eq old]

theorem node? (found : x.node? h = some n) : y.node? h = some n :=
  (adds.node?_eq (adds.before.le_last found)).trans found

theorem builder (found : x.table.builders[h]? = some b) : y.table.builders[h]? = some b :=
  (adds.builders_eq (adds.before.sound.builders_within.range found).2).trans found

theorem child (resolves : x.table.child c = .ok n) : y.table.child c = .ok n := by
  simp only [Table.child] at resolves ⊢
  split at resolves
  · next null =>
      rw [if_pos null]
      exact resolves
  · next issued =>
      rw [if_neg issued]
      split at resolves
      · next found =>
          cases resolves
          have foundThen : y.table.node? c = some n := adds.node? found
          rw [foundThen]
      · cases resolves

end Kept

end Adds

section Making

/-- The session after a request that was carried out. -/
theorem request_of_answer {s : Shape} {r : Request String s} {a : s.Answer} {t : Table}
    (answer : r.answer x.options x.table = (.ok a, t)) :
    x.request r = .ok (a, { x with table := t }) := by
  rw [request_of_ok (congrArg Prod.fst answer), answer]

variable (standing : x.Standing) (room : x.table.last.raw.toNat + 1 < UInt64.size)

include standing room

theorem adds_scalar {r : Request String .handle} {s : Scalar} (here : (leaf s : Node).isNull = false)
    (answer : r.answer x.options x.table = Table.done (x.table.register (.leaf s))) :
    ∃ y, x.request r = .ok (x.table.last.next, y) ∧ Adds x y ∧
      y.table.last = x.table.last.next ∧ y.node? x.table.last.next = some (.leaf s) := by
  have forward := Handle.le_next_of_room room
  rw [Table.register_of_present here] at answer
  have performed := request_of_answer answer
  have after : Standing _ := standing.perform (c := .request r) performed forward
  refine ⟨_, performed, ⟨standing, after, rfl, rfl, forward, Nat.le_refl _, ?_, fun _ => rfl, ?_⟩,
    rfl, ?_⟩
  · intro h old
    exact Handle.getElem?_insert_of_ne _ _ (Handle.next_ne_of_le forward old)
  · intro h n a beyond found label
    rw [Handle.getElem?_insert] at found
    split at found
    · cases found
      cases label
    · rw [standing.sound.nodes_within.getElem?_of_lt beyond] at found
      cases found
  · rw [after.node?_eq]
    exact Handle.getElem?_insert_self ..

theorem adds_builder {r : Request String .handle} {mode : BuilderMode} {size : Nat}
    (answer : r.answer x.options x.table = Table.done (x.table.openBuilder mode size)) :
    x.request r = .ok (x.table.last.next, { x with table := (x.table.openBuilder mode size).2 }) ∧
      Adds x { x with table := (x.table.openBuilder mode size).2 } := by
  have forward := Handle.le_next_of_room room
  have performed := request_of_answer answer
  have after : Standing _ := standing.perform (c := .request r) performed forward
  refine ⟨performed, standing, after, rfl, rfl, forward, Nat.le_refl _, fun _ => rfl, ?_, ?_⟩
  · intro h old
    exact Handle.getElem?_insert_of_ne _ _ (Handle.next_ne_of_le forward old)
  · intro h n a beyond found _
    cases (standing.sound.nodes_within.getElem?_of_lt beyond).symm.trans found

end Making

section Filling

/-- The session with another builder under a handle. -/
def withBuilder (x : Session) (h : Handle) (b : Builder) : Session :=
  { x with table := { x.table with builders := x.table.builders.insert h b } }

/-- The request that puts a child in a place of a builder. -/
def putting (h c : Handle) : Place → Request String .nothing
  | .index index => .setValue h index c
  | .key key => .setKeyValue h key c

variable (adds : Adds x y) (new : x.table.last < h) (found : y.table.builders[h]? = some b)

include adds new found

/-- To put a child in a builder that was added changes this builder and nothing else. -/
theorem Adds.put {place : Place} (resolves : y.table.child c = .ok n) (fits : b.put n place = .ok d) :
    y.request (putting h c place) = .ok ((), y.withBuilder h d) ∧ Adds x (y.withBuilder h d) := by
  have found? := found
  rw [← adds.after.sound.builder?_eq] at found?
  have answer : (putting h c place).answer y.options y.table =
      (.ok (), (y.withBuilder h d).table) := by
    cases place with
    | index index =>
        have written : b.write index n = .ok d := fits
        simp only [putting, Request.answer, Table.setValue, Table.modify, resolves, found?, written,
          withBuilder]
    | key key =>
        have bound : b.bind key n = .ok d := fits
        simp only [putting, Request.answer, Table.setKeyValue, Table.modify, resolves, found?, bound,
          withBuilder]
  have performed := request_of_answer answer
  have after : Standing _ :=
    adds.after.perform (c := .request (putting h c place)) performed (Nat.le_refl _)
  refine ⟨performed, adds.before, after, adds.errors_eq, adds.options_eq, adds.last_le,
    adds.supply_le, adds.nodes_eq, fun {k} old => ?_, adds.fresh⟩
  have other : h ≠ k := by
    rintro rfl
    exact absurd new (Nat.not_lt.mpr old)
  exact (Handle.getElem?_insert_of_ne _ _ other).trans (adds.builders_eq old)

/-- To build a builder that was added adds its node, at the next allocation. -/
theorem Adds.build (made : b.finish? y.table.supply = some n)
    (room : y.table.last.raw.toNat + 1 < UInt64.size) :
    ∃ z, y.request (.build h) = .ok (y.table.last.next, z) ∧ Adds x z ∧
      (∀ {k m}, y.node? k = some m → z.node? k = some m) ∧
      z.table.last = y.table.last.next ∧ z.table.supply = y.table.supply.next ∧
      z.node? y.table.last.next = some n := by
  have forward := Handle.le_next_of_room room
  have found? := found
  rw [← adds.after.sound.builder?_eq] at found?
  have answer : (Request.build h).answer y.options y.table = _ :=
    Table.build_of_finish? y.table h found? made
  have performed := request_of_answer answer
  have after : Standing _ := adds.after.perform (c := .request (.build h)) performed forward
  have label : n.label? = some y.table.supply := (Builder.shape_of_finish? made).1
  have other : ∀ {k}, k ≤ x.table.last → h ≠ k := by
    rintro k old rfl
    exact absurd new (Nat.not_lt.mpr old)
  refine ⟨_, performed, ⟨adds.before, after, adds.errors_eq, adds.options_eq,
    Nat.le_trans adds.last_le forward, Nat.le_succ_of_le adds.supply_le, ?_, ?_, ?_⟩,
    adds.after.node?_request performed forward, rfl, rfl, ?_⟩
  · intro k old
    have otherNext := Handle.next_ne_of_le forward (Nat.le_trans old adds.last_le)
    rw [← adds.nodes_eq old, Handle.getElem?_insert_of_ne _ _ (other old),
      Handle.getElem?_insert_of_ne _ _ otherNext]
  · intro k old
    rw [← adds.builders_eq old, Handle.getElem?_insert_of_ne _ _ (other old)]
  · intro k m a beyond named here
    have now : n.label? = some a → x.table.supply.number ≤ a.number := by
      intro here
      rw [label] at here
      cases here
      exact adds.supply_le
    rw [Handle.getElem?_insert] at named
    split at named
    · cases named
      exact now here
    · rw [Handle.getElem?_insert] at named
      split at named
      · cases named
        exact now here
      · exact adds.fresh beyond named here
  · rw [after.node?_eq, Handle.getElem?_insert]
    split
    · rfl
    · exact Handle.getElem?_insert_self ..

end Filling

end Session

end TreeHandles
