import TreeHandles.Builder
import TreeHandles.Proofs.Tree.Subtrees

/-!
# Putting a composite together

The children of a composite stand at places: at an index of an array, or under a key of an object.
A builder that is given the children of a composite one after the other, each at its place, holds
after some of them what has been given and null in the places that are left; and when all have been
given it is finished into a node with these children.

**Results.**
* `put_staged`: the next child can be put in its place.
* `finish?_staged`: what the finished node is.
-/

namespace TreeHandles

open TreeHandles.Tree

/-- Where a child stands in its parent. -/
inductive Place where
  | index (index : Nat)
  | key (key : String)
  deriving DecidableEq, Repr

/-- Puts a node in a place of a builder. -/
def Builder.put (b : Builder) (n : Node) : Place → Except Violation Builder
  | .index index => b.write index n
  | .key key => b.bind key n

namespace Tree

variable {α : Type}

/-- The children of the root with their places, in the order of their insertion. -/
def places : Tree α → List (Place × Tree α)
  | leaf _ => []
  | array _ items => items.zipIdx.map fun p => (.index p.2, p.1)
  | object _ entries => entries.map fun e => (.key e.1, e.2)

/-- The builder that holds the first children of a composite. -/
def staged : Tree α → List Node → Builder
  | leaf _, _ => .built .object
  | array _ items, done => .array (done ++ List.replicate (items.length - done.length) .null)
  | object _ entries, done => .object ((Entries.keys entries).zip done)

variable {t : Tree α} {done : List Node} {n : Node}

theorem map_snd_places (t : Tree α) : t.places.map Prod.snd = t.children := by
  cases t with
  | leaf s => rfl
  | array label items =>
      rw [places, List.map_map]
      exact List.zipIdx_map_fst 0 items
  | object label entries =>
      rw [places, List.map_map]
      rfl

theorem length_places (t : Tree α) : t.places.length = t.children.length := by
  rw [← t.map_snd_places, List.length_map]

theorem staged_nil_object (label : α) (entries : List (String × Tree α)) (hint : Nat) :
    (object label entries).staged [] = .new .object hint := by
  rw [staged, List.zip_nil_right]
  rfl

/-- The next place of an array under construction is the first one that still holds null. -/
theorem set_next (done : List Node) {length : Nat} (less : done.length < length) :
    (done ++ List.replicate (length - done.length) (.null : Node)).set done.length n =
      done ++ [n] ++ List.replicate (length - (done ++ [n]).length) .null := by
  obtain ⟨rest, rfl⟩ := Nat.exists_eq_add_of_lt less
  have left : done.length + rest + 1 - done.length = rest + 1 := by omega
  have leftThen : done.length + rest + 1 - (done ++ [n]).length = rest := by
    rw [List.length_append, List.length_singleton]
    omega
  rw [left, leftThen, List.set_append_right _ _ (Nat.le_refl _), Nat.sub_self,
    List.replicate_succ, List.set_cons_zero, List.append_assoc]
  rfl

/-- The next key of an object under construction is bound after the ones before. -/
theorem insert_next {ks : List String} (distinct : ks.Nodup) {k : String}
    (here : ks[done.length]? = some k) :
    Entries.insert k n (ks.zip done) = ks.zip (done ++ [n]) := by
  induction ks generalizing done with
  | nil => cases here
  | cons j rest ih =>
      obtain ⟨fresh, distinct⟩ := List.nodup_cons.mp distinct
      cases done with
      | nil =>
          cases here
          simp [Entries.insert]
      | cons d done =>
          have later : rest[done.length]? = some k := here
          have other : j ≠ k := by
            rintro rfl
            exact fresh (List.mem_of_getElem? later)
          rw [List.zip_cons_cons, Entries.insert, if_neg other, ih distinct later]
          rfl

/-- **The next child can be put in its place.** -/
theorem put_staged (distinct : t.keys.Nodup) {p : Place × Tree α}
    (here : t.places[done.length]? = some p) :
    (t.staged done).put n p.1 = .ok (t.staged (done ++ [n])) := by
  cases t with
  | leaf s => cases here
  | array label items =>
      simp only [places, List.getElem?_map, List.getElem?_zipIdx, Option.map_map,
        Option.map_eq_some_iff] at here
      obtain ⟨c, hc, rfl⟩ := here
      have less : done.length < items.length := (List.getElem?_eq_some_iff.mp hc).1
      have inside : done.length <
          (done ++ List.replicate (items.length - done.length) (.null : Node)).length := by
        rw [List.length_append, List.length_replicate]
        omega
      show (Builder.array _).write (0 + done.length) n = _
      rw [Nat.zero_add, Builder.write, if_pos inside, set_next done less]
      rfl
  | object label entries =>
      simp only [places, List.getElem?_map, Option.map_eq_some_iff] at here
      obtain ⟨e, he, rfl⟩ := here
      have key : (Entries.keys entries)[done.length]? = some e.1 := by
        rw [Entries.keys, List.getElem?_map, he]
        rfl
      show Except.ok (Builder.object _) = Except.ok (Builder.object _)
      have keys : (Entries.keys entries).Nodup := distinct
      rw [insert_next keys key]

/-- **What is finished when all children are in their places.** -/
theorem finish?_staged (composite : t.isComposite = true)
    (all : done.map contents = t.children.map contents) (supply : Allocation) :
    ∃ n, (t.staged done).finish? supply = some n ∧ n.label? = some supply ∧
      n.children = done ∧ n.contents = t.contents := by
  have length : done.length = t.children.length := by
    simpa using congrArg List.length all
  cases t with
  | leaf s => cases composite
  | array label items =>
      have complete : (array label items).staged done = .array done := by
        have full : items.length - done.length = 0 := by
          rw [length, children, Nat.sub_self]
        rw [staged, full, List.replicate_zero, List.append_nil]
      rw [complete]
      refine ⟨_, rfl, rfl, rfl, ?_⟩
      rw [contents, contents, relabel, relabel, relabelItems_eq_map, relabelItems_eq_map]
      exact congrArg (array ()) all
  | object label entries =>
      refine ⟨_, rfl, rfl, ?_, ?_⟩
      · have aligned : done.length = (Entries.keys entries).length := by
          rw [length, children, List.length_map, Entries.keys, List.length_map]
        exact List.map_snd_zip (Nat.le_of_eq aligned)
      · have values : done.map contents = entries.map fun e => e.2.contents :=
          all.trans List.map_map
        rw [contents, contents, relabel, relabel, relabelEntries_eq_map, relabelEntries_eq_map]
        show object () (((Entries.keys entries).zip done).map (Prod.map id contents)) = _
        rw [← List.zip_map_right, values, Entries.keys, List.zip_map']
        rfl

end Tree

end TreeHandles
