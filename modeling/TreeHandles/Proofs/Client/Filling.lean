import TreeHandles.Proofs.Client.Construct

/-!
# Filling a builder

While a client fills the builder of a composite, the children that it makes are new things in the
session, and the builder holds those that were put in their places so far.  It does not matter how the
children are made, as long as each is there when its turn comes: what is kept from one child to the
next is left open here.

**Results.**
* `Placed.append` and `Placed.root`: the composites that were made are of allocations of their own.
* `Made.step`: one more child is made.
* `run_parts`: all children are put in their places.
* `run_fill`: then the composite is built.
-/

namespace TreeHandles

open TreeHandles.Tree TreeHandles.Session

namespace Client

section Placing

variable {x y z : Session} {n : Node} {ns : List Node} {t : Tree Plan}

/-- The composites inside some nodes were all made after a session, each at an allocation of its
own, and each has a handle that was issued since. -/
structure Placed (x y : Session) (ns : List Node) : Prop where
  range : ∀ a ∈ ns.flatMap labels,
    x.table.supply.number ≤ a.number ∧ a.number < y.table.supply.number
  nodup : (ns.flatMap labels).Nodup
  named : ∀ s ∈ ns.flatMap subtrees, s.isComposite = true →
    ∃ k, x.table.last < k ∧ y.node? k = some s

namespace Placed

theorem nil (x y : Session) : Placed x y [] :=
  ⟨fun _ ha => absurd ha List.not_mem_nil, .nil, fun _ hs => absurd hs List.not_mem_nil⟩

theorem later (placed : Placed x y ns) (supply : y.table.supply.number ≤ z.table.supply.number)
    (kept : ∀ {k m}, y.node? k = some m → z.node? k = some m) : Placed x z ns := by
  refine ⟨fun a ha => ?_, placed.nodup, fun s hs composite => ?_⟩
  · exact ⟨(placed.range a ha).1, Nat.lt_of_lt_of_le (placed.range a ha).2 supply⟩
  · obtain ⟨k, new, named⟩ := placed.named s hs composite
    exact ⟨k, new, kept named⟩

theorem append (placed : Placed x y ns) (before : Adds x y) (adds : Adds y z)
    (now : Placed y z [n]) : Placed x z (ns ++ [n]) := by
  have old := placed.later adds.supply_le fun found => adds.node? found
  refine ⟨fun a ha => ?_, ?_, fun s hs composite => ?_⟩
  · rw [List.flatMap_append, List.mem_append] at ha
    rcases ha with ha | ha
    · exact old.range a ha
    · exact ⟨Nat.le_trans before.supply_le (now.range a ha).1, (now.range a ha).2⟩
  · rw [List.flatMap_append, List.nodup_append]
    refine ⟨placed.nodup, now.nodup, ?_⟩
    -- The allocations of the new composites begin where those of the earlier ones end.
    rintro a ha b hb rfl
    exact absurd (placed.range a ha).2 (Nat.not_lt.mpr (now.range a hb).1)
  · rw [List.flatMap_append, List.mem_append] at hs
    rcases hs with hs | hs
    · exact old.named s hs composite
    · obtain ⟨k, new, named⟩ := now.named s hs composite
      exact ⟨k, Nat.lt_of_le_of_lt before.last_le new, named⟩

/-- What is placed can become the children of a composite at the next allocation. -/
theorem root (placed : Placed x y ns) (le : x.table.supply.number ≤ y.table.supply.number)
    (label : n.label? = some y.table.supply)
    (children : n.children = ns) (supply : z.table.supply = y.table.supply.next)
    (kept : ∀ {k m}, y.node? k = some m → z.node? k = some m) {k : Handle}
    (new : x.table.last < k) (named : z.node? k = some n) : Placed x z [n] := by
  have old := placed.later (z := z) (by rw [supply]; exact Nat.le_succ _) kept
  have labels : [n].flatMap labels = y.table.supply :: ns.flatMap labels := by
    simp [labels_eq, label, children]
  have subtrees : [n].flatMap subtrees = n :: ns.flatMap subtrees := by
    simp [subtrees_eq, children]
  refine ⟨fun a ha => ?_, ?_, fun s hs composite => ?_⟩
  · rw [labels] at ha
    rcases List.mem_cons.mp ha with rfl | ha
    · exact ⟨le, by rw [supply]; exact Nat.lt_succ_self _⟩
    · exact old.range a ha
  · rw [labels, List.nodup_cons]
    exact ⟨fun ha => absurd (placed.range _ ha).2 (Nat.lt_irrefl _), placed.nodup⟩
  · rw [subtrees] at hs
    rcases List.mem_cons.mp hs with rfl | hs
    · exact ⟨k, new, named⟩
    · exact old.named s hs composite

end Placed

/-- What a client has done that has built a tree and got a handle for it. -/
structure Built (x : Session) (t : Tree Plan) (c : Handle) (y : Session) (n : Node) : Prop where
  adds : Adds x y
  last_eq : y.table.last.raw.toNat = x.table.last.raw.toNat + t.handleCount
  child : y.table.child c = .ok n
  contents_eq : n.contents = t.contents
  placed : Placed x y [n]

/-- A client builds a tree from every session with some options that has numbers for it. -/
def Builds (options : Options) (t : Tree Plan) : Prop :=
  ∀ x : Session, x.Standing → x.options = options →
    x.table.last.raw.toNat + t.handleCount < UInt64.size →
    ∃ c y n, construct t x = .ok (c, y) ∧ Built x t c y n

/-- The first children of a composite were made since a session; with some numbers to spare, the
numbers suffice for the others. -/
structure Made (x : Session) (t : Tree Plan) (spare : Nat) (y : Session) (done : List Node) :
    Prop where
  placed : Placed x y done
  contents_eq : done.map contents = (t.children.take done.length).map contents
  budget : y.table.last.raw.toNat + spare +
    handleCounts (t.children.drop done.length) =
      x.table.last.raw.toNat + t.handleCount

namespace Made

variable {spare : Nat} {done : List Node} {c : Tree Plan}

/-- The next child can be made, if it can be built. -/
theorem step (made : Made x t spare y done) (adds : Adds x y) (next : t.children[done.length]? = some c)
    (builds : Builds x.options c)
    (room : x.table.last.raw.toNat + t.handleCount < UInt64.size) :
    ∃ h z n, construct c y = .ok (h, z) ∧ Adds y z ∧ z.table.child h = .ok n ∧
      Made x t spare z (done ++ [n]) := by
  obtain ⟨inside, here⟩ := List.getElem?_eq_some_iff.mp next
  have rest : t.children.drop done.length = c :: t.children.drop (done.length + 1) := by
    rw [List.drop_eq_getElem_cons inside, here]
  have budget := made.budget
  rw [rest, handleCounts_cons] at budget
  obtain ⟨h, z, n, run, built⟩ := builds y adds.after adds.options_eq (by omega)
  refine ⟨h, z, n, run, built.adds, built.child, ?_, ?_, ?_⟩
  · exact made.placed.append adds built.adds built.placed
  · rw [List.map_append, made.contents_eq, List.length_append, List.length_singleton,
      List.take_add_one, next, List.map_append]
    simp [built.contents_eq]
  · rw [List.length_append, List.length_singleton, built.last_eq]
    omega

end Made

end Placing

section Filling

variable {x y : Session} {h : Handle} {t : Tree Plan} {I : Session → List Node → Prop}
  {parts rest : List (Place × Client Handle)} {done : List Node}

/-- A builder that was opened since a session holds the first children of a composite. -/
structure Filling (x : Session) (h : Handle) (t : Tree Plan) (y : Session) (done : List Node) :
    Prop where
  adds : Adds x y
  new : x.table.last < h
  found : y.table.builders[h]? = some (t.staged done)

/-- The next child is put in its place. -/
theorem Filling.put {c : Handle} {n : Node} {p : Place × Tree Plan} (filling : Filling x h t y done)
    (distinct : t.keys.Nodup) (here : t.places[done.length]? = some p)
    (resolves : y.table.child c = .ok n) :
    ask (.request (putting h c p.1)) y = .ok ((), y.withBuilder h (t.staged (done ++ [n]))) ∧
      Filling x h t (y.withBuilder h (t.staged (done ++ [n]))) (done ++ [n]) := by
  obtain ⟨performed, adds⟩ :=
    filling.adds.put filling.new filling.found resolves (put_staged distinct here)
  exact ⟨ask_of_ok (c := .request (putting h c p.1)) performed, adds, filling.new,
    Handle.getElem?_insert_self ..⟩

/-- If each part gives the next child when its turn comes, all children are put in their places. -/
theorem run_parts (distinct : t.keys.Nodup) (places : parts.map Prod.fst = t.places.map Prod.fst)
    (kept : ∀ {y b done}, I y done → I (y.withBuilder h b) done)
    (step : ∀ {p y done}, parts[done.length]? = some p → Adds x y → I y done →
      ∃ c z n, p.2 y = .ok (c, z) ∧ Adds y z ∧ z.table.child c = .ok n ∧ I z (done ++ [n]))
    (split : parts.drop done.length = rest) (filling : Filling x h t y done) (inv : I y done) :
    ∃ z all,
      (rest.forM fun p => do
        let c ← p.2
        ask (.request (putting h c p.1))) y = .ok ((), z) ∧
      Filling x h t z all ∧ I z all ∧ all.length = done.length + rest.length := by
  induction rest generalizing y done with
  | nil => exact ⟨y, done, rfl, filling, inv, rfl⟩
  | cons p rest ih =>
      have here : parts[done.length]? = some p := by
        rw [← List.head?_drop, split, List.head?_cons]
      have later : parts.drop (done.length + 1) = rest := by
        rw [← List.tail_drop, split, List.tail_cons]
      obtain ⟨q, hq, place⟩ : ∃ q, t.places[done.length]? = some q ∧ q.1 = p.1 := by
        have same := congrArg (·[done.length]?) places
        simp only [List.getElem?_map, here, Option.map_some] at same
        exact Option.map_eq_some_iff.mp same.symm
      obtain ⟨c, z, n, run, adds, resolves, inv⟩ := step here filling.adds inv
      have filling : Filling x h t z done :=
        ⟨filling.adds.trans adds, filling.new, adds.builder filling.found⟩
      obtain ⟨put, filling⟩ := filling.put distinct hq resolves
      have length : (done ++ [n]).length = done.length + 1 := by
        rw [List.length_append, List.length_singleton]
      obtain ⟨w, all, others, filling, inv, count⟩ :=
        ih (length.symm ▸ later) filling (kept inv)
      refine ⟨w, all, ?_, filling, inv, ?_⟩
      · rw [place] at put
        have first : (p.2 >>= fun c => ask (.request (putting h c p.1))) y = .ok ((), _) :=
          (run_bind_of_ok run _).trans put
        exact (run_bind_of_ok first _).trans others
      · rw [count, length, List.length_cons]
        omega

/-- **A composite is built from its children**, in whatever way they are made, if each is there when
its turn comes. -/
theorem run_fill {start : Client Handle} {y₀ : Session} (composite : t.isComposite = true)
    (distinct : t.keys.Nodup) (places : parts.map Prod.fst = t.places.map Prod.fst)
    (kept : ∀ {y b done}, I y done → I (y.withBuilder h b) done)
    (step : ∀ {p y done}, parts[done.length]? = some p → Adds x y → I y done →
      ∃ c z n, p.2 y = .ok (c, z) ∧ Adds y z ∧ z.table.child c = .ok n ∧ I z (done ++ [n]))
    (final : ∀ {z all}, all.length = t.children.length → I z all →
      all.map contents = t.children.map contents ∧ Placed x z all ∧
        z.table.last.raw.toNat + 1 = x.table.last.raw.toNat + t.handleCount)
    (room : x.table.last.raw.toNat + t.handleCount < UInt64.size)
    (started : start y = .ok (h, y₀)) (filling : Filling x h t y₀ []) (inv : I y₀ []) :
    ∃ r w n, fill start parts y = .ok (r, w) ∧ Built x t r w n := by
  obtain ⟨z, all, run, filling, inv, count⟩ :=
    run_parts distinct places kept step (show parts.drop ([] : List Node).length = parts from rfl)
      filling inv
  have length : all.length = t.children.length := by
    have same := congrArg List.length places
    rw [List.length_map, List.length_map, length_places] at same
    rw [count, ← same, List.length_nil, Nat.zero_add]
  obtain ⟨same, placed, last⟩ := final length inv
  obtain ⟨n, made, label, children, whole⟩ := finish?_staged composite same z.table.supply
  have roomBuild : z.table.last.raw.toNat + 1 < UInt64.size := by omega
  obtain ⟨w, performed, adds, keptNodes, lastThen, supply, named⟩ :=
    filling.adds.build filling.new filling.found made roomBuild
  have new : x.table.last < z.table.last.next :=
    Nat.lt_of_le_of_lt filling.adds.last_le (Handle.lt_next_of_le (Handle.le_next_of_room roomBuild))
  have built := ask_of_ok (c := .request (.build h)) performed
  refine ⟨z.table.last.next, w, n, ?_, adds, ?_, ?_, whole, ?_⟩
  · exact (run_bind_of_ok started _).trans ((run_bind_of_ok run _).trans built)
  · rw [lastThen, Handle.toNat_next_of_le (Handle.le_next_of_room roomBuild), last]
  · exact child_of_node? named
  · exact placed.root filling.adds.supply_le label children supply keptNodes new named

end Filling

end Client

end TreeHandles
