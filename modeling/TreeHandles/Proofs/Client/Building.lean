import TreeHandles.Proofs.Client.Filling
import TreeHandles.Proofs.Session.Identity

/-!
# Building whole trees

A caller who has a tree in mind can build it through handles, whichever way the parts are made.  While
a child is built, the builders of its parents stay open and keep what they were given, and the handles
of the children that were made before still name them.

**Results.**
* `builds_interleaved` and `builds_childrenFirst`: a composite is built in either way, if its children
  can be built.
* `builds_tree`: so every tree is built.
* `construct_any`: what the client gets, and what it leaves alone.
-/

namespace TreeHandles

open TreeHandles.Tree TreeHandles.Session

namespace Client

section Ways

variable {x y : Session} {t : Tree Plan} {options : Options}

theorem Made.withBuilder {spare : Nat} {h : Handle} {b : Builder} {done : List Node}
    (made : Made x t spare y done) : Made x t spare (y.withBuilder h b) done :=
  ⟨made.placed.later (Nat.le_refl _) id, made.contents_eq, made.budget⟩

/-- The builder of a composite can be opened, if no array is too long. -/
theorem run_opening (composite : t.isComposite = true)
    (short : ∀ plan items, t = array plan items → items.length ≤ x.options.maxArrayLength.toNat)
    (adds : Adds x y) (room : y.table.last.raw.toNat + 1 < UInt64.size) :
    ∃ mode size,
      opening t y = .ok (y.table.last.next, { y with table := (y.table.openBuilder mode size).2 }) ∧
      Filling x y.table.last.next t { y with table := (y.table.openBuilder mode size).2 } [] := by
  have new : x.table.last < y.table.last.next :=
    Nat.lt_of_le_of_lt adds.last_le (Handle.lt_next_of_le (Handle.le_next_of_room room))
  cases t with
  | leaf s => cases composite
  | array plan items =>
      have fits : ¬ y.options.maxArrayLength.toNat < items.length := by
        rw [adds.options_eq]
        exact Nat.not_lt.mpr (short plan items rfl)
      have answer : (Request.newArray items.length).answer y.options y.table =
          Table.done (y.table.openBuilder .array items.length) := if_neg fits
      obtain ⟨performed, opened⟩ := adds_builder adds.after room answer
      exact ⟨_, _, ask_of_ok (c := .request (.newArray items.length)) performed,
        adds.trans opened, new, Handle.getElem?_insert_self ..⟩
  | object plan entries =>
      have answer : (Request.newObject plan.hint).answer y.options y.table =
          Table.done (y.table.openBuilder .object
            (min plan.hint y.options.maxCapacityHint.toNat)) := rfl
      obtain ⟨performed, opened⟩ := adds_builder adds.after room answer
      refine ⟨_, _, ask_of_ok (c := .request (.newObject plan.hint)) performed,
        adds.trans opened, new, ?_⟩
      rw [staged_nil_object plan entries (min plan.hint y.options.maxCapacityHint.toNat)]
      exact Handle.getElem?_insert_self ..

variable (composite : t.isComposite = true) (distinct : t.keys.Nodup)
  (short : ∀ plan items, t = array plan items → items.length ≤ x.options.maxArrayLength.toNat)
  (below : ∀ c ∈ t.children, Builds x.options c) (standing : x.Standing)
  (room : x.table.last.raw.toNat + t.handleCount < UInt64.size)

theorem getElem?_children {α : Type} {t : Tree α} {p : Place × Tree α} {index : Nat}
    (here : t.places[index]? = some p) : t.children[index]? = some p.2 := by
  rw [← map_snd_places, List.getElem?_map, here]
  rfl

section Interleaved

include composite distinct short below standing room

/-- A composite is built with each child made just before it is put in its place. -/
theorem builds_interleaved :
    ∃ r w n, fill (opening t) (constructing t.places) x = .ok (r, w) ∧ Built x t r w n := by
  have count := handleCount_composite composite
  obtain ⟨mode, size, started, filling⟩ :=
    run_opening composite short (.refl standing) (by omega)
  refine run_fill (I := Made x t 1) composite distinct ?_ Made.withBuilder ?_ ?_ room started
    filling ?_
  · rw [constructing, List.map_map]
    rfl
  · intro p y done here adds made
    rw [constructing, List.getElem?_map] at here
    obtain ⟨q, hq, rfl⟩ := Option.map_eq_some_iff.mp here
    have next := getElem?_children hq
    exact made.step adds next (below _ (List.mem_of_getElem? next)) room
  · intro z all length made
    refine ⟨?_, made.placed, ?_⟩
    · rw [made.contents_eq, length, List.take_length]
    · have budget := made.budget
      rwa [length, List.drop_length] at budget
  · refine ⟨.nil _ _, rfl, ?_⟩
    show x.table.last.next.raw.toNat + 1 + handleCounts t.children = _
    rw [Handle.toNat_next_of_le (Handle.le_next_of_room (by omega)), count]
    omega

end Interleaved

section ChildrenFirst

include below room

/-- The children of a composite are made, and have handles when all are made. -/
theorem run_making {y : Session} {done : List Node} {rest : List (Place × Tree Plan)}
    (split : t.places.drop done.length = rest) (adds : Adds x y) (made : Made x t 2 y done) :
    ∃ z handles more,
      makeAll (constructing rest) y = .ok (handles, z) ∧
      Adds y z ∧ Made x t 2 z (done ++ more) ∧ handles.map Prod.fst = rest.map Prod.fst ∧
      handles.map (fun m => z.table.child m.2) = more.map .ok := by
  induction rest generalizing y done with
  | nil => exact ⟨y, [], [], rfl, .refl adds.after, by rwa [List.append_nil], rfl, rfl⟩
  | cons p rest ih =>
      have here : t.places[done.length]? = some p := by
        rw [← List.head?_drop, split, List.head?_cons]
      have later : t.places.drop (done.length + 1) = rest := by
        rw [← List.tail_drop, split, List.tail_cons]
      have next := getElem?_children here
      obtain ⟨h, z, n, run, addsOne, resolves, madeOne⟩ :=
        made.step adds next (below _ (List.mem_of_getElem? next)) room
      have length : (done ++ [n]).length = done.length + 1 := by
        rw [List.length_append, List.length_singleton]
      obtain ⟨w, handles, more, runRest, addsRest, madeRest, places, resolve⟩ :=
        ih (length.symm ▸ later) (adds.trans addsOne) madeOne
      refine ⟨w, (p.1, h) :: handles, n :: more, ?_, addsOne.trans addsRest, ?_, ?_, ?_⟩
      · have first : (construct p.2 >>= fun c => (pure (p.1, c) : Client _)) y = .ok ((p.1, h), z) :=
          run_bind_of_ok run _
        rw [constructing, List.map_cons, makeAll, List.mapM_cons]
        exact (run_bind_of_ok first _).trans ((run_bind_of_ok runRest _).trans rfl)
      · rwa [List.append_assoc] at madeRest
      · rw [List.map_cons, places, List.map_cons]
      · rw [List.map_cons, List.map_cons, resolve, addsRest.child resolves]

include composite distinct short standing

/-- A composite is built from children that were all made before its builder is opened. -/
theorem builds_childrenFirst :
    ∃ r w n, assemble true (opening t) (constructing t.places) x = .ok (r, w) ∧
      Built x t r w n := by
  have count := handleCount_composite composite
  have none : Made x t 2 x [] := by
    refine ⟨.nil _ _, rfl, ?_⟩
    show x.table.last.raw.toNat + 2 + handleCounts t.children = _
    omega
  obtain ⟨y, handles, all, run, adds, made, places, resolve⟩ :=
    run_making below room (show t.places.drop ([] : List Node).length = t.places from rfl)
      (.refl standing) none
  have length : all.length = t.children.length := by
    have same := congrArg List.length places
    have sameThen := congrArg List.length resolve
    rw [List.length_map, List.length_map] at same sameThen
    rw [← sameThen, same, length_places]
  have budget := made.budget
  have nothing : handleCounts ([] : List (Tree Plan)) = 0 := rfl
  rw [List.nil_append, length, List.drop_length, nothing] at budget
  obtain ⟨mode, size, started, filling⟩ := run_opening composite short adds (by omega)
  have filled : ∃ r w n, fill (opening t) (handles.map fun m => (m.1, pure m.2)) y = .ok (r, w) ∧
      Built x t r w n := by
    refine run_fill (I := fun z done => z.table.nodes = y.table.nodes ∧
      z.table.last = y.table.last.next ∧ z.table.supply = y.table.supply ∧
      done = all.take done.length) composite distinct ?_ id ?_ ?_ room started filling
      ⟨rfl, rfl, rfl, rfl⟩
    · rw [List.map_map, ← places]
      rfl
    · rintro p z done here adds ⟨nodes, last, supply, prior⟩
      rw [List.getElem?_map] at here
      obtain ⟨m, hm, rfl⟩ := Option.map_eq_some_iff.mp here
      have at_m := congrArg (·[done.length]?) resolve
      simp only [List.getElem?_map, hm, Option.map_some] at at_m
      obtain ⟨n, hn, resolves⟩ := Option.map_eq_some_iff.mp at_m.symm
      refine ⟨m.2, z, n, rfl, .refl adds.after, ?_, nodes, last, supply, ?_⟩
      · rw [resolves]
        simp only [Table.child, Table.node?, nodes]
      · rw [List.length_append, List.length_singleton, List.take_add_one, hn, ← prior]
        rfl
    · rintro z done count ⟨nodes, last, supply, prior⟩
      rw [count, ← length, List.take_length] at prior
      subst prior
      refine ⟨?_, ?_, ?_⟩
      · have same := made.contents_eq
        rwa [List.nil_append, length, List.take_length] at same
      · refine made.placed.later (Nat.le_of_eq (congrArg Allocation.number supply.symm)) ?_
        intro k m named
        simpa only [Session.node?, Table.node?, nodes] using named
      · have one : z.table.last.raw.toNat = y.table.last.raw.toNat + 1 := by
          rw [last, Handle.toNat_next_of_le (Handle.le_next_of_room (by omega))]
        omega
  obtain ⟨r, w, n, done, built⟩ := filled
  exact ⟨r, w, n, (run_bind_of_ok run _).trans done, built⟩

end ChildrenFirst

end Ways

section Whole

variable {x y : Session} {options : Options}

theorem placed_leaf (x y : Session) (s : Scalar) : Placed x y [leaf s] := by
  refine ⟨fun a ha => absurd ha List.not_mem_nil, .nil, fun t ht composite => ?_⟩
  have leaf : t = leaf s := by simpa [subtrees] using ht
  subst leaf
  cases composite

theorem newScalar_eq {s : Scalar} (here : (leaf s : Node).isNull = false) :
    ∃ r : Request String .handle, newScalar s = ask (.request r) ∧
      ∀ options t, r.answer options t = Table.done (t.register (.leaf s)) := by
  cases s with
  | null => cases here
  | _ => exact ⟨_, rfl, fun _ _ => rfl⟩

theorem builds_leaf (options : Options) (s : Scalar) : Builds options (leaf s) := by
  intro x standing _ room
  cases here : (leaf s : Node).isNull with
  | true =>
      have null : s = .null := by
        cases s with
        | null => rfl
        | _ => cases here
      subst null
      exact ⟨.null, x, .null, rfl, .refl standing, rfl, rfl, rfl, placed_leaf x x .null⟩
  | false =>
      have one : (leaf s : Tree Plan).handleCount = 1 := by
        cases s with
        | null => cases here
        | _ => rfl
      rw [one] at room
      obtain ⟨r, same, answer⟩ := newScalar_eq here
      obtain ⟨y, performed, adds, last, named⟩ := adds_scalar standing room here (answer _ _)
      refine ⟨x.table.last.next, y, .leaf s, ?_, adds, ?_, child_of_node? named, rfl,
        placed_leaf x y s⟩
      · rw [construct, same]
        exact ask_of_ok (c := .request r) performed
      · rw [last, one, Handle.toNat_next_of_le (Handle.le_next_of_room room)]

/-- **Every tree is built**, if its arrays are short enough and no key stands twice in an object. -/
theorem builds_tree {t : Tree Plan} (distinct : t.DistinctKeys)
    (short : ∀ s ∈ t.subtrees, s.kind = .array → s.size ≤ options.maxArrayLength.toNat) :
    Builds options t := by
  induction t using induction_children with
  | node t ih =>
      cases label : t.label? with
      | none =>
          cases t with
          | leaf s => exact builds_leaf options s
          | array plan items => cases label
          | object plan entries => cases label
      | some plan =>
          rintro x standing rfl room
          have composite : t.isComposite = true := by rw [Tree.isComposite, label]; rfl
          have below : ∀ c ∈ t.children, Builds x.options c := fun c hc =>
            ih c hc (distinct.child hc) fun s hs => short s (subtrees_child_subset hc hs)
          have shortRoot : ∀ plan items, t = array plan items →
              items.length ≤ x.options.maxArrayLength.toNat := by
            rintro plan items rfl
            exact short _ (self_mem_subtrees _) rfl
          rw [construct_composite label]
          cases plan.childrenFirst with
          | true => exact builds_childrenFirst composite distinct.root shortRoot below standing room
          | false => exact builds_interleaved composite distinct.root shortRoot below standing room

end Whole

/-- **Any tree can be built.**  In every session that is reached, a client that makes the children of
each composite in either way builds any tree in which no array is longer than the options allow and,
as in every object, no key stands twice, if there are numbers left: one for each scalar and two for
each composite.  Null is the null handle.  Otherwise the client gets a handle of a node with the contents
of the tree, in which each composite is of an allocation of its own that occurs in no node that had a
handle before.  No error is recorded, all earlier handles name the nodes and the builders that they
named, and no composite that has a new handle is shown to be the same as anything under an earlier
handle. -/
theorem construct_any (options : Options) (calls : List AnyCall) (x : Session)
    (hx : (Session.new options).run calls = .ok x) (t : Tree Plan) (distinct : t.DistinctKeys)
    (short : ∀ s ∈ t.subtrees, s.kind = .array → s.size ≤ options.maxArrayLength.toNat)
    (few : allocations (.new options) calls + t.handleCount < UInt64.size - 1) :
    ∃ h y, construct t x = .ok (h, y) ∧ (h = .null ↔ t.isNull = true) ∧
      (h ≠ .null → ∃ n, y.node? h = some n ∧ n.contents = t.contents ∧ n.labels.Nodup ∧
        (∀ a ∈ n.labels, ∀ k m, x.node? k = some m → a ∉ m.labels) ∧
        ∀ s ∈ n.subtrees, s.isComposite = true → ∃ k, x.table.last < k ∧ y.node? k = some s) ∧
      y.errors = x.errors ∧
      (∀ k, k ≤ x.table.last →
        y.node? k = x.node? k ∧ y.table.builder? k = x.table.builder? k) ∧
      y.table.last.raw.toNat = x.table.last.raw.toNat + t.handleCount ∧
      ∀ k s, x.table.last < k → y.node? k = some s → s.isComposite = true →
        ∀ old, old ≤ x.table.last → ¬ y.SameAs k old := by
  obtain ⟨standing, counted⟩ := Standing.of_run hx (by omega)
  have sameOptions : x.options = options := (table_run hx).2.1
  obtain ⟨memory, stored⟩ := standing.stored
  have older : ∀ {k m a}, x.node? k = some m → a ∈ m.labels → a.number < x.table.supply.number :=
    fun named ha => stored.counted ▸ (stored.node? named).number_lt ha
  obtain ⟨h, y, n, done, built⟩ :=
    builds_tree distinct short x standing sameOptions (by omega)
  have adds := built.adds
  have nullity : n.isNull = t.isNull := by
    have same := congrArg isNull built.contents_eq
    rwa [contents, contents, isNull_relabel, isNull_relabel] at same
  refine ⟨h, y, done, ?_, ?_, adds.errors_eq, fun k old => ⟨adds.node?_eq old, ?_⟩, built.last_eq, ?_⟩
  · constructor
    · rintro rfl
      cases built.child
      exact nullity.symm.trans rfl
    · intro null
      by_cases issued : h = .null
      · exact issued
      · have present := adds.after.isNull_eq_false (node?_of_child built.child issued)
        rw [nullity, null] at present
        cases present
  · intro issued
    refine ⟨n, node?_of_child built.child issued, built.contents_eq, ?_, ?_, ?_⟩
    · simpa using built.placed.nodup
    · intro a ha k m named hm
      have new := (built.placed.range a (by simpa using ha)).1
      exact absurd (older named hm) (Nat.not_lt.mpr new)
    · intro s hs composite
      exact built.placed.named s (by simpa using hs) composite
  · rw [adds.after.sound.builder?_eq, adds.before.sound.builder?_eq, adds.builders_eq old]
  · intro k s new named composite old issued same
    obtain ⟨a, label⟩ := Option.isSome_iff_exists.mp composite
    rw [sameAs_iff adds.after, named, adds.node?_eq issued] at same
    have inside : a ∈ s.labels := mem_labels_iff.mpr ⟨s, s.self_mem_subtrees, label⟩
    have fresh := adds.fresh new (Table.getElem?_of_node? named) label
    exact absurd (older same.symm inside) (Nat.not_lt.mpr fresh)

/-- An object that is filled with what was made before, among it an array that was filled while its
elements were made, all while another builder is open. -/
theorem construct_any_in_both_ways :
    let t : Tree Plan :=
      .object ⟨true, 9⟩ [("b", .array ⟨false, 0⟩ [.null, .leaf (.int 7)]), ("a", .null)]
    ∃ x h y n, (Session.new {}).run [(Call.request (.newArray 1)).toAny] = .ok x ∧
      construct t x = .ok (h, y) ∧ y.node? h = some n ∧
      n.contents = .object () [("b", .array () [.null, .leaf (.int 7)]), ("a", .null)] ∧
      n.labels.Nodup ∧ y.table.builder? ⟨1⟩ = x.table.builder? ⟨1⟩ := by
  intro t
  obtain ⟨x, hx⟩ : ∃ x, (Session.new {}).run [(Call.request (.newArray 1)).toAny] = .ok x :=
    ⟨_, rfl⟩
  have last : x.table.last = ⟨1⟩ := by
    cases hx
    rfl
  have distinct : t.DistinctKeys := by
    show ∀ s ∈ t.subtrees, s.keys.Nodup
    decide
  obtain ⟨h, y, done, nullity, made, _, kept, _⟩ :=
    construct_any {} _ x hx t distinct (by decide) (by decide)
  obtain ⟨n, named, contents, nodup, _⟩ := made fun null => nomatch nullity.mp null
  exact ⟨x, h, y, n, hx, done, named, contents, nodup, (kept ⟨1⟩ (last ▸ Nat.le_refl _)).2⟩

end Client

end TreeHandles
