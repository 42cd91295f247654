import TreeHandles.Proofs.Tree.Subtrees

/-!
# Positions in a tree

A position in a tree is the list of the indices of the children on the way down from the root.  A
tree can be labelled by its positions, so that each composite carries a mark of the place where it
stands.

**Results.**
* `contents_located`: labelling a tree by its positions does not change what it says.
* `nodup_labels_located`: two composites of one tree have distinct positions.
* `eq_of_contents_of_labels`: a tree is known by its contents and its labels.
* `relabel_congr`: only the labels inside a tree matter when it is relabelled.
-/

namespace TreeHandles
namespace Tree

variable {α β γ : Type}

section Positions

mutual

/-- The tree with every composite labelled by a mark of its position. -/
def located (mark : List Nat → β) : Tree α → Tree β
  | leaf s => leaf s
  | array _ items => array (mark []) (locatedItems mark 0 items)
  | object _ entries => object (mark []) (locatedEntries mark 0 entries)

/-- The elements from an index on, labelled by marks of their positions. -/
def locatedItems (mark : List Nat → β) (index : Nat) : List (Tree α) → List (Tree β)
  | [] => []
  | t :: rest =>
      t.located (fun path => mark (index :: path)) :: locatedItems mark (index + 1) rest

/-- The entries from an index on, labelled by marks of their positions. -/
def locatedEntries (mark : List Nat → β) (index : Nat) :
    List (String × Tree α) → List (String × Tree β)
  | [] => []
  | (k, t) :: rest =>
      (k, t.located fun path => mark (index :: path)) :: locatedEntries mark (index + 1) rest

end

end Positions

section Relabelling

theorem relabel_relabel (f : α → β) (g : β → γ) (t : Tree α) :
    (t.relabel f).relabel g = t.relabel (g ∘ f) := by
  induction t using induction_children with
  | node t ih =>
      cases t with
      | leaf s => rfl
      | array label items =>
          simp only [relabel, relabelItems_eq_map, List.map_map]
          exact congrArg _ (List.map_congr_left ih)
      | object label entries =>
          simp only [relabel, relabelEntries_eq_map, List.map_map]
          refine congrArg _ (List.map_congr_left fun e he => ?_)
          exact congrArg (e.1, ·) (ih e.2 (List.mem_map_of_mem he))

theorem contents_relabel (f : α → β) (t : Tree α) : (t.relabel f).contents = t.contents :=
  relabel_relabel f _ t

/-- **Only the labels inside matter.** -/
theorem relabel_congr {f g : α → β} {t : Tree α} (agree : ∀ a ∈ t.labels, f a = g a) :
    t.relabel f = t.relabel g := by
  induction t using induction_children with
  | node t ih =>
      rw [labels_eq] at agree
      have root : ∀ a, t.label? = some a → f a = g a := fun a ha =>
        agree a (List.mem_append_left _ (Option.mem_toList.mpr ha))
      have below : ∀ c ∈ t.children, c.relabel f = c.relabel g := fun c hc =>
        ih c hc fun a ha => agree a (List.mem_append_right _ (List.mem_flatMap.mpr ⟨c, hc, ha⟩))
      cases t with
      | leaf s => rfl
      | array label items =>
          simp only [relabel, relabelItems_eq_map]
          rw [root label rfl]
          exact congrArg _ (List.map_congr_left below)
      | object label entries =>
          simp only [relabel, relabelEntries_eq_map]
          rw [root label rfl]
          refine congrArg _ (List.map_congr_left fun e he => ?_)
          exact congrArg (e.1, ·) (below e.2 (List.mem_map_of_mem he))

theorem length_labels_of_contents {s : Tree α} {t : Tree β} (same : s.contents = t.contents) :
    s.labels.length = t.labels.length := by
  have counted := congrArg (fun d => d.labels.length) same
  simpa only [contents, labels_relabel, List.length_map] using counted

mutual

/-- **A tree is known by its contents and its labels.** -/
theorem eq_of_contents_of_labels : ∀ {s t : Tree α}, s.contents = t.contents →
    s.labels = t.labels → s = t
  | leaf s, t, contents, _ => by
      cases t with
      | leaf t =>
          cases contents
          rfl
      | array label items => cases contents
      | object label entries => cases contents
  | array a xs, t, contents, same => by
      cases t with
      | leaf t => cases contents
      | array b ys =>
          rw [labels_eq, labels_eq] at same
          obtain ⟨root, below⟩ := List.cons.inj same
          rw [root, items_eq_of_contents_of_labels (array.inj contents).2 below]
      | object b entries => cases contents
  | object a xs, t, contents, same => by
      cases t with
      | leaf t => cases contents
      | array b items => cases contents
      | object b ys =>
          rw [labels_eq, labels_eq] at same
          obtain ⟨root, below⟩ := List.cons.inj same
          rw [root, entries_eq_of_contents_of_labels (object.inj contents).2 below]

theorem items_eq_of_contents_of_labels : ∀ {xs ys : List (Tree α)},
    relabelItems (fun _ => ()) xs = relabelItems (fun _ => ()) ys →
      xs.flatMap labels = ys.flatMap labels → xs = ys
  | [], [], _, _ => rfl
  | [], _ :: _, contents, _ => nomatch contents
  | _ :: _, [], contents, _ => nomatch contents
  | x :: xs, y :: ys, contents, same => by
      obtain ⟨first, others⟩ := List.cons.inj contents
      obtain ⟨sameFirst, sameOthers⟩ := List.append_inj same (length_labels_of_contents first)
      rw [eq_of_contents_of_labels first sameFirst,
        items_eq_of_contents_of_labels others sameOthers]

theorem entries_eq_of_contents_of_labels : ∀ {xs ys : List (String × Tree α)},
    relabelEntries (fun _ => ()) xs = relabelEntries (fun _ => ()) ys →
      (xs.map Prod.snd).flatMap labels = (ys.map Prod.snd).flatMap labels → xs = ys
  | [], [], _, _ => rfl
  | [], _ :: _, contents, _ => nomatch contents
  | _ :: _, [], contents, _ => nomatch contents
  | (j, x) :: xs, (k, y) :: ys, contents, same => by
      obtain ⟨entry, others⟩ := List.cons.inj contents
      obtain ⟨key, first⟩ := Prod.mk.inj entry
      obtain ⟨sameFirst, sameOthers⟩ := List.append_inj same (length_labels_of_contents first)
      rw [key, eq_of_contents_of_labels first sameFirst,
        entries_eq_of_contents_of_labels others sameOthers]

end

end Relabelling

section Located

mutual

theorem contents_located : ∀ (mark : List Nat → β) (t : Tree α),
    (t.located mark).contents = t.contents
  | _, leaf _ => rfl
  | mark, array _ items => congrArg (array ()) (contents_locatedItems mark 0 items)
  | mark, object _ entries => congrArg (object ()) (contents_locatedEntries mark 0 entries)

theorem contents_locatedItems : ∀ (mark : List Nat → β) (index : Nat) (items : List (Tree α)),
    relabelItems (fun _ => ()) (locatedItems mark index items) =
      relabelItems (fun _ => ()) items
  | _, _, [] => rfl
  | mark, index, t :: rest => by
      have first := contents_located (fun path => mark (index :: path)) t
      have others := contents_locatedItems mark (index + 1) rest
      simp_all [locatedItems, relabelItems, contents]

theorem contents_locatedEntries : ∀ (mark : List Nat → β) (index : Nat)
    (entries : List (String × Tree α)),
    relabelEntries (fun _ => ()) (locatedEntries mark index entries) =
      relabelEntries (fun _ => ()) entries
  | _, _, [] => rfl
  | mark, index, (k, t) :: rest => by
      have first := contents_located (fun path => mark (index :: path)) t
      have others := contents_locatedEntries mark (index + 1) rest
      simp_all [locatedEntries, relabelEntries, contents]

end

theorem locatedItems_eq (mark : List Nat → β) (index : Nat) (items : List (Tree α)) :
    locatedItems mark index items =
      (items.zipIdx index).map fun c => c.1.located fun path => mark (c.2 :: path) := by
  induction items generalizing index with
  | nil => rfl
  | cons t rest ih => rw [locatedItems, ih, List.zipIdx_cons, List.map_cons]

theorem locatedEntries_eq (mark : List Nat → β) (index : Nat) (entries : List (String × Tree α)) :
    (locatedEntries mark index entries).map Prod.snd =
      ((entries.map Prod.snd).zipIdx index).map fun c =>
        c.1.located fun path => mark (c.2 :: path) := by
  induction entries generalizing index with
  | nil => rfl
  | cons e rest ih =>
      rw [locatedEntries, List.map_cons, ih, List.map_cons, List.zipIdx_cons, List.map_cons]

theorem children_located (mark : List Nat → β) (t : Tree α) :
    (t.located mark).children =
      t.children.zipIdx.map fun c => c.1.located fun path => mark (c.2 :: path) := by
  cases t with
  | leaf s => rfl
  | array label items => exact locatedItems_eq mark 0 items
  | object label entries => exact locatedEntries_eq mark 0 entries

theorem label?_located {mark : List Nat → β} {t : Tree α} {b : β}
    (label : (t.located mark).label? = some b) : b = mark [] := by
  cases t with
  | leaf s => cases label
  | array _ items =>
      cases label
      rfl
  | object _ entries =>
      cases label
      rfl

theorem mem_labels_located {mark : List Nat → β} {t : Tree α} {b : β}
    (inside : b ∈ (t.located mark).labels) : ∃ path, b = mark path := by
  induction t using induction_children generalizing mark with
  | node t ih =>
      rw [labels_eq, children_located, List.mem_append, List.mem_flatMap] at inside
      rcases inside with root | ⟨_, child, below⟩
      · exact ⟨[], label?_located (Option.mem_toList.mp root)⟩
      · obtain ⟨c, hc, rfl⟩ := List.mem_map.mp child
        obtain ⟨path, hb⟩ := ih c.1 (List.fst_mem_of_mem_zipIdx hc) below
        exact ⟨c.2 :: path, hb⟩

/-- **Two composites of one tree have distinct positions.** -/
theorem nodup_labels_located {mark : List Nat → β} (distinct : ∀ {p q}, mark p = mark q → p = q)
    (t : Tree α) : (t.located mark).labels.Nodup := by
  induction t using induction_children generalizing mark with
  | node t ih =>
      rw [labels_eq, children_located, List.flatMap_map]
      refine List.nodup_append.mpr ⟨?_, List.pairwise_flatMap.mpr ⟨?_, ?_⟩, ?_⟩
      · cases (t.located mark).label? with
        | none => exact .nil
        | some b => exact List.pairwise_singleton _ _
      · intro c hc
        exact ih c.1 (List.fst_mem_of_mem_zipIdx hc) fun same => (List.cons.inj (distinct same)).2
      · -- What lies below different children differs in the first index already.
        have indices : (t.children.zipIdx.map Prod.snd).Nodup := by
          rw [List.zipIdx_map_snd]
          exact List.nodup_range'
        refine (List.pairwise_map.mp indices).imp fun apart => ?_
        rintro _ first _ second rfl
        obtain ⟨p, hp⟩ := mem_labels_located first
        obtain ⟨q, hq⟩ := mem_labels_located second
        exact apart (List.cons.inj (distinct (hp.symm.trans hq))).1
      · rintro _ root _ below rfl
        obtain ⟨c, _, below⟩ := List.mem_flatMap.mp below
        obtain ⟨path, hp⟩ := mem_labels_located below
        have here := label?_located (Option.mem_toList.mp root)
        cases distinct (here.symm.trans hp)

end Located

end Tree

end TreeHandles
