import TreeHandles.Proofs.Origin.Ledger
import TreeHandles.Proofs.Table.Memory

/-!
# A ledger shadows a table

Every allocation has one origin, and no two have the same one.  If each allocation in a table is
replaced by its origin, then what is left is the ledger of the calls that led to the table: its
nodes are the nodes of the table relabelled, and its drafts are the open builders.  Whatever is read
from the one is what is read from the other, and what is written into both leaves them so.

**Results.**
* `relabel_append`: the origins of later allocations do not matter.
* `relabel_ofDocument`: the origins of a document are its positions.
* `draft?_put` and `relabel_finish?`: a builder and its draft take the same writes and become the same
  composite.
* `Shadows.extend`: new allocations change nothing that is there.
* `Shadows.put`: what is written into a table is written into its ledger.
-/

namespace TreeHandles

open TreeHandles.Tree

/-- The origin of an allocation, where the origins of all allocations are listed in order. -/
def originOf (os : List Origin) (a : Allocation) : Origin := os[a.number]?.getD default

/-- A builder as a ledger shows it, if each allocation is replaced by its origin; a built one is not
shown. -/
def Builder.draft? (os : List Origin) : Builder → Option Draft
  | object entries => some (.object (entries.map fun e => (e.1, e.2.relabel (originOf os))))
  | array slots => some (.array (slots.map (relabel (originOf os))))
  | built _ => none

variable {os more : List Origin} {memory : List Node} {call : Nat}

section Origins

theorem originOf_append {a : Allocation} (old : a.number < os.length) :
    originOf (os ++ more) a = originOf os a := by
  rw [originOf, originOf, List.getElem?_append_left old]

theorem originOf_next {a : Allocation} {o : Origin} (counted : os.length = a.number) :
    originOf (os ++ [o]) a = o := by
  rw [originOf, ← counted, List.getElem?_concat_length]
  rfl

/-- Origins of later allocations do not matter for what is in memory. -/
theorem relabel_append {n : Node} (held : Node.Held memory n) (counted : memory.length = os.length)
    (more : List Origin) : n.relabel (originOf (os ++ more)) = n.relabel (originOf os) :=
  relabel_congr fun _ ha => originOf_append (counted ▸ held.number_lt ha)

theorem Builder.draft?_append {b : Builder} (held : b.Held memory)
    (counted : memory.length = os.length) (more : List Origin) :
    b.draft? (os ++ more) = b.draft? os := by
  have parts : ∀ n ∈ b.parts, n.relabel (originOf (os ++ more)) = n.relabel (originOf os) :=
    fun n hn => relabel_append (held.part n hn) counted more
  cases b with
  | built mode => rfl
  | array slots => exact congrArg (some ∘ Draft.array) (List.map_congr_left parts)
  | object entries =>
      refine congrArg (some ∘ Draft.object) (List.map_congr_left fun e he => ?_)
      exact congrArg (e.1, ·) (parts e.2 (List.mem_map_of_mem he))

end Origins

section Drafts

theorem draft?_new (os : List Origin) (mode : BuilderMode) (size : Nat) :
    (Builder.new mode size).draft? os = some (.new mode size) := by
  cases mode with
  | object => rfl
  | array =>
      rw [Builder.new, Builder.draft?, List.map_replicate]
      rfl

/-- **What is written into a builder is written into its draft.** -/
theorem draft?_put (os : List Origin) (b : Builder) (n : Node) (place : Place) :
    (b.draft? os).bind (·.put (n.relabel (originOf os)) place) =
      (b.put n place).toOption.bind (Builder.draft? os) := by
  cases b with
  | built mode => cases place <;> rfl
  | object entries =>
      cases place with
      | index index => rfl
      | key key =>
          have commutes := Entries.insert_mapValues (relabel (originOf os)) key n entries
          simp only [Entries.mapValues] at commutes
          simp [Builder.draft?, Builder.put, Builder.bind, Draft.put, Except.toOption, commutes]
  | array slots =>
      cases place with
      | key key => rfl
      | index index =>
          by_cases inside : index < slots.length <;>
            simp [Builder.draft?, Builder.put, Builder.write, Draft.put, Except.toOption, inside]

theorem exists_draft?_of_put {b c : Builder} {n : Node} {place : Place}
    (written : b.put n place = .ok c) (os : List Origin) : ∃ d, c.draft? os = some d := by
  cases place with
  | index index =>
      obtain ⟨slots, _, _, rfl⟩ := Builder.exists_of_write written
      exact ⟨_, rfl⟩
  | key key =>
      obtain ⟨entries, _, rfl⟩ := Builder.exists_of_bind written
      exact ⟨_, rfl⟩

/-- **What a builder is built into is what its draft becomes.** -/
theorem relabel_finish? {b : Builder} {supply : Allocation} {n : Node} {o : Origin}
    (made : b.finish? supply = some n) (now : originOf os supply = o) :
    ∃ d, b.draft? os = some d ∧ n.relabel (originOf os) = d.finish o := by
  cases b with
  | built mode => cases made
  | object entries =>
      cases made
      refine ⟨_, rfl, ?_⟩
      rw [relabel, now, relabelEntries_eq_map, Draft.finish]
  | array slots =>
      cases made
      refine ⟨_, rfl, ?_⟩
      rw [relabel, now, relabelItems_eq_map, Draft.finish]

end Drafts

section Documents

theorem map_originOf_block {supply : Allocation} (counted : os.length = supply.number) :
    (supply.block more.length).map (originOf (os ++ more)) = more := by
  apply List.ext_getElem?
  intro i
  simp only [Allocation.block, List.getElem?_map, ← counted]
  by_cases inside : i < more.length
  · simp [inside, originOf]
  · simp [inside]

/-- **The origins of a document in memory are its positions.** -/
theorem relabel_ofDocument (d : Document) (mark : List Nat → Origin) {supply : Allocation}
    (counted : os.length = supply.number) :
    (Node.ofDocument d supply).1.relabel (originOf (os ++ (d.located mark).labels)) =
        d.located mark ∧
      (os ++ (d.located mark).labels).length = (Node.ofDocument d supply).2.number := by
  obtain ⟨k, taken, left⟩ := Node.labels_ofDocument d supply
  have written := Node.contents_ofDocument d supply
  have plain : d.contents = d :=
    calc d.contents = (Node.ofDocument d supply).1.contents.contents := by rw [written]
      _ = (Node.ofDocument d supply).1.contents := contents_relabel _ _
      _ = d := written
  have same : (Node.ofDocument d supply).1.contents = (d.located mark).contents := by
    rw [contents_located, written, plain]
  have length : k = (d.located mark).labels.length := by
    have counts := length_labels_of_contents same
    rwa [taken, Allocation.block, List.length_map, List.length_range'] at counts
  subst length
  constructor
  · refine eq_of_contents_of_labels ?_ ?_
    · rw [contents_relabel, same]
    · rw [labels_relabel, taken, map_originOf_block counted]
  · rw [List.length_append, counted, left]
    rfl

end Documents

/-- A ledger is a table with every allocation replaced by its origin.  All origins listed are from
calls before the one of the given number. -/
structure Shadows (os : List Origin) (call : Nat) (t : Table) (g : Ledger) : Prop where
  counted : os.length = t.supply.number
  distinct : os.Nodup
  early : ∀ o ∈ os, o.call < call
  nodes : ∀ h : Handle, g.nodes[h]? = t.nodes[h]?.map (relabel (originOf os))
  drafts : ∀ h : Handle, g.drafts[h]? = t.builders[h]?.bind (Builder.draft? os)

namespace Shadows

variable {t u : Table} {g : Ledger} {base h c : Handle} {n : Node} {place : Place}

theorem empty : Shadows [] 0 {} {} := by
  refine ⟨rfl, .nil, fun _ ho => absurd ho List.not_mem_nil, fun h => ?_, fun h => ?_⟩
  · simp
  · simp

section Parts

variable (shadows : Shadows os call t g)

include shadows

theorem next : Shadows os (call + 1) t g :=
  ⟨shadows.counted, shadows.distinct, fun o ho => Nat.lt_succ_of_lt (shadows.early o ho),
    shadows.nodes, shadows.drafts⟩

/-- New allocations, with origins in the present call, change nothing that is there. -/
theorem extend (stored : Table.Stored memory t) (distinct : more.Nodup)
    (now : ∀ o ∈ more, o.call = call) {supply : Allocation}
    (counted : (os ++ more).length = supply.number) :
    Shadows (os ++ more) (call + 1) { t with supply } g := by
  have aligned : memory.length = os.length := stored.counted.trans shadows.counted.symm
  refine ⟨counted, List.nodup_append.mpr ⟨shadows.distinct, distinct, ?_⟩, ?_, fun h => ?_,
    fun h => ?_⟩
  · rintro o old _ new rfl
    exact absurd (now o new) (Nat.ne_of_lt (shadows.early o old))
  · intro o ho
    rcases List.mem_append.mp ho with old | new
    · exact Nat.lt_succ_of_lt (shadows.early o old)
    · exact now o new ▸ Nat.lt_succ_self o.call
  · rw [shadows.nodes h]
    cases hn : t.nodes[h]? with
    | none => rfl
    | some n => exact congrArg some (relabel_append (stored.node hn) aligned more).symm
  · rw [shadows.drafts h]
    cases hb : t.builders[h]? with
    | none => rfl
    | some b => exact (Builder.draft?_append (stored.builder hb) aligned more).symm

/-- A building takes the next allocation. -/
theorem allocated (stored : Table.Stored memory t) :
    Shadows (os ++ [.built call]) (call + 1) { t with supply := t.supply.next } g := by
  refine shadows.extend stored (List.pairwise_singleton _ _) (fun o ho => ?_) ?_
  · rw [List.mem_singleton.mp ho]
    rfl
  · rw [List.length_append, shadows.counted]
    rfl

theorem register (forward : t.last ≤ (t.register n).2.last) :
    Shadows os call (t.register n).2 (g.name (t.register n).1 (n.relabel (originOf os))) := by
  cases hn : n.isNull with
  | true =>
      simp only [Table.register, hn]
      exact shadows
  | false =>
      simp only [Table.register, hn] at forward ⊢
      have issued : t.last.next ≠ .null := Handle.ne_null_of_lt (Handle.lt_next_of_le forward)
      rw [if_neg Bool.false_ne_true, Ledger.name_of_ne_null issued]
      refine ⟨shadows.counted, shadows.distinct, shadows.early, fun h => ?_, shadows.drafts⟩
      rw [Handle.getElem?_insert, Handle.getElem?_insert, shadows.nodes h]
      split <;> rfl

theorem putBuilder {b : Builder} {d : Draft} (same : b.draft? os = some d) :
    Shadows os call { t with builders := t.builders.insert h b }
      { g with drafts := g.drafts.insert h d } := by
  refine ⟨shadows.counted, shadows.distinct, shadows.early, shadows.nodes, fun k => ?_⟩
  rw [Handle.getElem?_insert, Handle.getElem?_insert, shadows.drafts k]
  split
  · exact same.symm
  · rfl

theorem eraseBuilder (b : Builder) :
    Shadows os call { t with builders := t.builders.insert h b.finished }
      { g with drafts := g.drafts.erase h } := by
  refine ⟨shadows.counted, shadows.distinct, shadows.early, shadows.nodes, fun k => ?_⟩
  rw [Handle.getElem?_insert, Handle.getElem?_erase, shadows.drafts k]
  split <;> rfl

theorem eraseAbsent (absent : t.builders[h]?.bind (Builder.draft? os) = none) :
    Shadows os call t { g with drafts := g.drafts.erase h } := by
  refine ⟨shadows.counted, shadows.distinct, shadows.early, shadows.nodes, fun k => ?_⟩
  rw [Handle.getElem?_erase, shadows.drafts k]
  split
  · next same =>
      subst same
      exact absent.symm
  · rfl

theorem putNode (n : Node) :
    Shadows os call { t with nodes := t.nodes.insert h n }
      { g with nodes := g.nodes.insert h (n.relabel (originOf os)) } := by
  refine ⟨shadows.counted, shadows.distinct, shadows.early, fun k => ?_, shadows.drafts⟩
  rw [Handle.getElem?_insert, Handle.getElem?_insert, shadows.nodes k]
  split <;> rfl

theorem node?_eq (sound : Table.Sound base t) (h : Handle) :
    g.nodes[h]? = (t.node? h).map (relabel (originOf os)) := by
  rw [sound.node?_eq, shadows.nodes]

theorem builder?_eq (sound : Table.Sound base t) (h : Handle) :
    g.drafts[h]? = (t.builder? h).bind (Builder.draft? os) := by
  rw [sound.builder?_eq, shadows.drafts]

theorem child?_eq (sound : Table.Sound base t) (c : Handle) :
    g.child? c = (t.child c).toOption.map (relabel (originOf os)) := by
  cases hc : c.isNull with
  | true => simp [Ledger.child?, Table.child, hc, Except.toOption, relabel]
  | false =>
      simp only [Ledger.child?, Table.child, hc, shadows.node?_eq sound]
      cases t.node? c <;> rfl

/-- The child that a ledger shows at a place is the one that the table has there. -/
theorem inOrder_eq (sound : Table.Sound base t) (stored : Table.Stored memory t) (index : Nat) :
    g.nodes[h]?.bind (·.inOrder[index]?) =
      ((t.view h).childAt index).toOption.map (relabel (originOf os)) := by
  rw [shadows.node?_eq sound]
  cases hn : t.node? h with
  | none =>
      rw [View.childAt_of_none (v := t.view h) hn]
      rfl
  | some n =>
      rw [View.childAt_eq (v := t.view h) hn (stored.distinctKeys hn).root, Option.map_some,
        Option.bind_some, inOrder_relabel, List.getElem?_map]
      cases n.inOrder[index]? <;> rfl

/-- **What is written into a table is written into its ledger.** -/
theorem put (sound : Table.Sound base t) {change : Builder → Node → Except Violation Builder}
    (same : ∀ b n, change b n = b.put n place) :
    Shadows os call (t.modify h c change).2 (g.put h place c) := by
  have child := shadows.child?_eq sound c
  have draft := shadows.builder?_eq sound h
  rcases t.modify_cases h c change with
    ⟨e, hn, he⟩ | ⟨n, hn, hb, he⟩ | ⟨n, b, v, hn, hb, hv, he⟩ | ⟨n, b, d, hn, hb, hd, he⟩
  · rw [hn] at child
    rw [he, Ledger.put, child]
    exact shadows
  · rw [hn] at child
    rw [hb] at draft
    rw [he, Ledger.put, child, draft]
    exact shadows
  · rw [hn] at child
    rw [hb] at draft
    have refused := draft?_put os b n place
    rw [← same, hv] at refused
    rw [he, Ledger.put, child, draft]
    simp only [Except.toOption, Option.map_some, Option.bind_some, refused]
    exact shadows
  · rw [hn] at child
    rw [hb] at draft
    have taken := draft?_put os b n place
    rw [← same, hd] at taken
    rw [he, Ledger.put, child, draft]
    obtain ⟨e, written⟩ := exists_draft?_of_put ((same b n).symm.trans hd) os
    simp only [Except.toOption, Option.map_some, Option.bind_some, taken, written]
    exact shadows.putBuilder written

end Parts

end Shadows

end TreeHandles
