import TreeHandles.Proofs.Table.Issue
import TreeHandles.Proofs.Table.Registration

/-!
# Accounting for handles

Short of handing out a bare number, a table binds every handle that it issues, and what is bound
stays bound until the table is emptied.  So the handles that name something are all numbers after
the counter of the last emptying and up to the counter now.  Finishing a builder issues one handle
but names a node by two: by the new handle, and by that of the builder, which was counted among the
open builders before.

**Results.**
* `map_toNat_issued`: the handles that a run gives are numbered in a row.
* `Accounted.run`: what was issued stays bound, and a built builder names its node.
* `Accounted.length_eq`: there are as many handles as nodes and open builders.
-/

namespace TreeHandles

/-- The handles up to the next one are those up to this one, and the next one. -/
theorem Handle.le_or_eq_next {h k : Handle} (room : k ≤ k.next) (le : h ≤ k.next) :
    h ≤ k ∨ h = k.next := by
  rw [ext_iff_toNat]
  rw [le_iff, toNat_next_of_le room] at le
  rw [le_iff, toNat_next_of_le room]
  omega

/-- What is in a list of handles that are numbered in a row. -/
theorem Handle.mem_iff_of_row {hs : List Handle} {start length : Nat} {h : Handle}
    (row : hs.map (·.raw.toNat) = List.range' start length) :
    h ∈ hs ↔ start ≤ h.raw.toNat ∧ h.raw.toNat < start + length := by
  rw [← List.mem_range'_1, ← row, List.mem_map]
  constructor
  · exact fun inside => ⟨h, inside, rfl⟩
  · rintro ⟨k, inside, same⟩
    exact ext_iff_toNat.mpr same ▸ inside

theorem Handle.mem_insert {ν : Type} {m : Std.TreeMap Handle ν} {h k : Handle} {v : ν} :
    k ∈ m.insert h v ↔ h = k ∨ k ∈ m := by
  rw [Std.TreeMap.mem_insert, Std.LawfulEqOrd.compare_eq_iff_eq]

namespace Builder

variable {b c : Builder} {n : Node}

theorem isBuilt_of_write {index : Nat} (written : b.write index n = .ok c) :
    c.isBuilt = b.isBuilt := by
  obtain ⟨slots, rfl, _, rfl⟩ := exists_of_write written
  rfl

theorem isBuilt_of_bind {key : String} (bound : b.bind key n = .ok c) :
    c.isBuilt = b.isBuilt := by
  obtain ⟨entries, rfl, rfl⟩ := exists_of_bind bound
  rfl

end Builder

namespace Table

/-- An operation that binds every handle that it issues, and issues one for a node that it takes
out of a builder. -/
def Operation.Binding : Operation → Prop
  | .allocate | .finish _ => False
  | _ => True

/-- The handles of builders that are not built. -/
def openHandles (t : Table) : List Handle :=
  (t.builders.toList.filter fun e => !e.2.isBuilt).map Prod.fst

/-- All handles after a base and up to the counter are bound, and the handle of a built builder
names a node. -/
structure Accounted (base : Handle) (t : Table) : Prop where
  named : ∀ {h : Handle}, base < h → h ≤ t.last → h ∈ t.nodes ∨ h ∈ t.builders
  node_of_built : ∀ {h : Handle} {b : Builder},
    t.builders[h]? = some b → b.isBuilt = true → h ∈ t.nodes

variable {t : Table} {base h : Handle}

section Numbers

/-- **The handles that a run gives are numbered in a row.** -/
theorem map_toNat_issued {ops : List Operation} (room : Room t ops) :
    (issued t ops).map (·.raw.toNat) =
      List.range' (t.last.raw.toNat + 1) (allocations t ops) := by
  induction ops generalizing t with
  | nil => rfl
  | cons op rest ih =>
      have counted := room.toNat_last_after
      simp only [issued, allocations, List.map_append]
      rw [ih room.tail]
      by_cases still : (t.after op).last = t.last
      · have none : t.given op = .null := by
          rcases given_eq room with none | ⟨_, beyond⟩
          · exact none
          · rw [still] at beyond
            exact absurd beyond (Nat.lt_irrefl _)
        simp [draws, still, none, Handle.isNull]
      · have moved : t.given op = (t.after op).last := by
          by_cases emptying : op = .free
          · subst emptying
            exact absurd rfl still
          · rcases (t.change_apply emptying).last_eq with ⟨_, same⟩ | ⟨next, last⟩
            · exact absurd same still
            · exact next.trans last.symm
        have one : draws t (t.after op) = 1 := if_neg still
        rw [one] at counted ⊢
        have present : (t.after op).last ≠ .null := by
          intro null
          rw [null] at counted
          exact absurd counted.symm (Nat.succ_ne_zero _)
        have shown : [t.given op].filter (fun h => !h.isNull) = [(t.after op).last] := by
          simp [moved, Handle.isNull, present]
        rw [shown, Nat.add_comm 1, List.range'_succ, counted, List.map_singleton, counted,
          List.singleton_append]

end Numbers

namespace Accounted

theorem emptied (supply : Allocation) : Accounted base { last := base, supply } := by
  refine ⟨?_, ?_⟩
  · intro h beyond upper
    exact absurd beyond (Nat.not_lt.mpr upper)
  · intro h b found
    simp at found

theorem withSupply (accounted : Accounted base t) (supply : Allocation) :
    Accounted base { t with supply } :=
  ⟨accounted.named, accounted.node_of_built⟩

theorem register (accounted : Accounted base t) (n : Node)
    (forward : t.last ≤ (t.register n).2.last) : Accounted base (t.register n).2 := by
  cases hn : n.isNull with
  | true =>
      rw [register_of_null hn]
      exact accounted
  | false =>
      rw [register_of_present hn] at forward ⊢
      refine ⟨?_, ?_⟩
      · intro h beyond upper
        rw [Handle.mem_insert]
        rcases Handle.le_or_eq_next forward upper with old | rfl
        · exact (accounted.named beyond old).imp_left .inr
        · exact .inl (.inl rfl)
      · intro h b found built
        exact Handle.mem_insert.mpr (.inr (accounted.node_of_built found built))

theorem openBuilder (accounted : Accounted base t) (mode : BuilderMode) (size : Nat)
    (forward : t.last ≤ t.last.next) : Accounted base (t.openBuilder mode size).2 := by
  refine ⟨?_, ?_⟩
  · intro h beyond upper
    rcases Handle.le_or_eq_next forward upper with old | rfl
    · exact (accounted.named beyond old).imp_right fun named => Handle.mem_insert.mpr (.inr named)
    · exact .inr (Handle.mem_insert.mpr (.inl rfl))
  · intro h b found built
    rw [Table.openBuilder, Handle.getElem?_insert] at found
    split at found
    · cases found
      cases mode <;> cases built
    · exact accounted.node_of_built found built

theorem putBuilder (accounted : Accounted base t) {b c : Builder} (found : t.builders[h]? = some b)
    (same : c.isBuilt = b.isBuilt) :
    Accounted base { t with builders := t.builders.insert h c } := by
  refine ⟨?_, ?_⟩
  · intro k beyond upper
    exact (accounted.named beyond upper).imp_right fun named => Handle.mem_insert.mpr (.inr named)
  · intro k d foundThen built
    rw [Handle.getElem?_insert] at foundThen
    split at foundThen
    · next he =>
        cases foundThen
        exact he ▸ accounted.node_of_built found (same ▸ built)
    · exact accounted.node_of_built foundThen built

theorem modify (accounted : Accounted base t) (h child : Handle)
    {change : Builder → Node → Except Violation Builder}
    (same : ∀ {b n c}, change b n = .ok c → c.isBuilt = b.isBuilt) :
    Accounted base (t.modify h child change).2 := by
  rcases t.modify_effect h child change with ⟨e, he⟩ | ⟨n, b, c, _, hb, hc, he⟩
  · exact he ▸ accounted
  · rw [he]
    exact accounted.putBuilder (getElem?_of_builder? hb) (same hc)

theorem borrow (accounted : Accounted base t) (h : Handle)
    {change : Builder → Except Violation Builder}
    (same : ∀ {b c}, change b = .ok c → c.isBuilt = b.isBuilt) :
    Accounted base (t.borrow h change).2 := by
  rcases t.borrow_cases h change with he | ⟨b, c, hb, hc, he⟩
  · rw [he]
    exact accounted
  · rw [he]
    exact accounted.putBuilder (getElem?_of_builder? hb) (same hc)

theorem build (accounted : Accounted base t) (h : Handle)
    (forward : t.last ≤ (t.build h).2.last) : Accounted base (t.build h).2 := by
  rcases t.build_effect h with ⟨_, he⟩ | ⟨b, n, _, _, _, he⟩
  · exact he.symm ▸ accounted
  · rw [he] at forward ⊢
    refine ⟨?_, ?_⟩
    · intro k beyond upper
      rcases Handle.le_or_eq_next forward upper with old | rfl
      · exact (accounted.named beyond old).imp
          (fun named => Handle.mem_insert.mpr (.inr (Handle.mem_insert.mpr (.inr named))))
          (fun named => Handle.mem_insert.mpr (.inr named))
      · exact .inl (Handle.mem_insert.mpr (.inr (Handle.mem_insert.mpr (.inl rfl))))
    · intro k c found built
      rw [Handle.getElem?_insert] at found
      split at found
      · next same => exact Handle.mem_insert.mpr (.inl same)
      · have named := accounted.node_of_built found built
        exact Handle.mem_insert.mpr (.inr (Handle.mem_insert.mpr (.inr named)))

/-- An operation that binds what it issues keeps all handles accounted for. -/
theorem after (accounted : Accounted base t) {op : Operation} (binding : op.Binding)
    (kept : op ≠ .free) (forward : t.last ≤ (t.after op).last) : Accounted base (t.after op) := by
  cases op with
  | allocate => cases binding
  | finish h => cases binding
  | free => exact absurd rfl kept
  | register steps => exact (accounted.withSupply _).register _ forward
  | registerNode n => exact accounted.register n forward
  | registerDocument d => exact (accounted.withSupply _).register _ forward
  | openBuilder mode size => exact accounted.openBuilder mode size forward
  | write h index n => exact accounted.borrow h Builder.isBuilt_of_write
  | bind h key n => exact accounted.borrow h Builder.isBuilt_of_bind
  | setValue h index child => exact accounted.modify h child Builder.isBuilt_of_write
  | setKeyValue h key child => exact accounted.modify h child Builder.isBuilt_of_bind
  | build h => exact accounted.build h forward
  | valueAt h index =>
      simp only [Table.after, apply] at forward ⊢
      rcases t.valueAt_cases h index with ⟨e, _, he⟩ | ⟨n, _, he⟩
      · exact he ▸ accounted
      · rw [he] at forward ⊢
        exact accounted.register n forward

/-- **What was issued stays bound until the table is emptied.** -/
theorem run {ops : List Operation} (accounted : Accounted base t)
    (binding : ∀ op ∈ ops, op.Binding) (kept : .free ∉ ops) (room : Room t ops) :
    Accounted base (t.run ops) := by
  induction ops generalizing t with
  | nil => exact accounted
  | cons op rest ih =>
      rw [List.mem_cons, not_or] at kept
      have first := accounted.after (binding op List.mem_cons_self) (Ne.symm kept.1)
        room.last_le_after
      exact ih first (fun other h => binding other (List.mem_cons_of_mem _ h)) kept.2 room.tail

section Counting

theorem mem_openHandles : h ∈ t.openHandles ↔
    ∃ b : Builder, t.builders[h]? = some b ∧ b.isBuilt = false := by
  simp [openHandles, Std.TreeMap.mem_toList_iff_getElem?_eq_some]

theorem nodup_openHandles (t : Table) : t.openHandles.Nodup := by
  have sub : t.openHandles.Sublist t.builders.keys := by
    rw [← Std.TreeMap.map_fst_toList_eq_keys]
    exact List.filter_sublist.map _
  exact Std.TreeMap.nodup_keys.sublist sub

variable (sound : Sound base t) (accounted : Accounted base t)

include sound accounted

/-- **The handles that name something are those that were issued since the base.** -/
theorem named_iff : h ∈ t.nodes ∨ h ∈ t.builders ↔ base < h ∧ h ≤ t.last :=
  ⟨sound.range_of_mem, fun range => accounted.named range.1 range.2⟩

/-- **A builder names a node exactly if it is built.** -/
theorem node_iff_built {b : Builder} (found : t.builders[h]? = some b) :
    h ∈ t.nodes ↔ b.isBuilt = true := by
  constructor
  · intro named
    obtain ⟨n, hn⟩ := Option.isSome_iff_exists.mp (Std.TreeMap.mem_iff_isSome_getElem?.mp named)
    exact sound.built_of_node hn found
  · exact accounted.node_of_built found

/-- Each handle that was issued names a node or an open builder, and none names both. -/
theorem mem_nodes_or_open : h ∈ t.nodes.keys ++ t.openHandles ↔ base < h ∧ h ≤ t.last := by
  rw [List.mem_append, Std.TreeMap.mem_keys, mem_openHandles, ← named_iff sound accounted]
  constructor
  · rintro (named | ⟨b, found, _⟩)
    · exact .inl named
    · exact .inr (Std.TreeMap.mem_iff_isSome_getElem?.mpr (by rw [found]; rfl))
  · rintro (named | named)
    · exact .inl named
    · obtain ⟨b, found⟩ :=
        Option.isSome_iff_exists.mp (Std.TreeMap.mem_iff_isSome_getElem?.mp named)
      cases built : b.isBuilt with
      | true => exact .inl (accounted.node_of_built found built)
      | false => exact .inr ⟨b, found, built⟩

/-- **There are as many handles as nodes and open builders.** -/
theorem length_eq : t.last.raw.toNat = base.raw.toNat + (t.nodeCount + t.openHandles.length) := by
  have apart : (t.nodes.keys ++ t.openHandles).Nodup := by
    rw [List.nodup_append]
    refine ⟨Std.TreeMap.nodup_keys, nodup_openHandles t, ?_⟩
    rintro h named k isOpen rfl
    obtain ⟨b, found, unbuilt⟩ := mem_openHandles.mp isOpen
    have built := (node_iff_built sound accounted found).mp (Std.TreeMap.mem_keys.mp named)
    rw [unbuilt] at built
    cases built
  have numbers : ((t.nodes.keys ++ t.openHandles).map (·.raw.toNat)).Nodup :=
    List.pairwise_map.mpr (apart.imp fun other same => other (Handle.ext_iff_toNat.mpr same))
  have row : ((t.nodes.keys ++ t.openHandles).map (·.raw.toNat)).Perm
      (List.range' (base.raw.toNat + 1) (t.last.raw.toNat - base.raw.toNat)) := by
    rw [List.perm_ext_iff_of_nodup numbers List.nodup_range']
    intro k
    have lower := sound.base_le
    rw [Handle.le_iff] at lower
    rw [List.mem_range'_1, List.mem_map]
    constructor
    · rintro ⟨h, named, rfl⟩
      have range := (mem_nodes_or_open sound accounted).mp named
      rw [Handle.lt_iff, Handle.le_iff] at range
      omega
    · rintro ⟨least, most⟩
      have bound := t.last.raw.toNat_lt
      have number : (Handle.mk (UInt64.ofNat k)).raw.toNat = k :=
        UInt64.toNat_ofNat_of_lt (by rw [UInt64.size]; omega)
      refine ⟨⟨UInt64.ofNat k⟩, (mem_nodes_or_open sound accounted).mpr ?_, number⟩
      rw [Handle.lt_iff, Handle.le_iff, number]
      omega
  have lengths := row.length_eq
  rw [List.length_map, List.length_append, Std.TreeMap.length_keys, List.length_range'] at lengths
  have lower := sound.base_le
  rw [Handle.le_iff] at lower
  simp only [nodeCount]
  omega

end Counting

end Accounted

end Table

end TreeHandles
