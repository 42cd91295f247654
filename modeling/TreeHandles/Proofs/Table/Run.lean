import TreeHandles.Proofs.Table.Change

/-!
# Runs of a table

A run is a list of operations, one after the other.  While fewer handles are allocated than there
are numbers, the counter counts them, and a table stays *sound*: every handle that names something
was issued after some point and is not beyond the counter, no handle names null, and a handle that
names both a node and a builder names a builder that is built.  A table that is not emptied
*continues*: what its handles name stays, and no issued handle comes to name a builder.

**Results.**
* `Room.toNat_last_run`: the counter moves by the number of allocations.
* `Sound.register`, `Sound.openBuilder`, `Sound.putBuilder` and `Sound.rebind`: what a handle of a
  sound table can be bound to.
* `Sound.run`: a run keeps a table sound.
* `Continues.run`: a run that does not empty a table continues it.
-/

namespace TreeHandles
namespace Table

/-- How many handles were allocated from a table to the one after the next operation. -/
def draws (t u : Table) : Nat := if u.last = t.last then 0 else 1

/-- The number of handles that a list of operations allocates. -/
def allocations : Table → List Operation → Nat
  | _, [] => 0
  | t, op :: rest => draws t (t.after op) + allocations (t.after op) rest

/-- The counter does not run out of numbers while a list of operations is performed. -/
def Room (t : Table) (ops : List Operation) : Prop :=
  t.last.raw.toNat + allocations t ops < UInt64.size

/-- The handles that a list of operations gives, in order.  The null handle is none. -/
def issued : Table → List Operation → List Handle
  | _, [] => []
  | t, op :: rest => [t.given op].filter (fun h => !h.isNull) ++ issued (t.after op) rest

/-- All handles of a map are after one handle and not after another. -/
structure Within {ν : Type} (base last : Handle) (m : Std.TreeMap Handle ν) : Prop where
  range : ∀ {h : Handle} {v : ν}, m[h]? = some v → base < h ∧ h ≤ last

/-- What holds of every table, where `base` is a handle after which all present ones were issued. -/
structure Sound (base : Handle) (t : Table) : Prop where
  base_le : base ≤ t.last
  nodes_within : Within base t.last t.nodes
  builders_within : Within base t.last t.builders
  node_present : ∀ {h : Handle} {n : Node}, t.nodes[h]? = some n → n.isNull = false
  built_of_node : ∀ {h : Handle} {n : Node} {b : Builder},
    t.nodes[h]? = some n → t.builders[h]? = some b → b.isBuilt = true

/-- What stays of a table that is not emptied. -/
structure Continues (t u : Table) : Prop where
  last_le : t.last ≤ u.last
  node : ∀ {h : Handle} {n : Node}, t.nodes[h]? = some n → u.nodes[h]? = some n
  builder : ∀ {h : Handle} {b : Builder},
    t.builders[h]? = some b → ∃ c : Builder, u.builders[h]? = some c ∧ b.Later c
  no_builder : ∀ {h : Handle}, h ≤ t.last → t.builders[h]? = none → u.builders[h]? = none

variable {t u : Table} {base h : Handle}

section Counter

theorem Change.last_eq (change : Change t h u) :
    (h = .null ∧ u.last = t.last) ∨ (h = t.last.next ∧ u.last = t.last.next) := by
  cases change with
  | idle => exact .inl ⟨rfl, rfl⟩
  | write => exact .inl ⟨rfl, rfl⟩
  | finish => exact .inl ⟨rfl, rfl⟩
  | allocate => exact .inr ⟨rfl, rfl⟩
  | register => exact .inr ⟨rfl, rfl⟩
  | openBuilder => exact .inr ⟨rfl, rfl⟩
  | build => exact .inr ⟨rfl, rfl⟩

theorem toNat_last_after (t : Table) (op : Operation)
    (room : t.last.raw.toNat + draws t (t.after op) < UInt64.size) :
    (t.after op).last.raw.toNat = t.last.raw.toNat + draws t (t.after op) := by
  have still : (t.after op).last = t.last ∨ (t.after op).last = t.last.next := by
    cases op with
    | free => exact .inl rfl
    | _ =>
        refine (t.change_apply ?_).last_eq.imp And.right And.right
        intro he
        cases he
  rcases still with same | next
  · simp [draws, same]
  · have moved : draws t (t.after op) = 1 := by simp [draws, next, Handle.next_ne]
    rw [moved] at room ⊢
    rw [next]
    exact Handle.toNat_next_of_le (Handle.le_next_of_room room)

theorem allocations_append (t : Table) (ops more : List Operation) :
    allocations t (ops ++ more) = allocations t ops + allocations (t.run ops) more := by
  induction ops generalizing t with
  | nil => simp [allocations, run]
  | cons op rest ih =>
      simp only [List.cons_append, allocations]
      rw [ih, show t.run (op :: rest) = (t.after op).run rest from rfl]
      omega

namespace Room

variable {op : Operation} {ops more rest : List Operation}

theorem toNat_last_after (room : Room t (op :: rest)) :
    (t.after op).last.raw.toNat = t.last.raw.toNat + draws t (t.after op) := by
  simp only [Room, allocations] at room
  exact t.toNat_last_after op (by omega)

theorem last_le_after (room : Room t (op :: rest)) : t.last ≤ (t.after op).last := by
  rw [Handle.le_iff, room.toNat_last_after]
  exact Nat.le_add_right _ _

theorem tail (room : Room t (op :: rest)) : Room (t.after op) rest := by
  have step := room.toNat_last_after
  simp only [Room, allocations] at room ⊢
  omega

/-- **The counter counts allocations.** -/
theorem toNat_last_run (room : Room t ops) :
    (t.run ops).last.raw.toNat = t.last.raw.toNat + allocations t ops := by
  induction ops generalizing t with
  | nil => rfl
  | cons op rest ih =>
      rw [show t.run (op :: rest) = (t.after op).run rest from rfl, ih room.tail,
        room.toNat_last_after]
      simp only [allocations]
      omega

theorem last_le_run (room : Room t ops) : t.last ≤ (t.run ops).last := by
  rw [Handle.le_iff, room.toNat_last_run]
  exact Nat.le_add_right _ _

theorem left (room : Room t (ops ++ more)) : Room t ops := by
  rw [Room, allocations_append] at room
  rw [Room]
  omega

theorem right (room : Room t (ops ++ more)) : Room (t.run ops) more := by
  have counted := room.left.toNat_last_run
  rw [Room, allocations_append] at room
  rw [Room]
  omega

/-- From the empty table there is room for all numbers but zero. -/
theorem of_few (few : allocations {} ops < UInt64.size - 1) : Room {} ops := by
  have start : ({} : Table).last.raw.toNat = 0 := rfl
  rw [Room]
  omega

end Room

end Counter

section Soundness

namespace Within

variable {ν : Type} {last later : Handle} {m : Std.TreeMap Handle ν}

theorem mono (within : Within base last m) (le : last ≤ later) : Within base later m := by
  refine ⟨?_⟩
  intro h v hv
  exact ⟨(within.range hv).1, Nat.le_trans (within.range hv).2 le⟩

theorem insert (within : Within base last m) {v : ν} (lower : base < h) (upper : h ≤ last) :
    Within base last (m.insert h v) := by
  refine ⟨?_⟩
  intro k w hw
  rw [Handle.getElem?_insert] at hw
  split at hw
  · next he => exact he ▸ ⟨lower, upper⟩
  · exact within.range hw

theorem empty (base last : Handle) : Within base last (∅ : Std.TreeMap Handle ν) := by
  refine ⟨?_⟩
  intro h v hv
  simp at hv

theorem getElem?_of_lt (within : Within base last m) (beyond : last < h) : m[h]? = none := by
  cases hv : m[h]? with
  | none => rfl
  | some v => exact absurd beyond (Nat.not_lt.mpr (within.range hv).2)

end Within

namespace Sound

theorem empty (base : Handle) (supply : Allocation) : Sound base { last := base, supply } := by
  refine ⟨Nat.le_refl _, .empty _ _, .empty _ _, ?_, ?_⟩
  · intro h n hn
    simp at hn
  · intro h n b hn
    simp at hn

theorem free (sound : Sound base t) : Sound base t.free := by
  have emptied := Sound.empty t.last t.supply
  exact ⟨sound.base_le, .empty _ _, .empty _ _, emptied.node_present, emptied.built_of_node⟩

theorem node?_eq (sound : Sound base t) (h : Handle) : t.node? h = t.nodes[h]? := by
  cases hn : t.nodes[h]? with
  | none => simp [node?, hn]
  | some n =>
      have issued : h ≠ .null := Handle.ne_null_of_lt (sound.nodes_within.range hn).1
      simp [node?, Handle.isNull, issued, hn]

theorem builder?_eq (sound : Sound base t) (h : Handle) : t.builder? h = t.builders[h]? := by
  cases hb : t.builders[h]? with
  | none => simp [builder?, hb]
  | some b =>
      have issued : h ≠ .null := Handle.ne_null_of_lt (sound.builders_within.range hb).1
      simp [builder?, Handle.isNull, issued, hb]

theorem range_of_mem (sound : Sound base t) (named : h ∈ t.nodes ∨ h ∈ t.builders) :
    base < h ∧ h ≤ t.last := by
  rcases named with hn | hb
  · obtain ⟨n, hn⟩ := Option.isSome_iff_exists.mp (Std.TreeMap.mem_iff_isSome_getElem?.mp hn)
    exact sound.nodes_within.range hn
  · obtain ⟨b, hb⟩ := Option.isSome_iff_exists.mp (Std.TreeMap.mem_iff_isSome_getElem?.mp hb)
    exact sound.builders_within.range hb

/-- A handle that is not after the base names nothing. -/
theorem dead_of_le (sound : Sound base t) (old : h ≤ base) :
    h ∉ t.nodes ∧ h ∉ t.builders ∧ t.node? h = none ∧ t.builder? h = none := by
  have noNode : h ∉ t.nodes := fun named =>
    absurd (sound.range_of_mem (.inl named)).1 (Nat.not_lt.mpr old)
  have noBuilder : h ∉ t.builders := fun named =>
    absurd (sound.range_of_mem (.inr named)).1 (Nat.not_lt.mpr old)
  refine ⟨noNode, noBuilder, ?_, ?_⟩
  · rw [sound.node?_eq]
    exact Std.TreeMap.getElem?_eq_none noNode
  · rw [sound.builder?_eq]
    exact Std.TreeMap.getElem?_eq_none noBuilder

theorem unnamed_of_open (sound : Sound base t) {b : Builder} (found : t.builders[h]? = some b)
    (isOpen : b.isBuilt = false) : t.nodes[h]? = none := by
  cases hn : t.nodes[h]? with
  | none => rfl
  | some n =>
      rw [sound.built_of_node hn found] at isOpen
      cases isOpen

section Changes

variable (sound : Sound base t)

include sound

theorem lt_next (forward : t.last ≤ t.last.next) : base < t.last.next :=
  Nat.lt_of_le_of_lt sound.base_le (Handle.lt_next_of_le forward)

theorem allocate (forward : t.last ≤ t.last.next) : Sound base { t with last := t.last.next } :=
  ⟨Nat.le_trans sound.base_le forward, sound.nodes_within.mono forward,
    sound.builders_within.mono forward, sound.node_present, sound.built_of_node⟩

/-- The next handle, which no builder has, can be bound to a node. -/
theorem register {n : Node} (supply : Allocation) (present : n.isNull = false)
    (forward : t.last ≤ t.last.next) :
    Sound base
      { t with last := t.last.next, supply, nodes := t.nodes.insert t.last.next n } := by
  have fresh := sound.builders_within.getElem?_of_lt (Handle.lt_next_of_le forward)
  refine ⟨Nat.le_trans sound.base_le forward,
    (sound.nodes_within.mono forward).insert (sound.lt_next forward) (Nat.le_refl _),
    sound.builders_within.mono forward, ?_, ?_⟩
  · intro k m hm
    rw [Handle.getElem?_insert] at hm
    split at hm
    · cases hm
      exact present
    · exact sound.node_present hm
  · intro k m b hm hb
    rw [Handle.getElem?_insert] at hm
    split at hm
    · next he =>
        rw [← he, fresh] at hb
        cases hb
    · exact sound.built_of_node hm hb

/-- The next handle, which names no node, can be given to a builder. -/
theorem openBuilder (b : Builder) (forward : t.last ≤ t.last.next) :
    Sound base
      { t with last := t.last.next, builders := t.builders.insert t.last.next b } := by
  have fresh := sound.nodes_within.getElem?_of_lt (Handle.lt_next_of_le forward)
  refine ⟨Nat.le_trans sound.base_le forward, sound.nodes_within.mono forward,
    (sound.builders_within.mono forward).insert (sound.lt_next forward) (Nat.le_refl _),
    sound.node_present, ?_⟩
  intro k n c hn hc
  rw [Handle.getElem?_insert] at hc
  split at hc
  · next he =>
      rw [← he, fresh] at hn
      cases hn
  · exact sound.built_of_node hn hc

/-- A builder can be replaced; if its handle names a node, then only by a built one. -/
theorem putBuilder {b c : Builder} (supply : Allocation) (found : t.builders[h]? = some b)
    (built : ∀ n, t.nodes[h]? = some n → c.isBuilt = true) :
    Sound base { t with supply, builders := t.builders.insert h c } := by
  have range := sound.builders_within.range found
  refine ⟨sound.base_le, sound.nodes_within, sound.builders_within.insert range.1 range.2,
    sound.node_present, ?_⟩
  intro k n d hn hd
  rw [Handle.getElem?_insert] at hd
  split at hd
  · next he =>
      cases hd
      exact built n (he ▸ hn)
  · exact sound.built_of_node hn hd

/-- The handle of a builder can be bound to a node when the builder becomes a built one. -/
theorem rebind {b : Builder} {n : Node} (found : t.builders[h]? = some b)
    (present : n.isNull = false) :
    Sound base
      { t with nodes := t.nodes.insert h n, builders := t.builders.insert h b.finished } := by
  have range := sound.builders_within.range found
  refine ⟨sound.base_le, sound.nodes_within.insert range.1 range.2,
    sound.builders_within.insert range.1 range.2, ?_, ?_⟩
  · intro k m hm
    rw [Handle.getElem?_insert] at hm
    split at hm
    · cases hm
      exact present
    · exact sound.node_present hm
  · intro k m c hm hc
    rw [Handle.getElem?_insert] at hm hc
    split at hc
    · cases hc
      rfl
    · next other =>
        rw [if_neg other] at hm
        exact sound.built_of_node hm hc

/-- **A change keeps a table sound**, unless the counter runs over. -/
theorem change (change : Change t h u) (forward : t.last ≤ u.last) : Sound base u := by
  cases change with
  | idle supply =>
      exact ⟨sound.base_le, sound.nodes_within, sound.builders_within, sound.node_present,
        sound.built_of_node⟩
  | allocate => exact sound.allocate forward
  | register n supply present => exact sound.register supply present forward
  | openBuilder b => exact sound.openBuilder b forward
  | @write k b c found later =>
      refine sound.putBuilder t.supply found fun n hn => ?_
      have built : b.isBuilt = true := sound.built_of_node hn found
      rw [later.eq_of_built built]
      exact built
  | finish found made => exact sound.putBuilder t.supply.next found fun _ _ => rfl
  | build found made =>
      -- The new handle is bound first; the handle of the builder is bound to the same node after it.
      have present := Builder.isNull_of_finish? made
      exact (sound.register t.supply.next present forward).rebind found present

end Changes

theorem after (sound : Sound base t) (op : Operation) (forward : t.last ≤ (t.after op).last) :
    Sound base (t.after op) := by
  cases op with
  | free => exact sound.free
  | _ => exact sound.change (t.change_apply (by intro he; cases he)) forward

/-- **A run keeps a table sound.** -/
theorem run {ops : List Operation} (sound : Sound base t) (room : Room t ops) :
    Sound base (t.run ops) := by
  induction ops generalizing t with
  | nil => exact sound
  | cons op rest ih => exact ih (sound.after op room.last_le_after) room.tail

end Sound

end Soundness

section Continuation

namespace Continues

theorem refl (t : Table) : Continues t t :=
  ⟨Nat.le_refl _, id, fun hb => ⟨_, hb, .refl _⟩, fun _ hb => hb⟩

theorem trans {v : Table} (first : Continues t u) (second : Continues u v) : Continues t v := by
  refine ⟨Nat.le_trans first.last_le second.last_le, fun hn => second.node (first.node hn), ?_, ?_⟩
  · intro h b hb
    obtain ⟨c, hc, later⟩ := first.builder hb
    obtain ⟨d, hd, afterwards⟩ := second.builder hc
    exact ⟨d, hd, later.trans afterwards⟩
  · intro h le hb
    exact second.no_builder (Nat.le_trans le first.last_le) (first.no_builder le hb)

/-- A map keeps what it holds when a handle is bound that was not bound before. -/
theorem getElem?_insert_of_none {ν : Type} {m : Std.TreeMap Handle ν} {k : Handle} {v w : ν}
    (unbound : m[k]? = none) (hv : m[h]? = some v) : (m.insert k w)[h]? = some v := by
  have other : k ≠ h := by
    rintro rfl
    rw [unbound] at hv
    cases hv
  rw [Handle.getElem?_insert_of_ne _ _ other, hv]

theorem builder_insert {k j : Handle} {b c d : Builder} (found : t.builders[k]? = some b)
    (later : b.Later c) (hd : t.builders[j]? = some d) :
    ∃ e : Builder, (t.builders.insert k c)[j]? = some e ∧ d.Later e := by
  by_cases he : k = j
  · subst he
    rw [found] at hd
    cases hd
    exact ⟨c, Handle.getElem?_insert_self .., later⟩
  · exact ⟨d, by rw [Handle.getElem?_insert_of_ne _ _ he, hd], .refl d⟩

theorem none_insert {k j : Handle} {b c : Builder} (found : t.builders[k]? = some b)
    (unbound : t.builders[j]? = none) : (t.builders.insert k c)[j]? = none := by
  have other : k ≠ j := by
    rintro rfl
    rw [found] at unbound
    cases unbound
  rw [Handle.getElem?_insert_of_ne _ _ other, unbound]

theorem change (sound : Sound base t) (change : Change t h u) (forward : t.last ≤ u.last) :
    Continues t u := by
  have noBuilder : ∀ {k : Handle}, t.last ≤ t.last.next → k ≤ t.last → t.last.next ≠ k := by
    rintro k le upper rfl
    exact absurd (Handle.lt_next_of_le le) (Nat.not_lt.mpr upper)
  cases change with
  | idle supply => exact ⟨forward, id, fun hb => ⟨_, hb, .refl _⟩, fun _ hb => hb⟩
  | allocate => exact ⟨forward, id, fun hb => ⟨_, hb, .refl _⟩, fun _ hb => hb⟩
  | register n supply present =>
      have unbound := sound.nodes_within.getElem?_of_lt (Handle.lt_next_of_le forward)
      exact ⟨forward, getElem?_insert_of_none unbound, fun hb => ⟨_, hb, .refl _⟩, fun _ hb => hb⟩
  | openBuilder b =>
      have unbound := sound.builders_within.getElem?_of_lt (Handle.lt_next_of_le forward)
      refine ⟨forward, id, ?_, ?_⟩
      · intro k c hc
        exact ⟨c, getElem?_insert_of_none unbound hc, .refl c⟩
      · intro k upper hc
        rw [Handle.getElem?_insert_of_ne _ _ (noBuilder forward upper), hc]
  | @write k b c found later =>
      exact ⟨forward, id, builder_insert found later, fun _ => none_insert found⟩
  | @finish k b n found made =>
      have later := Builder.later_finished (Builder.isBuilt_eq_false_of_finish? made)
      exact ⟨forward, id, builder_insert found later, fun _ => none_insert found⟩
  | @build k b n found made =>
      have isOpen := Builder.isBuilt_eq_false_of_finish? made
      have later := Builder.later_finished isOpen
      have unbound := sound.nodes_within.getElem?_of_lt (Handle.lt_next_of_le forward)
      -- The handle of an open builder names no node, so that rebinding it overwrites nothing.
      have unnamed := sound.unnamed_of_open found isOpen
      have beforeNext : (t.nodes.insert t.last.next n)[k]? = none := by
        have range := sound.builders_within.range found
        rw [Handle.getElem?_insert_of_ne _ _ (noBuilder forward range.2), unnamed]
      refine ⟨forward, ?_, builder_insert found later, fun _ => none_insert found⟩
      intro j m hm
      exact getElem?_insert_of_none beforeNext (getElem?_insert_of_none unbound hm)

/-- **A run that does not empty a table continues it.** -/
theorem run {ops : List Operation} (sound : Sound base t) (kept : .free ∉ ops)
    (room : Room t ops) : Continues t (t.run ops) := by
  induction ops generalizing t with
  | nil => exact .refl t
  | cons op rest ih =>
      rw [List.mem_cons, not_or] at kept
      have forward := room.last_le_after
      have changed := t.change_apply (Ne.symm kept.1)
      exact (change sound changed forward).trans
        (ih (sound.change changed forward) kept.2 room.tail)

end Continues

end Continuation

end Table

end TreeHandles
