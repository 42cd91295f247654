import TreeHandles.Proofs.Table.Run

/-!
# How handles are issued

A caller may perform any operations on a table, with any handles as arguments, and may keep every
handle that it was ever given.  As long as the numbers last, each new handle is beyond all earlier
ones, also across an emptying, and a handle from before an emptying stays dead.

**Results.**
* `issued_pairwise` and `range_of_mem_issued`: the handles that a run gives grow, between the
  counters at its ends.
* `sound_after_free`: after an emptying, the handles that name something are new.
* `handles_disciplined`: what holds of the handles of every table that is reached from the empty
  one.
-/

namespace TreeHandles
namespace Table

variable {t : Table}

section Issuing

theorem given_eq {op : Operation} {rest : List Operation} (room : Room t (op :: rest)) :
    t.given op = .null ∨ (t.given op = (t.after op).last ∧ t.last < (t.after op).last) := by
  by_cases emptying : op = .free
  · subst emptying
    exact .inl rfl
  · rcases (t.change_apply emptying).last_eq with ⟨none, _⟩ | ⟨next, moved⟩
    · exact .inl none
    · refine .inr ⟨next.trans moved.symm, ?_⟩
      have forward := room.last_le_after
      rw [moved] at forward ⊢
      exact Handle.lt_next_of_le forward

theorem eq_last_of_mem_filter_given {op : Operation} {rest : List Operation} {h : Handle}
    (room : Room t (op :: rest)) (now : h ∈ [t.given op].filter (fun h => !h.isNull)) :
    h = (t.after op).last ∧ t.last < (t.after op).last := by
  obtain ⟨isGiven, isHandle⟩ := List.mem_filter.mp now
  rw [List.mem_singleton] at isGiven
  subst isGiven
  rcases given_eq room with none | new
  · rw [none] at isHandle
    cases isHandle
  · exact new

theorem range_of_mem_issued {ops : List Operation} {h : Handle} (room : Room t ops)
    (given : h ∈ issued t ops) : t.last < h ∧ h ≤ (t.run ops).last := by
  induction ops generalizing t with
  | nil => cases given
  | cons op rest ih =>
      rcases List.mem_append.mp given with now | later
      · obtain ⟨rfl, beyond⟩ := eq_last_of_mem_filter_given room now
        exact ⟨beyond, room.tail.last_le_run⟩
      · have range := ih room.tail later
        exact ⟨Nat.lt_of_le_of_lt room.last_le_after range.1, range.2⟩

theorem issued_pairwise {ops : List Operation} (room : Room t ops) :
    (issued t ops).Pairwise (· < ·) := by
  induction ops generalizing t with
  | nil => exact .nil
  | cons op rest ih =>
      refine List.pairwise_append.mpr
        ⟨(List.pairwise_singleton _ _).filter _, ih room.tail, ?_⟩
      intro h now k later
      obtain ⟨rfl, _⟩ := eq_last_of_mem_filter_given room now
      exact (range_of_mem_issued room.tail later).1

end Issuing

/-- After an emptying, every handle that names something was issued since. -/
theorem sound_after_free {before after : List Operation}
    (room : Room t (before ++ .free :: after)) :
    Sound (t.run before).last (t.run (before ++ .free :: after)) := by
  rw [run_append]
  exact (Sound.empty _ (t.run before).supply).run room.right.tail

/-- **The discipline of handles.**  In every table that is reached, the handles of nodes and of
builders lie after the counter at each emptying and up to the counter now; no node is null; a
handle that names a node and a builder names a built builder, so that an open one names no node;
the handles given along the run grow.  So the null handle names nothing, and a handle that was
given before an emptying never names anything again. -/
theorem handles_disciplined (ops : List Operation) (few : allocations {} ops < UInt64.size - 1) :
    let t := run {} ops
    (∀ h, h ∈ t.nodes ∨ h ∈ t.builders →
      .null < h ∧ h ≤ t.last ∧
        ∀ before after, ops = before ++ .free :: after → (run {} before).last < h) ∧
    (∀ (h : Handle) (n : Node), t.nodes[h]? = some n → n.isNull = false) ∧
    (∀ (h : Handle) (b : Builder), h ∈ t.nodes → t.builders[h]? = some b → b.isBuilt = true) ∧
    (∀ h b, t.builder? h = some b → b.isBuilt = false → t.node? h = none) ∧
    (issued {} ops).Pairwise (· < ·) ∧
    .null ∉ t.nodes ∧ .null ∉ t.builders ∧
    (∀ before after, ops = before ++ .free :: after → ∀ h ∈ issued {} before,
      h ∉ t.nodes ∧ h ∉ t.builders ∧ t.node? h = none ∧ t.builder? h = none) := by
  intro t
  have room := Room.of_few few
  have sound : Sound .null t := (Sound.empty .null ⟨0⟩).run room
  refine ⟨?_, fun h n => sound.node_present, ?_, ?_, issued_pairwise room, ?_, ?_, ?_⟩
  · intro h named
    refine ⟨(sound.range_of_mem named).1, (sound.range_of_mem named).2, ?_⟩
    rintro before after rfl
    exact ((sound_after_free room).range_of_mem named).1
  · intro h b hn hb
    obtain ⟨n, hn⟩ := Option.isSome_iff_exists.mp (Std.TreeMap.mem_iff_isSome_getElem?.mp hn)
    exact sound.built_of_node hn hb
  · intro h b hb isOpen
    rw [sound.builder?_eq] at hb
    rw [sound.node?_eq]
    exact sound.unnamed_of_open hb isOpen
  · exact (sound.dead_of_le (Nat.le_refl _)).1
  · exact (sound.dead_of_le (Nat.le_refl _)).2.1
  · rintro before after rfl h given
    exact (sound_after_free room).dead_of_le (range_of_mem_issued room.left given).2

/-- A run in which an array is built, read, and forgotten; the handle of its element was the fourth
and the next one is the fifth. -/
theorem handles_disciplined_across_free :
    let ops : List Operation :=
      [.openBuilder .array 1, .registerNode (.leaf (.int 7)), .setValue ⟨1⟩ 0 ⟨2⟩, .build ⟨1⟩,
        .valueAt ⟨3⟩ 0, .free, .allocate]
    allocations {} ops < UInt64.size - 1 ∧ issued {} ops = [⟨1⟩, ⟨2⟩, ⟨3⟩, ⟨4⟩, ⟨5⟩] ∧
      (issued {} ops).Pairwise (· < ·) ∧ (run {} ops).node? ⟨3⟩ = none := by
  intro ops
  have few : allocations {} ops < UInt64.size - 1 := by decide
  obtain ⟨_, _, _, _, growing, _, _, dead⟩ := handles_disciplined ops few
  exact ⟨few, by decide, growing, (dead (ops.take 5) (ops.drop 6) rfl ⟨3⟩ (by decide)).2.2.1⟩

end Table

end TreeHandles
