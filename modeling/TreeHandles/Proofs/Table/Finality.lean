import TreeHandles.Proofs.Table.Run

/-!
# What is finished stays

A node that a handle names is not replaced while the table is not emptied, although finishing a
builder binds a handle that was issued long before.  The reason is that only the handle of an open
builder is bound again, and such a handle names no node yet.  After it was built, a builder refuses
every change, and its two handles name one node.

**Results.**
* `Built.continues`: the state that a successful building leaves is kept.
* `finality`: nodes, modes, lengths and built builders stay, whatever is done without emptying.
-/

namespace TreeHandles
namespace Table

variable {t u : Table} {base h b : Handle} {n : Node}

/-- What holds after the builder of `h` was built, and its node was registered as `b`. -/
structure Built (t : Table) (h b : Handle) (n : Node) : Prop where
  last_le : b ≤ t.last
  node : t.nodes[h]? = some n
  registered : t.nodes[b]? = some n
  builder : ∃ mode, t.builders[h]? = some (.built mode)
  no_builder : t.builders[b]? = none

section Building

theorem built_of_build (sound : Sound base t) (built : (t.build h).1 = .ok b) (handle : b ≠ .null)
    (forward : t.last ≤ (t.build h).2.last) : ∃ n, Built (t.build h).2 h b n := by
  rcases t.build_cases h with ⟨_, _, he⟩ | ⟨_, _, he⟩ | ⟨mode, _, he⟩ | ⟨c, n, hc, hn, he⟩
  · rw [he] at built
    cases built
  · rw [he] at built
    cases built
    exact absurd rfl handle
  · rw [he] at built
    cases built
    exact absurd rfl handle
  · rw [he] at built forward ⊢
    cases built
    have fresh := Handle.lt_next_of_le forward
    have found := getElem?_of_builder? hc
    have other : h ≠ t.last.next := by
      rintro rfl
      exact absurd fresh (Nat.not_lt.mpr (sound.builders_within.range found).2)
    refine ⟨n, Nat.le_refl _, ?_, ?_, ⟨c.mode, ?_⟩, ?_⟩
    · exact Handle.getElem?_insert_self ..
    · rw [Handle.getElem?_insert_of_ne _ _ other, Handle.getElem?_insert_self]
    · exact Handle.getElem?_insert_self ..
    · rw [Handle.getElem?_insert_of_ne _ _ other]
      exact sound.builders_within.getElem?_of_lt fresh

namespace Built

theorem continues (built : Built t h b n) (later : Continues t u) : Built u h b n := by
  obtain ⟨mode, hb⟩ := built.builder
  obtain ⟨c, hc, same⟩ := later.builder hb
  refine ⟨Nat.le_trans built.last_le later.last_le, later.node built.node,
    later.node built.registered, ⟨mode, ?_⟩, later.no_builder built.last_le built.no_builder⟩
  rw [hc, same.eq_of_built rfl]

theorem build_again (built : Built t h b n) (sound : Sound base t) :
    t.build h = (.ok .null, t) := by
  obtain ⟨mode, hb⟩ := built.builder
  rw [← sound.builder?_eq] at hb
  exact t.build_of_built h hb

theorem build_registered (built : Built t h b n) (sound : Sound base t) :
    t.build b = (.ok .null, t) := by
  have hb := built.no_builder
  have hn := built.registered
  rw [← sound.builder?_eq] at hb
  rw [← sound.node?_eq] at hn
  simp [build, finish, hb, hn]

end Built

end Building

section Refusing

theorem exists_child {c : Handle} (resolves : c = .null ∨ (t.node? c).isSome = true) :
    ∃ m, t.child c = .ok m := by
  rcases resolves with rfl | some
  · exact ⟨.null, rfl⟩
  · obtain ⟨m, hm⟩ := Option.isSome_iff_exists.mp some
    by_cases null : c.isNull = true
    · exact ⟨.null, by simp [child, null]⟩
    · exact ⟨m, by simp [child, null, hm]⟩

variable {c : Handle} {m : Node} {change : Builder → Node → Except Violation Builder}

theorem modify_of_no_builder (resolves : t.child c = .ok m) (none : t.builder? h = none) :
    t.modify h c change = (.error (.contractViolation (.notTemporary h)), t) := by
  simp only [modify, resolves, none]

theorem modify_of_refused {x : Builder} {v : Violation} (resolves : t.child c = .ok m)
    (found : t.builder? h = some x) (refused : change x m = .error v) :
    t.modify h c change = (.error (.contractViolation v), t) := by
  simp only [modify, resolves, found, refused]

end Refusing

/-- **Finality.**  Whatever is done to a table without emptying it, a handle that names a node
names that node ever after; a handle that names a builder names one of the same mode, an open array
of the same length, and never again an open one after a built one.  After a successful building
both handles name one node, building either again gives nothing and changes nothing, and every
write with a child that resolves is refused. -/
theorem finality (ops more : List Operation) (few : allocations {} (ops ++ more) < UInt64.size - 1)
    (kept : .free ∉ more) :
    let t := run {} ops
    let u := t.run more
    (∀ h n, t.node? h = some n → u.node? h = some n) ∧
    (∀ h x, t.builder? h = some x → ∃ y, u.builder? h = some y ∧ y.mode = x.mode ∧
      (x.isBuilt = true → y.isBuilt = true) ∧
      (x.mode = .array → y.isBuilt = false → y.length = x.length)) ∧
    ∀ first rest h b, more = first ++ .build h :: rest →
      ((t.run first).build h).1 = .ok b → b ≠ .null →
      (∃ n, ((t.run first).build h).2.node? h = some n ∧ u.node? h = some n ∧
        u.node? b = some n) ∧
      u.build h = (.ok .null, u) ∧ u.build b = (.ok .null, u) ∧
      ∀ index key c, c = .null ∨ (u.node? c).isSome = true →
        u.setValue h index c = (.error (.contractViolation .alreadyBuilt), u) ∧
        u.setKeyValue h key c = (.error (.contractViolation .alreadyBuilt), u) ∧
        u.setValue b index c = (.error (.contractViolation (.notTemporary b)), u) ∧
        u.setKeyValue b key c = (.error (.contractViolation (.notTemporary b)), u) := by
  intro t u
  have room := Room.of_few few
  have sound : Sound .null t := (Sound.empty .null ⟨0⟩).run room.left
  have soundThen : Sound .null u := sound.run room.right
  have later : Continues t u := .run sound kept room.right
  refine ⟨?_, ?_, ?_⟩
  · intro h n hn
    rw [sound.node?_eq] at hn
    rw [soundThen.node?_eq]
    exact later.node hn
  · intro h x hx
    rw [sound.builder?_eq] at hx
    obtain ⟨y, hy, same⟩ := later.builder hx
    refine ⟨y, ?_, same.mode_eq, ?_, same.length_eq⟩
    · rw [soundThen.builder?_eq]
      exact hy
    · intro built
      rw [same.eq_of_built built]
      exact built
  · rintro first rest h b rfl ok handle
    have roomBuild : Room (t.run first) (.build h :: rest) := room.right.right
    have soundFirst : Sound .null (t.run first) := sound.run room.right.left
    have forward := roomBuild.last_le_after
    obtain ⟨n, built⟩ := built_of_build soundFirst ok handle forward
    have soundBuilt : Sound .null ((t.run first).build h).2 := soundFirst.after (.build h) forward
    have keptRest : .free ∉ rest := fun emptied =>
      kept (List.mem_append_right _ (List.mem_cons_of_mem _ emptied))
    have same : u = ((t.run first).build h).2.run rest := run_append t first (.build h :: rest)
    have builtThen : Built u h b n := by
      rw [same]
      exact built.continues (.run soundBuilt keptRest roomBuild.tail)
    refine ⟨⟨n, ?_, ?_, ?_⟩, builtThen.build_again soundThen, builtThen.build_registered soundThen,
      ?_⟩
    · rw [soundBuilt.node?_eq]
      exact built.node
    · rw [soundThen.node?_eq]
      exact builtThen.node
    · rw [soundThen.node?_eq]
      exact builtThen.registered
    · intro index key c resolves
      obtain ⟨m, hm⟩ := exists_child resolves
      obtain ⟨mode, found⟩ := builtThen.builder
      rw [← soundThen.builder?_eq] at found
      have none := builtThen.no_builder
      rw [← soundThen.builder?_eq] at none
      exact ⟨modify_of_refused hm found rfl, modify_of_refused hm found rfl,
        modify_of_no_builder hm none, modify_of_no_builder hm none⟩

/-- Two arrays under construction; the first is built, read and written to while the second is
open. -/
theorem finality_of_interleaved_arrays :
    let ops : List Operation :=
      [.openBuilder .array 1, .openBuilder .array 1, .registerNode (.leaf (.int 7)),
        .setValue ⟨1⟩ 0 ⟨3⟩]
    let more : List Operation :=
      [.build ⟨1⟩, .setValue ⟨2⟩ 0 ⟨1⟩, .setValue ⟨1⟩ 0 ⟨2⟩, .valueAt ⟨4⟩ 0, .build ⟨2⟩]
    let u := (run {} ops).run more
    allocations {} (ops ++ more) < UInt64.size - 1 ∧ .free ∉ more ∧
      u.build ⟨1⟩ = (.ok .null, u) ∧ u.build ⟨4⟩ = (.ok .null, u) ∧
      u.setValue ⟨1⟩ 0 ⟨2⟩ = (.error (.contractViolation .alreadyBuilt), u) := by
  intro ops more u
  have few : allocations {} (ops ++ more) < UInt64.size - 1 := by decide
  have kept : .free ∉ more := by simp [more]
  obtain ⟨_, _, built⟩ := finality ops more few kept
  obtain ⟨_, again, registered, refused⟩ :=
    built [] more.tail ⟨1⟩ ⟨4⟩ rfl (by rfl) (by decide)
  exact ⟨few, kept, again, registered, (refused 0 "" ⟨2⟩ (.inr (by decide))).1⟩

end Table

end TreeHandles
