import TreeHandles.Proofs.Table.Keys

/-!
# What a write demands, and what it does

A caller who writes to a builder has to name a child that resolves and a builder that is open, of the
right mode and, if it is an array, long enough.  Several of these can be missing at once: the child may
be the builder itself, and a builder that was built names a node as well.  The child is looked up before
the builder, and the builder is asked only after it was found, so that the demands of both layers stand in
one list, and a write is refused for the first of them that is not met.  A write that meets them all
changes one place of one builder, and nothing else in the table.

**Results.**
* `firstUnmet_cons` and `forall_met_iff`: for what a list of demands is refused, and when it is not.
* `Builder.write_eq_error_iff` and `Builder.bind_eq_error_iff`: what a builder demands.
* `modify_eq_error_iff` and `modify_eq_ok_iff`: what the table demands besides.
* `onlyBuilder_modify`: what a write changes.
* `writes_exact`: when a write succeeds, why it fails and what it does, in every table.
-/

namespace TreeHandles

/-- What a call demands, and the breach of a caller who does not provide it. -/
structure Demand where
  met : Prop
  breach : Violation

/-- A breach is that of the first demand of a list that is not met. -/
def FirstUnmet (demands : List Demand) (v : Violation) : Prop :=
  ∃ before d rest, demands = before ++ d :: rest ∧ (∀ e ∈ before, e.met) ∧ ¬ d.met ∧ d.breach = v

section Demands

variable {d : Demand} {rest demands : List Demand} {v : Violation}

theorem not_firstUnmet_nil : ¬ FirstUnmet [] v := by
  rintro ⟨before, d, rest, empty, _⟩
  cases before <;> cases empty

theorem firstUnmet_cons :
    FirstUnmet (d :: rest) v ↔ (¬ d.met ∧ d.breach = v) ∨ (d.met ∧ FirstUnmet rest v) := by
  constructor
  · rintro ⟨before, e, after, same, met, unmet, breach⟩
    cases before with
    | nil =>
        cases same
        exact .inl ⟨unmet, breach⟩
    | cons first before =>
        cases same
        obtain ⟨now, later⟩ := List.forall_mem_cons.mp met
        exact .inr ⟨now, before, e, after, rfl, later, unmet, breach⟩
  · rintro (⟨unmet, breach⟩ | ⟨now, before, e, after, rfl, met, unmet, breach⟩)
    · exact ⟨[], d, rest, rfl, fun _ inside => absurd inside List.not_mem_nil, unmet, breach⟩
    · exact ⟨d :: before, e, after, rfl, List.forall_mem_cons.mpr ⟨now, met⟩, unmet, breach⟩

/-- All demands are met exactly if none is the first that is not. -/
theorem forall_met_iff : (∀ d ∈ demands, d.met) ↔ ∀ v, ¬ FirstUnmet demands v := by
  induction demands with
  | nil => simp [not_firstUnmet_nil]
  | cons d rest ih =>
      simp only [List.forall_mem_cons, firstUnmet_cons, ih]
      by_cases now : d.met <;> simp [now]

end Demands

namespace Builder

variable {b : Builder} {n : Node} {index : Nat} {key : String} {v : Violation}

/-- What a write to a place demands of a builder, in this order. -/
def writeDemands (b : Builder) (index : Nat) : List Demand :=
  [⟨b.isBuilt = false, .alreadyBuilt⟩, ⟨b.mode = .array, .wrongMode .array b.mode⟩,
    ⟨index < b.length, .indexBeyondLength index b.length⟩]

/-- What the binding of a key demands of a builder, in this order. -/
def bindDemands (b : Builder) : List Demand :=
  [⟨b.isBuilt = false, .alreadyBuilt⟩, ⟨b.mode = .object, .wrongMode .object b.mode⟩]

theorem write_eq_error_iff :
    b.write index n = .error v ↔ FirstUnmet (b.writeDemands index) v := by
  simp only [writeDemands, firstUnmet_cons, not_firstUnmet_nil]
  cases b with
  | built mode => simp [write, isBuilt]
  | object entries => simp [write, isBuilt, mode]
  | array slots =>
      by_cases inside : index < slots.length <;> simp [write, isBuilt, mode, length, inside]

theorem bind_eq_error_iff : b.bind key n = .error v ↔ FirstUnmet b.bindDemands v := by
  simp only [bindDemands, firstUnmet_cons, not_firstUnmet_nil]
  cases b <;> simp [bind, isBuilt, mode]

end Builder

namespace Table

variable {t u : Table} {h c : Handle} {e : Error} {asked : Builder → List Demand}
  {change : Builder → Node → Except Violation Builder}

/-- What a write demands: a child that is null or resolves, a builder, and what is asked of it. -/
def demands (t : Table) (h c : Handle) (asked : Builder → List Demand) : List Demand :=
  ⟨c = .null ∨ ∃ n, t.node? c = some n, .unresolvedChild c⟩ ::
    ⟨∃ b, t.builder? h = some b, .notTemporary h⟩ :: ((t.builder? h).map asked).getD []

/-- The second table differs from the first by the builder of one handle only. -/
structure OnlyBuilder (t u : Table) (h : Handle) (b : Builder) : Prop where
  last_eq : u.last = t.last
  supply_eq : u.supply = t.supply
  nodes_eq : u.nodes = t.nodes
  builder : u.builders[h]? = some b
  others : ∀ k : Handle, k ≠ h → u.builders[k]? = t.builders[k]?

section Demanding

theorem child_cases (t : Table) (c : Handle) :
    ((c = .null ∨ ∃ n, t.node? c = some n) ∧ t.child c = .ok (t.childNode c)) ∨
      ¬ (c = .null ∨ ∃ n, t.node? c = some n) ∧
        t.child c = .error (.contractViolation (.unresolvedChild c)) := by
  by_cases null : c = .null
  · subst null
    exact .inl ⟨.inl rfl, rfl⟩
  · have issued : c.isNull = false := by simpa [Handle.isNull] using null
    cases hn : t.node? c with
    | some n => exact .inl ⟨.inr ⟨n, rfl⟩, by simp [child, issued, childNode, hn]⟩
    | none => exact .inr ⟨by simp [null], by simp [child, issued, hn]⟩

/-- **Why a write fails.** -/
theorem modify_eq_error_iff
    (refuses : ∀ b n v, change b n = .error v ↔ FirstUnmet (asked b) v) :
    (t.modify h c change).1 = .error e ↔
      ∃ v, e = .contractViolation v ∧ FirstUnmet (t.demands h c asked) v := by
  simp only [demands, firstUnmet_cons]
  rcases t.child_cases c with ⟨resolves, hc⟩ | ⟨unresolved, hc⟩
  · cases hb : t.builder? h with
    | none => simp [modify, hc, hb, resolves, eq_comm (a := e)]
    | some b =>
        have asks : ∀ v, change b (t.childNode c) = .error v ↔ FirstUnmet (asked b) v :=
          refuses b (t.childNode c)
        cases hd : change b (t.childNode c) with
        | ok d => simp [modify, hc, hb, resolves, ← asks, hd]
        | error v => simp [modify, hc, hb, resolves, ← asks, hd, eq_comm (a := e)]
  · simp [modify, hc, unresolved, eq_comm (a := e)]

/-- **When a write succeeds.** -/
theorem modify_eq_ok_iff (refuses : ∀ b n v, change b n = .error v ↔ FirstUnmet (asked b) v) :
    (t.modify h c change).1 = .ok () ↔ ∀ d ∈ t.demands h c asked, d.met := by
  rw [forall_met_iff]
  constructor
  · intro ok v unmet
    rw [(modify_eq_error_iff refuses).mpr ⟨v, rfl, unmet⟩] at ok
    cases ok
  · intro granted
    cases he : (t.modify h c change).1 with
    | ok a => rfl
    | error e =>
        obtain ⟨v, _, unmet⟩ := (modify_eq_error_iff refuses).mp he
        exact absurd unmet (granted v)

theorem demands_met_iff :
    (∀ d ∈ t.demands h c asked, d.met) ↔
      (c = .null ∨ ∃ n, t.node? c = some n) ∧
        ∃ b, t.builder? h = some b ∧ ∀ d ∈ asked b, d.met := by
  rw [demands, List.forall_mem_cons, List.forall_mem_cons]
  refine and_congr_right fun _ => ?_
  cases t.builder? h <;> simp

variable {index : Nat} {key : String}

theorem setValue_eq_error_iff :
    (t.setValue h index c).1 = .error e ↔
      ∃ v, e = .contractViolation v ∧ FirstUnmet (t.demands h c (·.writeDemands index)) v :=
  modify_eq_error_iff fun _ _ _ => Builder.write_eq_error_iff

theorem setValue_eq_ok_iff :
    (t.setValue h index c).1 = .ok () ↔ ∀ d ∈ t.demands h c (·.writeDemands index), d.met :=
  modify_eq_ok_iff fun _ _ _ => Builder.write_eq_error_iff

theorem setKeyValue_eq_error_iff :
    (t.setKeyValue h key c).1 = .error e ↔
      ∃ v, e = .contractViolation v ∧ FirstUnmet (t.demands h c Builder.bindDemands) v :=
  modify_eq_error_iff fun _ _ _ => Builder.bind_eq_error_iff

theorem setKeyValue_eq_ok_iff :
    (t.setKeyValue h key c).1 = .ok () ↔ ∀ d ∈ t.demands h c Builder.bindDemands, d.met :=
  modify_eq_ok_iff fun _ _ _ => Builder.bind_eq_error_iff

end Demanding

section Effect

/-- **What a write changes.** -/
theorem onlyBuilder_modify (ok : (t.modify h c change).1 = .ok ()) :
    ∃ b d, t.builder? h = some b ∧ change b (t.childNode c) = .ok d ∧
      OnlyBuilder t (t.modify h c change).2 h d := by
  rcases t.modify_effect h c change with ⟨e, he⟩ | ⟨n, b, d, hn, hb, hd, he⟩
  · rw [he] at ok
    cases ok
  · rw [he]
    rw [← childNode_of_child hn] at hd
    exact ⟨b, d, hb, hd, rfl, rfl, rfl, Handle.getElem?_insert_self ..,
      fun k other => Handle.getElem?_insert_of_ne _ _ (Ne.symm other)⟩

theorem table_modify_of_not_ok (fails : (t.modify h c change).1 ≠ .ok ()) :
    (t.modify h c change).2 = t := by
  cases he : (t.modify h c change).1 with
  | ok a => exact absurd he fails
  | error e => exact table_modify_of_error he

end Effect

/-- **The exact demands and the exact effect of writes.**  In every table that is reached:

* a write to a place succeeds exactly if the child is null or resolves and the handle names a builder
  that is open, of an array, and long enough; the binding of a key succeeds exactly if the child is null
  or resolves and the handle names a builder that is open and of an object;
* a write that fails is refused for the first demand that is not met, and changes nothing;
* a write that succeeds leaves the nodes, the counter, the supply and all other builders as they are, and
  of its own builder it changes one place: to the node of the child, or to null for the null handle.  A
  key that was bound keeps its place among the others, and a new one goes to the end. -/
theorem writes_exact (ops : List Operation) (h c : Handle) :
    let t := run {} ops
    (∀ index,
      let written := t.setValue h index c
      (written.1 = .ok () ↔
        (c = .null ∨ ∃ n, t.node? c = some n) ∧
          ∃ b, t.builder? h = some b ∧ b.isBuilt = false ∧ b.mode = .array ∧ index < b.length) ∧
      (∀ e, written.1 = .error e ↔
        ∃ v, e = .contractViolation v ∧ FirstUnmet (t.demands h c (·.writeDemands index)) v) ∧
      (written.1 ≠ .ok () → written.2 = t) ∧
      (written.1 = .ok () →
        ∃ slots, t.builder? h = some (.array slots) ∧
          OnlyBuilder t written.2 h (.array (slots.set index (t.childNode c))))) ∧
    ∀ key,
      let bound := t.setKeyValue h key c
      (bound.1 = .ok () ↔
        (c = .null ∨ ∃ n, t.node? c = some n) ∧
          ∃ b, t.builder? h = some b ∧ b.isBuilt = false ∧ b.mode = .object) ∧
      (∀ e, bound.1 = .error e ↔
        ∃ v, e = .contractViolation v ∧ FirstUnmet (t.demands h c Builder.bindDemands) v) ∧
      (bound.1 ≠ .ok () → bound.2 = t) ∧
      (bound.1 = .ok () →
        ∃ entries new, t.builder? h = some (.object entries) ∧ (Entries.keys entries).Nodup ∧
          OnlyBuilder t bound.2 h (.object new) ∧
          ((∃ before old rest, entries = before ++ (key, old) :: rest ∧
              new = before ++ (key, t.childNode c) :: rest) ∨
            key ∉ Entries.keys entries ∧ new = entries ++ [(key, t.childNode c)])) := by
  intro t
  have distinct : BuildersHave (fun b => b.keys.Nodup) t := BuildersHave.empty.run kept_nodup_keys
  refine ⟨fun index => ⟨?_, fun e => setValue_eq_error_iff, table_modify_of_not_ok, fun ok => ?_⟩,
    fun key => ⟨?_, fun e => setKeyValue_eq_error_iff, table_modify_of_not_ok, fun ok => ?_⟩⟩
  · rw [setValue_eq_ok_iff, demands_met_iff]
    simp [Builder.writeDemands]
  · obtain ⟨b, d, found, written, only⟩ := onlyBuilder_modify ok
    obtain ⟨slots, rfl, _, rfl⟩ := Builder.exists_of_write written
    exact ⟨slots, found, only⟩
  · rw [setKeyValue_eq_ok_iff, demands_met_iff]
    simp [Builder.bindDemands]
  · obtain ⟨b, d, found, bound, only⟩ := onlyBuilder_modify ok
    obtain ⟨entries, rfl, rfl⟩ := Builder.exists_of_bind bound
    refine ⟨entries, _, found, distinct h _ (getElem?_of_builder? found), only, ?_⟩
    by_cases known : key ∈ Entries.keys entries
    · obtain ⟨before, old, rest, same, inserted⟩ := Entries.exists_insert_of_mem (t.childNode c) known
      exact .inl ⟨before, old, rest, same, inserted⟩
    · exact .inr ⟨known, Entries.insert_of_not_mem _ known⟩

/-- An open array, an object with two keys and an array that was built.  The open array is no child, not
even for a place that it does not have; the built one is a child, but takes none; and a key that is bound
again stays in front. -/
theorem writes_exact_among_overlapping_faults :
    let seven : Node := .leaf (.int 7)
    let ops : List Operation :=
      [.openBuilder .array 1, .registerNode seven, .openBuilder .object 0,
        .setKeyValue ⟨3⟩ "b" ⟨2⟩, .setKeyValue ⟨3⟩ "a" ⟨2⟩, .openBuilder .array 1, .build ⟨4⟩]
    let t := run {} ops
    (t.setValue ⟨1⟩ 5 ⟨1⟩).1 = .error (.contractViolation (.unresolvedChild ⟨1⟩)) ∧
      (t.setValue ⟨4⟩ 5 ⟨4⟩).1 = .error (.contractViolation .alreadyBuilt) ∧
      (t.setValue ⟨4⟩ 5 ⟨4⟩).2 = t ∧
      (t.setValue ⟨1⟩ 0 ⟨2⟩).1 = .ok () ∧
      OnlyBuilder t (t.setValue ⟨1⟩ 0 ⟨2⟩).2 ⟨1⟩ (.array [seven]) ∧
      (t.setKeyValue ⟨3⟩ "b" .null).1 = .ok () ∧
      OnlyBuilder t (t.setKeyValue ⟨3⟩ "b" .null).2 ⟨3⟩ (.object [("b", .null), ("a", seven)]) := by
  intro seven ops
  have exactly := writes_exact ops
  have unnamed : (run {} ops).node? ⟨1⟩ = none := by
    subst ops seven
    rfl
  have named : (run {} ops).node? ⟨2⟩ = some seven := by
    subst ops seven
    rfl
  have array : (run {} ops).builder? ⟨1⟩ = some (.array [.null]) := by
    subst ops seven
    rfl
  have object : (run {} ops).builder? ⟨3⟩ = some (.object [("b", seven), ("a", seven)]) := by
    subst ops seven
    rfl
  have refused : ((run {} ops).setValue ⟨4⟩ 5 ⟨4⟩).1 = .error (.contractViolation .alreadyBuilt) := by
    subst ops seven
    rfl
  have rebound : ((run {} ops).setKeyValue ⟨3⟩ "b" .null).2.builders[(⟨3⟩ : Handle)]? =
      some (.object [("b", .null), ("a", seven)]) := by
    subst ops seven
    rfl
  -- What the operations lead to is known now, and need not be computed again.
  generalize run {} ops = t at *
  obtain ⟨_, fails, _, _⟩ := (exactly ⟨1⟩ ⟨1⟩).1 5
  obtain ⟨_, _, kept, _⟩ := (exactly ⟨4⟩ ⟨4⟩).1 5
  obtain ⟨succeeds, _, _, effect⟩ := (exactly ⟨1⟩ ⟨2⟩).1 0
  obtain ⟨succeedsToo, _, _, effectToo⟩ := (exactly ⟨3⟩ .null).2 "b"
  have unresolved : ¬ ((⟨1⟩ : Handle) = .null ∨ ∃ n, t.node? ⟨1⟩ = some n) := by
    simp [unnamed, Handle.null]
  have written := succeeds.mpr ⟨.inr ⟨seven, named⟩, _, array, rfl, rfl, Nat.one_pos⟩
  have bound := succeedsToo.mpr ⟨.inl rfl, _, object, rfl, rfl⟩
  obtain ⟨slots, found, only⟩ := effect written
  cases array.symm.trans found
  have child : t.childNode ⟨2⟩ = seven := by rw [childNode, named, Option.getD_some]
  rw [child] at only
  obtain ⟨entries, new, _, _, onlyToo, _⟩ := effectToo bound
  cases onlyToo.builder.symm.trans rebound
  refine ⟨(fails _).mpr ⟨_, rfl, firstUnmet_cons.mpr (.inl ⟨unresolved, rfl⟩)⟩, refused,
    kept fun ok => ?_, written, only, bound, onlyToo⟩
  cases refused.symm.trans ok

end Table

end TreeHandles
