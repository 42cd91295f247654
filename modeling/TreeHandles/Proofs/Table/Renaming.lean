import TreeHandles.Proofs.Table.Change

/-!
# Tables up to the names of their handles

What a handle is called says nothing about what it names.  Two tables are the same up to a renaming of
handles if every handle names in the one what its new name does in the other, and the supply of
allocations is the same.  An operation on the one and the same operation on the other, under the new
names, then give the same up to the renaming, as long as the handles that they issue correspond.

**Results.**
* `Renamed.bindNode` and `Renamed.bindBuilder`: a binding that is made in both tables.
* `Corresponds.register`, `Corresponds.valueAt`, `Corresponds.modify`, `Corresponds.build` and others:
  each operation gives the same up to the renaming.
-/

namespace TreeHandles

/-- A breach of the contract under other names of handles. -/
def Violation.rename (ρ : Handle → Handle) : Violation → Violation
  | notTemporary h => notTemporary (ρ h)
  | unresolvedChild h => unresolvedChild (ρ h)
  | v => v

/-- An error under other names of handles. -/
def Error.rename (ρ : Handle → Handle) : Error → Error
  | lookupMiss h => lookupMiss (ρ h)
  | contractViolation v => contractViolation (v.rename ρ)
  | e => e

/-- A step of making nodes that takes its references from others. -/
def Assembly.mapSource {σ τ : Type} (f : σ → τ) : Assembly σ → Assembly τ
  | scalar s => scalar s
  | array items => array items
  | object entries => object entries
  | clone source => clone (f source)

theorem Assembly.assemble_mapSource {σ τ : Type} (f : σ → τ) (resolve : τ → Option Node)
    (supply : Allocation) (steps : List (Assembly σ)) :
    assemble resolve supply (steps.map (mapSource f)) =
      assemble (fun source => resolve (f source)) supply steps := by
  have each (b : Bench) (s : Assembly σ) :
      step resolve b (s.mapSource f) = step (fun source => resolve (f source)) b s := by
    cases s <;> rfl
  rw [assemble, List.foldl_map]
  simp only [each]
  rfl

/-- A handle that is present, and of which no other handle has the new name. -/
structure Handle.Separated (ρ : Handle → Handle) (h : Handle) : Prop where
  present : h ≠ .null
  only : ∀ k, ρ k = ρ h → k = h

theorem Handle.Separated.eq_iff {ρ : Handle → Handle} {h : Handle} (separated : h.Separated ρ)
    (k : Handle) : ρ h = ρ k ↔ h = k :=
  ⟨fun same => (separated.only k same.symm).symm, fun same => same ▸ rfl⟩

namespace Table

variable {ρ : Handle → Handle} {t u : Table} {h : Handle}

/-- The first table is the second up to the names of handles. -/
structure Renamed (ρ : Handle → Handle) (t u : Table) : Prop where
  null : ∀ h, (ρ h).isNull = h.isNull
  supply : u.supply = t.supply
  node : ∀ h, u.node? (ρ h) = t.node? h
  builder : ∀ h, u.builder? (ρ h) = t.builder? h
  separated : ∀ h b, t.builder? h = some b → h.Separated ρ

/-- The next handles that two counters issue correspond. -/
structure Fresh (ρ : Handle → Handle) (last last' : Handle) : Prop where
  next : last'.next = ρ last.next
  separated : last.next.Separated ρ

section Bindings

theorem node?_insert (t : Table) (present : h ≠ .null) (n : Node) (k : Handle) :
    { t with nodes := t.nodes.insert h n }.node? k = if h = k then some n else t.node? k := by
  by_cases same : h = k
  · subst same
    simp [node?, Handle.isNull, present]
  · simp [node?, same, Handle.getElem?_insert_of_ne]

theorem builder?_insert (t : Table) (present : h ≠ .null) (b : Builder) (k : Handle) :
    { t with builders := t.builders.insert h b }.builder? k =
      if h = k then some b else t.builder? k := by
  by_cases same : h = k
  · subst same
    simp [builder?, Handle.isNull, present]
  · simp [builder?, same, Handle.getElem?_insert_of_ne]

namespace Renamed

theorem rename_null (renamed : Renamed ρ t u) : ρ .null = .null := by
  have same := renamed.null .null
  simpa [Handle.isNull] using same

theorem rename_ne_null (renamed : Renamed ρ t u) (present : h ≠ .null) : ρ h ≠ .null := by
  have same := renamed.null h
  simp only [Handle.isNull] at same
  intro null
  simp [null, present] at same

theorem move (renamed : Renamed ρ t u) (last last' : Handle) :
    Renamed ρ { t with last } { u with last := last' } :=
  ⟨renamed.null, renamed.supply, renamed.node, renamed.builder, renamed.separated⟩

theorem supplied (renamed : Renamed ρ t u) (supply : Allocation) :
    Renamed ρ { t with supply } { u with supply } :=
  ⟨renamed.null, rfl, renamed.node, renamed.builder, renamed.separated⟩

theorem bindNode (renamed : Renamed ρ t u) (separated : h.Separated ρ) (n : Node) :
    Renamed ρ { t with nodes := t.nodes.insert h n } { u with nodes := u.nodes.insert (ρ h) n } := by
  refine ⟨renamed.null, renamed.supply, ?_, renamed.builder, renamed.separated⟩
  intro k
  rw [node?_insert _ (renamed.rename_ne_null separated.present), node?_insert _ separated.present]
  simp only [separated.eq_iff, renamed.node]

theorem bindBuilder (renamed : Renamed ρ t u) (separated : h.Separated ρ) (b : Builder) :
    Renamed ρ { t with builders := t.builders.insert h b }
      { u with builders := u.builders.insert (ρ h) b } := by
  refine ⟨renamed.null, renamed.supply, renamed.node, ?_, ?_⟩
  · intro k
    rw [builder?_insert _ (renamed.rename_ne_null separated.present),
      builder?_insert _ separated.present]
    simp only [separated.eq_iff, renamed.builder]
  · intro k c found
    rw [builder?_insert _ separated.present] at found
    split at found
    · next same => exact same ▸ separated
    · exact renamed.separated k c found

theorem free (renamed : Renamed ρ t u) : Renamed ρ t.free u.free := by
  have noNode (v : Table) (h : Handle) : v.free.node? h = none := by simp [Table.free, node?]
  have noBuilder (v : Table) (h : Handle) : v.free.builder? h = none := by
    simp [Table.free, builder?]
  refine ⟨renamed.null, renamed.supply, ?_, ?_, ?_⟩
  · exact fun h => (noNode _ _).trans (noNode _ _).symm
  · exact fun h => (noBuilder _ _).trans (noBuilder _ _).symm
  · intro h b found
    rw [noBuilder] at found
    cases found

end Renamed

end Bindings

section Reading

/-- A view of the same node under another handle misses under that handle, and else reads the same. -/
theorem payload_renamed (n : Option Node) (p : Payload) :
    (⟨ρ h, n⟩ : View).payload p = ((⟨h, n⟩ : View).payload p).mapError (Error.rename ρ) := by
  cases n with
  | none => rfl
  | some n =>
      cases n with
      | leaf s => cases as : s.as? p <;> simp only [View.payload, as] <;> rfl
      | array label items => rfl
      | object label entries => rfl

theorem keyAt_renamed (n : Option Node) (index : Nat) :
    (⟨ρ h, n⟩ : View).keyAt index = ((⟨h, n⟩ : View).keyAt index).mapError (Error.rename ρ) := by
  cases n with
  | none => rfl
  | some n =>
      cases n with
      | leaf s => rfl
      | array label items => rfl
      | object label entries =>
          cases place : (Entries.sortedKeys entries)[index]? <;>
            simp only [View.keyAt, place] <;> rfl

theorem childAt_renamed (n : Option Node) (index : Nat) :
    (⟨ρ h, n⟩ : View).childAt index =
      ((⟨h, n⟩ : View).childAt index).mapError (Error.rename ρ) := by
  cases n with
  | none => rfl
  | some n =>
      cases n with
      | leaf s => rfl
      | array label items =>
          cases place : items[index]? <;> simp only [View.childAt, place] <;> rfl
      | object label entries =>
          cases place : (Entries.sortedKeys entries)[index]? with
          | none =>
              simp only [View.childAt, View.keyAt, place]
              rfl
          | some key =>
              cases found : Entries.find? key entries <;>
                simp only [View.childAt, View.keyAt, place, found] <;> rfl

theorem child_renamed (renamed : Renamed ρ t u) (h : Handle) :
    u.child (ρ h) = (t.child h).mapError (Error.rename ρ) := by
  rw [child, child, renamed.null, renamed.node]
  split
  · rfl
  · cases t.node? h <;> rfl

end Reading

section Operations

variable {α : Type} {rename : α → α}

/-- Two outcomes are the same up to the names of handles, and their counters have made the same steps
from those before. -/
structure Corresponds (ρ : Handle → Handle) (rename : α → α) (last last' : Handle)
    (o p : Outcome α) : Prop where
  answer : p.1 = (o.1.map rename).mapError (Error.rename ρ)
  renamed : Renamed ρ o.2 p.2
  counters : o.2.last = last ∧ p.2.last = last' ∨ o.2.last = last.next ∧ p.2.last = last'.next

namespace Corresponds

theorem of_reading (renamed : Renamed ρ t u) {r r' : Except Error α}
    (same : r' = (r.map rename).mapError (Error.rename ρ)) :
    Corresponds ρ rename t.last u.last (r, t) (r', u) :=
  ⟨same, renamed, .inl ⟨rfl, rfl⟩⟩

theorem register (renamed : Renamed ρ t u) (n : Node)
    (fresh : (t.register n).2.last ≠ t.last → Fresh ρ t.last u.last) :
    Corresponds ρ ρ t.last u.last (done (t.register n)) (done (u.register n)) := by
  cases null : n.isNull with
  | true =>
      simp only [Table.register, null, if_true]
      exact ⟨congrArg Except.ok renamed.rename_null.symm, renamed, .inl ⟨rfl, rfl⟩⟩
  | false =>
      simp only [Table.register, null, Bool.false_eq_true, if_false] at fresh ⊢
      obtain ⟨next, separated⟩ := fresh (Handle.next_ne _)
      refine ⟨congrArg Except.ok next, ?_, .inr ⟨rfl, rfl⟩⟩
      have moved := (renamed.move t.last.next u.last.next).bindNode separated n
      rwa [← next] at moved

theorem registerAssembly (renamed : Renamed ρ t u) (steps : List (Assembly Handle))
    (fresh : (t.registerAssembly steps).2.last ≠ t.last → Fresh ρ t.last u.last) :
    Corresponds ρ ρ t.last u.last (done (t.registerAssembly steps))
      (done (u.registerAssembly (steps.map (.mapSource ρ)))) := by
  have same : Assembly.assemble u.node? u.supply (steps.map (.mapSource ρ)) =
      Assembly.assemble t.node? t.supply steps := by
    rw [Assembly.assemble_mapSource, renamed.supply]
    simp only [renamed.node]
  rw [Table.registerAssembly, Table.registerAssembly, same]
  exact register (renamed.supplied _) _ fresh

theorem registerDocument (renamed : Renamed ρ t u) (d : Document)
    (fresh : (t.registerDocument d).2.last ≠ t.last → Fresh ρ t.last u.last) :
    Corresponds ρ ρ t.last u.last (done (t.registerDocument d)) (done (u.registerDocument d)) := by
  rw [Table.registerDocument, Table.registerDocument, renamed.supply]
  exact register (renamed.supplied _) _ fresh

theorem openBuilder (renamed : Renamed ρ t u) (mode : BuilderMode) (size : Nat)
    (fresh : Fresh ρ t.last u.last) :
    Corresponds ρ ρ t.last u.last (done (t.openBuilder mode size))
      (done (u.openBuilder mode size)) := by
  have moved := (renamed.move t.last.next u.last.next).bindBuilder fresh.separated (.new mode size)
  rw [← fresh.next] at moved
  exact ⟨congrArg Except.ok fresh.next, moved, .inr ⟨rfl, rfl⟩⟩

theorem valueAt (renamed : Renamed ρ t u) (h : Handle) (index : Nat)
    (fresh : (t.valueAt h index).2.last ≠ t.last → Fresh ρ t.last u.last) :
    Corresponds ρ ρ t.last u.last (t.valueAt h index) (u.valueAt (ρ h) index) := by
  have same : (u.view (ρ h)).childAt index =
      ((t.view h).childAt index).mapError (Error.rename ρ) := by
    rw [view, view, renamed.node, childAt_renamed]
  rw [Table.valueAt] at fresh ⊢
  rw [Table.valueAt, same]
  cases place : (t.view h).childAt index with
  | error e => exact of_reading renamed rfl
  | ok n =>
      rw [place] at fresh
      exact register renamed n fresh

theorem modify (renamed : Renamed ρ t u) (h child : Handle)
    {change : Builder → Node → Except Violation Builder}
    (nameless : ∀ b n v, change b n = .error v → v.rename ρ = v) :
    Corresponds ρ id t.last u.last (t.modify h child change) (u.modify (ρ h) (ρ child) change) := by
  have same := child_renamed renamed child
  rw [Table.modify, Table.modify, renamed.builder]
  cases looked : t.child child with
  | error e =>
      rw [looked] at same
      rw [show u.child (ρ child) = .error (e.rename ρ) from same]
      exact of_reading renamed rfl
  | ok n =>
      rw [looked] at same
      rw [show u.child (ρ child) = .ok n from same]
      cases found : t.builder? h with
      | none => exact of_reading renamed rfl
      | some b =>
          dsimp only
          cases changed : change b n with
          | error v =>
              refine of_reading renamed ?_
              show _ = Except.error (Error.contractViolation (v.rename ρ))
              rw [nameless b n v changed]
          | ok c =>
              exact ⟨rfl, renamed.bindBuilder (renamed.separated h b found) c, .inl ⟨rfl, rfl⟩⟩

theorem build (renamed : Renamed ρ t u) (h : Handle)
    (fresh : (t.build h).2.last ≠ t.last → Fresh ρ t.last u.last) :
    Corresponds ρ ρ t.last u.last (t.build h) (u.build (ρ h)) := by
  have builder := renamed.builder h
  have node := renamed.node h
  have null : (.ok .null : Except Error Handle) = .ok (ρ .null) := by rw [renamed.rename_null]
  rcases t.build_cases h with
    ⟨hb, hn, he⟩ | ⟨hb, ⟨n, hn⟩, he⟩ | ⟨mode, hb, he⟩ | ⟨b, n, hb, made, he⟩
  · rw [hb] at builder
    rw [hn] at node
    rw [he, show u.build (ρ h) = (.error (.contractViolation (.notTemporary (ρ h))), u) by
      simp [Table.build, finish_of_none builder, node]]
    exact of_reading renamed rfl
  · rw [hb] at builder
    rw [hn] at node
    rw [he, show u.build (ρ h) = (.ok .null, u) by
      simp [Table.build, finish_of_none builder, node]]
    exact of_reading renamed null
  · rw [hb] at builder
    rw [he, u.build_of_built _ builder]
    exact of_reading renamed null
  · rw [hb] at builder
    rw [← renamed.supply] at made
    rw [he] at fresh
    obtain ⟨next, separated⟩ := fresh (Handle.next_ne _)
    rw [he, u.build_of_finish? _ builder made]
    refine ⟨congrArg Except.ok next, ?_, .inr ⟨rfl, rfl⟩⟩
    -- The node is bound twice, and the builder stays without contents.
    have own := renamed.separated h b hb
    have issued := (renamed.move t.last.next u.last.next).bindNode separated n
    rw [← next] at issued
    have bound := (issued.bindNode own n).bindBuilder own b.finished
    rw [renamed.supply]
    exact bound.supplied t.supply.next

end Corresponds

end Operations

end Table

end TreeHandles
