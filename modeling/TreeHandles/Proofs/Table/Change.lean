import TreeHandles.Table.Operation

/-!
# What one operation does to a table

Every operation on a table, except the one that empties it, makes one of seven changes.  A change
says in full what becomes of the counter, of the nodes and of the builders, so that whatever is
kept by each of the seven changes is kept by every operation.

**Results.**
* `valueAt_cases`, `modify_cases`, `borrow_cases`, `finish_cases`, `build_cases`: the ways in which
  an operation with several points of failure can end.
* `modify_effect`, `finish_effect` and `build_effect`: what such an operation changes, if it changes
  anything.
* `build_of_finish?` and `build_of_built`: what building an open builder and a built one does.
* `change_apply`: an operation that does not empty the table makes a change, and gives the handle
  that the change issues.
-/

namespace TreeHandles

namespace Builder

/-- What a builder can have become after some operations: its mode stays, a built one stays as it
is, and an open array keeps its length. -/
structure Later (b c : Builder) : Prop where
  mode_eq : c.mode = b.mode
  eq_of_built : b.isBuilt = true → c = b
  length_eq : b.mode = .array → c.isBuilt = false → c.length = b.length

namespace Later

theorem refl (b : Builder) : Later b b := ⟨rfl, fun _ => rfl, fun _ _ => rfl⟩

theorem trans {b c d : Builder} (first : Later b c) (second : Later c d) : Later b d := by
  refine ⟨second.mode_eq.trans first.mode_eq, ?_, ?_⟩
  · intro built
    have same : c = b := first.eq_of_built built
    exact (second.eq_of_built (same ▸ built)).trans same
  · intro array isOpen
    cases hc : c.isBuilt with
    | true =>
        rw [second.eq_of_built hc, hc] at isOpen
        cases isOpen
    | false =>
        have arrayThen : c.mode = .array := first.mode_eq.trans array
        exact (second.length_eq arrayThen isOpen).trans (first.length_eq array hc)

end Later

theorem later_write {b c : Builder} {index : Nat} {n : Node} (h : b.write index n = .ok c) :
    Later b c := by
  refine ⟨mode_write h, fun built => ?_, fun _ _ => length_write h⟩
  obtain ⟨slots, rfl, _, _⟩ := exists_of_write h
  cases built

theorem later_bind {b c : Builder} {key : String} {n : Node} (h : b.bind key n = .ok c) :
    Later b c := by
  refine ⟨mode_bind h, fun built => ?_, fun array _ => ?_⟩
  · obtain ⟨entries, rfl, _⟩ := exists_of_bind h
    cases built
  · obtain ⟨entries, rfl, _⟩ := exists_of_bind h
    cases array

theorem isBuilt_eq_false_of_finish? {b : Builder} {supply : Allocation} {n : Node}
    (made : b.finish? supply = some n) : b.isBuilt = false := by
  cases b with
  | built mode => cases made
  | object entries => rfl
  | array slots => rfl

theorem later_finished {b : Builder} (isOpen : b.isBuilt = false) : Later b b.finished := by
  refine ⟨rfl, ?_, ?_⟩
  · intro built
    rw [isOpen] at built
    cases built
  · intro _ stillOpen
    cases stillOpen

theorem isNull_of_finish? {b : Builder} {supply : Allocation} {n : Node}
    (made : b.finish? supply = some n) : n.isNull = false := by
  cases b with
  | built mode => cases made
  | object entries =>
      cases made
      rfl
  | array slots =>
      cases made
      rfl

end Builder

namespace Table

/-- A change of a table by one operation, with the handle that the operation gives. -/
inductive Change (t : Table) : Handle → Table → Prop
  | idle (supply : Allocation) : Change t .null { t with supply }
  | allocate : Change t t.last.next { t with last := t.last.next }
  | register (n : Node) (supply : Allocation) (present : n.isNull = false) :
      Change t t.last.next
        { t with last := t.last.next, supply, nodes := t.nodes.insert t.last.next n }
  | openBuilder (b : Builder) :
      Change t t.last.next
        { t with last := t.last.next, builders := t.builders.insert t.last.next b }
  | write {h : Handle} {b c : Builder} (found : t.builders[h]? = some b) (later : b.Later c) :
      Change t .null { t with builders := t.builders.insert h c }
  | finish {h : Handle} {b : Builder} {n : Node} (found : t.builders[h]? = some b)
      (made : b.finish? t.supply = some n) :
      Change t .null
        { t with supply := t.supply.next, builders := t.builders.insert h b.finished }
  | build {h : Handle} {b : Builder} {n : Node} (found : t.builders[h]? = some b)
      (made : b.finish? t.supply = some n) :
      Change t t.last.next
        { last := t.last.next
          supply := t.supply.next
          nodes := (t.nodes.insert t.last.next n).insert h n
          builders := t.builders.insert h b.finished }

theorem getElem?_of_builder? {t : Table} {h : Handle} {b : Builder}
    (found : t.builder? h = some b) : t.builders[h]? = some b := by
  simp only [builder?] at found
  split at found
  · cases found
  · exact found

section Cases

variable (t : Table) (h : Handle)

theorem valueAt_cases (index : Nat) :
    (∃ e, (t.view h).childAt index = .error e ∧ t.valueAt h index = (.error e, t)) ∨
      ∃ n, (t.view h).childAt index = .ok n ∧ t.valueAt h index = done (t.register n) := by
  cases hc : (t.view h).childAt index with
  | error e => exact .inl ⟨e, rfl, by simp [valueAt, hc]⟩
  | ok n => exact .inr ⟨n, rfl, by simp [valueAt, hc]⟩

theorem modify_cases (child : Handle) (change : Builder → Node → Except Violation Builder) :
    (∃ e, t.child child = .error e ∧ t.modify h child change = (.error e, t)) ∨
      (∃ n, t.child child = .ok n ∧ t.builder? h = none ∧
        t.modify h child change = (.error (.contractViolation (.notTemporary h)), t)) ∨
      (∃ n b v, t.child child = .ok n ∧ t.builder? h = some b ∧ change b n = .error v ∧
        t.modify h child change = (.error (.contractViolation v), t)) ∨
      ∃ n b c, t.child child = .ok n ∧ t.builder? h = some b ∧ change b n = .ok c ∧
        t.modify h child change = (.ok (), { t with builders := t.builders.insert h c }) := by
  cases hn : t.child child with
  | error e => exact .inl ⟨e, rfl, by simp only [modify, hn]⟩
  | ok n =>
      refine .inr ?_
      cases hb : t.builder? h with
      | none => exact .inl ⟨n, rfl, rfl, by simp only [modify, hn, hb]⟩
      | some b =>
          refine .inr ?_
          cases hc : change b n with
          | error v => exact .inl ⟨n, b, v, rfl, rfl, hc, by simp only [modify, hn, hb, hc]⟩
          | ok c => exact .inr ⟨n, b, c, rfl, rfl, hc, by simp only [modify, hn, hb, hc]⟩

/-- A write changes one builder, or it fails and changes nothing. -/
theorem modify_effect (child : Handle) (change : Builder → Node → Except Violation Builder) :
    (∃ e, t.modify h child change = (.error e, t)) ∨
      ∃ n b c, t.child child = .ok n ∧ t.builder? h = some b ∧ change b n = .ok c ∧
        t.modify h child change = (.ok (), { t with builders := t.builders.insert h c }) := by
  rcases t.modify_cases h child change with
    ⟨e, _, he⟩ | ⟨n, _, _, he⟩ | ⟨n, b, v, _, _, _, he⟩ | written
  · exact .inl ⟨_, he⟩
  · exact .inl ⟨_, he⟩
  · exact .inl ⟨_, he⟩
  · exact .inr written

theorem borrow_cases (change : Builder → Except Violation Builder) :
    (t.borrow h change).2 = t ∨
      ∃ b c, t.builder? h = some b ∧ change b = .ok c ∧
        (t.borrow h change).2 = { t with builders := t.builders.insert h c } := by
  cases hb : t.builder? h with
  | none => exact .inl (by simp only [borrow, hb])
  | some b =>
      cases hc : change b with
      | error v => exact .inl (by simp only [borrow, hb, hc])
      | ok c => exact .inr ⟨b, c, rfl, hc, by simp only [borrow, hb, hc]⟩

theorem finish_cases :
    (t.builder? h = none ∧ t.finish h = (none, t)) ∨
      (∃ mode, t.builder? h = some (.built mode) ∧ t.finish h = (some none, t)) ∨
      ∃ b n, t.builder? h = some b ∧ b.finish? t.supply = some n ∧
        t.finish h = (some (some n),
          { t with supply := t.supply.next, builders := t.builders.insert h b.finished }) := by
  cases hb : t.builder? h with
  | none => exact .inl ⟨rfl, finish_of_none hb⟩
  | some b =>
      cases hn : b.finish? t.supply with
      | none =>
          cases b with
          | built mode => exact .inr (.inl ⟨mode, rfl, by simp [finish, hb, hn]⟩)
          | object entries => cases hn
          | array slots => cases hn
      | some n => exact .inr (.inr ⟨b, n, rfl, hn, by simp [finish, hb, hn]⟩)

theorem finish_effect :
    (t.finish h).2 = t ∨
      ∃ b n, t.builder? h = some b ∧ b.finish? t.supply = some n ∧ (t.finish h).2 =
        { t with supply := t.supply.next, builders := t.builders.insert h b.finished } := by
  rcases t.finish_cases h with ⟨_, hf⟩ | ⟨mode, _, hf⟩ | ⟨b, n, hb, hn, hf⟩
  · exact .inl (by rw [hf])
  · exact .inl (by rw [hf])
  · exact .inr ⟨b, n, hb, hn, by rw [hf]⟩

theorem build_of_finish? {b : Builder} {n : Node} (found : t.builder? h = some b)
    (made : b.finish? t.supply = some n) :
    t.build h = (.ok t.last.next,
      { last := t.last.next
        supply := t.supply.next
        nodes := (t.nodes.insert t.last.next n).insert h n
        builders := t.builders.insert h b.finished }) := by
  simp [build, finish, found, made, register, Builder.isNull_of_finish? made]

theorem build_of_built {mode : BuilderMode} (found : t.builder? h = some (.built mode)) :
    t.build h = (.ok .null, t) := by
  simp [build, finish, found, Builder.finish?]

theorem build_cases :
    (t.builder? h = none ∧ t.node? h = none ∧
        t.build h = (.error (.contractViolation (.notTemporary h)), t)) ∨
      (t.builder? h = none ∧ (∃ n, t.node? h = some n) ∧ t.build h = (.ok .null, t)) ∨
      (∃ mode, t.builder? h = some (.built mode) ∧ t.build h = (.ok .null, t)) ∨
      ∃ b n, t.builder? h = some b ∧ b.finish? t.supply = some n ∧
        t.build h = (.ok t.last.next,
          { last := t.last.next
            supply := t.supply.next
            nodes := (t.nodes.insert t.last.next n).insert h n
            builders := t.builders.insert h b.finished }) := by
  rcases t.finish_cases h with ⟨hb, hf⟩ | ⟨mode, hb, hf⟩ | ⟨b, n, hb, hn, hf⟩
  · cases named : t.node? h with
    | none => exact .inl ⟨hb, rfl, by simp [build, hf, named]⟩
    | some n => exact .inr (.inl ⟨hb, ⟨n, rfl⟩, by simp [build, hf, named]⟩)
  · exact .inr (.inr (.inl ⟨mode, hb, t.build_of_built h hb⟩))
  · exact .inr (.inr (.inr ⟨b, n, hb, hn, t.build_of_finish? h hb hn⟩))

end Cases

/-- The handle that an operation gives; null if it gives none, or fails. -/
def given (t : Table) (op : Operation) : Handle :=
  match (t.apply op).1 with
  | .ok h => h
  | .error _ => .null

theorem given_of_ok {t : Table} {op : Operation} {h : Handle} (ok : (t.apply op).1 = .ok h) :
    t.given op = h := by
  simp only [given, ok]

theorem given_of_error {t : Table} {op : Operation} {e : Error}
    (fails : (t.apply op).1 = .error e) : t.given op = .null := by
  simp only [given, fails]

theorem change_register (t : Table) (supply : Allocation) (n : Node) :
    Change t ({ t with supply }.register n).1 ({ t with supply }.register n).2 := by
  cases hn : n.isNull with
  | true =>
      simp only [register, hn]
      exact .idle supply
  | false =>
      simp only [register, hn]
      exact .register n supply hn

theorem change_modify (t : Table) (h child : Handle)
    {change : Builder → Node → Except Violation Builder}
    (later : ∀ {b n c}, change b n = .ok c → b.Later c) :
    Change t .null (t.modify h child change).2 := by
  rcases t.modify_effect h child change with ⟨e, he⟩ | ⟨n, b, c, _, hb, hc, he⟩
  · rw [he]
    exact .idle t.supply
  · rw [he]
    exact .write (getElem?_of_builder? hb) (later hc)

theorem change_borrow (t : Table) (h : Handle) {change : Builder → Except Violation Builder}
    (later : ∀ {b c}, change b = .ok c → b.Later c) : Change t .null (t.borrow h change).2 := by
  rcases t.borrow_cases h change with he | ⟨b, c, hb, hc, he⟩
  · rw [he]
    exact .idle t.supply
  · rw [he]
    exact .write (getElem?_of_builder? hb) (later hc)

theorem build_effect (t : Table) (h : Handle) :
    (t.given (.build h) = .null ∧ (t.build h).2 = t) ∨
      ∃ b n, t.builder? h = some b ∧ b.finish? t.supply = some n ∧
        t.given (.build h) = t.last.next ∧ (t.build h).2 =
          { last := t.last.next
            supply := t.supply.next
            nodes := (t.nodes.insert t.last.next n).insert h n
            builders := t.builders.insert h b.finished } := by
  simp only [given, apply]
  rcases t.build_cases h with
    ⟨_, _, he⟩ | ⟨_, _, he⟩ | ⟨mode, _, he⟩ | ⟨b, n, hb, hn, he⟩
  · exact .inl (by simp [he])
  · exact .inl (by simp [he])
  · exact .inl (by simp [he])
  · exact .inr ⟨b, n, hb, hn, by simp [he]⟩

/-- **What an operation can do.** -/
theorem change_apply (t : Table) {op : Operation} (kept : op ≠ .free) :
    Change t (t.given op) (t.after op) := by
  cases op with
  | allocate => exact .allocate
  | register steps => exact t.change_register _ _
  | registerNode n => exact t.change_register t.supply n
  | registerDocument d => exact t.change_register _ _
  | openBuilder mode size => exact .openBuilder _
  | free => exact absurd rfl kept
  | write h index n => exact t.change_borrow h Builder.later_write
  | bind h key n => exact t.change_borrow h Builder.later_bind
  | finish h =>
      simp only [given, after, apply]
      rcases t.finish_effect h with hf | ⟨b, n, hb, hn, hf⟩
      · rw [hf]
        exact .idle t.supply
      · rw [hf]
        exact .finish (getElem?_of_builder? hb) hn
  | valueAt h index =>
      simp only [given, after, apply]
      rcases t.valueAt_cases h index with ⟨e, _, he⟩ | ⟨n, _, he⟩
      · rw [he]
        exact .idle t.supply
      · rw [he]
        exact t.change_register t.supply n
  | setValue h index child =>
      have change : Change t .null (t.setValue h index child).2 :=
        t.change_modify h child Builder.later_write
      simp only [given, after, apply]
      cases (t.setValue h index child).1 <;> exact change
  | setKeyValue h key child =>
      have change : Change t .null (t.setKeyValue h key child).2 :=
        t.change_modify h child Builder.later_bind
      simp only [given, after, apply]
      cases (t.setKeyValue h key child).1 <;> exact change
  | build h =>
      simp only [after, apply]
      rcases t.build_effect h with ⟨none, he⟩ | ⟨b, n, hb, hn, issued, he⟩
      · rw [none, he]
        exact .idle t.supply
      · rw [issued, he]
        exact .build (getElem?_of_builder? hb) hn

end Table

end TreeHandles
