import TreeHandles.Proofs.Origin.Step
import TreeHandles.Proofs.Session.Sharing

/-!
# Identity is origin

A caller who keeps a ledger of its calls knows for any two arrays or objects, without asking, whether
they are the same: they are if they have one origin.

**Results.**
* `Request.given_answer` and `given_perform`: the handle that a call answers is the one that its
  operation gives.
* `Known.run`: along a run, the ledger stays the shadow of the table.
* `sameAs_iff_origin`: composites are the same exactly if their origins are equal.
* `pairwise_products`: what different calls build or load has different origins.
* `identity_is_origin`: identity is origin, with what follows for readings, writings and makings.
-/

namespace TreeHandles

open TreeHandles.Tree

variable {s : Shape}

section Answers

theorem Shape.given_empty (s : Shape) : s.given s.empty = .null := by
  cases s <;> rfl

theorem Request.given_fallback {τ : Type} (r : Request τ s) : s.given r.fallback = .null := by
  cases r <;> rfl

theorem Request.given_answer {options : Options} {t : Table} {r : Request String s}
    {op : Table.Operation} (h : r.operation? options = some op) :
    (r.answer options t).1.map s.given = (t.apply op).1 := by
  cases r with
  | loadJson source =>
      simp only [operation?] at h
      split at h
      · next parsed =>
          cases h
          simp only [answer, parsed]
          rfl
      · cases h
  | newArray length =>
      simp only [operation?] at h
      split at h
      · cases h
      · next fits =>
          cases h
          simp only [answer, if_neg fits]
          rfl
  | valueAt h index =>
      cases h
      show (t.valueAt _ index).1.map (Shape.given .handle) = (t.valueAt _ index).1
      cases (t.valueAt _ index).1 <;> rfl
  | build h =>
      cases h
      show (t.build _).1.map (Shape.given .handle) = (t.build _).1
      cases (t.build _).1 <;> rfl
  | kind | asString | asInt | asUint | asFloat | asBool | size | keyAt | sameAs | toJson => cases h
  | _ =>
      cases h
      rfl

end Answers

namespace Session

variable {os : List Origin} {call : Nat} {g : Ledger} {base a b h r : Handle} {x y z : Session}
  {m n : Node} {calls more rest : List AnyCall}

/-- **The handle in an answer is the one that the operation gave.** -/
theorem given_perform {c : Call s} {answer : s.Answer} {op : Table.Operation}
    (hc : x.perform c = .ok (answer, y)) (hop : c.operation? x.options = some op) :
    s.given answer = x.table.given op := by
  cases c with
  | request r =>
      have same := Request.given_answer (t := x.table) hop
      rcases request_cases r hc with ⟨ok, _⟩ | ⟨⟨k, missed⟩, rfl, _⟩ | ⟨e, failed, _, rfl, _⟩
      · rw [ok] at same
        exact (Table.given_of_ok same.symm).symm
      · rw [missed] at same
        exact s.given_empty.trans (Table.given_of_error same.symm).symm
      · rw [failed] at same
        exact r.given_fallback.trans (Table.given_of_error same.symm).symm
  | register steps =>
      cases hop
      cases hc
      rfl
  | free =>
      cases hop
      rfl
  | report | clearError | hasError => cases hop

/-- Whether a handle names an array or an object. -/
def Composite (x : Session) (h : Handle) : Prop := ∃ n, x.node? h = some n ∧ n.isComposite = true

/-- What a ledger has to do with a session that was reached while the numbers last. -/
structure Known (os : List Origin) (call : Nat) (x : Session) (g : Ledger) : Prop where
  standing : x.Standing
  shadows : Shadows os call x.table g

namespace Known

variable (known : Known os call x g)

include known

theorem nodes_eq (h : Handle) : g.nodes[h]? = (x.node? h).map (relabel (originOf os)) :=
  known.shadows.node?_eq known.standing.sound h

theorem perform {c : Call s} {answer : s.Answer} (hc : x.perform c = .ok (answer, y))
    (forward : x.table.last ≤ y.table.last) :
    ∃ new, Known (os ++ new) (call + 1) y (note x.options call c answer g) := by
  have standing : y.Standing := known.standing.perform hc forward
  have table := (perform_keeps hc).1
  cases hop : c.operation? x.options with
  | none =>
      rw [hop] at table
      have noted : note x.options call c answer g = g := by simp only [note, hop]
      have same : Shadows (os ++ []) (call + 1) x.table g :=
        (List.append_nil os).symm ▸ known.shadows.next
      exact ⟨[], standing, by rw [table, noted]; exact same⟩
  | some op =>
      rw [hop] at table
      have after : y.table = x.table.after op := table
      have noted : note x.options call c answer g = g.record call (x.table.given op) op := by
        simp only [note, hop, given_perform hc hop]
      obtain ⟨memory, stored⟩ := known.standing.stored
      rw [after] at forward
      obtain ⟨new, shadows⟩ := known.shadows.after known.standing.sound stored
        (sourced_of_operation? hop) forward
      exact ⟨new, standing, by rw [after, noted]; exact shadows⟩

/-- **Along a run, the ledger stays the shadow of the table.** -/
theorem run (ready : Ready base x (calls ++ more)) (hx : x.run calls = .ok y) :
    ∃ new, Known (os ++ new) (call + calls.length) y (x.ledger call g calls) := by
  induction calls generalizing x os call g with
  | nil =>
      cases hx
      exact ⟨[], (List.append_nil os).symm ▸ known⟩
  | cons c rest ih =>
      obtain ⟨answer, w, hc, hx⟩ := run_cons.mp hx
      obtain ⟨readyThen, forward⟩ := ready.perform hc
      obtain ⟨first, knownThen⟩ := known.perform hc forward
      obtain ⟨later, knownLast⟩ := ih knownThen readyThen hx
      refine ⟨first ++ later, ?_⟩
      rw [← List.append_assoc, List.length_cons, Nat.add_comm rest.length, ← Nat.add_assoc]
      simpa only [ledger, hc] using knownLast

theorem label?_eq (found : x.node? h = some n) :
    g.origin? h = n.label?.map (originOf os) := by
  rw [Ledger.origin?, known.nodes_eq, found, Option.map_some, Option.bind_some, label?_relabel]

/-- What has an origin is an array or an object. -/
theorem origin?_isSome (h : Handle) : (g.origin? h).isSome = true ↔ x.Composite h := by
  cases hn : x.node? h with
  | none => simp [Ledger.origin?, known.nodes_eq, hn, Composite]
  | some n => simp [known.label?_eq hn, Composite, hn, isComposite]

/-- A handle keeps the origin of what it names. -/
theorem origin?_eq {new : List Origin} {last : Nat} {k : Ledger}
    (later : Known (os ++ new) last y k) (found : x.node? h = some n) (kept : y.node? h = some n) :
    k.origin? h = g.origin? h := by
  obtain ⟨memory, stored⟩ := known.standing.stored
  rw [later.label?_eq kept, known.label?_eq found]
  cases label : n.label? with
  | none => rfl
  | some a =>
      have inside := (stored.node? found).number_lt
        (mem_labels_iff.mpr ⟨n, n.self_mem_subtrees, label⟩)
      rw [stored.counted, ← known.shadows.counted] at inside
      exact congrArg some (originOf_append inside)

/-- **Composites are the same exactly if their origins are equal.** -/
theorem sameAs_iff_origin (ha : x.node? a = some m) (hb : x.node? b = some n)
    (composite : m.isComposite = true) (compositeToo : n.isComposite = true) :
    x.SameAs a b ↔ g.origin? a = g.origin? b := by
  obtain ⟨memory, stored⟩ := known.standing.stored
  have heldA := stored.node? ha
  have heldB := stored.node? hb
  obtain ⟨j, hj⟩ := Option.isSome_iff_exists.mp composite
  obtain ⟨k, hk⟩ := Option.isSome_iff_exists.mp compositeToo
  rw [sameAs_iff known.standing, known.label?_eq ha, known.label?_eq hb, hj, hk]
  constructor
  · intro same
    rw [ha, hb] at same
    cases same
    rw [← hj, hk]
  · intro same
    have labelled : ∀ {n : Node} {i : Allocation}, Node.Held memory n → n.label? = some i →
        os[i.number]? = some (originOf os i) := by
      intro n i held label
      have inside := held.number_lt (mem_labels_iff.mpr ⟨n, n.self_mem_subtrees, label⟩)
      rw [stored.counted, ← known.shadows.counted] at inside
      rw [originOf, List.getElem?_eq_getElem inside]
      rfl
    have placeA := labelled heldA hj
    have placeB := labelled heldB hk
    rw [← Option.some.inj same] at placeB
    -- No two allocations have one origin.
    have numbers : j.number = k.number :=
      (List.getElem?_inj (List.getElem?_eq_some_iff.mp placeA).1 known.shadows.distinct).mp
        (placeA.trans placeB.symm)
    have labels : m.label? = n.label? := by
      rw [hj, hk]
      exact congrArg (some ∘ Allocation.mk) numbers
    have identical := (Node.same_iff_label?_eq heldA heldB composite).mpr labels
    rw [ha, hb, known.standing.eq_of_same ha hb identical]

end Known

section Products

/-- The handle that a call answers that builds or loads. -/
def product? (x : Session) : AnyCall → Option Handle
  | ⟨_, .request (.build h)⟩ => (x.request (.build h)).toOption.map Prod.fst
  | ⟨_, .request (.loadJson source)⟩ => (x.request (.loadJson source)).toOption.map Prod.fst
  | _ => none

/-- What is built is entered with its call as origin. -/
theorem origin_of_build (known : Known os call x g)
    (built : x.perform (.request (.build h)) = .ok (r, y)) (issued : r ≠ .null) :
    (∃ n, y.table.nodes[r]? = some n) ∧
      (note x.options call (.request (.build h)) r g).origin? r = some (.built call) := by
  rcases request_cases _ built with ⟨ok, rfl⟩ | ⟨_, rfl, _⟩ | ⟨_, _, _, rfl, _⟩
  · have draft := known.shadows.builder?_eq known.standing.sound h
    simp only [Request.answer] at ok ⊢
    rcases x.table.build_cases h with
      ⟨_, _, he⟩ | ⟨_, _, he⟩ | ⟨mode, _, he⟩ | ⟨b, n, hb, hn, he⟩
    · rw [he] at ok
      cases ok
    · rw [he] at ok
      cases ok
      exact absurd rfl issued
    · rw [he] at ok
      cases ok
      exact absurd rfl issued
    · rw [he] at ok ⊢
      cases ok
      have now : originOf os x.table.supply = originOf os x.table.supply := rfl
      obtain ⟨d, hd, _⟩ := relabel_finish? hn now
      rw [hb, Option.bind_some, hd] at draft
      refine ⟨⟨n, ?_⟩, ?_⟩
      · simp only [Handle.getElem?_insert]
        split <;> rfl
      · simp only [note, Call.operation?, Request.operation?, Ledger.record, Shape.given, draft,
          Ledger.origin?, Handle.getElem?_insert]
        cases d <;> split <;> rfl
  · exact absurd rfl issued
  · exact absurd rfl issued

/-- What is loaded is entered with its call in every origin. -/
theorem origin_of_load {source : String}
    (loaded : x.perform (.request (.loadJson source)) = .ok (r, y)) (issued : r ≠ .null) :
    (∃ n, y.table.nodes[r]? = some n) ∧
      ∀ o, (note x.options call (.request (.loadJson source)) r g).origin? r = some o →
        o.call = call := by
  rcases request_cases _ loaded with ⟨ok, rfl⟩ | ⟨_, rfl, _⟩ | ⟨_, _, _, rfl, _⟩
  · simp only [Request.answer] at ok ⊢
    cases hd : Json.parse source with
    | error e =>
        rw [hd] at ok
        cases ok
    | ok d =>
        rw [hd] at ok
        have noted : note x.options call (.request (.loadJson source)) r g =
            g.name r (d.located (.loaded call)) := by
          simp only [note, Call.operation?, Request.operation?, hd, Ledger.record, Shape.given]
        refine ⟨?_, fun o entered => ?_⟩
        · have registered : (x.table.registerDocument d).1 = r := Except.ok.inj ok
          simp only [Table.done, Table.registerDocument, Table.register] at registered ⊢
          split at registered
          · exact absurd registered.symm issued
          · next present =>
              rw [if_neg present, ← registered]
              exact ⟨_, Handle.getElem?_insert_self ..⟩
        · rw [noted, Ledger.name_of_ne_null issued, Ledger.origin?,
            Handle.getElem?_insert_self] at entered
          rw [label?_located entered]
          rfl
  · exact absurd rfl issued
  · exact absurd rfl issued

/-- What a call builds or loads is named then, and entered with this call. -/
theorem call_of_note {c : AnyCall} {answer : c.1.Answer} (known : Known os call x g)
    (hc : x.perform c.2 = .ok (answer, y)) (product : product? x c = some r) (issued : r ≠ .null) :
    (∃ n, y.table.nodes[r]? = some n) ∧
      ∀ o, (note x.options call c.2 answer g).origin? r = some o → o.call = call := by
  obtain ⟨s, c⟩ := c
  cases c with
  | request q =>
      cases q with
      | build h =>
          have performed : x.request (.build h) = .ok (answer, y) := hc
          simp only [product?, performed] at product
          cases product
          obtain ⟨named, origin⟩ := origin_of_build known hc issued
          refine ⟨named, fun o entered => ?_⟩
          cases origin.symm.trans entered
          rfl
      | loadJson source =>
          have performed : x.request (.loadJson source) = .ok (answer, y) := hc
          simp only [product?, performed] at product
          cases product
          exact origin_of_load hc issued
      | _ => cases product
  | _ => cases product

/-- Whenever it resolves later, what a call built or loaded is of this call. -/
theorem call_of_product {c : AnyCall} {answer : c.1.Answer} {o : Origin}
    (known : Known os call x g) (ready : Ready base x (c :: rest))
    (hc : x.perform c.2 = .ok (answer, y)) (product : product? x c = some r)
    (hz : y.run rest = .ok z) (entered : (x.ledger call g (c :: rest)).origin? r = some o) :
    o.call = call := by
  obtain ⟨readyThen, forward⟩ := ready.perform hc
  obtain ⟨first, knownThen⟩ := known.perform hc forward
  have readyRest : Ready base y (rest ++ []) := (List.append_nil rest).symm ▸ readyThen
  obtain ⟨later, knownLast⟩ := knownThen.run readyRest hz
  simp only [ledger, hc] at entered
  cases hn : z.node? r with
  | none => simp [Ledger.origin?, knownLast.nodes_eq, hn] at entered
  | some n =>
      obtain ⟨⟨m, named⟩, origin⟩ := call_of_note known hc product (ne_null_of_node? hn)
      rw [← knownThen.standing.node?_eq] at named
      have kept := free_not_mem_of_node? readyThen hz (knownThen.standing.le_last named) hn
      have namedLast := knownThen.standing.node?_run readyRest hz kept named
      rw [knownThen.origin?_eq knownLast named namedLast] at entered
      exact origin o entered

/-- **What different calls build or load has origins in different calls.** -/
theorem pairwise_products (known : Known os call x g) (ready : Ready base x calls)
    (hz : x.run calls = .ok z) :
    (∀ a ∈ history product? x calls, ∀ o, (x.ledger call g calls).origin? a = some o →
        call ≤ o.call) ∧
      (history product? x calls).Pairwise fun a b => ∀ o p,
        (x.ledger call g calls).origin? a = some o → (x.ledger call g calls).origin? b = some p →
          o.call < p.call := by
  induction calls generalizing x os call g with
  | nil => exact ⟨fun _ ha => absurd ha List.not_mem_nil, .nil⟩
  | cons c rest ih =>
      obtain ⟨answer, y, hc, hy⟩ := run_cons.mp hz
      obtain ⟨readyThen, forward⟩ := ready.perform hc
      obtain ⟨first, knownThen⟩ := known.perform hc forward
      obtain ⟨laterCalls, pairwise⟩ := ih knownThen readyThen hy
      have now : ∀ a ∈ (product? x c).toList, ∀ o,
          (x.ledger call g (c :: rest)).origin? a = some o → o.call = call := fun a ha o entered =>
        call_of_product known ready hc (Option.mem_toList.mp ha) hy entered
      have later : ∀ a ∈ history product? y rest, ∀ o,
          (x.ledger call g (c :: rest)).origin? a = some o → call < o.call := by
        intro a ha o entered
        simp only [ledger, hc] at entered
        exact laterCalls a ha o entered
      have split : history product? x (c :: rest) =
          (product? x c).toList ++ history product? y rest := by
        simp only [history, hc]
      rw [split]
      refine ⟨fun a ha o entered => ?_, List.pairwise_append.mpr ⟨?_, ?_, ?_⟩⟩
      · rcases List.mem_append.mp ha with here | there
        · exact Nat.le_of_eq (now a here o entered).symm
        · exact Nat.le_of_lt (later a there o entered)
      · cases product? x c with
        | none => exact .nil
        | some a => exact List.pairwise_singleton _ _
      · simpa only [ledger, hc] using pairwise
      · intro a here b there o p enteredA enteredB
        rw [now a here o enteredA]
        exact later b there p enteredB

end Products

theorem ledger_append (hx : x.run calls = .ok y) :
    x.ledger call g (calls ++ more) =
      y.ledger (call + calls.length) (x.ledger call g calls) more := by
  induction calls generalizing x call g with
  | nil =>
      cases hx
      rfl
  | cons c rest ih =>
      obtain ⟨answer, w, hc, hx⟩ := run_cons.mp hx
      simp only [List.cons_append, ledger, hc]
      rw [ih hx, List.length_cons, Nat.add_comm rest.length, ← Nat.add_assoc]

/-- The ledger of all calls since a session was new. -/
def origins (options : Options) (calls : List AnyCall) : Ledger :=
  ledger (new options) 0 {} calls

theorem Known.new (options : Options) : Known [] 0 (new options) {} :=
  ⟨⟨.empty .null ⟨0⟩, [], Table.Stored.empty⟩, .empty⟩

theorem Known.of_run {options : Options} (hx : (Session.new options).run calls = .ok x)
    (few : allocations (Session.new options) calls < UInt64.size - 1) :
    ∃ os, Known os calls.length x (origins options calls) := by
  have start : Known [] 0 (Session.new options) {} := .new options
  have ready : Ready .null (Session.new options) (calls ++ []) :=
    (List.append_nil calls).symm ▸ Ready.of_run hx few
  obtain ⟨new, known⟩ := start.run ready hx
  rw [Nat.zero_add] at known
  exact ⟨[] ++ new, known⟩

/-- **Identity is origin.**  In every session that is reached while the numbers last, the ledger of
the calls says the same as the session, the handles with an origin are those that name arrays and
objects, and two of them show the same exactly if their origins are equal.

So a child that is read twice, through handles of one parent, gives two handles that show the same.
What is read back from a built parent shows the same as the handle that was written last to the
place.  A node that the host registers again shows the same as before.  A handle keeps its origin
until the session is emptied.  And two composites that were built or loaded by different calls never
show the same, whatever they hold. -/
theorem identity_is_origin (options : Options) (calls : List AnyCall) (x : Session)
    (hx : (new options).run calls = .ok x)
    (few : allocations (new options) calls < UInt64.size - 1) :
    let g := origins options calls
    (∀ h : Handle, g.nodes[h]?.map contents = (x.node? h).map contents) ∧
    (∀ h, (g.origin? h).isSome = true ↔ x.Composite h) ∧
    (∀ a b, x.Composite a → x.Composite b → (x.SameAs a b ↔ g.origin? a = g.origin? b)) ∧
    (∀ a b index c y between w d z, x.SameAs a b →
      x.perform (.request (.valueAt a index)) = .ok (c, y) →
      y.run between = .ok w → Call.free.toAny ∉ between →
      w.perform (.request (.valueAt b index)) = .ok (d, z) →
      allocations (new options) (calls ++ (Call.request (.valueAt a index)).toAny :: between ++
        [(Call.request (.valueAt b index)).toAny]) < UInt64.size - 1 →
      c ≠ .null → d ≠ .null ∧ c ≠ d ∧ z.SameAs c d) ∧
    (∀ t c place y between z b w after v a index d u,
      x.perform (.request (putting t c place)) = .ok ((), y) →
      ((putting t c place).answer x.options x.table).1 = .ok () →
      y.run between = .ok z → Call.free.toAny ∉ between →
      (Call.request (.build t)).toAny ∉ between → place ∉ placesWritten t y between →
      z.perform (.request (.build t)) = .ok (b, w) →
      w.run after = .ok v → Call.free.toAny ∉ after →
      v.SameAs a b → v.EnumeratedAt a index place →
      v.perform (.request (.valueAt a index)) = .ok (d, u) →
      allocations (new options) (calls ++ (Call.request (putting t c place)).toAny :: (between ++
        (Call.request (.build t)).toAny :: (after ++
          [(Call.request (.valueAt a index)).toAny]))) < UInt64.size - 1 →
      u.SameAs c d ∧ (d = .null ↔ c = .null)) ∧
    (∀ h n, x.node? h = some n →
      allocations (new options) (calls ++ [(Call.register [.clone h]).toAny]) < UInt64.size - 1 →
      ∃ r y, x.perform (.register [.clone h]) = .ok (r, y) ∧ r ≠ h ∧ y.SameAs h r) ∧
    (∀ more y, x.run more = .ok y → Call.free.toAny ∉ more →
      allocations (new options) (calls ++ more) < UInt64.size - 1 →
      ∀ h, x.Composite h → (origins options (calls ++ more)).origin? h = g.origin? h) ∧
    (history product? (new options) calls).Pairwise fun a b =>
      x.Composite a → x.Composite b → ¬ x.SameAs a b := by
  intro g
  obtain ⟨os, known⟩ := Known.of_run hx few
  have standing := known.standing
  -- What is called from here on has the numbers that the whole run has.
  have ready : ∀ {more z}, x.run more = .ok z →
      allocations (new options) (calls ++ more) < UInt64.size - 1 → Ready .null x more := by
    intro more z hz fewThen
    exact (Ready.of_run (run_append.mpr ⟨x, hx, hz⟩) fewThen).run hx
  refine ⟨?_, known.origin?_isSome, ?_, ?_, ?_, ?_, ?_, ?_⟩
  · intro h
    rw [known.nodes_eq, Option.map_map]
    exact Option.map_congr fun n _ => contents_relabel _ n
  · rintro a b ⟨m, ha, composite⟩ ⟨n, hb, compositeToo⟩
    exact known.sameAs_iff_origin ha hb composite compositeToo
  · intro a b index c y between w d z same first meanwhile kept second fewThen issued
    rw [List.append_assoc] at fewThen
    refine sameAs_valueAt_twice standing (ready (z := z) ?_ fewThen) same first meanwhile kept second
      issued
    exact run_cons.mpr ⟨c, y, first, run_append.mpr ⟨w, meanwhile, run_cons.mpr ⟨d, z, second, rfl⟩⟩⟩
  · intro t c place y between z b w after v a index d u performed written meanwhile kept unbuilt
      last built later keptLater same enumerated read fewThen
    refine sameAs_valueAt_written standing (ready (z := u) ?_ fewThen) performed written meanwhile
      kept unbuilt last built later keptLater same enumerated read
    exact run_cons.mpr ⟨_, y, performed, run_append.mpr ⟨z, meanwhile, run_cons.mpr ⟨b, w, built,
      run_append.mpr ⟨v, later, run_cons.mpr ⟨d, u, read, rfl⟩⟩⟩⟩⟩
  · intro h n found fewThen
    have performed : x.perform (.register [.clone h]) = .ok (x.register [.clone h]) := rfl
    have forward := ((ready (run_cons.mpr ⟨_, _, performed, rfl⟩) fewThen).perform performed).2
    exact ⟨_, _, performed, sameAs_register_clone standing found performed forward⟩
  · rintro more y hy kept fewThen h ⟨n, found, _⟩
    have readyMore : Ready .null x (more ++ []) := (List.append_nil more).symm ▸ ready hy fewThen
    obtain ⟨later, knownThen⟩ := known.run readyMore hy
    rw [origins, ledger_append hx, Nat.zero_add]
    exact known.origin?_eq knownThen found (standing.node?_run readyMore hy kept found)
  · have start : Known [] 0 (new options) {} := .new options
    refine (pairwise_products start (Ready.of_run hx few) hx).2.imp ?_
    rintro a b apart ⟨m, ha, composite⟩ ⟨n, hb, compositeToo⟩ same
    obtain ⟨o, ho⟩ := Option.isSome_iff_exists.mp ((known.origin?_isSome a).mpr ⟨m, ha, composite⟩)
    have equal := (known.sameAs_iff_origin ha hb composite compositeToo).mp same
    exact absurd (apart o o ho (equal.symm.trans ho)) (Nat.lt_irrefl _)

/-- One text is loaded twice.  A part of the first document is written into an array, read back from
it, and put by the host into an array of its own. -/
theorem identity_is_origin_of_loaded_parts :
    let calls : List AnyCall :=
      [(Call.request (.newArray 2)).toAny, (Call.request (.loadJson "[[]]")).toAny,
        (Call.request (.valueAt ⟨2⟩ 0)).toAny, (Call.request (.setValue ⟨1⟩ 0 ⟨3⟩)).toAny,
        (Call.request (.build ⟨1⟩)).toAny, (Call.request (.valueAt ⟨4⟩ 0)).toAny,
        (Call.request (.loadJson "[[]]")).toAny, (Call.request (.valueAt ⟨6⟩ 0)).toAny,
        (Call.register [.clone ⟨3⟩, .array [0]]).toAny]
    let g := origins {} calls
    ∃ x, (new {}).run calls = .ok x ∧ allocations (new {}) calls < UInt64.size - 1 ∧
      g.origin? ⟨3⟩ = some (.loaded 1 [0]) ∧ g.origin? ⟨4⟩ = some (.built 4) ∧
      g.origin? ⟨8⟩ = some (.made 8 1) ∧
      x.SameAs ⟨1⟩ ⟨4⟩ ∧ x.SameAs ⟨3⟩ ⟨5⟩ ∧ ¬ x.SameAs ⟨3⟩ ⟨7⟩ ∧ ¬ x.SameAs ⟨2⟩ ⟨6⟩ ∧
      (∃ r y, x.perform (.register [.clone ⟨3⟩]) = .ok (r, y) ∧ r ≠ ⟨3⟩ ∧ y.SameAs ⟨3⟩ r) ∧
      ∃ c y d z, x.perform (.request (.valueAt ⟨4⟩ 0)) = .ok (c, y) ∧
        y.perform (.request (.valueAt ⟨1⟩ 0)) = .ok (d, z) ∧ c ≠ d ∧ z.SameAs c d := by
  intro calls g
  have few : allocations (new {}) calls < UInt64.size - 1 := by decide +kernel
  obtain ⟨x, hx⟩ : ∃ x, (new {}).run calls = .ok x := exists_run rfl calls
  obtain ⟨_, composite, same, twice, _, again, _, _⟩ := identity_is_origin {} calls x hx few
  have told : ∀ {a b o p}, g.origin? a = some o → g.origin? b = some p →
      (x.SameAs a b ↔ o = p) := by
    intro a b o p ha hb
    rw [same a b ((composite a).mp (ha ▸ rfl)) ((composite b).mp (hb ▸ rfl)), ha, hb,
      Option.some_inj]
  have first : g.origin? ⟨1⟩ = some (.built 4) := by decide +kernel
  have second : g.origin? ⟨2⟩ = some (.loaded 1 []) := by decide +kernel
  have third : g.origin? ⟨3⟩ = some (.loaded 1 [0]) := by decide +kernel
  have fourth : g.origin? ⟨4⟩ = some (.built 4) := by decide +kernel
  have fifth : g.origin? ⟨5⟩ = some (.loaded 1 [0]) := by decide +kernel
  have sixth : g.origin? ⟨6⟩ = some (.loaded 6 []) := by decide +kernel
  have seventh : g.origin? ⟨7⟩ = some (.loaded 6 [0]) := by decide +kernel
  refine ⟨x, hx, few, third, fourth, by decide +kernel, (told first fourth).mpr rfl,
    (told third fifth).mpr rfl, fun shared => absurd ((told third seventh).mp shared) (by decide),
    fun shared => absurd ((told second sixth).mp shared) (by decide), ?_, ?_⟩
  · obtain ⟨n, found, _⟩ := (composite ⟨3⟩).mp (third ▸ rfl)
    exact again ⟨3⟩ n found (by decide +kernel)
  · have answered : ((new {}).run calls).toOption.bind (fun x =>
        (x.perform (.request (.valueAt ⟨4⟩ 0))).toOption.map Prod.fst) = some ⟨9⟩ := by
      decide +kernel
    have report : x.errors.policy = .report := (table_run hx).2.2
    obtain ⟨c, y, read⟩ := exists_perform report (Call.request (.valueAt ⟨4⟩ 0))
    have reportThen : y.errors.policy = .report := (perform_keeps read).2.2.trans report
    obtain ⟨d, z, readThen⟩ := exists_perform reportThen (Call.request (.valueAt ⟨1⟩ 0))
    have issued : c ≠ .null := by
      rintro rfl
      rw [hx, Except.toOption, Option.bind_some, read] at answered
      cases answered
    exact ⟨c, y, d, z, read, readThen, (twice ⟨4⟩ ⟨1⟩ 0 c y [] y d z ((told fourth first).mpr rfl)
      read rfl (by simp) readThen (by decide +kernel) issued).2⟩

end Session

end TreeHandles
