import TreeHandles.Proofs.Node.Exported
import TreeHandles.Proofs.Session.Identity
import TreeHandles.Proofs.Table.Demands

/-!
# The order of writes

An object keeps its entries in the order of the first writes to their keys.  A reader never learns
that order: keys are enumerated as they are sorted, children are found by their keys, and an export
sorts the keys as well.  So two objects cannot be told apart whose keys were bound to the same nodes
last, whatever else was written and in whatever order, and however the writes to one were
interleaved with those to the other.

The handles that were written decide which nodes are bound, because a handle that resolves keeps to
its node until the session is emptied.

**Results.**
* `Reading.answer_rearranged`: readings of objects with the same entries give the same.
* `keyWrites_eq`: the nodes of the written handles can be looked up at any later moment.
* `ObjectBuilt.node?`: the object that a list of writes leaves.
* `write_order_unseen`: readers cannot tell in which order an object was written.
-/

namespace TreeHandles

open TreeHandles.Tree

variable {s : Shape}

/-- Objects that have the same entries, which may stand in another order. -/
inductive Rearranged : Node → Node → Prop
  | intro {a b : Allocation} {xs ys : List (String × Node)} (hx : (Entries.keys xs).Nodup)
      (hy : (Entries.keys ys).Nodup) (same : ∀ k, Entries.find? k xs = Entries.find? k ys) :
      Rearranged (object a xs) (object b ys)

namespace Rearranged

variable {m n : Node} {v w : View}

theorem size_eq (rearranged : Rearranged m n) : m.size = n.size := by
  obtain ⟨hx, hy, same⟩ := rearranged
  have arranged := Entries.sorted_eq_of_find?_eq hx hy same
  exact (Entries.sorted_perm hx).length_eq.symm.trans
    (arranged ▸ (Entries.sorted_perm hy).length_eq)

theorem keyAt_eq (rearranged : Rearranged m n) (hv : v.node? = some m) (hw : w.node? = some n)
    (index : Nat) : v.keyAt index = w.keyAt index := by
  have size := rearranged.size_eq
  obtain ⟨hx, hy, same⟩ := rearranged
  simp only [Tree.size] at size
  rw [View.keyAt_object hv, View.keyAt_object hw, Entries.sorted_eq_of_find?_eq hx hy same, size]

theorem childAt_eq (rearranged : Rearranged m n) (hv : v.node? = some m) (hw : w.node? = some n)
    (index : Nat) : v.childAt index = w.childAt index := by
  have size := rearranged.size_eq
  obtain ⟨hx, hy, same⟩ := rearranged
  simp only [Tree.size] at size
  rw [View.childAt_object hv hx, View.childAt_object hw hy,
    Entries.sorted_eq_of_find?_eq hx hy same, size]

theorem toJson_eq (rearranged : Rearranged m n) : m.toJson = n.toJson := by
  obtain ⟨hx, hy, same⟩ := rearranged
  exact congrArg String.ofList (Json.json_object_congr hx hy fun k => by rw [same])

/-- Objects with the same entries are equal, if every value is equal to itself. -/
theorem equal (rearranged : Rearranged m n) (each : ∀ c ∈ m.children, Node.equal c c = true) :
    Node.equal m n = true := by
  obtain ⟨hx, hy, same⟩ := rearranged
  rw [Node.equal_object_iff_rel hx hy]
  refine .inr fun k => Entries.rel_iff.mpr ⟨by rw [same], fun v hv w hw => ?_⟩
  cases hv.symm.trans ((same k).trans hw)
  exact each v (Node.mem_children_of_find? hv)

section Writing

variable {ν : Type} {f : ν → Node} {a : Allocation} {writes others : List (String × ν)}

/-- Writes that bind every key to the same last leave objects with the same entries. -/
theorem of_writes (a b : Allocation) (f : ν → Node)
    (same : ∀ k, writes.reverse.lookup k = others.reverse.lookup k) :
    Rearranged (object a (Entries.mapValues f (Entries.ofWrites writes)))
      (object b (Entries.mapValues f (Entries.ofWrites others))) := by
  have distinct : ∀ ws, (Entries.keys (Entries.mapValues f (Entries.ofWrites ws))).Nodup := by
    intro ws
    rw [Entries.keys_mapValues]
    exact Entries.nodup_keys_ofWrites ws
  refine ⟨distinct writes, distinct others, fun k => ?_⟩
  rw [Entries.find?_mapValues, Entries.find?_mapValues, Entries.find?_ofWrites,
    Entries.find?_ofWrites, same]

/-- The children of an object that was written are what its keys were bound to last. -/
theorem exists_lookup_of_mem_children {c : Node}
    (child : c ∈ (object a (Entries.mapValues f (Entries.ofWrites writes))).children) :
    ∃ k v, writes.reverse.lookup k = some v ∧ f v = c := by
  obtain ⟨e, he, rfl⟩ := List.mem_map.mp child
  obtain ⟨⟨k, v⟩, hv, rfl⟩ := List.mem_map.mp he
  refine ⟨k, v, ?_, rfl⟩
  rw [← Entries.find?_ofWrites]
  exact (Entries.find?_eq_some_iff_mem (Entries.nodup_keys_ofWrites writes)).mpr hv

end Writing

end Rearranged

/-- **Readings of objects with the same entries give the same.** -/
theorem Request.Reading.answer_rearranged {r : Handle → Request String s} {options : Options}
    {t : Table} {a b : Handle} {m n : Node} (reading : Reading r) (rearranged : Rearranged m n)
    (ha : t.node? a = some m) (hb : t.node? b = some n) :
    (r a).answer options t = (r b).answer options t := by
  have va : (t.view a).node? = some m := ha
  have vb : (t.view b).node? = some n := hb
  cases reading with
  | keyAt index => simp only [answer, rearranged.keyAt_eq va vb]
  | size => simp only [answer, View.size, va, vb, Option.map_some, rearranged.size_eq]
  | toJson => simp only [answer, ha, hb, Option.map_some, rearranged.toJson_eq]
  | kind =>
      obtain ⟨_, _, _⟩ := rearranged
      simp only [answer, View.kind, va, vb]
      rfl
  | asString | asInt | asUint | asFloat | asBool =>
      obtain ⟨_, _, _⟩ := rearranged
      simp only [answer, View.payload, va, vb]
      rfl

namespace Session

/-- The key and the handle of the child that a call successfully writes to the object of a handle. -/
def keyHandle? (h : Handle) (x : Session) : AnyCall → Option (String × Handle)
  | ⟨_, .request (.setKeyValue k key c)⟩ =>
      if k = h ∧ (x.table.setKeyValue h key c).1.isOk then some (key, c) else none
  | _ => none

/-- The keys and the handles of the successful writes to the object of a handle along a run, oldest
first. -/
def keyHandles (h : Handle) (x : Session) (calls : List AnyCall) : List (String × Handle) :=
  history (keyHandle? h) x calls

/-- Along a list of calls, a builder of an object is opened, written to and built, with any other
calls before, meanwhile and after.  The building gives a handle, and the writes to the builder that
succeed are listed, oldest first, each with the handle of the child. -/
inductive ObjectBuilt (x : Session) : List AnyCall → Handle → List (String × Handle) → Prop
  | intro {before between after : List AnyCall} {hint : Nat} {t b : Handle} {y z u v : Session}
      (reached : x.run before = .ok y)
      (opened : y.perform (.request (.newObject hint)) = .ok (t, z))
      (meanwhile : z.run between = .ok u)
      (unbuilt : (Call.request (.build t)).toAny ∉ between)
      (built : u.perform (.request (.build t)) = .ok (b, v)) :
      ObjectBuilt x (before ++ (Call.request (.newObject hint)).toAny ::
        (between ++ (Call.request (.build t)).toAny :: after)) b (keyHandles t z between)

variable {x y w : Session} {base h b c : Handle} {calls more : List AnyCall} {key : String}

section Children

/-- What a child is resolved to, it is resolved to until the session is emptied. -/
theorem Standing.childNode_run (standing : x.Standing) (ready : Ready base x (calls ++ more))
    (hx : x.run calls = .ok y) (kept : Call.free.toAny ∉ calls)
    (resolves : c = .null ∨ ∃ n, x.table.node? c = some n) :
    y.table.childNode c = x.table.childNode c := by
  rcases resolves with rfl | ⟨n, found⟩
  · rfl
  · have foundThen : y.table.node? c = some n := standing.node?_run ready hx kept found
    rw [Table.childNode, Table.childNode, found, foundThen]

/-- A write that succeeds is one of a child that is null or resolves. -/
theorem resolves_of_keyHandle? {d : AnyCall} {e : String × Handle} (found : keyHandle? h x d = some e) :
    e.2 = .null ∨ ∃ n, x.table.node? e.2 = some n := by
  obtain ⟨s, d⟩ := d
  cases d with
  | request r =>
      cases r with
      | setKeyValue k key c =>
          simp only [keyHandle?] at found
          split at found
          · next written =>
              cases found
              cases ok : (x.table.setKeyValue h key c).1 with
              | error e => simp [ok, Except.isOk, Except.toBool] at written
              | ok a =>
                  have granted := Table.setKeyValue_eq_ok_iff.mp ok
                  exact (Table.demands_met_iff.mp granted).1
          · cases found
      | _ => cases found
  | _ => cases found

theorem keyWrite?_eq (h : Handle) (x : Session) (d : AnyCall) :
    keyWrite? h x d = (keyHandle? h x d).map fun e => (e.1, x.table.childNode e.2) := by
  obtain ⟨s, d⟩ := d
  cases d with
  | request r =>
      cases r with
      | setKeyValue k key c =>
          by_cases here : k = h <;>
            by_cases written : (x.table.setKeyValue h key c).1.isOk = true <;>
              simp [keyWrite?, keyHandle?, Table.keyWrite?, here, written]
      | _ => rfl
  | _ => rfl

/-- **The nodes of the written handles can be looked up at any later moment.** -/
theorem keyWrites_eq (standing : x.Standing) (ready : Ready base x (calls ++ more))
    (hw : x.run (calls ++ more) = .ok w) (kept : Call.free.toAny ∉ calls ++ more) :
    keyWrites h x calls = Entries.mapValues w.table.childNode (keyHandles h x calls) := by
  induction calls generalizing x with
  | nil => rfl
  | cons d rest ih =>
      obtain ⟨a, y, hd, later⟩ := run_cons.mp hw
      obtain ⟨readyThen, forward⟩ := ready.perform hd
      have standingThen : y.Standing := standing.perform hd forward
      have others := ih standingThen readyThen later fun freed => kept (List.mem_cons_of_mem _ freed)
      have here : keyWrite? h x d =
          (keyHandle? h x d).map fun e => (e.1, w.table.childNode e.2) := by
        rw [keyWrite?_eq]
        cases found : keyHandle? h x d with
        | none => rfl
        | some e =>
            have all : Ready base x (d :: rest ++ more ++ []) := by rwa [List.append_nil]
            rw [Option.map_some, Option.map_some,
              standing.childNode_run all hw kept (resolves_of_keyHandle? found)]
      simp only [keyWrites, keyHandles, history, hd] at others ⊢
      rw [here, others]
      cases keyHandle? h x d <;> rfl

end Children

/-- **The object that a list of writes leaves.** -/
theorem ObjectBuilt.node? {writes : List (String × Handle)} (objectBuilt : ObjectBuilt x calls b writes)
    (standing : x.Standing) (ready : Ready base x calls) (hw : x.run calls = .ok w)
    (kept : Call.free.toAny ∉ calls) :
    b ≠ .null ∧ ∃ allocation, w.node? b =
      some (.object allocation (Entries.mapValues w.table.childNode (Entries.ofWrites writes))) := by
  obtain @⟨before, between, after, hint, t, b, y, z, u, v, reached, opened, meanwhile, unbuilt,
    built⟩ := objectBuilt
  have keptOpened : Call.free.toAny ∉ between ++ (Call.request (.build t)).toAny :: after :=
    fun freed => kept (List.mem_append_right _ (List.mem_cons_of_mem _ freed))
  have keptBetween : Call.free.toAny ∉ between := fun freed =>
    keptOpened (List.mem_append_left _ freed)
  have keptAfter : Call.free.toAny ∉ after := fun freed =>
    keptOpened (List.mem_append_right _ (List.mem_cons_of_mem _ freed))
  -- The run, cut at the opening and at the building.
  rw [run_append_of_ok reached] at hw
  obtain ⟨_, _, again, hw⟩ := run_cons.mp hw
  cases opened.symm.trans again
  have hwOpened := hw
  rw [run_append_of_ok meanwhile] at hw
  obtain ⟨_, _, again, hw⟩ := run_cons.mp hw
  cases built.symm.trans again
  obtain ⟨readyOpened, forward⟩ := (ready.run reached).perform opened
  have standingOpened : z.Standing := (standing.run ready reached).perform opened forward
  obtain ⟨readyBuilt, forwardBuilt⟩ := (readyOpened.run meanwhile).perform built
  have standingBuilt : v.Standing :=
    (standingOpened.run readyOpened meanwhile).perform built forwardBuilt
  have readyLast : Ready base v (after ++ []) := by rwa [List.append_nil]
  have staged := getElem?_builders_run readyOpened meanwhile keptBetween unbuilt
    (builder_of_newObject opened)
  obtain ⟨issued, named⟩ := node?_of_build (readyOpened.run meanwhile) staged rfl built
  have namedLast := standingBuilt.node?_run readyLast hw keptAfter named
  have written := keyWrites_eq (h := t) standingOpened readyOpened hwOpened keptOpened
  rw [← Entries.ofWrites_mapValues, ← written]
  exact ⟨issued, u.table.supply, namedLast⟩

section Readers

variable {m n : Node} {index : Nat}

/-- Readings of objects with the same entries give the same and do the same. -/
theorem exists_reading_of_rearranged {r : Handle → Request String s} (reading : Request.Reading r)
    (rearranged : Rearranged m n) (hb : w.node? b = some m) (hc : w.node? c = some n) :
    ∃ answer y, w.perform (.request (r b)) = .ok (answer, y) ∧
      w.perform (.request (r c)) = .ok (answer, y) := by
  obtain ⟨answer, y, performed⟩ := exists_request (x := w) (reading.harmless b)
  have answers : (r b).answer w.options w.table = (r c).answer w.options w.table :=
    reading.answer_rearranged rearranged hb hc
  exact ⟨answer, y, performed, (request_eq_of_answer_eq reading answers).symm.trans performed⟩

/-- Children of objects with the same entries, read at one place one after the other, show the
same. -/
theorem valueAt_rearranged {d e : Handle} {z : Session} (standing : w.Standing)
    (rearranged : Rearranged m n) (hb : w.node? b = some m) (hc : w.node? c = some n)
    (first : w.perform (.request (.valueAt b index)) = .ok (d, y))
    (second : y.perform (.request (.valueAt c index)) = .ok (e, z))
    (forward : w.table.last ≤ y.table.last) (forwardThen : y.table.last ≤ z.table.last) :
    (d = .null ↔ e = .null) ∧ z.SameAs d e := by
  have hcThen : y.node? c = some n := standing.node?_request first forward hc
  have children : (w.table.view b).childAt index = (y.table.view c).childAt index :=
    rearranged.childAt_eq hb hcThen index
  exact valueAt_same standing (fun m => by rw [children]) first second forward forwardThen

end Readers

/-- **Readers cannot tell in which order an object was written.**  Take a session that is reached
while the numbers last, and any further calls that do not empty it, along which two objects are built.
Suppose that under every key the last successful writes to the two builders were of the same handle.
Then both handles that the buildings gave name an object.  Every reading of the one gives and does
what the same reading of the other does: the kind, the size, the key at any index, the export.  The
children at any index, read one after the other, are both null or show the same.  And if what was
written last under each key is equal to itself, the two objects are equal in depth. -/
theorem write_order_unseen (options : Options) (before calls : List AnyCall) (x w : Session)
    (hx : (new options).run before = .ok x) (hw : x.run calls = .ok w)
    (kept : Call.free.toAny ∉ calls)
    (few : allocations (new options) (before ++ calls) < UInt64.size - 1) (b c : Handle)
    (writes otherWrites : List (String × Handle)) (built : ObjectBuilt x calls b writes)
    (otherBuilt : ObjectBuilt x calls c otherWrites)
    (same : ∀ k, writes.reverse.lookup k = otherWrites.reverse.lookup k) :
    b ≠ .null ∧ c ≠ .null ∧
    (∀ {s : Shape} (r : Handle → Request String s), Request.Reading r →
      ∃ answer y, w.perform (.request (r b)) = .ok (answer, y) ∧
        w.perform (.request (r c)) = .ok (answer, y)) ∧
    (∀ index,
      allocations (new options) (before ++ calls ++ [(Call.request (.valueAt b index)).toAny,
        (Call.request (.valueAt c index)).toAny]) < UInt64.size - 1 →
      ∃ d y e z, w.perform (.request (.valueAt b index)) = .ok (d, y) ∧
        y.perform (.request (.valueAt c index)) = .ok (e, z) ∧ (d = .null ↔ e = .null) ∧
        z.SameAs d e) ∧
    ∃ m n, w.node? b = some m ∧ w.node? c = some n ∧ m.kind = .object ∧ n.kind = .object ∧
      ((∀ k d, writes.reverse.lookup k = some d →
          Node.equal (w.table.childNode d) (w.table.childNode d) = true) →
        Node.equal m n = true ∧ Node.equal n m = true) := by
  have hrun : (new options).run (before ++ calls) = .ok w := run_append.mpr ⟨x, hx, hw⟩
  have ready := (Ready.of_run hrun few).run hx
  have fewBefore : allocations (new options) before < UInt64.size - 1 := by
    rw [allocations_append hx] at few
    exact Nat.lt_of_le_of_lt (Nat.le_add_right _ _) few
  have standing := (Standing.of_run hx fewBefore).1
  have standingThen := (Standing.of_run hrun few).1
  obtain ⟨issued, first, hb⟩ := built.node? standing ready hw kept
  obtain ⟨otherIssued, second, hc⟩ := otherBuilt.node? standing ready hw kept
  have rearranged := Rearranged.of_writes first second w.table.childNode same
  refine ⟨issued, otherIssued,
    fun r reading => exists_reading_of_rearranged reading rearranged hb hc, fun index fewThen => ?_,
    _, _, hb, hc, rfl, rfl, fun each => ?_⟩
  · obtain ⟨d, y, e, z, one, two, forward, forwardThen⟩ := exists_valueAt_twice hrun fewThen
    exact ⟨d, y, e, z, one, two,
      valueAt_rearranged standingThen rearranged hb hc one two forward forwardThen⟩
  · have equal := rearranged.equal fun child hchild => by
      obtain ⟨k, d, bound, rfl⟩ := Rearranged.exists_lookup_of_mem_children hchild
      exact each k d bound
    exact ⟨equal, Node.equal_symm (standingThen.distinctKeys hb) (standingThen.distinctKeys hc) equal⟩

/-- Two objects that are open at the same time, written in turns and in different orders; one key is
bound to a number first and to null later. -/
theorem write_order_unseen_after_overwriting :
    let before : List AnyCall := [(Call.request (.newInt 7)).toAny]
    let calls : List AnyCall :=
      [(Call.request (.newObject 0)).toAny, (Call.request (.newObject 2)).toAny,
        (Call.request (.setKeyValue ⟨2⟩ "a" ⟨1⟩)).toAny,
        (Call.request (.setKeyValue ⟨3⟩ "b" .null)).toAny,
        (Call.request (.setKeyValue ⟨2⟩ "b" ⟨1⟩)).toAny,
        (Call.request (.setKeyValue ⟨3⟩ "a" ⟨9⟩)).toAny,
        (Call.request (.setKeyValue ⟨2⟩ "b" .null)).toAny, (Call.request (.build ⟨2⟩)).toAny,
        (Call.request (.setKeyValue ⟨3⟩ "a" ⟨1⟩)).toAny, (Call.request (.build ⟨3⟩)).toAny]
    ∃ x w, (new {}).run before = .ok x ∧ x.run calls = .ok w ∧
      ObjectBuilt x calls ⟨4⟩ [("a", ⟨1⟩), ("b", ⟨1⟩), ("b", .null)] ∧
      ObjectBuilt x calls ⟨5⟩ [("b", .null), ("a", ⟨1⟩)] ∧
      (∃ answer y, w.perform (.request (.toJson ⟨4⟩)) = .ok (answer, y) ∧
        w.perform (.request (.toJson ⟨5⟩)) = .ok (answer, y)) ∧
      (∃ y z, w.perform (.request (.valueAt ⟨4⟩ 0)) = .ok (⟨6⟩, y) ∧
        y.perform (.request (.valueAt ⟨5⟩ 0)) = .ok (⟨7⟩, z) ∧ z.SameAs ⟨6⟩ ⟨7⟩) ∧
      ∃ m n, w.node? ⟨4⟩ = some m ∧ w.node? ⟨5⟩ = some n ∧ Node.equal m n = true := by
  intro before calls
  obtain ⟨x, hx⟩ : ∃ x, (new {}).run before = .ok x := ⟨_, rfl⟩
  obtain ⟨w, hw⟩ : ∃ w, x.run calls = .ok w := by cases hx; exact ⟨_, rfl⟩
  have seven : w.table.childNode ⟨1⟩ = leaf (.int 7) := by
    cases hx
    cases hw
    rfl
  have issued : ∀ c y d z, w.perform (.request (.valueAt ⟨4⟩ 0)) = .ok (c, y) →
      y.perform (.request (.valueAt ⟨5⟩ 0)) = .ok (d, z) → c = ⟨6⟩ ∧ d = ⟨7⟩ := by
    cases hx
    cases hw
    intro c y d z one two
    cases one
    cases two
    exact ⟨rfl, rfl⟩
  have first : ObjectBuilt x calls ⟨4⟩ [("a", ⟨1⟩), ("b", ⟨1⟩), ("b", .null)] := by
    obtain ⟨y, z, v, opened, meanwhile, built, wrote⟩ : ∃ y z v,
        x.perform (.request (.newObject 0)) = .ok (⟨2⟩, y) ∧
        y.run ((calls.take 7).drop 1) = .ok z ∧ z.perform (.request (.build ⟨2⟩)) = .ok (⟨4⟩, v) ∧
        keyHandles ⟨2⟩ y ((calls.take 7).drop 1) = [("a", ⟨1⟩), ("b", ⟨1⟩), ("b", .null)] := by
      cases hx
      exact ⟨_, _, _, rfl, rfl, rfl, rfl⟩
    rw [← wrote]
    exact .intro (rfl : x.run [] = .ok x) opened meanwhile (by simp [calls]) built
  have second : ObjectBuilt x calls ⟨5⟩ [("b", .null), ("a", ⟨1⟩)] := by
    obtain ⟨u, y, z, v, reached, opened, meanwhile, built, wrote⟩ : ∃ u y z v,
        x.run (calls.take 1) = .ok u ∧ u.perform (.request (.newObject 2)) = .ok (⟨3⟩, y) ∧
        y.run ((calls.take 9).drop 2) = .ok z ∧ z.perform (.request (.build ⟨3⟩)) = .ok (⟨5⟩, v) ∧
        keyHandles ⟨3⟩ y ((calls.take 9).drop 2) = [("b", .null), ("a", ⟨1⟩)] := by
      cases hx
      exact ⟨_, _, _, _, rfl, rfl, rfl, rfl, rfl⟩
    rw [← wrote]
    exact .intro reached opened meanwhile (by simp [calls]) built
  have same : ∀ k, [("b", .null), ("b", ⟨1⟩), ("a", ⟨1⟩)].lookup k =
      ([("a", ⟨1⟩), ("b", .null)] : List (String × Handle)).lookup k := by
    intro k
    by_cases a : k = "a"
    · subst a
      rfl
    · by_cases b : k = "b"
      · subst b
        rfl
      · simp [List.lookup_cons, beq_false_of_ne a, beq_false_of_ne b]
  obtain ⟨_, _, readings, children, m, n, hm, hn, _, _, equal⟩ :=
    write_order_unseen {} before calls x w hx hw (by simp [calls]) (by decide) _ _ _ _ first second
      same
  have self : ∀ k d, [("b", .null), ("b", ⟨1⟩), ("a", ⟨1⟩)].lookup k = some d →
      Node.equal (w.table.childNode d) (w.table.childNode d) = true := by
    intro k d bound
    obtain ⟨_, _, split, _⟩ := List.lookup_eq_some_iff.mp bound
    have inside : (k, d) ∈ [("b", .null), ("b", ⟨1⟩), ("a", ⟨1⟩)] := by simp [split]
    have written : d = .null ∨ d = ⟨1⟩ := by
      simp only [List.mem_cons, Prod.mk.injEq, List.not_mem_nil, or_false] at inside
      tauto
    rcases written with rfl | rfl
    · rfl
    · rw [seven]
      rfl
  obtain ⟨c, y, d, z, one, two, _, shown⟩ := children 0 (by decide)
  refine ⟨x, w, hx, hw, first, second, readings _ .toJson, ?_, m, n, hm, hn, (equal self).1⟩
  obtain ⟨rfl, rfl⟩ := issued c y d z one two
  exact ⟨y, z, one, two, shown⟩

end Session

end TreeHandles
