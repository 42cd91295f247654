import TreeHandles.Proofs.Node.Enumeration
import TreeHandles.Proofs.Session.Truth
import TreeHandles.Proofs.Table.Registration

/-!
# Readings agree on what there is

A caller learns what a handle shows in several ways: from its kind and its size, from the children and
the keys that are found, and from the payloads that are not refused.  Each way has its own answer for
what is not there.  All of them speak of one node, so that a loop up to the size meets every child and
no error, and the kind tells which payload will be given.

**Results.**
* `View.payload_of_kind_eq` and `View.payload_of_kind_ne`: a payload is given for its kind only.
* `View.exists_key_iff`: there are keys at the places of an object, and nowhere else.
* `readsNothing_of_unresolved`: what readings give through a handle that resolves to nothing.
* `valueAt_inside` and `records_valueAt_iff_beyond`: what the reading of a child gives below the size,
  and that it is refused from the size on.
* `readings_agree`: in every session that is reached, under either policy, all readings agree.
-/

namespace TreeHandles

namespace Payload

/-- The shape of the answer that gives a payload. -/
def shape : Payload → Shape
  | string => .text
  | int => .int
  | uint => .uint
  | float => .float
  | bool => .flag

/-- The answer that gives a payload. -/
def answer : (p : Payload) → p.Carrier → p.shape.Answer
  | .string, s => some s
  | .int, i => i
  | .uint, u => u
  | .float, x => x
  | .bool, b => b

/-- The kinds of payloads are told apart by the kinds of the scalars that carry them. -/
theorem eq_of_kind_eq {p q : Payload} (same : p.kind = q.kind) : p = q := by
  cases p <;> cases q <;> first | rfl | cases same

end Payload

/-- The request for a payload. -/
def Request.payload {τ : Type} : (p : Payload) → Handle → Request τ p.shape
  | .string, h => asString h
  | .int, h => asInt h
  | .uint, h => asUint h
  | .float, h => asFloat h
  | .bool, h => asBool h

namespace Request

variable {options : Options} {t : Table} {p : Payload} {h : Handle}

theorem answer_payload : (payload p h).answer options t =
    (((t.view h).payload p).map p.answer, t) := by
  cases p with
  | string => rfl
  | int | uint | float | bool =>
      simp only [payload, answer]
      cases (t.view h).payload _ <;> rfl

theorem fallback_payload : (payload p h : Request String p.shape).fallback = p.answer p.empty := by
  cases p <;> rfl

theorem reading_payload (p : Payload) : Reading (payload p) := by
  cases p with
  | string => exact .asString
  | int => exact .asInt
  | uint => exact .asUint
  | float => exact .asFloat
  | bool => exact .asBool

end Request

namespace Tree

/-- A scalar that is not null carries a payload. -/
theorem exists_payload_of_leaf {n : Node} (single : n.isComposite = false)
    (present : n.isNull = false) : ∃ p : Payload, n.kind = p.kind := by
  have carried := kind_mem_of_leaf single present
  simp only [List.mem_cons, List.not_mem_nil, or_false] at carried
  rcases carried with h | h | h | h | h
  · exact ⟨.string, h⟩
  · exact ⟨.int, h⟩
  · exact ⟨.uint, h⟩
  · exact ⟨.float, h⟩
  · exact ⟨.bool, h⟩

theorem kind_ne_payload_of_composite {n : Node} (composite : n.isComposite = true) (p : Payload) :
    n.kind ≠ p.kind := by
  cases n with
  | leaf s => cases composite
  | array label items => exact Ne.symm p.kind_ne_composite.1
  | object label entries => exact Ne.symm p.kind_ne_composite.2

end Tree

namespace View

variable {v : View} {n : Node} {p : Payload} {index : Nat}

/-- **A payload is given for its kind.** -/
theorem payload_of_kind_eq (shown : v.node? = some n) (same : n.kind = p.kind) :
    ∃ s a, n = .leaf s ∧ s.as? p = some a ∧ v.payload p = .ok a := by
  cases n with
  | leaf s =>
      cases carried : s.as? p with
      | none => exact absurd same ((Scalar.as?_eq_none_iff p s).mp carried)
      | some a => exact ⟨s, a, rfl, carried, payload_eq_ok_iff.mpr ⟨s, shown, carried⟩⟩
  | array label items => exact absurd same.symm p.kind_ne_composite.1
  | object label entries => exact absurd same.symm p.kind_ne_composite.2

/-- **A payload is refused for every other kind.** -/
theorem payload_of_kind_ne (shown : v.node? = some n) (other : n.kind ≠ p.kind) :
    v.payload p = .error (.kindMismatch p.kind n.kind) := by
  cases n with
  | leaf s =>
      have none : s.as? p = none := (Scalar.as?_eq_none_iff p s).mpr other
      simp only [payload, shown, none]
      rfl
  | array | object => simp only [payload, shown]

/-- **There are keys at the places of an object**, and nowhere else. -/
theorem exists_key_iff (shown : v.node? = some n) (distinct : n.keys.Nodup) :
    (∃ key, v.keyAt index = .ok key) ↔ n.kind = .object ∧ index < n.size := by
  constructor
  · rintro ⟨key, found⟩
    cases n with
    | leaf s => simp only [keyAt, shown] at found; cases found
    | array label items => simp only [keyAt, shown] at found; cases found
    | object label entries =>
        refine ⟨rfl, Nat.lt_of_not_le fun outside => ?_⟩
        cases (beyond_size shown distinct outside).1.symm.trans found
  · rintro ⟨object, inside⟩
    cases n with
    | leaf s => cases s <;> cases object
    | array label items => cases object
    | object label entries =>
        obtain ⟨e, _, key, _⟩ := exists_entry_at shown distinct inside
        exact ⟨e.1, key⟩

theorem length_inOrder (distinct : n.keys.Nodup) : n.inOrder.length = n.size := by
  rw [(Tree.inOrder_perm distinct).length_eq]
  cases n with
  | leaf | array => rfl
  | object label entries => rw [Tree.children, List.length_map, Tree.size]

/-- **There are children at the places below the size.** -/
theorem childAt_of_lt (shown : v.node? = some n) (distinct : n.keys.Nodup)
    (inside : index < n.size) : ∃ c, n.inOrder[index]? = some c ∧ v.childAt index = .ok c := by
  rw [← length_inOrder distinct] at inside
  have here := List.getElem?_eq_getElem inside
  exact ⟨_, here, (childAt_eq_ok_iff shown distinct).mpr here⟩

/-- From the size on there are no children. -/
theorem childAt_of_le (shown : v.node? = some n) (distinct : n.keys.Nodup)
    (outside : n.size ≤ index) : v.childAt index = .error
      (if n.isComposite then .indexOutOfRange index n.size else .notContainer n.kind) := by
  rw [← length_inOrder distinct] at outside
  rw [childAt_eq shown distinct, List.getElem?_eq_none_iff.mpr outside]

end View

namespace Session

/-- What readings give through a handle that shows nothing: they miss, and change nothing. -/
structure ReadsNothing (x : Session) (h : Handle) : Prop where
  reading : ∀ (s : Shape) (r : Handle → Request String s), Request.Reading r →
    x.perform (.request (r h)) = .ok (s.empty, x)
  valueAt : ∀ index, x.perform (.request (.valueAt h index)) = .ok (.null, x)
  /-- Such a handle shows the same as all others like it. -/
  sameAs : ∀ other, x.perform (.request (.sameAs h other)) = .ok ((x.node? other).isNone, x)

/-- The error with which a node refuses the reading of a child. -/
def noChild (n : Node) (index : Nat) : Error :=
  if n.isComposite then .indexOutOfRange index n.size else .notContainer n.kind

/-- What readings give through a handle that shows a node. -/
structure ReadsNode (x : Session) (h : Handle) (n : Node) : Prop where
  kind : x.perform (.request (.kind h)) = .ok (n.kind, x)
  size : x.perform (.request (.size h)) = .ok (n.size, x)
  /-- The reading of a child records an error exactly from the size on. -/
  noChild : ∀ index e, x.Records (fun x => x.perform (.request (.valueAt h index))) e ↔
    n.size ≤ index ∧ e = Session.noChild n index
  /-- Then it gives the null handle, and nothing but the last error changes. -/
  beyond : ∀ index, n.size ≤ index → x.perform (.request (.valueAt h index)) =
    .ok (.null, x.withError (Session.noChild n index))
  /-- Otherwise it gives the null handle for null, and for every other child a new handle that shows
  the child. -/
  child : ∀ index, index < n.size → ∃ c a y, n.inOrder[index]? = some c ∧
    x.perform (.request (.valueAt h index)) = .ok (a, y) ∧ y.errors = x.errors ∧
    (a = .null ↔ c.isNull = true) ∧
    (x.table.last < a ∧ x.node? a = none ∧ y.node? a = some c ↔ c.isNull = false)
  /-- Keys are found at the places of an object only. -/
  key : ∀ index, (∃ key y, x.perform (.request (.keyAt h index)) = .ok (some key, y)) ↔
    n.kind = .object ∧ index < n.size
  /-- The reading of a payload records an error exactly if the kind is another one. -/
  noPayload : ∀ (p : Payload) (e : Error),
    x.Records (fun x => x.perform (.request (.payload p h))) e ↔
      n.kind ≠ p.kind ∧ e = .kindMismatch p.kind n.kind
  /-- Then it gives the empty payload, and nothing but the last error changes. -/
  otherKind : ∀ p : Payload, n.kind ≠ p.kind → x.perform (.request (.payload p h)) =
    .ok (p.answer p.empty, x.withError (.kindMismatch p.kind n.kind))
  /-- Otherwise it gives the payload. -/
  payload : ∀ p : Payload, n.kind = p.kind → ∃ s a, n = .leaf s ∧ s.as? p = some a ∧
    x.perform (.request (.payload p h)) = .ok (p.answer a, x)
  /-- Of the five payloads a scalar gives one. -/
  scalar : n.isComposite = false → ∃! p : Payload,
    ∀ e, ¬ x.Records (fun x => x.perform (.request (.payload p h))) e
  /-- A composite gives none. -/
  composite : n.isComposite = true → ∀ p : Payload,
    ∃ e, x.Records (fun x => x.perform (.request (.payload p h))) e

variable {x : Session} {h : Handle} {n : Node} {index : Nat} {p : Payload} {e : Error} {s : Shape}

section Nothing

theorem readsNothing_of_unresolved (standing : x.Standing) (unresolved : x.node? h = none) :
    x.ReadsNothing h where
  reading s r reading := request_of_unresolved reading unresolved
  valueAt := request_valueAt_of_unresolved unresolved
  sameAs other := by
    have told : View.sameAs ⟨h, x.node? h⟩ ⟨other, x.node? other⟩ = (x.node? other).isNone := by
      rw [unresolved]
      cases found : x.node? other with
      | none => rfl
      | some n => simp [View.sameAs, standing.isNull_eq_false found]
    show x.request (.sameAs h other) = _
    rw [← told]
    rfl

end Nothing

section Failing

/-- A harmless request that fails is recorded under either policy. -/
theorem perform_of_failing {r : Request String s} (harmless : r.Harmless)
    (fails : (r.answer x.options x.table).1 = .error e) (recorded : ∀ h, e ≠ .lookupMiss h) :
    x.perform (.request r) = .ok (r.fallback, x.withError e) := by
  show x.request r = _
  rw [request_of_error fails recorded, record_of_no_violation (harmless _ _ _ fails)]
  rfl

end Failing

section Children

theorem distinct_keys (standing : x.Standing) (found : x.node? h = some n) : n.keys.Nodup :=
  (standing.distinctKeys found).root

/-- **A child below the size** is given as the null handle or under a new one. -/
theorem valueAt_inside (standing : x.Standing) (room : x.table.last.raw.toNat + 1 < UInt64.size)
    (found : x.node? h = some n) (inside : index < n.size) :
    ∃ c a y, n.inOrder[index]? = some c ∧
      x.perform (.request (.valueAt h index)) = .ok (a, y) ∧ y.errors = x.errors ∧
      (a = .null ↔ c.isNull = true) ∧
      (x.table.last < a ∧ x.node? a = none ∧ y.node? a = some c ↔ c.isNull = false) := by
  obtain ⟨c, here, child⟩ := View.childAt_of_lt (v := x.table.view h) found
    (distinct_keys standing found) inside
  have answered : (Request.valueAt h index).answer x.options x.table =
      Table.done (x.table.register c) := by
    simp only [Request.answer, Table.valueAt, child]
  have performed : x.perform (.request (.valueAt h index)) =
      .ok ((x.table.register c).1, { x with table := (x.table.register c).2 }) := by
    show x.request _ = _
    rw [request_of_ok (a := (x.table.register c).1) (by rw [answered]; rfl), answered]
    rfl
  refine ⟨c, _, _, here, performed, rfl, ?_⟩
  cases null : c.isNull with
  | true =>
      have notLater : ¬ x.table.last < .null := Nat.not_lt_zero _
      simp [Table.register_of_null null, notLater]
  | false =>
      have later : x.table.last < x.table.last.next :=
        Handle.lt_next_of_le (Handle.le_next_of_room room)
      have issued : x.table.last.next ≠ .null := Handle.ne_null_of_lt later
      have unnamed : x.node? x.table.last.next = none := by
        cases named : x.node? x.table.last.next with
        | none => rfl
        | some m => exact absurd later (Nat.not_lt.mpr (standing.le_last named))
      have named := Table.node?_register (t := x.table) null issued x.table.last.next
      rw [if_pos rfl] at named
      rw [Table.register_of_present null] at named ⊢
      refine ⟨?_, fun _ => rfl, fun _ => ⟨later, unnamed, named⟩⟩
      simp [issued]

theorem noChild_ne_lookupMiss (n : Node) (index : Nat) (k : Handle) :
    noChild n index ≠ .lookupMiss k := by
  rw [noChild]
  split <;> nofun

/-- **The reading of a child records an error exactly from the size on.** -/
theorem records_valueAt_iff_beyond (standing : x.Standing) (found : x.node? h = some n) :
    x.Records (fun x => x.perform (.request (.valueAt h index))) e ↔
      n.size ≤ index ∧ e = noChild n index := by
  have distinct := distinct_keys standing found
  rw [records_valueAt_iff]
  rcases Nat.lt_or_ge index n.size with inside | outside
  · obtain ⟨c, _, child⟩ := View.childAt_of_lt (v := x.table.view h) found distinct inside
    simp [child, inside]
  · have missing : (x.table.view h).childAt index = .error (noChild n index) :=
      View.childAt_of_le found distinct outside
    rw [missing]
    constructor
    · rintro ⟨same, _⟩
      cases same
      exact ⟨outside, rfl⟩
    · rintro ⟨_, rfl⟩
      exact ⟨rfl, noChild_ne_lookupMiss n index⟩

theorem valueAt_beyond (standing : x.Standing) (found : x.node? h = some n)
    (outside : n.size ≤ index) : x.perform (.request (.valueAt h index)) =
      .ok (.null, x.withError (noChild n index)) := by
  have missing : (x.table.view h).childAt index = .error (noChild n index) :=
    View.childAt_of_le found (distinct_keys standing found) outside
  have fails : ((Request.valueAt h index).answer x.options x.table).1 =
      .error (noChild n index) := by
    simp only [Request.answer, Table.valueAt, missing]
  exact perform_of_failing (Request.harmless_valueAt h index) fails (noChild_ne_lookupMiss n index)

end Children

section Keys

theorem exists_key_iff (standing : x.Standing) (found : x.node? h = some n) :
    (∃ key y, x.perform (.request (.keyAt h index)) = .ok (some key, y)) ↔
      n.kind = .object ∧ index < n.size := by
  rw [← View.exists_key_iff (v := x.table.view h) found (distinct_keys standing found)]
  constructor
  · rintro ⟨key, y, performed⟩
    rcases request_cases _ performed with ⟨ok, _⟩ | ⟨_, none, _⟩ | ⟨_, _, _, none, _⟩
    · obtain ⟨k, given, same⟩ := exists_of_map_eq_ok ok
      exact ⟨k, given⟩
    · cases none
    · cases none
  · rintro ⟨key, given⟩
    exact ⟨key, _, request_of_ok (by simp only [Request.answer, given]; rfl)⟩

end Keys

section Payloads

theorem payload_of_kind_eq (found : x.node? h = some n) (same : n.kind = p.kind) :
    ∃ s a, n = .leaf s ∧ s.as? p = some a ∧
      x.perform (.request (.payload p h)) = .ok (p.answer a, x) := by
  obtain ⟨s, a, leaf, carried, given⟩ := View.payload_of_kind_eq (v := x.table.view h) found same
  have answered : (Request.payload p h).answer x.options x.table = (.ok (p.answer a), x.table) := by
    rw [Request.answer_payload, given]
    rfl
  refine ⟨s, a, leaf, carried, ?_⟩
  show x.request _ = _
  rw [request_of_ok (congrArg Prod.fst answered), answered]

theorem answer_payload_of_kind_ne (found : x.node? h = some n) (other : n.kind ≠ p.kind) :
    ((Request.payload p h).answer x.options x.table).1 =
      .error (.kindMismatch p.kind n.kind) := by
  rw [Request.answer_payload, View.payload_of_kind_ne (v := x.table.view h) found other]
  rfl

theorem payload_of_kind_ne (found : x.node? h = some n) (other : n.kind ≠ p.kind) :
    x.perform (.request (.payload p h)) =
      .ok (p.answer p.empty, x.withError (.kindMismatch p.kind n.kind)) := by
  rw [perform_of_failing ((Request.reading_payload p).harmless h)
    (answer_payload_of_kind_ne found other) nofun, Request.fallback_payload]

/-- **The reading of a payload records an error exactly if the kind is another one.** -/
theorem records_payload_iff (found : x.node? h = some n) :
    x.Records (fun x => x.perform (.request (.payload p h))) e ↔
      n.kind ≠ p.kind ∧ e = .kindMismatch p.kind n.kind := by
  rw [records_iff ((Request.reading_payload p).harmless h)]
  by_cases same : n.kind = p.kind
  · obtain ⟨s, a, _, _, given⟩ := View.payload_of_kind_eq (v := x.table.view h) found same
    rw [Request.answer_payload, given]
    simp [same, Except.map]
  · rw [answer_payload_of_kind_ne found same]
    constructor
    · rintro ⟨found, _⟩
      cases found
      exact ⟨same, rfl⟩
    · rintro ⟨_, rfl⟩
      exact ⟨rfl, nofun⟩

/-- Of the five payloads a scalar gives one. -/
theorem existsUnique_payload (standing : x.Standing) (found : x.node? h = some n)
    (single : n.isComposite = false) :
    ∃! p : Payload, ∀ e, ¬ x.Records (fun x => x.perform (.request (.payload p h))) e := by
  simp only [records_payload_iff found]
  obtain ⟨p, same⟩ := Tree.exists_payload_of_leaf single (standing.isNull_eq_false found)
  refine ⟨p, fun e refused => refused.1 same, fun q given => ?_⟩
  by_contra different
  refine given _ ⟨fun sameThen => different ?_, rfl⟩
  exact Payload.eq_of_kind_eq (sameThen.symm.trans same)

end Payloads

/-- **Through a handle that shows a node, all readings speak of this node.** -/
theorem readsNode_of_found (standing : x.Standing)
    (room : x.table.last.raw.toNat + 1 < UInt64.size) (found : x.node? h = some n) :
    x.ReadsNode h n where
  kind := by
    have shown : (x.table.view h).kind = n.kind := by
      simp [View.kind, show (x.table.view h).node? = some n from found]
    rw [← shown]
    rfl
  size := by
    have shown : (x.table.view h).size = n.size := by
      simp [View.size, show (x.table.view h).node? = some n from found]
    rw [← shown]
    rfl
  noChild _ _ := records_valueAt_iff_beyond standing found
  beyond _ := valueAt_beyond standing found
  child _ := valueAt_inside standing room found
  key _ := exists_key_iff standing found
  noPayload _ _ := records_payload_iff found
  otherKind _ := payload_of_kind_ne found
  payload _ := payload_of_kind_eq found
  scalar := existsUnique_payload standing found
  composite composite p :=
    ⟨_, (records_payload_iff found).mpr ⟨Tree.kind_ne_payload_of_composite composite p, rfl⟩⟩

/-- **Readings agree on what there is.**  In every session that is reached while the numbers last,
under either policy, and for every handle: if it resolves to nothing, every reading gives its empty
answer and changes neither the last error nor the table; if it resolves to a node, every reading speaks
of that node. -/
theorem readings_agree (options : Options) (calls : List AnyCall) (x : Session)
    (hx : (new options).run calls = .ok x)
    (few : allocations (new options) calls < UInt64.size - 1) (h : Handle) :
    (x.node? h = none → x.ReadsNothing h) ∧ ∀ n, x.node? h = some n → x.ReadsNode h n := by
  obtain ⟨standing, counted⟩ := Standing.of_run hx few
  refine ⟨readsNothing_of_unresolved standing, fun n => readsNode_of_found standing ?_⟩
  rw [counted]
  omega

/-- An array of null and a number that was built under the policy that aborts, read at its places and
beyond them, read as a number, and read through a handle that was never issued. -/
theorem readings_agree_of_built_array :
    let calls : List AnyCall :=
      [(Call.request (.newArray 2)).toAny, (Call.request (.newInt 7)).toAny,
        (Call.request (.setValue ⟨1⟩ 1 ⟨2⟩)).toAny, (Call.request (.build ⟨1⟩)).toAny]
    let options : Options := { violationPolicy := .abort }
    ∃ x, (new options).run calls = .ok x ∧
      x.perform (.request (.keyAt ⟨9⟩ 0)) = .ok (none, x) ∧
      (∃ y, x.perform (.request (.valueAt ⟨1⟩ 0)) = .ok (.null, y) ∧ y.errors = x.errors) ∧
      (∃ c y, x.perform (.request (.valueAt ⟨1⟩ 1)) = .ok (c, y) ∧ y.node? c = some (.leaf (.int 7))) ∧
      x.perform (.request (.valueAt ⟨1⟩ 2)) =
        .ok (.null, x.withError (.indexOutOfRange 2 2)) ∧
      x.perform (.request (.asString ⟨1⟩)) =
        .ok (some "", x.withError (.kindMismatch .string .array)) := by
  intro calls options
  obtain ⟨x, hx⟩ : ∃ x, (new options).run calls = .ok x := ⟨_, rfl⟩
  have agree := readings_agree options calls x hx (by decide)
  cases hx
  have nothing := (agree ⟨9⟩).1 rfl
  have shown := (agree ⟨1⟩).2 (.array ⟨0⟩ [.null, .leaf (.int 7)]) rfl
  obtain ⟨c, a, y, first, performed, kept, null, _⟩ := shown.child 0 (by decide)
  obtain ⟨d, b, z, second, performedThen, _, _, named⟩ := shown.child 1 (by decide)
  cases first
  cases second
  cases null.mpr rfl
  exact ⟨_, rfl, nothing.reading _ _ (.keyAt 0), ⟨y, performed, kept⟩,
    ⟨b, z, performedThen, (named.mpr rfl).2.2⟩, shown.beyond 2 (by decide),
    shown.otherKind .string nofun⟩

end Session

end TreeHandles
