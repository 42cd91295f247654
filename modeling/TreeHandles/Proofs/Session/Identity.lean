import TreeHandles.Proofs.Boundary.Atomicity
import TreeHandles.Proofs.Session.Standing

/-!
# Identity as a caller sees it

A caller can ask whether two handles show the same node.  In a session that is reached, the answer
is yes exactly if both resolve to one and the same tree, or neither resolves: null is never stored,
and one memory holds all nodes.  So whatever a caller reads through one of two such handles is what
is read through the other.

**Results.**
* `sameAs_iff`: handles show the same if they resolve to the same.
* `request_congr`: a reading through either handle gives the same and does the same.
* `records_iff`: which errors a harmless request records.
* `valueAt_cases`: the handle of a child is new, or there is nothing at the place but null.
* `identity_congruent`: identity is an equivalence on all handles and a congruence for readings.
-/

namespace TreeHandles

variable {s : Shape}

namespace Request

/-- The readings of one handle that give no handle. -/
inductive Reading : {s : Shape} → (Handle → Request String s) → Prop
  | kind : Reading kind
  | size : Reading size
  | asString : Reading asString
  | asInt : Reading asInt
  | asUint : Reading asUint
  | asFloat : Reading asFloat
  | asBool : Reading asBool
  | keyAt (index : Nat) : Reading fun h => keyAt h index
  | toJson : Reading toJson

/-- A request that breaks no contract, whatever becomes of it. -/
def Harmless (r : Request String s) : Prop :=
  ∀ options t e, (r.answer options t).1 = .error e → e.violation? = none

variable {options : Options} {t : Table} {a b h : Handle} {n : Node} {e : Error}
  {r : Handle → Request String s}

theorem harmless_valueAt (h : Handle) (index : Nat) :
    (valueAt h index : Request String .handle).Harmless := by
  intro options t e fails
  rcases t.valueAt_cases h index with ⟨d, missing, same⟩ | ⟨n, _, same⟩
  · simp only [answer, same] at fails
    cases fails
    exact View.violation?_childAt missing
  · simp only [answer, same] at fails
    cases fails

namespace Reading

theorem harmless (reading : Reading r) (h : Handle) : (r h).Harmless := by
  intro options t e fails
  cases reading with
  | kind | size | toJson => cases fails
  | asString =>
      have missing : (t.view h).payload .string = .error e := eq_error_of_map fails
      exact View.violation?_payload missing
  | asInt | asUint | asFloat | asBool => exact View.violation?_payload fails
  | keyAt index =>
      have missing : (t.view h).keyAt index = .error e := eq_error_of_map fails
      exact View.violation?_keyAt missing

/-- A reading of a node depends on the node alone. -/
theorem answer_congr (reading : Reading r) (ha : t.node? a = some n) (hb : t.node? b = some n) :
    (r a).answer options t = (r b).answer options t := by
  have va : (t.view a).node? = some n := ha
  have vb : (t.view b).node? = some n := hb
  cases reading with
  | kind => simp only [answer, View.kind, va, vb]
  | size => simp only [answer, View.size, va, vb]
  | asString | asInt | asUint | asFloat | asBool => simp only [answer, View.payload_congr va vb]
  | keyAt index => simp only [answer, View.keyAt_congr va vb]
  | toJson => simp only [answer, ha, hb]

/-- A reading through a handle that names nothing finds null, or misses. -/
theorem answer_of_none (reading : Reading r) (unresolved : t.node? h = none) :
    (r h).answer options t = (.ok s.empty, t) ∨
      (r h).answer options t = (.error (.lookupMiss h), t) := by
  have view : (t.view h).node? = none := unresolved
  cases reading with
  | kind => exact .inl (by simp only [answer, View.kind, view]; rfl)
  | size => exact .inl (by simp only [answer, View.size, view]; rfl)
  | toJson => exact .inl (by simp only [answer, unresolved]; rfl)
  | asString | asInt | asUint | asFloat | asBool =>
      exact .inr (by simp only [answer, View.payload_of_none view]; rfl)
  | keyAt index => exact .inr (by simp only [answer, View.keyAt_of_none view]; rfl)

theorem fallback_congr (reading : Reading r) (a b : Handle) : (r a).fallback = (r b).fallback := by
  cases reading <;> rfl

end Reading

end Request

namespace Session

variable {options : Options} {x y z : Session} {a b c d h : Handle} {m n : Node} {e : Error}

/-- Whether a caller who asks is told that two handles show the same node. -/
def SameAs (x : Session) (a b : Handle) : Prop :=
  x.perform (.request (.sameAs a b)) = .ok (true, x)

section Identity

/-- **Handles show the same exactly if they resolve to the same.** -/
theorem sameAs_iff (standing : x.Standing) : x.SameAs a b ↔ x.node? a = x.node? b := by
  have told : x.SameAs a b ↔ (x.table.view a).sameAs (x.table.view b) = true := by
    simp [SameAs, perform, request, Request.answer]
  rw [told]
  show View.sameAs ⟨a, x.node? a⟩ ⟨b, x.node? b⟩ = true ↔ _
  cases ha : x.node? a with
  | none =>
      cases hb : x.node? b with
      | none => simp [View.sameAs]
      | some n => simp [View.sameAs, standing.isNull_eq_false hb]
  | some m =>
      cases hb : x.node? b with
      | none => simp [View.sameAs, standing.isNull_eq_false ha]
      | some n =>
          constructor
          · exact fun same => congrArg some (standing.eq_of_same ha hb same)
          · intro same
            cases same
            exact Node.same_self m

end Identity

section Reading

variable {r : Handle → Request String s}

/-- A reading through a handle that resolves to nothing gives the empty answer, and does nothing. -/
theorem request_of_unresolved (reading : Request.Reading r) (unresolved : x.node? h = none) :
    x.request (r h) = .ok (s.empty, x) := by
  have read : (r h).answer x.options x.table = (.ok s.empty, x.table) ∨
      (r h).answer x.options x.table = (.error (.lookupMiss h), x.table) :=
    reading.answer_of_none unresolved
  rcases read with found | missed
  · rw [request_of_ok (congrArg Prod.fst found), found]
  · exact request_of_miss (congrArg Prod.fst missed)

theorem request_valueAt_of_unresolved (unresolved : x.node? h = none) (index : Nat) :
    x.request (.valueAt h index) = .ok (.null, x) := by
  have blank : (x.table.view h).node? = none := unresolved
  have missed : ((Request.valueAt h index).answer x.options x.table).1 =
      .error (.lookupMiss h) := by
    simp only [Request.answer, Table.valueAt, View.childAt_of_none blank]
    rfl
  exact request_of_miss missed

/-- Readings with the same answer do the same. -/
theorem request_eq_of_answer_eq (reading : Request.Reading r)
    (answers : (r a).answer x.options x.table = (r b).answer x.options x.table) :
    x.request (r a) = x.request (r b) := by
  simp only [request, answers, reading.fallback_congr a b]

/-- **A reading through handles that resolve to the same gives the same and does the same.** -/
theorem request_congr (reading : Request.Reading r) (same : x.node? a = x.node? b) :
    x.request (r a) = x.request (r b) := by
  cases ha : x.node? a with
  | some n => exact request_eq_of_answer_eq reading (reading.answer_congr ha (same.symm.trans ha))
  | none =>
      rw [request_of_unresolved reading ha, request_of_unresolved reading (same ▸ ha)]

theorem exists_request {q : Request String s} (harmless : q.Harmless) :
    ∃ answer y, x.request q = .ok (answer, y) := by
  cases hq : (q.answer x.options x.table).1 with
  | ok answer => exact ⟨_, _, request_of_ok hq⟩
  | error e =>
      by_cases miss : ∃ k, e = .lookupMiss k
      · obtain ⟨k, rfl⟩ := miss
        exact ⟨_, _, request_of_miss hq⟩
      · have recorded : ∀ k, e ≠ .lookupMiss k := fun k hk => miss ⟨k, hk⟩
        rw [request_of_error hq recorded, record_of_no_violation (harmless _ _ _ hq)]
        exact ⟨_, _, rfl⟩

/-- **A harmless request records the error with which it fails, unless it misses.** -/
theorem records_iff {q : Request String s} (harmless : q.Harmless) :
    x.Records (fun x => x.perform (.request q)) e ↔
      (q.answer x.options x.table).1 = .error e ∧ ∀ k, e ≠ .lookupMiss k := by
  constructor
  · rintro ⟨answer, y, performed, last⟩
    rcases request_cases q performed with ⟨_, rfl⟩ | ⟨_, _, rfl⟩ | ⟨d, fails, recorded, _, rfl⟩
    · cases last
    · cases last
    · cases last
      exact ⟨fails, recorded⟩
  · rintro ⟨fails, recorded⟩
    have failsHere : (q.answer x.clearError.options x.clearError.table).1 = .error e := fails
    refine ⟨q.fallback, x.clearError.withError e, ?_, rfl⟩
    show x.clearError.request q = _
    rw [request_of_error failsHere recorded, record_of_no_violation (harmless _ _ _ fails)]
    rfl

end Reading

section Children

variable {index : Nat}

theorem valueAt_cases (performed : x.perform (.request (.valueAt h index)) = .ok (c, y)) :
    (∃ n, (x.table.view h).childAt index = .ok n ∧ n.isNull = false ∧ c = x.table.last.next ∧
        y.table.nodes[c]? = some n) ∨
      (∀ n, (x.table.view h).childAt index = .ok n → n.isNull = true) ∧ c = .null ∧
        y.table = x.table := by
  rcases request_cases _ performed with ⟨ok, rfl⟩ | ⟨⟨k, missed⟩, rfl, rfl⟩ | ⟨e, failed, _, rfl, rfl⟩
  · simp only [Request.answer] at ok ⊢
    rcases x.table.valueAt_cases h index with ⟨e, _, he⟩ | ⟨n, hn, he⟩
    · rw [he] at ok
      cases ok
    · rw [he] at ok ⊢
      cases hnull : n.isNull with
      | false =>
          simp only [Table.done, Table.register, hnull] at ok ⊢
          cases ok
          exact .inl ⟨n, hn, hnull, rfl, Handle.getElem?_insert_self ..⟩
      | true =>
          simp only [Table.done, Table.register, hnull] at ok ⊢
          cases ok
          refine .inr ⟨fun m hm => ?_, rfl, rfl⟩
          cases hn.symm.trans hm
          exact hnull
  · refine .inr ⟨fun n hn => ?_, rfl, rfl⟩
    simp [Request.answer, Table.valueAt, hn, Table.done] at missed
  · refine .inr ⟨fun n hn => ?_, rfl, rfl⟩
    simp [Request.answer, Table.valueAt, hn, Table.done] at failed

theorem records_valueAt_iff :
    x.Records (fun x => x.perform (.request (.valueAt h index))) e ↔
      (x.table.view h).childAt index = .error e ∧ ∀ k, e ≠ .lookupMiss k := by
  rw [records_iff (Request.harmless_valueAt h index)]
  refine and_congr_left fun _ => ?_
  rcases x.table.valueAt_cases h index with ⟨d, hd, he⟩ | ⟨n, hn, he⟩
  · simp [Request.answer, he, hd]
  · simp [Request.answer, he, hn, Table.done]

/-- Two children can be read, one after the other, while there are numbers for them. -/
theorem exists_valueAt_twice {calls : List AnyCall} (hx : (new options).run calls = .ok x)
    (few : allocations (new options) (calls ++ [(Call.request (.valueAt a index)).toAny,
      (Call.request (.valueAt b index)).toAny]) < UInt64.size - 1) :
    ∃ c y d z, x.perform (.request (.valueAt a index)) = .ok (c, y) ∧
      y.perform (.request (.valueAt b index)) = .ok (d, z) ∧ x.table.last ≤ y.table.last ∧
      y.table.last ≤ z.table.last := by
  obtain ⟨c, y, first⟩ := exists_request (x := x) (Request.harmless_valueAt a index)
  obtain ⟨d, z, second⟩ := exists_request (x := y) (Request.harmless_valueAt b index)
  have hz : (new options).run (calls ++ [(Call.request (.valueAt a index)).toAny,
      (Call.request (.valueAt b index)).toAny]) = .ok z :=
    run_append.mpr ⟨x, hx, run_cons.mpr ⟨c, y, first, run_cons.mpr ⟨d, z, second, rfl⟩⟩⟩
  obtain ⟨readyThen, forward⟩ := ((Ready.of_run hz few).run hx).perform first
  exact ⟨c, y, d, z, first, second, forward, (readyThen.perform second).2⟩

/-- Readings that find the same child, one after the other, give handles that show the same, or two
null handles. -/
theorem valueAt_same (standing : x.Standing)
    (found : ∀ n, (x.table.view a).childAt index = .ok n ↔ (y.table.view b).childAt index = .ok n)
    (first : x.perform (.request (.valueAt a index)) = .ok (c, y))
    (second : y.perform (.request (.valueAt b index)) = .ok (d, z))
    (forward : x.table.last ≤ y.table.last) (forwardThen : y.table.last ≤ z.table.last) :
    (c = .null ↔ d = .null) ∧ z.SameAs c d := by
  have standingThen : y.Standing := standing.perform first forward
  have standingLast : z.Standing := standingThen.perform second forwardThen
  rw [sameAs_iff standingLast]
  rcases valueAt_cases first with ⟨m, hm, present, _, named⟩ | ⟨absent, rfl, _⟩
  · rcases valueAt_cases second with ⟨n, hn, _, _, namedThen⟩ | ⟨absent, _, _⟩
    · cases ((found m).mp hm).symm.trans hn
      rw [← standingThen.node?_eq] at named
      rw [← standingLast.node?_eq] at namedThen
      have keptChild := standingThen.node?_request second forwardThen named
      refine ⟨?_, keptChild.trans namedThen.symm⟩
      simp [ne_null_of_node? named, ne_null_of_node? namedThen]
    · rw [absent m ((found m).mp hm)] at present
      cases present
  · rcases valueAt_cases second with ⟨n, hn, present, _, _⟩ | ⟨_, rfl, _⟩
    · rw [absent n ((found n).mpr hn)] at present
      cases present
    · exact ⟨Iff.rfl, rfl⟩

/-- **Readings of children, one after the other.**  Through handles that resolve to the same they
record the same errors, and give handles that show the same. -/
theorem valueAt_congr (standing : x.Standing) (same : x.node? a = x.node? b)
    (first : x.perform (.request (.valueAt a index)) = .ok (c, y))
    (second : y.perform (.request (.valueAt b index)) = .ok (d, z))
    (forward : x.table.last ≤ y.table.last) (forwardThen : y.table.last ≤ z.table.last) :
    (c = .null ↔ d = .null) ∧ z.SameAs c d ∧
      ∀ e, x.Records (fun x => x.perform (.request (.valueAt a index))) e ↔
        y.Records (fun x => x.perform (.request (.valueAt b index))) e := by
  have kept : x.node? a = y.node? b := by
    cases ha : x.node? a with
    | some n => exact (standing.node?_request first forward (same ▸ ha)).symm
    | none =>
        -- Where there is nothing to read, nothing is issued either.
        have noChild : (x.table.view a).childAt index = .error (.lookupMiss a) :=
          View.childAt_of_none (v := x.table.view a) ha
        rcases valueAt_cases first with ⟨n, hn, _⟩ | ⟨_, _, unchanged⟩
        · cases noChild.symm.trans hn
        · rw [node?, unchanged]
          exact (same ▸ ha).symm
  obtain ⟨found, failed⟩ := View.childAt_agree (v := x.table.view a) (w := y.table.view b) kept index
  obtain ⟨null, shown⟩ := valueAt_same standing found first second forward forwardThen
  refine ⟨null, shown, fun e => ?_⟩
  rw [records_valueAt_iff, records_valueAt_iff]
  exact and_congr_left (failed e)

end Children

/-- **Identity is an equivalence and a congruence.**  In every session that is reached while the
numbers last, showing the same is reflexive, symmetric and transitive on all handles.  The handles
that resolve to nothing, which are the null handle, those not issued yet, those from before an
emptying and those of open builders, make one class.  Through handles that show the same, every
reading gives the same answer, changes the session in the same way and records the same error, and
two children at one place, read one after the other, are both null or show the same. -/
theorem identity_congruent (options : Options) (calls : List AnyCall) (x : Session)
    (hx : (new options).run calls = .ok x)
    (few : allocations (new options) calls < UInt64.size - 1) :
    (∀ a, x.SameAs a a) ∧ (∀ a b, x.SameAs a b → x.SameAs b a) ∧
    (∀ a b c, x.SameAs a b → x.SameAs b c → x.SameAs a c) ∧
    (∀ a b, x.node? a = none → (x.SameAs a b ↔ x.node? b = none)) ∧
    (x.node? .null = none ∧ (∀ h, x.table.last < h → x.node? h = none) ∧
      (∀ before after y, calls = before ++ Call.free.toAny :: after →
        (new options).run before = .ok y → ∀ h, h ≤ y.table.last → x.node? h = none) ∧
      ∀ h b, x.table.builder? h = some b → b.isBuilt = false → x.node? h = none) ∧
    ∀ a b, x.SameAs a b →
      (∀ {s : Shape} (r : Handle → Request String s), Request.Reading r →
        (∃ answer y, x.perform (.request (r a)) = .ok (answer, y) ∧
          x.perform (.request (r b)) = .ok (answer, y)) ∧
        ∀ e, x.Records (fun x => x.perform (.request (r a))) e ↔
          x.Records (fun x => x.perform (.request (r b))) e) ∧
      ∀ index,
        allocations (new options) (calls ++ [(Call.request (.valueAt a index)).toAny,
          (Call.request (.valueAt b index)).toAny]) < UInt64.size - 1 →
        ∃ c y d z, x.perform (.request (.valueAt a index)) = .ok (c, y) ∧
          y.perform (.request (.valueAt b index)) = .ok (d, z) ∧
          (c = .null ↔ d = .null) ∧ z.SameAs c d ∧
          ∀ e, x.Records (fun x => x.perform (.request (.valueAt a index))) e ↔
            y.Records (fun x => x.perform (.request (.valueAt b index))) e := by
  have standing := (Standing.of_run hx few).1
  simp only [sameAs_iff standing]
  refine ⟨fun a => trivial, fun a b => Eq.symm, fun a b c => Eq.trans, ?_, ⟨rfl, ?_, ?_, ?_⟩, ?_⟩
  · intro a b unresolved
    rw [unresolved, eq_comm]
  · intro h beyond
    rw [standing.node?_eq]
    exact standing.sound.nodes_within.getElem?_of_lt beyond
  · rintro before after y rfl hy h old
    exact node?_eq_none_of_free (Ready.of_run hx few) hy hx old
  · intro h b found isOpen
    rw [standing.node?_eq]
    exact standing.sound.unnamed_of_open (Table.getElem?_of_builder? found) isOpen
  · intro a b same
    refine ⟨fun r reading => ⟨?_, fun e => ?_⟩, fun index fewThen => ?_⟩
    · obtain ⟨answer, y, performed⟩ := exists_request (x := x) (reading.harmless a)
      exact ⟨answer, y, performed, (request_congr reading same).symm.trans performed⟩
    · have sameThen : x.clearError.node? a = x.clearError.node? b := same
      simp only [Records, perform, request_congr reading sameThen]
    · obtain ⟨c, y, d, z, first, second, forward, forwardThen⟩ := exists_valueAt_twice hx fewThen
      exact ⟨c, y, d, z, first, second,
        valueAt_congr standing same first second forward forwardThen⟩

/-- An array with an empty array inside, under the handle of its builder and under the handle that
the building gave; and a handle that was never issued. -/
theorem identity_congruent_of_built_array :
    let calls : List AnyCall :=
      [(Call.request (.newArray 1)).toAny, (Call.request (.newArray 0)).toAny,
        (Call.request (.build ⟨2⟩)).toAny, (Call.request (.setValue ⟨1⟩ 0 ⟨3⟩)).toAny,
        (Call.request (.build ⟨1⟩)).toAny]
    ∃ x, (new {}).run calls = .ok x ∧ x.SameAs ⟨1⟩ ⟨4⟩ ∧ ¬ x.SameAs ⟨1⟩ ⟨9⟩ ∧
      (∃ answer y, x.perform (.request (.toJson ⟨1⟩)) = .ok (answer, y) ∧
        x.perform (.request (.toJson ⟨4⟩)) = .ok (answer, y)) ∧
      ∃ y z, x.perform (.request (.valueAt ⟨1⟩ 0)) = .ok (⟨5⟩, y) ∧
        y.perform (.request (.valueAt ⟨4⟩ 0)) = .ok (⟨6⟩, z) ∧ z.SameAs ⟨5⟩ ⟨6⟩ := by
  intro calls
  obtain ⟨x, hx⟩ : ∃ x, (new {}).run calls = .ok x := ⟨_, rfl⟩
  obtain ⟨_, symmetric, _, unresolved, ⟨_, beyond, _⟩, congruent⟩ :=
    identity_congruent {} calls x hx (by decide)
  cases hx
  obtain ⟨readings, children⟩ := congruent ⟨1⟩ ⟨4⟩ rfl
  obtain ⟨c, y, d, z, first, second, _, same, _⟩ := children 0 (by decide)
  cases first
  cases second
  refine ⟨_, rfl, rfl, fun same => ?_, (readings _ .toJson).1, _, _, rfl, rfl, same⟩
  have nothing := (unresolved ⟨9⟩ ⟨1⟩ (beyond ⟨9⟩ (by decide))).mp (symmetric ⟨1⟩ ⟨9⟩ same)
  exact absurd (congrArg Option.isSome nothing) (by decide)

end Session

end TreeHandles
