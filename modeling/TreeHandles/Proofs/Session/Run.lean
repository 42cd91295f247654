import TreeHandles.Proofs.Table.Run
import TreeHandles.Session

/-!
# Runs of a session

A run is a list of calls, each with an answer of its own shape.  What a call does to the table of a
session is one operation on that table, or nothing, so that a run of a session is a run of its
table, and whatever holds of all tables that are reached holds of the tables of sessions.

**Results.**
* `Request.table_answer`: what a request does to a table.
* `exists_run`: a session that reports breaches of the contract can perform every list of calls.
* `table_run`: a run of a session is a run of its table; the options and the policy stay.
* `allocations_eq`: a run of a session allocates as many handles as the run of its table.
* `Ready.perform` and `Ready.run`: while the numbers last, the table of a session stays sound.
-/

namespace TreeHandles

/-- What is mapped to a result was a result. -/
theorem exists_of_map_eq_ok {ε α β : Type} {f : α → β} {e : Except ε α} {b : β}
    (h : e.map f = .ok b) : ∃ a, e = .ok a ∧ f a = b := by
  cases e with
  | error v => cases h
  | ok a =>
      cases h
      exact ⟨a, rfl, rfl⟩

theorem eq_error_of_map {ε α β : Type} {f : α → β} {r : Except ε α} {e : ε}
    (h : r.map f = .error e) : r = .error e := by
  cases r with
  | ok a => cases h
  | error d =>
      cases h
      rfl

variable {s : Shape}

namespace Request

/-- What a request does to a table, as an operation; a request that only reads does nothing. -/
def operation? (options : Options) : Request String s → Option Table.Operation
  | valueAt h index => some (.valueAt h index)
  | loadJson source =>
      match Json.parse source with
      | .ok d => some (.registerDocument d)
      | .error _ => none
  | newObject hint => some (.openBuilder .object (min hint options.maxCapacityHint.toNat))
  | newArray length =>
      if options.maxArrayLength.toNat < length then none else some (.openBuilder .array length)
  | newString s => some (.registerNode (.leaf (.string s)))
  | newInt i => some (.registerNode (.leaf (.int i)))
  | newUint u => some (.registerNode (.leaf (.uint u)))
  | newFloat x => some (.registerNode (.leaf (.float x)))
  | newBool b => some (.registerNode (.leaf (.bool b)))
  | setValue h index child => some (.setValue h index child)
  | setKeyValue h key child => some (.setKeyValue h key child)
  | build h => some (.build h)
  | _ => none

theorem table_answer (options : Options) (t : Table) (r : Request String s) :
    (r.answer options t).2 = t.run (r.operation? options).toList := by
  cases r with
  | loadJson source =>
      simp only [answer, operation?]
      cases Json.parse source <;> rfl
  | newArray length =>
      simp only [answer, operation?]
      split <;> rfl
  | _ => rfl

end Request

namespace Session

/-- A call together with the shape of its answer. -/
abbrev AnyCall := (s : Shape) × Call s

/-- A call as an element of a run. -/
abbrev Call.toAny (c : Call s) : AnyCall := ⟨s, c⟩

/-- What a call does to the table of a session, as an operation. -/
def Call.operation? (options : Options) : Call s → Option Table.Operation
  | .request r => r.operation? options
  | .register steps => some (.register steps)
  | .free => some .free
  | .report _ | .clearError | .hasError => none

/-- What a list of calls does to the table of a session. -/
def operations (options : Options) (calls : List AnyCall) : List Table.Operation :=
  calls.flatMap fun c => (c.2.operation? options).toList

/-- The session after a list of calls, unless one of them ends the process. -/
def run (x : Session) : List AnyCall → Except Violation Session
  | [] => .ok x
  | c :: rest =>
      match x.perform c.2 with
      | .ok (_, y) => y.run rest
      | .error v => .error v

/-- A session that some calls lead to from a new one. -/
def Reached (x : Session) : Prop :=
  ∃ options calls, (new options).run calls = .ok x

/-- What can be seen at each call of a run, where `see` looks at a call and the session before. -/
def history {α : Type} (see : Session → AnyCall → Option α) : Session → List AnyCall → List α
  | _, [] => []
  | x, c :: rest =>
      match x.perform c.2 with
      | .ok (_, y) => (see x c).toList ++ history see y rest
      | .error _ => []

/-- The number of handles that a list of calls allocates. -/
def allocations : Session → List AnyCall → Nat
  | _, [] => 0
  | x, c :: rest =>
      match x.perform c.2 with
      | .ok (_, y) => Table.draws x.table y.table + allocations y rest
      | .error _ => 0

variable {x y : Session}

section Performing

theorem record_of_report (report : x.errors.policy = .report) (e : Error) :
    x.record e = .ok { x with errors := { x.errors with last := some e } } := by
  rw [record, ErrorChannel.record_report report]
  rfl

theorem eq_of_record {e : Error} (h : x.record e = .ok y) :
    y = { x with errors := { x.errors with last := some e } } := by
  rw [record, ErrorChannel.record] at h
  split at h
  · cases h
  · cases h
    rfl

/-- What a request that is carried out, misses, or fails makes of a session. -/
theorem request_cases (r : Request String s) {a : s.Answer} (h : x.request r = .ok (a, y)) :
    ((r.answer x.options x.table).1 = .ok a ∧
        y = { x with table := (r.answer x.options x.table).2 }) ∨
      ((∃ k, (r.answer x.options x.table).1 = .error (.lookupMiss k)) ∧ a = s.empty ∧ y = x) ∨
      ∃ e, (r.answer x.options x.table).1 = .error e ∧ (∀ k, e ≠ .lookupMiss k) ∧
        a = r.fallback ∧ y = { x with errors := { x.errors with last := some e } } := by
  cases ha : (r.answer x.options x.table).1 with
  | ok b =>
      rw [request_of_ok ha] at h
      cases h
      exact .inl ⟨rfl, rfl⟩
  | error e =>
      refine .inr ?_
      by_cases miss : ∃ k, e = .lookupMiss k
      · obtain ⟨k, rfl⟩ := miss
        rw [request_of_miss ha] at h
        cases h
        exact .inl ⟨⟨k, rfl⟩, rfl, rfl⟩
      · have recorded : ∀ k, e ≠ .lookupMiss k := fun k hk => miss ⟨k, hk⟩
        rw [request_of_error ha recorded] at h
        obtain ⟨z, hz, same⟩ := exists_of_map_eq_ok h
        cases same
        exact .inr ⟨e, rfl, recorded, rfl, eq_of_record hz⟩

theorem perform_keeps {c : Call s} {a : s.Answer} (h : x.perform c = .ok (a, y)) :
    y.table = x.table.run (c.operation? x.options).toList ∧ y.options = x.options ∧
      y.errors.policy = x.errors.policy := by
  cases c with
  | request r =>
      show y.table = x.table.run (r.operation? x.options).toList ∧ _
      rw [← r.table_answer]
      rcases request_cases r h with ⟨_, rfl⟩ | ⟨⟨k, miss⟩, _, rfl⟩ | ⟨e, fails, _, _, rfl⟩
      · exact ⟨rfl, rfl, rfl⟩
      · exact ⟨(Request.table_answer_of_error miss).symm, rfl, rfl⟩
      · exact ⟨(Request.table_answer_of_error fails).symm, rfl, rfl⟩
  | report e =>
      obtain ⟨z, hz, same⟩ := exists_of_map_eq_ok h
      cases same
      rw [eq_of_record hz]
      exact ⟨rfl, rfl, rfl⟩
  | register | free | clearError | hasError =>
      cases h
      exact ⟨rfl, rfl, rfl⟩

theorem exists_perform (report : x.errors.policy = .report) (c : Call s) :
    ∃ a y, x.perform c = .ok (a, y) := by
  cases c with
  | request r =>
      simp only [perform]
      cases ha : (r.answer x.options x.table).1 with
      | ok a => exact ⟨_, _, request_of_ok ha⟩
      | error e =>
          by_cases miss : ∃ k, e = .lookupMiss k
          · obtain ⟨k, rfl⟩ := miss
            exact ⟨_, _, request_of_miss ha⟩
          · have recorded : ∀ k, e ≠ .lookupMiss k := fun k hk => miss ⟨k, hk⟩
            rw [request_of_error ha recorded, record_of_report report]
            exact ⟨_, _, rfl⟩
  | report e =>
      simp only [perform]
      rw [record_of_report report]
      exact ⟨_, _, rfl⟩
  | register | free | clearError | hasError => exact ⟨_, _, rfl⟩

end Performing

section Running

variable {z : Session} {calls more : List AnyCall}

theorem run_cons {c : AnyCall} {rest : List AnyCall} :
    x.run (c :: rest) = .ok z ↔ ∃ a y, x.perform c.2 = .ok (a, y) ∧ y.run rest = .ok z := by
  simp only [run]
  cases hc : x.perform c.2 with
  | error v => simp
  | ok result =>
      constructor
      · exact fun h => ⟨result.1, result.2, rfl, h⟩
      · rintro ⟨a, y, same, h⟩
        cases same
        exact h

theorem run_append :
    x.run (calls ++ more) = .ok z ↔ ∃ y, x.run calls = .ok y ∧ y.run more = .ok z := by
  induction calls generalizing x with
  | nil => simp [run]
  | cons c rest ih =>
      rw [List.cons_append, run_cons]
      constructor
      · rintro ⟨a, y, hc, h⟩
        obtain ⟨w, hw, h⟩ := ih.mp h
        exact ⟨w, run_cons.mpr ⟨a, y, hc, hw⟩, h⟩
      · rintro ⟨w, hw, h⟩
        obtain ⟨a, y, hc, hw⟩ := run_cons.mp hw
        exact ⟨a, y, hc, ih.mpr ⟨w, hw, h⟩⟩

theorem run_append_of_ok (hy : x.run calls = .ok y) : x.run (calls ++ more) = y.run more := by
  induction calls generalizing x with
  | nil =>
      cases hy
      rfl
  | cons c rest ih =>
      obtain ⟨a, w, hc, hy⟩ := run_cons.mp hy
      simp only [List.cons_append, run, hc, ih hy]

/-- **A run of a session is a run of its table.** -/
theorem table_run (h : x.run calls = .ok y) :
    y.table = x.table.run (operations x.options calls) ∧ y.options = x.options ∧
      y.errors.policy = x.errors.policy := by
  induction calls generalizing x with
  | nil =>
      cases h
      exact ⟨rfl, rfl, rfl⟩
  | cons c rest ih =>
      obtain ⟨a, w, hc, h⟩ := run_cons.mp h
      obtain ⟨table, options, policy⟩ := perform_keeps hc
      obtain ⟨tableThen, optionsThen, policyThen⟩ := ih h
      refine ⟨?_, optionsThen.trans options, policyThen.trans policy⟩
      rw [tableThen, table, options, ← Table.run_append]
      rfl

theorem Reached.policy_eq (reached : x.Reached) :
    x.errors.policy = x.options.violationPolicy := by
  obtain ⟨options, calls, h⟩ := reached
  obtain ⟨_, sameOptions, samePolicy⟩ := table_run h
  rw [sameOptions, samePolicy]
  rfl

theorem exists_run (report : x.errors.policy = .report) (calls : List AnyCall) :
    ∃ y, x.run calls = .ok y := by
  induction calls generalizing x with
  | nil => exact ⟨x, rfl⟩
  | cons c rest ih =>
      obtain ⟨a, y, hc⟩ := exists_perform report c.2
      obtain ⟨z, hz⟩ := ih ((perform_keeps hc).2.2.trans report)
      exact ⟨z, run_cons.mpr ⟨a, y, hc, hz⟩⟩

/-- Only under the policy that aborts does a run end the process. -/
theorem policy_of_run_error {v : Violation} (h : x.run calls = .error v) :
    x.errors.policy = .abort := by
  cases policy : x.errors.policy with
  | abort => rfl
  | report =>
      obtain ⟨y, hy⟩ := exists_run policy calls
      rw [h] at hy
      cases hy

theorem allocations_eq (h : x.run calls = .ok y) :
    allocations x calls = Table.allocations x.table (operations x.options calls) := by
  induction calls generalizing x with
  | nil => rfl
  | cons c rest ih =>
      obtain ⟨a, w, hc, h⟩ := run_cons.mp h
      obtain ⟨table, options, _⟩ := perform_keeps hc
      have first : Table.draws x.table w.table =
          Table.allocations x.table (c.2.operation? x.options).toList := by
        rw [table]
        cases c.2.operation? x.options with
        | none => simp [Table.draws, Table.run, Table.allocations]
        | some op => simp [Table.run, Table.allocations]
      simp only [allocations, hc]
      rw [first, ih h, options, table, ← Table.allocations_append]
      rfl

end Running

/-- What holds of the table of a session of which a list of calls is to be performed: it is sound,
where all present handles were issued after a base, and there are numbers for all the calls. -/
structure Ready (base : Handle) (x : Session) (calls : List AnyCall) : Prop where
  sound : Table.Sound base x.table
  room : Table.Room x.table (operations x.options calls)

namespace Ready

variable {base : Handle} {c : AnyCall} {a : c.1.Answer} {calls rest more : List AnyCall}

theorem of_few {options : Options} (report : options.violationPolicy = .report)
    (few : allocations (new options) calls < UInt64.size - 1) :
    Ready .null (new options) calls := by
  obtain ⟨y, hy⟩ : ∃ y, (new options).run calls = .ok y := exists_run report calls
  rw [allocations_eq hy] at few
  exact ⟨.empty .null ⟨0⟩, .of_few few⟩

theorem perform (ready : Ready base x (c :: rest)) (hc : x.perform c.2 = .ok (a, y)) :
    Ready base y rest ∧ x.table.last ≤ y.table.last := by
  obtain ⟨table, options, _⟩ := perform_keeps hc
  have room : Table.Room x.table
      ((c.2.operation? x.options).toList ++ operations x.options rest) := ready.room
  have sound := ready.sound.run room.left
  have roomRest := room.right
  have forward := room.left.last_le_run
  rw [← table] at sound roomRest forward
  exact ⟨⟨sound, options ▸ roomRest⟩, forward⟩

theorem run (ready : Ready base x (calls ++ more)) (h : x.run calls = .ok y) :
    Ready base y more := by
  induction calls generalizing x with
  | nil =>
      cases h
      exact ready
  | cons c rest ih =>
      obtain ⟨a, w, hc, h⟩ := run_cons.mp h
      exact ih (ready.perform hc).1 h

end Ready

end Session

end TreeHandles
