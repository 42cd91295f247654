import TreeHandles.Proofs.Boundary.Run

/-!
# Failing calls are atomic

A call can fail in several places, some of them behind work that was already done: a child is
looked up before the builder, a text is decoded and parsed before a handle is issued.  Wherever it
fails, under the policy that reports, the caller gets a blank answer and only the last error
changes.

**Results.**
* `request_of_records`, `perform_of_records` and `Call.perform_of_records`: what a request, a call
  of a session and a call from outside leave if they record an error.
* `failures_atomic`: in every session that is reached, and at every boundary that is reached, a
  call that records an error changes nothing else.
-/

namespace TreeHandles

/-- An answer that says nothing; a text that says nothing is absent or empty. -/
def Shape.IsBlank : (s : Shape) → s.Answer → Prop
  | .text, a => a = none ∨ a = some ""
  | .nothing, a => a = Shape.nothing.empty
  | .flag, a => a = Shape.flag.empty
  | .handle, a => a = Shape.handle.empty
  | .int, a => a = Shape.int.empty
  | .uint, a => a = Shape.uint.empty
  | .float, a => a = Shape.float.empty
  | .size, a => a = Shape.size.empty
  | .kind, a => a = Shape.kind.empty

variable {s : Shape}

theorem Shape.isBlank_empty (s : Shape) : s.IsBlank s.empty := by
  cases s with
  | text => exact .inl rfl
  | _ => rfl

theorem Shape.isBlank_outward {a : s.Answer} (blank : s.IsBlank a) : s.IsBlank (s.outward a) := by
  cases s with
  | text =>
      rcases blank with rfl | rfl
      · exact .inl rfl
      · exact .inr rfl
  | _ => exact blank

theorem Request.isBlank_fallback (r : Request String s) : s.IsBlank r.fallback := by
  cases r with
  | asString h => exact .inr rfl
  | _ => exact Shape.isBlank_empty _

namespace Session

/-- The session with another last error. -/
def withError (x : Session) (e : Error) : Session :=
  { x with errors := { x.errors with last := some e } }

/-- What is done to a session records an error if there is one afterwards, even if there was none
before. -/
def Records {α : Type} (x : Session) (act : Session → Except Violation (α × Session))
    (e : Error) : Prop :=
  ∃ a y, act x.clearError = .ok (a, y) ∧ y.lastError = some e

variable {x : Session} {e : Error}

theorem request_of_records (report : x.errors.policy = .report) {r : Request String s}
    (records : x.Records (fun x => x.request r) e) :
    x.request r = .ok (r.fallback, x.withError e) := by
  obtain ⟨a, y, h, last⟩ := records
  rcases request_cases r h with ⟨_, rfl⟩ | ⟨_, _, rfl⟩ | ⟨f, fails, recorded, _, rfl⟩
  · cases last
  · cases last
  · cases last
    have failsHere : (r.answer x.options x.table).1 = .error e := fails
    rw [request_of_error failsHere recorded, record_of_report report]
    rfl

theorem perform_of_records (report : x.errors.policy = .report) {c : Call s}
    (records : x.Records (fun x => x.perform c) e) :
    ∃ a, x.perform c = .ok (a, x.withError e) ∧ s.IsBlank a := by
  cases c with
  | request r => exact ⟨_, request_of_records report records, r.isBlank_fallback⟩
  | report f =>
      obtain ⟨a, y, h, last⟩ := records
      obtain ⟨z, hz, same⟩ := exists_of_map_eq_ok h
      cases same
      rw [eq_of_record hz] at last
      cases last
      refine ⟨(), ?_, rfl⟩
      simp only [perform]
      rw [record_of_report report]
      rfl
  | register | free | clearError | hasError =>
      -- These record nothing, and there was no error before.
      obtain ⟨a, y, h, last⟩ := records
      cases h
      cases last

end Session

namespace Boundary

variable {x : Session} {e : Error}

theorem Call.perform_of_records (report : x.errors.policy = .report) {c : Call s}
    (records : x.Records (fun x => c.perform x) e) :
    ∃ a, c.perform x = .ok (a, x.withError e) ∧ s.IsBlank a := by
  obtain ⟨a, y, h, last⟩ := records
  cases c with
  | request r =>
      simp only [perform] at h ⊢
      cases hr : r.mapText OuterText.read with
      | ok q =>
          simp only [hr] at h ⊢
          obtain ⟨result, hq, same⟩ := exists_of_map_eq_ok h
          cases same
          rw [Session.request_of_records report ⟨result.1, result.2, hq, last⟩]
          exact ⟨_, rfl, Shape.isBlank_outward q.isBlank_fallback⟩
      | error i =>
          simp only [hr] at h ⊢
          obtain ⟨z, hz, same⟩ := exists_of_map_eq_ok h
          cases same
          rw [Session.eq_of_record hz] at last
          cases last
          rw [Session.record_of_report report]
          exact ⟨_, rfl, s.isBlank_empty⟩
  | freeNodes | lastError | hasError | clearError =>
      cases h
      cases last

/-- **Failing calls are atomic.**  In a session that reports and that any calls led to, a call that
records an error gives a blank answer and leaves the session as it was but for the last error: all
nodes, builders and the counter stay.  So does a call from outside on the session of a slot, also
if it fails for a text that is missing or cannot be decoded, and the other slots stay. -/
theorem failures_atomic :
    (∀ options : Options, options.violationPolicy = .report → ∀ calls,
      ∃ x, (Session.new options).run calls = .ok x ∧
        ∀ (s : Shape) (c : Session.Call s) (e : Error), x.Records (fun x => x.perform c) e →
          ∃ a, x.perform c = .ok (a, x.withError e) ∧ s.IsBlank a) ∧
    ∀ steps b, run {} steps = .ok b → ∀ slot x, b.session? slot = some x →
      x.options.violationPolicy = .report →
      ∀ (s : Shape) (c : Call s) (e : Error), x.Records (fun x => c.perform x) e →
        ∃ a d, b.perform (.call slot c) = .ok (a, d) ∧ s.IsBlank a ∧
          d.session? slot = some (x.withError e) ∧
          ∀ other, other ≠ slot → d.session? other = b.session? other := by
  constructor
  · intro options report calls
    obtain ⟨x, hx⟩ : ∃ x, (Session.new options).run calls = .ok x :=
      Session.exists_run report calls
    have reportThen : x.errors.policy = .report := (Session.table_run hx).2.2.trans report
    exact ⟨x, hx, fun s c e => Session.perform_of_records reportThen⟩
  · intro steps b reached slot x hx report s c e records
    have live : x.Reached := AllReached.run AllReached.empty reached hx
    obtain ⟨a, performed, blank⟩ := Call.perform_of_records (live.policy_eq.trans report) records
    refine ⟨a, b.put slot (x.withError e), ?_, blank, ?_, ?_⟩
    · simp only [perform, hx, performed]
      rfl
    · rw [session?_put, if_pos rfl]
    · intro other apart
      rw [session?_put, if_neg (Ne.symm apart)]

/-- A write beyond the length of an open array, and a text that is missing on a call of a slot. -/
theorem failures_atomic_of_refusals :
    (∃ x, (Session.new {}).run [(Session.Call.request (.newArray 1)).toAny] = .ok x ∧
      x.perform (.request (.setValue ⟨1⟩ 5 .null)) =
        .ok ((), x.withError (.contractViolation (.indexBeyondLength 5 1)))) ∧
    ∃ b x d, run {} [⟨_, .open 0⟩] = .ok b ∧ b.session? 0 = some x ∧
      b.perform (.call 0 (.request (.loadJson none))) = .ok (.null, d) ∧
      d.session? 0 = some (x.withError (.invalidInput .missingText)) := by
  obtain ⟨within, outside⟩ := failures_atomic
  constructor
  · obtain ⟨x, hx, atomic⟩ := within {} rfl [(Session.Call.request (.newArray 1)).toAny]
    cases hx
    obtain ⟨a, performed, _⟩ := atomic _ (.request (.setValue ⟨1⟩ 5 .null))
      (.contractViolation (.indexBeyondLength 5 1)) ⟨_, _, rfl, rfl⟩
    exact ⟨_, rfl, performed⟩
  · have opened : (({} : Boundary).put 0 (.new {})).session? 0 = some (.new {}) := by
      rw [session?_put, if_pos rfl]
    obtain ⟨a, d, performed, blank, failed, _⟩ := outside [⟨_, .open 0⟩] _ rfl 0 _ opened rfl _
      (.request (.loadJson none)) (.invalidInput .missingText) ⟨_, _, rfl, rfl⟩
    cases blank
    exact ⟨_, _, d, rfl, opened, performed, failed⟩

end Boundary

end TreeHandles
