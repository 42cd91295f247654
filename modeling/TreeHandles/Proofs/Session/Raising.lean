import TreeHandles.Proofs.Boundary.Atomicity
import TreeHandles.Proofs.Session.Standing

/-!
# What a call raises

A call that cannot do what it is asked for raises an error, unless it is a reading that only misses;
a report raises the error that it is given.  What becomes of a raised error is decided in one place:
a breach of the contract ends the process under the policy that aborts, and every other error is
recorded.

**Results.**
* `perform_of_raises` and `perform_of_quiet`: what a call does that raises an error, or none.
* `records_iff_raises`: the error that a call records is the one that it raises.
* `ends_iff_raises`: a call ends the process exactly if it raises a breach under the policy that
  aborts.
* `recordsAt_zero` and `recordsAt_succ`: the places of a run at which an error is recorded.
-/

namespace TreeHandles
namespace Session

variable {s : Shape}

/-- The error that a call raises. -/
def Call.raises? (x : Session) : Call s → Option Error
  | .request r =>
      match (r.answer x.options x.table).1 with
      | .ok _ | .error (.lookupMiss _) => none
      | .error e => some e
  | .report e => some e
  | .register _ | .free | .clearError | .hasError => none

/-- The answer of a call that raises an error. -/
def Call.blank : Call s → s.Answer
  | .request r => r.fallback
  | .register _ => Shape.handle.empty
  | .free | .report _ | .clearError => Shape.nothing.empty
  | .hasError => Shape.flag.empty

/-- An error does not end the process. -/
def Recordable (x : Session) (e : Error) : Prop :=
  x.errors.policy = .report ∨ e.violation? = none

/-- The call at a place of a run records an error. -/
def RecordsAt (x : Session) (calls : List AnyCall) (k : Nat) (e : Error) : Prop :=
  ∃ c y, calls[k]? = some c ∧ x.run (calls.take k) = .ok y ∧ y.Records (fun y => y.perform c.2) e

variable {x y : Session} {c : Call s} {a : s.Answer} {e : Error} {v : Violation}

section Recording

theorem record_of_recordable (recordable : x.Recordable e) : x.record e = .ok (x.withError e) := by
  rcases recordable with report | harmless
  · exact record_of_report report e
  · exact record_of_no_violation harmless

theorem recordable_of_record (recorded : x.record e = .ok y) : x.Recordable e := by
  cases policy : x.errors.policy with
  | report => exact .inl policy
  | abort =>
      cases breach : e.violation? with
      | none => exact .inr breach
      | some v => simp [record, ErrorChannel.record, policy, breach, Except.map] at recorded

theorem record_eq_error_iff :
    x.record e = .error v ↔ x.errors.policy = .abort ∧ e = .contractViolation v := by
  rw [← ErrorChannel.record_eq_error_iff, record]
  cases x.errors.record e <;> simp [Except.map]

end Recording

section Raising

theorem raises?_request_eq_some_iff {r : Request String s} :
    (Call.request r).raises? x = some e ↔
      (r.answer x.options x.table).1 = .error e ∧ ∀ h, e ≠ .lookupMiss h := by
  cases ha : (r.answer x.options x.table).1 with
  | ok b => simp [Call.raises?, ha]
  | error f =>
      cases f with
      | lookupMiss h =>
          simp only [Call.raises?, ha]
          refine ⟨nofun, ?_⟩
          rintro ⟨same, recorded⟩
          cases same
          exact absurd rfl (recorded h)
      | _ =>
          simp only [Call.raises?, ha]
          constructor
          · intro same
            cases same
            exact ⟨rfl, nofun⟩
          · rintro ⟨same, _⟩
            cases same
            rfl

theorem perform_of_raises (raises : c.raises? x = some e) :
    x.perform c = (x.record e).map fun y => (c.blank, y) := by
  cases c with
  | request r =>
      obtain ⟨fails, recorded⟩ := raises?_request_eq_some_iff.mp raises
      exact request_of_error fails recorded
  | report f =>
      cases raises
      rfl
  | register | free | clearError | hasError => cases raises

/-- A call that raises nothing answers, and keeps the last error, unless it clears it. -/
theorem perform_of_quiet (quiet : c.raises? x = none) :
    ∃ a y, x.perform c = .ok (a, y) ∧
      (y.errors = x.errors ∨ c.toAny = Call.clearError.toAny ∧ y.lastError = none) := by
  cases c with
  | request r =>
      cases ha : (r.answer x.options x.table).1 with
      | ok b => exact ⟨_, _, request_of_ok ha, .inl rfl⟩
      | error f =>
          by_cases miss : ∃ h, f = .lookupMiss h
          · obtain ⟨h, rfl⟩ := miss
            exact ⟨_, _, request_of_miss ha, .inl rfl⟩
          · have raises : (Call.request r).raises? x = some f :=
              raises?_request_eq_some_iff.mpr ⟨ha, fun h hf => miss ⟨h, hf⟩⟩
            rw [quiet] at raises
            cases raises
  | report f => cases quiet
  | register | free | hasError => exact ⟨_, _, rfl, .inl rfl⟩
  | clearError => exact ⟨_, _, rfl, .inr ⟨rfl, rfl⟩⟩

/-- **A call records the error that it raises.** -/
theorem records_iff_raises :
    x.Records (fun x => x.perform c) e ↔ c.raises? x = some e ∧ x.Recordable e := by
  have same : c.raises? x.clearError = c.raises? x := by
    cases c <;> rfl
  constructor
  · rintro ⟨a, y, performed, last⟩
    cases raises : c.raises? x with
    | none =>
        obtain ⟨b, z, quiet, kept⟩ := perform_of_quiet (same.trans raises)
        cases performed.symm.trans quiet
        rcases kept with unchanged | ⟨_, cleared⟩
        · rw [lastError, unchanged] at last
          cases last
        · rw [cleared] at last
          cases last
    | some f =>
        have ends := performed.symm.trans (perform_of_raises (same.trans raises))
        obtain ⟨z, recorded, answer⟩ := exists_of_map_eq_ok ends.symm
        cases answer
        rw [eq_of_record recorded] at last
        cases last
        exact ⟨rfl, recordable_of_record recorded⟩
  · rintro ⟨raises, recordable⟩
    have recordableThen : x.clearError.Recordable e := recordable
    refine ⟨c.blank, x.clearError.withError e, ?_, rfl⟩
    show x.clearError.perform c = _
    rw [perform_of_raises (same.trans raises), record_of_recordable recordableThen]
    rfl

/-- **A call ends the process exactly for a breach under the policy that aborts.** -/
theorem ends_iff_raises :
    x.perform c = .error v ↔
      x.errors.policy = .abort ∧ c.raises? x = some (.contractViolation v) := by
  cases raises : c.raises? x with
  | none =>
      obtain ⟨a, y, performed, _⟩ := perform_of_quiet raises
      simp [performed]
  | some e =>
      rw [perform_of_raises raises, Option.some_inj, ← record_eq_error_iff]
      cases x.record e <;> simp [Except.map]

end Raising

section Places

variable {c : AnyCall} {a : c.1.Answer} {rest : List AnyCall} {k : Nat}

theorem recordsAt_zero : x.RecordsAt (c :: rest) 0 e ↔ x.Records (fun x => x.perform c.2) e := by
  simp [RecordsAt, run]

theorem recordsAt_succ (hc : x.perform c.2 = .ok (a, y)) :
    x.RecordsAt (c :: rest) (k + 1) e ↔ y.RecordsAt rest k e := by
  simp [RecordsAt, run, hc]

end Places

end Session

end TreeHandles
