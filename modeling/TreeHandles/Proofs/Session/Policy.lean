import TreeHandles.Proofs.Session.Raising

/-!
# The two policies

Two sessions of which one reports breaches of the contract and the other aborts on them do the same
until the first breach.  There the one that aborts ends.  What one step preserves is that both
sessions differ in their policy alone: the policy is consulted nowhere but where an error is
recorded.

**Results.**
* `perform_withPolicy`: a call that raises no breach does the same under either policy.
* `abortsAt_iff`: aborting happens at the first breach.
* `entries_of_abortsAt` and `entries_of_unbroken`: what is seen of the two sessions before.
* `abort_cuts_report`: the policy that aborts is the policy that reports, cut at the first breach.
-/

namespace TreeHandles
namespace Session

variable {s : Shape}

/-- What can be seen of a session after a call: the answer, the last error, and how many handles
name nodes and builders. -/
structure Entry where
  shape : Shape
  answer : shape.Answer
  lastError : Option Error
  nodes : Nat
  builders : Nat

/-- What can be seen along a run, up to a call that ends the process. -/
def entries : Session → List AnyCall → List Entry
  | _, [] => []
  | x, c :: rest =>
      match x.perform c.2 with
      | .ok (a, y) =>
          ⟨c.1, a, y.lastError, y.table.nodeCount, y.table.builderCount⟩ :: entries y rest
      | .error _ => []

/-- The call at a place of a run ends the process. -/
def AbortsAt (x : Session) (calls : List AnyCall) (k : Nat) (v : Violation) : Prop :=
  ∃ c y, calls[k]? = some c ∧ x.run (calls.take k) = .ok y ∧ y.perform c.2 = .error v

/-- The call at a place of a run records a breach of the contract. -/
def BreaksAt (x : Session) (calls : List AnyCall) (k : Nat) (v : Violation) : Prop :=
  x.RecordsAt calls k (.contractViolation v)

/-- The same session under another policy. -/
def withPolicy (x : Session) (p : ViolationPolicy) : Session :=
  { x with
    options := { x.options with violationPolicy := p }
    errors := { x.errors with policy := p } }

variable {x y z : Session} {c : AnyCall} {a : c.1.Answer} {rest calls : List AnyCall} {k : Nat}
  {p : ViolationPolicy} {e : Error} {v w : Violation}

section Steps

theorem answer_withPolicy (x : Session) (p : ViolationPolicy) (r : Request String s)
    (t : Table) : r.answer (x.withPolicy p).options t = r.answer x.options t := by
  cases r <;> rfl

theorem raises?_withPolicy (x : Session) (p : ViolationPolicy) (c : Call s) :
    c.raises? (x.withPolicy p) = c.raises? x := by
  cases c with
  | request r =>
      have same : r.answer (x.withPolicy p).options (x.withPolicy p).table =
          r.answer x.options x.table := answer_withPolicy x p r x.table
      simp only [Call.raises?, same]
  | register | free | report | clearError | hasError => rfl

/-- A call that raises nothing does the same under either policy. -/
theorem perform_withPolicy_of_quiet {c : Call s} {a : s.Answer} (quiet : c.raises? x = none)
    (hc : x.perform c = .ok (a, y)) : (x.withPolicy p).perform c = .ok (a, y.withPolicy p) := by
  cases c with
  | request r =>
      have same : r.answer (x.withPolicy p).options (x.withPolicy p).table =
          r.answer x.options x.table := answer_withPolicy x p r x.table
      rcases request_cases r hc with ⟨ok, rfl⟩ | ⟨⟨h, missed⟩, rfl, kept⟩ | ⟨e, fails, recorded, _⟩
      · have okThen : (r.answer (x.withPolicy p).options (x.withPolicy p).table).1 = .ok a := by
          rw [same, ok]
        refine (request_of_ok okThen).trans ?_
        rw [same]
        rfl
      · have missedThen : (r.answer (x.withPolicy p).options (x.withPolicy p).table).1 =
            .error (.lookupMiss h) := by
          rw [same, missed]
        rw [kept]
        exact request_of_miss missedThen
      · rw [raises?_request_eq_some_iff.mpr ⟨fails, recorded⟩] at quiet
        cases quiet
  | report f => cases quiet
  | register | free | clearError | hasError =>
      cases hc
      rfl

/-- **A call that raises no breach does the same under either policy.** -/
theorem perform_withPolicy {c : Call s} {a : s.Answer}
    (harmless : ∀ v, c.raises? x ≠ some (.contractViolation v)) (hc : x.perform c = .ok (a, y)) :
    (x.withPolicy p).perform c = .ok (a, y.withPolicy p) := by
  cases raises : c.raises? x with
  | none => exact perform_withPolicy_of_quiet raises hc
  | some e =>
      have noBreach : e.violation? = none := by
        cases breach : e.violation? with
        | none => rfl
        | some v =>
            rw [Error.violation?_eq_some_iff.mp breach] at raises
            exact absurd raises (harmless v)
      have raisesThen := (raises?_withPolicy x p c).trans raises
      rw [perform_of_raises raises, record_of_recordable (.inr noBreach)] at hc
      cases hc
      rw [perform_of_raises raisesThen, record_of_recordable (.inr noBreach)]
      rfl

end Steps

section Places

theorem abortsAt_zero : x.AbortsAt (c :: rest) 0 v ↔ x.perform c.2 = .error v := by
  simp [AbortsAt, run]

theorem breaksAt_zero (report : x.errors.policy = .report) :
    x.BreaksAt (c :: rest) 0 v ↔ c.2.raises? x = some (.contractViolation v) := by
  rw [BreaksAt, recordsAt_zero, records_iff_raises]
  exact and_iff_left (.inl report)

theorem abortsAt_succ (hc : x.perform c.2 = .ok (a, y)) :
    x.AbortsAt (c :: rest) (k + 1) v ↔ y.AbortsAt rest k v := by
  simp [AbortsAt, run, hc]

theorem not_abortsAt_succ (hc : x.perform c.2 = .error w) :
    ¬ x.AbortsAt (c :: rest) (k + 1) v := by
  simp [AbortsAt, run, hc]

theorem breaksAt_succ (hc : x.perform c.2 = .ok (a, y)) :
    x.BreaksAt (c :: rest) (k + 1) v ↔ y.BreaksAt rest k v := recordsAt_succ hc

end Places

section Cutting

/-- What the next call does in both sessions: either it raises a breach, and ends the one that
aborts, or it does the same in both. -/
theorem step_cases (report : x.errors.policy = .report) (c : AnyCall) :
    (∃ v, c.2.raises? x = some (.contractViolation v) ∧
        (x.withPolicy .abort).perform c.2 = .error v) ∨
      (∀ v, c.2.raises? x ≠ some (.contractViolation v)) ∧
        ∃ a y, x.perform c.2 = .ok (a, y) ∧ y.errors.policy = .report ∧
          (x.withPolicy .abort).perform c.2 = .ok (a, y.withPolicy .abort) := by
  by_cases breach : ∃ v, c.2.raises? x = some (.contractViolation v)
  · obtain ⟨v, raises⟩ := breach
    exact .inl ⟨v, raises, ends_iff_raises.mpr ⟨rfl, (raises?_withPolicy x _ c.2).trans raises⟩⟩
  · have harmless : ∀ v, c.2.raises? x ≠ some (.contractViolation v) :=
      fun v raises => breach ⟨v, raises⟩
    obtain ⟨a, y, hc⟩ := exists_perform report c.2
    exact .inr ⟨harmless, a, y, hc, (perform_keeps hc).2.2.trans report,
      perform_withPolicy harmless hc⟩

/-- **Aborting happens at the first breach.** -/
theorem abortsAt_iff (report : x.errors.policy = .report) :
    (x.withPolicy .abort).AbortsAt calls k v ↔
      x.BreaksAt calls k v ∧ ∀ j < k, ∀ w, ¬ x.BreaksAt calls j w := by
  induction calls generalizing x k with
  | nil => simp [AbortsAt, BreaksAt, RecordsAt]
  | cons c rest ih =>
      rcases step_cases report c with ⟨u, raises, ended⟩ | ⟨harmless, a, y, hc, reportThen, same⟩
      · cases k with
        | zero => simp [abortsAt_zero, breaksAt_zero report, ended, raises]
        | succ k =>
            have first : x.BreaksAt (c :: rest) 0 u := (breaksAt_zero report).mpr raises
            refine iff_of_false (not_abortsAt_succ ended) ?_
            rintro ⟨_, clean⟩
            exact clean 0 (Nat.succ_pos k) u first
      · cases k with
        | zero => simp [abortsAt_zero, breaksAt_zero report, same, harmless]
        | succ k =>
            rw [abortsAt_succ same, breaksAt_succ hc, ih reportThen]
            refine and_congr_right fun _ => ⟨fun clean j lower w => ?_, fun clean j lower w => ?_⟩
            · cases j with
              | zero => exact fun breaks => harmless w ((breaksAt_zero report).mp breaks)
              | succ j =>
                  rw [breaksAt_succ hc]
                  exact clean j (Nat.lt_of_succ_lt_succ lower) w
            · have later := clean (j + 1) (Nat.succ_lt_succ lower) w
              rwa [breaksAt_succ hc] at later

/-- While the session that aborts goes on, both sessions differ in their policy alone. -/
theorem run_withPolicy (report : x.errors.policy = .report)
    (hz : (x.withPolicy .abort).run calls = .ok z) :
    ∃ y, x.run calls = .ok y ∧ z = y.withPolicy .abort := by
  induction calls generalizing x with
  | nil =>
      cases hz
      exact ⟨x, rfl, rfl⟩
  | cons c rest ih =>
      rcases step_cases report c with ⟨u, _, ended⟩ | ⟨_, a, y, hc, reportThen, same⟩
      · simp [run, ended] at hz
      · simp only [run, same] at hz
        obtain ⟨w, hw, rfl⟩ := ih reportThen hz
        exact ⟨w, run_cons.mpr ⟨a, y, hc, hw⟩, rfl⟩

theorem length_entries (report : x.errors.policy = .report) (calls : List AnyCall) :
    (x.entries calls).length = calls.length := by
  induction calls generalizing x with
  | nil => rfl
  | cons c rest ih =>
      obtain ⟨a, y, hc⟩ := exists_perform report c.2
      simp only [entries, hc, List.length_cons, ih ((perform_keeps hc).2.2.trans report)]

theorem entries_of_abortsAt (report : x.errors.policy = .report)
    (aborts : (x.withPolicy .abort).AbortsAt calls k v) :
    (x.withPolicy .abort).entries calls = (x.entries calls).take k := by
  induction calls generalizing x k with
  | nil => simp [AbortsAt] at aborts
  | cons c rest ih =>
      rcases step_cases report c with ⟨u, _, ended⟩ | ⟨_, a, y, hc, reportThen, same⟩
      · cases k with
        | zero => simp [entries, ended]
        | succ k => exact absurd aborts (not_abortsAt_succ ended)
      · cases k with
        | zero =>
            rw [abortsAt_zero, same] at aborts
            cases aborts
        | succ k =>
            have later := ih reportThen ((abortsAt_succ same).mp aborts)
            simp only [entries, same, hc, later, List.take_succ_cons]
            rfl

theorem entries_of_unbroken (report : x.errors.policy = .report)
    (unbroken : ∀ k v, ¬ x.BreaksAt calls k v) :
    ∃ z, (x.withPolicy .abort).run calls = .ok z ∧
      (x.withPolicy .abort).entries calls = x.entries calls := by
  induction calls generalizing x with
  | nil => exact ⟨_, rfl, rfl⟩
  | cons c rest ih =>
      rcases step_cases report c with ⟨u, raises, _⟩ | ⟨_, a, y, hc, reportThen, same⟩
      · exact absurd ((breaksAt_zero report).mpr raises) (unbroken 0 u)
      · have unbrokenThen : ∀ k v, ¬ y.BreaksAt rest k v := by
          intro k v
          rw [← breaksAt_succ hc]
          exact unbroken (k + 1) v
        obtain ⟨z, hz, later⟩ := ih reportThen unbrokenThen
        refine ⟨z, run_cons.mpr ⟨a, _, same, hz⟩, ?_⟩
        simp only [entries, same, hc, later]
        rfl

end Cutting

/-- **The policy that aborts is the policy that reports, cut at the first breach.**  Of two new
sessions whose options differ in the policy alone, the one that aborts ends during a call exactly if
this is the first call at which the other one records a breach of the contract.  What was seen of
both before is the same, and so are their tables and their last errors.  If the session that reports
records no breach, the other one does not end, and the same is seen of both throughout.  A call that
raises an error of another kind ends nothing. -/
theorem abort_cuts_report (lenient strict : Options) (report : lenient.violationPolicy = .report)
    (abort : strict.violationPolicy = .abort)
    (sameLength : strict.maxArrayLength = lenient.maxArrayLength)
    (sameHint : strict.maxCapacityHint = lenient.maxCapacityHint) (calls : List AnyCall) :
    let x := new lenient
    let y := new strict
    (∀ k v, y.AbortsAt calls k v ↔
      x.BreaksAt calls k v ∧ ∀ j < k, ∀ w, ¬ x.BreaksAt calls j w) ∧
    (x.entries calls).length = calls.length ∧
    (∀ k v, y.AbortsAt calls k v → y.entries calls = (x.entries calls).take k) ∧
    (∀ before rest z, calls = before ++ rest → y.run before = .ok z →
      ∃ w, x.run before = .ok w ∧ w.table = z.table ∧ w.lastError = z.lastError) ∧
    ((∀ k v, ¬ x.BreaksAt calls k v) →
      (∃ z, y.run calls = .ok z) ∧ y.entries calls = x.entries calls) ∧
    (∀ k c z e, calls[k]? = some c → x.run (calls.take k) = .ok z →
      z.Records (fun z => z.perform c.2) e → e.violation? = none →
      ∀ v, ¬ y.AbortsAt calls k v) := by
  intro x y
  have twin : y = x.withPolicy .abort := by
    cases lenient
    cases strict
    cases abort
    cases sameLength
    cases sameHint
    rfl
  have reports : x.errors.policy = .report := report
  rw [twin]
  refine ⟨fun k v => abortsAt_iff reports, length_entries reports calls,
    fun k v => entries_of_abortsAt reports, ?_, ?_, ?_⟩
  · intro before rest z _ hz
    obtain ⟨w, hw, rfl⟩ := run_withPolicy reports hz
    exact ⟨w, hw, rfl, rfl⟩
  · intro unbroken
    obtain ⟨z, hz, same⟩ := entries_of_unbroken reports unbroken
    exact ⟨⟨z, hz⟩, same⟩
  · intro k c z e called reached records harmless v aborts
    obtain ⟨d, w, calledToo, reachedToo, breaks⟩ := ((abortsAt_iff reports).mp aborts).1
    cases called.symm.trans calledToo
    cases reached.symm.trans reachedToo
    cases (records_iff_raises.mp records).1.symm.trans (records_iff_raises.mp breaks).1
    cases harmless

/-- An integer is read as a text, which only fails, and then written beyond the end of an array. -/
theorem abort_cuts_report_at_index_beyond_length :
    let calls : List AnyCall :=
      [(Call.request (.newArray 1)).toAny, (Call.request (.newInt 7)).toAny,
        (Call.request (.asString ⟨2⟩)).toAny, (Call.request (.setValue ⟨1⟩ 5 ⟨2⟩)).toAny,
        (Call.request (.build ⟨1⟩)).toAny]
    let x := new {}
    let y := new { violationPolicy := .abort }
    y.AbortsAt calls 3 (.indexBeyondLength 5 1) ∧ (∀ v, ¬ y.AbortsAt calls 2 v) ∧
      (x.entries calls).length = 5 ∧ y.entries calls = (x.entries calls).take 3 := by
  intro calls x y
  obtain ⟨aborts_iff, length, cut, _, _, harmless⟩ :=
    abort_cuts_report {} { violationPolicy := .abort } rfl rfl rfl rfl calls
  have breaks : x.BreaksAt calls 3 (.indexBeyondLength 5 1) :=
    ⟨_, _, rfl, rfl, (), _, rfl, rfl⟩
  have clean : ∀ j < 3, ∀ w, ¬ x.BreaksAt calls j w := by
    rintro j lower w ⟨c, z, called, reached, a, u, performed, last⟩
    rcases j with _ | _ | _ | j
    · cases called
      cases reached
      cases performed
      cases last
    · cases called
      cases reached
      cases performed
      cases last
    · cases called
      cases reached
      cases performed
      cases last
    · omega
  have aborts := (aborts_iff 3 _).mpr ⟨breaks, clean⟩
  exact ⟨aborts, harmless 2 _ _ _ rfl rfl ⟨_, _, rfl, rfl⟩ rfl, length, cut 3 _ aborts⟩

end Session

end TreeHandles
