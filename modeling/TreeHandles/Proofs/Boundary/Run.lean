import TreeHandles.Boundary
import TreeHandles.Proofs.Session.Run

/-!
# Runs of the boundary

A step at the boundary opens, closes or calls the session of one slot.  A call from outside is a
call of the session, or a report of the text that could not be read, or only looks; so a session
that is in a slot is one that calls lead to from a new session.

**Results.**
* `Call.run_inside`: what a call from outside does to a session, as calls of the session.
* `Call.perform_cases`: what it can make of a session.
* `perform_request`: what a request answers that is understood and carried out.
* `Every.run`: what calls keep holds of every session of a boundary that is reached.
* `AllReached.run`: every session of a boundary that is reached is reached from a new session.
-/

namespace TreeHandles
namespace Boundary

variable {s : Shape}

/-- What a call from outside is for the session. -/
def Call.inside : Call s → List Session.AnyCall
  | .request r =>
      match r.mapText OuterText.read with
      | .ok r => [(Session.Call.request r).toAny]
      | .error e => [(Session.Call.report (.invalidInput e)).toAny]
  | .freeNodes => [Session.Call.free.toAny]
  | .lastError => []
  | .hasError => [Session.Call.hasError.toAny]
  | .clearError => [Session.Call.clearError.toAny]

/-- A step together with the shape of its answer. -/
abbrev AnyStep := (s : Shape) × Step s

/-- The sessions after a list of steps, unless one of them ends the process. -/
def run (b : Boundary) : List AnyStep → Except Violation Boundary
  | [] => .ok b
  | step :: rest =>
      match b.perform step.2 with
      | .ok (_, c) => c.run rest
      | .error v => .error v

variable {b d : Boundary} {x y : Session} {slot other : Nat}

section Calling

theorem Call.run_inside {c : Call s} {a : s.Answer} (h : c.perform x = .ok (a, y)) :
    x.run c.inside = .ok y := by
  cases c with
  | request r =>
      simp only [perform, inside] at h ⊢
      cases hr : r.mapText OuterText.read with
      | ok q =>
          simp only [hr] at h ⊢
          obtain ⟨result, hq, same⟩ := exists_of_map_eq_ok h
          cases same
          exact Session.run_cons.mpr ⟨result.1, result.2, hq, rfl⟩
      | error e =>
          simp only [hr] at h ⊢
          obtain ⟨z, hz, same⟩ := exists_of_map_eq_ok h
          cases same
          refine Session.run_cons.mpr ⟨(), _, ?_, rfl⟩
          simp only [Session.perform, hz]
          rfl
  | freeNodes | lastError | hasError | clearError =>
      cases h
      rfl

/-- What a call from outside can make of a session. -/
theorem Call.perform_cases {c : Call s} {a : s.Answer} (h : c.perform x = .ok (a, y)) :
    (∃ r q answer, c = .request r ∧ r.mapText OuterText.read = .ok q ∧
        x.request q = .ok (answer, y)) ∨
      (∃ r e, c = .request r ∧ r.mapText OuterText.read = .error e ∧
        x.record (.invalidInput e) = .ok y) ∨
      y = x.free ∨ y = x.clearError ∨ y = x := by
  cases c with
  | request r =>
      simp only [perform] at h
      cases hr : r.mapText OuterText.read with
      | ok q =>
          simp only [hr] at h
          obtain ⟨result, hq, same⟩ := exists_of_map_eq_ok h
          cases same
          exact .inl ⟨r, q, result.1, rfl, hr, hq⟩
      | error e =>
          simp only [hr] at h
          obtain ⟨z, recorded, same⟩ := exists_of_map_eq_ok h
          cases same
          exact .inr (.inl ⟨r, e, rfl, hr, recorded⟩)
  | freeNodes =>
      cases h
      exact .inr (.inr (.inl rfl))
  | clearError =>
      cases h
      exact .inr (.inr (.inr (.inl rfl)))
  | lastError | hasError =>
      cases h
      exact .inr (.inr (.inr (.inr rfl)))

end Calling

section Slots

theorem session?_put (b : Boundary) (slot other : Nat) (x : Session) :
    (b.put slot x).session? other = if slot = other then some x else b.session? other := by
  simp [put, session?, Std.TreeMap.getElem?_insert]

theorem session?_close (b : Boundary) (slot other : Nat) :
    (b.close slot).session? other = if slot = other then none else b.session? other := by
  simp [close, session?, Std.TreeMap.getElem?_erase]

theorem perform_call (held : b.session? slot = some x) (c : Call s) :
    b.perform (.call slot c) = (c.perform x).map fun result => (result.1, b.put slot result.2) := by
  simp only [perform, held]

/-- A request that is understood and carried out answers what the session answers, as it goes out. -/
theorem perform_request {r : Request OuterText s} {q : Request String s} {a : s.Answer}
    (held : b.session? slot = some x) (understood : r.mapText OuterText.read = .ok q)
    (answered : x.request q = .ok (a, y)) :
    b.perform (.call slot (.request r)) = .ok (s.outward a, b.put slot y) := by
  rw [perform_call held]
  simp only [Call.perform, understood, answered]
  rfl

end Slots

section Running

theorem run_cons {step : AnyStep} {rest : List AnyStep} :
    b.run (step :: rest) = .ok d ↔
      ∃ a c, b.perform step.2 = .ok (a, c) ∧ c.run rest = .ok d := by
  simp only [run]
  cases hs : b.perform step.2 with
  | error v => simp
  | ok result =>
      constructor
      · exact fun h => ⟨result.1, result.2, rfl, h⟩
      · rintro ⟨a, c, same, h⟩
        cases same
        exact h

/-- Every session of a boundary has a property. -/
def Every (P : Session → Prop) (b : Boundary) : Prop :=
  ∀ {slot : Nat} {x : Session}, b.session? slot = some x → P x

namespace Every

variable {P : Session → Prop}

theorem empty : Every P {} := by
  intro slot x hx
  simp [session?] at hx

theorem put (all : Every P b) (slot : Nat) (holds : P x) : Every P (b.put slot x) := by
  intro other y hy
  rw [session?_put] at hy
  split at hy
  · cases hy
    exact holds
  · exact all hy

theorem close (all : Every P b) (slot : Nat) : Every P (b.close slot) := by
  intro other y hy
  rw [session?_close] at hy
  split at hy
  · cases hy
  · exact all hy

section Kept

variable (fresh : ∀ options, P (.new options))
  (kept : ∀ {s : Shape} {c : Call s} {x y : Session} {a : s.Answer}, P x →
    c.perform x = .ok (a, y) → P y)

include fresh kept

theorem perform {step : Step s} {a : s.Answer} (all : Every P b)
    (h : b.perform step = .ok (a, d)) : Every P d := by
  cases step with
  | «open» slot =>
      cases h
      exact all.put slot (fresh _)
  | openWith slot options =>
      simp only [Boundary.perform] at h
      split at h
      · cases h
        exact all.put slot (fresh _)
      · cases h
        exact all.close slot
  | close slot =>
      cases h
      exact all.close slot
  | call slot c =>
      simp only [Boundary.perform] at h
      split at h
      · cases h
        exact all
      · next x hx =>
          obtain ⟨result, hc, same⟩ := exists_of_map_eq_ok h
          cases same
          exact all.put slot (kept (all hx) hc)

/-- **What new sessions have and calls keep, every session of a boundary that is reached has.** -/
theorem run {steps : List AnyStep} (all : Every P b) (h : b.run steps = .ok d) : Every P d := by
  induction steps generalizing b with
  | nil =>
      cases h
      exact all
  | cons step rest ih =>
      obtain ⟨a, c, hs, h⟩ := run_cons.mp h
      exact ih (all.perform fresh kept hs) h

end Kept

end Every

/-- Every session of a boundary is reached from a new one by calls. -/
def AllReached (b : Boundary) : Prop :=
  ∀ {slot : Nat} {x : Session}, b.session? slot = some x → x.Reached

namespace AllReached

theorem empty : AllReached {} := Every.empty

/-- **The sessions of a boundary that is reached are reached.** -/
theorem run {steps : List AnyStep} (all : AllReached b) (h : b.run steps = .ok d) :
    AllReached d := by
  refine Every.run (fun options => ⟨options, [], rfl⟩) ?_ all h
  rintro s c x y a ⟨options, calls, started⟩ hc
  exact ⟨options, _, Session.run_append.mpr ⟨x, started, Call.run_inside hc⟩⟩

end AllReached

end Running

end Boundary

end TreeHandles
