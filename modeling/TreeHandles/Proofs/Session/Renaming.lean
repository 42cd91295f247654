import TreeHandles.Proofs.Session.Run
import TreeHandles.Proofs.Table.Renaming

/-!
# Sessions up to the names of their handles

A call names handles in its arguments, in its answer, and in the error that it leaves.  Two sessions
that are the same up to a renaming of handles stay so when both perform a call, the second one under
the new names, as long as the handles that are issued correspond; and either both end the process, by
the same breach of the contract, or none does.

**Results.**
* `Call.mapHandles_mapHandles`: renaming twice is renaming once.
* `Request.corresponds_answer`: what a request gives is the same up to the renaming.
* `Renamed.perform`: so is what a call gives, and the session after it.
-/

namespace TreeHandles

open Table (Fresh Corresponds)

variable {s : Shape} {ρ : Handle → Handle}

/-- An answer under other names of handles; only handles have names. -/
def Shape.rename (ρ : Handle → Handle) : (s : Shape) → s.Answer → s.Answer
  | nothing, a => a
  | flag, a => a
  | handle, h => ρ h
  | text, a => a
  | int, a => a
  | uint, a => a
  | float, a => a
  | size, a => a
  | kind, a => a

namespace Request

variable {τ : Type}

/-- A request under other names of handles. -/
def mapHandles (ρ : Handle → Handle) : Request τ s → Request τ s
  | kind h => kind (ρ h)
  | asString h => asString (ρ h)
  | asInt h => asInt (ρ h)
  | asUint h => asUint (ρ h)
  | asFloat h => asFloat (ρ h)
  | asBool h => asBool (ρ h)
  | size h => size (ρ h)
  | keyAt h index => keyAt (ρ h) index
  | valueAt h index => valueAt (ρ h) index
  | sameAs a b => sameAs (ρ a) (ρ b)
  | toJson h => toJson (ρ h)
  | loadJson source => loadJson source
  | newObject hint => newObject hint
  | newArray length => newArray length
  | newString s => newString s
  | newInt i => newInt i
  | newUint u => newUint u
  | newFloat x => newFloat x
  | newBool b => newBool b
  | setValue h index child => setValue (ρ h) index (ρ child)
  | setKeyValue h key child => setKeyValue (ρ h) key (ρ child)
  | build h => build (ρ h)

theorem mapHandles_mapHandles (ρ π : Handle → Handle) (r : Request τ s) :
    (r.mapHandles π).mapHandles ρ = r.mapHandles fun h => ρ (π h) := by
  cases r <;> rfl

theorem rename_empty (null : ρ .null = .null) : s.rename ρ s.empty = s.empty := by
  cases s with
  | handle => exact null
  | nothing | flag | text | int | uint | float | size | kind => rfl

theorem rename_fallback (null : ρ .null = .null) (r : Request τ s) :
    s.rename ρ r.fallback = (r.mapHandles ρ).fallback := by
  cases r with
  | asString h => rfl
  | kind | asInt | asUint | asFloat | asBool | size | keyAt | valueAt | sameAs | toJson | loadJson
  | newObject | newArray | newString | newInt | newUint | newFloat | newBool | setValue
  | setKeyValue | build => exact rename_empty null

/-- **What a request gives is the same up to the names of handles.** -/
theorem corresponds_answer {t u : Table} (renamed : Table.Renamed ρ t u) (options : Options)
    (r : Request String s)
    (fresh : (r.answer options t).2.last ≠ t.last → Fresh ρ t.last u.last) :
    Corresponds ρ (s.rename ρ) t.last u.last (r.answer options t)
      ((r.mapHandles ρ).answer options u) := by
  have view (h : Handle) : u.view (ρ h) = ⟨ρ h, t.node? h⟩ := by rw [Table.view, renamed.node]
  cases r with
  | kind h | size h =>
      refine .of_reading renamed ?_
      rw [view]
      rfl
  | asString h | asInt h | asUint h | asFloat h | asBool h =>
      refine .of_reading renamed ?_
      rw [view, Table.payload_renamed, ← Table.view]
      cases (t.view h).payload _ <;> rfl
  | keyAt h index =>
      refine .of_reading renamed ?_
      rw [view, Table.keyAt_renamed, ← Table.view]
      cases (t.view h).keyAt index <;> rfl
  | sameAs a b =>
      refine .of_reading renamed ?_
      rw [view, view]
      rfl
  | toJson h =>
      refine .of_reading renamed ?_
      rw [renamed.node]
      rfl
  | valueAt h index => exact .valueAt renamed h index fresh
  | loadJson source =>
      simp only [answer, mapHandles] at fresh ⊢
      cases parsed : Json.parse source with
      | ok d =>
          rw [parsed] at fresh
          exact .registerDocument renamed d fresh
      | error e => exact .of_reading renamed rfl
  | newObject hint => exact .openBuilder renamed _ _ (fresh (Handle.next_ne _))
  | newArray length =>
      by_cases long : options.maxArrayLength.toNat < length
      · simp only [answer, mapHandles, if_pos long]
        exact .of_reading renamed rfl
      · simp only [answer, mapHandles, if_neg long] at fresh ⊢
        exact .openBuilder renamed _ _ (fresh (Handle.next_ne _))
  | newString s => exact .register renamed _ fresh
  | newInt i => exact .register renamed _ fresh
  | newUint u => exact .register renamed _ fresh
  | newFloat x => exact .register renamed _ fresh
  | newBool b => exact .register renamed _ fresh
  | setValue h index child =>
      refine .modify renamed h child fun b n v failed => ?_
      cases b with
      | built => cases failed; rfl
      | object => cases failed; rfl
      | array slots =>
          simp only [Builder.write] at failed
          split at failed
          · cases failed
          · cases failed
            rfl
  | setKeyValue h key child =>
      refine .modify renamed h child fun b n v failed => ?_
      cases b <;> cases failed <;> rfl
  | build h => exact .build renamed h fresh

end Request

namespace Session

/-- A call under other names of handles. -/
def Call.mapHandles (ρ : Handle → Handle) : Call s → Call s
  | .request r => .request (r.mapHandles ρ)
  | .register steps => .register (steps.map (.mapSource ρ))
  | .free => .free
  | .report e => .report (e.rename ρ)
  | .clearError => .clearError
  | .hasError => .hasError

theorem Call.mapHandles_mapHandles (ρ π : Handle → Handle) (c : Call s) :
    (c.mapHandles π).mapHandles ρ = c.mapHandles fun h => ρ (π h) := by
  cases c with
  | request r => rw [mapHandles, mapHandles, Request.mapHandles_mapHandles, mapHandles]
  | register steps =>
      have each (a : Assembly Handle) :
          (a.mapSource π).mapSource ρ = a.mapSource fun h => ρ (π h) := by
        cases a <;> rfl
      simp [mapHandles, each]
  | report e =>
      have same : (e.rename π).rename ρ = e.rename fun h => ρ (π h) := by
        cases e with
        | contractViolation v => cases v <;> rfl
        | _ => rfl
      rw [mapHandles, mapHandles, same, mapHandles]
  | free | clearError | hasError => rfl

/-- The first session is the second up to the names of handles. -/
structure Renamed (ρ : Handle → Handle) (x y : Session) : Prop where
  options : y.options = x.options
  policy : y.errors.policy = x.errors.policy
  last : y.errors.last = x.errors.last.map (Error.rename ρ)
  table : Table.Renamed ρ x.table y.table

/-- What two sessions give is the same up to the names of handles: both end the process by the same
breach, or both answer, and their counters have made the same steps from those before. -/
inductive Agree {α : Type} (ρ : Handle → Handle) (rename : α → α) (last last' : Handle) :
    Except Violation (α × Session) → Except Violation (α × Session) → Prop
  | ended (v : Violation) : Agree ρ rename last last' (.error v) (.error (v.rename ρ))
  | answered {a : α} {x y : Session} (renamed : Renamed ρ x y)
      (counters : x.table.last = last ∧ y.table.last = last' ∨
        x.table.last = last.next ∧ y.table.last = last'.next) :
      Agree ρ rename last last' (.ok (a, x)) (.ok (rename a, y))

theorem Agree.map {α β : Type} {rename : α → α} {rename' : β → β} {last last' : Handle}
    {o p : Except Violation (α × Session)} (agree : Agree ρ rename last last' o p) (f : α → β)
    (commutes : ∀ a, f (rename a) = rename' (f a)) :
    Agree ρ rename' last last' (o.map fun result => (f result.1, result.2))
      (p.map fun result => (f result.1, result.2)) := by
  cases agree with
  | ended v => exact .ended v
  | @answered a x y renamed counters =>
      have given : Agree ρ rename' last last' (.ok (f a, x)) (.ok (rename' (f a), y)) :=
        .answered renamed counters
      rwa [← commutes] at given

namespace Renamed

variable {x y : Session}

theorem withTable (renamed : Renamed ρ x y) {t u : Table} (tables : Table.Renamed ρ t u) :
    Renamed ρ { x with table := t } { y with table := u } :=
  ⟨renamed.options, renamed.policy, renamed.last, tables⟩

/-- Both sessions keep an error, and give the same then, or both end the process. -/
theorem record {α : Type} {rename : α → α} (renamed : Renamed ρ x y) (e : Error) {a b : α}
    (same : b = rename a) :
    Agree ρ rename x.table.last y.table.last ((x.record e).map fun z => (a, z))
      ((y.record (e.rename ρ)).map fun w => (b, w)) := by
  subst same
  have breach : (e.rename ρ).violation? = e.violation?.map (Violation.rename ρ) := by
    cases e <;> rfl
  have kept {p : ViolationPolicy} :
      Renamed ρ { x with errors := { policy := p, last := some e } }
        { y with errors := { policy := p, last := some (e.rename ρ) } } :=
    ⟨renamed.options, rfl, rfl, renamed.table⟩
  simp only [Session.record, ErrorChannel.record, renamed.policy, breach]
  cases x.errors.policy with
  | report => exact .answered kept (.inl ⟨rfl, rfl⟩)
  | abort =>
      cases e.violation? with
      | some v => exact .ended v
      | none => exact .answered kept (.inl ⟨rfl, rfl⟩)

/-- What a request makes of two sessions, from what its answers are. -/
theorem request (renamed : Renamed ρ x y) (r : Request String s)
    (fresh : ∀ a z, x.request r = .ok (a, z) → z.table.last ≠ x.table.last →
      Fresh ρ x.table.last y.table.last) :
    Agree ρ (s.rename ρ) x.table.last y.table.last (x.request r) (y.request (r.mapHandles ρ)) := by
  have null : ρ .null = .null := renamed.table.rename_null
  have freshTable : (r.answer x.options x.table).2.last ≠ x.table.last →
      Fresh ρ x.table.last y.table.last := by
    intro moved
    cases ha : (r.answer x.options x.table).1 with
    | ok a => exact fresh a _ (request_of_ok ha) moved
    | error e => exact absurd (congrArg Table.last (Request.table_answer_of_error ha)) moved
  have same : Corresponds ρ (s.rename ρ) x.table.last y.table.last (r.answer x.options x.table)
      ((r.mapHandles ρ).answer y.options y.table) := by
    rw [renamed.options]
    exact Request.corresponds_answer renamed.table x.options r freshTable
  have answer := same.answer
  cases ha : (r.answer x.options x.table).1 with
  | ok a =>
      rw [ha] at answer
      rw [request_of_ok ha, request_of_ok answer]
      exact .answered (renamed.withTable same.renamed) same.counters
  | error e =>
      rw [ha] at answer
      by_cases miss : ∃ k, e = .lookupMiss k
      · obtain ⟨k, rfl⟩ := miss
        rw [request_of_miss ha, request_of_miss answer]
        have given : Agree ρ (s.rename ρ) x.table.last y.table.last (.ok (s.empty, x))
            (.ok (s.rename ρ s.empty, y)) := .answered renamed (.inl ⟨rfl, rfl⟩)
        rwa [Request.rename_empty null] at given
      · have recorded : ∀ k, e ≠ .lookupMiss k := fun k hk => miss ⟨k, hk⟩
        have recorded' : ∀ k, e.rename ρ ≠ .lookupMiss k := by
          intro k same
          cases e with
          | lookupMiss h => exact recorded h rfl
          | _ => cases same
        rw [request_of_error ha recorded, request_of_error answer recorded']
        exact renamed.record e (Request.rename_fallback null r).symm

/-- **Performing a call keeps two sessions the same up to the names of handles**, and so is what the
call gives. -/
theorem perform (renamed : Renamed ρ x y) (c : Call s)
    (fresh : ∀ a z, x.perform c = .ok (a, z) → z.table.last ≠ x.table.last →
      Fresh ρ x.table.last y.table.last) :
    Agree ρ (s.rename ρ) x.table.last y.table.last (x.perform c) (y.perform (c.mapHandles ρ)) := by
  cases c with
  | request r => exact renamed.request r fresh
  | register steps =>
      have same := Corresponds.registerAssembly renamed.table steps (fresh _ _ rfl)
      have answer : (y.table.registerAssembly (steps.map (.mapSource ρ))).1 =
          ρ (x.table.registerAssembly steps).1 := Except.ok.inj same.answer
      have given : Agree ρ (Shape.handle.rename ρ) x.table.last y.table.last
          (.ok (x.register steps))
          (.ok (ρ (x.register steps).1, (y.register (steps.map (.mapSource ρ))).2)) :=
        .answered (renamed.withTable same.renamed) same.counters
      rw [Session.register, ← answer] at given
      exact given
  | free => exact .answered (renamed.withTable renamed.table.free) (.inl ⟨rfl, rfl⟩)
  | report e => exact renamed.record e rfl
  | clearError =>
      exact .answered ⟨renamed.options, renamed.policy, rfl, renamed.table⟩ (.inl ⟨rfl, rfl⟩)
  | hasError =>
      have same : y.errors.isSet = x.errors.isSet := by
        rw [ErrorChannel.isSet, ErrorChannel.isSet, renamed.last, Option.isSome_map]
      rw [Call.mapHandles, Session.perform, Session.perform, same]
      exact .answered renamed (.inl ⟨rfl, rfl⟩)

end Renamed

end Session

end TreeHandles
