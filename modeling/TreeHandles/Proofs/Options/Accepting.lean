import Mathlib.Data.List.Nodup
import TreeHandles.Options.Document

/-!
# Accepting the members of an options document

A document gives options one member at a time.  A field is accepted unless it was given before, and a
member with another name changes nothing.  So the members can be told apart from the way they are
written: what a list of them comes to depends on the fields among them alone.  Each field keeps the
value that it was given, if no field is given twice, and otherwise the first one that is given again is
refused.

**Results.**
* `get_overlay`: a field that was given has its value, and any other has its default.
* `foldlM_accept_of_admits`: fields that are given once are all accepted.
* `foldlM_accept_of_not_admits`: a field that is given twice is refused.
-/

namespace TreeHandles
namespace Options

/-- What a field holds. -/
abbrev Field.Value : Field → Type
  | .violationPolicy => ViolationPolicy
  | .maxArrayLength => UInt64
  | .maxCapacityHint => UInt64

/-- What the options hold in a field. -/
def get (o : Options) : (field : Field) → field.Value
  | .violationPolicy => o.violationPolicy
  | .maxArrayLength => o.maxArrayLength
  | .maxCapacityHint => o.maxCapacityHint

theorem ext_get {o p : Options} (same : ∀ field, o.get field = p.get field) : o = p := by
  cases o
  cases p
  simpa [get] using And.intro (same .violationPolicy)
    (And.intro (same .maxArrayLength) (same .maxCapacityHint))

namespace Given

/-- What was given for a field. -/
def get? (g : Given) : (field : Field) → Option field.Value
  | .violationPolicy => g.violationPolicy
  | .maxArrayLength => g.maxArrayLength
  | .maxCapacityHint => g.maxCapacityHint

/-- Gives a field its value. -/
def set (g : Given) : (field : Field) → field.Value → Given
  | .violationPolicy, p => { g with violationPolicy := some p }
  | .maxArrayLength, n => { g with maxArrayLength := some n }
  | .maxCapacityHint, n => { g with maxCapacityHint := some n }

variable {g : Given} {field other : Field}

@[simp] theorem get?_set_self (g : Given) (field : Field) (v : field.Value) :
    (g.set field v).get? field = some v := by
  cases field <;> rfl

theorem get?_set_of_ne (different : other ≠ field) (v : field.Value) :
    (g.set field v).get? other = g.get? other := by
  cases field <;> cases other <;> first | rfl | exact absurd rfl different

theorem has_eq (g : Given) (field : Field) : g.has field = (g.get? field).isSome := by
  cases field <;> rfl

@[simp] theorem has_set_self (g : Given) (field : Field) (v : field.Value) :
    (g.set field v).has field = true := by
  rw [has_eq, get?_set_self]
  rfl

theorem has_set_of_ne (different : other ≠ field) (v : field.Value) :
    (g.set field v).has other = g.has other := by
  rw [has_eq, has_eq, get?_set_of_ne different]

/-- Fields can be given once each: none of them is listed twice, and none was given before. -/
def Admits (g : Given) (fields : List Field) : Prop :=
  fields.Nodup ∧ ∀ field ∈ fields, g.has field = false

theorem Admits.not_mem {v : field.Value} {fields : List Field}
    (admits : (g.set field v).Admits fields) : field ∉ fields := by
  intro listed
  have unset := admits.2 field listed
  rw [has_set_self] at unset
  cases unset

/-- A field counts as given for those after it. -/
theorem admits_cons (v : field.Value) {fields : List Field} :
    g.Admits (field :: fields) ↔ g.has field = false ∧ (g.set field v).Admits fields := by
  constructor
  · rintro ⟨once, fresh⟩
    obtain ⟨first, once⟩ := List.nodup_cons.mp once
    rw [List.forall_mem_cons] at fresh
    refine ⟨fresh.1, once, fun f listed => ?_⟩
    rw [has_set_of_ne (ne_of_mem_of_not_mem listed first)]
    exact fresh.2 f listed
  · rintro ⟨unset, admits⟩
    refine ⟨List.nodup_cons.mpr ⟨admits.not_mem, admits.1⟩, List.forall_mem_cons.mpr ⟨unset, ?_⟩⟩
    intro f listed
    rw [← has_set_of_ne (ne_of_mem_of_not_mem listed admits.not_mem) v]
    exact admits.2 f listed

theorem admits_empty {fields : List Field} : Admits {} fields ↔ fields.Nodup := by
  refine and_iff_left fun field _ => ?_
  cases field <;> rfl

/-- **A field that was given has its value**, and any other has its default. -/
theorem get_overlay (g : Given) (field : Field) :
    g.overlay.get field = (g.get? field).getD (Options.get {} field) := by
  cases field <;> rfl

end Given

/-- A member of an options document: a field with its value, or any tree under a name that no field
has. -/
inductive Member (α : Type) where
  | known (field : Field) (value : field.Value)
  | unknown (name : String) (other : ∀ field : Field, field.name ≠ name) (value : Tree α)

namespace Member

variable {α : Type}

/-- The field that a member gives, if it gives one. -/
def field? : Member α → Option Field
  | known field _ => some field
  | unknown _ _ _ => none

/-- The fields that are given by members, as often as they are given. -/
def fields (members : List (Member α)) : List Field := members.filterMap field?

/-- What the options that were given before become by a member. -/
def accept (g : Given) : Member α → Except Json.Cause Given
  | known field value =>
      if g.has field then .error (.fieldRepeated field.name) else .ok (g.set field value)
  | unknown _ _ _ => .ok g

variable {members : List (Member α)} {g : Given}

/-- **Fields that are given once are all accepted**, and the others are left as they were. -/
theorem foldlM_accept_of_admits (admits : g.Admits (fields members)) :
    ∃ h, members.foldlM accept g = .ok h ∧
      (∀ field v, .known field v ∈ members → h.get? field = some v) ∧
      ∀ field, field ∉ fields members → h.get? field = g.get? field := by
  induction members generalizing g with
  | nil => exact ⟨g, rfl, nofun, fun _ _ => rfl⟩
  | cons m members ih =>
      cases m with
      | unknown name other value =>
          obtain ⟨h, accepted, given, kept⟩ := ih admits
          refine ⟨h, accepted, fun field v listed => given field v ?_, kept⟩
          simpa using listed
      | known field value =>
          obtain ⟨unset, admits⟩ := (Given.admits_cons value).mp admits
          obtain ⟨h, accepted, given, kept⟩ := ih admits
          refine ⟨h, ?_, fun f v listed => ?_, fun f absent => ?_⟩
          · rw [List.foldlM_cons, accept, unset]
            exact accepted
          · rcases List.mem_cons.mp listed with same | listed
            · cases same
              rw [kept field admits.not_mem, Given.get?_set_self]
            · exact given f v listed
          · obtain ⟨different, absent⟩ := List.ne_and_not_mem_of_not_mem_cons absent
            rw [kept f absent, Given.get?_set_of_ne different]

/-- **A field that is given twice is refused.**  One that was given before the members counts once. -/
theorem foldlM_accept_of_not_admits (repeats : ¬ g.Admits (fields members)) :
    ∃ field, members.foldlM accept g = .error (.fieldRepeated field.name) ∧
      2 ≤ (fields members).count field + (g.has field).toNat := by
  induction members generalizing g with
  | nil => exact absurd ⟨List.nodup_nil, nofun⟩ repeats
  | cons m members ih =>
      cases m with
      | unknown name other value => exact ih repeats
      | known field value =>
          have more : fields (known field value :: members) = field :: fields members := rfl
          rw [more] at repeats ⊢
          cases given : g.has field with
          | true =>
              refine ⟨field, ?_, ?_⟩
              · rw [List.foldlM_cons, accept, given]
                rfl
              · rw [given, List.count_cons_self]
                exact Nat.le_add_left _ _
          | false =>
              obtain ⟨other, refused, twice⟩ := ih fun admits =>
                repeats ((Given.admits_cons value).mpr ⟨given, admits⟩)
              refine ⟨other, ?_, ?_⟩
              · rw [List.foldlM_cons, accept, given]
                exact refused
              · -- The field itself counts in the list now, and not among those given before.
                by_cases same : other = field
                · subst same
                  rw [Given.has_set_self] at twice
                  rwa [given, List.count_cons_self]
                · rw [Given.has_set_of_ne same] at twice
                  rwa [List.count_cons_of_ne (Ne.symm same)]

end Member

end Options

end TreeHandles
