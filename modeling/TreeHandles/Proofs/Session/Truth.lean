import TreeHandles.Proofs.Session.Identity
import TreeHandles.Proofs.Session.Raising

/-!
# Errors tell the truth

An error names what a call met: the kind of a node, the length of an array under construction, a
handle that names nothing.  Each error is read here as a statement about the call and the session in
front of it, without a look at how the call is carried out.  That no error is wrong rests on what
holds of every session that is reached: null is never stored, so that no kind is ever compared with
it, and no key of an object stands twice, so that a key of the enumeration is always found.

**Results.**
* `View.payload_error_cases`, `View.keyAt_error_cases` and `View.childAt_error_cases`: why a reading
  fails.
* `Builder.write_error_cases` and `Builder.bind_error_cases`: why a write is refused.
* `warrants_of_raises`: the error that a call raises is true of the call.
* `lastError_run`: the last error is the one that was recorded last, unless it was there before.
* `errors_truthful`: in every session that is reached, every error that a call records is true of
  the call, and whatever else is called leaves the last error alone, unless it clears it.
-/

namespace TreeHandles

variable {s : Shape}

namespace Request

variable {τ : Type}

/-- The handle of which a request asks something that only nodes of one kind have, with the kind. -/
def expected? : Request τ s → Option (Handle × Kind)
  | asString h => some (h, .string)
  | asInt h => some (h, .int)
  | asUint h => some (h, .uint)
  | asFloat h => some (h, .float)
  | asBool h => some (h, .bool)
  | keyAt h _ => some (h, .object)
  | _ => none

/-- The handle of a node of which a request asks for the child at a place, with the place. -/
def childPlace? : Request τ s → Option (Handle × Nat)
  | valueAt h index => some (h, index)
  | _ => none

/-- The handle of a node in which a request asks for what is at a place, with the place. -/
def place? : Request τ s → Option (Handle × Nat)
  | keyAt h index | valueAt h index => some (h, index)
  | _ => none

/-- The length of the array that a request opens. -/
def length? : Request τ s → Option Nat
  | newArray length => some length
  | _ => none

/-- The text that a request loads. -/
def source? : Request τ s → Option τ
  | loadJson source => some source
  | _ => none

/-- The handle of the builder that a request writes to, with the mode that it needs. -/
def written? : Request τ s → Option (Handle × BuilderMode)
  | setValue h _ _ => some (h, .array)
  | setKeyValue h _ _ => some (h, .object)
  | _ => none

/-- The handle of the builder in which a request writes to a place, with the place. -/
def slot? : Request τ s → Option (Handle × Nat)
  | setValue h index _ => some (h, index)
  | _ => none

/-- The handle of the node that a request puts into a builder. -/
def child? : Request τ s → Option Handle
  | setValue _ _ c | setKeyValue _ _ c => some c
  | _ => none

end Request

namespace Session

/-- A breach of the contract is true of a request. -/
def WarrantsBreach (x : Session) (r : Request String s) : Violation → Prop
  | .wrongMode expected actual =>
      expected ≠ actual ∧ ∃ h b, r.written? = some (h, expected) ∧
        x.table.builder? h = some b ∧ b.isBuilt = false ∧ b.mode = actual
  | .alreadyBuilt =>
      ∃ h mode b, r.written? = some (h, mode) ∧ x.table.builder? h = some b ∧ b.isBuilt = true
  | .indexBeyondLength index length =>
      length ≤ index ∧ ∃ h slots, r.slot? = some (h, index) ∧
        x.table.builder? h = some (.array slots) ∧ slots.length = length
  | .notTemporary h => r.target? = some h ∧ x.table.builder? h = none
  | .unresolvedChild c => c ≠ .null ∧ r.child? = some c ∧ x.node? c = none

/-- An error is true of a request.  No request can make true that a lookup missed, a key was missing
or there is no session. -/
def WarrantsError (x : Session) (r : Request String s) : Error → Prop
  | .kindMismatch expected actual =>
      actual ≠ .null ∧ actual ≠ expected ∧
        ∃ h n, r.expected? = some (h, expected) ∧ x.node? h = some n ∧ n.kind = actual
  | .notContainer actual =>
      actual ∈ [Kind.string, Kind.int, Kind.uint, Kind.float, Kind.bool] ∧
        ∃ h index n, r.childPlace? = some (h, index) ∧ x.node? h = some n ∧ n.kind = actual
  | .indexOutOfRange index size =>
      size ≤ index ∧ ∃ h n, r.place? = some (h, index) ∧ x.node? h = some n ∧ n.size = size
  | .arrayTooLarge length limit =>
      limit < length ∧ limit = x.options.maxArrayLength.toNat ∧ r.length? = some length
  | .invalidInput (.json e) => ∃ source, r.source? = some source ∧ Json.parse source = .error e
  | .contractViolation v => x.WarrantsBreach r v
  | .lookupMiss _ | .missingKey _ | .missingSession | .invalidInput _ => False

/-- An error is true of a call. -/
def Warrants (x : Session) : Call s → Error → Prop
  | .request r, e => x.WarrantsError r e
  | .report f, e => e = f
  | .register _, _ | .free, _ | .clearError, _ | .hasError, _ => False

/-- A call does what it is asked for. -/
def Succeeds (x : Session) : Call s → Prop
  | .request r => ∃ a, (r.answer x.options x.table).1 = .ok a
  | .register _ | .free | .hasError => True
  | .report _ | .clearError => False

/-- The call at a place of a run clears the last error or records one. -/
def TouchesAt (x : Session) (calls : List AnyCall) (k : Nat) : Prop :=
  calls[k]? = some Call.clearError.toAny ∨ ∃ e, x.RecordsAt calls k e

end Session

namespace Tree

variable {n : Node}

/-- A leaf that is not null has one of the kinds that carry a payload. -/
theorem kind_mem_of_leaf (single : n.isComposite = false) (present : n.isNull = false) :
    n.kind ∈ [Kind.string, Kind.int, Kind.uint, Kind.float, Kind.bool] := by
  cases n with
  | leaf s =>
      cases s with
      | null => cases present
      | _ => simp [Tree.kind, Scalar.kind]
  | array label items => cases single
  | object label entries => cases single

theorem kind_ne_null (present : n.isNull = false) : n.kind ≠ .null := by
  cases n with
  | leaf s =>
      cases s with
      | null => cases present
      | _ => nofun
  | array label items => nofun
  | object label entries => nofun

end Tree

theorem Payload.kind_ne_composite (p : Payload) : p.kind ≠ .array ∧ p.kind ≠ .object := by
  cases p <;> simp [Payload.kind]

namespace View

variable {v : View} {n : Node} {index : Nat} {e : Error}

theorem payload_error_cases {p : Payload} (fails : v.payload p = .error e) :
    e = .lookupMiss v.handle ∨
      ∃ n, v.node? = some n ∧ n.kind ≠ p.kind ∧ e = .kindMismatch p.kind n.kind := by
  cases shown : v.node? with
  | none =>
      rw [payload_of_none shown] at fails
      cases fails
      exact .inl rfl
  | some n =>
      refine .inr ⟨n, rfl, ?_⟩
      simp only [payload, shown] at fails
      cases n with
      | leaf s =>
          cases carried : s.as? p with
          | some a => simp [carried] at fails
          | none =>
              simp only [carried] at fails
              cases fails
              exact ⟨(Scalar.as?_eq_none_iff p s).mp carried, rfl⟩
      | array label items =>
          cases fails
          exact ⟨Ne.symm p.kind_ne_composite.1, rfl⟩
      | object label entries =>
          cases fails
          exact ⟨Ne.symm p.kind_ne_composite.2, rfl⟩

theorem keyAt_error_cases (shown : v.node? = some n) (distinct : n.keys.Nodup)
    (fails : v.keyAt index = .error e) :
    n.kind ≠ .object ∧ e = .kindMismatch .object n.kind ∨
      n.size ≤ index ∧ e = .indexOutOfRange index n.size := by
  cases n with
  | object label entries =>
      rw [keyAt_object shown] at fails
      split at fails
      · cases fails
      · next beyond =>
          cases fails
          have outside := List.getElem?_eq_none_iff.mp beyond
          rw [(Entries.sorted_perm distinct).length_eq] at outside
          exact .inr ⟨outside, rfl⟩
  | leaf s =>
      simp only [keyAt, shown] at fails
      cases fails
      have other : (Tree.leaf s : Node).kind ≠ .object := by
        cases s <;> simp [Tree.kind, Scalar.kind]
      exact .inl ⟨other, rfl⟩
  | array label items =>
      simp only [keyAt, shown] at fails
      cases fails
      exact .inl ⟨by simp [Tree.kind], rfl⟩

theorem childAt_error_cases (shown : v.node? = some n) (distinct : n.keys.Nodup)
    (fails : v.childAt index = .error e) :
    n.isComposite = false ∧ e = .notContainer n.kind ∨
      n.size ≤ index ∧ e = .indexOutOfRange index n.size := by
  rw [childAt_eq shown distinct] at fails
  split at fails
  · cases fails
  · next beyond =>
      have outside := List.getElem?_eq_none_iff.mp beyond
      rw [(Tree.inOrder_perm distinct).length_eq] at outside
      cases n with
      | leaf s =>
          cases fails
          exact .inl ⟨rfl, rfl⟩
      | array label items =>
          cases fails
          exact .inr ⟨outside, rfl⟩
      | object label entries =>
          cases fails
          rw [Tree.children, List.length_map] at outside
          exact .inr ⟨outside, rfl⟩

end View

namespace Builder

variable {b : Builder} {n : Node} {v : Violation}

theorem write_error_cases {index : Nat} (refused : b.write index n = .error v) :
    b.isBuilt = true ∧ v = .alreadyBuilt ∨
      b.isBuilt = false ∧ b.mode ≠ .array ∧ v = .wrongMode .array b.mode ∨
      ∃ slots, b = .array slots ∧ slots.length ≤ index ∧
        v = .indexBeyondLength index slots.length := by
  cases b with
  | built mode =>
      cases refused
      exact .inl ⟨rfl, rfl⟩
  | object entries =>
      cases refused
      exact .inr (.inl ⟨rfl, nofun, rfl⟩)
  | array slots =>
      simp only [write] at refused
      split at refused
      · cases refused
      · next outside =>
          cases refused
          exact .inr (.inr ⟨slots, rfl, Nat.not_lt.mp outside, rfl⟩)

theorem bind_error_cases {key : String} (refused : b.bind key n = .error v) :
    b.isBuilt = true ∧ v = .alreadyBuilt ∨
      b.isBuilt = false ∧ b.mode ≠ .object ∧ v = .wrongMode .object b.mode := by
  cases b with
  | built mode =>
      cases refused
      exact .inl ⟨rfl, rfl⟩
  | array slots =>
      cases refused
      exact .inr ⟨rfl, nofun, rfl⟩
  | object entries => cases refused

end Builder

namespace Session

variable {x y : Session} {r : Request String s} {h child : Handle} {index : Nat} {e : Error}

section Readings

theorem warrants_of_payload {p : Payload} (standing : x.Standing)
    (asked : r.expected? = some (h, p.kind)) (fails : (x.table.view h).payload p = .error e)
    (recorded : ∀ h, e ≠ .lookupMiss h) : x.WarrantsError r e := by
  rcases View.payload_error_cases fails with rfl | ⟨n, found, other, rfl⟩
  · exact absurd rfl (recorded h)
  · exact ⟨Tree.kind_ne_null (standing.isNull_eq_false found), other, h, n, asked, found, rfl⟩

theorem warrants_of_keyAt (standing : x.Standing)
    (fails : (x.table.view h).keyAt index = .error e) (recorded : ∀ h, e ≠ .lookupMiss h) :
    x.WarrantsError (.keyAt h index) e := by
  cases found : x.node? h with
  | none =>
      rw [View.keyAt_of_none found] at fails
      cases fails
      exact absurd rfl (recorded h)
  | some n =>
      rcases View.keyAt_error_cases found (standing.distinctKeys found).root fails with
        ⟨other, rfl⟩ | ⟨outside, rfl⟩
      · exact ⟨Tree.kind_ne_null (standing.isNull_eq_false found), other, h, n, rfl, found, rfl⟩
      · exact ⟨outside, h, n, rfl, found, rfl⟩

theorem warrants_of_childAt (standing : x.Standing)
    (fails : (x.table.view h).childAt index = .error e) (recorded : ∀ h, e ≠ .lookupMiss h) :
    x.WarrantsError (.valueAt h index) e := by
  cases found : x.node? h with
  | none =>
      rw [View.childAt_of_none found] at fails
      cases fails
      exact absurd rfl (recorded h)
  | some n =>
      rcases View.childAt_error_cases found (standing.distinctKeys found).root fails with
        ⟨single, rfl⟩ | ⟨outside, rfl⟩
      · have payload := Tree.kind_mem_of_leaf single (standing.isNull_eq_false found)
        exact ⟨payload, h, index, n, rfl, found, rfl⟩
      · exact ⟨outside, h, n, rfl, found, rfl⟩

end Readings

section Writes

theorem warrants_of_child {c : Handle} (put : r.child? = some c)
    (fails : x.table.child c = .error e) : x.WarrantsError r e := by
  simp only [Table.child] at fails
  split at fails
  · cases fails
  · next present =>
      split at fails
      · cases fails
      · next missing =>
          cases fails
          exact ⟨by simpa [Handle.isNull] using present, put, missing⟩

/-- What is wrong with a write is true of it, if what is wrong with the change of the builder is. -/
theorem warrants_of_modify {change : Builder → Node → Except Violation Builder}
    (target : r.target? = some h) (put : r.child? = some child)
    (refusal : ∀ b n v, x.table.builder? h = some b → change b n = .error v →
      x.WarrantsBreach r v)
    (fails : (x.table.modify h child change).1 = .error e) : x.WarrantsError r e := by
  rcases x.table.modify_cases h child change with
    ⟨f, missing, he⟩ | ⟨_, _, absent, he⟩ | ⟨n, b, v, _, found, refused, he⟩ |
      ⟨_, _, _, _, _, _, he⟩
  · rw [he] at fails
    cases fails
    exact warrants_of_child put missing
  · rw [he] at fails
    cases fails
    exact ⟨target, absent⟩
  · rw [he] at fails
    cases fails
    exact refusal b n v found refused
  · rw [he] at fails
    cases fails

theorem warrants_of_setValue
    (fails : (x.table.setValue h index child).1 = .error e) :
    x.WarrantsError (.setValue h index child) e := by
  refine warrants_of_modify rfl rfl (fun b n v found refused => ?_) fails
  rcases Builder.write_error_cases refused with
    ⟨built, rfl⟩ | ⟨isOpen, other, rfl⟩ | ⟨slots, rfl, outside, rfl⟩
  · exact ⟨h, .array, b, rfl, found, built⟩
  · exact ⟨Ne.symm other, h, b, rfl, found, isOpen, rfl⟩
  · exact ⟨outside, h, slots, rfl, found, rfl⟩

theorem warrants_of_setKeyValue {key : String}
    (fails : (x.table.setKeyValue h key child).1 = .error e) :
    x.WarrantsError (.setKeyValue h key child) e := by
  refine warrants_of_modify rfl rfl (fun b n v found refused => ?_) fails
  rcases Builder.bind_error_cases refused with ⟨built, rfl⟩ | ⟨isOpen, other, rfl⟩
  · exact ⟨h, .object, b, rfl, found, built⟩
  · exact ⟨Ne.symm other, h, b, rfl, found, isOpen, rfl⟩

theorem warrants_of_build (fails : (x.table.build h).1 = .error e) :
    x.WarrantsError (.build h) e := by
  rcases x.table.build_cases h with
    ⟨absent, _, he⟩ | ⟨_, _, he⟩ | ⟨_, _, he⟩ | ⟨_, _, _, _, he⟩
  · rw [he] at fails
    cases fails
    exact ⟨rfl, absent⟩
  · rw [he] at fails
    cases fails
  · rw [he] at fails
    cases fails
  · rw [he] at fails
    cases fails

end Writes

section Calls

/-- Why a request fails is true of it, unless it misses. -/
theorem warrantsError_of_answer (standing : x.Standing)
    (fails : (r.answer x.options x.table).1 = .error e) (recorded : ∀ h, e ≠ .lookupMiss h) :
    x.WarrantsError r e := by
  cases r with
  | kind | size | sameAs | toJson => cases fails
  | asString h =>
      exact warrants_of_payload (p := .string) standing rfl (eq_error_of_map fails) recorded
  | asInt h => exact warrants_of_payload (p := .int) standing rfl fails recorded
  | asUint h => exact warrants_of_payload (p := .uint) standing rfl fails recorded
  | asFloat h => exact warrants_of_payload (p := .float) standing rfl fails recorded
  | asBool h => exact warrants_of_payload (p := .bool) standing rfl fails recorded
  | keyAt h index => exact warrants_of_keyAt standing (eq_error_of_map fails) recorded
  | valueAt h index =>
      refine warrants_of_childAt standing ?_ recorded
      rcases x.table.valueAt_cases h index with ⟨f, missing, he⟩ | ⟨n, _, he⟩
      · simp only [Request.answer, he] at fails
        cases fails
        exact missing
      · simp only [Request.answer, he] at fails
        cases fails
  | loadJson source =>
      simp only [Request.answer] at fails
      split at fails
      · cases fails
      · next f wrong =>
          cases fails
          exact ⟨source, rfl, wrong⟩
  | newArray length =>
      simp only [Request.answer] at fails
      split at fails
      · next long =>
          cases fails
          exact ⟨long, rfl, rfl⟩
      · cases fails
  | newObject | newString | newInt | newUint | newFloat | newBool => cases fails
  | setValue h index child => exact warrants_of_setValue fails
  | setKeyValue h key child => exact warrants_of_setKeyValue fails
  | build h => exact warrants_of_build fails

variable {c : Call s}

/-- **The error that a call raises is true of the call.** -/
theorem warrants_of_raises (standing : x.Standing) (raises : c.raises? x = some e) :
    x.Warrants c e := by
  cases c with
  | request r =>
      obtain ⟨fails, recorded⟩ := raises?_request_eq_some_iff.mp raises
      exact warrantsError_of_answer standing fails recorded
  | report f =>
      cases raises
      rfl
  | register | free | clearError | hasError => cases raises

theorem raises?_of_succeeds (succeeds : x.Succeeds c) : c.raises? x = none := by
  cases c with
  | request r =>
      obtain ⟨a, ha⟩ := succeeds
      simp only [Call.raises?, ha]
  | register | free | hasError => rfl
  | report | clearError => cases succeeds

end Calls

section Running

variable {c : AnyCall} {a : c.1.Answer} {rest calls : List AnyCall} {k : Nat}

theorem touchesAt_zero : x.TouchesAt (c :: rest) 0 ↔
    c = Call.clearError.toAny ∨ ∃ e, x.Records (fun x => x.perform c.2) e := by
  simp [TouchesAt, recordsAt_zero]

theorem touchesAt_succ (hc : x.perform c.2 = .ok (a, y)) :
    x.TouchesAt (c :: rest) (k + 1) ↔ y.TouchesAt rest k := by
  simp [TouchesAt, recordsAt_succ hc]

/-- What a call makes of the last error: it keeps it, clears it, or records one. -/
theorem lastError_perform {c : Call s} {a : s.Answer} (hc : x.perform c = .ok (a, y)) :
    (c.toAny ≠ Call.clearError.toAny ∧ (∀ f, ¬ x.Records (fun x => x.perform c) f) ∧
        y.lastError = x.lastError) ∨
      (c.toAny = Call.clearError.toAny ∧ y.lastError = none) ∨
      ∃ f, x.Records (fun x => x.perform c) f ∧ y.lastError = some f := by
  cases raises : c.raises? x with
  | none =>
      have silent : ∀ f, ¬ x.Records (fun x => x.perform c) f := by
        intro f records
        rw [(records_iff_raises.mp records).1] at raises
        cases raises
      obtain ⟨b, z, performed, kept⟩ := perform_of_quiet raises
      cases hc.symm.trans performed
      rcases kept with unchanged | cleared
      · by_cases clears : c.toAny = Call.clearError.toAny
        · cases clears
          cases hc
          exact .inr (.inl ⟨rfl, rfl⟩)
        · exact .inl ⟨clears, silent, congrArg ErrorChannel.last unchanged⟩
      · exact .inr (.inl cleared)
  | some f =>
      have performed := hc.symm.trans (perform_of_raises raises)
      obtain ⟨z, recorded, answer⟩ := exists_of_map_eq_ok performed.symm
      cases answer
      have records := records_iff_raises.mpr ⟨raises, recordable_of_record recorded⟩
      refine .inr (.inr ⟨f, records, ?_⟩)
      rw [eq_of_record recorded]
      rfl

/-- **The last error after a run** was there before and nothing touched it, or it is the one that
was recorded last. -/
theorem lastError_run (hy : x.run calls = .ok y) (last : y.lastError = some e) :
    (x.lastError = some e ∧ ∀ j, ¬ x.TouchesAt calls j) ∨
      ∃ k, x.RecordsAt calls k e ∧ ∀ j, k < j → ¬ x.TouchesAt calls j := by
  induction calls generalizing x with
  | nil =>
      cases hy
      exact .inl ⟨last, by simp [TouchesAt, RecordsAt]⟩
  | cons c rest ih =>
      obtain ⟨a, w, hc, hy⟩ := run_cons.mp hy
      -- The newest call that touched the last error is in the rest, or else it may be the first.
      rcases ih hy with ⟨lastThen, untouched⟩ | ⟨k, records, untouched⟩
      · rcases lastError_perform hc with
          ⟨apart, silent, kept⟩ | ⟨_, cleared⟩ | ⟨f, records, recorded⟩
        · refine .inl ⟨kept.symm.trans lastThen, fun j => ?_⟩
          cases j with
          | zero =>
              intro touches
              rcases touchesAt_zero.mp touches with clears | ⟨f, records⟩
              · exact apart clears
              · exact silent f records
          | succ j => exact fun touches => untouched j ((touchesAt_succ hc).mp touches)
        · rw [cleared] at lastThen
          cases lastThen
        · cases recorded.symm.trans lastThen
          refine .inr ⟨0, recordsAt_zero.mpr records, fun j later => ?_⟩
          cases j with
          | zero => cases later
          | succ j => exact fun touches => untouched j ((touchesAt_succ hc).mp touches)
      · refine .inr ⟨k + 1, (recordsAt_succ hc).mpr records, fun j later => ?_⟩
        cases j with
        | zero => cases later
        | succ j =>
            exact fun touches =>
              untouched j (Nat.lt_of_succ_lt_succ later) ((touchesAt_succ hc).mp touches)

/-- A session that is reached stands at every point of the run. -/
theorem Standing.of_take {options : Options} (hy : (new options).run (calls.take k) = .ok y)
    (few : allocations (new options) calls < UInt64.size - 1) : y.Standing := by
  refine (Standing.of_run hy ?_).1
  have parts : allocations (new options) (calls.take k ++ calls.drop k) =
      allocations (new options) (calls.take k) + allocations y (calls.drop k) :=
    allocations_append hy
  rw [List.take_append_drop] at parts
  omega

end Running

/-- **Errors tell the truth.**  In every session that is reached under the policy that reports:

* a call that succeeds keeps the last error, and so do freeing, and a reading through a handle that
  resolves to nothing, which changes nothing at all; clearing empties it;
* a call that records an error makes it the last one, and the error is true of the call; a call that
  records none keeps the last error, unless it clears it;
* the last error is the one that the newest recording call of the run has recorded, nothing has
  cleared it since, and it is true of that call. -/
theorem errors_truthful (options : Options) (report : options.violationPolicy = .report)
    (calls : List AnyCall) (few : allocations (new options) calls < UInt64.size - 1) :
    ∃ x, (new options).run calls = .ok x ∧ x.options = options ∧
      (∀ (s : Shape) (c : Call s), x.Succeeds c →
        ∃ a y, x.perform c = .ok (a, y) ∧ y.lastError = x.lastError) ∧
      (∀ h, x.node? h = none →
        (∀ (s : Shape) (r : Handle → Request String s), Request.Reading r →
          x.perform (.request (r h)) = .ok (s.empty, x)) ∧
        ∀ index, x.perform (.request (.valueAt h index)) = .ok (.null, x)) ∧
      (∃ y, x.perform .free = .ok ((), y) ∧ y.lastError = x.lastError) ∧
      (∃ y, x.perform .clearError = .ok ((), y) ∧ y.lastError = none) ∧
      (∀ (s : Shape) (c : Call s) (e : Error), x.Records (fun x => x.perform c) e →
        x.Warrants c e ∧ ∃ a, x.perform c = .ok (a, x.withError e)) ∧
      (∀ (s : Shape) (c : Call s), c.toAny ≠ Call.clearError.toAny →
        (∀ e, ¬ x.Records (fun x => x.perform c) e) →
        ∃ a y, x.perform c = .ok (a, y) ∧ y.lastError = x.lastError) ∧
      ∀ e, x.lastError = some e →
        ∃ (k : Nat) (c : AnyCall) (y : Session), calls[k]? = some c ∧
          (new options).run (calls.take k) = .ok y ∧
          y.Records (fun y => y.perform c.2) e ∧ y.Warrants c.2 e ∧
          ∀ j, k < j → ¬ (new options).TouchesAt calls j := by
  obtain ⟨x, hx⟩ : ∃ x, (new options).run calls = .ok x := exists_run report calls
  have standing := (Standing.of_run hx few).1
  have reportThen : x.errors.policy = .report := (table_run hx).2.2.trans report
  refine ⟨x, hx, (table_run hx).2.1, ?_, ?_, ⟨_, rfl, rfl⟩, ⟨_, rfl, rfl⟩, ?_, ?_, ?_⟩
  · intro s c succeeds
    obtain ⟨a, y, performed, kept⟩ := perform_of_quiet (raises?_of_succeeds succeeds)
    refine ⟨a, y, performed, ?_⟩
    rcases kept with unchanged | ⟨clears, _⟩
    · exact congrArg ErrorChannel.last unchanged
    · cases clears
      cases succeeds
  · intro h unresolved
    exact ⟨fun s r reading => request_of_unresolved reading unresolved,
      request_valueAt_of_unresolved unresolved⟩
  · intro s c e records
    obtain ⟨a, performed, _⟩ := perform_of_records reportThen records
    exact ⟨warrants_of_raises standing (records_iff_raises.mp records).1, a, performed⟩
  · intro s c apart silent
    obtain ⟨a, y, performed⟩ := exists_perform reportThen c
    refine ⟨a, y, performed, ?_⟩
    rcases lastError_perform performed with ⟨_, _, kept⟩ | ⟨clears, _⟩ | ⟨f, records, _⟩
    · exact kept
    · exact absurd clears apart
    · exact absurd records (silent f)
  · intro e last
    rcases lastError_run hx last with ⟨before, _⟩ | ⟨k, ⟨c, y, called, reached, records⟩, newest⟩
    · cases before
    · exact ⟨k, c, y, called, reached, records,
        warrants_of_raises (.of_take reached few) (records_iff_raises.mp records).1, newest⟩

/-- A write beyond the end of an array is the last error, and an integer is then read as a text. -/
theorem errors_truthful_of_index_beyond_length :
    let calls : List AnyCall :=
      [(Call.request (.newArray 1)).toAny, (Call.request (.newInt 7)).toAny,
        (Call.request (.setValue ⟨1⟩ 5 ⟨2⟩)).toAny, (Call.request (.newInt 8)).toAny]
    ∃ x, (new {}).run calls = .ok x ∧
      x.Warrants (.request (.asString ⟨2⟩)) (.kindMismatch .string .int) ∧
      ∃ (k : Nat) (c : AnyCall) (y : Session), calls[k]? = some c ∧
        (new {}).run (calls.take k) = .ok y ∧
        y.Warrants c.2 (.contractViolation (.indexBeyondLength 5 1)) := by
  intro calls
  obtain ⟨x, hx, _, _, _, _, _, recorded, _, last⟩ := errors_truthful {} rfl calls (by decide)
  cases hx
  obtain ⟨k, c, y, called, reached, _, warranted, _⟩ := last _ rfl
  exact ⟨_, rfl, (recorded _ _ _ ⟨_, _, rfl, rfl⟩).1, k, c, y, called, reached, warranted⟩

end Session

end TreeHandles
