import TreeHandles.Proofs.Boundary.Run
import TreeHandles.Proofs.Json.Faults
import TreeHandles.Proofs.View
import TreeHandles.Text.Diagnostic

/-!
# The words of the last error

An error speaks in words of the program's own, with numbers and names of kinds in them.  A text of the
caller can come into them only as a key that is quoted, and quoting leaves no NUL.  So no request can
bring a NUL into the last error, whatever texts it hands in.

**Results.**
* `Error.nul_not_mem_message`: own words have no NUL.
* `Request.ownWords_of_error`: a request fails in own words.
* `OwnWords.request` and `OwnWords.record`: what is kept of a session.
-/

namespace TreeHandles

open Text

/-- The words of an error are the program's own, up to a quoted key. -/
def Error.OwnWords : Error → Prop
  | invalidInput (.json e) => e.cause.isFixed = true
  | invalidInput (.other _) => False
  | _ => True

section Messages

theorem nul_not_mem_append {s t : String} (hs : '\x00' ∉ s.toList) (ht : '\x00' ∉ t.toList) :
    '\x00' ∉ (s ++ t).toList := by
  rw [String.toList_append, List.mem_append, not_or]
  exact ⟨hs, ht⟩

/-- A message that is made of four parts. -/
theorem nul_not_mem_parts {s t u v : String} (hs : '\x00' ∉ s.toList) (ht : '\x00' ∉ t.toList)
    (hu : '\x00' ∉ u.toList) (hv : '\x00' ∉ v.toList) : '\x00' ∉ (s ++ t ++ u ++ v).toList :=
  nul_not_mem_append (nul_not_mem_append (nul_not_mem_append hs ht) hu) hv

theorem nul_not_mem_repr (n : Nat) : '\x00' ∉ n.repr.toList := (Clear.repr n).nul_not_mem

theorem nul_not_mem_quoteDiagnostic (s : String) : '\x00' ∉ (quoteDiagnostic s).toList := by
  simp [quoteDiagnostic, nul_not_mem_escapeDiagnostic]

theorem Handle.nul_not_mem_render (h : Handle) : '\x00' ∉ h.render.toList :=
  nul_not_mem_append (by decide) (nul_not_mem_repr _)

theorem Kind.nul_not_mem_name (k : Kind) : '\x00' ∉ k.name.toList := by
  cases k <;> decide

theorem BuilderMode.nul_not_mem_name (m : BuilderMode) : '\x00' ∉ m.name.toList := by
  cases m <;> decide

theorem Violation.nul_not_mem_message (v : Violation) : '\x00' ∉ v.message.toList := by
  cases v with
  | wrongMode expected actual =>
      have names := BuilderMode.nul_not_mem_name
      exact nul_not_mem_parts (names expected) (by decide) (names actual) (by decide)
  | alreadyBuilt => decide
  | indexBeyondLength index length =>
      have numbers := nul_not_mem_repr
      exact nul_not_mem_parts (by decide) (numbers index) (by decide) (numbers length)
  | notTemporary h | unresolvedChild h =>
      exact nul_not_mem_append (nul_not_mem_append (by decide) h.nul_not_mem_render) (by decide)

theorem Text.Utf8Error.nul_not_mem_message (e : Utf8Error) : '\x00' ∉ e.message.toList := by
  have numbers := nul_not_mem_repr
  rw [message]
  split
  · exact nul_not_mem_parts (by decide) (numbers _) (by decide) (numbers _)
  · exact nul_not_mem_append (by decide) (numbers _)

/-- **Own words have no NUL.** -/
theorem Error.nul_not_mem_message {e : Error} (own : e.OwnWords) : '\x00' ∉ e.message.toList := by
  have numbers := nul_not_mem_repr
  have names := Kind.nul_not_mem_name
  cases e with
  | lookupMiss h =>
      exact nul_not_mem_append (nul_not_mem_append (by decide) h.nul_not_mem_render) (by decide)
  | kindMismatch expected actual =>
      exact nul_not_mem_parts (by decide) (names expected) (by decide) (names actual)
  | notContainer actual => exact nul_not_mem_append (by decide) (names actual)
  | indexOutOfRange index size =>
      exact nul_not_mem_parts (by decide) (numbers index) (by decide) (numbers size)
  | missingKey key => exact nul_not_mem_append (by decide) (nul_not_mem_quoteDiagnostic key)
  | contractViolation v => exact nul_not_mem_append (by decide) v.nul_not_mem_message
  | arrayTooLarge length limit =>
      exact nul_not_mem_parts (by decide) (numbers length) (by decide) (numbers limit)
  | invalidInput i =>
      refine nul_not_mem_append (by decide) ?_
      cases i with
      | json e => exact (Json.Error.clear_message own).nul_not_mem
      | missingText => decide
      | notUtf8 e => exact nul_not_mem_append (by decide) e.nul_not_mem_message
      | other description => cases own
  | missingSession => decide

end Messages

variable {s : Shape} {e : Error}

section Requests

theorem Error.OfReading.ownWords (reading : e.OfReading) : e.OwnWords := by
  cases e with
  | invalidInput i => cases reading
  | _ => trivial

namespace Table

variable {t : Table} {h child : Handle}

theorem ownWords_of_child (fails : t.child child = .error e) : e.OwnWords := by
  simp only [Table.child] at fails
  split at fails
  · cases fails
  · split at fails
    · cases fails
    · cases fails
      trivial

theorem ownWords_of_modify {change : Builder → Node → Except Violation Builder}
    (fails : (t.modify h child change).1 = .error e) : e.OwnWords := by
  rcases t.modify_cases h child change with
    ⟨f, missing, he⟩ | ⟨n, _, _, he⟩ | ⟨n, b, v, _, _, _, he⟩ | ⟨n, b, c, _, _, _, he⟩
  all_goals
    rw [he] at fails
    cases fails
  · exact ownWords_of_child missing
  · trivial
  · trivial

theorem ownWords_of_build (fails : (t.build h).1 = .error e) : e.OwnWords := by
  rcases t.build_cases h with ⟨_, _, he⟩ | ⟨_, _, he⟩ | ⟨_, _, he⟩ | ⟨b, n, _, _, he⟩
  all_goals
    rw [he] at fails
    cases fails
  trivial

end Table

/-- **A request fails in own words**, whatever texts are in it. -/
theorem Request.ownWords_of_error {r : Request String s} {options : Options} {t : Table}
    (fails : (r.answer options t).1 = .error e) : e.OwnWords := by
  cases r with
  | kind | size | sameAs | toJson => cases fails
  | newObject | newString | newInt | newUint | newFloat | newBool => cases fails
  | asString h =>
      have missing : (t.view h).payload .string = .error e := eq_error_of_map fails
      exact (View.ofReading_payload missing).ownWords
  | asInt | asUint | asFloat | asBool => exact (View.ofReading_payload fails).ownWords
  | keyAt h index =>
      have missing : (t.view h).keyAt index = .error e := eq_error_of_map fails
      exact (View.ofReading_keyAt missing).ownWords
  | valueAt h index =>
      rcases t.valueAt_cases h index with ⟨f, missing, he⟩ | ⟨n, _, he⟩
      all_goals
        rw [answer, he] at fails
        cases fails
      exact (View.ofReading_childAt missing).ownWords
  | loadJson source =>
      simp only [answer] at fails
      split at fails
      · cases fails
      · next f found =>
          cases fails
          exact Json.isFixed_of_parse found
  | newArray length =>
      simp only [answer] at fails
      split at fails
      · cases fails
        trivial
      · cases fails
  | setValue | setKeyValue => exact Table.ownWords_of_modify fails
  | build h => exact Table.ownWords_of_build fails

end Requests

namespace Session

variable {x y : Session}

/-- The last error of a session, if there is one, is in own words. -/
def OwnWords (x : Session) : Prop := ∀ e, x.lastError = some e → e.OwnWords

namespace OwnWords

theorem new (options : Options) : (Session.new options).OwnWords := nofun

theorem record (own : e.OwnWords) (h : x.record e = .ok y) : y.OwnWords := by
  rw [eq_of_record h]
  intro f last
  cases last
  exact own

theorem request {r : Request String s} {a : s.Answer} (own : x.OwnWords)
    (h : x.request r = .ok (a, y)) : y.OwnWords := by
  rcases request_cases r h with ⟨_, rfl⟩ | ⟨_, _, rfl⟩ | ⟨f, fails, _, _, rfl⟩
  · exact own
  · exact own
  · intro g last
    cases last
    exact Request.ownWords_of_error fails

end OwnWords

end Session

end TreeHandles
