import TreeHandles.Proofs.Boundary.Slots
import TreeHandles.Proofs.Session.Words

/-!
# Texts that go out whole

Every text that goes out is cut at its first NUL.  Exported text has no character below the space, so
nothing of it is lost.  Nor is anything of the last error: a request fails in own words, and a text that
cannot be read is reported in own words too, so that no call from outside can bring a NUL into them.

**Results.**
* `Call.ownWords_perform`: a call from outside keeps the last error in own words.
* `perform_toJson` and `perform_lastError`: exported texts and messages go out whole.
* `texts_go_out_whole`: both, at every boundary that is reached.
-/

namespace TreeHandles
namespace Boundary

variable {s : Shape} {b d : Boundary} {x y : Session} {slot : Nat} {e : Error}

section Errors

theorem ownWords_of_read {t : OuterText} {i : InputError} (refused : t.read = .error i) :
    (Error.invalidInput i).OwnWords := by
  simp only [OuterText.read] at refused
  split at refused
  · cases refused
    trivial
  · split at refused
    · cases refused
    · cases refused
      trivial

/-- **A call from outside keeps the last error in own words.** -/
theorem Call.ownWords_perform {c : Call s} {a : s.Answer} (own : x.OwnWords)
    (h : c.perform x = .ok (a, y)) : y.OwnWords := by
  rcases Call.perform_cases h with
    ⟨_, _, _, _, _, hq⟩ | ⟨_, _, _, refused, recorded⟩ | rfl | rfl | rfl
  · exact own.request hq
  · obtain ⟨t, _, unread⟩ := Request.mapText_eq_error_iff.mp refused
    exact .record (ownWords_of_read unread) recorded
  · exact own
  · exact Session.OwnWords.new {}
  · exact own

theorem ownWords_of_run {steps : List AnyStep} (reached : run {} steps = .ok b)
    (held : b.session? slot = some x) : x.OwnWords :=
  Every.run Session.OwnWords.new Call.ownWords_perform Every.empty reached held

end Errors

section Answers

/-- Putting back the session that a slot holds changes no slot. -/
theorem session?_put_held (held : b.session? slot = some x) (other : Nat) :
    (b.put slot x).session? other = b.session? other := by
  rw [session?_put]
  split
  · next same => rw [← same, held]
  · rfl

/-- The node that a handle names in the session of a slot, if there is one. -/
def node? (b : Boundary) (slot : Nat) (h : Handle) : Option Node :=
  (b.session? slot).bind fun x => x.node? h

/-- The last error of the session of a slot. -/
def lastError? (b : Boundary) (slot : Nat) : Option Error :=
  (b.session? slot).bind Session.lastError

/-- **Exported text goes out whole.** -/
theorem perform_toJson (b : Boundary) (slot : Nat) (h : Handle) :
    ∃ d, b.perform (.call slot (.request (.toJson h))) =
        .ok ((b.node? slot h).map Tree.toJson, d) ∧
      ∀ other, d.session? other = b.session? other := by
  cases held : b.session? slot with
  | none =>
      rw [node?, held]
      exact ⟨b, perform_call_of_none held _, fun _ => rfl⟩
  | some x =>
      rw [node?, held, Option.bind_some]
      have whole : ((x.node? h).map Tree.toJson).map cutAtNul = (x.node? h).map Tree.toJson := by
        cases x.node? h with
        | none => rfl
        | some n =>
            have clean : '\x00' ∉ n.toJson.toList := by
              rw [Tree.toJson, String.toList_ofList]
              exact n.clear_json.nul_not_mem
            rw [Option.map_some, Option.map_some, cutAtNul_of_not_mem clean]
      have ok : ((Request.toJson h).answer x.options x.table).1 = .ok ((x.node? h).map Tree.toJson) :=
        rfl
      have answered := perform_request (r := .toJson h) held rfl (Session.request_of_ok ok)
      rw [Shape.outward, whole] at answered
      exact ⟨_, answered, session?_put_held held⟩

/-- **The words of the last error go out whole.** -/
theorem perform_lastError (own : ∀ e, b.lastError? slot = some e → '\x00' ∉ e.message.toList) :
    ∃ d, b.perform (.call slot .lastError) = .ok ((b.lastError? slot).map Error.message, d) ∧
      ∀ other, d.session? other = b.session? other := by
  cases held : b.session? slot with
  | none =>
      rw [lastError?, held]
      exact ⟨b, perform_call_of_none held _, fun _ => rfl⟩
  | some x =>
      rw [lastError?, held, Option.bind_some] at own ⊢
      refine ⟨b.put slot x, ?_, session?_put_held held⟩
      have whole : x.lastError.map (fun e => cutAtNul e.message) =
          x.lastError.map Error.message := by
        cases last : x.lastError with
        | none => rfl
        | some e => rw [Option.map_some, Option.map_some, cutAtNul_of_not_mem (own e last)]
      rw [perform_call held, Call.perform, whole]
      rfl

end Answers

/-- **Cutting at NUL damages neither exported texts nor the words of errors.**  The exported text of a
tree has no byte below the space.  At every boundary that is reached, the export of a node gives the
whole text of the node that the handle names, and nothing exactly if there is no session or the handle
names no node; the words of the last error have no NUL and are given whole; and asking changes no
session. -/
theorem texts_go_out_whole :
    (∀ {α : Type} (t : Tree α), ∀ byte ∈ t.toJson.toUTF8.data.toList, 0x20 ≤ byte) ∧
    ∀ steps b, run {} steps = .ok b → ∀ slot : Nat,
      (∀ h, ∃ a d, b.perform (.call slot (.request (.toJson h))) = .ok (a, d) ∧
        (∀ x n, b.session? slot = some x → x.node? h = some n → a = some n.toJson) ∧
        (a = none ↔ b.session? slot = none ∨ ∃ x, b.session? slot = some x ∧ x.node? h = none) ∧
        ∀ other, d.session? other = b.session? other) ∧
      ∃ a d, b.perform (.call slot .lastError) = .ok (a, d) ∧
        (∀ x, b.session? slot = some x → a = x.lastError.map Error.message ∧
          ∀ e, x.lastError = some e → '\x00' ∉ e.message.toList) ∧
        ∀ other, d.session? other = b.session? other := by
  refine ⟨fun t _ => t.le_of_mem_toUTF8, fun steps b reached slot => ⟨fun h => ?_, ?_⟩⟩
  · obtain ⟨d, performed, kept⟩ := b.perform_toJson slot h
    refine ⟨_, d, performed, ?_, ?_, kept⟩
    · intro x n held found
      rw [node?, held, Option.bind_some, found, Option.map_some]
    · rw [Option.map_eq_none_iff, node?]
      cases b.session? slot <;> simp
  · have own : ∀ e, b.lastError? slot = some e → '\x00' ∉ e.message.toList := by
      intro e last
      obtain ⟨x, held, last⟩ := Option.bind_eq_some_iff.mp last
      exact Error.nul_not_mem_message (ownWords_of_run reached held e last)
    obtain ⟨d, performed, kept⟩ := perform_lastError own
    refine ⟨_, d, performed, ?_, kept⟩
    intro x held
    rw [lastError?, held, Option.bind_some] at own ⊢
    exact ⟨rfl, own⟩

/-- A text that consists of a NUL is imported, and then refused with a bracket behind it. -/
theorem texts_go_out_whole_of_escaped_nul :
    let escaped : List UInt8 := [0x22, 0x5c, 0x75, 0x30, 0x30, 0x30, 0x30, 0x22]
    let steps : List AnyStep :=
      [⟨_, .open 0⟩, ⟨_, .call 0 (.request (.loadJson (some escaped)))⟩,
        ⟨_, .call 0 (.request (.loadJson (some (escaped ++ [0x5d]))))⟩]
    ∃ b x, run {} steps = .ok b ∧ b.session? 0 = some x ∧
      x.node? ⟨1⟩ = some (.leaf (.string "\x00")) ∧
      (∃ d, b.perform (.call 0 (.request (.toJson ⟨1⟩))) = .ok (some "\"\\u0000\"", d)) ∧
      ∃ d, b.perform (.call 0 .lastError) =
        .ok (some "invalid input: trailing characters at line 1 column 9", d) := by
  have exported : (Tree.leaf (.string "\x00") : Node).toJson = "\"\\u0000\"" := by decide +kernel
  have parsed : Json.parse "\"\\u0000\"" = .ok (.leaf (.string "\x00")) := by
    have back := Json.parse_toJson (Tree.leaf (.string "\x00") : Node) ?_ ?_
    · rw [← exported]
      exact back.1 (by decide)
    · exact .of_children .nil nofun
    · exact Tree.everyScalar_leaf nofun
  have refused : Json.parse "\"\\u0000\"]" = .error ⟨.trailingCharacters, ⟨1, 9⟩⟩ := by
    have failed : (Json.parse "\"\\u0000\"]").map (fun _ => ()) =
        .error ⟨.trailingCharacters, ⟨1, 9⟩⟩ := by decide +kernel
    exact eq_error_of_map failed
  have words : (Error.invalidInput (.json ⟨.trailingCharacters, ⟨1, 9⟩⟩)).message =
      "invalid input: trailing characters at line 1 column 9" := by decide +kernel
  intro escaped steps
  have read : OuterText.read (some escaped) = .ok "\"\\u0000\"" := by decide +kernel
  have read' : OuterText.read (some (escaped ++ [0x5d])) = .ok "\"\\u0000\"]" := by decide +kernel
  obtain ⟨b, x, reached, held, found, last⟩ : ∃ b x, run {} steps = .ok b ∧
      b.session? 0 = some x ∧ x.node? ⟨1⟩ = some (.leaf (.string "\x00")) ∧
      x.lastError = some (.invalidInput (.json ⟨.trailingCharacters, ⟨1, 9⟩⟩)) := by
    simp only [steps, run, perform, Call.perform, Request.mapText, read, read', Except.map,
      Session.request, Request.answer, parsed, refused]
    exact ⟨_, _, rfl, rfl, rfl, rfl⟩
  obtain ⟨exports, a, d, performed, whole, _⟩ := texts_go_out_whole.2 steps b reached 0
  refine ⟨b, x, reached, held, found, ?_, d, ?_⟩
  · obtain ⟨a, d, performed, whole, _⟩ := exports ⟨1⟩
    exact ⟨d, by rw [performed, whole x _ held found, exported]⟩
  · rw [performed, (whole x held).1, last, Option.map_some, words]

end Boundary

end TreeHandles
