import TreeHandles.Options.Document
import TreeHandles.Session

/-!
# The outer boundary

Outside the program, texts are bytes up to the first NUL, and sessions are kept in numbered slots.
A slot can be empty; then every call on it gives the empty answer.  A text that is missing or that
is not UTF-8 is reported to the session as input that cannot be understood, and nothing else
happens.  Texts that go out are cut at their first NUL too.

**Results.**
* `perform_call_of_none`: a call on an empty slot changes nothing.
* `cutAtNul_of_not_mem`: a text without NUL goes out whole.
-/

namespace TreeHandles

/-- The number of a kind outside the program. -/
def Kind.number : Kind → Nat
  | .null => 0
  | .object => 1
  | .array => 2
  | .string => 3
  | .int => 4
  | .uint => 5
  | .float => 6
  | .bool => 7

/-- A text outside the program: the bytes before its end, or none where there is no text. -/
abbrev OuterText := Option (List UInt8)

namespace OuterText

/-- The text that goes in: the bytes before the first NUL, decoded. -/
def read (t : OuterText) : Except InputError String :=
  match t with
  | none => .error .missingText
  | some bytes =>
      match Text.decodeUtf8 (bytes.takeWhile (· != 0)) with
      | .ok s => .ok s
      | .error e => .error (.notUtf8 e)

end OuterText

/-- The part of a text before its first NUL. -/
def cutAtNul (s : String) : String := String.ofList (s.toList.takeWhile (· != '\x00'))

theorem cutAtNul_of_not_mem {s : String} (h : '\x00' ∉ s.toList) : cutAtNul s = s := by
  have kept : ∀ c ∈ s.toList, (c != '\x00') = true := by
    intro c hc
    simpa using fun he : c = '\x00' => h (he ▸ hc)
  have whole : (s.toList ++ []).takeWhile (· != '\x00') = s.toList ++ [].takeWhile (· != '\x00') :=
    List.takeWhile_append_of_pos kept
  rw [List.append_nil, List.takeWhile_nil, List.append_nil] at whole
  rw [cutAtNul, whole, String.ofList_toList]

/-- An answer as it goes out. -/
def Shape.outward : (s : Shape) → s.Answer → s.Answer
  | .text, a => a.map cutAtNul
  | .nothing, a | .flag, a | .handle, a | .int, a | .uint, a | .float, a | .size, a | .kind, a => a

/-- The sessions that are open, by their slots. -/
structure Boundary where
  slots : Std.TreeMap Nat Session := ∅

namespace Boundary

/-- What can be called on a slot. -/
inductive Call : Shape → Type where
  | request {s : Shape} (r : Request OuterText s) : Call s
  | freeNodes : Call .nothing
  | lastError : Call .text
  | hasError : Call .flag
  | clearError : Call .nothing

variable {s : Shape}

/-- What a call on a session gives, and the session after it. -/
def Call.perform (x : Session) : Call s → Except Violation (s.Answer × Session)
  | .request r =>
      match r.mapText OuterText.read with
      | .ok r => (x.request r).map fun result => (s.outward result.1, result.2)
      | .error e => (x.record (.invalidInput e)).map fun y => (s.empty, y)
  | .freeNodes => .ok ((), x.free)
  | .lastError => .ok (x.lastError.map fun e => cutAtNul e.message, x)
  | .hasError => .ok (x.errors.isSet, x)
  | .clearError => .ok ((), x.clearError)

/-- What can be done at the boundary: opening and closing the session of a slot, and calling it. -/
inductive Step : Shape → Type where
  | open (slot : Nat) : Step .flag
  | openWith (slot : Nat) (options : OuterText) : Step .flag
  | close (slot : Nat) : Step .nothing
  | call {s : Shape} (slot : Nat) (c : Call s) : Step s

/-- The options that an outer text gives. -/
def readOptions (t : OuterText) : Option Options :=
  match t.read with
  | .error _ => none
  | .ok source => (Options.load source).toOption

/-- The session of a slot. -/
def session? (b : Boundary) (slot : Nat) : Option Session := b.slots[slot]?

/-- Puts a session in a slot; the session that was there is closed. -/
def put (b : Boundary) (slot : Nat) (x : Session) : Boundary := ⟨b.slots.insert slot x⟩

/-- Closes the session of a slot. -/
def close (b : Boundary) (slot : Nat) : Boundary := ⟨b.slots.erase slot⟩

/-- What a step gives, and the sessions after it. -/
def perform (b : Boundary) : Step s → Except Violation (s.Answer × Boundary)
  | .open slot => .ok (true, b.put slot (.new {}))
  | .openWith slot options =>
      match readOptions options with
      | some options => .ok (true, b.put slot (.new options))
      | none => .ok (false, b.close slot)
  | .close slot => .ok ((), b.close slot)
  | .call slot c =>
      match b.session? slot with
      | none => .ok (s.empty, b)
      | some x => (c.perform x).map fun result => (result.1, b.put slot result.2)

theorem perform_call_of_none {b : Boundary} {slot : Nat} (h : b.session? slot = none) (c : Call s) :
    b.perform (.call slot c) = .ok (s.empty, b) := by
  simp [perform, h]

end Boundary

end TreeHandles
