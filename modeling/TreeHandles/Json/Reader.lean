import TreeHandles.Json.Fault

/-!
# Readers

A reader takes something off the front of a text, or finds a fault there.  What it leaves is never
longer than what it was given, and a *strict* reader leaves less: that is what ends the loops that
are built from readers.

**Results.**
* Every combinator comes with the equation of what it reads.
* `read_blanks_of_solid`: blanks are read up to the first character that is none.
-/

namespace TreeHandles
namespace Json

/-- A reader of an `α`; a strict one consumes at least one character when it succeeds. -/
structure Reader (strict : Bool) (α : Type) where
  read : List Char → Except Fault (α × List Char)
  shorter : ∀ {s a r}, read s = .ok (a, r) → r.length + strict.toNat ≤ s.length

namespace Reader

variable {α β : Type} {p q : Bool}

/-- Reads nothing. -/
def pure (a : α) : Reader false α where
  read s := .ok (a, s)
  shorter h := by
    cases h
    simp

/-- Finds a fault some bytes ahead. -/
def refuse (cause : Cause) (ahead : Nat) : Reader p α where
  read s := .error ⟨cause, s, ahead⟩
  shorter h := by cases h

/-- Finds a fault before some characters that were read already. -/
def refuseBefore (back : List Char) (cause : Cause) : Reader p α where
  read s := .error ⟨cause, back ++ s, 0⟩
  shorter h := by cases h

/-- Reads one thing, and then another that may depend on it. -/
def bind (x : Reader p α) (f : α → Reader q β) : Reader (p || q) β where
  read s :=
    match x.read s with
    | .error fault => .error fault
    | .ok (a, r) => (f a).read r
  shorter {s b t} h := by
    split at h
    · cases h
    · next a r hx =>
        have := x.shorter hx
        have := (f a).shorter h
        have : (p || q).toNat ≤ p.toNat + q.toNat := by cases p <;> cases q <;> decide
        omega

/-- Reads one thing and then another, and keeps the second. -/
def andThen (x : Reader p α) (y : Reader q β) : Reader (p || q) β := x.bind fun _ => y

/-- Changes what is read. -/
def map (f : α → β) (x : Reader p α) : Reader p β where
  read s :=
    match x.read s with
    | .error fault => .error fault
    | .ok (a, r) => .ok (f a, r)
  shorter {s b t} h := by
    split at h
    · cases h
    · next a r hx =>
        cases h
        exact x.shorter hx

/-- Forgets that a reader is strict. -/
def relax (x : Reader p α) : Reader false α where
  read := x.read
  shorter h := by
    have := x.shorter h
    simp
    omega

/-- Chooses a reader by the next character, which stays unread. -/
def peek (f : Option Char → Reader p α) : Reader p α where
  read
    | [] => (f none).read []
    | c :: r => (f (some c)).read (c :: r)
  shorter {s a r} h := by
    cases s with
    | nil => exact (f none).shorter h
    | cons c r => exact (f (some c)).shorter h

/-- Reads one character. -/
def next (atEnd : Cause) : Reader true Char where
  read
    | [] => .error ⟨atEnd, [], 0⟩
    | c :: r => .ok (c, r)
  shorter {s c r} h := by
    split at h
    · cases h
    · cases h
      simp

/-- Reads the characters of a class, as many as there are. -/
def span (inClass : Char → Bool) : Reader false (List Char) where
  read s := .ok (s.takeWhile inClass, s.dropWhile inClass)
  shorter {s c r} h := by
    cases h
    have := (List.dropWhile_sublist (l := s) inClass).length_le
    simpa using this

section Equations

@[simp] theorem read_pure (a : α) (s : List Char) : (pure a).read s = .ok (a, s) := rfl

@[simp] theorem read_refuse (cause : Cause) (ahead : Nat) (s : List Char) :
    (refuse cause ahead : Reader p α).read s = .error ⟨cause, s, ahead⟩ := rfl

@[simp] theorem read_refuseBefore (back : List Char) (cause : Cause) (s : List Char) :
    (refuseBefore back cause : Reader p α).read s = .error ⟨cause, back ++ s, 0⟩ := rfl

theorem read_bind (x : Reader p α) (f : α → Reader q β) (s : List Char) :
    (x.bind f).read s =
      match x.read s with
      | .error fault => .error fault
      | .ok (a, r) => (f a).read r := rfl

theorem read_bind_of_ok {x : Reader p α} {s r : List Char} {a : α} (f : α → Reader q β)
    (h : x.read s = .ok (a, r)) : (x.bind f).read s = (f a).read r := by
  simp [read_bind, h]

theorem read_andThen_of_ok {x : Reader p α} {s r : List Char} {a : α} (y : Reader q β)
    (h : x.read s = .ok (a, r)) : (x.andThen y).read s = y.read r := by
  simp [andThen, read_bind, h]

theorem read_map_of_ok {x : Reader p α} {s r : List Char} {a : α} (f : α → β)
    (h : x.read s = .ok (a, r)) : (x.map f).read s = .ok (f a, r) := by
  simp [map, h]

@[simp] theorem read_relax (x : Reader p α) (s : List Char) : x.relax.read s = x.read s := rfl

@[simp] theorem read_peek_nil (f : Option Char → Reader p α) :
    (peek f).read [] = (f none).read [] := rfl

@[simp] theorem read_peek_cons (f : Option Char → Reader p α) (c : Char) (r : List Char) :
    (peek f).read (c :: r) = (f (some c)).read (c :: r) := rfl

@[simp] theorem read_next_cons (atEnd : Cause) (c : Char) (r : List Char) :
    (next atEnd).read (c :: r) = .ok (c, r) := rfl

@[simp] theorem read_span (inClass : Char → Bool) (s : List Char) :
    (span inClass).read s = .ok (s.takeWhile inClass, s.dropWhile inClass) := rfl

end Equations

/-- Runs a reader on a whole text, and places the fault that it finds. -/
def run (x : Reader p α) (text : String) : Except Error α :=
  match x.read text.toList with
  | .error fault => .error (fault.locate text.toList)
  | .ok (a, _) => .ok a

end Reader

/-- The characters that may stand between the parts of a JSON text. -/
def isBlank (c : Char) : Bool := c == ' ' || c == '\n' || c == '\t' || c == '\r'

/-- Reads blanks, as many as there are. -/
def blanks : Reader false Unit := (Reader.span isBlank).map fun _ => ()

theorem read_blanks_of_solid {c : Char} (solid : isBlank c = false) (r : List Char) :
    blanks.read (c :: r) = .ok ((), c :: r) := by
  simp [blanks, Reader.map, solid]

/-- Reads the rest of a word of which the first letter was read. -/
def word : List Char → Reader false Unit
  | [] => .pure ()
  | c :: rest =>
      .peek fun
        | none => .refuse .valueMissing 0
        | some d =>
            if d = c then ((Reader.next .valueMissing).andThen (word rest)).relax
            else .refuse .wordExpected 1

/-- Reads blanks up to the end of the text. -/
def finish : Reader false Unit :=
  blanks.andThen <| .peek fun
    | none => .pure ()
    | some _ => .refuse .trailingCharacters 1

end Json

end TreeHandles
