import TreeHandles.Proofs.Json.Skipping

/-!
# Blanks between the parts of a text

Blanks may stand before and behind every part of a text.  A reader that starts with blanks reads them
away, so that those before a part are not seen by the reader of the part, and those behind it are left
to whatever reads on.  In a sequence they are left to the next turn.

**Results.**
* `trims_andThen`: a reader that starts with blanks does not see blanks before its text.
* `yields_items`: what becomes of a sequence, with blanks around its items, is what becomes of the items
  one after the other, up to the first fault.
-/

namespace TreeHandles
namespace Json

/-- Characters that may stand between the parts of a text. -/
abbrev Blanks := { s : List Char // s.all isBlank = true }

/-- No blanks at all. -/
def noBlanks : Blanks := ⟨[], rfl⟩

variable {α β σ : Type} {p q : Bool}

namespace Reader

/-- A reader does not see blanks before its text. -/
def Trims (x : Reader p α) : Prop := ∀ (b : Blanks) (s : List Char), x.read (b ++ s) = x.read s

variable {x : Reader p α} {written : List Char}

theorem read_blanks_append (b : Blanks) (s : List Char) : blanks.read (b ++ s) = blanks.read s := by
  have dropped : (b ++ s).dropWhile isBlank = s.dropWhile isBlank :=
    List.dropWhile_append_of_pos (List.all_eq_true.mp b.property)
  simp [blanks, Reader.map, dropped]

/-- **A reader that starts with blanks does not see blanks before its text.** -/
theorem trims_andThen (x : Reader p α) : (blanks.andThen x).Trims := by
  intro b s
  rw [andThen, read_bind, read_bind, read_blanks_append]

theorem Trims.bind (trims : x.Trims) (f : α → Reader q β) : (x.bind f).Trims := by
  intro b s
  rw [read_bind, read_bind, trims]

theorem Trims.map (trims : x.Trims) (f : α → β) : (x.map f).Trims := by
  intro b s
  simp only [Reader.map, trims b s]

theorem Trims.reads {a : α} (trims : x.Trims) (reads : x.Reads written a) (b : Blanks) :
    x.Reads (b ++ written) a := by
  intro rest ends
  rw [List.append_assoc, trims]
  exact reads rest ends

/-- What was read comes to a value and leaves the rest of the text, or it is a fault of a certain
cause. -/
def ComesTo (read : Except Fault (α × List Char)) (rest : List Char) : Except Cause α → Prop
  | .ok a => read = .ok (a, rest)
  | .error cause => ∃ fault, read = .error fault ∧ fault.cause = cause

/-- A reader takes a written text as a value, or finds a fault of a certain cause in it. -/
def Yields (x : Reader p α) (written : List Char) (outcome : Except Cause α) : Prop :=
  ∀ rest, EndsNumber rest → ComesTo (x.read (written ++ rest)) rest outcome

end Reader

open Reader

theorem trims_colon : colon.Trims := trims_andThen _

theorem trims_skipValue : skipValue.Trims := by
  intro b s
  show skipFrom [] .value (b ++ s) = skipFrom [] .value s
  have start : skipStart.read (b ++ s) = skipStart.read s := trims_andThen _ b s
  rw [skipFrom_value, start, ← skipFrom_value]

/-- A blank behind a number ends it. -/
theorem endsNumber_blanks (b : Blanks) {rest : List Char} (ends : EndsNumber rest) :
    EndsNumber (b ++ rest) := by
  obtain ⟨s, blank⟩ := b
  cases s with
  | nil => exact ends
  | cons c r =>
      intro d hd
      cases hd
      have white := List.all_eq_true.mp blank c List.mem_cons_self
      simp only [isBlank, Bool.or_eq_true, beq_iff_eq] at white
      rcases white with ((rfl | rfl) | rfl) | rfl <;> decide

namespace Enclosure

variable {e : Enclosure} {item : σ → Reader true σ} {next : σ → α → Except Cause σ}
  {print : α → List Char} {before behind : α → Blanks} {as : List α}

theorem trims_turn (e : Enclosure) (careful first : Bool) : (e.turn careful first).Trims :=
  trims_andThen _

theorem itemsFrom_blanks (first : Bool) (state : σ) (b : Blanks) (s : List Char) :
    itemsFrom e item first state (b ++ s) = itemsFrom e item first state s := by
  rw [itemsFrom_eq, trims_turn, ← itemsFrom_eq]

theorem trims_items (e : Enclosure) (item : σ → Reader true σ) (state : σ) :
    (e.items item state).Trims := fun b s => itemsFrom_blanks true state b s

/-- The turn before an item reads the blanks before the item away. -/
theorem read_turn_blanks (proper : e.Proper) (first : Bool) (b : Blanks) {s : List Char}
    (starts : e.Starts s) :
    (e.turn true first).read (separator first ++ (b ++ s)) = .ok (false, s) := by
  have item := read_turn_item proper true first starts
  cases first with
  | true =>
      rw [separator, if_pos rfl, List.nil_append, trims_turn]
      exact item
  | false =>
      have comma (r : List Char) : (Reader.next e.unclosed).read (',' :: r) = .ok (',', r) := rfl
      rw [← item, separator, if_neg Bool.false_ne_true, List.singleton_append,
        List.singleton_append, turn, read_andThen_of_ok _ (read_blanks_of_solid (by decide) _),
        read_andThen_of_ok _ (read_blanks_of_solid (by decide) _)]
      simp only [read_peek_cons, proper.noComma.symm, if_false, Bool.false_eq_true, if_true,
        read_relax, read_andThen_of_ok _ (comma (b ++ s)), read_andThen_of_ok _ (comma s)]
      exact trims_andThen _ b s

/-- Items with blanks around them. -/
def spaced (before : α → Blanks) (print : α → List Char) (behind : α → Blanks) (a : α) : List Char :=
  before a ++ (print a ++ behind a)

/-- **What becomes of a sequence** is what becomes of its items one after the other: the state after the
last one, or the first fault. -/
theorem yields_items (proper : e.Proper) (starts : ∀ a ∈ as, e.Starts (print a))
    (each : ∀ a ∈ as, ∀ state, (item state).Yields (print a) (next state a)) (state : σ) :
    (e.items item state).Yields
      ([','].intercalate (as.map (spaced before print behind)) ++ [e.close])
      (as.foldlM next state) := by
  suffices ∀ first rest, ComesTo (itemsFrom e item first state
      (listed (spaced before print behind) first as ++ e.close :: rest)) rest
      (as.foldlM next state) by
    intro rest _
    rw [List.append_assoc, ← listed_true]
    exact this true rest
  induction as generalizing state with
  | nil => exact fun first rest => itemsFrom_of_close (read_turn_close proper true first rest)
  | cons a as ih =>
      intro first rest
      rw [List.forall_mem_cons] at starts each
      have ends := endsNumber_blanks (behind a)
        (endsNumber_listed proper (spaced before print behind) as rest)
      have turn := read_turn_blanks proper first (before a) <|
        starts.1.append (behind a ++ (listed (spaced before print behind) false as ++ e.close :: rest))
      have here := each.1 state _ ends
      rw [listed, spaced]
      simp only [List.append_assoc]
      rw [List.foldlM_cons]
      cases result : next state a with
      | ok after =>
          rw [result] at here
          rw [itemsFrom_of_item turn here, itemsFrom_blanks]
          exact ih starts.2 each.2 after false rest
      | error cause =>
          rw [result] at here
          obtain ⟨fault, failed, same⟩ := here
          exact ⟨fault, itemsFrom_of_fault turn failed, same⟩

end Enclosure

end Json

end TreeHandles
