import TreeHandles.Proofs.Json.Numbers

/-!
# Bracketed sequences that are read back

A sequence is written as its items, with a comma between each two of them and a bracket behind the
last.  The reader takes a turn before each item: it looks for the closing bracket, and then for a
comma, unless the item is the first.  A text that an item can start with decides all turns, and behind
an item stands a comma or the closing bracket, neither of which continues a number.

**Results.**
* `read_turn_close` and `read_turn_listed`: the turns of a written sequence.
* `reads_items`: if every item is read back, the whole sequence is.
* `refuses_items`: if every item is read back or refused for one cause, and some item is refused, the
  whole sequence is refused for this cause.
-/

namespace TreeHandles
namespace Json

variable {α β σ : Type} {p q : Bool}

namespace Reader

/-- A reader takes a written text, and nothing of what follows it, as a value. -/
def Reads (x : Reader p α) (written : List Char) (a : α) : Prop :=
  ∀ rest, EndsNumber rest → x.read (written ++ rest) = .ok (a, rest)

/-- A reader finds a fault of a certain cause in a written text. -/
def Refuses (x : Reader p α) (written : List Char) (cause : Cause) : Prop :=
  ∀ rest, EndsNumber rest →
    ∃ fault, x.read (written ++ rest) = .error fault ∧ fault.cause = cause

variable {x : Reader p α} {written front : List Char} {a : α} {cause : Cause}

theorem Reads.map (f : α → β) (reads : x.Reads written a) : (x.map f).Reads written (f a) :=
  fun rest ends => read_map_of_ok f (reads rest ends)

theorem Refuses.map (f : α → β) (refuses : x.Refuses written cause) :
    (x.map f).Refuses written cause := by
  intro rest ends
  obtain ⟨fault, read, same⟩ := refuses rest ends
  exact ⟨fault, by simp [Reader.map, read], same⟩

/-- A reader that goes on behind a front which it reads, whatever follows it. -/
theorem Reads.behind {b : β} {f : α → Reader q β}
    (first : ∀ rest, x.read (front ++ rest) = .ok (a, rest)) (second : (f a).Reads written b) :
    (x.bind f).Reads (front ++ written) b := by
  intro rest ends
  rw [List.append_assoc, read_bind_of_ok f (first _)]
  exact second rest ends

theorem Refuses.behind {f : α → Reader q β}
    (first : ∀ rest, x.read (front ++ rest) = .ok (a, rest)) (second : (f a).Refuses written cause) :
    (x.bind f).Refuses (front ++ written) cause := by
  intro rest ends
  rw [List.append_assoc, read_bind_of_ok f (first _)]
  exact second rest ends

end Reader

namespace Enclosure

variable {e : Enclosure}

/-- The closing bracket can be told from blanks, commas and whatever continues a number. -/
structure Proper (e : Enclosure) : Prop where
  solid : isBlank e.close = false
  noComma : e.close ≠ ','
  ends : ∀ rest, EndsNumber (e.close :: rest)

/-- A text that an item can start with: no blank and no closing bracket. -/
def Starts (e : Enclosure) (s : List Char) : Prop :=
  ∃ c ∈ s.head?, isBlank c = false ∧ c ≠ e.close

theorem endsNumber_cons {c : Char} (digit : c.isDigit = false)
    (other : c ≠ '.' ∧ c ≠ 'e' ∧ c ≠ 'E') (rest : List Char) : EndsNumber (c :: rest) := by
  intro d hd
  cases hd
  exact ⟨digit, other⟩

theorem list_proper : list.Proper :=
  ⟨by decide, by decide, endsNumber_cons (by decide) (by decide)⟩

theorem object_proper : object.Proper :=
  ⟨by decide, by decide, endsNumber_cons (by decide) (by decide)⟩

theorem Starts.append {s : List Char} (starts : e.Starts s) (rest : List Char) :
    e.Starts (s ++ rest) := by
  obtain ⟨c, hc, starts⟩ := starts
  cases s with
  | nil => cases hc
  | cons d r => exact ⟨c, hc, starts⟩

section Turns

theorem read_turn_close (proper : e.Proper) (careful first : Bool) (rest : List Char) :
    (e.turn careful first).read (e.close :: rest) = .ok (true, rest) := by
  rw [turn, Reader.read_andThen_of_ok _ (read_blanks_of_solid proper.solid rest)]
  simp [Reader.map]

/-- What stands before an item: nothing before the first, a comma before every other. -/
def separator (first : Bool) : List Char := if first then [] else [',']

theorem read_turn_item (proper : e.Proper) (careful first : Bool) {s : List Char}
    (starts : e.Starts s) : (e.turn careful first).read (separator first ++ s) = .ok (false, s) := by
  obtain ⟨c, hc, solid, other⟩ := starts
  cases s with
  | nil => cases hc
  | cons d r =>
      cases hc
      cases first with
      | true =>
          rw [separator, if_pos rfl, List.nil_append, turn,
            Reader.read_andThen_of_ok _ (read_blanks_of_solid solid r)]
          simp [other]
      | false =>
          have comma : (Reader.next e.unclosed).read (',' :: c :: r) = .ok (',', c :: r) := rfl
          rw [separator, if_neg Bool.false_ne_true, List.singleton_append, turn,
            Reader.read_andThen_of_ok _ (read_blanks_of_solid (by decide) _)]
          simp only [Reader.read_peek_cons, proper.noComma.symm, if_false, Bool.false_eq_true,
            if_true, Reader.read_relax, Reader.read_andThen_of_ok _ comma]
          -- A careful turn looks at what stands behind the comma, a cursory one does not.
          cases careful with
          | true => simp [Reader.read_andThen_of_ok _ (read_blanks_of_solid solid r), other]
          | false => rfl

end Turns

section Items

variable {item : σ → Reader true σ} {first : Bool} {state after : σ} {s r t : List Char}

/-- Items are read turn by turn, until a turn finds the closing bracket. -/
theorem itemsFrom_eq : itemsFrom e item first state s =
    match (e.turn true first).read s with
    | .error fault => .error fault
    | .ok (true, r) => .ok (state, r)
    | .ok (false, r) =>
        match (item state).read r with
        | .error fault => .error fault
        | .ok (after, t) => itemsFrom e item false after t := by
  rw [itemsFrom]
  split
  · next turn => rw [turn]
  · next turn => rw [turn]
  · next turn =>
      simp only [turn]
      split
      · next read => rw [read]
      · next read => rw [read]

theorem itemsFrom_of_close (turn : (e.turn true first).read s = .ok (true, r)) :
    itemsFrom e item first state s = .ok (state, r) := by
  rw [itemsFrom_eq, turn]

theorem itemsFrom_of_item (turn : (e.turn true first).read s = .ok (false, r))
    (read : (item state).read r = .ok (after, t)) :
    itemsFrom e item first state s = itemsFrom e item false after t := by
  rw [itemsFrom_eq, turn]
  simp only [read]

theorem itemsFrom_of_fault {fault : Fault} (turn : (e.turn true first).read s = .ok (false, r))
    (read : (item state).read r = .error fault) :
    itemsFrom e item first state s = .error fault := by
  rw [itemsFrom_eq, turn]
  simp only [read]

end Items

section Sequences

variable {item : σ → Reader true σ} {next : σ → α → σ} {print : α → List Char} {as : List α}
  {cause : Cause}

/-- Written items, from the first or from a later one on. -/
def listed (print : α → List Char) : Bool → List α → List Char
  | _, [] => []
  | first, a :: as => separator first ++ print a ++ listed print false as

theorem listed_true (print : α → List Char) (as : List α) :
    listed print true as = [','].intercalate (as.map print) := by
  cases as with
  | nil => rfl
  | cons a as =>
      rw [listed, separator, if_pos rfl, List.nil_append]
      induction as generalizing a with
      | nil => simp [listed]
      | cons b as ih =>
          rw [List.map_cons, List.map_cons, List.intercalate_cons_cons, ← List.map_cons, ← ih b,
            listed, separator, if_neg Bool.false_ne_true, List.append_assoc, List.append_assoc]

/-- The comma or the bracket behind an item does not continue a number. -/
theorem endsNumber_listed (proper : e.Proper) (print : α → List Char) (as : List α)
    (rest : List Char) : EndsNumber (listed print false as ++ e.close :: rest) := by
  cases as with
  | nil => exact proper.ends rest
  | cons a as => exact endsNumber_cons (by decide) (by decide) _

/-- The turn before a written item leaves the item and what follows it. -/
theorem read_turn_listed (proper : e.Proper) (careful first : Bool) {a : α}
    (starts : e.Starts (print a)) (as : List α) (rest : List Char) :
    (e.turn careful first).read (listed print first (a :: as) ++ e.close :: rest) =
      .ok (false, print a ++ (listed print false as ++ e.close :: rest)) := by
  rw [listed, List.append_assoc, List.append_assoc]
  exact read_turn_item proper careful first (starts.append _)

/-- **A sequence is read back if its items are.** -/
theorem reads_items (proper : e.Proper) (starts : ∀ a ∈ as, e.Starts (print a))
    (each : ∀ a ∈ as, ∀ state, (item state).Reads (print a) (next state a)) (state : σ) :
    (e.items item state).Reads ([','].intercalate (as.map print) ++ [e.close])
      (as.foldl next state) := by
  suffices ∀ first rest, itemsFrom e item first state (listed print first as ++ e.close :: rest) =
      .ok (as.foldl next state, rest) by
    intro rest _
    rw [List.append_assoc, ← listed_true]
    exact this true rest
  induction as generalizing state with
  | nil => exact fun first rest => itemsFrom_of_close (read_turn_close proper true first rest)
  | cons a as ih =>
      intro first rest
      rw [List.forall_mem_cons] at starts each
      have read := each.1 state _ (endsNumber_listed proper print as rest)
      rw [itemsFrom_of_item (read_turn_listed proper true first starts.1 as rest) read]
      exact ih starts.2 each.2 (next state a) false rest

/-- **A sequence is refused if one of its items is**, and all before it are read back. -/
theorem refuses_items (proper : e.Proper) (starts : ∀ a ∈ as, e.Starts (print a))
    (each : ∀ a ∈ as, (∀ state, (item state).Reads (print a) (next state a)) ∨
      ∀ state, (item state).Refuses (print a) cause)
    (some : ∃ a ∈ as, ∀ state, (item state).Refuses (print a) cause) (state : σ) :
    (e.items item state).Refuses ([','].intercalate (as.map print) ++ [e.close]) cause := by
  suffices ∀ first rest, ∃ fault,
      itemsFrom e item first state (listed print first as ++ e.close :: rest) = .error fault ∧
        fault.cause = cause by
    intro rest _
    rw [List.append_assoc, ← listed_true]
    exact this true rest
  induction as generalizing state with
  | nil =>
      obtain ⟨a, inside, _⟩ := some
      cases inside
  | cons a as ih =>
      intro first rest
      rw [List.forall_mem_cons] at starts each
      have ends := endsNumber_listed proper print as rest
      have turn := read_turn_listed proper true first starts.1 as rest
      rcases each.1 with reads | refuses
      · rw [itemsFrom_of_item turn (reads state _ ends)]
        -- An item that is read back and refused would give two results at once.
        have later : ∃ b ∈ as, ∀ state, (item state).Refuses (print b) cause := by
          obtain ⟨b, inside, refuses⟩ := some
          rcases List.mem_cons.mp inside with rfl | inside
          · obtain ⟨fault, failed, _⟩ := refuses state _ ends
            cases (reads state _ ends).symm.trans failed
          · exact ⟨b, inside, refuses⟩
        exact ih starts.2 each.2 later (next state a) false rest
      · obtain ⟨fault, failed, same⟩ := refuses state _ ends
        exact ⟨fault, itemsFrom_of_fault turn failed, same⟩

end Sequences

end Enclosure

end Json

end TreeHandles
