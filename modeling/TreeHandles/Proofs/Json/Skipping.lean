import TreeHandles.Json.Skip
import TreeHandles.Proofs.Json.RoundTrip

/-!
# Trees that are skipped

A written tree is skipped up to its end, whatever the tree is: neither the depth of its nesting nor the
kind of its scalars matters.  The brackets that are open when it starts are open when it ends, and none
of them is looked at in between.  So the induction on the tree is over all stacks of open brackets.

**Results.**
* `skips_scalar`: a written scalar is skipped in one start.
* `skipFrom_listed`: a written sequence is skipped if its items are.
* `skipped_json`: a written tree is skipped under any brackets.
* `reads_skipValue`: where a value is of no interest, any tree is read past.
-/

namespace TreeHandles
namespace Json

open Reader

section Starts

/-- What skipping does with the start of a value. -/
def skipOpened : Opening → Reader true (Option Enclosure)
  | .word rest _ => seen.andThen <| (word rest).map fun _ => none
  | .number => skipNumber.map fun _ => none
  | .text => seen.andThen <| skipText.map fun _ => none
  | .list => seen.map fun _ => some .list
  | .object => seen.map fun _ => some .object

variable {written : List Char} {opening : Opening}

theorem read_skipStart_of_opens (opens : Opens written opening) (rest : List Char) :
    skipStart.read (written ++ rest) = (skipOpened opening).read (written ++ rest) := by
  obtain ⟨c, hc, opens⟩ := opens
  cases written with
  | nil => cases hc
  | cons d r =>
      cases hc
      have solid := (Opening.solid_of_ofChar? opens).1
      rw [skipStart, List.cons_append, read_andThen_of_ok _ (read_blanks_of_solid solid _),
        read_peek_cons]
      cases opening <;> simp only [opens, skipOpened]

theorem skips_of_opens (opens : Opens written opening)
    (reads : (skipOpened opening).Reads written none) : skipStart.Reads written none :=
  fun rest ends => (read_skipStart_of_opens opens rest).trans (reads rest ends)

theorem skips_word {c : Char} {letters : List Char} {s : Scalar}
    (opens : Opening.ofChar? c = some (.word letters s)) :
    skipStart.Reads (c :: letters) none := by
  refine skips_of_opens ⟨c, rfl, opens⟩ fun rest _ => ?_
  have first : seen.read (c :: (letters ++ rest)) = .ok (c, letters ++ rest) := rfl
  rw [skipOpened, List.cons_append, read_andThen_of_ok _ first,
    read_map_of_ok _ (read_word letters rest)]

theorem skips_literal {l : Literal} (proper : l.Proper) : skipStart.Reads l.written none := by
  have number : skipNumber.Reads l.written () := .map _ fun rest ends => proper.read ends
  exact skips_of_opens proper.opens (number.map _)

theorem skips_integer (negative : Bool) (n : Nat) :
    skipStart.Reads ((if negative then ['-'] else []) ++ Nat.toDigits 10 n) none := by
  have skips := skips_literal (Literal.proper_integer negative (plain_toDigits n))
  rwa [Literal.written_integer] at skips

/-- **A written scalar is skipped**, whatever it is. -/
theorem skips_scalar (s : Scalar) : skipStart.Reads s.json none := by
  cases s with
  | null => exact skips_word rfl
  | bool b =>
      cases b with
      | false => exact skips_word rfl
      | true => exact skips_word rfl
  | int i =>
      have skips := skips_integer (decide (i.toInt < 0)) i.toInt.natAbs
      simpa only [Scalar.json, integer, decide_eq_true_eq] using skips
  | uint u => exact skips_integer false u.toNat
  | float x =>
      rw [Scalar.json]
      cases finite : x.isFinite with
      | true =>
          obtain ⟨l, proper, _, _, written⟩ := exists_literal_json finite
          exact written ▸ skips_literal proper
      | false =>
          rw [Binary64.json, finite]
          exact skips_word rfl
  | string s =>
      refine skips_of_opens ⟨'"', rfl, rfl⟩ fun rest _ => ?_
      have first (r : List Char) : seen.read ('"' :: r) = .ok ('"', r) := rfl
      rw [Scalar.json, quote, skipOpened, List.cons_append, List.cons_append, List.append_assoc,
        read_andThen_of_ok _ (first _)]
      exact read_map_of_ok _ (read_skipText s rest)

end Starts

section Turns

variable {e : Enclosure}

theorem read_skipTurn_close (proper : e.Proper) (first : Bool) (rest : List Char) :
    (skipTurn e first).read (e.close :: rest) = .ok (true, rest) := by
  rw [skipTurn, read_bind_of_ok _ (Enclosure.read_turn_close proper false first rest)]
  rfl

theorem read_skipTurn_list (first : Bool) {s : List Char} (starts : Enclosure.list.Starts s) :
    (skipTurn .list first).read (Enclosure.separator first ++ s) = .ok (false, s) := by
  rw [skipTurn,
    read_bind_of_ok _ (Enclosure.read_turn_item Enclosure.list_proper false first starts)]
  rfl

theorem read_skipKey (k : String) (rest : List Char) :
    skipKey.read (quote k ++ ':' :: rest) = .ok ((), rest) := by
  have mark (r : List Char) : (next .objectUnclosed).read ('"' :: r) = .ok ('"', r) := rfl
  have text (r : List Char) :
      ((next .objectUnclosed).andThen skipText).read (quote k ++ r) = .ok ((), r) := by
    rw [quote, List.cons_append, List.cons_append, List.append_assoc,
      read_andThen_of_ok _ (mark _)]
    exact read_skipText k r
  have blank (r : List Char) : blanks.read (quote k ++ r) = .ok ((), quote k ++ r) :=
    read_blanks_of_solid (by decide) _
  rw [skipKey, read_andThen_of_ok _ (blank _)]
  show (((next .objectUnclosed).andThen skipText).andThen colon).read (quote k ++ ':' :: rest) = _
  rw [read_andThen_of_ok _ (text _)]
  exact read_colon rest

theorem read_skipTurn_object (first : Bool) (k : String) (text rest : List Char) :
    (skipTurn .object first).read (Enclosure.separator first ++ (member k text ++ rest)) =
      .ok (false, text ++ rest) := by
  have starts := (starts_member k text).append rest
  rw [skipTurn,
    read_bind_of_ok _ (Enclosure.read_turn_item Enclosure.object_proper false first starts)]
  have key := read_skipKey k (text ++ rest)
  rw [member, List.append_assoc]
  exact read_map_of_ok _ key

end Turns

section Stages

variable {stack outer : List Enclosure} {e : Enclosure} {stage : Stage} {s : List Char}

/-- A value is skipped when all brackets that it opens are closed. -/
theorem skipFrom_value : skipFrom stack .value s =
    match skipStart.read s with
    | .error fault => .error fault
    | .ok (none, r) => skipFrom stack .ended r
    | .ok (some e, r) => skipFrom (e :: stack) .opened r := by
  rw [skipFrom.eq_def]
  simp only [↓reduceDIte]
  split
  · next start => rw [start]
  · next start => rw [start]
  · next start => rw [start]

theorem skipFrom_turn (later : stage ≠ .value) : skipFrom (e :: outer) stage s =
    match (skipTurn e (stage == .opened)).read s with
    | .error fault => .error fault
    | .ok (true, r) => skipFrom outer .ended r
    | .ok (false, r) => skipFrom (e :: outer) .value r := by
  rw [skipFrom.eq_def]
  simp only [later, ↓reduceDIte]
  split
  · next turn => rw [turn]
  · next turn => rw [turn]
  · next turn => rw [turn]

end Stages

section Trees

/-- A text is skipped as a value, under whatever brackets are open. -/
def Skipped (written : List Char) : Prop :=
  ∀ stack rest, EndsNumber rest →
    skipFrom stack .value (written ++ rest) = skipFrom stack .ended rest

variable {α β : Type} {e : Enclosure} {print content : β → List Char} {as : List β}

/-- **A written sequence is skipped if its items are.** -/
theorem skipFrom_listed (proper : e.Proper)
    (turn : ∀ a ∈ as, ∀ first rest,
      (skipTurn e first).read (Enclosure.separator first ++ (print a ++ rest)) =
        .ok (false, content a ++ rest))
    (each : ∀ a ∈ as, Skipped (content a)) (outer : List Enclosure) {stage : Stage}
    (later : stage ≠ .value) (rest : List Char) :
    skipFrom (e :: outer) stage
        (Enclosure.listed print (stage == .opened) as ++ e.close :: rest) =
      skipFrom outer .ended rest := by
  induction as generalizing stage with
  | nil =>
      rw [Enclosure.listed, List.nil_append, skipFrom_turn later, read_skipTurn_close proper _ rest]
  | cons a as ih =>
      rw [List.forall_mem_cons] at turn each
      have ends := Enclosure.endsNumber_listed proper print as rest
      rw [Enclosure.listed, List.append_assoc, List.append_assoc,
        skipFrom_turn later, turn.1]
      exact (each.1 _ _ ends).trans (ih turn.2 each.2 (by decide))

/-- **A written tree is skipped**, under whatever brackets are open. -/
theorem skipped_json (t : Tree α) : Skipped t.json := by
  induction t using Tree.induction_children with
  | node t ih =>
      intro stack rest ends
      cases t with
      | leaf s => rw [Tree.json, skipFrom_value, skips_scalar s rest ends]
      | array label items =>
          have start (r : List Char) : skipStart.read ('[' :: r) = .ok (some .list, r) := rfl
          rw [json_array, ← Enclosure.listed_true, List.append_assoc, List.append_assoc,
            List.singleton_append, skipFrom_value, start]
          exact skipFrom_listed Enclosure.list_proper
            (fun t _ first rest => read_skipTurn_list first ((starts_json t).append rest)) ih stack
            (by decide : Stage.opened ≠ .value) rest
      | object label entries =>
          have start (r : List Char) : skipStart.read ('{' :: r) = .ok (some .object, r) := rfl
          have each : ∀ e ∈ Entries.sorted entries, Skipped e.2.json := fun e he =>
            ih e.2 (List.mem_map_of_mem (Entries.mem_of_mem_sorted he))
          have turn : ∀ e ∈ Entries.sorted entries, ∀ first rest, (skipTurn .object first).read
              (Enclosure.separator first ++ (member e.1 e.2.json ++ rest)) =
                .ok (false, e.2.json ++ rest) :=
            fun e _ first rest => read_skipTurn_object first e.1 e.2.json rest
          rw [json_object, ← Enclosure.listed_true, List.append_assoc, List.append_assoc,
            List.singleton_append, skipFrom_value, start]
          exact skipFrom_listed Enclosure.object_proper turn each stack
            (by decide : Stage.opened ≠ .value) rest

/-- **Where a value is of no interest, any written tree is read past.** -/
theorem reads_skipValue (t : Tree α) : skipValue.Reads t.json () := by
  intro rest ends
  have ended : skipFrom [] .ended rest = .ok ((), rest) := by
    rw [skipFrom]
    rfl
  exact (skipped_json t [] rest ends).trans ended

end Trees

end Json

end TreeHandles
