import TreeHandles.Json.Document
import TreeHandles.Proofs.Tree.Canonical

/-!
# Documents that were read

A reader *ensures* a property if everything that it reads has the property.  The scalars that are read
are narrow, because the digits of a number are tried in the signed range first.  The members of an
object are inserted one by one at the places of their keys, and so every object that was read holds
its keys in their order, each once.  What passes from such parts to the whole is ensured of documents.

**Results.**
* `Reader.Ensures.bind`, `Reader.Ensures.map` and `Reader.Ensures.items`: what combined readers
  ensure.
* `ensures_number`: a number that was read is unsigned only beyond the signed range.
* `ensures_value`: what passes from the parts of a value to the value is ensured of values, and
  `of_parse` of documents.
* `orderedKeys_of_parse`: every object of a document that was read has its entries in order.
-/

namespace TreeHandles
namespace Json

variable {α β σ : Type} {p q : Bool}

/-- Everything that a reader reads has a property. -/
def Reader.Ensures (x : Reader p α) (P : α → Prop) : Prop :=
  ∀ s a r, x.read s = .ok (a, r) → P a

section Combining

namespace Reader

variable {x : Reader p α} {P : α → Prop} {Q : β → Prop}

theorem Ensures.bind {f : α → Reader q β} (first : x.Ensures P)
    (second : ∀ a, P a → (f a).Ensures Q) : (x.bind f).Ensures Q := by
  intro s b t h
  rw [read_bind] at h
  split at h
  · cases h
  · next a r hx => exact second a (first _ _ _ hx) _ _ _ h

theorem Ensures.andThen {y : Reader q β} (second : y.Ensures Q) : (x.andThen y).Ensures Q :=
  .bind (P := fun _ => True) (fun _ _ _ _ => trivial) fun _ _ => second

theorem Ensures.map {f : α → β} (base : x.Ensures fun a => Q (f a)) : (x.map f).Ensures Q := by
  intro s b t h
  simp only [Reader.map] at h
  split at h
  · cases h
  · next a r hx =>
      cases h
      exact base _ _ _ hx

theorem Ensures.peek {f : Option Char → Reader p α} (each : ∀ c, (f c).Ensures P) :
    (peek f).Ensures P := by
  intro s a r h
  cases s with
  | nil => exact each none _ _ _ h
  | cons c rest => exact each (some c) _ _ _ h

theorem Ensures.refuse {cause : Cause} {ahead : Nat} :
    (refuse cause ahead : Reader p α).Ensures P := by
  intro s a r h
  cases h

/-- What every item keeps, all items of an enclosure keep. -/
theorem Ensures.itemsFrom {e : Enclosure} {item : σ → Reader true σ} {I : σ → Prop}
    (step : ∀ state, I state → (item state).Ensures I) {first : Bool} {state result : σ}
    {s t : List Char} (start : I state) (h : e.itemsFrom item first state s = .ok (result, t)) :
    I result := by
  fun_induction Enclosure.itemsFrom e item first state s with
  | case1 => cases h
  | case2 first state s r turn =>
      cases h
      exact start
  | case3 => cases h
  | case4 first state s r turn next u item_ ih => exact ih (step _ start _ _ _ item_) h

theorem Ensures.items {e : Enclosure} {item : σ → Reader true σ} {I : σ → Prop} {state : σ}
    (start : I state) (step : ∀ state, I state → (item state).Ensures I) :
    (e.items item state).Ensures I := fun _ _ _ h => Ensures.itemsFrom step start h

end Reader

end Combining

section Scalars

theorem absorb_scaled_le (l : Literal) : l.scaled.significand ≤ significandLimit :=
  absorb_le (absorb_le (Nat.zero_le _) _) _

/-- An integer is unsigned only where its value leaves the signed range. -/
theorem narrow_integer (negative : Bool) {n : Nat} (fits : n ≤ significandLimit) :
    (Literal.integer negative n).Narrow := by
  intro u same
  rw [Literal.integer] at same
  split at same
  · split at same <;> cases same
  · split at same
    · cases same
    · next large =>
        cases same
        rw [significandLimit] at fits
        rw [UInt64.toNat_ofNat_of_lt' (by rw [UInt64.size]; omega)]
        exact Nat.not_lt.mp large

theorem narrow_of_scaled {s : Scaled} {negative : Bool} {r : Scalar}
    (h : s.scalar negative = .ok r) : r.Narrow := by
  intro u same
  rw [Scaled.scalar] at h
  split at h
  · subst same
    cases h
  · cases h

theorem narrow_of_literal {l : Literal} {r : Scalar} (h : l.scalar = .ok r) : r.Narrow := by
  rw [Literal.scalar] at h
  split at h
  · split at h
    · cases h
      exact narrow_integer _ (absorb_scaled_le l)
    · exact narrow_of_scaled h
  · split at h
    · exact narrow_of_scaled h
    · split at h
      · cases h
      · cases h
        exact fun u same => nomatch same

/-- **A number that was read is narrow.** -/
theorem ensures_number : number.Ensures Scalar.Narrow := by
  refine .bind (P := fun _ => True) (fun _ _ _ _ => trivial) fun l _ => ?_
  intro s r t h
  split at h
  · next found =>
      cases h
      exact narrow_of_literal found
  · cases h

/-- The scalar that a word names is narrow. -/
theorem narrow_of_word {c : Char} {rest : List Char} {s : Scalar}
    (opens : Opening.ofChar? c = some (.word rest s)) : s.Narrow := by
  rintro u rfl
  simp only [Opening.ofChar?] at opens
  repeat' split at opens
  all_goals cases opens

end Scalars

section Reading

open TreeHandles.Tree

variable {P : Document → Prop} {value : Reader true Document}

theorem ensures_element (nested : value.Ensures P) (before : List Document)
    (each : ∀ t ∈ before, P t) : (element value before).Ensures fun items => ∀ t ∈ items, P t := by
  refine .map ?_
  intro s t r h u hu
  rcases List.mem_cons.mp hu with rfl | hu
  · exact nested _ _ _ h
  · exact each u hu

/-- Entries in the order of their keys, of which all values have a property. -/
def OrderedMembers (P : Document → Prop) (entries : List (String × Document)) : Prop :=
  (Entries.keys entries).Pairwise (· < ·) ∧ ∀ e ∈ entries, P e.2

theorem ensures_keyed (nested : value.Ensures P) (before : List (String × Document))
    (members : OrderedMembers P before) : (keyed value before).Ensures (OrderedMembers P) := by
  refine .bind (P := fun _ => True) (fun _ _ _ _ => trivial) fun k _ => ?_
  refine .andThen (.map ?_)
  intro s t r h
  refine ⟨Entries.pairwise_keys_insertSorted members.1, ?_⟩
  intro e he
  rcases Entries.mem_insertSorted he with rfl | he
  · exact nested _ _ _ h
  · exact members.2 e he

/-- A property that passes from the parts of a document to the document, where composites of a level
are made of parts of the level below. -/
structure Inductive (P : Nat → Document → Prop) : Prop where
  scalar : ∀ levels s, s.Narrow → P levels (leaf s)
  array : ∀ levels items, (∀ t ∈ items, P levels t) → P (levels + 1) (array () items)
  object : ∀ levels entries, OrderedMembers (P levels) entries →
    P (levels + 1) (object () entries)

variable {Q : Nat → Document → Prop}

theorem ensures_opened (passes : Inductive Q) {levels : Nat}
    {nested : Option (Reader true Document)}
    (inner : ∀ value, nested = some value →
      ∃ below, levels = below + 1 ∧ value.Ensures (Q below))
    {c : Char} {opening : Opening} (opens : Opening.ofChar? c = some opening) :
    (opened nested opening).Ensures (Q levels) := by
  cases opening with
  | word rest s =>
      exact .andThen (.map fun _ _ _ _ => passes.scalar levels s (narrow_of_word opens))
  | number => exact .map fun _ s _ h => passes.scalar levels s (ensures_number _ _ _ h)
  | text => exact .andThen (.map fun _ _ _ _ => passes.scalar levels _ fun _ same => nomatch same)
  | list =>
      cases nested with
      | none => exact .refuse
      | some value =>
          obtain ⟨below, rfl, each⟩ := inner value rfl
          refine .andThen (.map fun _ _ _ h => ?_)
          have items := Reader.Ensures.items (fun _ hc => nomatch hc) (ensures_element each) _ _ _ h
          exact passes.array below _ fun t ht => items t (List.mem_reverse.mp ht)
  | object =>
      cases nested with
      | none => exact .refuse
      | some value =>
          obtain ⟨below, rfl, each⟩ := inner value rfl
          refine .andThen (.map fun _ _ _ h => ?_)
          exact passes.object below _
            (Reader.Ensures.items ⟨.nil, fun _ hc => nomatch hc⟩ (ensures_keyed each) _ _ _ h)

theorem ensures_valueWith (passes : Inductive Q) {levels : Nat}
    {nested : Option (Reader true Document)}
    (inner : ∀ value, nested = some value →
      ∃ below, levels = below + 1 ∧ value.Ensures (Q below)) :
    (valueWith nested).Ensures (Q levels) := by
  refine .andThen (.peek fun c => ?_)
  cases c with
  | none => exact .refuse
  | some c =>
      dsimp only
      cases opens : Opening.ofChar? c with
      | none => exact .refuse
      | some opening => exact ensures_opened passes inner opens

/-- **What passes from the parts of a value to the value is ensured of values.** -/
theorem ensures_value (passes : Inductive Q) (levels : Nat) :
    (Json.value levels).Ensures (Q levels) := by
  induction levels with
  | zero => exact ensures_valueWith passes fun _ he => nomatch he
  | succ levels ih =>
      refine ensures_valueWith passes fun inner he => ?_
      cases he
      exact ⟨levels, rfl, ih⟩

theorem of_parse (passes : Inductive Q) {source : String} {d : Document}
    (h : parse source = .ok d) : Q levelLimit d := by
  have ensured : document.Ensures (Q levelLimit) :=
    .bind (ensures_value passes levelLimit) fun t holds => .map fun _ _ _ _ => holds
  simp only [parse, Reader.run] at h
  split at h
  · cases h
  · next a r read =>
      cases h
      exact ensured _ _ _ read

theorem inductive_orderedKeys : Inductive fun _ => OrderedKeys where
  scalar _ _ _ := .of_children .nil fun _ hc => nomatch hc
  array _ _ each := .of_children .nil each
  object _ _ members := .of_children members.1 fun _ hc => by
    obtain ⟨e, he, rfl⟩ := List.mem_map.mp hc
    exact members.2 e he

/-- **Documents that were read have their entries in order.** -/
theorem orderedKeys_of_parse {source : String} {d : Document} (h : parse source = .ok d) :
    d.OrderedKeys := of_parse inductive_orderedKeys h

end Reading

end Json

end TreeHandles
