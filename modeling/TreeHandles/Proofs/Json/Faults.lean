import TreeHandles.Json.Document
import TreeHandles.Proofs.Json.Controls

/-!
# The words of a fault

A text that is refused is quoted in the words of a fault only where it is read as a document of options,
for the name of a field or of a variant and for a value of another type.  A reader is *terse* if every
fault that it finds has fixed words.  The parts of readers are terse, and what is combined from terse
readers is; so is the reader of documents, whatever text it is given.

**Results.**
* `Reader.Terse.bind`, `Reader.Terse.peek` and `Reader.Terse.items`: readers that are combined from
  terse ones are terse.
* `terse_number`, `terse_text` and `terse_value`: the readers of the parts of a document are terse.
* `isFixed_of_parse`: so a text that is no document is refused in fixed words.
* `Error.clear_message`: fixed words are clear.
-/

namespace TreeHandles
namespace Json

open Text

/-- The words of a cause are fixed; those of the others quote a name or a value. -/
def Cause.isFixed : Cause → Bool
  | fieldRepeated _ | variantUnknown _ | typeInvalid _ _ | valueInvalid _ _ => false
  | _ => true

/-- Every fault that a reader finds has fixed words. -/
def Reader.Terse {p : Bool} {α : Type} (x : Reader p α) : Prop :=
  ∀ s fault, x.read s = .error fault → fault.cause.isFixed = true

variable {α β σ : Type} {p q : Bool}

section Combining

namespace Reader

variable {x : Reader p α} {y : Reader q β} {cause : Cause}

theorem terse_pure (a : α) : (pure a).Terse := nofun

theorem terse_span (inClass : Char → Bool) : (span inClass).Terse := nofun

theorem terse_refuse (fixed : cause.isFixed = true) {ahead : Nat} :
    (refuse cause ahead : Reader p α).Terse := by
  intro s fault h
  cases h
  exact fixed

theorem terse_refuseBefore (fixed : cause.isFixed = true) {back : List Char} :
    (refuseBefore back cause : Reader p α).Terse := by
  intro s fault h
  cases h
  exact fixed

theorem terse_next (fixed : cause.isFixed = true) : (next cause).Terse := by
  intro s fault h
  cases s with
  | nil =>
      cases h
      exact fixed
  | cons c r => cases h

theorem Terse.bind {f : α → Reader q β} (first : x.Terse) (second : ∀ a, (f a).Terse) :
    (x.bind f).Terse := by
  intro s fault h
  rw [read_bind] at h
  split at h
  · next found =>
      cases h
      exact first _ _ found
  · exact second _ _ _ h

theorem Terse.andThen (first : x.Terse) (second : y.Terse) : (x.andThen y).Terse :=
  first.bind fun _ => second

theorem Terse.map {f : α → β} (base : x.Terse) : (x.map f).Terse := by
  intro s fault h
  simp only [Reader.map] at h
  split at h
  · next found =>
      cases h
      exact base _ _ found
  · cases h

theorem Terse.relax (base : x.Terse) : x.relax.Terse := base

theorem Terse.peek {f : Option Char → Reader p α} (each : ∀ c, (f c).Terse) : (peek f).Terse := by
  intro s fault h
  cases s with
  | nil => exact each none _ _ h
  | cons c rest => exact each (some c) _ _ h

end Reader

end Combining

open Reader

section Words

theorem terse_blanks : blanks.Terse := (terse_span _).map

theorem terse_word (rest : List Char) : (word rest).Terse := by
  induction rest with
  | nil => exact terse_pure ()
  | cons c rest ih =>
      refine .peek fun
        | none => terse_refuse rfl
        | some d => ?_
      dsimp only
      split
      · exact ((terse_next rfl).andThen ih).relax
      · exact terse_refuse rfl

theorem terse_finish : finish.Terse :=
  terse_blanks.andThen <| .peek fun
    | none => terse_pure ()
    | some _ => terse_refuse rfl

end Words

section Numbers

variable {atEnd : Cause}

theorem terse_someDigits (fixed : atEnd.isFixed = true) : (someDigits atEnd).Terse := by
  refine .peek fun
    | none => terse_refuse fixed
    | some c => ?_
  dsimp only
  split
  · exact (terse_next fixed).bind fun d => (terse_span _).map
  · exact terse_refuse rfl

theorem terse_wholeDigits (fixed : atEnd.isFixed = true) : (wholeDigits atEnd).Terse := by
  refine .peek fun c => ?_
  split
  · refine (terse_next fixed).andThen (.peek fun
      | none => terse_pure _
      | some d => ?_)
    dsimp only
    split
    · exact terse_refuse rfl
    · exact terse_pure _
  · exact terse_someDigits fixed

theorem terse_fractionDigits (fixed : atEnd.isFixed = true) : (fractionDigits atEnd).Terse := by
  refine .peek fun c => ?_
  split
  · exact ((terse_next fixed).andThen (terse_someDigits fixed)).relax
  · exact terse_pure _

theorem terse_exponentSign (fixed : atEnd.isFixed = true) : (exponentSign atEnd).Terse := by
  refine .peek fun c => ?_
  split
  · exact (terse_next fixed).map.relax
  · exact (terse_next fixed).map.relax
  · exact terse_pure _

theorem terse_exponentPart (fixed : atEnd.isFixed = true) : (exponentPart atEnd).Terse := by
  refine .peek fun c => ?_
  split
  · refine Terse.relax ((terse_next fixed).andThen ?_)
    exact (terse_exponentSign fixed).bind fun negative => (terse_someDigits fixed).map
  · exact terse_pure _

theorem terse_minusSign (fixed : atEnd.isFixed = true) : (minusSign atEnd).Terse := by
  refine .peek fun c => ?_
  split
  · exact (terse_next fixed).map.relax
  · exact terse_pure _

theorem terse_literal (fixed : atEnd.isFixed = true) : (literal atEnd).Terse :=
  (terse_minusSign fixed).bind fun _ =>
    (terse_wholeDigits fixed).bind fun _ =>
      (terse_fractionDigits fixed).bind fun _ => (terse_exponentPart fixed).map

theorem terse_number : number.Terse := by
  refine (terse_literal rfl).bind fun l => ?_
  split
  · exact terse_pure _
  · exact terse_refuseBefore rfl

end Numbers

section Texts

theorem terse_fourHex : fourHex.Terse := by
  intro s fault h
  simp only [fourHex] at h
  split at h
  · split at h
    · cases h
    · cases h
      rfl
  · split at h <;> cases h <;> rfl

theorem terse_escapeMark (mark : Char) : (escapeMark mark).Terse := by
  refine .peek fun
    | none => terse_refuse rfl
    | some c => ?_
  dsimp only
  split
  · exact terse_next rfl
  · exact terse_refuse rfl

theorem terse_codeUnits : codeUnits.Terse := by
  refine terse_fourHex.bind fun n => ?_
  split
  · exact terse_refuse rfl
  · split
    · have second := ((terse_escapeMark '\\').andThen (terse_escapeMark 'u')).andThen terse_fourHex
      refine second.relax.bind fun m => ?_
      split
      · exact terse_pure _
      · exact terse_refuse rfl
    · exact terse_pure _

theorem terse_escaped {digits : Reader true Char} (terse : digits.Terse) :
    (escaped digits).Terse := by
  refine .peek fun
    | none => terse_refuse rfl
    | some c => ?_
  dsimp only
  split
  · exact (terse_next rfl).andThen terse
  · split
    · exact (terse_next rfl).map
    · exact terse_refuse rfl

theorem isFixed_of_textFrom {escape : Reader true Char} (terse : escape.Terse) {ahead : Nat}
    {s : List Char} {fault : Fault} (h : textFrom escape ahead s = .error fault) :
    fault.cause.isFixed = true := by
  -- The faults are those of an escape, of a control character and of the end of the text.
  fun_induction textFrom escape ahead s with
  | case1 | case6 =>
      cases h
      rfl
  | case3 _ _ escapes =>
      cases h
      exact terse _ _ escapes
  | case4 _ _ _ _ _ later _ ih | case7 _ _ _ _ _ _ later ih =>
      cases h
      exact ih later
  | case2 | case5 | case8 => cases h

theorem terse_text : text.Terse :=
  Terse.map fun _ _ h => isFixed_of_textFrom (terse_escaped terse_codeUnits) h

end Texts

section Enclosures

variable {e : Enclosure}

/-- The faults of brackets have fixed words. -/
def Enclosure.Fixed (e : Enclosure) : Prop :=
  e.unclosed.isFixed = true ∧ e.separatorExpected.isFixed = true

theorem terse_turn (fixed : e.Fixed) (careful first : Bool) : (e.turn careful first).Terse := by
  refine terse_blanks.andThen (.peek fun
    | none => terse_refuse fixed.1
    | some c => ?_)
  dsimp only
  split
  · exact (terse_next fixed.1).map.relax
  · split
    · exact terse_pure _
    · split
      · refine Terse.relax ((terse_next fixed.1).andThen ?_)
        split
        · refine terse_blanks.andThen (.peek fun
            | none => terse_refuse rfl
            | some d => ?_)
          dsimp only
          split
          · exact terse_refuse rfl
          · exact terse_pure _
        · exact terse_pure _
      · exact terse_refuse fixed.2

theorem isFixed_of_itemsFrom (fixed : e.Fixed) {item : σ → Reader true σ}
    (each : ∀ state, (item state).Terse) {first : Bool} {state : σ} {s : List Char} {fault : Fault}
    (h : e.itemsFrom item first state s = .error fault) : fault.cause.isFixed = true := by
  fun_induction Enclosure.itemsFrom e item first state s with
  | case1 first state s found turn =>
      cases h
      exact terse_turn fixed _ _ _ _ turn
  | case2 => cases h
  | case3 first state s r turn found item_ =>
      cases h
      exact each _ _ _ item_
  | case4 first state s r turn next t item_ ih => exact ih h

theorem Reader.Terse.items (fixed : e.Fixed) {item : σ → Reader true σ}
    (each : ∀ state, (item state).Terse) (state : σ) : (e.items item state).Terse :=
  fun _ _ h => isFixed_of_itemsFrom fixed each h

theorem terse_key : key.Terse := by
  refine terse_blanks.andThen (.peek fun
    | none => terse_refuse rfl
    | some c => ?_)
  dsimp only
  split
  · exact (terse_next rfl).andThen terse_text
  · exact terse_refuse rfl

theorem terse_colon : colon.Terse := by
  refine terse_blanks.andThen (.peek fun
    | none => terse_refuse rfl
    | some c => ?_)
  dsimp only
  split
  · exact (terse_next rfl).map
  · exact terse_refuse rfl

end Enclosures

section Documents

theorem terse_opened {nested : Option (Reader true Document)}
    (inner : ∀ value, nested = some value → value.Terse) (opening : Opening) :
    (opened nested opening).Terse := by
  have seen : seen.Terse := terse_next rfl
  cases opening with
  | word rest s => exact seen.andThen (terse_word rest).map
  | number => exact terse_number.map
  | text => exact seen.andThen terse_text.map
  | list =>
      cases nested with
      | none => exact terse_refuse rfl
      | some value =>
          have items := Terse.items (e := .list) ⟨rfl, rfl⟩ fun before =>
            ((inner value rfl).map : (element value before).Terse)
          exact seen.andThen (items []).map
  | object =>
      cases nested with
      | none => exact terse_refuse rfl
      | some value =>
          have members := Terse.items (e := .object) ⟨rfl, rfl⟩ fun before =>
            (terse_key.bind fun k => terse_colon.andThen (inner value rfl).map :
              (keyed value before).Terse)
          exact seen.andThen (members []).map

theorem terse_valueWith {nested : Option (Reader true Document)}
    (inner : ∀ value, nested = some value → value.Terse) : (valueWith nested).Terse := by
  refine terse_blanks.andThen (.peek fun
    | none => terse_refuse rfl
    | some c => ?_)
  dsimp only
  split
  · exact terse_refuse rfl
  · exact terse_opened inner _

/-- **Every fault of a value has fixed words.** -/
theorem terse_value (levels : Nat) : (value levels).Terse := by
  induction levels with
  | zero => exact terse_valueWith nofun
  | succ levels ih =>
      refine terse_valueWith fun inner same => ?_
      cases same
      exact ih

/-- **A text that is no document is refused in fixed words**, whatever the text is. -/
theorem isFixed_of_parse {source : String} {e : Error} (h : parse source = .error e) :
    e.cause.isFixed = true := by
  have terse : document.Terse := (terse_value levelLimit).bind fun _ => terse_finish.map
  simp only [parse, Reader.run] at h
  split at h
  · next fault found =>
      cases h
      exact terse _ _ found
  · cases h

theorem Cause.clear_message {cause : Cause} (fixed : cause.isFixed = true) :
    Clear cause.message.toList := by
  cases cause with
  | fieldRepeated | variantUnknown | typeInvalid | valueInvalid => cases fixed
  | _ => decide +kernel

/-- **Fixed words are clear.** -/
theorem Error.clear_message {e : Error} (fixed : e.cause.isFixed = true) :
    Clear e.message.toList := by
  have place : Clear e.position.message.toList := by
    simp [Position.message, Clear.toDigits]
  simp [Error.message, Cause.clear_message fixed, place]

end Documents

end Json

end TreeHandles
