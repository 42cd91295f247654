import TreeHandles.Json.Unquote

/-!
# Bracketed sequences

Lists and objects are sequences of items between brackets, with commas between the items.  At each
turn the sequence either ends or another item starts.  A careful reading looks behind each comma
and finds fault with a bracket there; a cursory one leaves that to the reading of the item.

**Results.**
* `Enclosure.length_le_of_itemsFrom`: reading the items of an enclosure never lengthens the text.
-/

namespace TreeHandles
namespace Json

/-- A kind of brackets: the closing one, and the causes of the faults that are its own. -/
structure Enclosure where
  close : Char
  unclosed : Cause
  separatorExpected : Cause
  deriving DecidableEq, Repr

namespace Enclosure

/-- The brackets of a list. -/
def list : Enclosure := ⟨']', .listUnclosed, .listSeparatorExpected⟩

/-- The brackets of an object. -/
def object : Enclosure := ⟨'}', .objectUnclosed, .objectSeparatorExpected⟩

/-- Reads up to where an item starts, or past the closing bracket, and tells whether that came. -/
def turn (e : Enclosure) (careful first : Bool) : Reader false Bool :=
  blanks.andThen <| .peek fun
    | none => .refuse e.unclosed 1
    | some c =>
        if c = e.close then ((Reader.next e.unclosed).map fun _ => true).relax
        else if first then .pure false
        else if c = ',' then
          ((Reader.next e.unclosed).andThen <|
            if careful then
              blanks.andThen <| .peek fun
                | none => .refuse .valueMissing 1
                | some d => if d = e.close then .refuse .trailingComma 1 else .pure false
            else .pure false).relax
        else .refuse e.separatorExpected 1

variable {σ : Type}

/-- Reads items up to the closing bracket; each takes a state to the next. -/
def itemsFrom (e : Enclosure) (item : σ → Reader true σ) (first : Bool) (state : σ)
    (s : List Char) : Except Fault (σ × List Char) :=
  match _turn : (e.turn true first).read s with
  | .error fault => .error fault
  | .ok (true, r) => .ok (state, r)
  | .ok (false, r) =>
      match _item : (item state).read r with
      | .error fault => .error fault
      | .ok (next, t) => itemsFrom e item false next t
termination_by s.length
decreasing_by
  have := (e.turn true first).shorter _turn
  have := (item state).shorter _item
  simp at *
  omega

theorem length_le_of_itemsFrom {e : Enclosure} {item : σ → Reader true σ} {first : Bool}
    {state result : σ} {s t : List Char} (h : itemsFrom e item first state s = .ok (result, t)) :
    t.length ≤ s.length := by
  fun_induction itemsFrom e item first state s with
  | case1 => cases h
  | case2 first state s r turn =>
      cases h
      have := (e.turn true first).shorter turn
      simpa using this
  | case3 => cases h
  | case4 first state s r turn next u item_ ih =>
      have := (e.turn true first).shorter turn
      have := (item state).shorter item_
      have := ih h
      simp at *
      omega

/-- The reader of all items of an enclosure and of its closing bracket. -/
def items (e : Enclosure) (item : σ → Reader true σ) (state : σ) : Reader false σ where
  read := itemsFrom e item true state
  shorter h := by simpa using length_le_of_itemsFrom h

end Enclosure

/-- Reads the quoted key of a member of an object. -/
def key : Reader true String :=
  blanks.andThen <| .peek fun
    | none => .refuse .objectUnclosed 1
    | some c =>
        if c = '"' then (Reader.next .objectUnclosed).andThen text else .refuse .keyExpected 1

/-- Reads the colon between the key and the value of a member. -/
def colon : Reader true Unit :=
  blanks.andThen <| .peek fun
    | none => .refuse .objectUnclosed 1
    | some c =>
        if c = ':' then (Reader.next .objectUnclosed).map fun _ => ()
        else .refuse .colonExpected 1

end Json

end TreeHandles
