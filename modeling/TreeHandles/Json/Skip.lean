import TreeHandles.Json.Document

/-!
# Skipping values

A value of no interest is skipped without being built.  Its form is checked, but nothing else:
there is no limit on nesting or on the size of numbers, and surrogates need no partner.  The
brackets that are open are kept on a stack, the innermost first.

**Results.**
* `length_le_of_skipFrom`: skipping never lengthens the text, and a value takes at least a
  character.
-/

namespace TreeHandles
namespace Json

/-- What comes next while values are skipped. -/
inductive Stage where
  /-- A value starts. -/
  | value
  /-- The innermost bracket was just opened. -/
  | opened
  /-- A value has ended. -/
  | ended
  deriving DecidableEq, Repr

/-- Skips the start of a value: all of a scalar, or an opening bracket, which is then returned. -/
def skipStart : Reader true (Option Enclosure) :=
  blanks.andThen <| .peek fun
    | none => .refuse .valueMissing 1
    | some c =>
        match Opening.ofChar? c with
        | none => .refuse .valueExpected 1
        | some (.word rest _) => seen.andThen <| (word rest).map fun _ => none
        | some .number => skipNumber.map fun _ => none
        | some .text => seen.andThen <| skipText.map fun _ => none
        | some .list => seen.map fun _ => some .list
        | some .object => seen.map fun _ => some .object

/-- Skips the key of a member and its colon. -/
def skipKey : Reader true Unit :=
  blanks.andThen <| .peek fun
    | none => .refuse .objectUnclosed 1
    | some c =>
        if c = '"' then ((Reader.next .objectUnclosed).andThen skipText).andThen colon
        else .refuse .keyExpected 1

/-- Skips what stands before the next value of an enclosure, or its closing bracket, and tells
whether that came. -/
def skipTurn (e : Enclosure) (first : Bool) : Reader false Bool :=
  (e.turn false first).bind fun closed =>
    if !closed && e == .object then (skipKey.map fun _ => false).relax else .pure closed

/-- An upper bound of the steps that skipping takes: each step reads a character, closes a
bracket, or goes on to a value. -/
def skipMeasure (stack : List Enclosure) (stage : Stage) (s : List Char) : Nat :=
  4 * s.length + 2 * stack.length + if stage = .value then 0 else 1

/-- Skips values until all brackets on the stack are closed. -/
def skipFrom (stack : List Enclosure) (stage : Stage) (s : List Char) :
    Except Fault (Unit × List Char) :=
  if _value : stage = .value then
    match _start : skipStart.read s with
    | .error fault => .error fault
    | .ok (none, r) => skipFrom stack .ended r
    | .ok (some e, r) => skipFrom (e :: stack) .opened r
  else
    match stack with
    | [] => .ok ((), s)
    | e :: outer =>
        match _turn : (skipTurn e (stage == .opened)).read s with
        | .error fault => .error fault
        | .ok (true, r) => skipFrom outer .ended r
        | .ok (false, r) => skipFrom (e :: outer) .value r
termination_by skipMeasure stack stage s
decreasing_by
  · have := skipStart.shorter _start
    simp [skipMeasure, _value] at *
    omega
  · have := skipStart.shorter _start
    simp [skipMeasure, _value] at *
    omega
  · have := (skipTurn e (stage == .opened)).shorter _turn
    simp [skipMeasure, _value] at *
    omega
  · have := (skipTurn e (stage == .opened)).shorter _turn
    simp [skipMeasure, _value] at *
    omega

theorem length_le_of_skipFrom {stack : List Enclosure} {stage : Stage} {s t : List Char}
    (h : skipFrom stack stage s = .ok ((), t)) :
    t.length + (if stage = .value then 1 else 0) ≤ s.length := by
  fun_induction skipFrom stack stage s with
  | case1 => cases h
  | case2 stack s r start ih =>
      have := skipStart.shorter start
      have := ih h
      simp at *
      omega
  | case3 stack s e r start ih =>
      have := skipStart.shorter start
      have := ih h
      simp at *
      omega
  | case4 stage s value =>
      cases h
      simp [value]
  | case5 => cases h
  | case6 stage s value e outer r turn ih =>
      have := (skipTurn e (stage == .opened)).shorter turn
      have := ih h
      simp [value] at *
      omega
  | case7 stage s value e outer r turn ih =>
      have := (skipTurn e (stage == .opened)).shorter turn
      have := ih h
      simp [value] at *
      omega

/-- Skips one value. -/
def skipValue : Reader true Unit where
  read := skipFrom [] .value
  shorter h := by simpa using length_le_of_skipFrom h

end Json

end TreeHandles
