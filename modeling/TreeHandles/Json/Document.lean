import TreeHandles.Json.Enclosure
import TreeHandles.Json.Literal

/-!
# Reading documents

A document is one value between blanks.  The first character of a value tells what it is.
Composites nest at most 127 levels deep.  The members of an object are sorted by their keys, and
of several members with one key the last counts.

**Results.**
* `read_valueWith_of_opening`: how a value is read follows from its first character alone.
-/

namespace TreeHandles
namespace Json

/-- What the first character of a value says about it. -/
inductive Opening where
  /-- A word that names a scalar, of which these letters are still to come. -/
  | word (rest : List Char) (value : Scalar)
  | number
  | text
  | list
  | object
  deriving DecidableEq, Repr

/-- The opening that a character makes, if a value can start with it. -/
def Opening.ofChar? (c : Char) : Option Opening :=
  if c = 'n' then some (word ['u', 'l', 'l'] .null)
  else if c = 't' then some (word ['r', 'u', 'e'] (.bool true))
  else if c = 'f' then some (word ['a', 'l', 's', 'e'] (.bool false))
  else if c = '-' ∨ c.isDigit then some number
  else if c = '"' then some text
  else if c = '[' then some list
  else if c = '{' then some object
  else none

/-- Reads one character that was seen already. -/
def seen : Reader true Char := .next .valueMissing

/-- Reads one element of a list in front of the elements read before it. -/
def element (value : Reader true Document) (before : List Document) : Reader true (List Document) :=
  value.map fun t => t :: before

/-- Reads one member of an object into the sorted members read before it. -/
def keyed (value : Reader true Document) (before : List (String × Document)) :
    Reader true (List (String × Document)) :=
  key.bind fun k => colon.andThen <| value.map fun t => Entries.insertSorted k t before

/-- Reads the value that an opening starts, given how the values inside brackets are read. -/
def opened (nested : Option (Reader true Document)) : Opening → Reader true Document
  | .word rest value => seen.andThen <| (word rest).map fun _ => .leaf value
  | .number => number.map .leaf
  | .text => seen.andThen <| text.map fun s => .leaf (.string s)
  | .list =>
      match nested with
      | none => .refuse .nestingTooDeep 1
      | some value =>
          seen.andThen <| (Enclosure.list.items (element value) []).map fun reversed =>
            .array () reversed.reverse
  | .object =>
      match nested with
      | none => .refuse .nestingTooDeep 1
      | some value => seen.andThen <| (Enclosure.object.items (keyed value) []).map (.object ())

/-- Reads a value, given how the values inside its brackets are read, if brackets are allowed. -/
def valueWith (nested : Option (Reader true Document)) : Reader true Document :=
  blanks.andThen <| .peek fun
    | none => .refuse .valueMissing 1
    | some c =>
        match Opening.ofChar? c with
        | none => .refuse .valueExpected 1
        | some opening => opened nested opening

/-- Reads a value of which composites nest at most the given number of levels. -/
def value : Nat → Reader true Document
  | 0 => valueWith none
  | levels + 1 => valueWith (some (value levels))

/-- The number of levels that composites of a document may nest. -/
def levelLimit : Nat := 127

/-- Reads a whole document. -/
def document : Reader true Document :=
  (value levelLimit).bind fun t => finish.map fun _ => t

/-- The document that a text writes, or what is wrong with the text. -/
def parse (source : String) : Except Error Document := document.run source

theorem read_valueWith_of_opening {c : Char} {opening : Opening} (solid : isBlank c = false)
    (opens : Opening.ofChar? c = some opening) (nested : Option (Reader true Document))
    (r : List Char) : (valueWith nested).read (c :: r) = (opened nested opening).read (c :: r) := by
  rw [valueWith, Reader.read_andThen_of_ok _ (read_blanks_of_solid solid r)]
  simp [opens]

end Json

end TreeHandles
