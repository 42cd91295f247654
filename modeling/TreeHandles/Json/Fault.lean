import TreeHandles.Json.Writer
import TreeHandles.Tree.Diagnostic

/-!
# What is wrong with a JSON text

A fault is a cause and a place.  The place is counted from the part of the text that was not read
yet: some faults lie before it, some a few bytes into it.  Lines are counted from one, and columns
count the bytes since the last line feed.

**Results.**
* `Position.advance_nil` and `Position.advance_zero`: the place of a fault never lies beyond the
  text.
-/

namespace TreeHandles
namespace Json

/-- A value that was found where another type was wanted. -/
inductive Found where
  | scalar (s : Scalar)
  | sequence
  | map
  deriving DecidableEq, Repr

/-- What a value in an options document is wanted to be. -/
inductive Wanted where
  | options
  | unit
  | limit
  deriving DecidableEq, Repr

/-- Why a text was refused. -/
inductive Cause where
  | valueMissing
  | stringUnclosed
  | listUnclosed
  | objectUnclosed
  | valueExpected
  | wordExpected
  | colonExpected
  | listSeparatorExpected
  | objectSeparatorExpected
  | trailingComma
  | trailingCharacters
  | keyExpected
  | controlCharacter
  | escapeInvalid
  | surrogateLone
  | surrogateUnpaired
  | numberInvalid
  | numberTooLarge
  | nestingTooDeep
  | fieldRepeated (name : String)
  | variantUnknown (name : String)
  | typeInvalid (found : Found) (wanted : Wanted)
  | valueInvalid (i : Int) (wanted : Wanted)
  deriving DecidableEq, Repr

/-- The description of a found value. -/
def Found.message : Found → String
  | scalar .null => "null"
  | scalar (.bool b) => "boolean `" ++ (if b then "true" else "false") ++ "`"
  | scalar (.int i) => "integer `" ++ i.toInt.repr ++ "`"
  | scalar (.uint u) => "integer `" ++ u.toNat.repr ++ "`"
  | scalar (.float x) => "floating point `" ++ String.ofList x.json ++ "`"
  | scalar (.string s) => "string " ++ Text.quoteDiagnostic s
  | sequence => "sequence"
  | map => "map"

/-- The description of a wanted value. -/
def Wanted.message : Wanted → String
  | options => "struct SessionOptions"
  | unit => "unit"
  | limit => "usize"

/-- The words of a cause. -/
def Cause.message : Cause → String
  | valueMissing => "EOF while parsing a value"
  | stringUnclosed => "EOF while parsing a string"
  | listUnclosed => "EOF while parsing a list"
  | objectUnclosed => "EOF while parsing an object"
  | valueExpected => "expected value"
  | wordExpected => "expected ident"
  | colonExpected => "expected `:`"
  | listSeparatorExpected => "expected `,` or `]`"
  | objectSeparatorExpected => "expected `,` or `\x7d`"
  | trailingComma => "trailing comma"
  | trailingCharacters => "trailing characters"
  | keyExpected => "key must be a string"
  | controlCharacter => "control character (\\u0000-\\u001F) found while parsing a string"
  | escapeInvalid => "invalid escape"
  | surrogateLone => "lone leading surrogate in hex escape"
  | surrogateUnpaired => "unexpected end of hex escape"
  | numberInvalid => "invalid number"
  | numberTooLarge => "number out of range"
  | nestingTooDeep => "recursion limit exceeded"
  | fieldRepeated name => "duplicate field `" ++ name ++ "`"
  | variantUnknown name => "unknown variant `" ++ name ++ "`, expected `report` or `abort`"
  | typeInvalid found wanted =>
      "invalid type: " ++ found.message ++ ", expected " ++ wanted.message
  | valueInvalid i wanted =>
      "invalid value: integer `" ++ i.repr ++ "`, expected " ++ wanted.message

/-- A place in a text. -/
structure Position where
  line : Nat
  column : Nat
  deriving DecidableEq, Repr

namespace Position

/-- The place before the first byte. -/
def start : Position := ⟨1, 0⟩

/-- The place some bytes further on in a text, or its end if it is shorter. -/
def advance (pos : Position) : Nat → List Char → Position
  | _, [] => pos
  | bytes, c :: rest =>
      if bytes = 0 then pos
      else if c = '\n' then advance ⟨pos.line + 1, 0⟩ (bytes - 1) rest
      else if bytes < c.utf8Size then ⟨pos.line, pos.column + bytes⟩
      else advance ⟨pos.line, pos.column + c.utf8Size⟩ (bytes - c.utf8Size) rest

@[simp] theorem advance_nil (pos : Position) (bytes : Nat) : pos.advance bytes [] = pos := by
  simp [advance]

@[simp] theorem advance_zero (pos : Position) (s : List Char) : pos.advance 0 s = pos := by
  cases s <;> simp [advance]

/-- The words of a place. -/
def message (pos : Position) : String :=
  " at line " ++ pos.line.repr ++ " column " ++ pos.column.repr

end Position

/-- The number of bytes that encode a text. -/
def byteLength : List Char → Nat
  | [] => 0
  | c :: rest => c.utf8Size + byteLength rest

/-- A cause, with the unread text and the number of bytes by which the place lies inside it. -/
structure Fault where
  cause : Cause
  unread : List Char
  ahead : Nat
  deriving DecidableEq, Repr

/-- A cause and its place in the whole text. -/
structure Error where
  cause : Cause
  position : Position
  deriving DecidableEq, Repr

/-- The fault with its place in the text that it was found in. -/
def Fault.locate (f : Fault) (text : List Char) : Error :=
  { cause := f.cause
    position := Position.start.advance (byteLength text - byteLength f.unread + f.ahead) text }

/-- The words of an error: the cause and the place. -/
def Error.message (e : Error) : String := e.cause.message ++ e.position.message

end Json

end TreeHandles
