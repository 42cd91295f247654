import TreeHandles.Json.Reader

/-!
# Reading quoted text

A quoted text ends at the first quote that is not escaped.  A backslash starts an escape: a letter
for a character, or four hexadecimal digits for a code unit, where a character outside the basic
plane takes two units, a leading and a trailing surrogate.  Characters below the space must be
escaped.

A text that is only skipped is held to the same form, except that surrogates need no partner.

**Results.**
* `length_lt_of_textFrom`: reading a text consumes at least its closing quote.
-/

namespace TreeHandles
namespace Json

/-- The value of a hexadecimal digit. -/
def hexValue? (c : Char) : Option Nat :=
  let n := c.toNat
  if '0'.toNat ≤ n ∧ n ≤ '9'.toNat then some (n - '0'.toNat)
  else if 'a'.toNat ≤ n ∧ n ≤ 'f'.toNat then some (n - 'a'.toNat + 10)
  else if 'A'.toNat ≤ n ∧ n ≤ 'F'.toNat then some (n - 'A'.toNat + 10)
  else none

/-- The number that a list of hexadecimal digits writes. -/
def hexNumber? (digits : List Char) : Option Nat :=
  digits.foldl (fun n c => do return (← n) * 16 + (← hexValue? c)) (some 0)

/-- Reads four hexadecimal digits; four bytes are looked at before any of them is judged. -/
def fourHex : Reader true Nat where
  read
    | a :: b :: c :: d :: r =>
        match hexNumber? [a, b, c, d] with
        | some n => .ok (n, r)
        | none => .error ⟨.escapeInvalid, a :: b :: c :: d :: r, 4⟩
    | short =>
        if byteLength short < 4 then .error ⟨.stringUnclosed, [], 0⟩
        else .error ⟨.escapeInvalid, short, 4⟩
  shorter {s n r} h := by
    split at h
    · split at h
      · cases h
        simp
      · cases h
    · split at h <;> cases h

/-- Reads one given character inside an escape. -/
def escapeMark (mark : Char) : Reader true Char :=
  .peek fun
    | none => .refuse .stringUnclosed 0
    | some c => if c = mark then .next .stringUnclosed else .refuse .surrogateUnpaired 1

/-- Whether a code unit is a trailing surrogate. -/
def isTrailing (n : Nat) : Bool := 0xdc00 ≤ n && n ≤ 0xdfff

/-- Whether a code unit is a leading surrogate. -/
def isLeading (n : Nat) : Bool := 0xd800 ≤ n && n ≤ 0xdbff

/-- The character that a leading and a trailing surrogate write. -/
def joinSurrogates (leading trailing : Nat) : Char :=
  Char.ofNat (0x10000 + (leading - 0xd800) * 0x400 + (trailing - 0xdc00))

/-- Reads the digits of an escaped character, two code units where it takes two. -/
def codeUnits : Reader true Char :=
  fourHex.bind fun n =>
    if isTrailing n then .refuse .surrogateLone 0
    else if isLeading n then
      (((escapeMark '\\').andThen (escapeMark 'u')).andThen fourHex).relax.bind fun m =>
        if isTrailing m then .pure (joinSurrogates n m) else .refuse .surrogateLone 0
    else .pure (Char.ofNat n)

/-- The character that a letter stands for after a backslash. -/
def letter? : Char → Option Char
  | '"' => some '"'
  | '\\' => some '\\'
  | '/' => some '/'
  | 'b' => some '\x08'
  | 'f' => some '\x0c'
  | 'n' => some '\n'
  | 'r' => some '\r'
  | 't' => some '\t'
  | _ => none

/-- Reads an escape after its backslash, given how the digits of a character are read. -/
def escaped (digits : Reader true Char) : Reader true Char :=
  .peek fun
    | none => .refuse .stringUnclosed 0
    | some c =>
        if c = 'u' then (Reader.next .stringUnclosed).andThen digits
        else
          match letter? c with
          | some d => (Reader.next .stringUnclosed).map fun _ => d
          | none => .refuse .escapeInvalid 1

/-- The characters up to the closing quote, given how escapes are read and how far ahead of a
control character its fault is placed. -/
def textFrom (escape : Reader true Char) (ahead : Nat) (s : List Char) :
    Except Fault (List Char × List Char) :=
  match s with
  | [] => .error ⟨.stringUnclosed, [], 0⟩
  | c :: r =>
      if c = '"' then .ok ([], r)
      else if c = '\\' then
        match _h : escape.read r with
        | .error fault => .error fault
        | .ok (d, r') =>
            match textFrom escape ahead r' with
            | .error fault => .error fault
            | .ok (ds, t) => .ok (d :: ds, t)
      else if c.toNat < 0x20 then .error ⟨.controlCharacter, c :: r, ahead⟩
      else
        match textFrom escape ahead r with
        | .error fault => .error fault
        | .ok (ds, t) => .ok (c :: ds, t)
termination_by s.length
decreasing_by
  · have := escape.shorter _h
    simp
    omega
  · simp

theorem length_lt_of_textFrom {escape : Reader true Char} {ahead : Nat} {s ds t : List Char}
    (h : textFrom escape ahead s = .ok (ds, t)) : t.length + 1 ≤ s.length := by
  fun_induction textFrom escape ahead s generalizing ds t with
  | case1 => cases h
  | case2 =>
      cases h
      simp
  | case3 => cases h
  | case4 => cases h
  | case5 _ _ _ he _ _ ht _ ih =>
      cases h
      have := escape.shorter he
      have := ih ht
      simp at *
      omega
  | case6 => cases h
  | case7 => cases h
  | case8 _ _ _ _ _ _ _ ht ih =>
      cases h
      have := ih ht
      simp
      omega

/-- Reads a text up to its closing quote, the opening one having been read. -/
def text : Reader true String :=
  { read := textFrom (escaped codeUnits) 1, shorter := length_lt_of_textFrom : Reader true _ }.map
    String.ofList

/-- Skips a text up to its closing quote, the opening one having been read. -/
def skipText : Reader true Unit :=
  { read := textFrom (escaped (fourHex.map fun _ => ' ')) 0
    shorter := length_lt_of_textFrom : Reader true _ }.map fun _ => ()

end Json

end TreeHandles
