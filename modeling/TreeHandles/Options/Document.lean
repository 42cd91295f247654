import TreeHandles.Error
import TreeHandles.Json.Skip
import TreeHandles.Options

/-!
# Reading options documents

An options document is an object whose known members are the fields, each at most once and in any
order; members with other names are skipped.  It may also be a list of the fields in their order,
from which fields may be missing at the end.  Fields that are not given keep their defaults.

**Results.**
* `exists_read_repeated`: a field that is given again is refused, whatever follows its name.
-/

namespace TreeHandles
namespace Options

open Json

/-- Finds fault with the type of the value at hand, which is read unless it is in brackets. -/
def wrongType {α : Type} (wanted : Wanted) : Reader true α :=
  .peek fun
    | some '[' => .refuse (.typeInvalid .sequence wanted) 0
    | some '{' => .refuse (.typeInvalid .map wanted) 0
    | _ =>
        (value 0).bind fun
          | .leaf s => .refuse (p := false) (.typeInvalid (.scalar s) wanted) 0
          | .array _ _ => .refuse (.typeInvalid .sequence wanted) 0
          | .object _ _ => .refuse (.typeInvalid .map wanted) 0

/-- Reads the name of a policy. -/
def policyName : Reader true ViolationPolicy :=
  (seen.andThen text).bind fun name =>
    match ViolationPolicy.ofName? name with
    | some policy => .pure policy
    | none => .refuse (.variantUnknown name) 0

/-- Reads the null that stands beside the name of a policy. -/
def unitValue : Reader true Unit :=
  blanks.andThen <| .peek fun
    | none => .refuse .valueMissing 1
    | some 'n' => seen.andThen (word ['u', 'l', 'l'])
    | some _ => wrongType .unit

/-- Reads a policy as the only key of an object, after the opening bracket. -/
def policyObject : Reader true ViolationPolicy :=
  (blanks.andThen <| .peek fun
    | none => .refuse .objectUnclosed 1
    | some '}' => .refuse .valueExpected 1
    | some '"' => policyName
    | some _ => .refuse .keyExpected 1).bind fun policy =>
      (colon.andThen unitValue).andThen <| blanks.andThen <| .peek fun
        | none => .refuse .objectUnclosed 0
        | some '}' => seen.map fun _ => policy
        | some _ => .refuse .valueExpected 0

/-- Reads a policy: its name, or an object of its name and null. -/
def policy : Reader true ViolationPolicy :=
  blanks.andThen <| .peek fun
    | none => .refuse .valueMissing 1
    | some '"' => policyName
    | some '{' => seen.andThen policyObject
    | some _ => .refuse .valueExpected 1

/-- Reads a limit: an integer of 64 bits without a sign. -/
def limit : Reader true UInt64 :=
  blanks.andThen <| .peek fun
    | none => .refuse .valueMissing 1
    | some c =>
        if c = '-' ∨ c.isDigit then
          number.bind fun
            | .int i =>
                if i < 0 then .refuse (.valueInvalid i.toInt .limit) 0
                else .pure i.toUInt64
            | .uint u => .pure u
            | other => .refuse (.typeInvalid (.scalar other) .limit) 0
        else wrongType .limit

/-- Reads the value of a field. -/
def Field.read (g : Given) : Field → Reader true Given
  | .violationPolicy => policy.map fun p => { g with violationPolicy := some p }
  | .maxArrayLength => limit.map fun n => { g with maxArrayLength := some n }
  | .maxCapacityHint => limit.map fun n => { g with maxCapacityHint := some n }

/-- Finds fault with a field that is given again.  The place is behind the blanks after its name,
and behind the closing bracket of the document if that comes next. -/
def repeated {α : Type} (name : String) : Reader true α :=
  blanks.andThen <| .peek fun
    | some '}' => .refuse (.fieldRepeated name) 1
    | _ => .refuse (.fieldRepeated name) 0

theorem exists_read_repeated {α : Type} (name : String) (s : List Char) :
    ∃ ahead, (repeated name : Reader true α).read s =
      .error ⟨.fieldRepeated name, s.dropWhile isBlank, ahead⟩ := by
  have skipped : blanks.read s = .ok ((), s.dropWhile isBlank) := rfl
  rw [repeated, Reader.read_andThen_of_ok _ skipped]
  cases s.dropWhile isBlank with
  | nil => exact ⟨0, rfl⟩
  | cons c r =>
      rw [Reader.read_peek_cons]
      split <;> exact ⟨_, rfl⟩

/-- Reads a member of an options document. -/
def given (g : Given) : Reader true Given :=
  key.bind fun name =>
    match Field.ofName? name with
    | none => colon.andThen <| skipValue.map fun _ => g
    | some field =>
        if g.has field then repeated name
        else colon.andThen (field.read g)

/-- Reads the end of a list after all fields. -/
def listEnd (g : Given) : Reader true Given :=
  blanks.andThen <| .peek fun
    | none => .refuse .listUnclosed 1
    | some ']' => seen.map fun _ => g
    | some ',' =>
        seen.andThen <| blanks.andThen <| .peek fun
          | some ']' => .refuse (p := false) .trailingComma 1
          | _ => .refuse .trailingCharacters 1
    | some _ => .refuse .trailingCharacters 1

/-- Reads a list of fields in their order. -/
def fieldList : List Field → Bool → Given → Reader false Given
  | [], _, g => (listEnd g).relax
  | field :: rest, first, g =>
      (Enclosure.list.turn true first).bind fun closed =>
        if closed then .pure g
        else ((field.read g).bind fun h => fieldList rest false h).relax

/-- Reads the options that a document gives. -/
def document : Reader true Given :=
  (blanks.andThen <| .peek fun
    | none => .refuse .valueMissing 1
    | some '[' => seen.andThen (fieldList Field.all true {})
    | some '{' => seen.andThen (Enclosure.object.items given {})
    | some _ => wrongType .options).bind fun g => finish.map fun _ => g

/-- The options that a document writes, or what is wrong with it. -/
def ofJson (source : String) : Except Json.Error Options :=
  (document.run source).map Given.overlay

/-- The options that a text gives; a text that cannot be understood is invalid input. -/
def load (source : String) : Except TreeHandles.Error Options :=
  (ofJson source).mapError fun e => .invalidInput (.json e)

end Options

end TreeHandles
