/-!
# Options of a session

The options of a session say what happens when a caller breaks the contract of building, how long an
array may be, and how much room is prepared for a new object at most.
-/

namespace TreeHandles

/-- What happens when a caller breaks the contract of building. -/
inductive ViolationPolicy where
  /-- The violation is recorded, and the call gives its empty value. -/
  | report
  /-- The process ends. -/
  | abort
  deriving DecidableEq, Repr

/-- The name of a policy in an options document. -/
def ViolationPolicy.name : ViolationPolicy → String
  | report => "report"
  | abort => "abort"

/-- The policy of a name. -/
def ViolationPolicy.ofName? (s : String) : Option ViolationPolicy :=
  [report, abort].find? fun policy => policy.name == s

/-- The options of a session. -/
structure Options where
  violationPolicy : ViolationPolicy := .report
  maxArrayLength : UInt64 := 16777216
  maxCapacityHint : UInt64 := 4096
  deriving DecidableEq, Repr

namespace Options

/-- The fields of an options document, in the order in which they are written. -/
inductive Field where
  | violationPolicy | maxArrayLength | maxCapacityHint
  deriving DecidableEq, Repr

/-- All fields, in the order in which they are written. -/
def Field.all : List Field := [violationPolicy, maxArrayLength, maxCapacityHint]

/-- The name of a field in an options document. -/
def Field.name : Field → String
  | violationPolicy => "violation_policy"
  | maxArrayLength => "max_array_len"
  | maxCapacityHint => "max_capacity_hint"

/-- The field of a name. -/
def Field.ofName? (s : String) : Option Field := Field.all.find? fun field => field.name == s

/-- The options that a document gives; the others keep their defaults. -/
structure Given where
  violationPolicy : Option ViolationPolicy := none
  maxArrayLength : Option UInt64 := none
  maxCapacityHint : Option UInt64 := none
  deriving DecidableEq, Repr

namespace Given

/-- Whether a field was given. -/
def has (g : Given) : Field → Bool
  | .violationPolicy => g.violationPolicy.isSome
  | .maxArrayLength => g.maxArrayLength.isSome
  | .maxCapacityHint => g.maxCapacityHint.isSome

/-- The given options over the defaults. -/
def overlay (g : Given) : Options :=
  let standard : Options := {}
  { violationPolicy := g.violationPolicy.getD standard.violationPolicy
    maxArrayLength := g.maxArrayLength.getD standard.maxArrayLength
    maxCapacityHint := g.maxCapacityHint.getD standard.maxCapacityHint }

end Given

/-- One field of an options document. -/
def member (field : Field) (value : String) : String :=
  "\"" ++ field.name ++ "\":" ++ value

/-- The options as a compact JSON document. -/
def toJson (o : Options) : String :=
  "\x7b" ++ ",".intercalate
    [member .violationPolicy ("\"" ++ o.violationPolicy.name ++ "\""),
      member .maxArrayLength o.maxArrayLength.toNat.repr,
      member .maxCapacityHint o.maxCapacityHint.toNat.repr] ++ "\x7d"

end Options

end TreeHandles
