import TreeHandles.Proofs.Json.Spacing
import TreeHandles.Proofs.Options.Accepting

/-!
# Options over the defaults

An options document may give its fields in any order, with members of other names between them and with
blanks everywhere.  A member of another name is read up to its end, whatever its value is, and leaves
what was given before as it was.  So a document comes to what its members come to, which is to overlay
the defaults unless a field is given twice.

**Results.**
* `reads_field`: the value of a field is read back.
* `yields_given`: a member comes to what it is accepted as.
* `load_text`: a document comes to what its members are accepted as.
* `load_overlays`: what becomes of a document, told by its members, and of the text of options.
-/

namespace TreeHandles
namespace Options

open Json Reader

variable {α : Type}

section Texts

/-- The text of the value of a field: the quoted name of a policy, or the digits of a limit. -/
def Field.text : (field : Field) → field.Value → List Char
  | .violationPolicy, p => quote p.name
  | .maxArrayLength, n => Nat.toDigits 10 n.toNat
  | .maxCapacityHint, n => Nat.toDigits 10 n.toNat

namespace Member

/-- The name of a member. -/
def name : Member α → String
  | known field _ => field.name
  | unknown name _ _ => name

/-- The text of the value of a member. -/
def text : Member α → List Char
  | known field value => field.text value
  | unknown _ _ value => value.json

end Member

/-- A member with the blanks around its parts. -/
structure Placed (α : Type) where
  member : Member α
  beforeName : Blanks
  beforeColon : Blanks
  beforeValue : Blanks
  behind : Blanks

/-- The text of a member, from its name to its value. -/
def Placed.text (p : Placed α) : List Char :=
  quote p.member.name ++ (p.beforeColon ++ ':' :: (p.beforeValue ++ p.member.text))

/-- An options document as it is written: members between brackets, and the blanks around those. -/
structure Written (α : Type) where
  before : Blanks
  inside : Blanks
  placed : List (Placed α)
  behind : Blanks

namespace Written

/-- The members of a document. -/
def members (d : Written α) : List (Member α) := d.placed.map Placed.member

/-- The fields that a document gives, as often as it gives them. -/
def fields (d : Written α) : List Field := Member.fields d.members

/-- The text of a document. -/
def text (d : Written α) : String :=
  String.ofList (d.before ++ '{' :: (d.inside ++ ([','].intercalate
    (d.placed.map (Enclosure.spaced Placed.beforeName Placed.text Placed.behind)) ++
      '}' :: d.behind.val)))

end Written

end Texts

section Values

theorem Field.ofName?_name (field : Field) : Field.ofName? field.name = some field := by
  cases field <;> rfl

theorem Field.ofName?_eq_none {name : String} (other : ∀ field : Field, field.name ≠ name) :
    Field.ofName? name = none := by
  rw [Field.ofName?, List.find?_eq_none]
  exact fun field _ => by simpa using other field

theorem reads_policy (p : ViolationPolicy) : policy.Reads (quote p.name) p := by
  intro rest _
  have mark (r : List Char) : seen.read ('"' :: r) = .ok ('"', r) := rfl
  have name : (seen.andThen text).read (quote p.name ++ rest) = .ok (p.name, rest) := by
    rw [quote, List.cons_append, List.cons_append, List.append_assoc,
      read_andThen_of_ok _ (mark _)]
    exact read_text p.name rest
  have solid : blanks.read (quote p.name ++ rest) = .ok ((), quote p.name ++ rest) :=
    read_blanks_of_solid (by decide) _
  have found : ViolationPolicy.ofName? p.name = some p := by cases p <;> rfl
  rw [policy, read_andThen_of_ok _ solid]
  show policyName.read (quote p.name ++ rest) = _
  rw [policyName, read_bind_of_ok _ name, found]
  rfl

theorem not_neg_of_small {n : UInt64} (small : n.toNat < integerBound) :
    ¬ Int64.ofInt n.toNat < 0 := by
  rw [integerBound] at small
  have value : (Int64.ofInt n.toNat).toInt = n.toNat :=
    Int64.toInt_ofInt_of_le (by omega) (by omega)
  rw [Int64.lt_iff_toInt_lt, value]
  exact Int.not_lt.mpr (Int.natCast_nonneg _)

theorem toUInt64_ofInt_toNat (n : UInt64) : (Int64.ofInt n.toNat).toUInt64 = n := by
  have bits : (Int64.ofInt n.toNat).toBitVec = n.toBitVec := by simp
  exact UInt64.toBitVec_inj.mp bits

/-- The digits of a limit are read as the limit, also where they are those of a signed integer. -/
theorem reads_limit (n : UInt64) : limit.Reads (Nat.toDigits 10 n.toNat) n := by
  intro rest ends
  have plain := plain_toDigits n.toNat
  have number := read_number_uint n ends
  obtain ⟨c, cs, same⟩ := List.exists_cons_of_ne_nil plain.some
  rw [same] at plain number ⊢
  have digit : c.isDigit = true := plain.digit c List.mem_cons_self
  have solid : isBlank c = false := (Opening.solid_of_ofChar? (Opening.ofChar?_digit digit)).1
  rw [List.cons_append] at number ⊢
  rw [limit, read_andThen_of_ok _ (read_blanks_of_solid solid _), read_peek_cons]
  dsimp only
  rw [if_pos (.inr digit), read_bind_of_ok _ number]
  by_cases small : n.toNat < integerBound
  · rw [if_pos small]
    dsimp only
    rw [if_neg (not_neg_of_small small), toUInt64_ofInt_toNat]
    rfl
  · rw [if_neg small]
    rfl

/-- **The value of a field is read back.** -/
theorem reads_field (g : Given) (field : Field) (v : field.Value) :
    (field.read g).Reads (field.text v) (g.set field v) := by
  cases field with
  | violationPolicy => exact (reads_policy v).map _
  | maxArrayLength => exact (reads_limit v).map _
  | maxCapacityHint => exact (reads_limit v).map _

theorem trims_field (g : Given) (field : Field) : (field.read g).Trims := by
  cases field with
  | violationPolicy => exact Trims.map (trims_andThen _) _
  | maxArrayLength => exact Trims.map (trims_andThen _) _
  | maxCapacityHint => exact Trims.map (trims_andThen _) _

end Values

section Members

/-- **A member comes to what it is accepted as.** -/
theorem yields_given (g : Given) (p : Placed α) :
    (given g).Yields p.text (Member.accept g p.member) := by
  intro rest ends
  have colonRead (r : List Char) : colon.read (p.beforeColon ++ ':' :: r) = .ok ((), r) := by
    rw [trims_colon]
    exact read_colon r
  rw [Placed.text, given]
  simp only [List.append_assoc, List.cons_append]
  rw [read_bind_of_ok _ (read_key _ _)]
  cases p.member with
  | unknown name other value =>
      have skips := trims_skipValue.reads (reads_skipValue value) p.beforeValue rest ends
      rw [List.append_assoc] at skips
      simp only [Member.name, Field.ofName?_eq_none other]
      rw [read_andThen_of_ok _ (colonRead _)]
      exact read_map_of_ok _ skips
  | known field value =>
      simp only [Member.name, Field.ofName?_name]
      rw [Member.accept]
      cases g.has field with
      | true =>
          obtain ⟨ahead, refused⟩ := exists_read_repeated (α := Given) field.name
            (p.beforeColon ++ ':' :: (p.beforeValue ++ (field.text value ++ rest)))
          exact ⟨_, refused, rfl⟩
      | false =>
          have reads := (trims_field g field).reads (reads_field g field value) p.beforeValue
          have reads := reads rest ends
          rw [List.append_assoc] at reads
          rw [if_neg Bool.false_ne_true, if_neg Bool.false_ne_true,
            read_andThen_of_ok _ (colonRead _)]
          exact reads

end Members

section Documents

theorem trims_finish : finish.Trims := trims_andThen _

theorem trims_document : document.Trims := Trims.bind (trims_andThen _) _

/-- A document that starts with a brace is read item by item. -/
theorem read_document_brace (r : List Char) : document.read ('{' :: r) =
    ((Enclosure.object.items given {}).bind fun g => finish.map fun _ => g).read r := rfl

/-- The members of a document come to what they are accepted as, one after the other. -/
theorem yields_members (d : Written α) :
    (Enclosure.object.items given {}).Yields
      ([','].intercalate
        (d.placed.map (Enclosure.spaced Placed.beforeName Placed.text Placed.behind)) ++ ['}'])
      (d.members.foldlM Member.accept {}) := by
  rw [Written.members, List.foldlM_map]
  exact Enclosure.yields_items Enclosure.object_proper (fun p _ => ⟨'"', rfl, by decide⟩)
    (fun p _ g => yields_given g p) {}

/-- **A document comes to what its members are accepted as.** -/
theorem load_text (d : Written α) :
    match d.members.foldlM Member.accept {} with
    | .ok g => load d.text = .ok g.overlay
    | .error cause =>
        ∃ e, load d.text = .error (.invalidInput (.json e)) ∧ e.cause = cause := by
  have ends : EndsNumber d.behind.val := by
    rw [← List.append_nil d.behind.val]
    exact endsNumber_blanks d.behind fun c hc => nomatch hc
  have members := yields_members d d.behind ends
  have finished : finish.read d.behind.val = .ok ((), []) := by
    rw [← List.append_nil d.behind.val, trims_finish]
    rfl
  have start : document.read d.text.toList =
      ((Enclosure.object.items given {}).bind fun g => finish.map fun _ => g).read
        ([','].intercalate
          (d.placed.map (Enclosure.spaced Placed.beforeName Placed.text Placed.behind)) ++ ['}'] ++
            d.behind.val) := by
    have trims := Trims.bind (Enclosure.trims_items .object given {}) fun g => finish.map fun _ => g
    rw [Written.text, String.toList_ofList, trims_document, read_document_brace, trims,
      List.append_assoc]
    rfl
  rw [load, ofJson, run, start, read_bind]
  cases outcome : d.members.foldlM Member.accept {} with
  | ok g =>
      rw [outcome] at members
      rw [members]
      dsimp only
      rw [read_map_of_ok _ finished]
      rfl
  | error cause =>
      rw [outcome] at members
      obtain ⟨fault, failed, same⟩ := members
      rw [failed]
      exact ⟨_, rfl, same⟩

/-- A member without blanks. -/
def Placed.tight (m : Member α) : Placed α := ⟨m, noBlanks, noBlanks, noBlanks, noBlanks⟩

/-- The document in which options are written: every field in its order, and no blanks. -/
def compact (o : Options) : Written Unit :=
  { before := noBlanks
    inside := noBlanks
    placed := Field.all.map fun field => .tight (.known field (o.get field))
    behind := noBlanks }

theorem members_compact (o : Options) :
    (compact o).members = Field.all.map fun field => .known field (o.get field) := rfl

theorem text_compact (o : Options) : (compact o).text = o.toJson := by
  have policy : quote o.violationPolicy.name = '"' :: o.violationPolicy.name.toList ++ ['"'] := by
    cases o.violationPolicy <;> rfl
  have names (field : Field) : quote field.name = '"' :: field.name.toList ++ ['"'] := by
    cases field <;> rfl
  apply String.ext
  simp [Written.text, compact, Placed.tight, noBlanks, toJson, member, Field.all, Enclosure.spaced,
    Placed.text, names, Member.name, Member.text, Field.text, get, policy]

/-- **Options overlay the defaults.**  A document gives fields and members with other names, in any
order and with blanks between all parts.  If no field is given twice, the options hold what was given,
and in every other field the default; if some field is, the document is invalid input for a field that
is given twice.  The text of options gives the options. -/
theorem load_overlays (α : Type) :
    (∀ d : Written α,
      (d.fields.Nodup → ∃ o, load d.text = .ok o ∧
        (∀ field v, .known field v ∈ d.members → o.get field = v) ∧
        ∀ field, field ∉ d.fields → o.get field = Options.get {} field) ∧
      (¬ d.fields.Nodup → ∃ field e, 2 ≤ d.fields.count field ∧
        load d.text = .error (.invalidInput (.json e)) ∧ e.cause = .fieldRepeated field.name)) ∧
    ∀ o : Options, load o.toJson = .ok o := by
  have overlays {β : Type} (d : Written β) (once : d.fields.Nodup) : ∃ o, load d.text = .ok o ∧
      (∀ field v, .known field v ∈ d.members → o.get field = v) ∧
      ∀ field, field ∉ d.fields → o.get field = Options.get {} field := by
    have loaded := load_text d
    obtain ⟨g, accepted, given, kept⟩ :=
      Member.foldlM_accept_of_admits (Given.admits_empty.mpr once)
    rw [accepted] at loaded
    refine ⟨g.overlay, loaded, fun field v listed => ?_, fun field absent => ?_⟩
    · rw [Given.get_overlay, given field v listed, Option.getD_some]
    · rw [Given.get_overlay, kept field absent]
      cases field <;> rfl
  refine ⟨fun d => ⟨overlays d, fun twice => ?repeated⟩, fun o => ?compact⟩
  case repeated =>
    have loaded := load_text d
    obtain ⟨field, refused, count⟩ :=
      Member.foldlM_accept_of_not_admits (mt Given.admits_empty.mp twice)
    rw [refused] at loaded
    obtain ⟨e, failed, cause⟩ := loaded
    refine ⟨field, e, ?_, failed, cause⟩
    cases field <;> exact count
  case compact =>
    obtain ⟨p, loaded, given, _⟩ := overlays (compact o) (by decide : Field.all.Nodup)
    have same : p = o := ext_get fun field => given field _ <| by
      rw [members_compact]
      exact List.mem_map_of_mem (by cases field <;> decide)
    rw [← text_compact, loaded, same]

/-- A document with blanks in it, its fields out of order, and between them a name with a quote and a
letter of two bytes, whose value nests; one that gives a field twice; and options at the limit. -/
theorem load_overlays_permuted :
    load (" \x7b\n\"max_capacity_hint\"\t: 18446744073709551615 ,\"\\\"é\":[\x7b\"\\n\":-1.5\x7d]," ++
          "\"violation_policy\":\"abort\"\x7d\r") =
        .ok { violationPolicy := .abort, maxCapacityHint := 18446744073709551615 } ∧
      (∃ e, load "\x7b\"max_array_len\":1,\"\":null,\"max_array_len\":2\x7d" =
        .error (.invalidInput (.json e)) ∧ e.cause = .fieldRepeated "max_array_len") ∧
      load (toJson { maxArrayLength := 18446744073709551615 }) =
        .ok { maxArrayLength := 18446744073709551615 } := by
  obtain ⟨documents, texts⟩ := load_overlays Unit
  refine ⟨?permuted, ?repeated, texts _⟩
  case permuted =>
    let nested : Document := .array () [.object () [("\n", .leaf (.float ⟨0xbff8000000000000⟩))]]
    let written : Written Unit :=
      { before := ⟨[' '], rfl⟩
        inside := ⟨['\n'], rfl⟩
        placed :=
          [⟨.known .maxCapacityHint 18446744073709551615, noBlanks, ⟨['\t'], rfl⟩,
              ⟨[' '], rfl⟩, ⟨[' '], rfl⟩⟩,
            .tight (.unknown "\"é" (by intro field; cases field <;> decide) nested),
            .tight (.known .violationPolicy .abort)]
        behind := ⟨['\r'], rfl⟩ }
    obtain ⟨o, loaded, given, kept⟩ := (documents written).1 (by decide)
    have same : o = { violationPolicy := .abort, maxCapacityHint := 18446744073709551615 } := by
      refine ext_get fun field => ?_
      cases field with
      | violationPolicy => exact given .violationPolicy .abort (.tail _ (.tail _ (.head _)))
      | maxArrayLength => exact kept .maxArrayLength (by decide)
      | maxCapacityHint => exact given .maxCapacityHint 18446744073709551615 (.head _)
    exact (congrArg load (by decide +kernel)).trans (same ▸ loaded)
  case repeated =>
    let written : Written Unit :=
      { before := noBlanks
        inside := noBlanks
        placed := [.tight (.known .maxArrayLength 1),
          .tight (.unknown "" (by intro field; cases field <;> decide) .null),
          .tight (.known .maxArrayLength 2)]
        behind := noBlanks }
    obtain ⟨field, e, twice, refused, cause⟩ := (documents written).2 (by decide)
    obtain rfl : field = .maxArrayLength := by
      cases field with
      | maxArrayLength => rfl
      | violationPolicy | maxCapacityHint => exact absurd twice (by decide)
    exact ⟨e, (congrArg load (by decide +kernel)).trans refused, cause⟩

/-- A document without members gives the defaults. -/
example : load "\x7b\x7d" = .ok {} := by cbv

end Documents

end Options

end TreeHandles
