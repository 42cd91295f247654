import TreeHandles.Proofs.Json.RoundTrip
import TreeHandles.Proofs.Text.ByteOrder

/-!
# Members in any order

The members of an object may come in any order, and a key may come more than once.  Every value is read
through, those that are replaced later too.  Each member is put at the place of its key, so that the
entries are in order at every moment, and one with a key that is there replaces its value.

**Results.**
* `Entries.find?_sorted_eq_lookup`: arranged entries hold under every key what was listed last.
* `Entries.mem_sorted_of_last`: so does the entry that was listed last with its key.
* `parse_membersText`: a list of written members is read into its arranged entries.
* `parse_members`: what the entries are, without a look at the arranging.
-/

namespace TreeHandles

namespace Entries

variable {ν : Type} {k : String} {v : ν} {es before after : List (String × ν)}

/-- **Arranged entries hold under every key what was listed last.** -/
theorem find?_sorted_eq_lookup (k : String) (es : List (String × ν)) :
    find? k (sorted es) = es.reverse.lookup k := by
  rw [sorted, find?_foldl find?_insertSorted]
  simp [find?]

theorem mem_keys_sorted : k ∈ keys (sorted es) ↔ k ∈ keys es := by
  rw [mem_keys_iff_isSome, find?_sorted_eq_lookup, List.lookup_isSome_iff]
  simp [keys]

theorem mem_sorted_of_find? (found : find? k (sorted es) = some v) : (k, v) ∈ sorted es :=
  (find?_eq_some_iff_mem ((sorted_pairwise es).imp fun less => String.ne_of_lt less)).mp found

/-- The entry that is listed last with its key is one of the arranged entries. -/
theorem mem_sorted_of_last (last : k ∉ keys after) :
    (k, v) ∈ sorted (before ++ (k, v) :: after) := by
  apply mem_sorted_of_find?
  have none : after.reverse.lookup k = none := by
    rw [List.lookup_eq_none_iff]
    intro e he
    have other : k ≠ e.1 := fun same =>
      last (List.mem_map.mpr ⟨e, List.mem_reverse.mp he, same.symm⟩)
    simpa using other
  rw [find?_sorted_eq_lookup, List.reverse_append, List.reverse_cons, List.lookup_append,
    List.lookup_append, none]
  simp

end Entries

namespace Json

variable {α : Type} {members : List (String × Tree α)}

/-- Written members between the brackets of an object: the quoted key, a colon and the text of the
value, with commas between the members. -/
def membersText (members : List (String × Tree α)) : String :=
  "\x7b" ++ ",".intercalate
    (members.map fun e => String.ofList (quote e.1) ++ ":" ++ e.2.toJson) ++ "\x7d"

theorem membersText_eq (members : List (String × Tree α)) :
    membersText members = String.ofList
      (['{'] ++ ([','].intercalate (members.map fun e => member e.1 e.2.json) ++ ['}'])) := by
  have each : ∀ e : String × Tree α,
      (String.ofList (quote e.1) ++ ":" ++ e.2.toJson).toList = member e.1 e.2.json := by
    intro e
    simp [member, Tree.toJson]
  apply String.ext
  simp only [membersText, String.toList_append, String.toList_intercalate, String.toList_ofList,
    List.map_map, Function.comp_def, each, List.append_assoc]
  rfl

/-- **Written members are read into their arranged entries**, each value as its canonical form. -/
theorem parse_membersText (exact : ∀ e ∈ members, e.2.EveryScalar Scalar.Exact)
    (fits : ∀ e ∈ members, e.2.depth ≤ 126) : parse (membersText members) =
      .ok (.object () (Entries.mapValues Tree.canonical (Entries.sorted members))) := by
  have each : ∀ e ∈ members, (value 126).Reads e.2.json e.2.canonical := fun e he =>
    reads_value (exact e he) (fits e he)
  rw [membersText_eq]
  exact parse_of_reads (reads_members each)

/-- **Members may come in any order, and keys more than once.**  A list of members, of which no value
has a finite floating-point number in it and none nests deeper than 126, is read as an object.  The
keys of the object are those of the list, each once, in the order of their bytes, and each holds the
canonical form of the value that was listed last with it. -/
theorem parse_members (members : List (String × Tree α))
    (exact : ∀ e ∈ members, e.2.EveryScalar Scalar.Exact)
    (fits : ∀ e ∈ members, e.2.depth ≤ 126) :
    ∃ entries, parse (membersText members) = .ok (.object () entries) ∧
      (Entries.keys entries).Nodup ∧
      ((Entries.keys entries).Pairwise fun a b => a.toUTF8.data.toList < b.toUTF8.data.toList) ∧
      (∀ k, k ∈ Entries.keys entries ↔ k ∈ Entries.keys members) ∧
      ∀ before k v after, members = before ++ (k, v) :: after → k ∉ Entries.keys after →
        (k, v.canonical) ∈ entries := by
  have increasing := Entries.sorted_pairwise members
  refine ⟨_, parse_membersText exact fits, ?distinct, ?ordered, ?keys, ?last⟩
  case distinct =>
    rw [Entries.keys_mapValues]
    exact increasing.imp fun less => String.ne_of_lt less
  case ordered =>
    rw [Entries.keys_mapValues]
    refine increasing.imp fun less => ?_
    rw [← Text.bytes_eq_toUTF8, ← Text.bytes_eq_toUTF8, Text.bytes_lt_bytes_iff]
    exact less
  case keys =>
    rw [Entries.keys_mapValues]
    exact fun k => Entries.mem_keys_sorted
  case last =>
    rintro before k v after rfl last
    exact List.mem_map.mpr ⟨(k, v), Entries.mem_sorted_of_last last, rfl⟩

/-- A key with a quote in it that comes twice, with another key in between: first with an array and then
with an unsigned integer in the signed range. -/
theorem parse_members_repeated_key :
    ∃ entries,
      parse "\x7b\"b\\\"\":[null],\"a\":true,\"b\\\"\":5\x7d" = .ok (.object () entries) ∧
        (Entries.keys entries).Nodup ∧ ("b\"", .leaf (.int 5)) ∈ entries := by
  let array : Document := .array () [.leaf .null]
  let before := [("b\"", array), ("a", .leaf (.bool true))]
  have noFloat : array.EveryScalar Scalar.Exact := by
    refine .of_children rfl fun c hc => ?_
    cases List.mem_singleton.mp hc
    exact Tree.everyScalar_leaf nofun
  have exact : ∀ e ∈ before ++ [("b\"", .leaf (.uint 5))], e.2.EveryScalar Scalar.Exact := by
    simp only [before, List.cons_append, List.nil_append, List.forall_mem_cons]
    exact ⟨noFloat, Tree.everyScalar_leaf nofun, Tree.everyScalar_leaf nofun, nofun⟩
  have text : membersText (before ++ [("b\"", .leaf (.uint 5))]) =
      "\x7b\"b\\\"\":[null],\"a\":true,\"b\\\"\":5\x7d" := by
    decide +kernel
  obtain ⟨entries, parsed, distinct, _, _, last⟩ := parse_members _ exact (by decide)
  rw [text] at parsed
  exact ⟨entries, parsed, distinct, last before _ _ [] rfl List.not_mem_nil⟩

end Json

end TreeHandles
