import TreeHandles.Proofs.Json.Floats
import TreeHandles.Proofs.Json.Sequences
import TreeHandles.Proofs.Json.Texts
import TreeHandles.Proofs.Tree.Canonical
import TreeHandles.Session.Request

/-!
# Trees that are read back

The first character of a written tree tells what the tree is, and a composite is read back if all its
children are.  So, by induction on the tree, a reader that allows enough levels takes a written tree
for its canonical form, and one that allows too few finds the bracket of the composite that is too
deep.

**Results.**
* `reads_scalar`: a scalar is read back at any level.
* `reads_members`: members in any order are read into the sorted entries of an object.
* `reads_value`: a tree that nests no deeper than allowed is read back as its canonical form.
* `refuses_value`: a tree that nests deeper is refused for its nesting.
* `parse_toJson`: what becomes of an exported tree that is imported again.
-/

namespace TreeHandles
namespace Json

open Reader

section Openings

/-- A character that opens a value is no blank, and closes nothing. -/
theorem Opening.solid_of_ofChar? {c : Char} {opening : Opening}
    (opens : Opening.ofChar? c = some opening) : isBlank c = false ∧ c ≠ ']' ∧ c ≠ '}' := by
  refine ⟨?_, ?_, ?_⟩
  · cases blank : isBlank c with
    | false => rfl
    | true =>
        simp only [isBlank, Bool.or_eq_true, beq_iff_eq] at blank
        rcases blank with ((rfl | rfl) | rfl) | rfl <;> cases opens
  · rintro rfl
    cases opens
  · rintro rfl
    cases opens

theorem Opening.ofChar?_digit {c : Char} (digit : c.isDigit = true) :
    Opening.ofChar? c = some .number := by
  have other (d : Char) (h : d.isDigit = false) : c ≠ d := by
    rintro rfl
    exact absurd digit (by rw [h]; decide)
  rw [Opening.ofChar?, if_neg (other 'n' (by decide)), if_neg (other 't' (by decide)),
    if_neg (other 'f' (by decide)), if_pos (.inr digit)]

/-- A text that a value of a certain sort opens. -/
def Opens (written : List Char) (opening : Opening) : Prop :=
  ∃ c ∈ written.head?, Opening.ofChar? c = some opening

variable {written : List Char} {opening : Opening}

theorem Opens.starts_list (opens : Opens written opening) : Enclosure.list.Starts written := by
  obtain ⟨c, hc, opens⟩ := opens
  exact ⟨c, hc, (Opening.solid_of_ofChar? opens).1, (Opening.solid_of_ofChar? opens).2.1⟩

theorem opens_digits {digits : List Char} (plain : Plain digits) : Opens digits .number := by
  obtain ⟨d, ds, rfl⟩ := List.exists_cons_of_ne_nil plain.some
  exact ⟨d, rfl, Opening.ofChar?_digit (plain.digit d List.mem_cons_self)⟩

theorem opens_integer (i : Int) : Opens (integer i) .number := by
  rw [integer]
  split
  · exact ⟨'-', rfl, rfl⟩
  · exact opens_digits (plain_toDigits _)

theorem Literal.Proper.opens {l : Literal} (proper : l.Proper) : Opens l.written .number := by
  cases negative : l.negative with
  | true => exact ⟨'-', by rw [written, negative]; rfl, rfl⟩
  | false =>
      obtain ⟨c, hc, opens⟩ := opens_digits proper.whole
      refine ⟨c, ?_, opens⟩
      rw [written, negative, unsigned, List.append_assoc, if_neg Bool.false_ne_true,
        List.nil_append, List.head?_append, hc]
      rfl

theorem read_valueWith_of_opens (opens : Opens written opening)
    (nested : Option (Reader true Document)) (rest : List Char) :
    (valueWith nested).read (written ++ rest) = (opened nested opening).read (written ++ rest) := by
  obtain ⟨c, hc, opens⟩ := opens
  cases written with
  | nil => cases hc
  | cons d r =>
      cases hc
      exact read_valueWith_of_opening (Opening.solid_of_ofChar? opens).1 opens nested (r ++ rest)

variable {nested : Option (Reader true Document)} {t : Document} {cause : Cause}

theorem reads_valueWith_of_opens (opens : Opens written opening)
    (reads : (opened nested opening).Reads written t) : (valueWith nested).Reads written t :=
  fun rest ends => (read_valueWith_of_opens opens nested rest).trans (reads rest ends)

theorem refuses_valueWith_of_opens (opens : Opens written opening)
    (refuses : (opened nested opening).Refuses written cause) :
    (valueWith nested).Refuses written cause := by
  intro rest ends
  rw [read_valueWith_of_opens opens]
  exact refuses rest ends

end Openings

section Scalars

theorem read_word (letters rest : List Char) :
    (word letters).read (letters ++ rest) = .ok ((), rest) := by
  induction letters with
  | nil => rfl
  | cons c letters ih =>
      have first : (next .valueMissing).read (c :: (letters ++ rest)) = .ok (c, letters ++ rest) :=
        rfl
      rw [word, List.cons_append, read_peek_cons]
      dsimp only
      rw [if_pos rfl, read_relax, read_andThen_of_ok _ first, ih]

theorem reads_word {c : Char} {letters : List Char} {s : Scalar}
    (opens : Opening.ofChar? c = some (.word letters s)) (nested : Option (Reader true Document)) :
    (valueWith nested).Reads (c :: letters) (.leaf s) := by
  refine reads_valueWith_of_opens ⟨c, rfl, opens⟩ fun rest _ => ?_
  have first : seen.read (c :: (letters ++ rest)) = .ok (c, letters ++ rest) := rfl
  rw [opened, List.cons_append, read_andThen_of_ok _ first,
    read_map_of_ok _ (read_word letters rest)]

theorem opens_scalar (s : Scalar) : ∃ opening, Opens s.json opening := by
  cases s with
  | null => exact ⟨_, 'n', rfl, rfl⟩
  | bool b => cases b <;> exact ⟨_, _, rfl, rfl⟩
  | int i => exact ⟨_, opens_integer _⟩
  | uint u => exact ⟨_, opens_digits (plain_toDigits _)⟩
  | float x =>
      rw [Scalar.json]
      cases finite : x.isFinite with
      | true =>
          obtain ⟨l, proper, _, _, written⟩ := exists_literal_json finite
          exact ⟨_, written ▸ proper.opens⟩
      | false =>
          rw [Binary64.json, finite]
          exact ⟨_, 'n', rfl, rfl⟩
  | string s => exact ⟨_, '"', rfl, rfl⟩

/-- **A scalar is read back at any level**, as its canonical form. -/
theorem reads_scalar {s : Scalar} (exact : s.Exact) (nested : Option (Reader true Document)) :
    (valueWith nested).Reads s.json (.leaf s.canonical) := by
  cases s with
  | null => exact reads_word rfl nested
  | bool b =>
      cases b with
      | false => exact reads_word rfl nested
      | true => exact reads_word rfl nested
  | int i =>
      exact reads_valueWith_of_opens (opens_integer _) (.map _ fun rest ends => read_number_int i ends)
  | uint u =>
      exact reads_valueWith_of_opens (opens_digits (plain_toDigits _))
        (.map _ fun rest ends => read_number_uint u ends)
  | float x =>
      have infinite := exact x rfl
      rw [Scalar.json, Binary64.json, Scalar.canonical, infinite]
      exact reads_word rfl nested
  | string s =>
      refine reads_valueWith_of_opens ⟨'"', rfl, rfl⟩ fun rest _ => ?_
      have first (r : List Char) : seen.read ('"' :: r) = .ok ('"', r) := rfl
      have content := read_text s rest
      rw [Scalar.json, quote, opened, List.cons_append, List.cons_append, List.append_assoc,
        read_andThen_of_ok _ (first _)]
      exact read_map_of_ok _ content

end Scalars

section Composites

variable {α : Type} {value : Reader true Document} {written : List Char} {d : Document}
  {cause : Cause}

theorem json_array (label : α) (items : List (Tree α)) :
    (Tree.array label items).json = ['['] ++ ([','].intercalate (items.map Tree.json) ++ [']']) := by
  have each : Tree.jsonItems items = items.map Tree.json := by
    induction items with
    | nil => rfl
    | cons t rest ih => rw [Tree.jsonItems, ih, List.map_cons]
  rw [Tree.json, each]
  rfl

theorem json_object (label : α) (entries : List (String × Tree α)) :
    (Tree.object label entries).json =
      ['{'] ++ ([','].intercalate ((Entries.sorted entries).map fun e => member e.1 e.2.json) ++
        ['}']) := by
  have each : Tree.jsonEntries entries = Entries.mapValues Tree.json entries := by
    induction entries with
    | nil => rfl
    | cons e rest ih => rw [Tree.jsonEntries, ih, Entries.mapValues_cons]
  rw [Tree.json, each, Entries.sorted_mapValues, Entries.mapValues, List.map_map]
  rfl

theorem read_seen (c : Char) (rest : List Char) : seen.read ([c] ++ rest) = .ok (c, rest) := rfl

theorem read_key (k : String) (rest : List Char) : key.read (quote k ++ rest) = .ok (k, rest) := by
  have mark (r : List Char) : (next .objectUnclosed).read ('"' :: r) = .ok ('"', r) := rfl
  rw [quote, List.cons_append, List.cons_append, List.append_assoc, key,
    read_andThen_of_ok _ (read_blanks_of_solid (by decide) _), read_peek_cons]
  dsimp only
  rw [if_pos rfl, read_andThen_of_ok _ (mark _)]
  exact read_text k rest

theorem read_colon (rest : List Char) : colon.read ([':'] ++ rest) = .ok ((), rest) := by
  rw [List.singleton_append, colon, read_andThen_of_ok _ (read_blanks_of_solid (by decide) _)]
  rfl

/-- **A member is read back if its value is**, into the members read before it. -/
theorem reads_keyed (reads : value.Reads written d) (k : String)
    (before : List (String × Document)) :
    (keyed value before).Reads (member k written) (Entries.insertSorted k d before) :=
  .behind (read_key k) (.behind read_colon (reads.map _))

theorem refuses_keyed (refuses : value.Refuses written cause) (k : String)
    (before : List (String × Document)) : (keyed value before).Refuses (member k written) cause :=
  .behind (read_key k) (.behind read_colon (refuses.map _))

theorem starts_member (k : String) (text : List Char) :
    Enclosure.object.Starts (member k text) := ⟨'"', rfl, by decide⟩

/-- The members of an object are read back into its sorted entries. -/
theorem foldl_insertSorted_mapValues {ν : Type} (f : ν → Document) (entries : List (String × ν)) :
    entries.foldl (fun before e => Entries.insertSorted e.1 (f e.2) before) [] =
      Entries.mapValues f (Entries.sorted entries) := by
  rw [← Entries.sorted_mapValues, Entries.sorted, Entries.mapValues, List.foldl_map]

end Composites

section Trees

variable {α : Type}

theorem starts_json (t : Tree α) : Enclosure.list.Starts t.json := by
  cases t with
  | leaf s =>
      obtain ⟨opening, opens⟩ := opens_scalar s
      exact opens.starts_list
  | array label items =>
      rw [json_array]
      exact ⟨'[', rfl, by decide⟩
  | object label entries =>
      rw [json_object]
      exact ⟨'{', rfl, by decide⟩

theorem opens_array (label : α) (items : List (Tree α)) :
    Opens (Tree.array label items).json .list := by
  rw [json_array]
  exact ⟨'[', rfl, rfl⟩

theorem opens_object (label : α) (entries : List (String × Tree α)) :
    Opens (Tree.object label entries).json .object := by
  rw [json_object]
  exact ⟨'{', rfl, rfl⟩

variable {value : Reader true Document}

/-- An array is read back if its elements are. -/
theorem reads_array (label : α) {items : List (Tree α)}
    (each : ∀ t ∈ items, value.Reads t.json t.canonical) :
    (valueWith (some value)).Reads (Tree.array label items).json
      (Tree.array label items).canonical := by
  have elements : (Enclosure.list.items (element value) []).Reads
      ([','].intercalate (items.map Tree.json) ++ [']'])
      (items.foldl (fun before t => t.canonical :: before) []) :=
    Enclosure.reads_items Enclosure.list_proper (fun t _ => starts_json t)
      (fun t ht before => (each t ht).map fun d => d :: before) []
  refine reads_valueWith_of_opens (opens_array label items) ?_
  rw [json_array, Tree.canonical_array]
  rw [List.foldl_flip_cons_eq_append, List.append_nil] at elements
  have whole := elements.map fun reversed => (Tree.array () reversed.reverse : Document)
  rw [List.reverse_reverse] at whole
  exact .behind (read_seen '[') whole

/-- Members in any order, with repeated keys or without, are read into the sorted entries. -/
theorem reads_members {members : List (String × Tree α)}
    (each : ∀ e ∈ members, value.Reads e.2.json e.2.canonical) :
    (valueWith (some value)).Reads
      (['{'] ++ ([','].intercalate (members.map fun e => member e.1 e.2.json) ++ ['}']))
      (.object () (Entries.mapValues Tree.canonical (Entries.sorted members))) := by
  have items : (Enclosure.object.items (keyed value) []).Reads
      ([','].intercalate (members.map fun e => member e.1 e.2.json) ++ ['}'])
      (members.foldl (fun before e => Entries.insertSorted e.1 e.2.canonical before) []) :=
    Enclosure.reads_items Enclosure.object_proper (fun e _ => starts_member e.1 e.2.json)
      (fun e he before => reads_keyed (each e he) e.1 before) []
  rw [foldl_insertSorted_mapValues] at items
  refine reads_valueWith_of_opens ⟨'{', rfl, rfl⟩ ?_
  exact .behind (read_seen '{') (items.map (Tree.object ()))

/-- An object is read back if its values are. -/
theorem reads_object (label : α) {entries : List (String × Tree α)}
    (each : ∀ e ∈ Entries.sorted entries, value.Reads e.2.json e.2.canonical) :
    (valueWith (some value)).Reads (Tree.object label entries).json
      (Tree.object label entries).canonical := by
  have read := reads_members each
  rwa [Entries.sorted_eq_self (Entries.sorted_pairwise entries), ← json_object label,
    ← Tree.canonical_object label] at read

variable {cause : Cause}

/-- An array is refused for the fault of an element, if the others are read back. -/
theorem refuses_array (label : α) {items : List (Tree α)}
    (each : ∀ t ∈ items, value.Reads t.json t.canonical ∨ value.Refuses t.json cause)
    (bad : ∃ t ∈ items, value.Refuses t.json cause) :
    (valueWith (some value)).Refuses (Tree.array label items).json cause := by
  obtain ⟨t, inside, refused⟩ := bad
  have elements : (Enclosure.list.items (element value) []).Refuses
      ([','].intercalate (items.map Tree.json) ++ [']']) cause :=
    Enclosure.refuses_items Enclosure.list_proper (fun t _ => starts_json t)
      (fun t ht => (each t ht).imp (fun reads before => reads.map fun d => d :: before)
        fun refuses before => refuses.map _)
      ⟨t, inside, fun before => refused.map _⟩ []
  refine refuses_valueWith_of_opens (opens_array label items) ?_
  rw [json_array]
  exact .behind (read_seen '[') (elements.map _)

/-- An object is refused for the fault of a value, if the others are read back. -/
theorem refuses_object (label : α) {entries : List (String × Tree α)}
    (each : ∀ e ∈ Entries.sorted entries,
      value.Reads e.2.json e.2.canonical ∨ value.Refuses e.2.json cause)
    (bad : ∃ e ∈ Entries.sorted entries, value.Refuses e.2.json cause) :
    (valueWith (some value)).Refuses (Tree.object label entries).json cause := by
  obtain ⟨e, inside, refused⟩ := bad
  have members : (Enclosure.object.items (keyed value) []).Refuses
      ([','].intercalate ((Entries.sorted entries).map fun e => member e.1 e.2.json) ++ ['}'])
      cause :=
    Enclosure.refuses_items Enclosure.object_proper (fun e _ => starts_member e.1 e.2.json)
      (fun e he => (each e he).imp (fun reads before => reads_keyed reads e.1 before)
        fun refuses before => refuses_keyed refuses e.1 before)
      ⟨e, inside, fun before => refuses_keyed refused e.1 before⟩ []
  refine refuses_valueWith_of_opens (opens_object label entries) ?_
  rw [json_object]
  exact .behind (read_seen '{') (members.map _)

/-- **A tree that nests no deeper than allowed is read back** as its canonical form. -/
theorem reads_value {t : Tree α} (exact : t.EveryScalar Scalar.Exact) {levels : Nat}
    (fits : t.depth ≤ levels) : (Json.value levels).Reads t.json t.canonical := by
  induction t using Tree.induction_children generalizing levels with
  | node t ih =>
      cases t with
      | leaf s =>
          rw [Tree.json, Tree.canonical]
          cases levels with
          | zero => exact reads_scalar exact.leaf none
          | succ levels => exact reads_scalar exact.leaf (some (Json.value levels))
      | array label items =>
          cases levels with
          | zero => exact absurd fits (Nat.not_succ_le_zero _)
          | succ levels =>
              have below := (Tree.depth_le_iff rfl).mp fits
              exact reads_array label fun t ht =>
                ih t ht (exact.child ht) (below t ht)
      | object label entries =>
          cases levels with
          | zero => exact absurd fits (Nat.not_succ_le_zero _)
          | succ levels =>
              have below := (Tree.depth_le_iff rfl).mp fits
              refine reads_object label fun e he => ?_
              have inside := List.mem_map_of_mem (f := Prod.snd) (Entries.mem_of_mem_sorted he)
              exact ih e.2 inside (exact.child inside) (below e.2 inside)

/-- A composite is refused where no level is left. -/
theorem refuses_composite {t : Tree α} (composite : t.isComposite = true) :
    (valueWith none).Refuses t.json .nestingTooDeep := by
  cases t with
  | leaf s => cases composite
  | array label items =>
      exact refuses_valueWith_of_opens (opens_array label items) fun rest _ => ⟨_, rfl, rfl⟩
  | object label entries =>
      exact refuses_valueWith_of_opens (opens_object label entries) fun rest _ => ⟨_, rfl, rfl⟩

/-- **A tree that nests deeper than allowed is refused** for its nesting. -/
theorem refuses_value {t : Tree α} (distinct : t.DistinctKeys)
    (exact : t.EveryScalar Scalar.Exact) {levels : Nat} (deep : levels < t.depth) :
    (Json.value levels).Refuses t.json .nestingTooDeep := by
  induction t using Tree.induction_children generalizing levels with
  | node t ih =>
      cases levels with
      | zero =>
          refine refuses_composite ?_
          cases t with
          | leaf s => exact absurd deep (Nat.not_lt_zero _)
          | array | object => rfl
      | succ levels =>
          -- Every child is read back or refused, by its depth; one is too deep.
          have each : ∀ c ∈ t.children, (Json.value levels).Reads c.json c.canonical ∨
              (Json.value levels).Refuses c.json .nestingTooDeep := by
            intro c hc
            rcases Nat.lt_or_ge levels c.depth with deep | fits
            · exact .inr (ih c hc (distinct.child hc) (exact.child hc) deep)
            · exact .inl (reads_value (exact.child hc) fits)
          have bad (composite : t.isComposite = true) :
              ∃ c ∈ t.children, (Json.value levels).Refuses c.json .nestingTooDeep := by
            have some : ∃ c ∈ t.children, levels < c.depth := by
              simpa using mt (Tree.depth_le_iff composite).mpr (Nat.not_le.mpr deep)
            obtain ⟨c, hc, deep⟩ := some
            exact ⟨c, hc, ih c hc (distinct.child hc) (exact.child hc) deep⟩
          cases t with
          | leaf s => exact absurd deep (Nat.not_lt_zero _)
          | array label items =>
              exact refuses_array label each (bad rfl)
          | object label entries =>
              have same := Entries.sorted_perm distinct.root
              refine refuses_object label (fun e he => ?_) ?_
              · exact each e.2 (List.mem_map_of_mem (same.mem_iff.mp he))
              · obtain ⟨c, hc, refuses⟩ := bad rfl
                obtain ⟨e, he, rfl⟩ := List.mem_map.mp hc
                exact ⟨e, same.mem_iff.mpr he, refuses⟩

end Trees

section Documents

variable {α : Type} {written : List Char} {d : Document} {cause : Cause}

theorem parse_of_reads (reads : (value levelLimit).Reads written d) :
    parse (String.ofList written) = .ok d := by
  have read : (value levelLimit).read written = .ok (d, []) := by
    simpa using reads [] fun c hc => nomatch hc
  have rest : (finish.map fun _ => d).read [] = .ok (d, []) := rfl
  rw [parse, run, String.toList_ofList, document, read_bind_of_ok _ read, rest]

theorem parse_of_refuses (refuses : (value levelLimit).Refuses written cause) :
    ∃ e, parse (String.ofList written) = .error e ∧ e.cause = cause := by
  obtain ⟨fault, read, same⟩ := refuses [] fun c hc => nomatch hc
  rw [List.append_nil] at read
  refine ⟨fault.locate written, ?_, same⟩
  rw [parse, run, String.toList_ofList, document, read_bind, read]

/-- **What becomes of an exported tree that is imported again.**  A tree without finite floating-point
numbers that nests at most 127 deep comes back as its canonical form, and one that nests deeper is
invalid input, refused for its nesting. -/
theorem parse_toJson (n : Tree α) (distinct : n.DistinctKeys)
    (exact : n.EveryScalar Scalar.Exact) :
    (n.depth ≤ 127 → parse n.toJson = .ok n.canonical) ∧
      (127 < n.depth → ∃ e, parse n.toJson = .error e ∧ e.cause = .nestingTooDeep ∧
        ∀ (options : Options) (table : Table),
          (Request.answer options table (.loadJson n.toJson)).1 =
            .error (.invalidInput (.json e))) := by
  refine ⟨fun fits => parse_of_reads (reads_value exact fits), fun deep => ?_⟩
  obtain ⟨e, failed, cause⟩ : ∃ e, parse n.toJson = .error e ∧ e.cause = .nestingTooDeep :=
    parse_of_refuses (refuses_value distinct exact deep)
  refine ⟨e, failed, cause, fun options table => ?_⟩
  rw [Request.answer, failed]

/-- An object out of order, with a control character in a key, an unsigned integer in the signed range
and a number that is not finite. -/
theorem parse_toJson_unordered :
    parse (Tree.object () [("b", .leaf (.uint 5)),
        ("a\n", .array () [.leaf (.float ⟨0x7ff0000000000000⟩)])]).toJson =
      .ok (.object () [("a\n", .array () [.leaf .null]), ("b", .leaf (.int 5))]) := by
  refine (parse_toJson _ ?distinct ?exact).1 ?fits
  case distinct =>
    unfold Tree.DistinctKeys Tree.EveryKeys
    decide
  case exact =>
    have infinite : Scalar.Exact (.float ⟨0x7ff0000000000000⟩) := by
      rintro x ⟨⟩
      decide
    have counted : Scalar.Exact (.uint 5) := by
      rintro x ⟨⟩
    have none (c : Document) (inside : c ∈ []) : c.EveryScalar Scalar.Exact :=
      absurd inside List.not_mem_nil
    refine .of_children rfl ?_
    simp only [Tree.children, List.map_cons, List.map_nil, List.forall_mem_cons]
    refine ⟨Tree.everyScalar_leaf counted, .of_children rfl ?_, none⟩
    simp only [Tree.children, List.forall_mem_cons]
    exact ⟨Tree.everyScalar_leaf infinite, none⟩
  case fits => decide

end Documents

end Json

end TreeHandles
