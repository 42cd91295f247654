import TreeHandles.Proofs.Client.Reading
import TreeHandles.Proofs.Json.RoundTrip

/-!
# Export by parts

The text of a composite can be asked for in one call, or it can be put together from the texts of its
children, each asked for through a handle of its own.  The one call arranges the entries of an object
while it writes them; the enumeration arranges the keys alone and looks every value up.  Both ways lead
to one text, because both arrangements are that of the keys, and the text of a child does not depend on
the way to it.

**Results.**
* `parse_quote`: the quoted key, of which a member of an object is put together, reads back as the key.
* `run_textAt`: the text of the child at a place, asked for through the handle of the child.
* `exports_array` and `exports_object`: the text that is put together from those of the children.
* `export_agrees_with_traversal`: in every session that is reached, both ways give the same text.
-/

namespace TreeHandles

namespace Client

open TreeHandles.Tree

/-- Asks for the text of a child; the null handle has the text of null. -/
def textOfChild (c : Handle) : Client String :=
  if c.isNull then pure "null"
  else do
    return (← ask (.request (.toJson c))).getD ""

/-- Asks for a handle of the child at a place, and then for the text of the child. -/
def textAt (h : Handle) (index : Nat) : Client String := do
  textOfChild (← ask (.request (.valueAt h index)))

/-- Puts the text of an array together from those of its elements. -/
def arrayText (h : Handle) : Client String := do
  let size ← ask (.request (.size h))
  let items ← (List.range size).mapM (textAt h)
  return "[" ++ ",".intercalate items ++ "]"

/-- Puts the text of an object together from its keys and the texts of its values. -/
def objectText (h : Handle) : Client String := do
  let size ← ask (.request (.size h))
  let members ← (List.range size).mapM fun index => do
    let key ← ask (.request (.keyAt h index))
    return String.ofList (Json.quote (key.getD "")) ++ ":" ++ (← textAt h index)
  return "\x7b" ++ ",".intercalate members ++ "\x7d"

variable {x y : Session} {h : Handle} {n c : Node} {index : Nat}

section Texts

/-- **The quoted key reads back as the key**, whatever characters are in it. -/
theorem parse_quote (key : String) :
    Json.parse (String.ofList (Json.quote key)) = .ok (.leaf (.string key)) := by
  have exact : Scalar.Exact (.string key) := by
    rintro x ⟨⟩
  exact Json.parse_of_reads (Json.reads_scalar exact _)

theorem toJson_array (label : Allocation) (items : List Node) :
    (array label items).toJson = "[" ++ ",".intercalate (items.map toJson) ++ "]" := by
  apply String.ext
  simp only [toJson, Json.json_array, String.toList_ofList, String.toList_append,
    String.toList_intercalate, List.map_map, Function.comp_def, List.append_assoc]
  rfl

/-- One member of an object as text. -/
def memberText (e : String × Node) : String :=
  String.ofList (Json.quote e.1) ++ ":" ++ e.2.toJson

theorem toJson_object (label : Allocation) (entries : List (String × Node)) :
    (object label entries).toJson =
      "\x7b" ++ ",".intercalate ((Entries.sorted entries).map memberText) ++ "\x7d" := by
  have member : ∀ e : String × Node, (memberText e).toList = Json.member e.1 e.2.json := by
    intro e
    simp [memberText, Json.member, toJson]
  apply String.ext
  simp only [toJson, Json.json_object, String.toList_ofList, String.toList_append,
    String.toList_intercalate, List.map_map, Function.comp_def, member, List.append_assoc]
  rfl

end Texts

section Steps

theorem perform_toJson (found : x.node? h = some n) :
    x.perform (.request (.toJson h)) = .ok (some n.toJson, x) := by
  have answer : x.perform (.request (.toJson h)) = .ok ((x.node? h).map toJson, x) := rfl
  rw [answer, found]
  rfl

/-- The text of a node is found through the handle under which it was registered; null is registered
under none. -/
theorem textOfChild_registered (readable : Readable x h n (present [c]).length) :
    textOfChild (x.table.register c).1 (x.registering [c]) = .ok (c.toJson, x.registering [c]) := by
  cases hc : c.isNull with
  | true =>
      have single : c = .null := by
        cases c with
        | leaf s =>
            cases s with
            | null => rfl
            | _ => cases hc
        | _ => cases hc
      subst single
      rfl
  | false =>
      have one : (present [c]).length = 1 := by simp [present, hc]
      have named : Readable (x.registering [c]) (x.table.register c).1 c 0 :=
        readable.registered hc (by omega)
      have issued : ¬ (x.table.register c).1.isNull = true := by
        simpa [Handle.isNull] using named.ne_null
      rw [textOfChild, if_neg issued, run_bind_of_ok (ask_of_ok (perform_toJson named.node))]
      rfl

/-- **The text of the child at a place.** -/
theorem run_textAt (distinct : n.keys.Nodup) (here : n.inOrder[index]? = some c)
    (readable : Readable x h n (present [c]).length) :
    textAt h index x = .ok (c.toJson, x.registering [c]) := by
  have found : (x.table.view h).childAt index = .ok c :=
    (View.childAt_eq_ok_iff readable.node distinct).mpr here
  rw [textAt, run_bind_of_ok (ask_valueAt found)]
  exact textOfChild_registered readable

end Steps

section Composites

theorem exports_array {label : Allocation} {items : List Node}
    (readable : Readable x h (array label items) (present items).length) :
    ∃ ns, arrayText h x = .ok ((array label items).toJson, x.registering ns) := by
  have distinct : (array label items).keys.Nodup := .nil
  have step : ∀ index c y, items[index]? = some c →
      Readable y h (array label items) (present [c]).length →
      ∃ ns, ns.Perm [c] ∧ textAt h index y = .ok (c.toJson, y.registering ns) :=
    fun _ c _ here readable => ⟨[c], .refl _, run_textAt distinct here readable⟩
  have all : (present (items.flatMap fun c => [c])).length = (present items).length := by simp
  obtain ⟨ns, _, done⟩ :=
    run_mapM_parts (fun c => [c]) step (readable.mono (Nat.le_of_eq all))
  refine ⟨ns, ?_⟩
  rw [arrayText, toJson_array]
  refine (run_bind_of_ok (ask_size readable.node) _).trans ?_
  exact (run_bind_of_ok done _).trans rfl

theorem exports_object {label : Allocation} {entries : List (String × Node)}
    (distinct : (Entries.keys entries).Nodup)
    (readable : Readable x h (object label entries) (present (entries.map Prod.snd)).length) :
    ∃ ns, objectText h x = .ok ((object label entries).toJson, x.registering ns) := by
  have arranged := Entries.sorted_perm distinct
  have distinctRoot : (object label entries).keys.Nodup := distinct
  have step : ∀ index e y, (Entries.sorted entries)[index]? = some e →
      Readable y h (object label entries) (present [e.2]).length →
      ∃ ns, ns.Perm [e.2] ∧
        (do
          let key ← ask (.request (.keyAt h index))
          return String.ofList (Json.quote (key.getD "")) ++ ":" ++ (← textAt h index) :
            Client String) y = .ok (memberText e, y.registering ns) := by
    intro index e y here readable
    have place : (object label entries).inOrder[index]? = some e.2 := by
      rw [inOrder, List.getElem?_map, here]
      rfl
    have key := ask_keyAt readable.node here
    have child := run_textAt distinctRoot place readable
    exact ⟨[e.2], .refl _, (run_bind_of_ok key _).trans (run_bind_of_ok child _)⟩
  have positions : ((Entries.sorted entries).flatMap fun e => [e.2]).Perm (entries.map Prod.snd) := by
    rw [← List.map_eq_flatMap]
    exact arranged.map Prod.snd
  have counted : (present ((Entries.sorted entries).flatMap fun e => [e.2])).length =
      (present (entries.map Prod.snd)).length := (positions.filter _).length_eq
  obtain ⟨ns, _, done⟩ :=
    run_mapM_parts (fun e : String × Node => [e.2]) step (readable.mono (Nat.le_of_eq counted))
  refine ⟨ns, ?_⟩
  have size : (object label entries).size = (Entries.sorted entries).length :=
    arranged.length_eq.symm
  rw [objectText, toJson_object]
  refine (run_bind_of_ok (ask_size readable.node) _).trans ?_
  rw [size]
  exact (run_bind_of_ok done _).trans rfl

end Composites

/-- **Export agrees with traversal.**  In every session that is reached, a handle that resolves to a
composite has a text, and while there are numbers left for the children that are not null, the same text
is put together from the parts: that of an array from the texts of its elements between brackets, that of
an object from its members in the order of enumeration, each the quoted key, a colon and the text of the
value.  A child that is null has no handle, and its text is that of null.  No error is recorded on the
way. -/
theorem export_agrees_with_traversal (options : Options) (calls : List Session.AnyCall) (x : Session)
    (hx : (Session.new options).run calls = .ok x) (h : Handle) (n : Node)
    (found : x.node? h = some n)
    (few : Session.allocations (.new options) calls + (present n.children).length <
      UInt64.size - 1) :
    ∃ text, x.perform (.request (.toJson h)) = .ok (some text, x) ∧
      (n.kind = .array → ∃ y, arrayText h x = .ok (text, y) ∧ y.errors = x.errors) ∧
      (n.kind = .object → ∃ y, objectText h x = .ok (text, y) ∧ y.errors = x.errors) := by
  obtain ⟨standing, counted⟩ := Session.Standing.of_run hx (by omega)
  have readable : Readable x h n (present n.children).length :=
    ⟨standing.sound, found, by omega⟩
  have distinct := (standing.distinctKeys found).root
  refine ⟨n.toJson, perform_toJson found, fun kind => ?_, fun kind => ?_⟩
  · cases n with
    | leaf s => cases s <;> cases kind
    | object label entries => cases kind
    | array label items =>
        obtain ⟨ns, done⟩ := exports_array readable
        exact ⟨_, done, rfl⟩
  · cases n with
    | leaf s => cases s <;> cases kind
    | array label items => cases kind
    | object label entries =>
        obtain ⟨ns, done⟩ := exports_object distinct readable
        exact ⟨_, done, rfl⟩

/-- An object whose keys were written against their order, with an array and an explicit null under
them, by the handle that building it gave. -/
theorem export_agrees_with_traversal_of_built_object :
    let calls : List Session.AnyCall :=
      [(Session.Call.request (.newInt 7)).toAny, (Session.Call.request (.newArray 2)).toAny,
        (Session.Call.request (.setValue ⟨2⟩ 1 ⟨1⟩)).toAny,
        (Session.Call.request (.build ⟨2⟩)).toAny, (Session.Call.request (.newObject 2)).toAny,
        (Session.Call.request (.setKeyValue ⟨4⟩ "b" ⟨3⟩)).toAny,
        (Session.Call.request (.setKeyValue ⟨4⟩ "a" .null)).toAny,
        (Session.Call.request (.build ⟨4⟩)).toAny]
    ∃ x y z, (Session.new {}).run calls = .ok x ∧
      x.perform (.request (.toJson ⟨5⟩)) = .ok (some "\x7b\"a\":null,\"b\":[null,7]\x7d", x) ∧
      objectText ⟨5⟩ x = .ok ("\x7b\"a\":null,\"b\":[null,7]\x7d", y) ∧
      arrayText ⟨3⟩ x = .ok ("[null,7]", z) := by
  intro calls
  obtain ⟨x, hx⟩ : ∃ x, (Session.new {}).run calls = .ok x := ⟨_, rfl⟩
  have object : x.node? ⟨5⟩ =
      some (.object ⟨1⟩ [("b", .array ⟨0⟩ [.null, .leaf (.int 7)]), ("a", .null)]) := by
    cases hx
    rfl
  have array : x.node? ⟨3⟩ = some (.array ⟨0⟩ [.null, .leaf (.int 7)]) := by
    cases hx
    rfl
  obtain ⟨text, asked, _, put⟩ :=
    export_agrees_with_traversal {} calls x hx ⟨5⟩ _ object (by decide)
  obtain ⟨part, askedPart, putPart, _⟩ :=
    export_agrees_with_traversal {} calls x hx ⟨3⟩ _ array (by decide)
  obtain ⟨y, done, _⟩ := put rfl
  obtain ⟨z, donePart, _⟩ := putPart rfl
  have same : text = "\x7b\"a\":null,\"b\":[null,7]\x7d" := by
    cases asked.symm.trans (perform_toJson object)
    decide +kernel
  have samePart : part = "[null,7]" := by
    cases askedPart.symm.trans (perform_toJson array)
    decide +kernel
  subst same samePart
  exact ⟨x, y, z, hx, asked, done, donePart⟩

end Client

end TreeHandles
