import Mathlib.Logic.ExistsUnique
import TreeHandles.Proofs.Boundary.Whole
import TreeHandles.Proofs.Node.Enumeration
import TreeHandles.Proofs.Session.Adding
import TreeHandles.Proofs.Table.Keys
import TreeHandles.Proofs.Text.Decoding

/-!
# Texts that cross the boundary

Bytes without NUL that come in either encode a text, which is then kept as it is and goes out byte for
byte, or encode none, and then the caller is told where they go wrong.  For a key this holds of the
object that is built later too, whatever is done meanwhile: no key in a builder has a NUL, because all of
them came in from outside, so that cutting a key at its NUL never makes two keys look alike.

**Results.**
* `OuterText.read_eq_ok_iff`: bytes are read as the text that they encode.
* `cleanKeys_of_run`: no key in a builder has a NUL, at every boundary that is reached.
* `exists_calls_of_run`: steps that spare a builder are calls of its session that neither empty it nor
  build the builder.
* `Session.exists_build_of_key`: a key that is in a builder is in the object that is built.
* `texts_cross_or_are_refused`: texts come back byte for byte, and other bytes are refused exactly.
-/

namespace TreeHandles

variable {s : Shape} {text : String} {bs : List UInt8}

section Reading

theorem Text.nul_not_mem_of_bytes (clean : 0 ∉ Text.bytes text) : '\x00' ∉ text.toList :=
  fun inside => clean (List.mem_flatMap.mpr ⟨_, inside, by decide⟩)

namespace OuterText

/-- What is read has no NUL. -/
theorem nul_not_mem_of_read {t : OuterText} (understood : t.read = .ok text) :
    '\x00' ∉ text.toList := by
  simp only [OuterText.read] at understood
  split at understood
  · cases understood
  · next bytes =>
      split at understood
      · next decoded =>
          cases understood
          apply Text.nul_not_mem_of_bytes
          rw [Text.decodeUtf8_eq_ok_iff.mp decoded]
          intro inside
          simpa using List.mem_takeWhile_imp inside
      · cases understood

/-- **Bytes are read as the text that they encode.** -/
theorem read_eq_ok_iff (clean : 0 ∉ bs) :
    OuterText.read (some bs) = .ok text ↔ Text.bytes text = bs := by
  rw [(read_eq clean).1, ← Text.decodeUtf8_eq_ok_iff]
  cases Text.decodeUtf8 bs <;> simp [Except.mapError]

/-- Bytes that encode no text cannot be read. -/
theorem exists_read_error (clean : 0 ∉ bs) (none : ∀ text, Text.bytes text ≠ bs) :
    ∃ e, Text.decodeUtf8 bs = .error e ∧ OuterText.read (some bs) = .error (.notUtf8 e) := by
  rw [(read_eq clean).1]
  cases decoded : Text.decodeUtf8 bs with
  | ok text => exact absurd (Text.decodeUtf8_eq_ok_iff.mp decoded) (none text)
  | error e => exact ⟨e, rfl, rfl⟩

end OuterText

namespace Text.Utf8Error

theorem message_eq_incomplete_iff (e : Utf8Error) :
    e.message = "incomplete utf-8 byte sequence from index " ++ e.validLength.repr ↔
      e.brokenLength = none := by
  cases broken : e.brokenLength with
  | none => simp [message, broken]
  | some n =>
      simp only [message, broken, reduceCtorEq, iff_false]
      intro same
      have third := congrArg (fun s => s.toList[2]?) same
      simp at third

theorem message_eq_invalid_iff (e : Utf8Error) :
    (∃ n : Nat, e.message =
        "invalid utf-8 sequence of " ++ n.repr ++ " bytes from index " ++ e.validLength.repr) ↔
      e.brokenLength ≠ none := by
  cases broken : e.brokenLength with
  | some n => simp [message, broken]
  | none =>
      simp only [message, broken, ne_eq, not_true, iff_false, not_exists]
      intro n same
      have third := congrArg (fun s => s.toList[2]?) same
      simp at third

end Text.Utf8Error

end Reading

namespace Request

variable {τ υ ε : Type} {f : τ → Except ε υ} {r : Request τ s} {q : Request υ s}

/-- The key of a request comes from the key that was handed in. -/
theorem exists_key_of_mapText {key : υ} (understood : r.mapText f = .ok q) (bound : q.key? = some key) :
    ∃ given, f given = .ok key := by
  cases r with
  | setKeyValue h given child =>
      obtain ⟨read, hr, same⟩ := exists_of_map_eq_ok understood
      subst same
      cases bound
      exact ⟨given, hr⟩
  | loadJson given | newString given =>
      obtain ⟨read, hr, same⟩ := exists_of_map_eq_ok understood
      subst same
      cases bound
  | _ =>
      cases understood
      cases bound

/-- A request to build comes in as nothing else does. -/
theorem eq_build_of_mapText {h : Handle} {r : Request τ .handle}
    (understood : r.mapText f = .ok (.build h)) : r = .build h := by
  cases r with
  | build k =>
      cases understood
      rfl
  | loadJson given | newString given =>
      obtain ⟨read, _, same⟩ := exists_of_map_eq_ok understood
      cases same
  | _ => cases understood

end Request

namespace Session

variable {options : Options} {before calls : List AnyCall} {x y : Session} {t : Handle}

/-- **A key that is in a builder is in the object that is built**, whatever is called meanwhile. -/
theorem exists_build_of_key {entries : List (String × Node)} {key : String}
    (led : (new options).run before = .ok x) (ran : x.run calls = .ok y)
    (kept : Call.free.toAny ∉ calls) (unbuilt : (Call.request (.build t)).toAny ∉ calls)
    (few : allocations (new options) (before ++ calls) + 1 < UInt64.size - 1)
    (found : x.table.builders[t]? = some (.object entries)) (inside : key ∈ Entries.keys entries) :
    ∃ h z label last, y.request (.build t) = .ok (h, z) ∧ h ≠ .null ∧
      y.table.builders[t]? = some (.object last) ∧ z.node? h = some (.object label last) ∧
      (Entries.keys last).Nodup ∧ key ∈ Entries.keys last := by
  have whole : (new options).run (before ++ calls) = .ok y := run_append.mpr ⟨x, led, ran⟩
  have enough : allocations (new options) (before ++ calls) < UInt64.size - 1 := by omega
  obtain ⟨standing, counted⟩ := Standing.of_run whole enough
  have ready : Ready .null x (calls ++ []) := by
    rw [List.append_nil]
    exact (Ready.of_run whole enough).run led
  have foundThen := getElem?_builders_run ready ran kept unbuilt found
  have insideThen := Builder.mem_keys_stage (b := .object entries) inside
    (slotWrites t x calls) (keyWrites t x calls)
  have room : y.table.last.raw.toNat + 1 < UInt64.size := by omega
  have forward : y.table.last ≤ (y.table.build t).2.last := by
    rw [← standing.sound.builder?_eq] at foundThen
    rw [y.table.build_of_finish? t foundThen rfl]
    exact Handle.le_next_of_room room
  obtain ⟨ok, issued, named⟩ := Table.node?_build standing.sound foundThen rfl forward
  have performed : y.request (.build t) = _ := request_of_ok ok
  have standingThen := standing.perform (c := .request (.build t)) performed forward
  exact ⟨_, _, _, _, performed, issued, foundThen, named,
    standingThen.distinctKeys named _ (Tree.self_mem_subtrees _), insideThen⟩

/-- A key is bound in an open object whenever the child resolves. -/
theorem request_setKeyValue {entries : List (String × Node)} {c : Handle}
    (isOpen : x.table.builder? t = some (.object entries))
    (resolves : c = .null ∨ ∃ n, x.node? c = some n) (key : String) :
    ∃ y n, x.request (.setKeyValue t key c) = .ok ((), y) ∧
      y.table.builders[t]? = some (.object (Entries.insert key n entries)) := by
  obtain ⟨n, child⟩ : ∃ n, x.table.child c = .ok n := by
    rcases resolves with rfl | ⟨n, found⟩
    · exact ⟨.null, rfl⟩
    · exact ⟨n, child_of_node? found⟩
  have answer : (Request.setKeyValue t key c).answer x.options x.table = (.ok (), { x.table with
      builders := x.table.builders.insert t (.object (Entries.insert key n entries)) }) := by
    simp only [Request.answer, Table.setKeyValue, Table.modify, child, isOpen, Builder.bind]
  exact ⟨_, n, request_of_answer answer, Handle.getElem?_insert_self ..⟩

end Session

namespace Boundary

variable {b d : Boundary} {x y : Session} {slot : Nat} {t h : Handle} {steps later : List AnyStep}

/-- The keys of all builders of a session are without NUL. -/
def CleanKeys (x : Session) : Prop := x.table.KeysHave fun key => '\x00' ∉ key.toList

theorem Call.cleanKeys_perform {c : Call s} {a : s.Answer} (clean : CleanKeys x)
    (hc : c.perform x = .ok (a, y)) : CleanKeys y := by
  rcases Call.perform_cases hc with
    ⟨r, q, _, _, understood, hq⟩ | ⟨_, _, _, _, recorded⟩ | rfl | rfl | rfl
  · refine Session.keysHave_perform (c := .request q) clean (fun key bound => ?_) hq
    obtain ⟨given, read⟩ := Request.exists_key_of_mapText understood bound
    exact OuterText.nul_not_mem_of_read read
  · rw [Session.eq_of_record recorded]
    exact clean
  · exact Session.keysHave_perform (c := .free) clean nofun rfl
  · exact clean
  · exact clean

/-- **No key in a builder ever has a NUL.** -/
theorem cleanKeys_of_run (clean : Every CleanKeys b) (ran : b.run steps = .ok d) :
    Every CleanKeys d :=
  clean.run (fun _ => Table.KeysHave.empty) Call.cleanKeys_perform ran

section Spared

/-- A step spares a builder of the session in a slot: on this slot it is a call, and it neither empties
the session nor builds the builder. -/
def Spares (slot : Nat) (t : Handle) (step : AnyStep) : Prop :=
  step.2.slot = slot →
    (∃ (s : Shape) (c : Call s), step = ⟨s, .call slot c⟩) ∧ step ≠ ⟨_, .call slot .freeNodes⟩ ∧
      step ≠ ⟨_, .call slot (.request (.build t))⟩

theorem Call.inside_of_spares {c : Call s} (spared : Spares slot t ⟨s, .call slot c⟩) :
    Session.Call.free.toAny ∉ c.inside ∧ (Session.Call.request (.build t)).toAny ∉ c.inside := by
  obtain ⟨_, notFree, notBuild⟩ := spared rfl
  cases c with
  | request r =>
      simp only [inside]
      cases hr : r.mapText OuterText.read with
      | ok q =>
          refine ⟨fun freed => ?_, fun built => ?_⟩
          · cases List.mem_singleton.mp freed
          · cases List.mem_singleton.mp built
            exact notBuild (by rw [Request.eq_build_of_mapText hr])
      | error e =>
          refine ⟨fun freed => ?_, fun built => ?_⟩
          · cases List.mem_singleton.mp freed
          · cases List.mem_singleton.mp built
  | freeNodes => exact absurd rfl notFree
  | lastError | hasError | clearError => simp [inside]

/-- **Steps that spare a builder** are calls of its session, which neither empty it nor build the
builder, and with which its script goes on. -/
theorem exists_calls_of_run (held : b.session? slot = some x) (ran : b.run later = .ok d)
    (spared : ∀ step ∈ later, Spares slot t step) :
    ∃ calls y, d.session? slot = some y ∧ x.run calls = .ok y ∧ Session.Call.free.toAny ∉ calls ∧
      (Session.Call.request (.build t)).toAny ∉ calls ∧
      ∀ script : Script, Script.after (some script) (own slot later) =
        some { script with calls := script.calls ++ calls } := by
  induction later generalizing b x with
  | nil =>
      cases ran
      refine ⟨[], x, held, rfl, List.not_mem_nil, List.not_mem_nil, fun script => ?_⟩
      rw [List.append_nil]
      rfl
  | cons step rest ih =>
      obtain ⟨a, c, hs, ran⟩ := run_cons.mp ran
      have first := spared step List.mem_cons_self
      have others : ∀ step ∈ rest, Spares slot t step :=
        fun step hstep => spared step (List.mem_cons_of_mem _ hstep)
      by_cases here : step.2.slot = slot
      · obtain ⟨⟨s, k, rfl⟩, _, _⟩ := first here
        rw [perform_call held] at hs
        obtain ⟨result, hk, same⟩ := exists_of_map_eq_ok hs
        cases same
        obtain ⟨calls, y, heldThen, went, kept, unbuilt, script⟩ :=
          ih (session?_put_self b slot result.2) ran others
        obtain ⟨keptFirst, unbuiltFirst⟩ := Call.inside_of_spares first
        refine ⟨k.inside ++ calls, y, heldThen, ?_, ?_, ?_, fun before => ?_⟩
        · exact Session.run_append.mpr ⟨_, Call.run_inside hk, went⟩
        · exact fun freed => (List.mem_append.mp freed).elim keptFirst kept
        · exact fun built => (List.mem_append.mp built).elim unbuiltFirst unbuilt
        · rw [after_own_call, ← List.append_assoc]
          exact script _
      · have skipped : own slot (step :: rest) = own slot rest := by
          simp [own, here]
        rw [skipped]
        exact ih ((session?_perform_of_other here hs).trans held) ran others

end Spared

section Answers

/-- A text that cannot be read is reported, and that is all. -/
theorem perform_request_of_unread {r : Request OuterText s} {e : InputError}
    (held : b.session? slot = some x) (unread : r.mapText OuterText.read = .error e) :
    b.perform (.call slot (.request r)) = .ok (s.empty, b.put slot (x.withError (.invalidInput e))) := by
  rw [perform_call held]
  simp only [Call.perform, unread]
  rw [Session.record_of_no_violation (e := .invalidInput e) rfl]
  rfl

/-- The text of a string goes out up to its first NUL. -/
theorem perform_asString (held : b.session? slot = some x)
    (found : x.node? h = some (.leaf (.string text))) :
    ∃ d, b.perform (.call slot (.request (.asString h))) = .ok (some (cutAtNul text), d) := by
  have shown : (x.table.view h).node? = some (.leaf (.string text)) := found
  have payload : (x.table.view h).payload .string = .ok text :=
    View.payload_eq_ok_iff.mpr ⟨.string text, shown, rfl⟩
  have ok : ((Request.asString h).answer x.options x.table).1 = .ok (some text) := by
    simp only [Request.answer, payload]
    rfl
  exact ⟨_, perform_request (r := .asString h) held rfl (Session.request_of_ok ok)⟩

/-- A key goes out up to its first NUL, from the place at which it stands. -/
theorem perform_keyAt_iff {index : Nat} {key : String} (held : b.session? slot = some x) :
    (∃ d, b.perform (.call slot (.request (.keyAt h index))) = .ok (some key, d)) ↔
      ∃ k, (x.table.view h).keyAt index = .ok k ∧ cutAtNul k = key := by
  cases hk : (x.table.view h).keyAt index with
  | ok k =>
      have ok : ((Request.keyAt h index).answer x.options x.table).1 = .ok (some k) := by
        simp only [Request.answer, hk]
        rfl
      rw [perform_request held rfl (Session.request_of_ok ok)]
      simp [Shape.outward]
  | error e =>
      have fails : ((Request.keyAt h index).answer x.options x.table).1 = .error e := by
        simp only [Request.answer, hk]
        rfl
      simp only [reduceCtorEq, false_and, exists_false, iff_false, not_exists]
      intro d performed
      rw [perform_call held] at performed
      obtain ⟨result, hc, same⟩ := exists_of_map_eq_ok performed
      obtain ⟨inner, hq, answer⟩ := exists_of_map_eq_ok hc
      subst answer
      -- A key that is not found is no answer, whether the failure is recorded or silent.
      rcases Session.request_cases (.keyAt h index) hq with ⟨ok, _⟩ | ⟨_, none, _⟩ | ⟨_, _, _, none, _⟩
      · cases fails.symm.trans ok
      · rw [none] at same
        cases same
      · rw [none] at same
        cases same

/-- Of an object whose keys have no NUL, every key goes out at exactly one place. -/
theorem existsUnique_keyAt {label : Allocation} {entries : List (String × Node)} {key : String}
    (held : b.session? slot = some x) (found : x.node? h = some (.object label entries))
    (clean : ∀ key ∈ Entries.keys entries, '\x00' ∉ key.toList) (distinct : (Entries.keys entries).Nodup)
    (inside : key ∈ Entries.keys entries) :
    ∃! index, ∃ text d, b.perform (.call slot (.request (.keyAt h index))) = .ok (some text, d) ∧
      Text.bytes text = Text.bytes key := by
  have shown : (x.table.view h).node? = some (.object label entries) := found
  have place := (View.mem_keys_iff_existsUnique_keyAt shown distinct).mp inside
  refine (existsUnique_congr fun index => ?_).mpr place
  constructor
  · rintro ⟨text, d, performed, same⟩
    obtain ⟨k, here, cut⟩ := (perform_keyAt_iff held).mp ⟨d, performed⟩
    have known : k ∈ Entries.keys entries := (View.mem_keys_iff_existsUnique_keyAt shown distinct).mpr
      ⟨index, here, fun _ other => View.eq_of_keyAt_eq shown other here⟩
    rw [cutAtNul_of_not_mem (clean k known)] at cut
    rw [here, cut, Text.bytes_injective same]
  · intro here
    have whole := cutAtNul_of_not_mem (clean key inside)
    obtain ⟨d, performed⟩ := (perform_keyAt_iff held).mpr ⟨key, here, whole⟩
    exact ⟨key, d, performed, rfl⟩

end Answers

section Coming

/-- The number of handles that the session of a slot has issued, after some steps from the start. -/
def issued (slot : Nat) (steps : List AnyStep) : Nat :=
  match Script.after none (own slot steps) with
  | none => 0
  | some script => Session.allocations (.new script.options) script.calls

theorem issued_eq {script : Script} (led : Script.after none (own slot steps) = some script) :
    issued slot steps = Session.allocations (.new script.options) script.calls := by
  rw [issued, led]

/-- A call on a slot and steps that spare a builder, as the run of a session that leads there. -/
theorem exists_led_of_spared {c : Call s} {a : s.Answer} (reached : run {} steps = .ok b)
    (held : b.session? slot = some x) (asked : c.perform x = .ok (a, y))
    (ran : (b.put slot y).run later = .ok d) (spared : ∀ step ∈ later, Spares slot t step) :
    ∃ options before calls z, (Session.new options).run before = .ok y ∧ y.run calls = .ok z ∧
      Session.Call.free.toAny ∉ calls ∧ (Session.Call.request (.build t)).toAny ∉ calls ∧
      d.session? slot = some z ∧ issued slot (steps ++ ⟨s, .call slot c⟩ :: later) =
        Session.allocations (.new options) (before ++ calls) := by
  obtain ⟨script, follows, led⟩ := (follows_of_run reached slot).2.exists_script held
  obtain ⟨calls, z, heldThen, went, kept, unbuilt, goesOn⟩ :=
    exists_calls_of_run (session?_put_self b slot y) ran spared
  have ledThen := Session.run_append.mpr ⟨x, led, Call.run_inside asked⟩
  have followsThen : Script.after none (own slot (steps ++ ⟨s, .call slot c⟩ :: later)) =
      some { script with calls := script.calls ++ c.inside ++ calls } := by
    rw [after_own_append, follows, after_own_call]
    exact goesOn _
  exact ⟨script.options, _, calls, z, ledThen, went, kept, unbuilt, heldThen, issued_eq followsThen⟩

variable (reached : run {} steps = .ok b) (held : b.session? slot = some x) (clean : 0 ∉ bs)
  (encodes : Text.bytes text = bs)

include reached held clean encodes

/-- **A text that comes in as a string comes back byte for byte.** -/
theorem newString_comes_back (few : issued slot steps + 1 < UInt64.size - 1) :
    ∃ h d, b.perform (.call slot (.request (.newString (some bs)))) = .ok (h, d) ∧ h ≠ .null ∧
      ∃ e, d.perform (.call slot (.request (.asString h))) = .ok (some text, e) := by
  obtain ⟨script, follows, led⟩ := (follows_of_run reached slot).2.exists_script held
  rw [issued_eq follows] at few
  obtain ⟨standing, counted⟩ := Session.Standing.of_run led (by omega)
  have room : x.table.last.raw.toNat + 1 < UInt64.size := by omega
  obtain ⟨y, made, _, _, found⟩ :=
    Session.adds_scalar standing room (r := .newString text) (s := .string text) rfl rfl
  have read := (OuterText.read_eq_ok_iff clean).mpr encodes
  have understood : (Request.newString (some bs)).mapText OuterText.read = .ok (.newString text) := by
    simp only [Request.mapText, read]
    rfl
  refine ⟨_, _, perform_request held understood made, Session.ne_null_of_node? found, ?_⟩
  have whole : cutAtNul text = text := by
    apply cutAtNul_of_not_mem
    exact Text.nul_not_mem_of_bytes (encodes ▸ clean)
  have answered := perform_asString (session?_put_self b slot y) found
  rw [whole] at answered
  exact answered

/-- **A text that comes in as a key comes back byte for byte**, at one place of the object that is built,
whatever is done between. -/
theorem setKeyValue_comes_back {entries : List (String × Node)} {c : Handle}
    (isOpen : x.table.builder? t = some (.object entries))
    (resolves : c = .null ∨ ∃ n, x.node? c = some n) :
    ∃ d, b.perform (.call slot (.request (.setKeyValue t (some bs) c))) = .ok ((), d) ∧
      ∀ later e, d.run later = .ok e → (∀ step ∈ later, Spares slot t step) →
        issued slot (steps ++ ⟨_, .call slot (.request (.setKeyValue t (some bs) c))⟩ :: later) + 1 <
          UInt64.size - 1 →
        ∃ h f, e.perform (.call slot (.request (.build t))) = .ok (h, f) ∧ h ≠ .null ∧
          ∃! index, ∃ key g, f.perform (.call slot (.request (.keyAt h index))) = .ok (some key, g) ∧
            Text.bytes key = bs := by
  have read := (OuterText.read_eq_ok_iff clean).mpr encodes
  have understood : (Request.setKeyValue t (some bs) c).mapText OuterText.read =
      .ok (.setKeyValue t text c) := by
    simp only [Request.mapText, read]
    rfl
  obtain ⟨y, n, set, found⟩ := Session.request_setKeyValue isOpen resolves text
  have asked : (Call.request (.setKeyValue t (some bs) c)).perform x = .ok ((), y) := by
    simp only [Call.perform, understood, set]
    rfl
  have performed := perform_request held understood set
  refine ⟨_, performed, fun later e ran spared few => ?_⟩
  obtain ⟨options, before, calls, z, led, went, kept, unbuilt, heldThen, count⟩ :=
    exists_led_of_spared reached held asked ran spared
  rw [count] at few
  have known : text ∈ Entries.keys (Entries.insert text n entries) := Entries.mem_keys_insert_self ..
  obtain ⟨h, w, label, last, built, issued, foundThen, named, distinct, known⟩ :=
    Session.exists_build_of_key led went kept unbuilt few found known
  have whole : b.run (⟨_, .call slot (.request (.setKeyValue t (some bs) c))⟩ :: later) = .ok e :=
    run_cons.mpr ⟨_, _, performed, ran⟩
  have keysClean : Every CleanKeys e := cleanKeys_of_run (cleanKeys_of_run Every.empty reached) whole
  refine ⟨h, _, perform_request heldThen rfl built, issued, ?_⟩
  rw [← encodes]
  exact existsUnique_keyAt (session?_put_self e slot w) named (keysClean heldThen t _ foundThen) distinct
    known

end Coming

section Refusing

/-- The words for bytes that are no text. -/
theorem message_notUtf8 (u : Text.Utf8Error) : (Error.invalidInput (.notUtf8 u)).message =
    "invalid input: string is not UTF-8: " ++ u.message := by
  have joined : "invalid input: " ++ "string is not UTF-8: " = "invalid input: string is not UTF-8: " := by
    decide +kernel
  rw [← joined, String.append_assoc]
  rfl

/-- **Bytes that encode no text are refused**, and nothing but the last error changes. -/
theorem refuses (held : b.session? slot = some x) (clean : 0 ∉ bs)
    (none : ∀ text, Text.bytes text ≠ bs) :
    ∃ u : Text.Utf8Error, Text.decodeUtf8 bs = .error u ∧
      ∃ d, d.session? slot = some (x.withError (.invalidInput (.notUtf8 u))) ∧
        b.perform (.call slot (.request (.newString (some bs)))) = .ok (.null, d) ∧
        (∀ t c, b.perform (.call slot (.request (.setKeyValue t (some bs) c))) = .ok ((), d)) ∧
        ∃ f, d.perform (.call slot .lastError) =
          .ok (some (Error.invalidInput (.notUtf8 u)).message, f) := by
  obtain ⟨u, failed, unread⟩ := OuterText.exists_read_error clean none
  have heldThen := session?_put_self b slot (x.withError (.invalidInput (.notUtf8 u)))
  have last : (b.put slot (x.withError (.invalidInput (.notUtf8 u)))).lastError? slot =
      some (.invalidInput (.notUtf8 u)) := by
    rw [lastError?, heldThen]
    rfl
  refine ⟨u, failed, _, heldThen, perform_request_of_unread held ?_, fun t c =>
    perform_request_of_unread held ?_, ?_⟩
  · simp only [Request.mapText, unread]
    rfl
  · simp only [Request.mapText, unread]
    rfl
  · obtain ⟨f, told, _⟩ := perform_lastError fun e (same : _ = some e) => by
      rw [last] at same
      cases same
      exact Error.nul_not_mem_message trivial
    rw [last] at told
    exact ⟨f, told⟩

end Refusing

/-- **Texts cross the boundary byte for byte, and other bytes are refused.**  At every boundary that is
reached, and for all bytes without NUL that are handed to a session while the numbers last:

* if they encode a text, then they make a string, of which the text is given back as these bytes; and as
  a key of an open object, with the null handle or a handle that resolves, they are given back at
  exactly one place of the object that is built, whatever is done before it is built;
* if they encode none, then no string is made and no builder is changed, and the words of the last
  error tell the length of the longest text at the start of the bytes, and whether the bytes can be
  completed to a text. -/
theorem texts_cross_or_are_refused (clean : 0 ∉ bs) (reached : run {} steps = .ok b)
    (held : b.session? slot = some x) :
    (∀ text : String, text.toUTF8.data.toList = bs →
      (issued slot steps + 1 < UInt64.size - 1 →
        ∃ h d, b.perform (.call slot (.request (.newString (some bs)))) = .ok (h, d) ∧ h ≠ .null ∧
          ∃ told e, d.perform (.call slot (.request (.asString h))) = .ok (some told, e) ∧
            told.toUTF8.data.toList = bs) ∧
      ∀ t entries c, x.table.builder? t = some (.object entries) →
        (c = .null ∨ ∃ n, x.node? c = some n) →
        ∃ d, b.perform (.call slot (.request (.setKeyValue t (some bs) c))) = .ok ((), d) ∧
          ∀ later e, d.run later = .ok e → (∀ step ∈ later, Spares slot t step) →
            issued slot (steps ++ ⟨_, .call slot (.request (.setKeyValue t (some bs) c))⟩ :: later) + 1 <
              UInt64.size - 1 →
            ∃ h f, e.perform (.call slot (.request (.build t))) = .ok (h, f) ∧ h ≠ .null ∧
              ∃! index, ∃ key g,
                f.perform (.call slot (.request (.keyAt h index))) = .ok (some key, g) ∧
                  key.toUTF8.data.toList = bs) ∧
    ((∀ text : String, text.toUTF8.data.toList ≠ bs) →
      ∃ u : Text.Utf8Error,
        (∃ text : String, text.toUTF8.data.toList <+: bs ∧
          text.toUTF8.data.toList.length = u.validLength) ∧
        (∀ text : String, text.toUTF8.data.toList <+: bs →
          text.toUTF8.data.toList.length ≤ u.validLength) ∧
        let words := (Error.invalidInput (.notUtf8 u)).message
        let begins := "invalid input: string is not UTF-8: "
        ((∃ text : String, bs <+: text.toUTF8.data.toList) ↔ words = begins ++
          ("incomplete utf-8 byte sequence from index " ++ u.validLength.repr)) ∧
        ((¬ ∃ text : String, bs <+: text.toUTF8.data.toList) ↔ ∃ n : Nat, words = begins ++
          ("invalid utf-8 sequence of " ++ n.repr ++ " bytes from index " ++ u.validLength.repr)) ∧
        ∃ d, d.session? slot = some (x.withError (.invalidInput (.notUtf8 u))) ∧
          b.perform (.call slot (.request (.newString (some bs)))) = .ok (.null, d) ∧
          (∀ t c, b.perform (.call slot (.request (.setKeyValue t (some bs) c))) = .ok ((), d)) ∧
          ∃ f, d.perform (.call slot .lastError) = .ok (some words, f)) := by
  simp only [← Text.bytes_eq_toUTF8]
  refine ⟨fun text encodes => ⟨fun few => ?_, fun t entries c isOpen resolves => ?_⟩, fun none => ?_⟩
  · obtain ⟨h, d, made, issued, e, told⟩ := newString_comes_back reached held clean encodes few
    exact ⟨h, d, made, issued, text, e, told, encodes⟩
  · exact setKeyValue_comes_back reached held clean encodes isOpen resolves
  · obtain ⟨u, failed, refused⟩ := refuses held clean none
    obtain ⟨valid, longest, complete⟩ := Text.decodeUtf8_error failed
    refine ⟨u, valid, longest, ?_, ?_, refused⟩
    · rw [message_notUtf8, String.append_right_inj, u.message_eq_incomplete_iff, complete]
    · simp only [message_notUtf8, String.append_right_inj]
      rw [u.message_eq_invalid_iff, ← complete]

/-- A letter comes back as a string and as a key, although another session and another key come
between; a character that is cut short behind it is refused at its place. -/
theorem texts_cross_or_are_refused_around_letter :
    let letter : List UInt8 := [0xc3, 0xa9]
    let short : List UInt8 := [0xc3, 0xa9, 0xe2, 0x82]
    let steps : List AnyStep := [⟨_, .open 0⟩, ⟨_, .call 0 (.request (.newObject 0))⟩]
    let later : List AnyStep :=
      [⟨_, .openWith 1 none⟩, ⟨_, .call 0 (.request (.setKeyValue ⟨1⟩ (some [0x61]) .null))⟩]
    ∃ b, run {} steps = .ok b ∧
      (∃ h d told e, b.perform (.call 0 (.request (.newString (some letter)))) = .ok (h, d) ∧
        d.perform (.call 0 (.request (.asString h))) = .ok (some told, e) ∧
        told.toUTF8.data.toList = letter) ∧
      (∃ d e h f, b.perform (.call 0 (.request (.setKeyValue ⟨1⟩ (some letter) .null))) = .ok ((), d) ∧
        d.run later = .ok e ∧ e.perform (.call 0 (.request (.build ⟨1⟩))) = .ok (h, f) ∧
        ∃! index, ∃ key g, f.perform (.call 0 (.request (.keyAt h index))) = .ok (some key, g) ∧
          key.toUTF8.data.toList = letter) ∧
      ∃ d f, b.perform (.call 0 (.request (.newString (some short)))) = .ok (.null, d) ∧
        d.perform (.call 0 .lastError) = .ok (some
          "invalid input: string is not UTF-8: incomplete utf-8 byte sequence from index 2", f) := by
  intro letter short steps later
  have encodes : "é".toUTF8.data.toList = letter := by decide +kernel
  have goesOn : short <+: "é€".toUTF8.data.toList := by decide +kernel
  have failed : Text.decodeUtf8 short = .error ⟨2, none⟩ := by decide +kernel
  obtain ⟨b, x, d, e, reached, held, isOpen, set, ran⟩ : ∃ b x d e, run {} steps = .ok b ∧
      b.session? 0 = some x ∧ x.table.builder? ⟨1⟩ = some (.object []) ∧
      b.perform (.call 0 (.request (.setKeyValue ⟨1⟩ (some letter) .null))) = .ok ((), d) ∧
      d.run later = .ok e := ⟨_, _, _, _, rfl, rfl, rfl, rfl, rfl⟩
  refine ⟨b, reached, ?_, ?_, ?_⟩
  · have crosses := (texts_cross_or_are_refused (show 0 ∉ letter by decide) reached held).1 "é" encodes
    obtain ⟨h, d, made, _, told, e, asked, same⟩ := crosses.1 (by decide +kernel)
    exact ⟨h, d, told, e, made, asked, same⟩
  · have crosses := (texts_cross_or_are_refused (show 0 ∉ letter by decide) reached held).1 "é" encodes
    obtain ⟨_, performed, builds⟩ := crosses.2 ⟨1⟩ [] .null isOpen (.inl rfl)
    cases performed.symm.trans set
    have spared : ∀ step ∈ later, Spares 0 ⟨1⟩ step := by simp [later, Spares, Step.slot]
    obtain ⟨h, f, built, _, place⟩ := builds later e ran spared (by decide +kernel)
    exact ⟨d, e, h, f, set, ran, built, place⟩
  · have none : ∀ text : String, text.toUTF8.data.toList ≠ short := by
      intro text same
      rw [← Text.bytes_eq_toUTF8] at same
      cases failed.symm.trans (Text.decodeUtf8_eq_ok_iff.mpr same)
    obtain ⟨u, _, _, incomplete, _, d, heldThen, made, _, f, told⟩ :=
      (texts_cross_or_are_refused (show 0 ∉ short by decide) reached held).2 none
    obtain ⟨v, failedToo, d', heldToo, madeToo, _⟩ :=
      refuses held (show 0 ∉ short by decide) fun text => Text.bytes_eq_toUTF8 text ▸ none text
    cases failed.symm.trans failedToo
    cases made.symm.trans madeToo
    have last : some (Error.invalidInput (.notUtf8 u)) = some (.invalidInput (.notUtf8 ⟨2, .none⟩)) :=
      congrArg Session.lastError (Option.some.inj (heldThen.symm.trans heldToo))
    cases last
    rw [incomplete.mp ⟨_, goesOn⟩] at told
    exact ⟨d, f, made, told⟩

end Boundary

end TreeHandles
