import Mathlib.Data.List.TakeWhile
import TreeHandles.Proofs.Session.Raising

/-!
# Slots are sessions of their own

What is done at the boundary on one slot can be written down as a script: the options with which its
session was opened, and what the session was asked since, in its own words.  The steps on the other
slots are not in it.  Everything that can be seen on the slot follows from the script, by a run of a
session alone, however the steps on the slots are interleaved and however often sessions are closed
and replaced meanwhile.  What one step preserves is that the slot holds the session to which its
script leads.

**Results.**
* `OuterText.read_eq` and `cutAtNul_append`: texts end at their first NUL on the way in and on the
  way out.
* `Call.eq_reply` and `perform_text`: what goes out for the answer of a session.
* `Request.mapText_eq_error_iff`: which requests come in as reports.
* `Follows.perform` and `session?_perform_of_other`: a step on the slot follows its script, and a
  step on another slot leaves it.
* `Follows.run`: so does a list of steps, and what is seen on the slot is what the script says.
* `slots_are_sessions`: the boundary shows on each slot what a session alone shows for the steps on
  this slot, up to a breach of the contract under the policy that aborts.
-/

namespace TreeHandles

section Texts

variable {α : Type} [DecidableEq α] {a : α} {before : List α}

theorem takeWhile_ne_of_not_mem (clean : a ∉ before) : before.takeWhile (· != a) = before :=
  List.takeWhile_eq_self_iff.mpr fun b hb => by simpa using fun he : b = a => clean (he ▸ hb)

theorem takeWhile_ne_append (clean : a ∉ before) (after : List α) :
    (before ++ a :: after).takeWhile (· != a) = before := by
  rw [List.takeWhile_append, takeWhile_ne_of_not_mem clean]
  simp

/-- A text from outside ends before its first NUL, if it has one, and what is left is decoded. -/
theorem OuterText.read_eq {bytes : List UInt8} (clean : 0 ∉ bytes) :
    OuterText.read (some bytes) = (Text.decodeUtf8 bytes).mapError InputError.notUtf8 ∧
      ∀ rest, OuterText.read (some (bytes ++ 0 :: rest)) =
        (Text.decodeUtf8 bytes).mapError InputError.notUtf8 := by
  simp only [OuterText.read, takeWhile_ne_append clean, takeWhile_ne_of_not_mem clean]
  cases Text.decodeUtf8 bytes <;> simp [Except.mapError]

/-- A text goes out up to its first NUL. -/
theorem cutAtNul_append {shown : List Char} (clean : '\x00' ∉ shown) (rest : List Char) :
    cutAtNul (String.ofList (shown ++ '\x00' :: rest)) = String.ofList shown := by
  rw [cutAtNul, String.toList_ofList, takeWhile_ne_append clean]

end Texts

variable {s : Shape}

namespace Request

variable {τ υ ε : Type}

/-- The text of a request, if it has one. -/
def text? : Request τ s → Option τ
  | loadJson text | newString text | setKeyValue _ text _ => some text
  | _ => none

/-- A request cannot be understood exactly if its text cannot. -/
theorem mapText_eq_error_iff {f : τ → Except ε υ} {r : Request τ s} {e : ε} :
    r.mapText f = .error e ↔ ∃ text, r.text? = some text ∧ f text = .error e := by
  cases r with
  | loadJson text | newString text | setKeyValue _ text _ =>
      simp only [mapText, text?, Option.some.injEq, exists_eq_left']
      cases f text <;> simp [Except.map]
  | _ => simp [mapText, text?]

/-- A request of which the text is understood as it is stays as it is. -/
theorem mapText_ok (r : Request τ s) : r.mapText (fun text => (.ok text : Except ε τ)) = .ok r := by
  cases r <;> rfl

end Request

namespace Boundary

/-- The slot of a step. -/
def Step.slot : Step s → Nat
  | .open slot | .openWith slot _ | .close slot | .call slot _ => slot

/-- The steps on a slot. -/
def own (slot : Nat) (steps : List AnyStep) : List AnyStep :=
  steps.filter fun step => step.2.slot == slot

/-- What was done to the session of a slot: the options with which it was opened, and the calls of
it since. -/
structure Script where
  options : Options
  calls : List Session.AnyCall := []

namespace Script

/-- The session to which a script leads, if it does not end the process. -/
def session? (t : Script) : Option Session := ((Session.new t.options).run t.calls).toOption

/-- The script of a slot after a step on it; there is none while no session is open. -/
def next (t : Option Script) : Step s → Option Script
  | .open _ => some { options := {} }
  | .openWith _ options => (readOptions options).map fun options => { options }
  | .close _ => none
  | .call _ c => t.map fun t => { t with calls := t.calls ++ c.inside }

/-- The script of a slot after some steps on it. -/
def after (t : Option Script) (steps : List AnyStep) : Option Script :=
  steps.foldl (fun t step => next t step.2) t

end Script

/-- The words of the last error of a session, as they go out. -/
def errorText (x : Session) : Option String := x.lastError.map fun e => cutAtNul e.message

/-- What a call from outside gives, by the answer of the session to the same call: of a text the part
before its first NUL, and any other answer as it is.  For a text that cannot be read it gives the empty
answer. -/
def Call.reply (x : Session) : Call s → s.Answer
  | .request r =>
      match r.mapText OuterText.read with
      | .error _ => s.empty
      | .ok q =>
          match s, x.perform (.request q) with
          | .text, .ok (answer, _) => answer.map cutAtNul
          | _, .ok (answer, _) => answer
          | s, .error _ => s.empty
  | .lastError => errorText x
  | .hasError => x.lastError.isSome
  | .freeNodes | .clearError => ()

/-- What a step gives, by the script of its slot. -/
def Step.reply (t : Option Script) : Step s → s.Answer
  | .open _ => true
  | .openWith _ options => (readOptions options).isSome
  | .close _ => ()
  | .call _ c =>
      match t.bind Script.session? with
      | none => s.empty
      | some x => c.reply x

/-- What can be seen of a step on a slot: its answer, and the words of the last error after it. -/
structure Seen where
  shape : Shape
  answer : shape.Answer
  error : Option String

/-- What is seen on a slot at the steps on it, up to a step that ends the process. -/
def shown (slot : Nat) (b : Boundary) : List AnyStep → List Seen
  | [] => []
  | step :: rest =>
      match b.perform step.2 with
      | .error _ => []
      | .ok (a, d) =>
          if step.2.slot = slot then
            ⟨step.1, a, (d.session? slot).bind errorText⟩ :: d.shown slot rest
          else d.shown slot rest

/-- What the script of a slot says of steps on it. -/
def replies (t : Option Script) : List AnyStep → List Seen
  | [] => []
  | step :: rest =>
      ⟨step.1, step.2.reply t, ((Script.next t step.2).bind Script.session?).bind errorText⟩ ::
        replies (Script.next t step.2) rest

/-- A slot holds the session to which a script leads. -/
inductive Follows (b : Boundary) (slot : Nat) : Option Script → Prop
  | closed (empty : b.session? slot = none) : Follows b slot none
  | opened {t : Script} {x : Session} (led : (Session.new t.options).run t.calls = .ok x)
      (held : b.session? slot = some x) : Follows b slot (some t)

variable {b d : Boundary} {slot : Nat} {t : Option Script} {x y : Session} {v : Violation}

theorem readOptions_eq_some_iff {text : OuterText} {options : Options} :
    readOptions text = some options ↔
      ∃ source, text.read = .ok source ∧ Options.load source = .ok options := by
  simp only [readOptions]
  cases text.read with
  | error e => simp
  | ok source => cases loaded : Options.load source <;> simp [loaded, Except.toOption]

section Steps

theorem session?_put_self (b : Boundary) (slot : Nat) (x : Session) :
    (b.put slot x).session? slot = some x := by
  rw [session?_put, if_pos rfl]

theorem session?_put_of_ne {other : Nat} (apart : other ≠ slot) (b : Boundary) (x : Session) :
    (b.put other x).session? slot = b.session? slot := by
  rw [session?_put, if_neg apart]

theorem session?_close_self (b : Boundary) (slot : Nat) : (b.close slot).session? slot = none := by
  rw [session?_close, if_pos rfl]

theorem session?_close_of_ne {other : Nat} (apart : other ≠ slot) (b : Boundary) :
    (b.close other).session? slot = b.session? slot := by
  rw [session?_close, if_neg apart]

/-- **A step leaves the other slots alone.** -/
theorem session?_perform_of_other {step : Step s} {a : s.Answer} (apart : step.slot ≠ slot)
    (h : b.perform step = .ok (a, d)) : d.session? slot = b.session? slot := by
  cases step with
  | «open» other =>
      cases h
      exact session?_put_of_ne apart ..
  | openWith other options =>
      simp only [Boundary.perform] at h
      split at h
      · cases h
        exact session?_put_of_ne apart ..
      · cases h
        exact session?_close_of_ne apart _
  | close other =>
      cases h
      exact session?_close_of_ne apart _
  | call other c =>
      simp only [Boundary.perform] at h
      split at h
      · cases h
        rfl
      · obtain ⟨result, _, same⟩ := exists_of_map_eq_ok h
        cases same
        exact session?_put_of_ne apart ..

/-- A call from outside gives what the session gives to the call as it is put to it. -/
theorem Call.eq_reply {c : Call s} {a : s.Answer} (h : c.perform x = .ok (a, y)) :
    a = c.reply x := by
  cases c with
  | request r =>
      simp only [Call.perform, Call.reply] at h ⊢
      cases hr : r.mapText OuterText.read with
      | error i =>
          simp only [hr] at h ⊢
          obtain ⟨z, _, same⟩ := exists_of_map_eq_ok h
          cases same
          rfl
      | ok q =>
          simp only [hr] at h ⊢
          obtain ⟨result, hq, same⟩ := exists_of_map_eq_ok h
          cases same
          have performed : x.perform (.request q) = .ok result := hq
          simp only [performed]
          cases s <;> rfl
  | freeNodes | lastError | hasError | clearError =>
      cases h
      rfl

/-- **A text goes out up to its first NUL.** -/
theorem perform_text {r : Request OuterText .text} {q : Request String .text}
    {answer : Option String} (held : b.session? slot = some x)
    (understood : r.mapText OuterText.read = .ok q)
    (answered : x.perform (.request q) = .ok (answer, y)) :
    b.perform (.call slot (.request r)) = .ok (answer.map cutAtNul, b.put slot y) := by
  have asked : x.request q = .ok (answer, y) := answered
  have called : Call.perform x (.request r) = .ok (answer.map cutAtNul, y) := by
    simp only [Call.perform, understood, asked]
    rfl
  simp only [Boundary.perform, held, called]
  rfl

/-- A call from outside that ends the process does so as the session does. -/
theorem Call.run_inside_error {c : Call s} (h : c.perform x = .error v) :
    x.run c.inside = .error v := by
  cases c with
  | request r =>
      simp only [Call.perform, Call.inside] at h ⊢
      cases hr : r.mapText OuterText.read with
      | error i =>
          simp only [hr] at h
          rw [Session.record_of_no_violation (e := .invalidInput i) rfl] at h
          cases h
      | ok q =>
          simp only [hr] at h
          have ended : x.perform (.request q) = .error v := by
            show x.request q = .error v
            cases hq : x.request q with
            | error w =>
                rw [hq] at h
                cases h
                rfl
            | ok result =>
                rw [hq] at h
                cases h
          simp only [Session.run, ended]
  | freeNodes | lastError | hasError | clearError => cases h

end Steps

namespace Follows

theorem session?_eq (follows : Follows b slot t) :
    b.session? slot = t.bind Script.session? := by
  cases follows with
  | closed empty => exact empty
  | opened led held => simp [held, Script.session?, led, Except.toOption]

/-- A session that a slot holds is the one to which its script leads. -/
theorem exists_script (follows : Follows b slot t) (held : b.session? slot = some x) :
    ∃ script, t = some script ∧ (Session.new script.options).run script.calls = .ok x := by
  cases follows with
  | closed empty => cases held.symm.trans empty
  | opened led found =>
      cases held.symm.trans found
      exact ⟨_, rfl, led⟩

/-- **A step on a slot gives what its script says, and the script goes on.** -/
theorem perform {step : Step s} {a : s.Answer} (follows : Follows b step.slot t)
    (h : b.perform step = .ok (a, d)) :
    a = step.reply t ∧ Follows d step.slot (Script.next t step) := by
  cases step with
  | «open» slot =>
      cases h
      exact ⟨rfl, .opened rfl (session?_put_self ..)⟩
  | openWith slot text =>
      simp only [Boundary.perform] at h
      simp only [Step.reply, Script.next]
      cases given : readOptions text with
      | some options =>
          simp only [given] at h
          cases h
          exact ⟨rfl, .opened rfl (session?_put_self ..)⟩
      | none =>
          simp only [given] at h
          cases h
          exact ⟨rfl, .closed (session?_close_self ..)⟩
  | close slot =>
      cases h
      exact ⟨rfl, .closed (session?_close_self ..)⟩
  | call slot c =>
      have here : Follows b slot t := follows
      have held := here.session?_eq
      simp only [Boundary.perform] at h
      simp only [Step.reply, ← held]
      cases here with
      | closed empty =>
          simp only [empty] at h ⊢
          cases h
          exact ⟨rfl, .closed empty⟩
      | opened led found =>
          simp only [found] at h ⊢
          obtain ⟨result, hc, same⟩ := exists_of_map_eq_ok h
          cases same
          refine ⟨Call.eq_reply hc, .opened ?_ (session?_put_self ..)⟩
          exact Session.run_append.mpr ⟨_, led, Call.run_inside hc⟩

/-- **What is seen on a slot along some steps is what its script says of the steps on it.** -/
theorem run {steps : List AnyStep} (follows : Follows b slot t) (h : b.run steps = .ok d) :
    b.shown slot steps = replies t (own slot steps) ∧
      Follows d slot (Script.after t (own slot steps)) := by
  induction steps generalizing b t with
  | nil =>
      cases h
      exact ⟨rfl, follows⟩
  | cons step rest ih =>
      obtain ⟨a, c, hs, h⟩ := run_cons.mp h
      by_cases here : step.2.slot = slot
      · subst here
        obtain ⟨answer, followsThen⟩ := follows.perform hs
        obtain ⟨shownThen, followsEnd⟩ := ih followsThen h
        have first : own step.2.slot (step :: rest) = step :: own step.2.slot rest := by
          simp [own]
        rw [first]
        refine ⟨?_, followsEnd⟩
        simp only [shown, hs, replies, if_pos, shownThen, answer, followsThen.session?_eq]
      · have untouched := session?_perform_of_other here hs
        have followsThen : Follows c slot t := by
          cases follows with
          | closed empty => exact .closed (untouched.trans empty)
          | opened led held => exact .opened led (untouched.trans held)
        have skipped : own slot (step :: rest) = own slot rest := by
          simp [own, here]
        rw [skipped]
        simp only [shown, hs, if_neg here]
        exact ih followsThen h

end Follows

/-- From the start, every slot follows the script of the steps on it. -/
theorem follows_of_run {steps : List AnyStep} (h : run {} steps = .ok b) (slot : Nat) :
    shown slot {} steps = replies none (own slot steps) ∧
      Follows b slot (Script.after none (own slot steps)) :=
  Follows.run (.closed (by simp [session?])) h

section Ends

variable {before steps : List AnyStep}

theorem shown_append (h : b.run before = .ok d) (steps : List AnyStep) :
    b.shown slot (before ++ steps) = b.shown slot before ++ d.shown slot steps := by
  induction before generalizing b with
  | nil =>
      cases h
      rfl
  | cons step rest ih =>
      obtain ⟨a, c, hs, h⟩ := run_cons.mp h
      simp only [List.cons_append, shown, hs, ih h]
      split <;> rfl

/-- Where the process ends, one step ends it after others that do not. -/
theorem exists_end (h : b.run steps = .error v) :
    ∃ before step after d, steps = before ++ step :: after ∧ b.run before = .ok d ∧
      d.perform step.2 = .error v := by
  induction steps generalizing b with
  | nil => cases h
  | cons step rest ih =>
      simp only [run] at h
      cases hs : b.perform step.2 with
      | error w =>
          simp only [hs] at h
          cases h
          exact ⟨[], step, rest, b, rfl, rfl, hs⟩
      | ok result =>
          simp only [hs] at h
          obtain ⟨before, last, after, d, rfl, reached, ended⟩ := ih h
          exact ⟨step :: before, last, after, d, rfl,
            run_cons.mpr ⟨result.1, result.2, hs, reached⟩, ended⟩

/-- Only a call of a session ends the process. -/
theorem eq_call_of_perform_error {step : AnyStep} (h : b.perform step.2 = .error v) :
    ∃ (slot : Nat) (s : Shape) (c : Call s) (x : Session), step = ⟨s, .call slot c⟩ ∧
      b.session? slot = some x ∧ c.perform x = .error v := by
  obtain ⟨s, step⟩ := step
  cases step with
  | «open» slot => cases h
  | openWith slot options =>
      simp only [perform] at h
      split at h <;> cases h
  | close slot => cases h
  | call slot c =>
      simp only [perform] at h
      split at h
      · cases h
      · next x hx =>
          refine ⟨slot, s, c, x, rfl, hx, ?_⟩
          cases hc : c.perform x with
          | error w =>
              rw [hc] at h
              cases h
              rfl
          | ok result =>
              rw [hc] at h
              cases h

end Ends

section Scripts

theorem after_own_append (script : Option Script) (steps more : List AnyStep) :
    Script.after script (own slot (steps ++ more)) =
      Script.after (Script.after script (own slot steps)) (own slot more) := by
  simp [own, Script.after]

theorem after_own_call (script : Script) (c : Call s) (rest : List AnyStep) :
    Script.after (some script) (own slot (⟨s, .call slot c⟩ :: rest)) =
      Script.after (some { script with calls := script.calls ++ c.inside }) (own slot rest) := by
  have here : own slot (⟨s, .call slot c⟩ :: rest) = ⟨s, .call slot c⟩ :: own slot rest := by
    simp [own, Step.slot]
  rw [here]
  rfl

end Scripts

/-- **The boundary is a session for each slot.**  Texts from outside end before their first NUL, and
one that is missing or cannot be decoded cannot be read; the text that a session answers goes out up
to its first NUL, and no text goes out as none.  A request comes in as it is, unless its text cannot be
read; then it comes in as a report of that.  A session is opened with options only if their text can be
read and is a document of options.
After every list of steps that does not end the process, and on every slot:

* what was seen on the slot, answers and words of last errors, is what the script of the steps on
  this slot says, whatever was done on the other slots;
* if a session is open, it is the one to which the script leads, by a run of a session alone;
* if none is open, then every call gives the empty answer and changes no session.

If a list of steps ends the process, then a call on one slot does, whose session aborts on breaches
of the contract, and at which the run of this session alone ends too.  What was seen on the slots is
what the scripts say of the steps before. -/
theorem slots_are_sessions :
    OuterText.read none = .error .missingText ∧
    (∀ bytes : List UInt8, 0 ∉ bytes →
      OuterText.read (some bytes) = (Text.decodeUtf8 bytes).mapError InputError.notUtf8 ∧
        ∀ rest, OuterText.read (some (bytes ++ 0 :: rest)) =
          (Text.decodeUtf8 bytes).mapError InputError.notUtf8) ∧
    (∀ shown : List Char, '\x00' ∉ shown →
      cutAtNul (String.ofList shown) = String.ofList shown ∧
        ∀ rest, cutAtNul (String.ofList (shown ++ '\x00' :: rest)) = String.ofList shown) ∧
    (∀ (b : Boundary) (slot : Nat) (x y : Session) (r : Request OuterText .text)
      (q : Request String .text) (answer : Option String), b.session? slot = some x →
      r.mapText OuterText.read = .ok q → x.perform (.request q) = .ok (answer, y) →
      b.perform (.call slot (.request r)) = .ok (answer.map cutAtNul, b.put slot y)) ∧
    (∀ (s : Shape) (r : Request OuterText s) (e : InputError),
      r.mapText OuterText.read = .error e ↔ ∃ text, r.text? = some text ∧ text.read = .error e) ∧
    (∀ (s : Shape) (q : Request String s),
      q.mapText (fun text => (.ok text : Except InputError String)) = .ok q) ∧
    (∀ (text : OuterText) (options : Options), readOptions text = some options ↔
      ∃ source, text.read = .ok source ∧ Options.load source = .ok options) ∧
    ∀ steps : List AnyStep,
      (∀ b, run {} steps = .ok b → ∀ slot,
        shown slot {} steps = replies none (own slot steps) ∧
        (∀ t, Script.after none (own slot steps) = some t →
          ∃ x, (Session.new t.options).run t.calls = .ok x ∧ b.session? slot = some x) ∧
        (Script.after none (own slot steps) = none →
          b.session? slot = none ∧
            ∀ (s : Shape) (c : Call s), b.perform (.call slot c) = .ok (s.empty, b))) ∧
      ∀ v, run {} steps = .error v →
        ∃ (before : List AnyStep) (slot : Nat) (s : Shape) (c : Call s) (after : List AnyStep)
          (t : Script) (b : Boundary),
          steps = before ++ ⟨s, .call slot c⟩ :: after ∧ run {} before = .ok b ∧
          Script.after none (own slot before) = some t ∧
          t.options.violationPolicy = .abort ∧
          (Session.new t.options).run (t.calls ++ c.inside) = .error v ∧
          ∀ other, shown other {} steps = replies none (own other before) := by
  refine ⟨rfl, fun bytes => OuterText.read_eq, fun shown clean => ?_,
    fun b slot x y r q answer => perform_text, fun s r e => Request.mapText_eq_error_iff,
    fun s q => q.mapText_ok, fun text options => readOptions_eq_some_iff, fun steps => ⟨?_, ?_⟩⟩
  · have whole : '\x00' ∉ (String.ofList shown).toList := by simpa using clean
    exact ⟨cutAtNul_of_not_mem whole, cutAtNul_append clean⟩
  · intro b hb slot
    obtain ⟨same, follows⟩ := follows_of_run hb slot
    refine ⟨same, fun t script => ?_, fun script => ?_⟩
    · rw [script] at follows
      cases follows with
      | opened led held => exact ⟨_, led, held⟩
    · rw [script] at follows
      cases follows with
      | closed empty => exact ⟨empty, fun s c => perform_call_of_none empty c⟩
  · intro v hv
    obtain ⟨before, step, after, b, rfl, reached, ended⟩ := exists_end hv
    obtain ⟨slot, s, c, x, rfl, held, ends⟩ := eq_call_of_perform_error ended
    obtain ⟨t, script, led⟩ := (follows_of_run reached slot).2.exists_script held
    have endsAlone : x.run c.inside = .error v := Call.run_inside_error ends
    have abort : t.options.violationPolicy = .abort :=
      (Session.table_run led).2.2.symm.trans (Session.policy_of_run_error endsAlone)
    refine ⟨before, slot, s, c, after, t, b, rfl, reached, script, abort, ?_, fun other => ?_⟩
    · rw [Session.run_append_of_ok led, endsAlone]
    · rw [shown_append reached, (follows_of_run reached other).1]
      simp only [shown, ended, List.append_nil]

/-- A session on one slot is given texts, good and bad, while a session that aborts is opened on
another one, where a write beyond the end of an array then ends the process; a third slot stays
empty.  A string with a NUL in it, which a session can hold, goes out up to there. -/
theorem slots_are_sessions_up_to_abort :
    let abort : List UInt8 := [0x5b, 0x22, 0x61, 0x62, 0x6f, 0x72, 0x74, 0x22, 0x5d]
    let steps : List AnyStep :=
      [⟨_, .open 0⟩, ⟨_, .openWith 1 (some (abort ++ 0 :: [0x61]))⟩,
        ⟨_, .call 0 (.request (.newString (some [0x61, 0, 0x62])))⟩,
        ⟨_, .call 1 (.request (.newArray 1))⟩, ⟨_, .call 0 (.request (.newString none))⟩]
    let breach : AnyStep := ⟨_, .call 1 (.request (.setValue ⟨1⟩ 5 .null))⟩
    let holder : Session := ((Session.new {}).register [.scalar (.string "a\x00b")]).2
    0 ∉ abort ∧ OuterText.read (some (abort ++ 0 :: [0x61])) = .ok "[\"abort\"]" ∧
      '\x00' ∉ ['a'] ∧ cutAtNul (String.ofList (['a'] ++ '\x00' :: ['b'])) = String.ofList ['a'] ∧
      (put {} 0 holder).perform (.call 0 (.request (.asString ⟨1⟩))) =
        .ok (some "a", (put {} 0 holder).put 0 holder) ∧
      (∃ b, run {} steps = .ok b ∧
        shown 0 {} steps =
          [⟨.flag, true, none⟩, ⟨.handle, ⟨1⟩, none⟩,
            ⟨.handle, .null, some "invalid input: null string pointer"⟩] ∧
        b.perform (.call 2 (.request (.newInt 7))) = .ok (.null, b)) ∧
      run {} (steps ++ [breach]) = .error (.indexBeyondLength 5 1) ∧
      ∃ (t : Script) (more : List Session.AnyCall), t.options.violationPolicy = .abort ∧
        (Session.new t.options).run (t.calls ++ more) = .error (.indexBeyondLength 5 1) := by
  intro abort steps breach holder
  obtain ⟨_, reading, writing, sending, _, _, _, runs⟩ := slots_are_sessions
  have clean : 0 ∉ abort := by decide
  have given : readOptions (some (abort ++ 0 :: [0x61])) = some { violationPolicy := .abort } := by
    decide +kernel
  have reached : ∃ b, run {} steps = .ok b := by
    simp only [steps, run, perform, given]
    exact ⟨_, rfl⟩
  have ended : run {} (steps ++ [breach]) = .error (.indexBeyondLength 5 1) := by
    simp only [steps, breach, List.cons_append, List.nil_append, run, perform, given]
    rfl
  obtain ⟨b, reached⟩ := reached
  have goesOn := (runs steps).1
  have texts : shown 0 {} steps = replies none (own 0 steps) := (goesOn b reached 0).1
  have empty := ((goesOn b reached 2).2.2 rfl).2 .handle (.request (.newInt 7))
  obtain ⟨_, _, _, c, _, t, _, _, _, _, aborts, alone, _⟩ := (runs _).2 _ ended
  have cut := sending (put {} 0 holder) 0 holder holder (.asString ⟨1⟩) (.asString ⟨1⟩)
    (some "a\x00b") (session?_put_self ..) rfl rfl
  refine ⟨clean, ?_, by decide, (writing _ (by decide)).2 _, cut, ⟨b, reached, texts.trans ?_, empty⟩,
    ended, t, c.inside, aborts, alone⟩
  · rw [(reading _ clean).2]
    rfl
  · rfl

end Boundary

end TreeHandles
