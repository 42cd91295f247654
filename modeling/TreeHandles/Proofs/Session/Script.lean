import TreeHandles.Proofs.Session.Renaming

/-!
# Scripts

A caller gets all its handles from the session: what it names in a call is the null handle, or what
an earlier call gave.  A script is a list of calls that are written down in this way, by the places of
the earlier calls, so that the same script can be played with different sessions, which issue other
handles for it.  An aside is a line that is played like the others, but its answer is neither seen nor
used.

**Results.**
* `Renamed.act`: sessions that are the same up to the names of handles perform an act alike.
* `play_append` and `allocations_append`: a script can be cut anywhere.
* `toNat_last_of_play`: the counter counts what a script allocates.
* `Scene.Renamed.play`: scenes that are the same up to the names of handles play a script alike, as
  long as the handles that their counters issue correspond.
-/

namespace TreeHandles
namespace Session

open Table (Fresh)

variable {ρ : Handle → Handle}

/-- What a caller does: it calls, takes out the node that a handle names, or has a node registered that
it got from anywhere, such as one that it took out before. -/
inductive Act where
  | call {s : Shape} (c : Call s)
  | node (h : Handle)
  | registerNode (n : Node)

/-- What a caller gets: the answer to a call, or a node. -/
inductive Reply where
  | answer (s : Shape) (a : s.Answer)
  | node (n : Option Node)

/-- What is seen of a line: the reply with the last error after it, or the breach of the contract that
ended the process. -/
inductive Event where
  | reply (r : Reply) (last : Option Error)
  | ended (v : Violation)

/-- The handle that a reply gives; null if it gives none. -/
def Reply.handle : Reply → Handle
  | answer .handle h => h
  | _ => .null

/-- A reply under other names of handles. -/
def Reply.rename (ρ : Handle → Handle) : Reply → Reply
  | answer s a => answer s (s.rename ρ a)
  | node n => node n

/-- What is seen under other names of handles. -/
def Event.rename (ρ : Handle → Handle) : Event → Event
  | reply r last => reply (r.rename ρ) (last.map (Error.rename ρ))
  | ended v => ended (v.rename ρ)

namespace Act

/-- An act under other names of handles. -/
def mapHandles (ρ : Handle → Handle) : Act → Act
  | call c => call (c.mapHandles ρ)
  | node h => node (ρ h)
  | registerNode n => registerNode n

/-- What an act gives, and the session after it. -/
def perform (x : Session) : Act → Except Violation (Reply × Session)
  | call c => (x.perform c).map fun result => (.answer _ result.1, result.2)
  | node h => .ok (.node (x.node? h), x)
  | registerNode n =>
      let registered := x.table.register n
      .ok (.answer .handle registered.1, { x with table := registered.2 })

end Act

/-- One line of a script.  In place of each handle there is one that stands for it, and a source for
what it stands for: the handle that an earlier line gave, by the place of the line, or else null. -/
structure Line where
  act : Act
  source : Handle → Option Nat := fun _ => none
  aside : Bool := false

/-- The act of a line, after earlier lines gave certain handles. -/
def Line.resolve (l : Line) (given : List Handle) : Act :=
  l.act.mapHandles fun h => ((l.source h).bind fun place => given[place]?).getD .null

section Renaming

theorem Reply.handle_rename (null : ρ .null = .null) (r : Reply) :
    (r.rename ρ).handle = ρ r.handle := by
  cases r with
  | answer s a =>
      cases s with
      | handle => rfl
      | nothing | flag | text | int | uint | float | size | kind => exact null.symm
  | node n => exact null.symm

theorem Act.mapHandles_mapHandles (ρ π : Handle → Handle) (a : Act) :
    (a.mapHandles π).mapHandles ρ = a.mapHandles fun h => ρ (π h) := by
  cases a with
  | call c => exact congrArg call (c.mapHandles_mapHandles ρ π)
  | node | registerNode => rfl

/-- A line stands for the renamed act where the given handles are renamed. -/
theorem Line.resolve_rename (null : ρ .null = .null) (l : Line) (given : List Handle) :
    l.resolve (given.map ρ) = (l.resolve given).mapHandles ρ := by
  rw [Line.resolve, Line.resolve, Act.mapHandles_mapHandles]
  congr 1
  funext h
  cases l.source h with
  | none => exact null.symm
  | some place =>
      simp only [Option.bind_some, List.getElem?_map]
      cases given[place]? with
      | none => exact null.symm
      | some k => rfl

theorem Renamed.act {x y : Session} (renamed : Renamed ρ x y) (a : Act)
    (fresh : ∀ r z, a.perform x = .ok (r, z) → z.table.last ≠ x.table.last →
      Fresh ρ x.table.last y.table.last) :
    Agree ρ (Reply.rename ρ) x.table.last y.table.last (a.perform x)
      ((a.mapHandles ρ).perform y) := by
  cases a with
  | node h =>
      have same : y.node? (ρ h) = x.node? h := renamed.table.node h
      have given : Agree ρ (Reply.rename ρ) x.table.last y.table.last
          (.ok (.node (x.node? h), x)) (.ok ((Reply.node (x.node? h)).rename ρ, y)) :=
        .answered renamed (.inl ⟨rfl, rfl⟩)
      rw [Act.mapHandles, Act.perform, Act.perform, same]
      exact given
  | registerNode n =>
      have same := Table.Corresponds.register renamed.table n (fresh _ _ rfl)
      have answer : (y.table.register n).1 = ρ (x.table.register n).1 := Except.ok.inj same.answer
      have given : Agree ρ (Reply.rename ρ) x.table.last y.table.last
          (.ok (.answer .handle (x.table.register n).1,
            { x with table := (x.table.register n).2 }))
          (.ok ((Reply.answer .handle (x.table.register n).1).rename ρ,
            { y with table := (y.table.register n).2 })) :=
        .answered (renamed.withTable same.renamed) same.counters
      rw [Reply.rename, Shape.rename, ← answer] at given
      exact given
  | @call s c =>
      have agree := renamed.perform c fun a z performed moved =>
        fresh (.answer s a) z (by rw [Act.perform, performed]; rfl) moved
      rw [Act.mapHandles, Act.perform, Act.perform]
      exact agree.map (Reply.answer s) fun a => rfl

end Renaming

/-- A session, with the handles that earlier lines gave. -/
structure Scene where
  session : Session
  given : List Handle := []

namespace Scene

/-- The scene before a script. -/
def start (options : Options) : Scene := { session := .new options }

/-- The counter of the handles that were issued. -/
def last (w : Scene) : Handle := w.session.table.last

/-- The scene after a line, with what it gave and the session after it. -/
def after (w : Scene) (l : Line) (r : Reply) (y : Session) : Scene :=
  ⟨y, if l.aside then w.given else w.given ++ [r.handle]⟩

/-- What is seen of a line. -/
def seen (l : Line) (r : Reply) (y : Session) : List Event :=
  if l.aside then [] else [.reply r y.lastError]

/-- What is seen of a script, and the scene after it, unless a line ends the process. -/
def play (w : Scene) : List Line → List Event × Option Scene
  | [] => ([], some w)
  | l :: rest =>
      match (l.resolve w.given).perform w.session with
      | .error v => ([.ended v], none)
      | .ok (r, y) =>
          let later := (w.after l r y).play rest
          (seen l r y ++ later.1, later.2)

/-- The number of handles that a script allocates. -/
def allocations (w : Scene) : List Line → Nat
  | [] => 0
  | l :: rest =>
      match (l.resolve w.given).perform w.session with
      | .error _ => 0
      | .ok (r, y) => Table.draws w.session.table y.table + (w.after l r y).allocations rest

variable {w v : Scene} {l : Line} {lines more : List Line}

section Cutting

theorem play_append :
    w.play (lines ++ more) =
      match (w.play lines).2 with
      | none => ((w.play lines).1, none)
      | some v => ((w.play lines).1 ++ (v.play more).1, (v.play more).2) := by
  induction lines generalizing w with
  | nil => rfl
  | cons l rest ih =>
      rw [List.cons_append, play, play]
      split
      · rfl
      · next r y _ =>
          simp only [ih]
          cases ((w.after l r y).play rest).2 <;> simp

theorem allocations_append :
    w.allocations (lines ++ more) =
      w.allocations lines + ((w.play lines).2.map fun v => v.allocations more).getD 0 := by
  induction lines generalizing w with
  | nil => simp [allocations, play]
  | cons l rest ih =>
      rw [List.cons_append, allocations, allocations, play]
      split
      · rfl
      · simp only [ih, Nat.add_assoc]

end Cutting

section Counting

variable {x y : Session} {r : Reply}

/-- What an act does to a table is an operation, or nothing. -/
theorem exists_operation {a : Act} (h : a.perform x = .ok (r, y)) :
    y.table = x.table ∨ ∃ op, y.table = x.table.after op := by
  cases a with
  | node k =>
      cases h
      exact .inl rfl
  | registerNode n =>
      cases h
      exact .inr ⟨.registerNode n, rfl⟩
  | call c =>
      obtain ⟨result, performed, same⟩ := exists_of_map_eq_ok h
      cases same
      have table := (perform_keeps performed).1
      cases op : c.operation? x.options with
      | none => exact .inl (by rw [table, op]; rfl)
      | some op' => exact .inr ⟨op', by rw [table, op]; rfl⟩

theorem toNat_last_of_perform {a : Act} (h : a.perform x = .ok (r, y))
    (room : x.table.last.raw.toNat + Table.draws x.table y.table < UInt64.size) :
    y.table.last.raw.toNat = x.table.last.raw.toNat + Table.draws x.table y.table := by
  rcases exists_operation h with same | ⟨op, same⟩
  · rw [same]
    simp [Table.draws]
  · rw [same] at room ⊢
    exact x.table.toNat_last_after op room

/-- **The counter counts what a script allocates.** -/
theorem toNat_last_of_play (h : (w.play lines).2 = some v)
    (room : w.last.raw.toNat + w.allocations lines < UInt64.size) :
    v.last.raw.toNat = w.last.raw.toNat + w.allocations lines := by
  induction lines generalizing w with
  | nil =>
      cases h
      rfl
  | cons l rest ih =>
      rw [play] at h
      rw [allocations] at room ⊢
      split at h
      · cases h
      · next r y performed =>
          simp only [performed] at room ⊢
          have few : w.last.raw.toNat + Table.draws w.session.table y.table < UInt64.size := by
            omega
          have step : (w.after l r y).last.raw.toNat = w.last.raw.toNat +
              Table.draws w.session.table y.table := toNat_last_of_perform performed few
          rw [ih h (by omega), step, Nat.add_assoc]

end Counting

section Renaming

/-- The first scene is the second up to the names of handles. -/
structure Renamed (ρ : Handle → Handle) (w v : Scene) : Prop where
  session : Session.Renamed ρ w.session v.session
  given : v.given = w.given.map ρ

/-- As many handles as given that two counters issue next correspond. -/
def Abreast (ρ : Handle → Handle) : Handle → Handle → Nat → Prop
  | _, _, 0 => True
  | last, last', count + 1 => Fresh ρ last last' ∧ Abreast ρ last.next last'.next count

theorem Renamed.after (renamed : Renamed ρ w v) (l : Line) (r : Reply) {x y : Session}
    (kept : Session.Renamed ρ x y) : Renamed ρ (w.after l r x) (v.after l (r.rename ρ) y) := by
  refine ⟨kept, ?_⟩
  rw [Scene.after, Scene.after, renamed.given, Reply.handle_rename kept.table.rename_null]
  cases l.aside <;> simp

theorem seen_rename {x y : Session} (kept : Session.Renamed ρ x y) (l : Line) (r : Reply) :
    seen l (r.rename ρ) y = (seen l r x).map (Event.rename ρ) := by
  rw [seen, seen, lastError, lastError, kept.last]
  cases l.aside <;> rfl

/-- After a line, the handles that are still to be issued correspond. -/
theorem abreast_after {x y : Session} {r r' : Reply} {count : Nat}
    (counters : x.table.last = w.last ∧ y.table.last = v.last ∨
      x.table.last = w.last.next ∧ y.table.last = v.last.next)
    (abreast : Abreast ρ w.last v.last (Table.draws w.session.table x.table + count)) :
    Abreast ρ (w.after l r x).last (v.after l r' y).last count := by
  show Abreast ρ x.table.last y.table.last count
  rcases counters with ⟨hx, hy⟩ | ⟨hx, hy⟩
  · have none : Table.draws w.session.table x.table = 0 := if_pos hx
    rw [none, Nat.zero_add] at abreast
    rwa [hx, hy]
  · have one : Table.draws w.session.table x.table = 1 := if_neg (hx ▸ Handle.next_ne _)
    rw [one, Nat.add_comm] at abreast
    rw [hx, hy]
    exact abreast.2

/-- **Scenes that are the same up to the names of handles play a script alike.** -/
theorem Renamed.play (renamed : Renamed ρ w v)
    (abreast : Abreast ρ w.last v.last (w.allocations lines)) :
    (v.play lines).1 = (w.play lines).1.map (Event.rename ρ) ∧
      ∀ w', (w.play lines).2 = some w' → ∃ v', (v.play lines).2 = some v' ∧ Renamed ρ w' v' := by
  induction lines generalizing w v with
  | nil =>
      refine ⟨rfl, fun w' same => ?_⟩
      cases same
      exact ⟨v, rfl, renamed⟩
  | cons l rest ih =>
      have null := renamed.session.table.rename_null
      have fresh : ∀ r z, (l.resolve w.given).perform w.session = .ok (r, z) →
          z.table.last ≠ w.session.table.last →
            Fresh ρ w.session.table.last v.session.table.last := by
        intro r z performed moved
        rw [allocations, performed] at abreast
        simp only [Table.draws, if_neg moved, Nat.add_comm 1] at abreast
        exact abreast.1
      have agree := renamed.session.act (l.resolve w.given) fresh
      rw [← Line.resolve_rename null, ← renamed.given] at agree
      rw [allocations] at abreast
      rw [Scene.play, Scene.play]
      clear fresh
      generalize (l.resolve w.given).perform w.session = o at agree abreast ⊢
      generalize (l.resolve v.given).perform v.session = p at agree ⊢
      cases agree with
      | ended b =>
          refine ⟨rfl, fun w' same => ?_⟩
          cases same
      | @answered r x y kept counters =>
          obtain ⟨events, ends⟩ := ih (renamed.after l r kept)
            (abreast_after counters abreast)
          refine ⟨?_, ends⟩
          simp only [events, List.map_append, seen_rename kept]

end Renaming

end Scene

end Session

end TreeHandles
