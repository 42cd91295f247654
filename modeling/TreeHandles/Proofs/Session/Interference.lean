import TreeHandles.Proofs.Session.Script

/-!
# Reads in between

A read that records no error leaves a session as it is, except that reading a child issues a handle
for it.  All handles that are issued afterwards are then one greater than they would have been, and
nothing else is different.  So whoever adds a read to a script, and does not use its answer, finds
every answer and every last error unchanged, up to a renaming of handles that keeps their order.

**Results.**
* `Act.effect_of_read`: a read that records no error registers a node, or does nothing.
* `Handle.shift`: the renaming that makes room for one handle.
* `Table.Renamed.insertion`: a table and the same table with one more node are the same up to it.
* `read_does_not_interfere`: adding a read to a script.
-/

namespace TreeHandles

open Table (Fresh)

namespace Handle

/-- Makes room for one handle after another: later handles move to the next number, except the
greatest one, which has none. -/
def shift (limit h : Handle) : Handle := if h ≤ limit ∨ h.next = .null then h else h.next

variable {limit h k : Handle}

theorem toNat_shift (limit h : Handle) :
    (shift limit h).raw.toNat =
      if h.raw.toNat ≤ limit.raw.toNat ∨ h.raw.toNat + 1 = UInt64.size then h.raw.toNat
      else h.raw.toNat + 1 := by
  have bound := h.raw.toNat_lt
  have last : h.next = .null ↔ h.raw.toNat + 1 = UInt64.size := by
    have zero : null.raw.toNat = 0 := rfl
    rw [ext_iff_toNat, toNat_next, zero, UInt64.size]
    omega
  simp only [shift, le_iff, last]
  split
  · rfl
  · next inside =>
      rw [toNat_next, Nat.mod_eq_of_lt]
      rw [UInt64.size] at inside ⊢
      omega

theorem isNull_shift (limit h : Handle) : (shift limit h).isNull = h.isNull := by
  have zero : null.raw.toNat = 0 := rfl
  have same : shift limit h = null ↔ h = null := by
    rw [ext_iff_toNat, ext_iff_toNat, toNat_shift, zero]
    split <;> omega
  rw [isNull, isNull, Bool.eq_iff_iff, beq_iff_eq, beq_iff_eq, same]

/-- The shift keeps the order of all handles but the greatest one. -/
theorem shift_lt_shift (less : h < k) (bound : k.raw.toNat < UInt64.size - 1) :
    shift limit h < shift limit k := by
  rw [lt_iff] at less ⊢
  rw [toNat_shift, toNat_shift]
  split <;> split <;> omega

theorem separated_shift (present : k ≠ .null) (bound : k.raw.toNat < UInt64.size - 2) :
    k.Separated (shift limit) := by
  refine ⟨present, fun j same => ?_⟩
  rw [ext_iff_toNat, toNat_shift, toNat_shift] at same
  rw [ext_iff_toNat]
  split at same <;> split at same <;> omega

/-- No handle is moved to the place that is made. -/
theorem shift_ne_next (bound : limit.raw.toNat < UInt64.size - 2) (h : Handle) :
    shift limit h ≠ limit.next := by
  have size : UInt64.size = 18446744073709551616 := rfl
  rw [Ne, ext_iff_toNat, toNat_shift, toNat_next, Nat.mod_eq_of_lt (by omega)]
  split <;> omega

/-- Up to the limit the shift leaves handles alone. -/
theorem shift_of_le (le : h ≤ limit) : shift limit h = h := if_pos (.inl le)

theorem shift_of_lt (less : limit < h) (bound : h.raw.toNat < UInt64.size - 1) :
    shift limit h = h.next := by
  have size : UInt64.size = 18446744073709551616 := rfl
  rw [lt_iff] at less
  rw [ext_iff_toNat, toNat_shift, toNat_next, Nat.mod_eq_of_lt (by omega), if_neg (by omega)]

end Handle

/-- A table and the same table with one more node are the same, up to a renaming that makes room. -/
theorem Table.Renamed.insertion {ρ : Handle → Handle} {t : Table} (same : Table.Renamed ρ t t)
    (room : t.last.next ≠ .null) (apart : ∀ h, ρ h ≠ t.last.next) {n : Node}
    (present : n.isNull = false) : Table.Renamed ρ t (t.register n).2 := by
  have registered : (t.register n).2 =
      { t with last := t.last.next, nodes := t.nodes.insert t.last.next n } := by
    simp [register, present]
  refine ⟨same.null, ?_, fun h => ?_, fun h => ?_, same.separated⟩
  · rw [registered]
  · rw [node?_register present room, if_neg (apart h), same.node]
  · rw [registered]
    exact same.builder h

/-- Whether a request only reads. -/
def Request.isRead {τ : Type} {s : Shape} : Request τ s → Bool
  | kind _ | asString _ | asInt _ | asUint _ | asFloat _ | asBool _ | size _ | keyAt .. | valueAt ..
  | sameAs .. | toJson _ => true
  | _ => false

namespace Session

variable {s : Shape} {x y : Session} {r : Reply} {ρ : Handle → Handle}

section Reads

/-- Whether an act only reads. -/
def Act.isRead : Act → Bool
  | call (.request r) => r.isRead
  | node _ => true
  | _ => false

theorem Act.isRead_mapHandles (ρ : Handle → Handle) (a : Act) :
    (a.mapHandles ρ).isRead = a.isRead := by
  cases a with
  | node | registerNode => rfl
  | call c =>
      cases c with
      | request q => cases q <;> rfl
      | register | free | report | clearError | hasError => rfl

theorem table_of_read {q : Request String s} (read : q.isRead = true) {a : s.Answer}
    (done : (q.answer x.options x.table).1 = .ok a) :
    (q.answer x.options x.table).2 = x.table ∨
      ∃ n : Node, n.isNull = false ∧ (q.answer x.options x.table).2 = (x.table.register n).2 := by
  cases q with
  | valueAt h index =>
      rcases x.table.valueAt_cases h index with ⟨e, _, failed⟩ | ⟨n, _, given⟩
      · exact .inl (congrArg Prod.snd failed)
      · cases null : n.isNull with
        | true =>
            refine .inl ((congrArg Prod.snd given).trans ?_)
            simp [Table.done, Table.register, null]
        | false => exact .inr ⟨n, null, congrArg Prod.snd given⟩
  | kind | asString | asInt | asUint | asFloat | asBool | size | keyAt | sameAs | toJson =>
      exact .inl rfl
  | loadJson | newObject | newArray | newString | newInt | newUint | newFloat | newBool | setValue
  | setKeyValue | build => cases read

/-- **A read that records no error registers a node, or does nothing.** -/
theorem Act.effect_of_read {a : Act} (read : a.isRead = true) (performed : a.perform x = .ok (r, y))
    (quiet : y.errors = x.errors) :
    y = x ∨ ∃ n : Node, n.isNull = false ∧ y = { x with table := (x.table.register n).2 } := by
  cases a with
  | node h =>
      cases performed
      exact .inl rfl
  | registerNode n => cases read
  | call c =>
      obtain ⟨⟨a, z⟩, given, same⟩ := exists_of_map_eq_ok performed
      cases same
      cases c with
      | request q =>
          rcases request_cases q given with ⟨done, rfl⟩ | ⟨_, _, rfl⟩ | ⟨e, _, _, _, rfl⟩
          · rcases table_of_read read done with same | ⟨n, present, same⟩
            · exact .inl (by rw [same])
            · exact .inr ⟨n, present, by rw [same]⟩
          · exact .inl rfl
          · exact .inl (congrArg (fun errors => { x with errors }) quiet)
      | register | free | report | clearError | hasError => cases read

end Reads

section Identity

theorem Event.rename_id (e : Event) : e.rename (fun h => h) = e := by
  have violation (v : Violation) : v.rename (fun h => h) = v := by cases v <;> rfl
  have error (e : Error) : e.rename (fun h => h) = e := by
    cases e with
    | contractViolation v => rw [Error.rename, violation]
    | _ => rfl
  cases e with
  | ended v => rw [rename, violation]
  | reply r last =>
      have same : r.rename (fun h => h) = r := by
        cases r with
        | answer s a => cases s <;> rfl
        | node n => rfl
      cases last with
      | none => rw [rename, same]; rfl
      | some e => rw [rename, same, Option.map_some, error]

theorem map_rename_id (events : List Event) :
    events.map (Event.rename fun h => h) = events := by
  rw [List.map_congr_left fun e _ => Event.rename_id e, List.map_id']

end Identity

namespace Scene

variable {limit last : Handle} {count : Nat} {w v : Scene} {lines : List Line}

/-- Below the limit of a shift a counter is abreast of itself. -/
theorem abreast_below (bound : limit.raw.toNat < UInt64.size - 2)
    (below : last.raw.toNat + count ≤ limit.raw.toNat) :
    Abreast (Handle.shift limit) last last count := by
  have size : UInt64.size = 18446744073709551616 := rfl
  induction count generalizing last with
  | zero => trivial
  | succ count ih =>
      have room : last ≤ last.next := Handle.le_next_of_room (by omega)
      have next := Handle.toNat_next_of_le room
      have less := Handle.lt_next_of_le room
      have le : last.next ≤ limit := by
        rw [Handle.le_iff]
        omega
      exact ⟨⟨(Handle.shift_of_le le).symm,
        Handle.separated_shift (Handle.ne_null_of_lt less) (by omega)⟩, ih (by omega)⟩

/-- Beyond the limit of a shift a counter is abreast of the one that is one ahead. -/
theorem abreast_beyond (beyond : limit ≤ last)
    (few : last.raw.toNat + count < UInt64.size - 2) :
    Abreast (Handle.shift limit) last last.next count := by
  have size : UInt64.size = 18446744073709551616 := rfl
  induction count generalizing last with
  | zero => trivial
  | succ count ih =>
      have room : last ≤ last.next := Handle.le_next_of_room (by omega)
      have next := Handle.toNat_next_of_le room
      have less := Handle.lt_next_of_le room
      have later : limit < last.next := Nat.lt_of_le_of_lt beyond less
      exact ⟨⟨(Handle.shift_of_lt later (by omega)).symm,
        Handle.separated_shift (Handle.ne_null_of_lt less) (by omega)⟩,
        ih (Nat.le_of_lt later) (by omega)⟩

/-- The scene before a script is the same as itself up to any names of handles. -/
theorem renamed_start (null : ∀ h, (ρ h).isNull = h.isNull) (options : Options) :
    Renamed ρ (start options) (start options) := by
  have noNode (h : Handle) : ({} : Table).node? h = none := by simp [Table.node?]
  have noBuilder (h : Handle) : ({} : Table).builder? h = none := by simp [Table.builder?]
  refine ⟨⟨rfl, rfl, rfl, null, rfl, fun h => ?_, fun h => ?_, fun h b found => ?_⟩, rfl⟩
  · exact (noNode _).trans (noNode h).symm
  · exact (noBuilder _).trans (noBuilder h).symm
  · cases (noBuilder h).symm.trans found

/-- A node is registered between two parts of a script: what is seen of them is the same up to the
shift by one handle. -/
theorem play_insertion {options : Options} {before after : List Line} {n : Node}
    (few : (start options).allocations (before ++ after) < UInt64.size - 2)
    (reached : ((start options).play before).2 = some w) (present : n.isNull = false) :
    ((start options).play before).1 =
        ((start options).play before).1.map (Event.rename (.shift w.last)) ∧
      (Scene.play ⟨{ w.session with table := (w.session.table.register n).2 }, w.given⟩ after).1 =
        (w.play after).1.map (Event.rename (.shift w.last)) := by
  have size : UInt64.size = 18446744073709551616 := rfl
  have zero : (start options).last.raw.toNat = 0 := rfl
  rw [allocations_append, reached, Option.map_some, Option.getD_some] at few
  have counted := toNat_last_of_play reached (by omega)
  have bound : w.last.raw.toNat < UInt64.size - 2 := by omega
  have null : ∀ h, (Handle.shift w.last h).isNull = h.isNull := Handle.isNull_shift w.last
  obtain ⟨first, ends⟩ := @Renamed.play (.shift w.last) (start options) (start options) before
    (renamed_start null options) (abreast_below bound (by omega))
  refine ⟨first, ?_⟩
  -- The first part ends in one scene only, which is therefore the same as itself up to the shift.
  obtain ⟨w', ended, same⟩ := ends w reached
  cases reached.symm.trans ended
  have room : w.last.next ≠ .null :=
    Handle.ne_null_of_lt (Handle.lt_next_of_le (Handle.le_next_of_room (by omega)))
  have registered : (w.session.table.register n).2.last = w.last.next := by
    simp [Table.register, present, last]
  have inserted : Renamed (.shift w.last) w
      ⟨{ w.session with table := (w.session.table.register n).2 }, w.given⟩ :=
    ⟨⟨rfl, rfl, same.session.last,
      same.session.table.insertion room (Handle.shift_ne_next bound) present⟩, same.given⟩
  refine (inserted.play ?_).1
  show Abreast _ w.last (w.session.table.register n).2.last _
  rw [registered]
  exact abreast_beyond (Nat.le_refl _) (by omega)

end Scene

/-- **Adding a read to a script does not interfere with it.**  Whatever a script does with a new session
while there are handles left, and wherever a read is added that records no error and of which nobody
uses the answer: some renaming of handles, which fixes the null handle and keeps the order of all that
can be issued, takes everything that is seen of the script alone to what is seen of it with the read. -/
theorem read_does_not_interfere (options : Options) (before after : List Line) (read : Line)
    (isRead : read.act.isRead = true) (unused : read.aside = true)
    (quiet : ∀ w, ((Scene.start options).play before).2 = some w →
      ∃ r y, (read.resolve w.given).perform w.session = .ok (r, y) ∧
        y.errors = w.session.errors)
    (few : (Scene.start options).allocations (before ++ after) < UInt64.size - 2) :
    ∃ ρ : Handle → Handle, ρ .null = .null ∧
      (∀ a b : Handle, a < b → b.raw.toNat < UInt64.size - 1 → ρ a < ρ b) ∧
      ((Scene.start options).play (before ++ read :: after)).1 =
        ((Scene.start options).play (before ++ after)).1.map (Event.rename ρ) := by
  rw [Scene.play_append, Scene.play_append]
  cases reached : ((Scene.start options).play before).2 with
  | none => exact ⟨fun h => h, rfl, fun _ _ less _ => less, (map_rename_id _).symm⟩
  | some w =>
      obtain ⟨r, y, performed, quiet⟩ := quiet w reached
      have reading : (read.resolve w.given).isRead = true := by
        rw [Line.resolve, Act.isRead_mapHandles, isRead]
      have played : (w.play (read :: after)).1 = (Scene.play ⟨y, w.given⟩ after).1 := by
        rw [Scene.play, performed]
        simp [Scene.seen, Scene.after, unused]
      rcases Act.effect_of_read reading performed quiet with rfl | ⟨n, present, rfl⟩
      · refine ⟨fun h => h, rfl, fun _ _ less _ => less, ?_⟩
        simp only [played, map_rename_id]
      · obtain ⟨first, second⟩ := Scene.play_insertion few reached present
        refine ⟨.shift w.last, Handle.shift_of_le (Nat.zero_le _),
          fun a b => Handle.shift_lt_shift, ?_⟩
        simp only [played, second, List.map_append]
        rw [← first]

/-- A script that builds an array of one text. -/
def building : List Line :=
  [⟨.call (.request (.newArray 1)), fun _ => none, false⟩,
    ⟨.call (.request (.newString "a")), fun _ => none, false⟩,
    ⟨.call (.request (.setValue ⟨0⟩ 0 ⟨1⟩)), fun h => some h.raw.toNat, false⟩,
    ⟨.call (.request (.build ⟨0⟩)), fun _ => some 0, false⟩]

/-- The aside that reads the element of the array. -/
def peeking : Line := ⟨.call (.request (.valueAt ⟨0⟩ 0)), fun _ => some 3, true⟩

/-- A script that makes an integer, and takes it for a builder. -/
def mistaking : List Line :=
  [⟨.call (.request (.newInt 7)), fun _ => none, false⟩,
    ⟨.call (.request (.setValue ⟨0⟩ 0 ⟨0⟩)), fun _ => some 4, false⟩]

/-- Where the element of the array is read in between, the handle of the integer moves to the next
number, also in the breach of the contract that names it. -/
theorem read_does_not_interfere_with_later_breach :
    ∃ ρ : Handle → Handle, ρ ⟨3⟩ = ⟨3⟩ ∧ ρ ⟨4⟩ = ⟨5⟩ ∧
      ((Scene.start {}).play (building ++ peeking :: mistaking)).1 =
        ((Scene.start {}).play (building ++ mistaking)).1.map (Event.rename ρ) := by
  obtain ⟨ρ, _, _, same⟩ := read_does_not_interfere {} building mistaking peeking rfl rfl
    (fun w reached => by cases reached; exact ⟨_, _, rfl, rfl⟩) (by decide)
  have alone : ((Scene.start {}).play (building ++ mistaking)).1 =
      [.reply (.answer .handle ⟨1⟩) none, .reply (.answer .handle ⟨2⟩) none,
        .reply (.answer .nothing ()) none, .reply (.answer .handle ⟨3⟩) none,
        .reply (.answer .handle ⟨4⟩) none,
        .reply (.answer .nothing ()) (some (.contractViolation (.notTemporary ⟨4⟩)))] := rfl
  have together : ((Scene.start {}).play (building ++ peeking :: mistaking)).1 =
      [.reply (.answer .handle ⟨1⟩) none, .reply (.answer .handle ⟨2⟩) none,
        .reply (.answer .nothing ()) none, .reply (.answer .handle ⟨3⟩) none,
        .reply (.answer .handle ⟨5⟩) none,
        .reply (.answer .nothing ()) (some (.contractViolation (.notTemporary ⟨5⟩)))] := rfl
  have handles := together.symm.trans (same.trans (congrArg (List.map (Event.rename ρ)) alone))
  simp only [List.map_cons, Event.rename, Reply.rename, Shape.rename, List.cons.injEq,
    Event.reply.injEq, Reply.answer.injEq, heq_eq_eq, true_and] at handles
  exact ⟨ρ, handles.2.2.2.1.1.symm, handles.2.2.2.2.1.1.symm, same⟩

end Session

end TreeHandles
