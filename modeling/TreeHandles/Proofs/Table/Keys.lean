import TreeHandles.Proofs.Session.Run
import TreeHandles.Proofs.Table.Staging
import TreeHandles.Proofs.Table.Memory

/-!
# The keys in builders

A key comes into a builder only by an operation that binds it.  Documents, and nodes that a host makes,
have keys of any kind, but these never become keys of a builder.  So what holds of all keys that are
handed to a session holds of all keys in its builders.  In no builder does a key stand twice.

**Results.**
* `mem_keys_bind` and `mem_keys_stage`: the keys of a builder to which something was bound.
* `BuildersHave.after` and `BuildersHave.run`: what every change of a builder keeps, operations keep.
* `kept_nodup_keys`: that no key stands twice is such a property.
* `KeysHave.after`: an operation keeps a property of all keys in builders that its own key has.
* `keysHave_perform`: so does a call of a session.
-/

namespace TreeHandles

namespace Builder

variable {b c : Builder}

theorem keys_new (mode : BuilderMode) (size : Nat) : (new mode size).keys = [] := by
  cases mode <;> rfl

theorem keys_write {index : Nat} {n : Node} (written : b.write index n = .ok c) : c.keys = b.keys := by
  obtain ⟨slots, rfl, _, rfl⟩ := exists_of_write written
  rfl

theorem mem_keys_bind {key k : String} {n : Node} (bound : b.bind key n = .ok c) (inside : k ∈ c.keys) :
    k = key ∨ k ∈ b.keys := by
  obtain ⟨entries, rfl, rfl⟩ := exists_of_bind bound
  obtain ⟨e, he, rfl⟩ := List.mem_map.mp inside
  rcases Entries.mem_insert he with rfl | old
  · exact .inl rfl
  · exact .inr (List.mem_map_of_mem old)

theorem nodup_keys_bind {key : String} {n : Node} (nodup : b.keys.Nodup)
    (bound : b.bind key n = .ok c) : c.keys.Nodup := by
  obtain ⟨entries, rfl, rfl⟩ := exists_of_bind bound
  exact Entries.nodup_keys_insert nodup

/-- What was a key of an object under construction stays one. -/
theorem mem_keys_stage {k : String} (inside : k ∈ b.keys) (places : List (Nat × Node))
    (bindings : List (String × Node)) : k ∈ (b.stage places bindings).keys := by
  cases b with
  | array slots => cases inside
  | object entries =>
      rw [stage, keys, Entries.keys_foldl_insert]
      exact List.mem_append_left _ inside
  | built mode => cases inside

end Builder

namespace Table

/-- The key that an operation binds in a builder. -/
def Operation.key? : Operation → Option String
  | .bind _ key _ | .setKeyValue _ key _ => some key
  | _ => none

/-- All builders of a table have a property. -/
def BuildersHave (P : Builder → Prop) (t : Table) : Prop :=
  ∀ (h : Handle) (b : Builder), t.builders[h]? = some b → P b

/-- The keys of all builders of a table have a property. -/
def KeysHave (P : String → Prop) (t : Table) : Prop :=
  ∀ (h : Handle) (b : Builder), t.builders[h]? = some b → ∀ key ∈ b.keys, P key

/-- A property of builders that new ones have and that no change takes away, as long as the keys that are
bound have a property of their own. -/
structure Kept (K : String → Prop) (P : Builder → Prop) : Prop where
  opened : ∀ mode size, P (.new mode size)
  written : ∀ {b c index n}, P b → b.write index n = .ok c → P c
  bound : ∀ {b c key n}, K key → P b → b.bind key n = .ok c → P c
  finished : ∀ {b}, P b → P b.finished

namespace BuildersHave

variable {K : String → Prop} {P : Builder → Prop} {t u : Table} {h : Handle} {b : Builder}
  {op : Operation} {ops : List Operation}

theorem empty : BuildersHave P {} := by
  intro h b hb
  simp at hb

theorem of_builders (same : u.builders = t.builders) (all : BuildersHave P t) : BuildersHave P u := by
  intro h b hb
  rw [same] at hb
  exact all h b hb

theorem insert (all : BuildersHave P t) (new : P b) (same : u.builders = t.builders.insert h b) :
    BuildersHave P u := by
  intro k c hc
  rw [same, Handle.getElem?_insert] at hc
  split at hc
  · cases hc
    exact new
  · exact all k c hc

theorem modify {change : Builder → Node → Except Violation Builder} {child : Handle}
    (all : BuildersHave P t) (keeps : ∀ {b n c}, P b → change b n = .ok c → P c) :
    BuildersHave P (t.modify h child change).2 := by
  rcases t.modify_effect h child change with ⟨e, he⟩ | ⟨n, b, c, _, hb, hc, he⟩
  · rw [he]
    exact all
  · rw [he]
    exact all.insert (keeps (all h b (getElem?_of_builder? hb)) hc) rfl

theorem borrow {change : Builder → Except Violation Builder} (all : BuildersHave P t)
    (keeps : ∀ {b c}, P b → change b = .ok c → P c) : BuildersHave P (t.borrow h change).2 := by
  rcases t.borrow_cases h change with he | ⟨b, c, hb, hc, he⟩
  · rw [he]
    exact all
  · rw [he]
    exact all.insert (keeps (all h b (getElem?_of_builder? hb)) hc) rfl

/-- **What is kept by every change of a builder is kept by every operation.** -/
theorem after (kept : Kept K P) (all : BuildersHave P t) (given : ∀ key, op.key? = some key → K key) :
    BuildersHave P (t.after op) := by
  cases op with
  | allocate => exact all.of_builders rfl
  | register steps => exact all.of_builders (builders_register _ _)
  | registerNode n => exact all.of_builders (builders_register _ _)
  | registerDocument d => exact all.of_builders (builders_register _ _)
  | openBuilder mode size => exact all.insert (kept.opened mode size) rfl
  | write h index n => exact all.borrow kept.written
  | bind h key n => exact all.borrow (kept.bound (given key rfl))
  | finish h =>
      simp only [Table.after, apply]
      rcases t.finish_effect h with hf | ⟨b, n, hb, _, hf⟩
      · rw [hf]
        exact all
      · rw [hf]
        exact all.insert (kept.finished (all h b (getElem?_of_builder? hb))) rfl
  | valueAt h index =>
      simp only [Table.after, apply]
      rcases t.valueAt_cases h index with ⟨e, _, he⟩ | ⟨n, _, he⟩
      · rw [he]
        exact all
      · rw [he]
        exact all.of_builders (builders_register _ _)
  | setValue h index child => exact all.modify kept.written
  | setKeyValue h key child => exact all.modify (kept.bound (given key rfl))
  | build h =>
      simp only [Table.after, apply]
      rcases t.build_effect h with ⟨_, he⟩ | ⟨b, n, hb, _, _, he⟩
      · rw [he]
        exact all
      · rw [he]
        exact all.insert (kept.finished (all h b (getElem?_of_builder? hb))) rfl
  | free =>
      intro h b hb
      simp [Table.after, apply, Table.free] at hb

/-- What is kept by every change of a builder is kept by a run. -/
theorem run (kept : Kept (fun _ => True) P) (all : BuildersHave P t) : BuildersHave P (t.run ops) := by
  induction ops generalizing t with
  | nil => exact all
  | cons op rest ih => exact ih (all.after kept fun _ _ => trivial)

end BuildersHave

section Keeping

variable {P : String → Prop}

/-- What is true of each key of a builder is kept, if it is true of the keys that are bound. -/
theorem kept_keys (P : String → Prop) : Kept P fun b => ∀ key ∈ b.keys, P key := by
  refine ⟨fun mode size key inside => ?_, fun all written => ?_, fun given all bound k inside => ?_,
    fun _ _ inside => absurd inside List.not_mem_nil⟩
  · rw [Builder.keys_new] at inside
    cases inside
  · rw [Builder.keys_write written]
    exact all
  · rcases Builder.mem_keys_bind bound inside with rfl | old
    · exact given
    · exact all k old

/-- That no key stands twice is kept, whatever keys are bound. -/
theorem kept_nodup_keys : Kept (fun _ => True) fun b => b.keys.Nodup := by
  refine ⟨fun mode size => ?_, fun nodup written => ?_, fun _ nodup bound => ?_, fun _ => .nil⟩
  · rw [Builder.keys_new]
    exact .nil
  · rw [Builder.keys_write written]
    exact nodup
  · exact Builder.nodup_keys_bind nodup bound

namespace KeysHave

variable {t : Table} {op : Operation}

theorem empty : KeysHave P {} := BuildersHave.empty (P := fun b => ∀ key ∈ b.keys, P key)

/-- **A key comes into a builder only by being bound.** -/
theorem after (all : KeysHave P t) (given : ∀ key, op.key? = some key → P key) :
    KeysHave P (t.after op) :=
  BuildersHave.after (P := fun b => ∀ key ∈ b.keys, P key) (kept_keys P) all given

end KeysHave

end Keeping

end Table

variable {s : Shape}

/-- The key that a request binds in a builder. -/
def Request.key? {τ : Type} : Request τ s → Option τ
  | .setKeyValue _ key _ => some key
  | _ => none

theorem Request.key?_of_operation? {options : Options} {r : Request String s} {op : Table.Operation}
    (h : r.operation? options = some op) : op.key? = r.key? := by
  cases r with
  | loadJson source =>
      simp only [operation?] at h
      split at h <;> cases h
      rfl
  | newArray length =>
      simp only [operation?] at h
      split at h <;> cases h
      rfl
  | kind | asString | asInt | asUint | asFloat | asBool | size | keyAt | sameAs | toJson => cases h
  | _ =>
      cases h
      rfl

namespace Session

/-- The key that a call binds in a builder. -/
def Call.key? : Call s → Option String
  | .request r => r.key?
  | _ => none

theorem Call.key?_of_operation? {options : Options} {c : Call s} {op : Table.Operation}
    (h : c.operation? options = some op) : op.key? = c.key? := by
  cases c with
  | request r => exact r.key?_of_operation? h
  | register | free =>
      cases h
      rfl
  | report | clearError | hasError => cases h

/-- **What all keys in builders have, they have after a call that hands in such a key or none.** -/
theorem keysHave_perform {P : String → Prop} {x y : Session} {c : Call s} {a : s.Answer}
    (all : x.table.KeysHave P) (given : ∀ key, c.key? = some key → P key)
    (hc : x.perform c = .ok (a, y)) : y.table.KeysHave P := by
  have table := (perform_keeps hc).1
  cases hop : c.operation? x.options with
  | none =>
      rw [hop] at table
      exact table ▸ all
  | some op =>
      rw [hop] at table
      have same : y.table = x.table.after op := table
      rw [same]
      exact all.after fun key bound => given key (Call.key?_of_operation? hop ▸ bound)

end Session

end TreeHandles
