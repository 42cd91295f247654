import TreeHandles.Proofs.Json.Ensures
import TreeHandles.Proofs.Node.Memory
import TreeHandles.Proofs.Session.Run
import TreeHandles.Proofs.View

/-!
# The memory behind a table

Behind a table there is one memory.  It holds every node that a handle names and every part of a
builder.  An operation whose nodes come from the table, from scalars or from documents only adds to
it, and all that a session does are such operations.

**Results.**
* `Stored.after` and `Stored.run`: sourced operations keep a table stored, in a longer memory.
* `Session.sourced_of_operation?`: the operations of sessions are sourced.
* `Session.exists_stored`: one memory holds all nodes of a session that is reached, and
  `Session.exists_held_assemble`: so it is with all nodes that a host makes there.
-/

namespace TreeHandles

open TreeHandles.Tree

namespace Builder

/-- The nodes that a builder was given, null places included. -/
def parts : Builder → List Node
  | object entries => entries.map Prod.snd
  | array slots => slots
  | built _ => []

/-- The keys that an object under construction has. -/
def keys : Builder → List String
  | object entries => Entries.keys entries
  | _ => []

/-- What a builder was given is held by a memory, and no key stands twice. -/
structure Held (memory : List Node) (b : Builder) : Prop where
  part : ∀ n ∈ b.parts, Node.Held memory n
  distinct : b.keys.Nodup

variable {memory : List Node} {b c : Builder} {n : Node}

theorem Held.of_append (held : b.Held memory) (more : List Node) : b.Held (memory ++ more) :=
  ⟨fun n hn => (held.part n hn).of_append more, held.distinct⟩

theorem held_new (memory : List Node) (mode : BuilderMode) (size : Nat) :
    (new mode size).Held memory := by
  cases mode with
  | object => exact ⟨fun _ hn => absurd hn List.not_mem_nil, .nil⟩
  | array =>
      refine ⟨fun n hn => ?_, .nil⟩
      rw [(List.mem_replicate.mp hn).2]
      exact Node.held_leaf memory .null

theorem held_write {index : Nat} (held : b.Held memory) (now : Node.Held memory n)
    (written : b.write index n = .ok c) : c.Held memory := by
  obtain ⟨slots, rfl, _, rfl⟩ := exists_of_write written
  refine ⟨fun m hm => ?_, .nil⟩
  rcases List.mem_or_eq_of_mem_set hm with old | rfl
  · exact held.part m old
  · exact now

theorem held_bind {key : String} (held : b.Held memory) (now : Node.Held memory n)
    (bound : b.bind key n = .ok c) : c.Held memory := by
  obtain ⟨entries, rfl, rfl⟩ := exists_of_bind bound
  refine ⟨fun m hm => ?_, Entries.nodup_keys_insert held.distinct⟩
  obtain ⟨e, he, rfl⟩ := List.mem_map.mp hm
  rcases Entries.mem_insert he with rfl | old
  · exact now
  · exact held.part _ (List.mem_map_of_mem old)

theorem held_finished (memory : List Node) (b : Builder) : b.finished.Held memory :=
  ⟨fun _ hn => absurd hn List.not_mem_nil, .nil⟩

/-- What a builder makes of what it was given. -/
theorem shape_of_finish? {supply : Allocation} (made : b.finish? supply = some n) :
    n.label? = some supply ∧ n.children = b.parts ∧ n.keys = b.keys := by
  cases b with
  | array slots =>
      cases made
      exact ⟨rfl, rfl, rfl⟩
  | object entries =>
      cases made
      exact ⟨rfl, rfl, rfl⟩
  | built mode => cases made

end Builder

namespace Table

/-- An operation whose nodes come from the table, from scalars, or from documents in which no key
stands twice. -/
def Operation.Sourced : Operation → Prop
  | .registerNode n => n.isComposite = false
  | .registerDocument d => d.DistinctKeys
  | .write .. | .bind .. => False
  | _ => True

/-- All that a table has is held by a memory of which the supply of the table is next. -/
structure Stored (memory : List Node) (t : Table) : Prop where
  counted : memory.length = t.supply.number
  distinct : ∀ n ∈ memory, n.keys.Nodup
  node : ∀ {h : Handle} {n : Node}, t.nodes[h]? = some n → Node.Held memory n
  builder : ∀ {h : Handle} {b : Builder}, t.builders[h]? = some b → b.Held memory

theorem getElem?_of_node? {t : Table} {h : Handle} {n : Node} (found : t.node? h = some n) :
    t.nodes[h]? = some n := by
  simp only [node?] at found
  split at found
  · cases found
  · exact found

variable {memory : List Node} {t : Table} {h c : Handle} {n : Node}

namespace Stored

theorem empty : Stored [] {} :=
  ⟨rfl, fun _ hn => absurd hn List.not_mem_nil, fun hn => by simp at hn, fun hb => by simp at hb⟩

section Parts

variable (stored : Stored memory t)

include stored

theorem node? (found : t.node? h = some n) : Node.Held memory n :=
  stored.node (getElem?_of_node? found)

theorem distinctKeys (found : t.node? h = some n) : n.DistinctKeys :=
  (stored.node? found).distinctKeys stored.distinct

theorem child (resolves : t.child c = .ok n) : Node.Held memory n := by
  simp only [Table.child] at resolves
  split at resolves
  · cases resolves
    exact Node.held_leaf memory .null
  · split at resolves
    · next found =>
        cases resolves
        exact stored.node? found
    · cases resolves

theorem childAt {index : Nat} (found : (t.view h).childAt index = .ok n) : Node.Held memory n := by
  cases hm : t.node? h with
  | none => simp [View.childAt, view, hm] at found
  | some m =>
      have distinct := (stored.distinctKeys hm).root
      have inside := (View.childAt_eq_ok_iff (v := t.view h) hm distinct).mp found
      have child := (inOrder_perm distinct).mem_iff.mp (List.mem_of_getElem? inside)
      exact (stored.node? hm).child child

theorem registered {supply : Allocation} {more : List Node}
    (counted : (memory ++ more).length = supply.number) (distinct : ∀ n ∈ more, n.keys.Nodup)
    (held : Node.Held (memory ++ more) n) :
    Stored (memory ++ more) ({ t with supply }.register n).2 := by
  have distinctAll : ∀ m ∈ memory ++ more, m.keys.Nodup := fun m hm =>
    (List.mem_append.mp hm).elim (stored.distinct m) (distinct m)
  cases hn : n.isNull with
  | true =>
      simp only [register, hn]
      exact ⟨counted, distinctAll, fun hm => (stored.node hm).of_append more,
        fun hb => (stored.builder hb).of_append more⟩
  | false =>
      simp only [register, hn, Bool.false_eq_true, if_false]
      refine ⟨counted, distinctAll, fun hm => ?_, fun hb => (stored.builder hb).of_append more⟩
      rw [Handle.getElem?_insert] at hm
      split at hm
      · cases hm
        exact held
      · exact (stored.node hm).of_append more

theorem register (held : Node.Held memory n) : Stored memory (t.register n).2 := by
  have counted : (memory ++ []).length = t.supply.number := by
    rw [List.append_nil, stored.counted]
  have none : ∀ m ∈ ([] : List Node), m.keys.Nodup := fun _ hm => absurd hm List.not_mem_nil
  have kept := stored.registered counted none (held.of_append [])
  rwa [List.append_nil] at kept

theorem putBuilder {b : Builder} (held : b.Held memory) :
    Stored memory { t with builders := t.builders.insert h b } := by
  refine ⟨stored.counted, stored.distinct, stored.node, fun hb => ?_⟩
  rw [Handle.getElem?_insert] at hb
  split at hb
  · cases hb
    exact held
  · exact stored.builder hb

theorem modify {change : Builder → Node → Except Violation Builder}
    (keeps : ∀ {b n b'}, b.Held memory → Node.Held memory n → change b n = .ok b' →
      b'.Held memory) : Stored memory (t.modify h c change).2 := by
  rcases t.modify_effect h c change with ⟨e, he⟩ | ⟨n, b, b', hn, hb, hc, he⟩
  · rw [he]
    exact stored
  · rw [he]
    exact stored.putBuilder
      (keeps (stored.builder (getElem?_of_builder? hb)) (stored.child hn) hc)

/-- What finishing a builder allocates is held. -/
theorem finished {b : Builder} (found : t.builders[h]? = some b)
    (made : b.finish? t.supply = some n) :
    Node.Held (memory ++ [n]) n ∧
      Stored (memory ++ [n]) { t with
        supply := t.supply.next, builders := t.builders.insert h b.finished } := by
  obtain ⟨label, children, keys⟩ := Builder.shape_of_finish? made
  have staged := stored.builder found
  have now : n.label? = some ⟨memory.length⟩ := by rw [label, stored.counted]
  have held : Node.Held (memory ++ [n]) n :=
    Node.held_allocated now fun c hc => staged.part c (children ▸ hc)
  have grown : Stored (memory ++ [n]) { t with supply := t.supply.next } := by
    refine ⟨?_, fun m hm => ?_, fun hm => (stored.node hm).of_append [n],
      fun hb => (stored.builder hb).of_append [n]⟩
    · rw [List.length_append, stored.counted]
      rfl
    · rcases List.mem_append.mp hm with old | new
      · exact stored.distinct m old
      · rw [List.mem_singleton.mp new, keys]
        exact staged.distinct
  exact ⟨held, grown.putBuilder (Builder.held_finished _ b)⟩

theorem putNode (held : Node.Held memory n) :
    Stored memory { t with nodes := t.nodes.insert h n } := by
  refine ⟨stored.counted, stored.distinct, fun hm => ?_, stored.builder⟩
  rw [Handle.getElem?_insert] at hm
  split at hm
  · cases hm
    exact held
  · exact stored.node hm

theorem free : Stored memory t.free := by
  refine ⟨stored.counted, stored.distinct, ?_, ?_⟩
  · intro h n hn
    simp [Table.free] at hn
  · intro h b hb
    simp [Table.free] at hb

theorem kept : ∃ more, Stored (memory ++ more) t := ⟨[], by rwa [List.append_nil]⟩

theorem registerAssembly (steps : List (Assembly Handle)) :
    ∃ more, Stored (memory ++ more) (t.registerAssembly steps).2 := by
  obtain ⟨more, bench⟩ := Assembly.held_assemble stored.counted stored.distinct
    (fun {_ _} found => stored.node? found) steps
  have distinct : ∀ n ∈ more, n.keys.Nodup := fun n hn =>
    bench.distinct n (List.mem_append_right _ hn)
  exact ⟨more, stored.registered bench.counted distinct bench.last⟩

theorem registerDocument {d : Document} (distinct : d.DistinctKeys) :
    ∃ more, Stored (memory ++ more) (t.registerDocument d).2 := by
  obtain ⟨held, counted⟩ := Node.held_ofDocument d stored.counted
  have written : (Node.ofDocument d t.supply).1.contents.DistinctKeys := by
    rw [Node.contents_ofDocument]
    exact distinct
  have placed : (Node.ofDocument d t.supply).1.DistinctKeys :=
    (everyKeys_relabel fun _ => ()).mp written
  exact ⟨_, stored.registered counted (fun n hn => placed n (List.mem_filter.mp hn).1) held⟩

theorem finish (h : Handle) : ∃ more, Stored (memory ++ more) (t.finish h).2 := by
  rcases t.finish_effect h with hf | ⟨b, n, hb, hn, hf⟩
  · rw [hf]
    exact stored.kept
  · rw [hf]
    exact ⟨[n], (stored.finished (getElem?_of_builder? hb) hn).2⟩

theorem valueAt (h : Handle) (index : Nat) :
    ∃ more, Stored (memory ++ more) (t.valueAt h index).2 := by
  rcases t.valueAt_cases h index with ⟨e, _, he⟩ | ⟨n, hn, he⟩
  · rw [he]
    exact stored.kept
  · rw [he]
    exact (stored.register (stored.childAt hn)).kept

theorem build (h : Handle) : ∃ more, Stored (memory ++ more) (t.build h).2 := by
  rcases t.build_effect h with ⟨_, he⟩ | ⟨b, n, hb, hn, _, he⟩
  · rw [he]
    exact stored.kept
  · rw [he]
    obtain ⟨held, grown⟩ := stored.finished (getElem?_of_builder? hb) hn
    have named := (grown.putNode (h := t.last.next) held).putNode (h := h) held
    exact ⟨[n], named.counted, named.distinct, named.node, named.builder⟩

/-- **Sourced operations only add to the memory.** -/
theorem after {op : Operation} (sourced : op.Sourced) :
    ∃ more, Stored (memory ++ more) (t.after op) := by
  cases op with
  | allocate =>
      have moved : Stored memory t.allocate.2 :=
        ⟨stored.counted, stored.distinct, stored.node, stored.builder⟩
      exact moved.kept
  | register steps => exact stored.registerAssembly steps
  | registerNode n =>
      cases n with
      | leaf s => exact (stored.register (Node.held_leaf _ s)).kept
      | array label items => cases sourced
      | object label entries => cases sourced
  | registerDocument d => exact stored.registerDocument sourced
  | openBuilder mode size =>
      have opened := stored.putBuilder (h := t.last.next) (Builder.held_new _ mode size)
      have moved : Stored memory (t.openBuilder mode size).2 :=
        ⟨opened.counted, opened.distinct, opened.node, opened.builder⟩
      exact moved.kept
  | write h index n => exact sourced.elim
  | bind h key n => exact sourced.elim
  | finish h => exact stored.finish h
  | valueAt h index => exact stored.valueAt h index
  | setValue h index c =>
      have written : Stored memory (t.setValue h index c).2 :=
        stored.modify fun held now written => Builder.held_write held now written
      exact written.kept
  | setKeyValue h key c =>
      have written : Stored memory (t.setKeyValue h key c).2 :=
        stored.modify fun held now bound => Builder.held_bind held now bound
      exact written.kept
  | build h => exact stored.build h
  | free => exact stored.free.kept

/-- **A run of sourced operations only adds to the memory.** -/
theorem run {ops : List Operation} (sourced : ∀ op ∈ ops, op.Sourced) :
    ∃ more, Stored (memory ++ more) (t.run ops) := by
  induction ops generalizing t memory with
  | nil => exact ⟨[], by rwa [List.append_nil]⟩
  | cons op rest ih =>
      obtain ⟨first, stored⟩ := stored.after (sourced op List.mem_cons_self)
      obtain ⟨more, stored⟩ := ih stored fun op hop => sourced op (List.mem_cons_of_mem _ hop)
      exact ⟨first ++ more, by rwa [← List.append_assoc]⟩

end Parts

end Stored

end Table

section Sessions

variable {s : Shape}

theorem Request.sourced_of_operation? {options : Options} {r : Request String s}
    {op : Table.Operation} (h : r.operation? options = some op) : op.Sourced := by
  cases r with
  | loadJson source =>
      simp only [operation?] at h
      split at h
      · next parsed =>
          cases h
          exact (Json.orderedKeys_of_parse parsed).distinct
      · cases h
  | newArray length =>
      simp only [operation?] at h
      split at h
      · cases h
      · cases h
        trivial
  | newString | newInt | newUint | newFloat | newBool =>
      cases h
      rfl
  | kind | asString | asInt | asUint | asFloat | asBool | size | keyAt | sameAs | toJson => cases h
  | _ =>
      cases h
      trivial

namespace Session

theorem sourced_of_operation? {options : Options} {c : Call s} {op : Table.Operation}
    (h : c.operation? options = some op) : op.Sourced := by
  cases c with
  | request r => exact r.sourced_of_operation? h
  | register | free =>
      cases h
      trivial
  | report | clearError | hasError => cases h

theorem sourced_of_mem_operations {options : Options} {calls : List AnyCall}
    {op : Table.Operation} (h : op ∈ operations options calls) : op.Sourced := by
  obtain ⟨c, _, hop⟩ := List.mem_flatMap.mp h
  exact sourced_of_operation? (Option.mem_toList.mp hop)

/-- One memory holds all nodes of a session that is reached, however many handles it issued. -/
theorem exists_stored {options : Options} {calls : List AnyCall} {x : Session}
    (hx : (new options).run calls = .ok x) : ∃ memory, Table.Stored memory x.table := by
  have sourced : ∀ op ∈ operations options calls, op.Sourced := fun _ => sourced_of_mem_operations
  obtain ⟨memory, stored⟩ := Table.Stored.empty.run sourced
  have table : x.table = Table.run {} (operations options calls) := (table_run hx).1
  exact ⟨memory, table ▸ stored⟩

/-- One memory holds all nodes that a host makes in a session that is reached. -/
theorem exists_held_assemble {options : Options} {calls : List AnyCall} {x : Session}
    (hx : (new options).run calls = .ok x) (steps : List (Assembly Handle)) :
    ∃ memory, (Assembly.assemble x.node? x.table.supply steps).Held memory := by
  obtain ⟨memory, stored⟩ := exists_stored hx
  obtain ⟨more, held⟩ := Assembly.held_assemble stored.counted stored.distinct
    (fun {_ _} found => stored.node? found) steps
  exact ⟨memory ++ more, held⟩

end Session

end Sessions

end TreeHandles
