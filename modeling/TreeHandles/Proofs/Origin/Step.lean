import TreeHandles.Proofs.Origin.Shadow

/-!
# A ledger keeps up with a table

Each operation on a table extends the list of origins by those of its own allocations: none for most
operations, one for a building, one for each position of a document, and one for each composite that a
host makes.  Entered in the ledger, it keeps the ledger the shadow of the table.

**Results.**
* `MakingShadows.step` and `Shadows.assembled`: the origins of what a host makes, in one step and in
  all.
* `Shadows.registerAssembly`, `Shadows.registerDocument`, `Shadows.valueAt` and `Shadows.build`: the
  origins that each of the operations adds, and what it enters.
* `Shadows.after`: an operation keeps a ledger the shadow of a table.
-/

namespace TreeHandles

open TreeHandles.Tree

variable {os more : List Origin} {memory : List Node} {call : Nat}

section Making

/-- What a host has made so far, with every allocation replaced by its origin: the origins that are
new are those of steps made in one call. -/
structure MakingShadows (os more : List Origin) (call : Nat) (b : Assembly.Bench)
    (made : Array (Tree Origin)) : Prop where
  counted : (os ++ more).length = b.supply.number
  distinct : more.Nodup
  now : ∀ o ∈ more, ∃ step < b.made.size, o = .made call step
  made_eq : made = b.made.map (relabel (originOf (os ++ more)))

namespace MakingShadows

variable {t : Table} {g : Ledger} {b : Assembly.Bench} {made : Array (Tree Origin)}

theorem earlier_eq (making : MakingShadows os more call b made) (i : Nat) :
    Ledger.earlier made i = (b.get i).relabel (originOf (os ++ more)) := by
  rw [Ledger.earlier, Assembly.Bench.get, making.made_eq, Array.getElem?_map]
  cases b.made[i]? <;> rfl

theorem push (making : MakingShadows os more call b made) (n : Node) :
    MakingShadows os more call ⟨b.made.push n, b.supply⟩
      (made.push (n.relabel (originOf (os ++ more)))) := by
  refine ⟨making.counted, making.distinct, fun o ho => ?_, ?_⟩
  · obtain ⟨step, less, ho⟩ := making.now o ho
    exact ⟨step, by rw [Array.size_push]; omega, ho⟩
  · rw [making.made_eq, Array.map_push]

theorem allocate (making : MakingShadows os more call b made) (held : b.Held memory) {n : Node}
    {below : Tree Origin}
    (same : n.relabel (originOf (os ++ (more ++ [.made call made.size]))) = below) :
    MakingShadows os (more ++ [.made call made.size]) call ⟨b.made.push n, b.supply.next⟩
      (made.push below) := by
  have size : made.size = b.made.size := by rw [making.made_eq, Array.size_map]
  refine ⟨?_, ?_, fun o ho => ?_, ?_⟩
  · rw [← List.append_assoc, List.length_append, making.counted]
    rfl
  · refine List.nodup_append.mpr ⟨making.distinct, List.pairwise_singleton _ _, ?_⟩
    rintro o old _ new rfl
    obtain ⟨step, less, rfl⟩ := making.now o old
    cases List.mem_singleton.mp new
    omega
  · rcases List.mem_append.mp ho with old | new
    · obtain ⟨step, less, ho⟩ := making.now o old
      exact ⟨step, by rw [Array.size_push]; omega, ho⟩
    · exact ⟨b.made.size, by rw [Array.size_push]; omega, by rw [List.mem_singleton.mp new, size]⟩
  · have aligned : memory.length = (os ++ more).length := held.counted.trans making.counted.symm
    rw [Array.map_push, same, making.made_eq]
    congr 1
    refine Array.map_congr_left fun m hm => ?_
    rw [← List.append_assoc]
    exact (relabel_append (held.made m hm) aligned _).symm

/-- **The origins of what a host makes in one step.** -/
theorem step (making : MakingShadows os more call b made) (held : b.Held memory)
    (known : ∀ (more : List Origin) (r : Handle),
      g.nodes[r]? = (t.node? r).map (relabel (originOf (os ++ more)))) (s : Assembly Handle) :
    ∃ later, MakingShadows os (more ++ later) call (Assembly.step t.node? b s)
      (made.push (g.makes call made s)) := by
  have aligned : memory.length = (os ++ more).length := held.counted.trans making.counted.symm
  have child : ∀ (o : Origin) (i : Nat),
      (b.get i).relabel (originOf (os ++ (more ++ [o]))) = Ledger.earlier made i := by
    intro o i
    rw [making.earlier_eq, ← List.append_assoc, relabel_append (held.get i) aligned]
  have root : ∀ o : Origin, originOf (os ++ (more ++ [o])) b.supply = o := by
    intro o
    rw [← List.append_assoc, originOf_next making.counted]
  cases s with
  | scalar s => exact ⟨[], (List.append_nil more).symm ▸ making.push (.leaf s)⟩
  | array items =>
      refine ⟨_, making.allocate held ?_⟩
      simp only [relabel, root, relabelItems_eq_map, List.map_map]
      exact congrArg _ (List.map_congr_left fun i _ => child _ i)
  | object entries =>
      refine ⟨_, making.allocate held ?_⟩
      have commutes := Entries.ofWrites_mapValues (relabel (originOf (os ++ (more ++ [
        .made call made.size])))) (entries.map fun e => (e.1, b.get e.2))
      simp only [Entries.mapValues, List.map_map, Function.comp_def, child] at commutes
      rw [relabel, root, relabelEntries_eq_map, ← commutes]
      rfl
  | clone source =>
      refine ⟨[], (List.append_nil more).symm ▸ ?_⟩
      have same : g.makes call made (.clone source) =
          ((t.node? source).getD .null).relabel (originOf (os ++ more)) := by
        rw [Ledger.makes, known more]
        cases t.node? source <;> rfl
      rw [same]
      exact making.push _

end MakingShadows

variable {t : Table} {g : Ledger} {base : Handle}

/-- **The origins of what a host makes.** -/
theorem Shadows.assembled (shadows : Shadows os call t g) (sound : Table.Sound base t)
    (stored : Table.Stored memory t) (steps : List (Assembly Handle)) :
    ∃ more, MakingShadows os more call (Assembly.assemble t.node? t.supply steps)
      (g.assembled call steps) := by
  have aligned : memory.length = os.length := stored.counted.trans shadows.counted.symm
  have known : ∀ (more : List Origin) (r : Handle),
      g.nodes[r]? = (t.node? r).map (relabel (originOf (os ++ more))) := by
    intro more r
    rw [shadows.node?_eq sound]
    cases hn : t.node? r with
    | none => rfl
    | some n => exact congrArg some (relabel_append (stored.node? hn) aligned more).symm
  suffices ∀ (b : Assembly.Bench) (made : Array (Tree Origin)) (memory : List Node)
      (more : List Origin), MakingShadows os more call b made → b.Held memory →
      (∀ {r n}, t.node? r = some n → Node.Held memory n) →
      ∃ later, MakingShadows os (more ++ later) call (steps.foldl (Assembly.step t.node?) b)
        (steps.foldl (fun made step => made.push (g.makes call made step)) made) by
    refine this ⟨#[], t.supply⟩ #[] memory [] ⟨?_, .nil, ?_, ?_⟩ ⟨stored.counted, stored.distinct, ?_⟩
      stored.node?
    · rw [List.append_nil, shadows.counted]
    · exact fun _ ho => absurd ho List.not_mem_nil
    · exact Array.map_empty.symm
    · exact fun _ hn => absurd hn (Array.not_mem_empty _)
  induction steps with
  | nil => exact fun b made memory more making _ _ => ⟨[], (List.append_nil more).symm ▸ making⟩
  | cons s rest ih =>
      intro b made memory more making held resolved
      obtain ⟨first, makingFirst⟩ := making.step held known s
      obtain ⟨grown, heldFirst⟩ := Assembly.held_step held resolved s
      obtain ⟨later, makingAll⟩ :=
        ih _ _ _ _ makingFirst heldFirst fun hn => (resolved hn).of_append grown
      exact ⟨first ++ later, by rwa [← List.append_assoc]⟩

end Making

section Operations

variable {t u : Table} {g d : Ledger} {base h : Handle}

namespace Shadows

/-- An operation that allocates nothing adds no origins. -/
theorem kept (shadows : Shadows os call u d) : ∃ more, Shadows (os ++ more) call u d :=
  ⟨[], (List.append_nil os).symm ▸ shadows⟩

theorem free (shadows : Shadows os call t g) : Shadows os call t.free {} := by
  refine ⟨shadows.counted, shadows.distinct, shadows.early, fun h => ?_, fun h => ?_⟩
  · simp [Table.free]
  · simp [Table.free]

/-- A document is entered with its positions. -/
theorem registerDocument (shadows : Shadows os call t g) (stored : Table.Stored memory t)
    {source : Document} (forward : t.last ≤ (t.registerDocument source).2.last) :
    ∃ more, Shadows (os ++ more) (call + 1) (t.registerDocument source).2
      (g.name (t.registerDocument source).1 (source.located (.loaded call))) := by
  obtain ⟨placed, counted⟩ := relabel_ofDocument source (.loaded call) shadows.counted
  have distinct : (source.located (Origin.loaded call)).labels.Nodup :=
    nodup_labels_located (fun {p q} he => by cases he; rfl) source
  have now : ∀ o ∈ (source.located (Origin.loaded call)).labels, o.call = call := by
    intro o ho
    obtain ⟨path, rfl⟩ := mem_labels_located ho
    rfl
  have named := (shadows.extend stored distinct now counted).register forward
  rw [placed] at named
  exact ⟨_, named⟩

section Stored

variable (shadows : Shadows os call t g) (sound : Table.Sound base t)
  (stored : Table.Stored memory t)

include shadows sound stored

/-- What a host makes and registers is entered with the origins that it has. -/
theorem registerAssembly {steps : List (Assembly Handle)}
    (forward : t.last ≤ (t.registerAssembly steps).2.last) :
    ∃ more, Shadows (os ++ more) (call + 1) (t.registerAssembly steps).2
      (g.name (t.registerAssembly steps).1 ((g.assembled call steps).back?.getD .null)) := by
  obtain ⟨more, making⟩ := shadows.assembled sound stored steps
  have now : ∀ o ∈ more, o.call = call := by
    intro o ho
    obtain ⟨step, _, rfl⟩ := making.now o ho
    rfl
  have grown := shadows.extend stored making.distinct now making.counted
  have last : (g.assembled call steps).back?.getD .null =
      (Assembly.assemble t.node? t.supply steps).last.relabel (originOf (os ++ more)) := by
    rw [making.made_eq, Assembly.Bench.last, Array.back?_map]
    cases (Assembly.assemble t.node? t.supply steps).made.back? <;> rfl
  rw [last]
  exact ⟨more, grown.register forward⟩

theorem finish (h : Handle) : ∃ more, Shadows (os ++ more) (call + 1) (t.finish h).2
    { g with drafts := g.drafts.erase h } := by
  have builder := sound.builder?_eq h
  rcases t.finish_cases h with ⟨hb, hf⟩ | ⟨mode, hb, hf⟩ | ⟨b, n, hb, hn, hf⟩
  · rw [hf]
    exact (shadows.next.eraseAbsent (by rw [← builder, hb]; rfl)).kept
  · rw [hf]
    exact (shadows.next.eraseAbsent (by rw [← builder, hb]; rfl)).kept
  · rw [hf]
    exact ⟨_, (shadows.allocated stored).eraseBuilder b⟩

/-- A child is entered with the origins that it has in its parent. -/
theorem valueAt {index : Nat} (forward : t.last ≤ (t.valueAt h index).2.last) :
    ∃ more, Shadows (os ++ more) (call + 1) (t.valueAt h index).2
      (g.record call (t.given (.valueAt h index)) (.valueAt h index)) := by
  have child := shadows.inOrder_eq sound stored index (h := h)
  simp only [Table.given, Table.apply, Ledger.record]
  rcases t.valueAt_cases h index with ⟨e, hn, he⟩ | ⟨n, hn, he⟩
  · rw [hn] at child
    rw [he, child]
    exact shadows.next.kept
  · rw [hn] at child
    rw [he] at forward
    rw [he, child]
    exact (shadows.next.register forward).kept

/-- What is built is entered, under both of its handles, with the call that built it. -/
theorem build (h : Handle) : ∃ more, Shadows (os ++ more) (call + 1) (t.build h).2
    (g.record call (t.given (.build h)) (.build h)) := by
  have draft := shadows.builder?_eq sound h
  simp only [Table.given, Table.apply, Ledger.record]
  rcases t.build_cases h with
    ⟨hb, _, he⟩ | ⟨hb, _, he⟩ | ⟨mode, hb, he⟩ | ⟨b, n, hb, hn, he⟩
  · rw [hb] at draft
    rw [he, draft]
    exact shadows.next.kept
  · rw [hb] at draft
    rw [he, draft]
    exact shadows.next.kept
  · rw [hb] at draft
    rw [he, draft]
    exact shadows.next.kept
  · have grown := shadows.allocated stored
    have now : originOf (os ++ [.built call]) t.supply = .built call :=
      originOf_next shadows.counted
    obtain ⟨d, hd, finished⟩ := relabel_finish? hn now
    have found : g.drafts[h]? = some d := by
      rw [grown.drafts, Table.getElem?_of_builder? hb]
      exact hd
    have named :=
      ((grown.putNode (h := t.last.next) n).putNode (h := h) n).eraseBuilder (h := h) b
    rw [finished] at named
    rw [he, found]
    exact ⟨_, named.counted, named.distinct, named.early, named.nodes, named.drafts⟩

/-- **An operation keeps a ledger the shadow of a table.** -/
theorem after {op : Table.Operation} (sourced : op.Sourced)
    (forward : t.last ≤ (t.after op).last) :
    ∃ more, Shadows (os ++ more) (call + 1) (t.after op) (g.record call (t.given op) op) := by
  have same := shadows.next
  cases op with
  | allocate =>
      have moved : Shadows os (call + 1) t.allocate.2 g :=
        ⟨same.counted, same.distinct, same.early, same.nodes, same.drafts⟩
      exact moved.kept
  | register steps => exact shadows.registerAssembly sound stored forward
  | registerNode n =>
      cases n with
      | leaf s => exact (same.register forward).kept
      | array label items => cases sourced
      | object label entries => cases sourced
  | registerDocument source => exact shadows.registerDocument stored forward
  | openBuilder mode size =>
      have opened := same.putBuilder (h := t.last.next) (draft?_new _ mode size)
      have moved : Shadows os (call + 1) (t.openBuilder mode size).2 _ :=
        ⟨opened.counted, opened.distinct, opened.early, opened.nodes, opened.drafts⟩
      exact moved.kept
  | write h index n => exact sourced.elim
  | bind h key n => exact sourced.elim
  | finish h => exact shadows.finish sound stored h
  | valueAt h index => exact shadows.valueAt sound stored forward
  | setValue h index c =>
      have written : Shadows os (call + 1) (t.setValue h index c).2 (g.put h (.index index) c) :=
        same.put sound fun _ _ => rfl
      exact written.kept
  | setKeyValue h key c =>
      have written : Shadows os (call + 1) (t.setKeyValue h key c).2 (g.put h (.key key) c) :=
        same.put sound fun _ _ => rfl
      exact written.kept
  | build h => exact shadows.build sound stored h
  | free => exact same.free.kept

end Stored

end Shadows

end Operations

end TreeHandles
