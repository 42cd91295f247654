import TreeHandles.Proofs.Table.Run
import TreeHandles.Proofs.Writes

/-!
# What a builder is given

While a builder is open, only an operation on its own handle can change it.  Such an operation
either succeeds, and puts one node in one place, or is refused and changes nothing.  So a builder
is what it was at first with the successful writes to it put in.

**Results.**
* `getElem?_builders_after_of_other`: an operation on another handle leaves a builder as it is.
* `getElem?_builders_setValue` and `getElem?_builders_setKeyValue`: a write, successful or not,
  puts in the node that it wrote, if any.
* `node?_build`: an open builder is built into the node that it holds.
-/

namespace TreeHandles

namespace Builder

/-- A builder with nodes put in places, if it is an array, or bound to keys, if it is an object. -/
def stage (places : List (Nat × Node)) (bindings : List (String × Node)) : Builder → Builder
  | array slots => array (setPlaces slots places)
  | object entries => object (bindings.foldl (fun es e => Entries.insert e.1 e.2 es) entries)
  | built mode => built mode

theorem stage_nil (b : Builder) : b.stage [] [] = b := by
  cases b <;> rfl

theorem stage_stage (b : Builder) (places morePlaces : List (Nat × Node))
    (bindings moreBindings : List (String × Node)) :
    (b.stage places bindings).stage morePlaces moreBindings =
      b.stage (places ++ morePlaces) (bindings ++ moreBindings) := by
  cases b with
  | array slots => simp [stage, setPlaces]
  | object entries => simp [stage]
  | built mode => rfl

theorem isBuilt_stage (b : Builder) (places : List (Nat × Node)) (bindings : List (String × Node)) :
    (b.stage places bindings).isBuilt = b.isBuilt := by
  cases b <;> rfl

theorem exists_finish? {b : Builder} (isOpen : b.isBuilt = false) (supply : Allocation) :
    ∃ n, b.finish? supply = some n := by
  cases b with
  | array slots => exact ⟨_, rfl⟩
  | object entries => exact ⟨_, rfl⟩
  | built mode => cases isOpen

theorem stage_of_write {b c : Builder} {index : Nat} {n : Node} (h : b.write index n = .ok c) :
    b.stage [(index, n)] [] = c := by
  obtain ⟨slots, rfl, _, rfl⟩ := exists_of_write h
  rfl

theorem stage_of_bind {b c : Builder} {key : String} {n : Node} (h : b.bind key n = .ok c) :
    b.stage [] [(key, n)] = c := by
  obtain ⟨entries, rfl, rfl⟩ := exists_of_bind h
  rfl

end Builder

namespace Table

/-- The handle of the builder that an operation works on. -/
def Operation.target? : Operation → Option Handle
  | .write h _ _ | .bind h _ _ | .setValue h _ _ | .setKeyValue h _ _ => some h
  | .finish h | .build h => some h
  | _ => none

/-- The node that a handle stands for where a child is expected; null if it names none. -/
def childNode (t : Table) (c : Handle) : Node := (t.node? c).getD .null

variable {t : Table} {base h k c : Handle}

section Frame

theorem builders_register (t : Table) (n : Node) : (t.register n).2.builders = t.builders := by
  cases hn : n.isNull <;> simp [register, hn]

theorem getElem?_builders_modify_of_ne {change : Builder → Node → Except Violation Builder}
    (other : k ≠ h) : (t.modify k c change).2.builders[h]? = t.builders[h]? := by
  rcases t.modify_effect k c change with ⟨e, he⟩ | ⟨n, b, d, _, _, _, he⟩
  · rw [he]
  · rw [he]
    exact Handle.getElem?_insert_of_ne _ _ other

theorem getElem?_builders_borrow_of_ne {change : Builder → Except Violation Builder}
    (other : k ≠ h) : (t.borrow k change).2.builders[h]? = t.builders[h]? := by
  rcases t.borrow_cases k change with he | ⟨b, d, _, _, he⟩
  · rw [he]
  · rw [he]
    exact Handle.getElem?_insert_of_ne _ _ other

/-- An operation that does not work on a builder leaves it as it is. -/
theorem getElem?_builders_after_of_other {op : Operation} (kept : op ≠ .free)
    (other : op.target? ≠ some h) (issued : h ≤ t.last) (forward : t.last ≤ (t.after op).last) :
    (t.after op).builders[h]? = t.builders[h]? := by
  cases op with
  | allocate => rfl
  | register steps => exact congrArg (·[h]?) (builders_register _ _)
  | registerNode n => exact congrArg (·[h]?) (builders_register _ _)
  | registerDocument d => exact congrArg (·[h]?) (builders_register _ _)
  | openBuilder mode size =>
      have beyond : t.last.next ≠ h := by
        rintro rfl
        exact absurd (Handle.lt_next_of_le forward) (Nat.not_lt.mpr issued)
      exact Handle.getElem?_insert_of_ne _ _ beyond
  | write k index n => exact getElem?_builders_borrow_of_ne fun he => other (congrArg some he)
  | bind k key n => exact getElem?_builders_borrow_of_ne fun he => other (congrArg some he)
  | finish k =>
      have apart : k ≠ h := fun he => other (congrArg some he)
      simp only [after, apply]
      rcases t.finish_effect k with hf | ⟨b, n, _, _, hf⟩
      · rw [hf]
      · rw [hf]
        exact Handle.getElem?_insert_of_ne _ _ apart
  | valueAt k index =>
      simp only [after, apply]
      rcases t.valueAt_cases k index with ⟨e, _, he⟩ | ⟨n, _, he⟩
      · rw [he]
      · rw [he]
        exact congrArg (·[h]?) (builders_register _ _)
  | setValue k index c => exact getElem?_builders_modify_of_ne fun he => other (congrArg some he)
  | setKeyValue k key c => exact getElem?_builders_modify_of_ne fun he => other (congrArg some he)
  | build k =>
      have apart : k ≠ h := fun he => other (congrArg some he)
      simp only [after, apply]
      rcases t.build_effect k with ⟨_, he⟩ | ⟨b, n, _, _, _, he⟩
      · rw [he]
      · rw [he]
        exact Handle.getElem?_insert_of_ne _ _ apart
  | free => exact absurd rfl kept

end Frame

section Writing

theorem childNode_of_child {n : Node} (resolves : t.child c = .ok n) : t.childNode c = n := by
  simp only [child] at resolves
  split at resolves
  · next null =>
      cases resolves
      simp [childNode, node?, null]
  · split at resolves
    · next found =>
        cases resolves
        simp [childNode, found]
    · cases resolves

/-- A change of the builder of a handle either succeeds, for the node of the child, or leaves the
builder as it is. -/
theorem modify_of_builder {b : Builder} (c : Handle)
    (change : Builder → Node → Except Violation Builder) (found : t.builder? h = some b) :
    (∃ d, (t.modify h c change).1.isOk = true ∧ change b (t.childNode c) = .ok d ∧
        (t.modify h c change).2.builders[h]? = some d) ∨
      (t.modify h c change).1.isOk = false ∧
        (t.modify h c change).2.builders[h]? = some b := by
  have unchanged := getElem?_of_builder? found
  rcases t.modify_effect h c change with ⟨e, he⟩ | ⟨n, d, d', hn, hd, hc, he⟩
  · rw [he]
    exact .inr ⟨rfl, unchanged⟩
  · rw [found] at hd
    cases hd
    rw [he, childNode_of_child hn]
    exact .inl ⟨d', rfl, hc, Handle.getElem?_insert_self ..⟩

/-- The place and the node of a write to an array, if the write succeeds. -/
def slotWrite? (t : Table) (h : Handle) (index : Nat) (c : Handle) : Option (Nat × Node) :=
  if (t.setValue h index c).1.isOk then some (index, t.childNode c) else none

/-- The key and the node of a write to an object, if the write succeeds. -/
def keyWrite? (t : Table) (h : Handle) (key : String) (c : Handle) : Option (String × Node) :=
  if (t.setKeyValue h key c).1.isOk then some (key, t.childNode c) else none

theorem getElem?_builders_setValue {b : Builder} (found : t.builder? h = some b) (index : Nat)
    (c : Handle) :
    (t.setValue h index c).2.builders[h]? =
      some (b.stage (t.slotWrite? h index c).toList []) := by
  rcases modify_of_builder c (fun b n => b.write index n) found with
    ⟨d, ok, hd, stored⟩ | ⟨refused, stored⟩
  · have written : t.slotWrite? h index c = some (index, t.childNode c) := if_pos ok
    rw [written]
    exact stored.trans (congrArg some (Builder.stage_of_write hd).symm)
  · have nothing : t.slotWrite? h index c = none := if_neg (Bool.eq_false_iff.mp refused)
    rw [nothing]
    exact stored.trans (congrArg some b.stage_nil.symm)

theorem getElem?_builders_setKeyValue {b : Builder} (found : t.builder? h = some b) (key : String)
    (c : Handle) :
    (t.setKeyValue h key c).2.builders[h]? =
      some (b.stage [] (t.keyWrite? h key c).toList) := by
  rcases modify_of_builder c (fun b n => b.bind key n) found with
    ⟨d, ok, hd, stored⟩ | ⟨refused, stored⟩
  · have written : t.keyWrite? h key c = some (key, t.childNode c) := if_pos ok
    rw [written]
    exact stored.trans (congrArg some (Builder.stage_of_bind hd).symm)
  · have nothing : t.keyWrite? h key c = none := if_neg (Bool.eq_false_iff.mp refused)
    rw [nothing]
    exact stored.trans (congrArg some b.stage_nil.symm)

end Writing

/-- **An open builder is built into what it holds.** -/
theorem node?_build (sound : Sound base t) {b : Builder} {n : Node}
    (found : t.builders[h]? = some b) (made : b.finish? t.supply = some n)
    (forward : t.last ≤ (t.build h).2.last) :
    (t.build h).1 = .ok t.last.next ∧ t.last.next ≠ .null ∧
      (t.build h).2.node? t.last.next = some n := by
  have soundThen : Sound base (t.build h).2 := sound.after (.build h) forward
  rw [← sound.builder?_eq] at found
  rw [soundThen.node?_eq]
  rw [t.build_of_finish? h found made] at forward ⊢
  refine ⟨rfl, Handle.ne_null_of_lt (Handle.lt_next_of_le forward), ?_⟩
  simp only [Handle.getElem?_insert]
  split
  · rfl
  · rfl

end Table

end TreeHandles
