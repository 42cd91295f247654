import Std.Data.TreeMap

/-!
# Handles

A handle is the 64-bit number by which a foreign caller names a finished tree or an open builder.
The number zero is reserved: it names nothing, and stands for the null tree.

**Results.**
* Handles are ordered as their numbers are, and the order is lawful, so they can be the keys of an
  ordered map.
* `raw_next`: the handle after `h` has the next number.
* `toNat_next_of_le`: where the next number does not wrap around, it is one more.
* `getElem?_insert`: what is found in a map from handles after a handle was bound.
-/

namespace TreeHandles

/-- A number that names a tree or a builder within one table. -/
structure Handle where
  raw : UInt64
  deriving DecidableEq, Repr, Inhabited

namespace Handle

/-- The reserved handle that names nothing. -/
def null : Handle := ⟨0⟩

/-- Whether a handle is the reserved one. -/
def isNull (h : Handle) : Bool := h == null

/-- The handle that is issued after `h`. -/
def next (h : Handle) : Handle := ⟨h.raw + 1⟩

theorem raw_next (h : Handle) : h.next.raw = h.raw + 1 := rfl

instance : LT Handle := ⟨fun a b => a.raw < b.raw⟩

instance : LE Handle := ⟨fun a b => a.raw ≤ b.raw⟩

instance (a b : Handle) : Decidable (a < b) := inferInstanceAs (Decidable (a.raw < b.raw))

instance (a b : Handle) : Decidable (a ≤ b) := inferInstanceAs (Decidable (a.raw ≤ b.raw))

theorem lt_iff {a b : Handle} : a < b ↔ a.raw.toNat < b.raw.toNat := Iff.rfl

theorem le_iff {a b : Handle} : a ≤ b ↔ a.raw.toNat ≤ b.raw.toNat := Iff.rfl

theorem ext_iff_toNat {a b : Handle} : a = b ↔ a.raw.toNat = b.raw.toNat := by
  cases a
  cases b
  simp [UInt64.toNat_inj]

theorem ne_null_of_lt {a b : Handle} (h : a < b) : b ≠ .null := by
  rintro rfl
  exact absurd h (Nat.not_lt_zero _)

theorem toNat_next (h : Handle) : h.next.raw.toNat = (h.raw.toNat + 1) % UInt64.size := by
  rw [raw_next, UInt64.toNat_add]
  rfl

theorem next_ne (h : Handle) : h.next ≠ h := by
  have bound := h.raw.toNat_lt
  rw [Ne, ext_iff_toNat, toNat_next, UInt64.size]
  omega

theorem toNat_next_of_le {h : Handle} (room : h ≤ h.next) :
    h.next.raw.toNat = h.raw.toNat + 1 := by
  have bound := h.raw.toNat_lt
  rw [le_iff, toNat_next, UInt64.size] at room
  rw [toNat_next, UInt64.size]
  omega

theorem lt_next_of_le {h : Handle} (room : h ≤ h.next) : h < h.next := by
  rw [lt_iff, toNat_next_of_le room]
  exact Nat.lt_succ_self _

theorem le_next_of_room {h : Handle} (room : h.raw.toNat + 1 < UInt64.size) : h ≤ h.next := by
  rw [le_iff, toNat_next, Nat.mod_eq_of_lt room]
  exact Nat.le_succ _

theorem next_ne_of_le {h k : Handle} (room : h ≤ h.next) (old : k ≤ h) : h.next ≠ k := by
  rintro rfl
  exact absurd (lt_next_of_le room) (Nat.not_lt.mpr old)

/-- The only handle that is not beyond the one before it is the null handle. -/
theorem next_eq_null_of_le {h : Handle} (wrapped : h.next ≤ h) : h.next = .null := by
  have bound := h.raw.toNat_lt
  have zero : null.raw.toNat = 0 := rfl
  rw [le_iff, toNat_next, UInt64.size] at wrapped
  rw [ext_iff_toNat, toNat_next, UInt64.size, zero]
  omega

instance : Ord Handle := ⟨fun a b => compare a.raw b.raw⟩

instance : Std.TransOrd Handle where
  eq_swap {a b} := Std.OrientedOrd.eq_swap (a := a.raw) (b := b.raw)
  isLE_trans {a b c} := Std.TransOrd.isLE_trans (a := a.raw) (b := b.raw) (c := c.raw)

instance : Std.LawfulEqOrd Handle where
  eq_of_compare {a b} h := by
    have : a.raw = b.raw := Std.LawfulEqOrd.eq_of_compare (α := UInt64) h
    cases a
    cases b
    simp_all

theorem getElem?_insert {ν : Type} (m : Std.TreeMap Handle ν) (h k : Handle) (v : ν) :
    (m.insert h v)[k]? = if h = k then some v else m[k]? := by
  rw [Std.TreeMap.getElem?_insert]
  simp only [Std.LawfulEqOrd.compare_eq_iff_eq]

theorem getElem?_insert_self {ν : Type} (m : Std.TreeMap Handle ν) (h : Handle) (v : ν) :
    (m.insert h v)[h]? = some v := by
  rw [getElem?_insert, if_pos rfl]

theorem getElem?_insert_of_ne {ν : Type} (m : Std.TreeMap Handle ν) {h k : Handle} (v : ν)
    (other : h ≠ k) : (m.insert h v)[k]? = m[k]? := by
  rw [getElem?_insert, if_neg other]

theorem getElem?_erase {ν : Type} (m : Std.TreeMap Handle ν) (h k : Handle) :
    (m.erase h)[k]? = if h = k then none else m[k]? := by
  rw [Std.TreeMap.getElem?_erase]
  simp only [Std.LawfulEqOrd.compare_eq_iff_eq]

/-- The decimal number of a handle. -/
def digits (h : Handle) : String := h.raw.toNat.repr

/-- A handle as messages show it: a number sign and the number. -/
def render (h : Handle) : String := "#" ++ h.digits

/-- A handle as diagnostic output shows it, with the name of its type. -/
def describe (h : Handle) : String := "Handle(" ++ h.digits ++ ")"

end Handle

end TreeHandles
