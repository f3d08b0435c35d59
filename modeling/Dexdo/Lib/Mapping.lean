import Mathlib.Data.List.AList
import Mathlib.Tactic

namespace Dexdo

/-- A mapping of the storage: the keys written and not deleted, with their values. -/
abbrev Mapping (κ β : Type) := AList fun _ : κ => β

namespace Mapping

variable {κ β : Type} [DecidableEq κ]

/-- `exists`. -/
def has (m : Mapping κ β) (k : κ) : Bool := (m.lookup k).isSome

/-- `empty`. -/
def isEmpty (m : Mapping κ β) : Bool := m.entries.isEmpty

def clear : Mapping κ β := ∅

section Tally

variable [DecidableEq β]

/-- Number of keys that hold `v`. -/
def tally (m : Mapping κ β) (v : β) : ℕ :=
  m.entries.countP fun e => decide (e.2 = v)

theorem tally_insert (m : Mapping κ β) {k : κ} (h : m.lookup k = none) (w v : β) :
    tally (AList.insert k w m) v = m.tally v + if w = v then 1 else 0 := by
  rw [tally, AList.entries_insert_of_notMem (AList.lookup_eq_none.mp h), List.countP_cons]
  simp [tally]

/-- Deleting a key takes one away from the tally of what it held. -/
theorem tally_erase (m : Mapping κ β) (k : κ) (v : β) :
    tally (AList.erase k m) v + (if m.lookup k = some v then 1 else 0) = m.tally v := by
  obtain ⟨l, hl⟩ := m
  change (l.kerase k).countP _ + (if l.dlookup k = some v then 1 else 0) = l.countP _
  clear hl
  induction l with
  | nil => rfl
  | cons e l ih =>
    obtain ⟨j, w⟩ := e
    by_cases h : k = j
    · subst h
      simp [List.countP_cons]
    · rw [List.kerase_cons_ne h, List.dlookup_cons_ne _ _ h, List.countP_cons, List.countP_cons]
      omega

theorem tally_pos {m : Mapping κ β} {k : κ} {v : β} (h : m.lookup k = some v) : 0 < m.tally v := by
  have h1 := m.tally_erase k v
  rw [if_pos h] at h1
  omega

end Tally

variable [Inhabited β]

/-- A read; a missing key reads as the zero value. -/
def read (m : Mapping κ β) (k : κ) : β := (m.lookup k).getD default

theorem read_of_not_has {m : Mapping κ β} {k : κ} (h : ¬ m.has k = true) : m.read k = default := by
  unfold has at h
  unfold read
  rw [Option.not_isSome_iff_eq_none.mp h]
  rfl

@[simp] theorem read_insert_self (m : Mapping κ β) (k : κ) (v : β) :
    read (AList.insert k v m) k = v := by
  simp [read]

@[simp] theorem read_insert_of_ne (m : Mapping κ β) {j k : κ} (v : β) (h : j ≠ k) :
    read (AList.insert k v m) j = m.read j := by
  simp [read, AList.lookup_insert_ne h]

theorem read_insert (m : Mapping κ β) (j k : κ) (v : β) :
    read (AList.insert k v m) j = if j = k then v else m.read j := by
  split_ifs with h
  · rw [h, read_insert_self]
  · exact m.read_insert_of_ne v h

@[simp] theorem read_erase_self (m : Mapping κ β) (k : κ) : read (AList.erase k m) k = default := by
  simp [read]

@[simp] theorem read_erase_of_ne (m : Mapping κ β) {j k : κ} (h : j ≠ k) :
    read (AList.erase k m) j = m.read j := by
  simp [read, AList.lookup_erase_ne h]

section Total

/-- Sum of a figure of the values held. -/
def total (m : Mapping κ β) (f : β → ℕ) : ℕ := (m.entries.map fun e => f e.2).sum

variable {f : β → ℕ}

theorem total_erase (hf : f default = 0) (m : Mapping κ β) (k : κ) :
    total (AList.erase k m) f + f (m.read k) = m.total f := by
  obtain ⟨l, hl⟩ := m
  change ((l.kerase k).map _).sum + f ((l.dlookup k).getD default) = (l.map _).sum
  clear hl
  induction l with
  | nil => simp [hf]
  | cons e l ih =>
    obtain ⟨j, w⟩ := e
    by_cases h : k = j
    · subst h
      simp [add_comm]
    · rw [List.kerase_cons_ne h, List.dlookup_cons_ne _ _ h, List.map_cons, List.map_cons,
        List.sum_cons, List.sum_cons, ← ih]
      exact add_assoc _ _ _

/-- A write replaces what the key counted for. -/
theorem total_insert (hf : f default = 0) (m : Mapping κ β) (k : κ) (v : β) :
    total (AList.insert k v m) f + f (m.read k) = m.total f + f v := by
  have h := total_erase hf m k
  have hi : total (AList.insert k v m) f = f v + total (AList.erase k m) f := rfl
  omega

theorem le_total (hf : f default = 0) (m : Mapping κ β) (k : κ) : f (m.read k) ≤ m.total f := by
  have h := total_erase hf m k
  omega

end Total

end Mapping

end Dexdo
