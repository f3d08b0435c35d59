import Mathlib.Data.Nat.Basic
import Mathlib.Data.List.Pairwise
import Mathlib.Tactic

namespace Dexdo

/-- Ordered dictionary: an association list whose keys strictly increase. -/
structure Dict (κ β : Type) [LinearOrder κ] where
  entries : List (κ × β)
  sorted : entries.Pairwise (fun a b => a.1 < b.1)

namespace Dict

variable {κ β : Type} [LinearOrder κ]

def empty : Dict κ β := ⟨[], List.Pairwise.nil⟩

instance : Inhabited (Dict κ β) := ⟨empty⟩

def get? (d : Dict κ β) (k : κ) : Option β :=
  (d.entries.find? (fun e => decide (e.1 = k))).map Prod.snd

def insert (d : Dict κ β) (k : κ) (v : β) : Dict κ β where
  entries := d.entries.filter (fun e => decide (e.1 < k)) ++
    (k, v) :: d.entries.filter (fun e => decide (k < e.1))
  sorted := by
    refine List.pairwise_append.mpr ⟨d.sorted.filter _, ?_, ?_⟩
    · refine List.pairwise_cons.mpr ⟨?_, d.sorted.filter _⟩
      intro e he
      simpa using (List.mem_filter.mp he).2
    · intro a ha b hb
      have h : a.1 < k := by simpa using (List.mem_filter.mp ha).2
      rcases List.mem_cons.mp hb with rfl | hb
      · exact h
      · exact h.trans (by simpa using (List.mem_filter.mp hb).2)

def erase (d : Dict κ β) (k : κ) : Dict κ β :=
  ⟨d.entries.filter (fun e => decide (e.1 ≠ k)), d.sorted.filter _⟩

/-- Entry with the least key. -/
def min? (d : Dict κ β) : Option (κ × β) := d.entries.head?

/-- Entry with the greatest key. -/
def max? (d : Dict κ β) : Option (κ × β) := d.entries.reverse.head?

/-- First entry above `k`, which itself need not be present. -/
def next? (d : Dict κ β) (k : κ) : Option (κ × β) :=
  d.entries.find? (fun e => decide (k < e.1))

/-- Last entry below `k`, which itself need not be present. -/
def prev? (d : Dict κ β) (k : κ) : Option (κ × β) :=
  d.entries.reverse.find? (fun e => decide (e.1 < k))

theorem key_inj (d : Dict κ β) {a b : κ × β} (ha : a ∈ d.entries) (hb : b ∈ d.entries)
    (hk : a.1 = b.1) : a = b := by
  have hp := List.pairwise_iff_getElem.mp d.sorted
  obtain ⟨i, hi, rfl⟩ := List.mem_iff_getElem.mp ha
  obtain ⟨j, hj, rfl⟩ := List.mem_iff_getElem.mp hb
  rcases lt_trichotomy i j with hij | hij | hij
  · exact absurd hk (hp i j hi hj hij).ne
  · subst hij; rfl
  · exact absurd hk.symm (hp j i hj hi hij).ne

theorem get?_eq_some_iff (d : Dict κ β) (k : κ) (v : β) :
    d.get? k = some v ↔ (k, v) ∈ d.entries := by
  constructor
  · intro h
    obtain ⟨e, he, rfl⟩ := Option.map_eq_some_iff.mp h
    have hk : e.1 = k := by simpa using List.find?_some he
    simpa [← hk] using List.mem_of_find?_eq_some he
  · intro h
    have hs : (d.entries.find? (fun e => decide (e.1 = k))).isSome :=
      List.find?_isSome.mpr ⟨_, h, by simp⟩
    obtain ⟨e, he⟩ := Option.isSome_iff_exists.mp hs
    have hk : e.1 = k := by simpa using List.find?_some he
    have := d.key_inj (List.mem_of_find?_eq_some he) h hk
    simp [get?, he, this]

theorem get?_eq_none_iff (d : Dict κ β) (k : κ) :
    d.get? k = none ↔ ∀ e ∈ d.entries, e.1 ≠ k := by
  simp [get?]

theorem eq_empty {d : Dict κ β} (h : ∀ k, d.get? k = none) : d = empty := by
  obtain ⟨entries, sorted⟩ := d
  cases entries with
  | nil => rfl
  | cons e => exact absurd rfl ((get?_eq_none_iff _ e.1).mp (h e.1) e (by simp))

@[simp] theorem get?_empty (k : κ) : (empty : Dict κ β).get? k = none := rfl

theorem mem_insert_entries (d : Dict κ β) (k : κ) (v : β) (e : κ × β) :
    e ∈ (d.insert k v).entries ↔ e = (k, v) ∨ (e.1 ≠ k ∧ e ∈ d.entries) := by
  simp only [insert, List.mem_append, List.mem_cons, List.mem_filter, decide_eq_true_eq]
  constructor
  · rintro (⟨h, hl⟩ | rfl | ⟨h, hl⟩)
    · exact .inr ⟨hl.ne, h⟩
    · exact .inl rfl
    · exact .inr ⟨hl.ne', h⟩
  · rintro (rfl | ⟨hn, h⟩)
    · exact .inr (.inl rfl)
    · rcases lt_or_gt_of_ne hn with hl | hl
      · exact .inl ⟨h, hl⟩
      · exact .inr (.inr ⟨h, hl⟩)

theorem mem_erase_entries (d : Dict κ β) (k : κ) (e : κ × β) :
    e ∈ (d.erase k).entries ↔ e.1 ≠ k ∧ e ∈ d.entries := by
  simp [erase, and_comm]

@[simp] theorem get?_insert_self (d : Dict κ β) (k : κ) (v : β) :
    (d.insert k v).get? k = some v :=
  (get?_eq_some_iff _ _ _).mpr ((mem_insert_entries d k v _).mpr (.inl rfl))

@[simp] theorem get?_insert_of_ne (d : Dict κ β) {k j : κ} (v : β) (h : j ≠ k) :
    (d.insert k v).get? j = d.get? j := by
  ext w
  rw [get?_eq_some_iff, get?_eq_some_iff, mem_insert_entries]
  simp [h]

@[simp] theorem get?_erase_self (d : Dict κ β) (k : κ) : (d.erase k).get? k = none := by
  rw [get?_eq_none_iff]
  intro e he
  exact ((mem_erase_entries d k e).mp he).1

@[simp] theorem get?_erase_of_ne (d : Dict κ β) {k j : κ} (h : j ≠ k) :
    (d.erase k).get? j = d.get? j := by
  ext w
  rw [get?_eq_some_iff, get?_eq_some_iff, mem_erase_entries]
  simp [h]

/-- What is still there after a removal was there before. -/
theorem get?_of_erase {d : Dict κ β} {j k : κ} {v : β} (h : (d.erase k).get? j = some v) :
    d.get? j = some v := by
  rw [get?_eq_some_iff, mem_erase_entries] at h
  exact (d.get?_eq_some_iff j v).mpr h.2

/-- Keys in increasing order. -/
def keys (d : Dict κ β) : List κ := d.entries.map Prod.fst

theorem keys_sorted (d : Dict κ β) : d.keys.Pairwise (· < ·) := List.pairwise_map.mpr d.sorted

theorem mem_keys (d : Dict κ β) (k : κ) : k ∈ d.keys ↔ (d.get? k).isSome := by
  simp only [keys, List.mem_map, Option.isSome_iff_exists, get?_eq_some_iff]
  constructor
  · rintro ⟨⟨_, v⟩, he, rfl⟩
    exact ⟨v, he⟩
  · rintro ⟨v, hv⟩
    exact ⟨_, hv, rfl⟩

variable [Inhabited β]

/-- An entry is its key paired with what the dictionary holds there. -/
theorem entry_eq (d : Dict κ β) {e : κ × β} (he : e ∈ d.entries) :
    e = (e.1, (d.get? e.1).getD default) := by
  rw [(d.get?_eq_some_iff e.1 e.2).mpr he]
  rfl

theorem find?_entries (d : Dict κ β) (l : List (κ × β)) (hl : ∀ e ∈ l, e ∈ d.entries)
    (P : κ → Bool) : l.find? (fun e => P e.1) =
      ((l.map Prod.fst).find? P).map fun k => (k, (d.get? k).getD default) := by
  rw [List.find?_map]
  cases h : l.find? (fun e => P e.1) with
  | none => simp [h]
  | some e => simpa [Function.comp_def, h] using d.entry_eq (hl e (List.mem_of_find?_eq_some h))

theorem min?_eq (d : Dict κ β) :
    d.min? = d.keys.head?.map fun k => (k, (d.get? k).getD default) := by
  cases h : d.entries with
  | nil => simp [min?, keys, h]
  | cons e => simpa [min?, keys, h] using d.entry_eq (e := e) (by simp [h])

theorem max?_eq (d : Dict κ β) :
    d.max? = d.keys.reverse.head?.map fun k => (k, (d.get? k).getD default) := by
  rw [max?, keys, ← List.map_reverse]
  cases h : d.entries.reverse with
  | nil => simp
  | cons e =>
    simpa using d.entry_eq (e := e) (List.mem_reverse.mp (h ▸ List.mem_cons_self))

theorem next?_eq (d : Dict κ β) (k : κ) :
    d.next? k = (d.keys.find? fun x => decide (k < x)).map fun x =>
      (x, (d.get? x).getD default) :=
  d.find?_entries _ (fun _ => id) fun x => decide (k < x)

theorem prev?_eq (d : Dict κ β) (k : κ) :
    d.prev? k = (d.keys.reverse.find? fun x => decide (x < k)).map fun x =>
      (x, (d.get? x).getD default) := by
  rw [keys, ← List.map_reverse]
  exact d.find?_entries _ (fun _ => List.mem_reverse.mp) fun x => decide (x < k)

section Permutations

omit [Inhabited β]

theorem entries_nodup (d : Dict κ β) : d.entries.Nodup :=
  d.sorted.imp fun {_ _} h he => h.ne (congrArg Prod.fst he)

/-- An insertion puts one entry next to those of the other keys. -/
theorem insert_perm (d : Dict κ β) (k : κ) (v : β) :
    (d.insert k v).entries.Perm ((k, v) :: (d.erase k).entries) := by
  have hn : ((k, v) :: (d.erase k).entries).Nodup := by
    refine List.nodup_cons.mpr ⟨?_, (d.erase k).entries_nodup⟩
    intro h
    exact ((mem_erase_entries d k _).mp h).1 rfl
  refine (List.perm_ext_iff_of_nodup (d.insert k v).entries_nodup hn).mpr fun e => ?_
  rw [mem_insert_entries, List.mem_cons, mem_erase_entries]

theorem erase_perm {d : Dict κ β} {k : κ} {v : β} (h : d.get? k = some v) :
    d.entries.Perm ((k, v) :: (d.erase k).entries) := by
  have hm := (d.get?_eq_some_iff k v).mp h
  have hn : ((k, v) :: (d.erase k).entries).Nodup := by
    refine List.nodup_cons.mpr ⟨?_, (d.erase k).entries_nodup⟩
    intro h
    exact ((mem_erase_entries d k _).mp h).1 rfl
  refine (List.perm_ext_iff_of_nodup d.entries_nodup hn).mpr fun e => ?_
  rw [List.mem_cons, mem_erase_entries]
  constructor
  · intro he
    by_cases hk : e.1 = k
    · exact .inl (d.key_inj he hm hk)
    · exact .inr ⟨hk, he⟩
  · rintro (rfl | ⟨-, he⟩)
    · exact hm
    · exact he

theorem erase_of_absent {d : Dict κ β} {k : κ} (h : d.get? k = none) :
    (d.erase k).entries = d.entries := by
  rw [get?_eq_none_iff] at h
  apply List.filter_eq_self.mpr
  intro e he
  simpa using h e he

end Permutations

section Front

omit [Inhabited β]

variable {d : Dict κ β} {e : κ × β} {rest : List (κ × β)}

theorem front_lt (h : d.entries = e :: rest) : ∀ x ∈ rest, e.1 < x.1 :=
  (List.pairwise_cons.mp (h ▸ d.sorted)).1

/-- Erasing the least key leaves the others as they are. -/
theorem erase_front (h : d.entries = e :: rest) : (d.erase e.1).entries = rest := by
  have hr : rest.filter (fun x => decide (x.1 ≠ e.1)) = rest := by
    apply List.filter_eq_self.mpr
    intro x hx
    simpa using (front_lt h x hx).ne'
  change d.entries.filter (fun x => decide (x.1 ≠ e.1)) = rest
  rw [h, List.filter_cons]
  simp only [ne_eq, not_true_eq_false, decide_false, Bool.false_eq_true, if_false]
  exact hr

theorem next?_front {k : κ} (h : ∀ x ∈ d.entries, k < x.1) : d.next? k = d.entries.head? := by
  rw [next?]
  cases hd : d.entries with
  | nil => rfl
  | cons x =>
    rw [List.find?_cons_of_pos (by simpa using h x (by simp [hd])), List.head?_cons]

end Front

end Dict

end Dexdo
