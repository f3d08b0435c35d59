import Mathlib.Data.List.GetD
import Mathlib.Data.List.Range
import Mathlib.Logic.Function.Basic
import Mathlib.Tactic

namespace Dexdo

variable {α : Type} [Inhabited α]

/-- A ring of `cap` slots that shows the newest entries of `l`, the newest one in slot `cur` and
each older one in the slot before. -/
structure Newest (cap : ℕ) (f : ℕ → α) (cur : ℕ) (l : List α) : Prop where
  lt : cur < cap
  slot : ∀ k < cap, f ((cur + cap - k) % cap) = l.getD k default

namespace Newest

variable {cap : ℕ} {f : ℕ → α} {cur : ℕ} {l : List α}

theorem empty (h : 0 < cap) : Newest cap (fun _ => (default : α)) 0 [] := by
  refine ⟨h, ?_⟩
  intro k _
  rfl

theorem slot_zero (h : cur < cap) : (cur + cap - 0) % cap = cur := by
  rw [Nat.sub_zero, Nat.add_mod_right, Nat.mod_eq_of_lt h]

theorem slot_inj {j k : ℕ} (h : cur < cap) (hj : j < cap) (hk : k < cap)
    (he : (cur + cap - j) % cap = (cur + cap - k) % cap) : j = k := by
  have slot (i : ℕ) (hi : i < cap) :
      (cur + cap - i) % cap = if i ≤ cur then cur - i else cur + cap - i := by
    split_ifs with hle
    · rw [show cur + cap - i = cur - i + cap by omega, Nat.add_mod_right]
      exact Nat.mod_eq_of_lt (by omega)
    · exact Nat.mod_eq_of_lt (by omega)
  rw [slot j hj, slot k hk] at he
  split_ifs at he <;> omega

theorem head (h : Newest cap f cur l) : f cur = l.getD 0 default := by
  have h0 := h.slot 0 (Nat.zero_lt_of_lt h.lt)
  rwa [slot_zero h.lt] at h0

/-- Writing the current slot changes the newest entry. -/
theorem set (h : Newest cap f cur l) (x : α) :
    Newest cap (Function.update f cur x) cur (x :: l.tail) := by
  refine ⟨h.lt, ?_⟩
  intro k hk
  cases k with
  | zero =>
    rw [slot_zero h.lt, Function.update_self]
    rfl
  | succ k =>
    have hne : (cur + cap - (k + 1)) % cap ≠ cur := by
      intro he
      have h0 := slot_inj h.lt hk (Nat.zero_lt_of_lt h.lt) (he.trans (slot_zero h.lt).symm)
      omega
    rw [Function.update_of_ne hne, h.slot (k + 1) hk]
    cases l <;> rfl

/-- Writing the next slot puts a new entry in front and drops the oldest one shown. -/
theorem push (h : Newest cap f cur l) (x : α) :
    Newest cap (Function.update f ((cur + 1) % cap) x) ((cur + 1) % cap) (x :: l) := by
  have hlt : (cur + 1) % cap < cap := Nat.mod_lt _ (Nat.zero_lt_of_lt h.lt)
  refine ⟨hlt, ?_⟩
  intro k hk
  cases k with
  | zero =>
    rw [slot_zero hlt, Function.update_self]
    rfl
  | succ k =>
    have hne : ((cur + 1) % cap + cap - (k + 1)) % cap ≠ (cur + 1) % cap := by
      intro he
      have h0 := slot_inj hlt hk (Nat.zero_lt_of_lt hlt) (he.trans (slot_zero hlt).symm)
      omega
    have hsame : ((cur + 1) % cap + cap - (k + 1)) % cap = (cur + cap - k) % cap := by
      have hcur := h.lt
      rcases Nat.lt_or_ge (cur + 1) cap with hc | hc
      · rw [Nat.mod_eq_of_lt hc]
        congr 1
        omega
      · obtain rfl : cap = cur + 1 := by omega
        rw [Nat.mod_self]
        rw [show cur + (cur + 1) - k = cur - k + (cur + 1) by omega, Nat.add_mod_right]
        congr 1
        omega
    rw [Function.update_of_ne hne, hsame, h.slot k (Nat.lt_of_succ_lt hk)]
    rfl

/-- A zero entry behind the last one shows like an unused slot. -/
theorem pad (h : Newest cap f cur l) : Newest cap f cur (l ++ [default]) := by
  refine ⟨h.lt, ?_⟩
  intro k hk
  rw [h.slot k hk]
  rcases Nat.lt_trichotomy k l.length with hlt | heq | hgt
  · rw [List.getD_append _ _ _ _ hlt]
  · subst heq
    simp
  · rw [List.getD_eq_default _ _ hgt.le, List.getD_eq_default]
    rw [List.length_append]
    exact hgt

/-- The slots hold the newest entries, in some order. -/
theorem perm (h : Newest cap f cur l) :
    ((List.range cap).map f).Perm ((List.range cap).map fun k => l.getD k default) := by
  have hslots : ((List.range cap).map fun k => (cur + cap - k) % cap).Perm (List.range cap) := by
    apply List.Subperm.perm_of_length_le
    · apply List.subperm_of_subset
      · refine List.Nodup.map_on ?_ List.nodup_range
        intro j hj k hk he
        exact slot_inj h.lt (List.mem_range.mp hj) (List.mem_range.mp hk) he
      · intro i hi
        obtain ⟨k, -, rfl⟩ := List.mem_map.mp hi
        exact List.mem_range.mpr (Nat.mod_lt _ (Nat.zero_lt_of_lt h.lt))
    · simp
  refine (hslots.map f).symm.trans ?_
  rw [List.map_map]
  apply List.Perm.of_eq
  apply List.map_congr_left
  intro k hk
  exact h.slot k (List.mem_range.mp hk)

theorem range_getD (n : ℕ) (l : List α) (p : α → Bool) (hp : p default = false) :
    ((List.range n).map fun k => l.getD k default).filter p = (l.take n).filter p := by
  induction n generalizing l with
  | zero => rfl
  | succ n ih =>
    rw [List.range_succ_eq_map, List.map_cons, List.map_map]
    cases l with
    | nil =>
      rw [List.take_nil, List.filter_nil, List.filter_eq_nil_iff]
      intro x hx
      have hd : x = default := by
        rcases List.mem_cons.mp hx with rfl | hx
        · rfl
        · obtain ⟨k, -, rfl⟩ := List.mem_map.mp hx
          rfl
      rw [hd, hp]
      exact Bool.false_ne_true
    | cons y l =>
      rw [List.take_succ_cons, List.filter_cons, List.filter_cons]
      have htail := ih l
      change (if p y then y :: ((List.range n).map fun k => l.getD k default).filter p
        else ((List.range n).map fun k => l.getD k default).filter p) = _
      rw [htail]

/-- What the ring shows of the entries with a property the zero entry does not have. -/
theorem filter_perm (h : Newest cap f cur l) {p : α → Bool} (hp : p default = false) :
    (((List.range cap).map f).filter p).Perm ((l.take cap).filter p) := by
  rw [← range_getD cap l p hp]
  exact h.perm.filter p

end Newest

end Dexdo
