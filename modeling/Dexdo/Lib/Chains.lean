import Dexdo.Lib.Linked

namespace Dexdo

/-- Doubly linked lists over shared link maps, one list for each key. -/
@[ext]
structure Chains (κ : Type) where
  first : κ → ℕ
  last : κ → ℕ
  next : ℕ → ℕ
  prev : ℕ → ℕ

namespace Chains

section Links

variable {κ : Type} (c : Chains κ)

/-- `next` links of one list, with its first element at the sentinel. -/
def nextAt (k : κ) (a : ℕ) : ℕ := if a = 0 then c.first k else c.next a

def prevAt (k : κ) (a : ℕ) : ℕ := if a = 0 then c.last k else c.prev a

@[simp] theorem nextAt_zero (k : κ) : c.nextAt k 0 = c.first k := if_pos rfl

@[simp] theorem prevAt_zero (k : κ) : c.prevAt k 0 = c.last k := if_pos rfl

theorem nextAt_of_ne (k : κ) {a : ℕ} (h : a ≠ 0) : c.nextAt k a = c.next a := if_neg h

theorem prevAt_of_ne (k : κ) {a : ℕ} (h : a ≠ 0) : c.prevAt k a = c.prev a := if_neg h

/-- The list of every key is linked up, and no element is in two of them. -/
structure Holds (l : κ → List ℕ) : Prop where
  linked : ∀ k, Linked (c.nextAt k) (c.prevAt k) (l k)
  nodup : ∀ k, (l k).Nodup
  disjoint : ∀ j k x, x ∈ l j → x ∈ l k → j = k
  nonzero : ∀ k, 0 ∉ l k

end Links

namespace Holds

variable {κ : Type} {c d : Chains κ} {l : κ → List ℕ} {k : κ} {x y : ℕ}

theorem first_eq (h : c.Holds l) (k : κ) : c.first k = (l k).head?.getD 0 := by
  simpa using (h.linked k).head_eq

theorem last_eq (h : c.Holds l) (k : κ) : c.last k = (l k).getLast?.getD 0 := by
  simpa using (h.linked k).last_eq

theorem ne_zero (h : c.Holds l) (hx : x ∈ l k) : x ≠ 0 := fun e => h.nonzero k (e ▸ hx)

theorem first_mem (h : c.Holds l) (h0 : c.first k ≠ 0) : c.first k ∈ l k := by
  rw [h.first_eq] at h0 ⊢
  cases hl : l k with
  | nil => simp [hl] at h0
  | cons => simp

theorem last_mem (h : c.Holds l) (h0 : c.last k ≠ 0) : c.last k ∈ l k := by
  rw [h.last_eq] at h0 ⊢
  cases hl : (l k).getLast? with
  | none => simp [hl] at h0
  | some => simpa using List.mem_of_getLast? hl

theorem first_eq_zero (h : c.Holds l) (k : κ) : c.first k = 0 ↔ l k = [] := by
  rw [h.first_eq]
  cases hl : l k with
  | nil => simp
  | cons a => simpa using h.ne_zero (k := k) (x := a) (by simp [hl])

theorem last_eq_zero (h : c.Holds l) (k : κ) : c.last k = 0 ↔ l k = [] := by
  constructor
  · intro h0
    rw [h.last_eq] at h0
    cases hl : (l k).getLast? with
    | none => exact List.getLast?_eq_none_iff.mp hl
    | some =>
      rw [hl] at h0
      exact absurd h0 (h.ne_zero (List.mem_of_getLast? hl))
  · intro hl
    rw [h.last_eq, hl]
    rfl

/-- Around an element: what follows it and what comes before it in its list. -/
theorem split (h : c.Holds l) (hx : x ∈ l k) : ∃ u v, l k = u ++ x :: v ∧
    c.next x = v.head?.getD 0 ∧ c.prev x = u.getLast?.getD 0 := by
  obtain ⟨u, v, huv⟩ := List.append_of_mem hx
  have hl := h.linked k
  rw [huv] at hl
  have hn := hl.next_of_split
  have hp := hl.prev_of_split
  rw [nextAt_of_ne _ _ (h.ne_zero hx)] at hn
  rw [prevAt_of_ne _ _ (h.ne_zero hx)] at hp
  exact ⟨u, v, huv, hn, hp⟩

theorem next_mem (h : c.Holds l) (hx : x ∈ l k) (h0 : c.next x ≠ 0) : c.next x ∈ l k := by
  obtain ⟨u, v, huv, hn, -⟩ := h.split hx
  rw [hn] at h0 ⊢
  cases v with
  | nil => simp at h0
  | cons => simp [huv]

theorem prev_mem (h : c.Holds l) (hx : x ∈ l k) (h0 : c.prev x ≠ 0) : c.prev x ∈ l k := by
  obtain ⟨u, v, huv, -, hp⟩ := h.split hx
  rw [hp] at h0 ⊢
  cases hu : u.getLast? with
  | none => simp [hu] at h0
  | some =>
    rw [huv]
    exact List.mem_append_left _ (List.mem_of_getLast? hu)

theorem congr (h : c.Holds l) (hf : d.first = c.first) (hl : d.last = c.last)
    (hn : ∀ k, ∀ x ∈ l k, d.next x = c.next x) (hp : ∀ k, ∀ x ∈ l k, d.prev x = c.prev x) :
    d.Holds l := by
  refine ⟨fun k => (h.linked k).congr ?_ fun a ha => ?_, h.nodup, h.disjoint, h.nonzero⟩
  · simp [hf, hl]
  · have h0 := h.ne_zero ha
    simp [nextAt_of_ne, prevAt_of_ne, h0, hn k a ha, hp k a ha]

section Sorted

variable (h : c.Holds l) (hs : (l k).Pairwise (· < ·))

include h hs

/-- In an increasing list every element is at most `x` or at least what follows `x`. -/
theorem next_least (hx : x ∈ l k) (hy : y ∈ l k) : y ≤ x ∨ (c.next x ≠ 0 ∧ c.next x ≤ y) := by
  obtain ⟨u, v, huv, hn, -⟩ := h.split hx
  rw [huv] at hy hs
  rcases List.mem_append.mp hy with hy | hy
  · exact .inl ((List.pairwise_append.mp hs).2.2 y hy x (by simp)).le
  rcases List.mem_cons.mp hy with rfl | hy
  · exact .inl le_rfl
  · refine .inr ?_
    have hv := (List.pairwise_cons.mp (List.pairwise_append.mp hs).2.1).2
    cases v with
    | nil => simp at hy
    | cons a =>
      have ha : a ≠ 0 := h.ne_zero (k := k) (by simp [huv])
      rw [hn]
      refine ⟨ha, ?_⟩
      rcases List.mem_cons.mp hy with rfl | hy
      · exact le_rfl
      · exact ((List.pairwise_cons.mp hv).1 y hy).le

theorem lt_next (hx : x ∈ l k) (h0 : c.next x ≠ 0) : x < c.next x := by
  obtain ⟨u, v, huv, hn, -⟩ := h.split hx
  rw [huv] at hs
  rw [hn] at h0 ⊢
  cases v with
  | nil => simp at h0
  | cons a => exact (List.pairwise_cons.mp (List.pairwise_append.mp hs).2.1).1 a (by simp)

theorem first_le (hy : y ∈ l k) : c.first k ≤ y := by
  rw [h.first_eq]
  cases hl : l k with
  | nil => simp [hl] at hy
  | cons =>
    rw [hl] at hs hy
    rcases List.mem_cons.mp hy with rfl | hy
    · exact le_rfl
    · exact ((List.pairwise_cons.mp hs).1 y hy).le

end Sorted

section Congruence

variable {d : Chains κ} {l' : κ → List ℕ} (h : c.Holds l) (h' : d.Holds l')
  (hs : (l k).Pairwise (· < ·)) (hs' : (l' k).Pairwise (· < ·))

include h h' hs hs'

/-- What follows an element of an increasing list depends on the later elements only. -/
theorem next_congr (hx : x ∈ l k) (hx' : x ∈ l' k) (hlater : ∀ y, x < y → (y ∈ l k ↔ y ∈ l' k)) :
    c.next x = d.next x := by
  by_cases h0 : c.next x = 0
  · by_contra hne
    have h0' : d.next x ≠ 0 := fun h => hne (h0.trans h.symm)
    have hlt := h'.lt_next hs' hx' h0'
    have hmem := (hlater _ hlt).mpr (h'.next_mem hx' h0')
    rcases h.next_least hs hx hmem with hle | ⟨h1, -⟩
    · exact absurd hlt (not_lt.mpr hle)
    · exact h1 h0
  · have hlt := h.lt_next hs hx h0
    have hmem := (hlater _ hlt).mp (h.next_mem hx h0)
    rcases h'.next_least hs' hx' hmem with hle | ⟨h0', hle⟩
    · exact absurd hlt (not_lt.mpr hle)
    · have hlt' := h'.lt_next hs' hx' h0'
      have hmem' := (hlater _ hlt').mpr (h'.next_mem hx' h0')
      rcases h.next_least hs hx hmem' with hle' | ⟨-, hle'⟩
      · exact absurd hlt' (not_lt.mpr hle')
      · exact le_antisymm hle' hle

/-- The first element of an increasing list is the least. -/
theorem first_congr (hall : ∀ y, y ∈ l k ↔ y ∈ l' k) : c.first k = d.first k := by
  by_cases h0 : c.first k = 0
  · have hnil := (h.first_eq_zero k).mp h0
    have hnil' : l' k = [] := List.eq_nil_iff_forall_not_mem.mpr fun y hy => by
      have hm := (hall y).mpr hy
      rw [hnil] at hm
      cases hm
    rw [h0, (h'.first_eq_zero k).mpr hnil']
  · have hmem := (hall _).mp (h.first_mem h0)
    have h0' : d.first k ≠ 0 := fun he => by
      rw [(h'.first_eq_zero k).mp he] at hmem
      cases hmem
    have hmem' := (hall _).mpr (h'.first_mem h0')
    exact le_antisymm (h.first_le hs hmem') (h'.first_le hs' hmem)

end Congruence

end Holds

section Moves

variable {κ : Type} [DecidableEq κ] (c : Chains κ) {l : κ → List ℕ} (k : κ) (x : ℕ)

/-- `x` joins the end of the list of `k`. -/
def append : Chains κ where
  first := if c.last k = 0 then Function.update c.first k x else c.first
  last := Function.update c.last k x
  next := Function.update
    (if c.last k = 0 then c.next else Function.update c.next (c.last k) x) x 0
  prev := Function.update c.prev x (c.last k)

/-- `x` leaves the list of `k`. -/
def unlink : Chains κ where
  first := if c.prev x = 0 then Function.update c.first k (c.next x) else c.first
  last := if c.next x = 0 then Function.update c.last k (c.prev x) else c.last
  next := Function.update
    (if c.prev x = 0 then c.next else Function.update c.next (c.prev x) (c.next x)) x 0
  prev := Function.update
    (if c.next x = 0 then c.prev else Function.update c.prev (c.next x) (c.prev x)) x 0

variable (j : κ) (a : ℕ)

theorem append_first :
    (c.append k x).first j = if j = k ∧ c.last k = 0 then x else c.first j := by
  unfold append
  by_cases h0 : c.last k = 0
  · simp [h0, Function.update_apply]
  · simp [h0]

theorem append_last : (c.append k x).last j = if j = k then x else c.last j :=
  Function.update_apply ..

theorem append_next : (c.append k x).next a =
    if a = x then 0 else if c.last k ≠ 0 ∧ a = c.last k then x else c.next a := by
  unfold append
  by_cases h0 : c.last k = 0
  · simp [h0, Function.update_apply]
  · simp [h0, Function.update_apply]

theorem append_prev : (c.append k x).prev a = if a = x then c.last k else c.prev a :=
  Function.update_apply ..

theorem unlink_first :
    (c.unlink k x).first j = if j = k ∧ c.prev x = 0 then c.next x else c.first j := by
  unfold unlink
  by_cases h0 : c.prev x = 0
  · simp [h0, Function.update_apply]
  · simp [h0]

theorem unlink_last :
    (c.unlink k x).last j = if j = k ∧ c.next x = 0 then c.prev x else c.last j := by
  unfold unlink
  by_cases h0 : c.next x = 0
  · simp [h0, Function.update_apply]
  · simp [h0]

theorem unlink_next : (c.unlink k x).next a =
    if a = x then 0 else if c.prev x ≠ 0 ∧ a = c.prev x then c.next x else c.next a := by
  unfold unlink
  by_cases h0 : c.prev x = 0
  · simp [h0, Function.update_apply]
  · simp [h0, Function.update_apply]

theorem unlink_prev : (c.unlink k x).prev a =
    if a = x then 0 else if c.next x ≠ 0 ∧ a = c.next x then c.prev x else c.prev a := by
  unfold unlink
  by_cases h0 : c.next x = 0
  · simp [h0, Function.update_apply]
  · simp [h0, Function.update_apply]

variable {c k x}

theorem Holds.append (h : c.Holds l) (hx : x ≠ 0) (hf : ∀ j, x ∉ l j) :
    (c.append k x).Holds (Function.update l k (l k ++ [x])) := by
  have hlast (j : κ) (hj : j ≠ k) (a : ℕ) (ha : a ∈ l j) : c.last k = 0 ∨ a ≠ c.last k := by
    refine or_iff_not_imp_left.mpr fun h0 e => hj (h.disjoint j k a ha ?_)
    rw [e]
    exact h.last_mem h0
  refine ⟨fun j => ?_, fun j => ?_, fun i j a hi hj => ?_, fun j => ?_⟩
  · by_cases hj : j = k
    · subst hj
      rw [Function.update_self]
      have hl := (h.linked j).append x hx (hf j) (h.nodup j) (h.nonzero j)
      refine hl.congr ?_ fun a ha => ?_
      · simp only [nextAt_zero, prevAt_zero, Chains.append, Function.update_self]
        rw [Function.update_of_ne hx.symm, Function.update_of_ne hx.symm, Function.update_self]
        by_cases h0 : c.last j = 0
        · simp [h0]
        · simp [h0, Ne.symm h0]
      · have ha0 : a ≠ 0 := by
          rcases List.mem_append.mp ha with ha | ha
          · exact h.ne_zero ha
          · rw [List.mem_singleton.mp ha]; exact hx
        simp only [nextAt_of_ne _ _ ha0, prevAt_of_ne _ _ ha0, prevAt_zero, Chains.append]
        by_cases hax : a = x
        · simp [hax]
        · simp only [Function.update_of_ne hax, Function.update_of_ne ha0]
          by_cases h0 : c.last j = 0
          · simp [h0, ha0, nextAt_of_ne, prevAt_of_ne]
          · by_cases hal : a = c.last j <;>
              simp [h0, ha0, hal, nextAt_of_ne, prevAt_of_ne]
    · rw [Function.update_of_ne hj]
      refine (h.linked j).congr ?_ fun a ha => ?_
      · by_cases h0 : c.last k = 0 <;> simp [Chains.append, h0, hj]
      · have ha0 := h.ne_zero ha
        have hax : a ≠ x := fun e => hf j (e ▸ ha)
        simp only [nextAt_of_ne _ _ ha0, prevAt_of_ne _ _ ha0, Chains.append,
          Function.update_of_ne hax, and_true]
        rcases hlast j hj a ha with h0 | h0
        · simp [h0]
        · split_ifs
          · rfl
          · exact Function.update_of_ne h0 _ _
  · by_cases hj : j = k
    · subst hj
      rw [Function.update_self]
      refine List.nodup_append.mpr ⟨h.nodup j, List.nodup_singleton x, fun a ha b hb e => ?_⟩
      rw [List.mem_singleton.mp hb] at e
      exact hf j (e ▸ ha)
    · rw [Function.update_of_ne hj]
      exact h.nodup j
  · have hmem (j : κ) (ha : a ∈ Function.update l k (l k ++ [x]) j) :
        a ∈ l j ∨ (j = k ∧ a = x) := by
      by_cases hj : j = k
      · subst hj
        simpa using ha
      · rw [Function.update_of_ne hj] at ha
        exact .inl ha
    rcases hmem i hi with h1 | ⟨rfl, h1⟩ <;> rcases hmem j hj with h2 | ⟨rfl, h2⟩
    · exact h.disjoint i j a h1 h2
    · exact absurd (h2 ▸ h1) (hf i)
    · exact absurd (h1 ▸ h2) (hf j)
    · rfl
  · by_cases hj : j = k
    · subst hj
      simp [h.nonzero j, hx.symm]
    · rw [Function.update_of_ne hj]
      exact h.nonzero j

theorem Holds.unlink (h : c.Holds l) (hx : x ∈ l k) :
    (c.unlink k x).Holds (Function.update l k ((l k).erase x)) := by
  have hx0 := h.ne_zero hx
  have hsub (j : κ) (a : ℕ) (ha : a ∈ Function.update l k ((l k).erase x) j) : a ∈ l j := by
    by_cases hj : j = k
    · subst hj
      rw [Function.update_self] at ha
      exact List.mem_of_mem_erase ha
    · rwa [Function.update_of_ne hj] at ha
  refine ⟨fun j => ?_, fun j => ?_, fun i j a hi hj => h.disjoint i j a (hsub i a hi) (hsub j a hj),
    fun j hj => h.nonzero j (hsub j 0 hj)⟩
  · by_cases hj : j = k
    · subst hj
      rw [Function.update_self]
      have e1 : c.nextAt j x = c.next x := c.nextAt_of_ne j hx0
      have e2 : c.prevAt j x = c.prev x := c.prevAt_of_ne j hx0
      refine (h.linked j).erase (h.nodup j) (h.nonzero j) hx (fun a ha => ?_) fun a ha => ?_
      · rw [e1, e2]
        by_cases ha0 : a = 0
        · subst ha0
          by_cases h0 : c.prev x = 0
          · simp [Chains.unlink, h0]
          · simp [Chains.unlink, h0, Ne.symm h0]
        · by_cases h0 : c.prev x = 0
          · simp [Chains.unlink, h0, nextAt_of_ne _ _ ha0, ha, ha0]
          · simp [Chains.unlink, h0, nextAt_of_ne _ _ ha0, ha, Function.update_apply]
      · rw [e1, e2]
        by_cases ha0 : a = 0
        · subst ha0
          by_cases h0 : c.next x = 0
          · simp [Chains.unlink, h0]
          · simp [Chains.unlink, h0, Ne.symm h0]
        · by_cases h0 : c.next x = 0
          · simp [Chains.unlink, h0, prevAt_of_ne _ _ ha0, ha, ha0]
          · simp [Chains.unlink, h0, prevAt_of_ne _ _ ha0, ha, Function.update_apply]
    · rw [Function.update_of_ne hj]
      have hne (b : ℕ) (hb : b ≠ 0 → b ∈ l k) (a : ℕ) (ha : a ∈ l j) : b = 0 ∨ a ≠ b :=
        or_iff_not_imp_left.mpr fun h0 e => hj (h.disjoint j k a ha (e ▸ hb h0))
      refine (h.linked j).congr ?_ fun a ha => ?_
      · constructor
        · by_cases h0 : c.prev x = 0 <;> simp [Chains.unlink, h0, hj]
        · by_cases h0 : c.next x = 0 <;> simp [Chains.unlink, h0, hj]
      · have ha0 := h.ne_zero ha
        have hax : a ≠ x := fun e => hj (h.disjoint j k a ha (e ▸ hx))
        simp only [nextAt_of_ne _ _ ha0, prevAt_of_ne _ _ ha0, Chains.unlink,
          Function.update_of_ne hax]
        constructor
        · rcases hne _ (h.prev_mem hx) a ha with h0 | h0
          · simp [h0]
          · split_ifs
            · rfl
            · exact Function.update_of_ne h0 _ _
        · rcases hne _ (h.next_mem hx) a ha with h0 | h0
          · simp [h0]
          · split_ifs
            · rfl
            · exact Function.update_of_ne h0 _ _
  · by_cases hj : j = k
    · subst hj
      rw [Function.update_self]
      exact (h.nodup j).erase x
    · rw [Function.update_of_ne hj]
      exact h.nodup j

end Moves

end Chains

end Dexdo
