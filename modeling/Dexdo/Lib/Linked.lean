import Mathlib.Data.List.Nodup
import Mathlib.Logic.Function.Basic
import Mathlib.Tactic

namespace Dexdo

/-- Circular doubly linked list through the sentinel `0`: `next 0` is the head,
`prev 0` the tail, and both links of `l` run through its elements in order. -/
structure Linked (next prev : ℕ → ℕ) (l : List ℕ) : Prop where
  fwd : (0 :: l).map next = l ++ [0]
  bwd : (l ++ [0]).map prev = 0 :: l

namespace Linked

variable {next prev next' prev' : ℕ → ℕ} {l : List ℕ}

theorem nil_iff : Linked next prev [] ↔ next 0 = 0 ∧ prev 0 = 0 := by
  constructor
  · intro h
    exact ⟨by simpa using h.fwd, by simpa using h.bwd⟩
  · rintro ⟨hn, hp⟩
    exact ⟨by simp [hn], by simp [hp]⟩

theorem congr (h : Linked next prev l) (h0 : next' 0 = next 0 ∧ prev' 0 = prev 0)
    (hl : ∀ a ∈ l, next' a = next a ∧ prev' a = prev a) : Linked next' prev' l := by
  constructor
  · rw [← h.fwd]
    refine List.map_congr_left fun a ha => ?_
    rcases List.mem_cons.mp ha with rfl | ha
    · exact h0.1
    · exact (hl a ha).1
  · rw [← h.bwd]
    refine List.map_congr_left fun a ha => ?_
    rcases List.mem_append.mp ha with ha | ha
    · exact (hl a ha).2
    · rw [List.mem_singleton.mp ha]; exact h0.2

theorem head_eq (h : Linked next prev l) : next 0 = l.head?.getD 0 := by
  cases l with
  | nil => exact (nil_iff.mp h).1
  | cons => simpa using (List.cons_eq_cons.mp h.fwd).1

theorem last_eq (h : Linked next prev l) : prev 0 = l.getLast?.getD 0 := by
  have hb := h.bwd
  rw [List.map_append, List.map_singleton] at hb
  have := congrArg List.getLast? hb
  simpa [List.getLast?_cons] using this

theorem next_of_split (u v : List ℕ) (x : ℕ) (h : Linked next prev (u ++ x :: v)) :
    next x = v.head?.getD 0 := by
  have hf : next 0 :: u.map next ++ next x :: v.map next = u ++ [x] ++ (v ++ [0]) := by
    simpa using h.fwd
  have hs := (List.append_inj hf (by simp)).2
  cases v with
  | nil => simpa using hs
  | cons => simpa using (List.cons_eq_cons.mp hs).1

theorem prev_of_split (u v : List ℕ) (x : ℕ) (h : Linked next prev (u ++ x :: v)) :
    prev x = u.getLast?.getD 0 := by
  have hb : u.map prev ++ [prev x] ++ (v ++ [0]).map prev = (0 :: u) ++ x :: v := by
    simpa using h.bwd
  have hs := (List.append_inj hb (by simp)).1
  have := congrArg List.getLast? hs
  simpa [List.getLast?_cons] using this

/-- Appending a fresh element behind the tail. -/
theorem append (h : Linked next prev l) (x : ℕ) (hx : x ≠ 0) (hxl : x ∉ l)
    (hn : l.Nodup) (h0 : 0 ∉ l) :
    Linked (Function.update (Function.update next (prev 0) x) x 0)
      (Function.update (Function.update prev 0 x) x (prev 0)) (l ++ [x]) := by
  obtain ⟨U, a, hU⟩ := List.eq_nil_or_concat' (0 :: l) |>.resolve_left (by simp)
  have hlast : prev 0 = a := by
    rw [h.last_eq]
    have := congrArg List.getLast? hU
    simpa [List.getLast?_cons] using this
  have hlen : U.length = l.length := by
    have := congrArg List.length hU
    simpa using this.symm
  have hf : U.map next ++ [next a] = l ++ [0] := by simpa [hU] using h.fwd
  have hfU := (List.append_inj hf (by simpa using hlen)).1
  have hnd : (U ++ [a]).Nodup := by rw [← hU]; exact List.nodup_cons.mpr ⟨h0, hn⟩
  have haU : a ∉ U := fun hm => (List.nodup_append.mp hnd).2.2 a hm a (by simp) rfl
  have hxU : x ∉ U ++ [a] := by rw [← hU]; simp [hx, hxl]
  simp only [List.mem_append, List.mem_singleton, not_or] at hxU
  constructor
  · have e : (0 :: (l ++ [x])) = U ++ [a] ++ [x] := by rw [← hU]; simp
    rw [e, hlast]
    have m : U.map (Function.update (Function.update next a x) x 0) = U.map next := by
      refine List.map_congr_left fun c hc => ?_
      have hca : c ≠ a := fun hh => haU (hh ▸ hc)
      have hcx : c ≠ x := fun hh => hxU.1 (hh ▸ hc)
      simp [hca, hcx]
    simp [m, hfU, Ne.symm hxU.2]
  · have m : l.map (Function.update (Function.update prev 0 x) x (prev 0)) = l.map prev := by
      refine List.map_congr_left fun c hc => ?_
      have hc0 : c ≠ 0 := fun hh => h0 (hh ▸ hc)
      have hcx : c ≠ x := fun hh => hxl (hh ▸ hc)
      simp [hc0, hcx]
    have hb : l.map prev ++ [prev 0] = 0 :: l := by simpa using h.bwd
    simp only [List.map_append, List.map_singleton, m, Function.update_self]
    rw [Function.update_of_ne (Ne.symm hx), Function.update_self, hb]
    simp

/-- Unlinking an element from any position. -/
theorem remove (u v : List ℕ) (x : ℕ) (h : Linked next prev (u ++ x :: v))
    (hn : (u ++ x :: v).Nodup) (h0 : 0 ∉ u ++ x :: v) :
    Linked (Function.update next (prev x) (next x))
      (Function.update prev (next x) (prev x)) (u ++ v) := by
  obtain ⟨U, a, hU⟩ := List.eq_nil_or_concat' (0 :: u) |>.resolve_left (by simp)
  obtain ⟨b, B, hB⟩ : ∃ b B, v ++ [0] = b :: B := by
    cases v with
    | nil => exact ⟨0, [], rfl⟩
    | cons b v => exact ⟨b, v ++ [0], rfl⟩
  have ha : prev x = a := by
    rw [prev_of_split u v x h]
    have := congrArg List.getLast? hU
    simpa [List.getLast?_cons] using this
  have hb : next x = b := by
    rw [next_of_split u v x h]
    have := congrArg List.head? hB
    cases v with
    | nil => simpa using this
    | cons => simpa using this
  have hlen : U.length = u.length := by
    have := congrArg List.length hU
    simpa using this.symm
  have hf : U.map next ++ (next a :: next x :: v.map next) = u ++ (x :: (b :: B)) := by
    have e := h.fwd
    rw [show 0 :: (u ++ x :: v) = U ++ [a] ++ x :: v by rw [← hU]; simp,
      show u ++ x :: v ++ [0] = u ++ (x :: (v ++ [0])) by simp, hB] at e
    simpa using e
  obtain ⟨hfU, hfv⟩ := List.append_inj hf (by simpa using hlen)
  have hfB : v.map next = B := by simpa [hb] using (List.cons_eq_cons.mp (List.cons_eq_cons.mp hfv).2).2
  have hp : u.map prev ++ (prev x :: (b :: B).map prev) = U ++ (a :: x :: v) := by
    have e := h.bwd
    rw [show 0 :: (u ++ x :: v) = U ++ [a] ++ x :: v by rw [← hU]; simp,
      show u ++ x :: v ++ [0] = u ++ (x :: (v ++ [0])) by simp, hB] at e
    simpa using e
  obtain ⟨hpU, hpv⟩ := List.append_inj hp (by simpa using hlen.symm)
  have hpB : B.map prev = v :=
    (List.cons_eq_cons.mp (List.cons_eq_cons.mp hpv).2).2
  have hnd : (U ++ a :: x :: v).Nodup := by
    rw [show U ++ a :: x :: v = 0 :: (u ++ x :: v) by
      rw [show U ++ a :: x :: v = (U ++ [a]) ++ x :: v by simp, ← hU]; simp]
    exact List.nodup_cons.mpr ⟨h0, hn⟩
  have hnd' : (u ++ x :: b :: B).Nodup := by
    rw [← hB, show u ++ x :: (v ++ [0]) = (u ++ x :: v) ++ [0] by simp]
    exact List.nodup_append.mpr ⟨hn, List.nodup_singleton 0, by
      intro c hc d hd hcd
      rw [List.mem_singleton.mp hd] at hcd
      exact h0 (hcd ▸ hc)⟩
  have sep := List.nodup_append.mp hnd
  have sep' := List.nodup_append.mp hnd'
  have hav : a ∉ v := by
    have := (List.nodup_cons.mp sep.2.1).1
    simp only [List.mem_cons, not_or] at this
    exact this.2
  have hbB : b ∉ B := (List.nodup_cons.mp (List.nodup_cons.mp sep'.2.1).2).1
  rw [ha, hb]
  constructor
  · rw [show 0 :: (u ++ v) = U ++ a :: v by
        rw [show U ++ a :: v = (U ++ [a]) ++ v by simp, ← hU]; simp,
      show u ++ v ++ [0] = u ++ (v ++ [0]) by simp, hB]
    have mU : U.map (Function.update next a b) = U.map next :=
      List.map_congr_left fun c hc =>
        Function.update_of_ne (fun hh => sep.2.2 c hc a (by simp) hh) _ _
    have mv : v.map (Function.update next a b) = v.map next :=
      List.map_congr_left fun c hc => Function.update_of_ne (fun hh : c = a => hav (hh ▸ hc)) _ _
    simp [mU, mv, hfU, hfB]
  · rw [show 0 :: (u ++ v) = U ++ a :: v by
        rw [show U ++ a :: v = (U ++ [a]) ++ v by simp, ← hU]; simp,
      show u ++ v ++ [0] = u ++ (v ++ [0]) by simp, hB]
    have mu : u.map (Function.update prev b a) = u.map prev :=
      List.map_congr_left fun c hc =>
        Function.update_of_ne (fun hh => sep'.2.2 c hc b (by simp) hh) _ _
    have mB : B.map (Function.update prev b a) = B.map prev :=
      List.map_congr_left fun c hc => Function.update_of_ne (fun hh : c = b => hbB (hh ▸ hc)) _ _
    simp [mu, mB, hpU, hpB]

/-- Unlinking by pointer writes alone; what is read through the removed element is irrelevant. -/
theorem erase (h : Linked next prev l) (hn : l.Nodup) (h0 : 0 ∉ l) {x : ℕ} (hx : x ∈ l)
    (hnext : ∀ c ≠ x, next' c = Function.update next (prev x) (next x) c)
    (hprev : ∀ c ≠ x, prev' c = Function.update prev (next x) (prev x) c) :
    Linked next' prev' (l.erase x) := by
  obtain ⟨u, v, rfl⟩ := List.append_of_mem hx
  have hxu : x ∉ u := fun hm => (List.nodup_append.mp hn).2.2 x hm x (by simp) rfl
  have hxv : x ∉ v := (List.nodup_cons.mp (List.nodup_append.mp hn).2.1).1
  have he : (u ++ x :: v).erase x = u ++ v := by
    rw [List.erase_append_right _ hxu, List.erase_cons_head]
  have hx0 : (0 : ℕ) ≠ x := fun e => h0 (e ▸ hx)
  rw [he]
  refine (remove u v x h hn h0).congr ⟨hnext 0 hx0, hprev 0 hx0⟩ fun c hc => ?_
  have hcx : c ≠ x := by
    rintro rfl
    exact (List.mem_append.mp hc).elim hxu hxv
  exact ⟨hnext c hcx, hprev c hcx⟩

end Linked

end Dexdo
