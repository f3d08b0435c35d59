import Mathlib.Tactic

namespace Dexdo.Votes

variable {ι κ : Type} [DecidableEq κ]

/-- Number of voters whose vote is `x`. -/
def count (voters : List ι) (v : ι → Option κ) (x : κ) : ℕ :=
  voters.countP fun i => decide (v i = some x)

theorem count_none (voters : List ι) (x : κ) : count voters (fun _ => none) x = 0 := by
  simp [count]

theorem count_cons_of_ne {voters : List ι} {v : ι → Option κ} {i : ι} {x : κ} (h : v i ≠ some x) :
    count (i :: voters) v x = count voters v x := by
  simp [count, h]

theorem count_pos {voters : List ι} {v : ι → Option κ} {i : ι} {x : κ} (hi : i ∈ voters)
    (h : v i = some x) : 0 < count voters v x :=
  List.countP_pos_iff.mpr ⟨i, hi, by simpa using h⟩

variable [DecidableEq ι]

theorem count_update_of_notMem {voters : List ι} {v : ι → Option κ} {i : ι} {o : Option κ} {x : κ}
    (h : i ∉ voters) : count voters (Function.update v i o) x = count voters v x := by
  apply List.countP_congr
  intro j hj
  rw [Function.update_of_ne (ne_of_mem_of_not_mem hj h)]

/-- A new vote leaves the old choice and joins the new one. -/
theorem count_update {voters : List ι} (hn : voters.Nodup) {v : ι → Option κ} {i : ι}
    (hi : i ∈ voters) (o : Option κ) (x : κ) :
    count voters (Function.update v i o) x + (if v i = some x then 1 else 0) =
      count voters v x + if o = some x then 1 else 0 := by
  induction voters with
  | nil => cases hi
  | cons j voters ih =>
    obtain ⟨hj, hn⟩ := List.nodup_cons.mp hn
    rcases List.mem_cons.mp hi with rfl | hi
    · have h := count_update_of_notMem (v := v) (o := o) (x := x) hj
      simp only [count, List.countP_cons, decide_eq_true_eq, Function.update_self] at h ⊢
      omega
    · have h := ih hn hi
      have hne : j ≠ i := fun hji => hj (hji ▸ hi)
      simp only [count, List.countP_cons, decide_eq_true_eq, Function.update_of_ne hne] at h ⊢
      omega

end Dexdo.Votes
