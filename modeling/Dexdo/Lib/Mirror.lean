import Mathlib.Algebra.BigOperators.Group.Finset.Basic
import Mathlib.Data.List.Basic

namespace Dexdo.Mirror

variable {α β μ : Type} {apply : α → μ → Option α} {R : α → β → Prop} {ms : List μ} {a c : α}
  {b : β}

/-- The copy `a`, once it has read the messages `ms` on their way to it, agrees with the original
`b`. -/
def Synced (apply : α → μ → Option α) (R : α → β → Prop) (ms : List μ) (a : α) (b : β) : Prop :=
  ∃ c, ms.foldlM apply a = some c ∧ R c b

theorem Synced.nil (h : R a b) : Synced apply R [] a b := ⟨a, rfl, h⟩

/-- The original changes and says so: the new messages go behind those on their way. -/
theorem Synced.send {b' : β} {ns : List μ} (h : Synced apply R ms a b)
    (hs : ∀ c, R c b → ∃ c', ns.foldlM apply c = some c' ∧ R c' b') :
    Synced apply R (ms ++ ns) a b' := by
  obtain ⟨c, hc, hR⟩ := h
  obtain ⟨c', hc', hR'⟩ := hs c hR
  refine ⟨c', ?_, hR'⟩
  rw [List.foldlM_append, hc]
  exact hc'

/-- The copy reads the first message. -/
theorem Synced.receive {m : μ} (h : Synced apply R (m :: ms) a b) :
    ∃ a', apply a m = some a' ∧ Synced apply R ms a' b := by
  obtain ⟨c, hc, hR⟩ := h
  rw [List.foldlM_cons] at hc
  obtain ⟨a', ha, hc⟩ := Option.bind_eq_some_iff.mp hc
  exact ⟨a', ha, c, hc, hR⟩

/-- The original changes and says nothing. -/
theorem Synced.mono {b' : β} (h : Synced apply R ms a b) (hs : ∀ c, R c b → R c b') :
    Synced apply R ms a b' := by
  obtain ⟨c, hc, hR⟩ := h
  exact ⟨c, hc, hs c hR⟩

/-- What every message on its way keeps, the messages keep together. -/
theorem foldlM_keeps {P : α → Prop} (hP : ∀ m ∈ ms, ∀ x y, P x → apply x m = some y → P y)
    (ha : P a) (h : ms.foldlM apply a = some c) : P c := by
  induction ms generalizing a with
  | nil =>
    cases h
    exact ha
  | cons m ms ih =>
    rw [List.foldlM_cons] at h
    obtain ⟨x, hx, h⟩ := Option.bind_eq_some_iff.mp h
    refine ih (fun m' hm' => hP m' (List.mem_cons_of_mem _ hm')) ?_ h
    exact hP m (List.mem_cons_self ..) a x ha hx

/-- Messages that leave the copy as it is. -/
theorem foldlM_still (h : ∀ m ∈ ms, apply a m = some a) : ms.foldlM apply a = some a := by
  induction ms with
  | nil => rfl
  | cons m ms ih =>
    rw [List.foldlM_cons, h m (List.mem_cons_self ..)]
    exact ih fun m' hm' => h m' (List.mem_cons_of_mem _ hm')

end Dexdo.Mirror
