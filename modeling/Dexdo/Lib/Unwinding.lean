import Dexdo.Lib.Run

namespace Dexdo

variable {σ ι : Type}

namespace Run

/-- The calls of a trace, the hidden ones left out. -/
def core (hidden : ι → Bool) (tr : List (ι × σ)) : List ι :=
  (tr.map Prod.fst).filter fun i => !hidden i

variable {hidden : ι → Bool} {i : ι} {tr : List (ι × σ)} {u : σ}

theorem core_hidden (h : hidden i = true) : core hidden (tr ++ [(i, u)]) = core hidden tr := by
  simp [core, h]

theorem core_open (h : hidden i = false) :
    core hidden (tr ++ [(i, u)]) = core hidden tr ++ [i] := by
  simp [core, h]

/-- The calls of a trace come in the order of their times. -/
def Ordered (time : ι → ℕ) (tr : List (ι × σ)) : Prop :=
  tr.Pairwise fun a b => time a.1 ≤ time b.1

instance instDecidableOrdered (time : ι → ℕ) (tr : List (ι × σ)) : Decidable (Ordered time tr) :=
  inferInstanceAs (Decidable (tr.Pairwise _))

/-- Every call of a trace is made by time `τ`. -/
def Until (time : ι → ℕ) (τ : ℕ) (tr : List (ι × σ)) : Prop := ∀ a ∈ tr, time a.1 ≤ τ

theorem Ordered.of_append {time : ι → ℕ} {tr' : List (ι × σ)} (h : Ordered time (tr ++ tr')) :
    Ordered time tr :=
  (List.pairwise_append.mp h).1

theorem Ordered.until {time : ι → ℕ} (h : Ordered time (tr ++ [(i, u)])) :
    Until time (time i) tr :=
  fun a ha => (List.pairwise_append.mp h).2.2 a ha (i, u) (List.mem_singleton_self _)

theorem Ordered.until_concat {time : ι → ℕ} (h : Ordered time (tr ++ [(i, u)])) :
    Until time (time i) (tr ++ [(i, u)]) := by
  intro a ha
  rcases List.mem_append.mp ha with ha | ha
  · exact h.until a ha
  · obtain rfl := List.mem_singleton.mp ha
    exact Nat.le_refl _

theorem Until.of_append {time : ι → ℕ} {τ : ℕ} {tr' : List (ι × σ)}
    (h : Until time τ (tr ++ tr')) : Until time τ tr :=
  fun a ha => h a (List.mem_append_left _ ha)

theorem Until.last {time : ι → ℕ} {τ : ℕ} (h : Until time τ (tr ++ [(i, u)])) : time i ≤ τ :=
  h (i, u) (List.mem_append_right _ (List.mem_singleton_self _))

/-- A property of a state at a time: time passing keeps it, and so does every step at its own
time. -/
theorem Ordered.invariant {step : σ → ι → Option σ} {time : ι → ℕ} {s t : σ} {τ : ℕ}
    (I : ℕ → σ → Prop) (h0 : ∀ τ, I τ s) (hlater : ∀ τ τ' t, τ ≤ τ' → I τ t → I τ' t)
    (hstep : ∀ tr t i u, Run step s tr t → I (time i) t → step t i = some u → I (time i) u)
    (h : Run step s tr t) (ho : Ordered time tr) (hu : Until time τ tr) : I τ t := by
  induction h generalizing τ with
  | nil => exact h0 τ
  | snoc hr hi ih =>
    have h1 := ih ho.of_append ho.until
    exact hlater _ _ _ hu.last (hstep _ _ _ _ hr h1 hi)

theorem mem_core {i : ι} (h : i ∈ core hidden tr) : ∃ a ∈ tr, a.1 = i ∧ hidden i = false := by
  obtain ⟨h1, h2⟩ := List.mem_filter.mp h
  obtain ⟨a, ha, rfl⟩ := List.mem_map.mp h1
  exact ⟨a, ha, rfl, by simpa using h2⟩

/-- What holds of the open calls holds of every step that is not hidden. -/
theorem each_core {Q : ι → Prop} (s : σ) (h : ∀ i ∈ core hidden tr, Q i) :
    Each (fun _ i _ => hidden i = false → Q i) s tr := by
  induction tr generalizing s with
  | nil => exact trivial
  | cons a tr ih =>
    obtain ⟨i, t⟩ := a
    refine ⟨fun hi => h i ?_, ih t fun j hj => h j ?_⟩
    · simp [core, hi]
    · obtain ⟨h1, h2⟩ := List.mem_filter.mp hj
      exact List.mem_filter.mpr ⟨List.mem_cons_of_mem _ h1, h2⟩

/-- An ordered trace that ends with an open call is over when its open calls are. -/
theorem Until.of_core {time : ι → ℕ} {τ : ℕ} (ho : Ordered time tr)
    (h : ∀ i ∈ core hidden tr, time i ≤ τ)
    (hlast : tr = [] ∨ ∃ tr' i, tr = tr' ++ [(i, u)] ∧ hidden i = false) : Until time τ tr := by
  rcases hlast with rfl | ⟨tr', i, rfl, hi⟩
  · exact fun a ha => absurd ha List.not_mem_nil
  · have hle : time i ≤ τ := h i (by simp [core_open hi])
    exact fun a ha => Nat.le_trans (ho.until_concat a ha) hle

end Run

/-- Hidden steps keep the view of a state and add nothing to the figure `f`; two states that look
the same take the same open step, to states that look the same, and add the same to `f`. -/
structure Unwinding (step : σ → ι → Option σ) (hidden : ι → Bool) (time : ι → ℕ)
    (P : σ → ι → σ → Prop) (same : ℕ → σ → σ → Prop) (f : σ → ι → σ → ℕ) : Prop where
  refl : ∀ τ s, same τ s s
  symm : ∀ {τ s t}, same τ s t → same τ t s
  later : ∀ {τ τ' s t}, τ ≤ τ' → same τ s t → same τ' s t
  stutter : ∀ {τ s t i u}, hidden i = true → P s i u → step s i = some u → time i ≤ τ →
    same τ s t → same τ u t ∧ f s i u = 0
  lockstep : ∀ {s t i u v}, hidden i = false → P s i u → P t i v → step s i = some u →
    step t i = some v → same (time i) s t → same (time i) u v ∧ f s i u = f t i v

namespace Unwinding

open Run

variable {step : σ → ι → Option σ} {hidden : ι → Bool} {time : ι → ℕ} {P : σ → ι → σ → Prop}
  {same : ℕ → σ → σ → Prop} {f : σ → ι → σ → ℕ} {s u u' : σ} {tr tr' : List (ι × σ)} {τ : ℕ}

/-- Two runs that differ only in hidden calls end in states that look the same, with the same
figure. -/
theorem synced (hU : Unwinding step hidden time P same f) (h : Run step s tr u)
    (hP : Each P s tr) (ho : Ordered time tr) (hu : Until time τ tr) (h' : Run step s tr' u')
    (hP' : Each P s tr') (ho' : Ordered time tr') (hu' : Until time τ tr')
    (hc : core hidden tr = core hidden tr') :
    same τ u u' ∧ total f s tr = total f s tr' := by
  induction h generalizing τ tr' u' with
  | nil =>
    induction h' with
    | nil => exact ⟨hU.refl _ _, rfl⟩
    | @snoc tr' t u' j h' hj ih =>
      obtain ⟨hPt, hPj⟩ := each_concat.mp hP'
      rw [h'.last_eq] at hPj
      cases hh : hidden j with
      | true =>
        rw [core_hidden hh] at hc
        obtain ⟨h1, h2⟩ := ih hPt ho'.of_append hu'.of_append hc
        obtain ⟨h3, h4⟩ := hU.stutter hh hPj hj hu'.last (hU.symm h1)
        refine ⟨hU.symm h3, ?_⟩
        rw [total_concat, h'.last_eq, ← h2, h4]
        rfl
      | false =>
        rw [core_open hh] at hc
        exact absurd hc.symm (List.append_ne_nil_of_right_ne_nil _ (List.cons_ne_nil _ _))
  | @snoc tr t u i h hi ih =>
    obtain ⟨hPt, hPi⟩ := each_concat.mp hP
    rw [h.last_eq] at hPi
    cases hh : hidden i with
    | true =>
      rw [core_hidden hh] at hc
      obtain ⟨h1, h2⟩ := ih hPt ho.of_append hu.of_append h' hP' ho' hu' hc
      obtain ⟨h3, h4⟩ := hU.stutter hh hPi hi hu.last h1
      refine ⟨h3, ?_⟩
      rw [total_concat, h.last_eq, h2, h4]
      rfl
    | false =>
      rw [core_open hh] at hc
      induction h' with
      | nil => exact absurd hc (List.append_ne_nil_of_right_ne_nil _ (List.cons_ne_nil _ _))
      | @snoc tr' t' u' j h' hj ih' =>
        obtain ⟨hPt', hPj⟩ := each_concat.mp hP'
        rw [h'.last_eq] at hPj
        cases hh' : hidden j with
        | true =>
          rw [core_hidden hh'] at hc
          obtain ⟨h1, h2⟩ := ih' hPt' ho'.of_append hu'.of_append hc
          obtain ⟨h3, h4⟩ := hU.stutter hh' hPj hj hu'.last (hU.symm h1)
          refine ⟨hU.symm h3, ?_⟩
          rw [total_concat f s u' tr', h'.last_eq, ← h2, h4]
          rfl
        | false =>
          rw [core_open hh'] at hc
          obtain ⟨hcore, hij⟩ := List.append_inj' hc rfl
          obtain rfl : i = j := by simpa using hij
          obtain ⟨h1, h2⟩ := ih hPt ho.of_append ho.until h' hPt' ho'.of_append ho'.until hcore
          obtain ⟨h3, h4⟩ := hU.lockstep hh hPi hPj hi hj h1
          refine ⟨hU.later hu.last h3, ?_⟩
          rw [total_concat, total_concat, h.last_eq, h'.last_eq, h2, h4]

end Unwinding

namespace Run

variable {step : σ → ι → Option σ} {hidden : ι → Bool} {s u : σ} {tr : List (ι × σ)}

/-- A run is cut where a beginning of its open calls ends; the part before the cut ends with an
open call or is empty. -/
theorem cut (h : Run step s tr u) {A B : List ι} (hc : core hidden tr = A ++ B) :
    ∃ p q t, tr = p ++ q ∧ core hidden p = A ∧ core hidden q = B ∧ Run step s p t ∧
      Run step t q u ∧ (p = [] ∨ ∃ p' i, p = p' ++ [(i, t)] ∧ hidden i = false) := by
  induction h generalizing B with
  | nil =>
    obtain ⟨rfl, rfl⟩ := List.append_eq_nil_iff.mp hc.symm
    exact ⟨[], [], s, rfl, rfl, rfl, .nil, .nil, .inl rfl⟩
  | @snoc tr t u i h hi ih =>
    cases hh : hidden i with
    | true =>
      rw [core_hidden hh] at hc
      obtain ⟨p, q, w, rfl, h1, h2, h3, h4, h5⟩ := ih hc
      refine ⟨p, q ++ [(i, u)], w, List.append_assoc .., h1, ?_, h3, h4.snoc hi, h5⟩
      rw [core_hidden hh, h2]
    | false =>
      rw [core_open hh] at hc
      rcases List.eq_nil_or_concat B with rfl | ⟨B', j, rfl⟩
      · refine ⟨tr ++ [(i, u)], [], u, (List.append_nil _).symm, ?_, rfl, h.snoc hi, .nil,
          .inr ⟨tr, i, rfl, hh⟩⟩
        rw [core_open hh, hc, List.append_nil]
      · rw [List.concat_eq_append, ← List.append_assoc] at hc
        obtain ⟨hcore, hij⟩ := List.append_inj' hc rfl
        obtain ⟨p, q, w, rfl, h1, h2, h3, h4, h5⟩ := ih hcore
        refine ⟨p, q ++ [(i, u)], w, List.append_assoc .., h1, ?_, h3, h4.snoc hi, h5⟩
        rw [core_open hh, h2, List.concat_eq_append, hij]

end Run

end Dexdo
