import Mathlib.Data.List.Basic
import Mathlib.Data.List.Induction
import Mathlib.Data.Nat.Find
import Mathlib.Order.WellFounded

namespace Dexdo

variable {σ ι : Type}

/-- Runs of a partial step function; the trace records each label and the state it led to. -/
inductive Run (step : σ → ι → Option σ) (s : σ) : List (ι × σ) → σ → Prop
  | nil : Run step s [] s
  | snoc {tr : List (ι × σ)} {t u : σ} {i : ι} :
      Run step s tr t → step t i = some u → Run step s (tr ++ [(i, u)]) u

namespace Run

variable {step : σ → ι → Option σ} {s t : σ} {tr : List (ι × σ)}

/-- A property of trace and state that holds at the start and survives every step holds of
every run. -/
theorem invariant (I : List (ι × σ) → σ → Prop) (h0 : I [] s)
    (hstep : ∀ tr t i u, Run step s tr t → I tr t → step t i = some u → I (tr ++ [(i, u)]) u)
    (h : Run step s tr t) : I tr t := by
  induction h with
  | nil => exact h0
  | snoc hr hi ih => exact hstep _ _ _ _ hr ih hi

/-- A property of states alone. -/
theorem state_invariant (I : σ → Prop) (h0 : I s)
    (hstep : ∀ t i u, I t → step t i = some u → I u) (h : Run step s tr t) : I t :=
  h.invariant (fun _ => I) h0 fun _ t i u _ => hstep t i u

theorem append {u : σ} {tr' : List (ι × σ)} (h : Run step s tr t) (h' : Run step t tr' u) :
    Run step s (tr ++ tr') u := by
  induction h' with
  | nil => simpa using h
  | snoc _ hi ih =>
    rw [← List.append_assoc]
    exact ih.snoc hi

theorem cons {i : ι} {u : σ} (hi : step s i = some t) (h : Run step t tr u) :
    Run step s ((i, t) :: tr) u :=
  (Run.nil.snoc hi).append h

/-- The last state of a trace that starts in `s`. -/
def last : σ → List (ι × σ) → σ
  | s, [] => s
  | _, (_, t) :: tr => last t tr

theorem last_concat (s : σ) (tr : List (ι × σ)) (i : ι) (u : σ) : last s (tr ++ [(i, u)]) = u := by
  induction tr generalizing s with
  | nil => rfl
  | cons x tr ih => exact ih x.2

theorem last_eq (h : Run step s tr t) : last s tr = t := by
  cases h with
  | nil => rfl
  | snoc => exact last_concat ..

/-- The last step of a run. -/
theorem of_concat {i : ι} {u v : σ} (h : Run step s (tr ++ [(i, u)]) v) :
    ∃ t, Run step s tr t ∧ step t i = some u := by
  generalize hx : tr ++ [(i, u)] = x at h
  cases h with
  | nil => exact absurd hx (List.append_ne_nil_of_right_ne_nil _ (List.cons_ne_nil _ _))
  | snoc hr hi =>
    obtain ⟨rfl, ha⟩ := List.append_inj' hx rfl
    obtain ⟨rfl, rfl⟩ := Prod.mk.inj (List.head_eq_of_cons_eq ha)
    exact ⟨_, hr, hi⟩

/-- Both parts of a run. -/
theorem of_append {tr' : List (ι × σ)} (h : Run step s (tr ++ tr') t) :
    Run step s tr (last s tr) ∧ Run step (last s tr) tr' t := by
  induction tr' using List.reverseRecOn generalizing t with
  | nil =>
    rw [List.append_nil] at h
    rw [h.last_eq]
    exact ⟨h, .nil⟩
  | append_singleton tr' x ih =>
    rw [← List.append_assoc] at h
    obtain ⟨u, hu, hx⟩ := of_concat h
    obtain ⟨h1, h2⟩ := ih hu
    have ht : x.2 = t := (last_concat s (tr ++ tr') x.1 x.2).symm.trans h.last_eq
    exact ⟨h1, ht ▸ h2.snoc hx⟩

/-- A step in the middle of a run. -/
theorem of_middle {tr' : List (ι × σ)} {i : ι} {u : σ} (h : Run step s (tr ++ (i, u) :: tr') t) :
    step (last s tr) i = some u := by
  rw [List.append_cons] at h
  obtain ⟨v, hv, hi⟩ := of_concat (of_append h).1
  rwa [hv.last_eq]

/-- The first step of a run, and the run after it. -/
theorem of_cons {i : ι} {u v : σ} (h : Run step s ((i, u) :: tr) v) :
    step s i = some u ∧ Run step u tr v := by
  have hfirst : step (last s []) i = some u := of_middle h
  have hsplit : Run step s ([(i, u)] ++ tr) v := h
  exact ⟨hfirst, (of_append hsplit).2⟩

/-- Every step of a trace satisfies `P`, read with the states before and after it. -/
def Each (P : σ → ι → σ → Prop) : σ → List (ι × σ) → Prop
  | _, [] => True
  | s, (i, t) :: tr => P s i t ∧ Each P t tr

instance instDecidableEach {P : σ → ι → σ → Prop} [∀ s i t, Decidable (P s i t)] :
    ∀ (s : σ) (tr : List (ι × σ)), Decidable (Each P s tr)
  | _, [] => .isTrue trivial
  | s, (i, t) :: tr => @instDecidableAnd (P s i t) (Each P t tr) _ (instDecidableEach t tr)

theorem each_concat {P : σ → ι → σ → Prop} {s u : σ} {tr : List (ι × σ)} {i : ι} :
    Each P s (tr ++ [(i, u)]) ↔ Each P s tr ∧ P (last s tr) i u := by
  induction tr generalizing s with
  | nil => simp [Each, last]
  | cons x tr ih =>
    simp only [List.cons_append, Each, last]
    rw [ih, and_assoc]

/-- A figure carried along a trace, next to the states. -/
def ghost {γ : Type} (f : σ → ι → σ → γ → γ) : σ → List (ι × σ) → γ → γ
  | _, [], g => g
  | s, (i, t) :: tr, g => ghost f t tr (f s i t g)

theorem ghost_concat {γ : Type} (f : σ → ι → σ → γ → γ) (s u : σ) (tr : List (ι × σ)) (i : ι)
    (g : γ) : ghost f s (tr ++ [(i, u)]) g = f (last s tr) i u (ghost f s tr g) := by
  induction tr generalizing s g with
  | nil => rfl
  | cons x tr ih => exact ih x.2 (f s x.1 x.2 g)

/-- Sum over the steps of a trace. -/
def total (f : σ → ι → σ → ℕ) (s : σ) (tr : List (ι × σ)) : ℕ :=
  ghost (fun s i t n => n + f s i t) s tr 0

theorem total_concat (f : σ → ι → σ → ℕ) (s u : σ) (tr : List (ι × σ)) (i : ι) :
    total f s (tr ++ [(i, u)]) = total f s tr + f (last s tr) i u :=
  ghost_concat ..

theorem ghost_add (f : σ → ι → σ → ℕ) (s : σ) (tr : List (ι × σ)) (g : ℕ) :
    ghost (fun s i t n => n + f s i t) s tr g = g + total f s tr := by
  induction tr generalizing s g with
  | nil => rfl
  | cons x tr ih =>
    have h1 := ih x.2 (g + f s x.1 x.2)
    have h2 := ih x.2 (0 + f s x.1 x.2)
    simp only [total, ghost] at h1 h2 ⊢
    omega

theorem total_cons (f : σ → ι → σ → ℕ) (s : σ) (x : ι × σ) (tr : List (ι × σ)) :
    total f s (x :: tr) = f s x.1 x.2 + total f x.2 tr := by
  refine (ghost_add f x.2 tr (0 + f s x.1 x.2)).trans ?_
  rw [Nat.zero_add]

theorem total_append (f : σ → ι → σ → ℕ) (s : σ) (tr tr' : List (ι × σ)) :
    total f s (tr ++ tr') = total f s tr + total f (last s tr) tr' := by
  induction tr generalizing s with
  | nil => exact (Nat.zero_add _).symm
  | cons x tr ih =>
    rw [List.cons_append, total_cons, total_cons, ih, Nat.add_assoc]
    rfl

theorem each_append {P : σ → ι → σ → Prop} (s : σ) (tr tr' : List (ι × σ)) :
    Each P s (tr ++ tr') ↔ Each P s tr ∧ Each P (last s tr) tr' := by
  induction tr generalizing s with
  | nil => simp [Each, last]
  | cons x tr ih =>
    simp only [List.cons_append, Each, last]
    rw [ih, and_assoc]

theorem each_and {P Q : σ → ι → σ → Prop} :
    Each (fun s i t => P s i t ∧ Q s i t) s tr ↔ Each P s tr ∧ Each Q s tr := by
  induction tr generalizing s with
  | nil => simp [Each]
  | cons x tr ih =>
    simp only [Each]
    rw [ih, and_and_and_comm]

theorem Each.imp {P Q : σ → ι → σ → Prop} (hPQ : ∀ s i t, P s i t → Q s i t)
    (h : Each P s tr) : Each Q s tr := by
  induction tr generalizing s with
  | nil => exact trivial
  | cons x tr ih => exact ⟨hPQ _ _ _ h.1, ih h.2⟩

/-- Every step of a run is taken. -/
theorem taken (h : Run step s tr t) : Each (fun s i _ => (step s i).isSome = true) s tr := by
  induction h with
  | nil => exact trivial
  | snoc hr hi ih =>
    apply each_concat.mpr
    rw [hr.last_eq, hi]
    exact ⟨ih, rfl⟩

/-- Properties that agree on the steps of a run. -/
theorem each_congr {P Q : σ → ι → σ → Prop} (h : Run step s tr t)
    (hPQ : ∀ s i t, step s i = some t → (P s i t ↔ Q s i t)) : Each P s tr ↔ Each Q s tr := by
  induction h with
  | nil => exact Iff.rfl
  | snoc hr hi ih =>
    rw [each_concat, each_concat, ih, hr.last_eq]
    exact and_congr_right fun _ => hPQ _ _ _ hi

theorem each_iff {P : σ → ι → σ → Prop} :
    Each P s tr ↔ ∀ a i t c, tr = a ++ (i, t) :: c → P (last s a) i t := by
  induction tr generalizing s with
  | nil => simp [Each]
  | cons x tr ih =>
    constructor
    · rintro ⟨hx, htr⟩ a i t c h
      cases a with
      | nil =>
        obtain ⟨rfl, rfl⟩ := List.cons.inj h
        exact hx
      | cons y a =>
        obtain ⟨rfl, rfl⟩ := List.cons.inj h
        exact ih.mp htr a i t c rfl
    · intro h
      refine ⟨h [] x.1 x.2 tr rfl, ih.mpr fun a i t c htr => ?_⟩
      exact h (x :: a) i t c (congrArg (x :: ·) htr)

/-- A state without steps ends its run. -/
theorem stuck (h : Run step s tr t) (hs : ∀ i, step s i = none) : tr = [] ∧ t = s := by
  induction h with
  | nil => exact ⟨rfl, rfl⟩
  | snoc _ hi ih =>
    rw [ih.2, hs] at hi
    cases hi

/-- Induction along a run whose steps all satisfy `P`. -/
theorem invariant_each {P : σ → ι → σ → Prop} (I : List (ι × σ) → σ → Prop) (h0 : I [] s)
    (hstep : ∀ tr t i u, Run step s tr t → I tr t → P t i u → step t i = some u →
      I (tr ++ [(i, u)]) u)
    (h : Run step s tr t) (hP : Each P s tr) : I tr t := by
  induction h with
  | nil => exact h0
  | snoc hr hi ih =>
    obtain ⟨h1, h2⟩ := each_concat.mp hP
    rw [hr.last_eq] at h2
    exact hstep _ _ _ _ hr (ih h1) h2 hi

/-- The trace of a list of labels, up to the first one that is refused. -/
def trace (step : σ → ι → Option σ) : σ → List ι → List (ι × σ)
  | _, [] => []
  | s, i :: is => match step s i with
    | some t => (i, t) :: trace step t is
    | none => []

theorem trace_run (step : σ → ι → Option σ) (s : σ) (is : List ι) :
    Run step s (trace step s is) (last s (trace step s is)) := by
  induction is generalizing s with
  | nil => exact .nil
  | cons i is ih =>
    rw [trace]
    cases h : step s i with
    | none => exact .nil
    | some t => exact .cons h (ih t)

end Run

/-- An unending execution from `s` by labels that satisfy `P`; a state that is `done` may be
followed by anything. -/
structure Execution (step : σ → ι → Option σ) (P : ι → Prop) (done : σ → Prop) (s : σ)
    (x : ℕ → σ) (i : ℕ → ι) : Prop where
  start : x 0 = s
  next : ∀ n, done (x n) ∨ P (i n) ∧ step (x n) (i n) = some (x (n + 1))

namespace Execution

variable {step : σ → ι → Option σ} {P : ι → Prop} {done : σ → Prop} {s : σ} {x : ℕ → σ}
  {i : ℕ → ι}

/-- Before anything is done, an execution keeps what its steps keep. -/
theorem keeps (h : Execution step P done s x i) (I : σ → Prop) (h0 : I s)
    (hI : ∀ s t i, I s → P i → step s i = some t → I t) (n : ℕ) :
    (∃ m, done (x m)) ∨ I (x n) := by
  induction n with
  | zero => exact .inr (h.start ▸ h0)
  | succ n ih =>
    rcases ih with hd | hn
    · exact .inl hd
    · rcases h.next n with hd | ⟨hP, hs⟩
      · exact .inl ⟨n, hd⟩
      · exact .inr (hI _ _ _ hn hP hs)

/-- An execution ends up `done` when no step raises a well-founded rank and the steps `H`, which
never stop coming, lower it. -/
theorem reaches {α : Type} [Preorder α] [WellFoundedLT α] (h : Execution step P done s x i)
    (I : σ → Prop) (H : ι → Prop) (rank : σ → α) (h0 : I s)
    (hI : ∀ s t i, I s → P i → step s i = some t → I t)
    (hrank : ∀ s t i, I s → P i → step s i = some t →
      rank t ≤ rank s ∧ (H i → rank t < rank s))
    (hfair : ∀ n, ∃ m, n ≤ m ∧ H (i m)) : ∃ n, done (x n) := by
  by_contra hnone
  have hinv : ∀ n, I (x n) := fun n => (h.keeps I h0 hI n).resolve_left hnone
  have hstep : ∀ n, rank (x (n + 1)) ≤ rank (x n) ∧ (H (i n) → rank (x (n + 1)) < rank (x n)) := by
    intro n
    obtain ⟨hP, hs⟩ := (h.next n).resolve_left fun hd => hnone ⟨n, hd⟩
    exact hrank _ _ _ (hinv n) hP hs
  have hanti : Antitone fun n => rank (x n) := antitone_nat_of_succ_le fun n => (hstep n).1
  -- a state of least rank is followed by a step that lowers it
  obtain ⟨n, hn⟩ : ∃ n, ∀ m, ¬ rank (x m) < rank (x n) := by
    obtain ⟨a, ⟨n, rfl⟩, hmin⟩ := WellFounded.has_min (IsWellFounded.wf (r := fun a b : α => a < b))
      (Set.range fun n => rank (x n)) ⟨_, 0, rfl⟩
    exact ⟨n, fun m => hmin _ ⟨m, rfl⟩⟩
  obtain ⟨m, hm, hH⟩ := hfair n
  exact hn (m + 1) (((hstep m).2 hH).trans_le (hanti hm))

/-- The first `n` steps of an execution. -/
def upto (x : ℕ → σ) (i : ℕ → ι) (n : ℕ) : List (ι × σ) :=
  (List.range n).map fun k => (i k, x (k + 1))

/-- An execution that gets anywhere gets there by a run. -/
theorem exists_run (h : Execution step P done s x i) (hd : ∃ n, done (x n)) :
    ∃ n, done (x n) ∧ Run step s (upto x i n) (x n) := by
  classical
  refine ⟨Nat.find hd, Nat.find_spec hd, ?_⟩
  have hrun : ∀ n ≤ Nat.find hd, Run step s (upto x i n) (x n) := by
    intro n
    induction n with
    | zero =>
      intro _
      rw [h.start]
      exact .nil
    | succ n ih =>
      intro hn
      have hs := ((h.next n).resolve_left (Nat.find_min hd hn)).2
      rw [upto, List.range_succ, List.map_append]
      exact (ih (Nat.le_of_succ_le hn)).snoc hs
  exact hrun _ le_rfl

end Execution

end Dexdo
