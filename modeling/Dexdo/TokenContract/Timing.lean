import Dexdo.TokenContract.Calls
import Dexdo.TokenContract.Volume

namespace Dexdo

namespace TokenContract

variable {s t u v : TokenContract} {i : Input} {τ τ' now : ℕ} {caller : Caller}
  {tr tr' : List (Input × TokenContract)}

/-- Calls of a keeper: anyone may make them, and they only settle what is due. -/
def Input.keeps (i : Input) : Bool := decide (i.call = .settleWeek ∨ i.call = .finalize)

theorem OnTerm.step_view (hs : OnTerm s) (hf : s.funded = true) (hc : i.keeps = false)
    (hw : ∀ a, i.call ≠ .withdrawShell a) (h : step s i = some u) :
    (some (view i.now u)) = ((s.upToDate i.now).exec i.caller i.now i.call).map (view i.now) := by
  have hcalls : i.call ≠ .finalize ∧ i.call ≠ .settleWeek ∧ ∀ a, i.call ≠ .withdrawShell a := by
    have h1 : ¬ (i.call = .settleWeek ∨ i.call = .finalize) := of_decide_eq_false hc
    exact ⟨fun h => h1 (.inr h), fun h => h1 (.inl h), hw⟩
  rw [exec_view hs hf hcalls, step_exec h]
  rfl

/-- A deal on its term before a transaction, and still alive after one of a keeper. -/
structure Served (s : TokenContract) (i : Input) (u : TokenContract) : Prop where
  sane : Sane s
  accepted : s.probeAccepted = true
  subscription : s.isSubscription = true
  goesOn : i.keeps = true → u.destroyed = false

theorem onTerm_of (hs : Sane s) (ha : s.probeAccepted = true) (hsub : s.isSubscription = true) :
    OnTerm s :=
  ⟨hs.opened_of_accepted ha, ha, hsub, hs.final_le⟩

theorem Served.onTerm (h : Served s i u) : OnTerm s := onTerm_of h.sane h.accepted h.subscription

theorem Served.funded (h : Served s i u) : s.funded = true :=
  h.sane.funded_of_opened h.onTerm.opened

theorem Served.same_view (h : Served s i u) (h' : Served t i v) (hc : i.keeps = false)
    (hi : step s i = some u) (hj : step t i = some v)
    (hsame : s.upToDate i.now = t.upToDate i.now) : view i.now u = view i.now v := by
  by_cases hw : ∃ a, i.call = .withdrawShell a
  · obtain ⟨a, hw⟩ := hw
    have hx := step_exec hi
    have hy := step_exec hj
    rw [hw] at hx hy
    obtain ⟨h1, h2, h3⟩ := withdrawShell_taken (τ := i.now) h.onTerm.opened hx
    obtain ⟨k1, k2, k3⟩ := withdrawShell_taken h'.onTerm.opened hy (τ := i.now)
    apply view_eq
    · rw [h1, k1, hsame]
    · intro p
      rw [h2, k2]
    · rw [h3, k3]
  · have hw' : ∀ a, i.call ≠ .withdrawShell a := fun a ha => hw ⟨a, ha⟩
    have h1 := h.onTerm.step_view h.funded hc hw' hi
    have h2 := h'.onTerm.step_view h'.funded hc hw' hj
    rw [hsame] at h1
    exact Option.some.inj (h1.trans h2.symm)

theorem settleBoundaries_purse_probe (s : TokenContract) (due : ℕ) :
    (s.settleBoundaries due).probeTick = s.probeTick := by
  rw [settleBoundaries_purse]
  obtain ⟨n, a, b, hw⟩ := s.chargeWeeksThrough_weekly due
  exact hw.charged.probeTick

theorem OnTerm.promoted_upToDate (hs : OnTerm s) (hle : now ≤ s.clock τ) :
    (s.promoted now).upToDate τ = s.upToDate τ := by
  have hopen : (s.promoted now).opened = true := hs.opened
  have hclock : (s.promoted now).clock τ = s.clock τ := rfl
  have hweeks : (s.promoted now).weeksBy τ = s.weeksBy τ := by
    obtain ⟨x, hx⟩ := s.toMeter.promoteDue_eq now
    unfold weeksBy
    rw [hclock, promoted, setMeter_toMeter, hx]
  have hcharge : (s.promoted now).begin.chargeWeeksThrough (s.weeksBy τ) =
      (s.begin.chargeWeeksThrough (s.weeksBy τ)).promoted now :=
    promoted_chargeWeeksThrough (s := s.begin) hs.claims now _
  rw [upToDate_open hopen, upToDate_open hs.opened, hclock, hweeks]
  unfold caughtUp
  rw [hcharge, promoted_promoted hle]

theorem OnTerm.charged_upToDate (hs : OnTerm s) {e : ℕ} (hle : e ≤ s.weeksBy τ) :
    (s.begin.chargeWeeksThrough e).upToDate τ = s.upToDate τ := by
  obtain ⟨-, -, h1, h2⟩ := s.begin.chargeWeeksThrough_claims e
  have hg : (s.begin.chargeWeeksThrough e).toStage = s.toStage := s.begin.chargeWeeksThrough_stage e
  have hopen : (s.begin.chargeWeeksThrough e).opened = true := by
    rw [hg]
    exact hs.opened
  have hclock : (s.begin.chargeWeeksThrough e).clock τ = s.clock τ := by
    unfold clock
    rw [hg]
  have hweeks : (s.begin.chargeWeeksThrough e).weeksBy τ = s.weeksBy τ := by
    unfold weeksBy
    rw [hclock, h1, h2]
    rfl
  have hbegin : (s.begin.chargeWeeksThrough e).begin = s.begin.chargeWeeksThrough e := by
    rw [begin_chargeWeeksThrough]
    rfl
  rw [upToDate_open hopen, upToDate_open hs.opened, hclock, hweeks]
  unfold caughtUp
  rw [hbegin, chargeWeeksThrough_trans hle]

theorem OnTerm.settled_upToDate (hs : OnTerm s) {e : ℕ} (hle : e ≤ s.weeksBy τ) :
    (s.begin.settleBoundaries e).upToDate τ = s.upToDate τ := by
  have hopen : (s.begin.chargeWeeksThrough e).opened = true := by
    rw [chargeWeeksThrough_stage]
    exact hs.opened
  rw [← hs.charged_upToDate hle]
  exact (upToDate_congr (settleBoundaries_bare s.begin e).symm hopen τ).symm

/-- A keeper's call on a subscription, when it does not end the deal, pays nothing and leaves it as
it is when up to date. -/
theorem OnTerm.keeper_upToDate (hs : OnTerm s) (hp : s.probeTick = 0) (hd : u.destroyed = false)
    (hc : i.keeps = true) (h : step s i = some u) (hτ : i.now ≤ τ) :
    u.upToDate τ = s.upToDate τ ∧ (∀ p, u.credited p = 0) ∧ u.burned = 0 := by
  have hx := step_exec h
  rcases of_decide_eq_true hc with hcall | hcall
  · rw [hcall] at hx
    simp only [exec, settleWeek, bind_iff] at hx
    obtain ⟨-, ⟨-, hnd⟩, -, due, hdue, -, hx⟩ := hx
    split_ifs at hx with hend
    · have hprobe : (s.begin.settleBoundaries due).probeTick = 0 :=
        (settleBoundaries_purse_probe s.begin due).trans hp
      obtain ⟨_, -, -, -, hg, -⟩ := payFinalAndClose_closed (by exact fun _ => hprobe) hx
      rw [hg] at hd
      cases hd
    · cases hx
      have hmv := s.begin.settleBoundaries_moved due
      have hle : due ≤ s.weeksBy τ := by
        rw [OnTerm.elapsed (s := s) hnd hdue]
        exact s.weeksBy_mono hτ
      exact ⟨hs.settled_upToDate hle, hmv.silent.1, hmv.silent.2⟩
  · rw [hcall] at hx
    simp only [exec, finalize, bind_iff] at hx
    obtain ⟨⟨-, hnd⟩, -, hx⟩ := hx
    have hclock : s.clock τ = τ := if_neg (by simp [show s.disputed = false from hnd])
    rw [if_neg] at hx
    · cases hx
      refine ⟨?_, fun _ => rfl, rfl⟩
      rw [← hs.promoted_upToDate (hτ.trans hclock.ge)]
      rfl
    · intro hcontra
      have h1 := hcontra.1
      unfold isSubscription at h1
      rw [setMeter_toMeter, Meter.promoteDue_subWeeks] at h1
      exact absurd (hs.subscription.symm.trans h1) (by decide)

theorem Closed.of_same {a b d : ℕ} (h : Closed t u a b d) (ht : s.toTerms = t.toTerms)
    (hb : s.balance = t.balance) (hc : ∀ p, s.credited p = t.credited p)
    (hw : s.burned = t.burned) : Closed s u a b d := by
  obtain ⟨⟨h1, h2, h3, h4, h5, h6⟩, h7, h8, h9⟩ := h
  refine ⟨⟨?_, ?_, ?_, ?_, ?_, ?_⟩, ?_, h8, h9⟩
  · rw [ht, h1]
  · rw [hb]
    exact h2
  · rw [hc]
    exact h3
  · rw [hc]
    exact h4
  · rw [hc, hb]
    exact h5
  · rw [hw]
    exact h6
  · rw [hb]
    exact h7

theorem payFinalAndClose_subscription (h : s.isSubscription = true) :
    s.payFinalAndClose = s.closeClean := by
  have hnone : s.toPurse.charge (s.payOf 0) (s.payFeeOf 0) = s.toPurse := by
    have h0 : s.payOf 0 = 0 := by simp [Terms.payOf, toUint128]
    have h1 : s.payFeeOf 0 = 0 := by
      unfold Terms.payFeeOf
      rw [h0]
      rfl
    rw [h0, h1]
    unfold Purse.charge Purse.clampPay
    rw [if_neg (by omega)]
    rfl
  unfold payFinalAndClose
  rw [finalOwed_eq_zero h]
  dsimp only
  rw [hnone, if_neg (Nat.lt_irrefl 0)]
  rfl

/-- A term that is over, with its claim matured, stands still. -/
theorem OnTerm.over_upToDate (hs : OnTerm s) (hnd : s.disputed = false) {e : ℕ}
    (he : s.weeksElapsedAt now = some e)
    (hover : s.subWeeks ≤ (s.begin.settleBoundaries e).weekIndex)
    (hdue : s.lastClaimTime + CLAIM_PROMOTE_WINDOW ≤ now) (hτ : now ≤ τ) :
    s.upToDate τ = ((s.begin.settleBoundaries e).promoted now).bare := by
  have hweeks : e ≤ s.weeksBy τ := by
    rw [elapsed hnd he]
    exact s.weeksBy_mono hτ
  have hclock : s.clock τ = τ := if_neg (by simp [hnd])
  have hidx : (s.begin.settleBoundaries e).weekIndex = (s.begin.chargeWeeksThrough e).weekIndex :=
    congrArg (·.weekIndex) (bare_meter (settleBoundaries_bare s.begin e))
  have hcharge : s.begin.chargeWeeksThrough (s.weeksBy τ) = s.begin.chargeWeeksThrough e := by
    rw [← chargeWeeksThrough_trans hweeks]
    apply chargeWeeksThrough_of_le
    rw [← hidx]
    exact (Nat.min_le_right _ _).trans hover
  have hpromote : (s.begin.chargeWeeksThrough e).promoted τ =
      (s.begin.chargeWeeksThrough e).promoted now := by
    obtain ⟨n, a, b, hw⟩ := s.begin.chargeWeeksThrough_weekly e
    have hlast : (s.begin.chargeWeeksThrough e).lastClaimTime = s.lastClaimTime := by
      rw [hw.meter]
      rfl
    have hany : ∀ c, now ≤ c → (s.begin.chargeWeeksThrough e).toMeter.promoteDue c =
        (s.begin.chargeWeeksThrough e).toMeter.promote := by
      intro c hc
      apply if_pos
      rw [hlast]
      exact hdue.trans hc
    unfold promoted
    rw [hany τ hτ, hany now (Nat.le_refl _)]
  have hbare : ((s.begin.chargeWeeksThrough e).promoted now).bare = s.caughtUp now e := by
    rw [← caughtUp_charged]
    unfold bare
    rw [caughtUp_begin]
    rfl
  rw [promoted_bare, settleBoundaries_bare, ← promoted_bare, hbare, upToDate_open hs.opened, hclock]
  unfold caughtUp
  rw [hcharge, hpromote]

/-- The keeper's close at the end of the term, as the deal stands when up to date. -/
theorem OnTerm.close_upToDate (hs : OnTerm s) (hp : s.probeTick = 0) (hd : u.destroyed = true)
    (hl : s.destroyed = false) (hc : i.keeps = true) (h : step s i = some u) (hτ : i.now ≤ τ) :
    Closed (s.upToDate τ) u (s.upToDate τ).toPurse.ofBuyer
        ((s.upToDate τ).toPurse.ofSeller + (s.upToDate τ).delivered.rebateDue true)
        ((s.upToDate τ).feeAccrued - (s.upToDate τ).delivered.rebateDue true) ∧
      u.toMeter = (s.upToDate τ).toMeter.recordDelivered s.probeAccepted ∧
      u.toStage = { s.toStage with opened := false, destroyed := true } := by
  have hx := step_exec h
  rcases of_decide_eq_true hc with hcall | hcall
  · rw [hcall] at hx
    simp only [exec, settleWeek, bind_iff] at hx
    obtain ⟨-, ⟨-, hnd⟩, -, due, hdue, -, hx⟩ := hx
    split_ifs at hx with hend
    · change ((s.begin.settleBoundaries due).promoted i.now).payFinalAndClose = some u at hx
      have hmeter := bare_meter (settleBoundaries_bare s.begin due)
      obtain ⟨n, a, b, hw⟩ := s.begin.chargeWeeksThrough_weekly due
      have hsub : (s.begin.settleBoundaries due).subWeeks = s.subWeeks := by
        have h1 : (s.begin.settleBoundaries due).subWeeks =
            (s.begin.chargeWeeksThrough due).subWeeks := congrArg (·.subWeeks) hmeter
        rw [h1, hw.meter]
        rfl
      have hlast : (s.begin.settleBoundaries due).lastClaimTime = s.lastClaimTime := by
        have h1 : (s.begin.settleBoundaries due).lastClaimTime =
            (s.begin.chargeWeeksThrough due).lastClaimTime := congrArg (·.lastClaimTime) hmeter
        rw [h1, hw.meter]
        rfl
      have hstage : (s.begin.settleBoundaries due).toStage = s.toStage :=
        (congrArg (·.toStage) (settleBoundaries_bare s.begin due)).trans hw.stage
      rw [hsub, hlast] at hend
      have hX := hs.over_upToDate hnd hdue hend.1 hend.2 hτ
      have hsub' : ((s.begin.settleBoundaries due).promoted i.now).isSubscription = true := by
        unfold isSubscription
        rw [promoted, setMeter_toMeter, Meter.promoteDue_subWeeks, hsub]
        exact hs.subscription
      rw [payFinalAndClose_subscription hsub'] at hx
      have hprobe : (s.begin.settleBoundaries due).probeTick = 0 :=
        (settleBoundaries_purse_probe s.begin due).trans hp
      obtain ⟨hcl, hm, hg, -⟩ := closeClean_closed (by exact fun _ => hprobe) hx
      obtain ⟨hc0, hb0⟩ := (s.begin.settleBoundaries_moved due).silent
      rw [hX]
      refine ⟨hcl.of_same rfl rfl (fun p => (hc0 p).symm) hb0.symm, ?_, ?_⟩
      · rw [hm]
        change (Meter.recordDelivered _ (s.begin.settleBoundaries due).probeAccepted) = _
        rw [hstage]
        rfl
      · rw [hg]
        change ({ (s.begin.settleBoundaries due).toStage with
          opened := false, destroyed := true } : Stage) = _
        rw [hstage]
    · cases hx
      have hstage : (s.begin.settleBoundaries due).destroyed = s.destroyed :=
        congrArg (·.destroyed) ((congrArg (·.toStage) (settleBoundaries_bare s.begin due)).trans
          (s.begin.chargeWeeksThrough_stage due))
      exact absurd (hd.symm.trans (hstage.trans hl)) (by decide)
  · rw [hcall] at hx
    simp only [exec, finalize, bind_iff] at hx
    obtain ⟨-, -, hx⟩ := hx
    rw [if_neg] at hx
    · cases hx
      exact absurd (hd.symm.trans hl) (by decide)
    · intro hcontra
      have h1 := hcontra.1
      unfold isSubscription at h1
      rw [setMeter_toMeter, Meter.promoteDue_subWeeks] at h1
      exact absurd (hs.subscription.symm.trans h1) (by decide)

theorem Metered.subWeeks (hm : Metered s i u) : u.subWeeks = s.subWeeks := by
  cases hm with
  | kept hm => rw [hm]
  | promoted _ _ _ _ hm => rw [hm]
  | @claimed n due _ _ _ _ _ hm =>
    obtain ⟨d, hd⟩ := s.toMeter.settleTo_eq due true
    rw [hm, hd]
    exact Meter.crossTo_subWeeks ..
  | @crossed due _ _ _ _ hm =>
    obtain ⟨d, hd⟩ := s.toMeter.settleTo_eq due true
    rw [hm, hd]
    exact Meter.crossTo_subWeeks ..

theorem run_onTerm (hs : Sane s) (ha : s.probeAccepted = true) (hsub : s.isSubscription = true)
    (h : Run step s tr u) (hl : u.destroyed = false) :
    Sane u ∧ u.probeAccepted = true ∧ u.isSubscription = true := by
  refine h.state_invariant (fun u => u.destroyed = false →
    Sane u ∧ u.probeAccepted = true ∧ u.isSubscription = true) (fun _ => ⟨hs, ha, hsub⟩) ?_ hl
  intro t i u hI hi hu
  obtain ⟨h1, h2, h3⟩ := hI (step_live hi)
  obtain ⟨h4, h5, -⟩ := step_accepted h1 h2 hi hu
  refine ⟨h4, h5, ?_⟩
  have hw := (step_metered h1 h2 hi hu).subWeeks
  unfold isSubscription at h3 ⊢
  rw [hw]
  exact h3

theorem run_served (hs : Sane s) (ha : s.probeAccepted = true) (hsub : s.isSubscription = true)
    (h : Run step s tr u) (hP : Run.Each (fun _ i v => i.keeps = true → v.destroyed = false) s tr) :
    Run.Each Served s tr := by
  refine h.invariant_each (fun tr _ => Run.Each Served s tr) trivial ?_ hP
  intro tr t i u hr hI hPi hi
  obtain ⟨h1, h2, h3⟩ := run_onTerm hs ha hsub hr (step_live hi)
  refine Run.each_concat.mpr ⟨hI, ?_⟩
  rw [hr.last_eq]
  exact ⟨h1, h2, h3, hPi⟩

theorem Served.claims (hs : Served s i u) (h : step s i = some u) :
    u.opened = true → u.tokensFinal ≤ u.tokensPend := by
  intro ho
  cases hd : u.destroyed with
  | false => exact (step_sane hs.sane h hd).final_le
  | true =>
    obtain ⟨-, _, _, _, hx, -⟩ :=
      (step_effect hs.sane h).2.exit hs.onTerm.opened (step_live h) hd
    rw [hx.stage] at ho
    cases ho

theorem upToDate_unwinding (g : (Payee → ℕ) → ℕ → ℕ) (h0 : g (fun _ => 0) 0 = 0) :
    Unwinding step Input.keeps Input.now Served
      (fun τ s t => ∀ τ', τ ≤ τ' → s.upToDate τ' = t.upToDate τ')
      (fun _ _ v => g v.credited v.burned) where
  refl _ _ _ _ := rfl
  symm h τ' hle := (h τ' hle).symm
  later hle h τ' hle' := h τ' (hle.trans hle')
  stutter {τ s t i u} hh hP hi hτ h := by
    have hprobe := hP.sane.noProbe hP.accepted
    have hk := fun σ (hσ : i.now ≤ σ) =>
      hP.onTerm.keeper_upToDate hprobe (hP.goesOn hh) hh hi hσ
    obtain ⟨-, h1, h2⟩ := hk τ hτ
    refine ⟨fun τ' hle => (hk τ' (hτ.trans hle)).1.trans (h τ' hle), ?_⟩
    rw [funext h1, h2, h0]
  lockstep {s t i u v} hh hP hP' hi hj h := by
    have hview := hP.same_view hP' hh hi hj (h i.now (Nat.le_refl _))
    unfold view at hview
    obtain ⟨h1, h2⟩ := Prod.mk.inj hview
    obtain ⟨h2, h3⟩ := Prod.mk.inj h2
    refine ⟨fun τ' hle => ?_, by rw [h2, h3]⟩
    rw [← upToDate_upToDate (hP.claims hi) hle, h1, upToDate_upToDate (hP'.claims hj) hle]

theorem keeper_synced (hs : Sane s) (ha : s.probeAccepted = true) (hsub : s.isSubscription = true)
    (h : Run step s tr u)
    (hP : Run.Each (fun _ i v => i.keeps = true → v.destroyed = false) s tr)
    (ho : Run.Ordered Input.now tr) (hu : Run.Until Input.now τ tr) (h' : Run step s tr' v)
    (hP' : Run.Each (fun _ i v => i.keeps = true → v.destroyed = false) s tr')
    (ho' : Run.Ordered Input.now tr') (hu' : Run.Until Input.now τ tr')
    (hc : Run.core Input.keeps tr = Run.core Input.keeps tr') :
    (∀ τ', τ ≤ τ' → u.upToDate τ' = v.upToDate τ') ∧
      (∀ p, Run.total (fun _ _ w => w.credited p) s tr =
        Run.total (fun _ _ w => w.credited p) s tr') ∧
      Run.total (fun _ _ w => w.burned) s tr = Run.total (fun _ _ w => w.burned) s tr' := by
  have hS := run_served hs ha hsub h hP
  have hS' := run_served hs ha hsub h' hP'
  have hburn := (upToDate_unwinding (fun _ b => b) rfl).synced h hS ho hu h' hS' ho' hu' hc
  refine ⟨hburn.1, fun p => ?_, hburn.2⟩
  exact ((upToDate_unwinding (fun c _ => c p) rfl).synced h hS ho hu h' hS' ho' hu' hc).2

theorem keeper_open (h : Run step s tr t) (hi : step t i = some u) (hc : i.keeps = false) :
    Run.Each (fun _ i v => i.keeps = true → v.destroyed = false) s (tr ++ [(i, u)]) := by
  refine Run.each_concat.mpr ⟨?_, fun hk => absurd (hc.symm.trans hk) (by decide)⟩
  exact (run_alive h (step_live hi)).imp fun _ _ _ hd _ => hd

theorem keeper_closes {r r' : TokenContract} {j : Input} (hs : Sane s)
    (ha : s.probeAccepted = true) (hsub : s.isSubscription = true)
    (h : Run step s tr r) (h' : Run step s tr' r') (hi : step r i = some u)
    (hj : step r' j = some v) (hk : i.keeps = true) (hk' : j.keeps = true)
    (hd : u.destroyed = true) (hd' : v.destroyed = true)
    (hsame : ∀ τ, i.now ≤ τ → j.now ≤ τ → r.upToDate τ = r'.upToDate τ) :
    (∀ p, u.credited p = v.credited p) ∧ u.burned = v.burned ∧ u.toMeter = v.toMeter ∧
      u.toStage = v.toStage ∧ u.toTerms = v.toTerms := by
  obtain ⟨h1, h2, h3⟩ := run_onTerm hs ha hsub h (step_live hi)
  obtain ⟨k1, k2, k3⟩ := run_onTerm hs ha hsub h' (step_live hj)
  have hx := (onTerm_of h1 h2 h3).close_upToDate (τ := max i.now j.now) (h1.noProbe h2) hd
    (step_live hi) hk hi (Nat.le_max_left _ _)
  have hy := (onTerm_of k1 k2 k3).close_upToDate (τ := max i.now j.now) (k1.noProbe k2) hd'
    (step_live hj) hk' hj (Nat.le_max_right _ _)
  have heq := hsame (max i.now j.now) (Nat.le_max_left _ _) (Nat.le_max_right _ _)
  have hstage : r.toStage = r'.toStage := by
    rw [← r.upToDate_toStage (max i.now j.now), heq, upToDate_toStage]
  rw [heq] at hx
  obtain ⟨hcl, hm, hg⟩ := hx
  obtain ⟨hcl', hm', hg'⟩ := hy
  refine ⟨fun p => ?_, hcl.moved.burned.trans hcl'.moved.burned.symm, ?_, ?_,
    hcl.moved.terms.trans hcl'.moved.terms.symm⟩
  · cases p with
    | buyer => exact hcl.moved.buyer.trans hcl'.moved.buyer.symm
    | seller => exact hcl.moved.seller.trans hcl'.moved.seller.symm
    | residual => exact hcl.moved.residual.trans hcl'.moved.residual.symm
  · rw [hm, hm', hstage]
  · rw [hg, hg', hstage]

/-- Two histories that paid and burned the same and left the same deal behind. -/
structure SameOutcome (s : TokenContract) (tr : List (Input × TokenContract)) (u : TokenContract)
    (tr' : List (Input × TokenContract)) (v : TokenContract) : Prop where
  paid : ∀ p, Run.total (fun _ _ w => w.credited p) s tr =
    Run.total (fun _ _ w => w.credited p) s tr'
  burned : Run.total (fun _ _ w => w.burned) s tr = Run.total (fun _ _ w => w.burned) s tr'
  meter : u.toMeter = v.toMeter
  stage : u.toStage = v.toStage
  terms : u.toTerms = v.toTerms

theorem destroyed_congr (h : u.upToDate τ = v.upToDate τ) : u.destroyed = v.destroyed := by
  have h1 := congrArg (·.toStage) h
  rw [upToDate_toStage, upToDate_toStage] at h1
  rw [h1]

/-- The end of a subscription does not depend on the calls of a keeper. -/
theorem same_outcome (hs : Sane s) (hl : s.destroyed = false) (ha : s.probeAccepted = true)
    (hsub : s.isSubscription = true) (h : Run step s tr u) (ho : Run.Ordered Input.now tr)
    (h' : Run step s tr' v) (ho' : Run.Ordered Input.now tr')
    (hc : Run.core Input.keeps tr = Run.core Input.keeps tr') (hd : u.destroyed = true)
    (hd' : v.destroyed = true) : SameOutcome s tr u tr' v := by
  cases h with
  | nil => exact absurd (hl.symm.trans hd) (by decide)
  | @snoc tr r _ i hr hi =>
    cases h' with
    | nil => exact absurd (hl.symm.trans hd') (by decide)
    | @snoc tr' r' _ j hr' hj =>
      have hgo : Run.Each (fun _ i v => i.keeps = true → v.destroyed = false) s tr :=
        (run_alive hr (step_live hi)).imp fun _ _ _ hd _ => hd
      have hgo' : Run.Each (fun _ i v => i.keeps = true → v.destroyed = false) s tr' :=
        (run_alive hr' (step_live hj)).imp fun _ _ _ hd _ => hd
      have hlater : ∀ (q : List (Input × TokenContract)) (τ : ℕ), Run.Until Input.now τ q →
          ∀ τ', τ ≤ τ' → Run.Until Input.now τ' q := fun q τ hq τ' hle a ha => (hq a ha).trans hle
      have hu := hlater tr _ ho.until (max i.now j.now) (Nat.le_max_left _ _)
      have hu' := hlater tr' _ ho'.until (max i.now j.now) (Nat.le_max_right _ _)
      have hui : Run.Until Input.now (max i.now j.now) (tr ++ [(i, u)]) :=
        hlater _ _ ho.until_concat _ (Nat.le_max_left _ _)
      have huj : Run.Until Input.now (max i.now j.now) (tr' ++ [(j, v)]) :=
        hlater _ _ ho'.until_concat _ (Nat.le_max_right _ _)
      cases hk : i.keeps with
      | true =>
        cases hk' : j.keeps with
        | true =>
          rw [Run.core_hidden hk, Run.core_hidden hk'] at hc
          obtain ⟨hsame, hpaid, hburn⟩ :=
            keeper_synced hs ha hsub hr hgo ho.of_append hu hr' hgo' ho'.of_append hu' hc
          obtain ⟨h1, h2, h3, h4, h5⟩ := keeper_closes hs ha hsub hr hr' hi hj hk hk' hd hd'
            fun τ hτ hτ' => hsame τ (max_le hτ hτ')
          refine ⟨fun p => ?_, ?_, h3, h4, h5⟩
          · rw [Run.total_concat, Run.total_concat, hpaid, h1]
          · rw [Run.total_concat, Run.total_concat, hburn, h2]
        | false =>
          -- the other run goes on where this one has ended
          rw [Run.core_hidden hk] at hc
          obtain ⟨hsame, -⟩ := keeper_synced hs ha hsub hr hgo ho.of_append hu (hr'.snoc hj)
            (keeper_open hr' hj hk') ho' huj hc
          have hdead := destroyed_congr (hsame _ (Nat.le_refl _))
          exact absurd ((step_live hi).symm.trans (hdead.trans hd')) (by decide)
      | false =>
        cases hk' : j.keeps with
        | true =>
          rw [Run.core_hidden hk'] at hc
          obtain ⟨hsame, -⟩ := keeper_synced hs ha hsub (hr.snoc hi) (keeper_open hr hi hk) ho hui
            hr' hgo' ho'.of_append hu' hc
          have hdead := destroyed_congr (hsame _ (Nat.le_refl _))
          exact absurd ((step_live hj).symm.trans (hdead.symm.trans hd)) (by decide)
        | false =>
          obtain ⟨hsame, hpaid, hburn⟩ := keeper_synced hs ha hsub (hr.snoc hi)
            (keeper_open hr hi hk) ho hui (hr'.snoc hj) (keeper_open hr' hj hk') ho' huj hc
          have heq := hsame _ (Nat.le_refl _)
          have hclosed : ∀ {q : List (Input × TokenContract)} {r w : TokenContract} {k : Input},
              Run step s q r → step r k = some w → w.destroyed = true → ∀ τ, w.upToDate τ = w.begin := by
            intro q r w k hq hw hwd τ
            obtain ⟨h1, h2, h3⟩ := run_onTerm hs ha hsub hq (step_live hw)
            obtain ⟨-, _, _, _, hx, -⟩ := (step_effect h1 hw).2.exit (h1.opened_of_accepted h2)
              (step_live hw) hwd
            unfold upToDate
            rw [if_neg (by rw [hx.stage]; exact Bool.false_ne_true)]
          rw [hclosed hr hi hd, hclosed hr' hj hd'] at heq
          exact ⟨hpaid, hburn, congrArg (·.toMeter) heq, congrArg (·.toStage) heq,
            congrArg (·.toTerms) heq⟩

/-- Whether and when a keeper settled the weeks of a subscription and promoted its claims makes no
difference to what its end pays, burns and reports, nor to which calls it takes until then. -/
theorem keeper_timing_independent {t : Terms} (ht : t.Valid) {tr₀ : List (Input × TokenContract)}
    (h₀ : Run step (init t) tr₀ s) (hl : s.destroyed = false) (ha : s.probeAccepted = true)
    (hsub : s.isSubscription = true) (h : Run step s tr u) (ho : Run.Ordered Input.now tr)
    (h' : Run step s tr' v) (ho' : Run.Ordered Input.now tr')
    (hc : Run.core Input.keeps tr = Run.core Input.keeps tr') :
    (u.destroyed = true → v.destroyed = true →
      (∀ p, Run.total (fun _ _ w => w.credited p) s tr =
        Run.total (fun _ _ w => w.credited p) s tr') ∧
      Run.total (fun _ _ w => w.burned) s tr = Run.total (fun _ _ w => w.burned) s tr' ∧
      u.orderBook = v.orderBook ∧
      reportedTo u.orderBook (reportsOf (tr₀ ++ tr)) =
        reportedTo v.orderBook (reportsOf (tr₀ ++ tr'))) ∧
    (u.destroyed = false → v.destroyed = false → ∀ i : Input, i.keeps = false →
      (∀ a, i.call ≠ .withdrawShell a) → Run.Until Input.now i.now tr →
        Run.Until Input.now i.now tr' → ((step u i).isSome ↔ (step v i).isSome)) := by
  have hs := run_sane ht h₀ hl
  refine ⟨fun hd hd' => ?_, fun hd hd' i hk hw hu hu' => ?_⟩
  · have hout := same_outcome hs hl ha hsub h ho h' ho' hc hd hd'
    have hbook : u.orderBook = v.orderBook := by
      unfold orderBook
      rw [hout.stage, hout.terms]
    refine ⟨hout.paid, hout.burned, hbook, ?_⟩
    rw [(run_accounted ht (h₀.append h)).whole hd, (run_accounted ht (h₀.append h')).whole hd',
      hout.stage, hout.meter]
  · obtain ⟨hsame, -⟩ := keeper_synced hs ha hsub h
      ((run_alive h hd).imp fun _ _ _ hd _ => hd) ho hu h'
      ((run_alive h' hd').imp fun _ _ _ hd _ => hd) ho' hu' hc
    have hcalls : i.call ≠ .finalize ∧ i.call ≠ .settleWeek ∧ ∀ a, i.call ≠ .withdrawShell a := by
      have h1 : ¬ (i.call = .settleWeek ∨ i.call = .finalize) := of_decide_eq_false hk
      exact ⟨fun h => h1 (.inr h), fun h => h1 (.inl h), hw⟩
    have hshown : ∀ {w : TokenContract} {q : List (Input × TokenContract)}, Run step s q w →
        w.destroyed = false → (step w i).isSome =
          ((w.upToDate i.now).exec i.caller i.now i.call).isSome := by
      intro w q hq hwl
      obtain ⟨h1, h2, h3⟩ := run_onTerm hs ha hsub hq hwl
      have hon := onTerm_of h1 h2 h3
      have hview : ((w.upToDate i.now).exec i.caller i.now i.call).map (view i.now) =
          (w.begin.exec i.caller i.now i.call).map (view i.now) :=
        exec_view hon (h1.funded_of_opened hon.opened) hcalls
      have hstep : step w i = w.begin.exec i.caller i.now i.call := by
        unfold step
        rw [if_neg (by simp [hwl])]
      rw [hstep, ← Option.isSome_map (f := view i.now), ← hview, Option.isSome_map]
    rw [hshown h hd, hshown h' hd', hsame i.now (Nat.le_refl _)]

/-- The sample subscription once its probe is accepted. -/
def sampleTerm : TokenContract := Run.last (init sampleTerms) (sampleTrace sampleSubscription)

/-- A claim, and the buyer's stop in the second week; between the two a keeper promotes the claim and
settles the first week, or nobody calls. -/
def sampleKept (keeper : Bool) : List (Input × TokenContract) :=
  Run.trace step sampleTerm
    ([⟨.external 7, 400, .claimTokens (2 * DEAL_TICK_SIZE)⟩] ++
      (if keeper then [⟨.external 0, 470, .finalize⟩, ⟨.external 0, 605110, .settleWeek⟩] else []) ++
      [⟨.internal (.note 2), 605120, .stop⟩])

theorem keeper_timing_independent_sample :
    (sampleKept true).length = 4 ∧ (sampleKept false).length = 2 ∧
      (∀ p, Run.total (fun _ _ w => w.credited p) sampleTerm (sampleKept true) =
        Run.total (fun _ _ w => w.credited p) sampleTerm (sampleKept false)) ∧
      Run.total (fun _ _ w => w.burned) sampleTerm (sampleKept true) =
        Run.total (fun _ _ w => w.burned) sampleTerm (sampleKept false) ∧
      (Run.last sampleTerm (sampleKept true)).orderBook =
        (Run.last sampleTerm (sampleKept false)).orderBook ∧
      reportedTo (Run.last sampleTerm (sampleKept true)).orderBook
          (reportsOf (sampleTrace sampleSubscription ++ sampleKept true)) =
        reportedTo (Run.last sampleTerm (sampleKept false)).orderBook
          (reportsOf (sampleTrace sampleSubscription ++ sampleKept false)) :=
  ⟨by decide +kernel, by decide +kernel,
    (keeper_timing_independent (t := sampleTerms) (by decide) (sample_run sampleSubscription)
      (by decide +kernel) (by decide +kernel) (by decide +kernel) (Run.trace_run ..)
      (by decide +kernel) (Run.trace_run ..) (by decide +kernel) (by decide +kernel)).1
      (by decide +kernel) (by decide +kernel)⟩

end TokenContract

end Dexdo
