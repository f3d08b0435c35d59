import Dexdo.TokenContract.NetBurn

namespace Dexdo

namespace TokenContract

variable {s u v w : TokenContract} {i : Input} {fees : TokenContract → Bool → Option TokenContract}
  {e τ now : ℕ} {caller : Caller} {tr : List (Input × TokenContract)}

/-- A deal that a clean end can close: its claims are bought, and no dispute was raised. -/
structure Closable (w : TokenContract) : Prop where
  accepted : w.probeAccepted = true → AtPar w
  trial : w.probeAccepted = false → w.tokensFinal = 0
  final : w.tokensFinal ≤ w.fundedTokens
  undisputed : w.everDisputed = false

theorem finalOwed_eq (hsub : w.isSubscription = false) :
    w.finalOwed = w.tokensFinal - w.tokensPaid := by
  unfold finalOwed
  rw [hsub]
  exact if_pos (by decide)

theorem Closable.final_covered (h : Closable w) :
    w.valueOf w.finalOwed ≤ w.deposit ∧
      (w.probeAccepted = true → w.tokensPaid + w.finalOwed ≤ w.fundedTokens ∧
        w.finalPaid.closing.feeAccrued = w.payFeeOf (w.tokensPaid + w.finalOwed)) := by
  have hle : w.probeAccepted = true → w.tokensPaid + w.finalOwed ≤ w.fundedTokens := by
    intro ha
    have hpaid := (h.accepted ha).paid
    have hfinal := h.final
    unfold finalOwed
    split_ifs <;> omega
  have hcover : w.valueOf w.finalOwed ≤ w.deposit := by
    cases ha : w.probeAccepted with
    | true =>
      have hpar := h.accepted ha
      have hfunds := hpar.funds
      have hescrow := hpar.escrow
      have hsum := Terms.valueOf_add hpar.valid hpar.step ((hle ha).trans hfunds)
      have hmono := Terms.valueOf_mono hpar.valid (hle ha) hfunds
      omega
    | false =>
      have h0 : w.finalOwed = 0 := by
        have htrial := h.trial ha
        unfold finalOwed
        split_ifs <;> omega
      rw [h0]
      unfold Terms.valueOf
      rw [Terms.payOf_zero, Terms.payFeeOf_zero]
      exact Nat.zero_le _
  refine ⟨hcover, fun ha => ⟨hle ha, ?_⟩⟩
  have hpar := h.accepted ha
  rw [closing_feeAccrued]
  change w.finalPurse.feeAccrued = _
  unfold finalPurse
  rw [(Purse.charge_covered hcover).2, hpar.fee]
  exact Terms.payFeeOf_add hpar.valid hpar.step ((hle ha).trans hpar.funds)

theorem Closable.agrees (h : Closable w)
    (hf : fees w.finalPaid.closing true = w.finalPaid.closing.settleFees true) :
    Unclamped.payFinalAndClose fees w = w.payFinalAndClose := by
  rw [unclamped_finalPaid h.final_covered.1, payFinalAndClose_finalPaid, closeClean_agrees hf]

theorem closing_ticksFinalized (w : TokenContract) : w.finalPaid.closing.ticksFinalized =
    (if w.probeAccepted ∧ w.tokensFinal < DEAL_TICK_SIZE then DEAL_TICK_SIZE
      else w.tokensFinal) / DEAL_TICK_SIZE := rfl

/-- What a clean end of an accepted deal burns is positive exactly if the rebate is less than the
fee on everything paid for. -/
theorem Closable.netPositive_iff (h : Closable w) (ha : w.probeAccepted = true) :
    w.finalPaid.closing.NetPositive true ↔
      w.rebate (max DEAL_TICK_SIZE w.tokensFinal / DEAL_TICK_SIZE) <
        w.payFeeOf (w.tokensPaid + w.finalOwed) := by
  have hfee := (h.final_covered.2 ha).2
  have hticks : w.finalPaid.closing.ticksFinalized =
      max DEAL_TICK_SIZE w.tokensFinal / DEAL_TICK_SIZE := by
    rw [closing_ticksFinalized]
    congr 1
    split_ifs with hlt
    · omega
    · have hge : DEAL_TICK_SIZE ≤ w.tokensFinal := by
        by_contra hn
        exact hlt ⟨ha, by omega⟩
      omega
  have hask : w.finalPaid.closing.rebateAsked true =
      w.rebate (max DEAL_TICK_SIZE w.tokensFinal / DEAL_TICK_SIZE) := by
    rw [← hticks]
    unfold rebateAsked
    apply if_pos
    refine ⟨rfl, ?_⟩
    rw [show w.finalPaid.closing.everDisputed = w.everDisputed from rfl, h.undisputed]
    decide
  have hpos : max DEAL_TICK_SIZE w.tokensFinal / DEAL_TICK_SIZE ≠ 0 := by
    apply Nat.pos_iff_ne_zero.mp
    apply Nat.div_pos _ (by decide)
    exact Nat.le_max_left _ _
  unfold NetPositive
  rw [hask, hfee, hticks]
  exact or_iff_right hpos

theorem Closable.netPositive (h : Closable w)
    (hpaid : w.probeAccepted = true → w.tokensFinal ≤ w.tokensPaid + w.finalOwed) :
    w.finalPaid.closing.NetPositive true := by
  cases ha : w.probeAccepted with
  | true =>
    have hpar := h.accepted ha
    have hle := hpaid ha
    have hprobe := hpar.probe
    apply (h.netPositive_iff ha).mpr
    apply Terms.rebate_lt hpar.valid hpar.step
    · apply Nat.div_pos _ (by decide)
      exact Nat.le_max_left _ _
    · refine (Nat.div_mul_le_self _ _).trans ?_
      omega
    · exact (h.final_covered.2 ha).1.trans hpar.funds
  | false =>
    left
    rw [closing_ticksFinalized, h.trial ha, if_neg (by simp [ha])]
    exact Nat.zero_div _

theorem weeks_idle (h : v.isSubscription = false ∨ v.probeAccepted = false ∨ e ≤ v.weekIndex) :
    Unclamped.chargeWeeksThrough v e = some v ∧ v.chargeWeeksThrough e = v := by
  unfold Unclamped.chargeWeeksThrough chargeWeeksThrough
  split_ifs with hno
  · exact ⟨rfl, rfl⟩
  · rcases h with h | h | h
    · exact absurd (.inl (by simp [h])) hno
    · exact absurd (.inr (by simp [h])) hno
    · rw [Nat.sub_eq_zero_of_le h]
      exact ⟨rfl, rfl⟩

theorem Settleable.closable (h : Settleable s) (hv : Underway s v) (he : e ≤ s.subWeeks)
    (hfinal : v.tokensFinal ≤ s.tokensPend) (hd : v.everDisputed = false) :
    Closable (v.chargeWeeksThrough e) := by
  obtain ⟨n, a, b, hw⟩ := v.chargeWeeksThrough_weekly e
  obtain ⟨x, y, hm⟩ := hv.meter
  have hacc : (v.chargeWeeksThrough e).probeAccepted = s.probeAccepted := by
    rw [hw.stage]
    exact hv.accepted
  have htok : (v.chargeWeeksThrough e).tokensFinal = v.tokensFinal := by rw [hw.meter]
  have hfund : (v.chargeWeeksThrough e).fundedTokens = s.fundedTokens := by rw [hw.meter, hm]
  constructor
  · rw [hacc]
    exact (h.weeks hv he).2
  · rw [hacc, htok]
    intro ha
    have h0 := (h.sane.unaccepted ha).2.2.2.2.1
    omega
  · rw [htok, hfund]
    cases ha : s.probeAccepted with
    | true => exact hfinal.trans (h.covered.counted ha).claims
    | false =>
      have h0 := (h.sane.unaccepted ha).2.2.2.2.1
      omega
  · rw [hw.stage]
    exact hd

theorem Settleable.undisputed (h : Settleable s) (hd : s.disputed = false) :
    s.everDisputed = false := by
  by_contra hn
  exact absurd ((h.levied.disputed (by simpa using hn)).symm.trans hd) (by decide)

theorem Settleable.boundaries (h : Settleable s) (hv : Underway s v) (he : e ≤ s.subWeeks) :
    Unclamped.settleBoundaries v e = some (v.settleBoundaries e) := by
  unfold Unclamped.settleBoundaries settleBoundaries
  split_ifs
  · rfl
  · rw [(h.weeks hv he).1]
    rfl

theorem weeksElapsedAt_subWeeks {m : Meter} (h : m.weeksElapsedAt τ = some e) : e ≤ m.subWeeks :=
  (weeksElapsedAt_le h).2 ▸ Nat.min_le_right _ _

theorem Settleable.claimTokens (h : Settleable s) (n : ℕ) :
    Unclamped.claimTokens s.begin caller now n = s.begin.claimTokens caller now n := by
  unfold Unclamped.claimTokens TokenContract.claimTokens
  refine Option.bind_congr fun _ _ => ?_
  refine Option.bind_congr fun _ _ => ?_
  refine Option.bind_congr fun _ _ => ?_
  refine Option.bind_congr fun _ _ => ?_
  refine Option.bind_congr fun _ _ => ?_
  split_ifs
  · rfl
  · refine Option.bind_congr fun due hdue => ?_
    rw [h.boundaries (.begin s) (weeksElapsedAt_subWeeks hdue)]
    rfl

theorem Underway.promoteDue (hv : Underway s v) (now : ℕ) :
    Underway s (v.setMeter (v.toMeter.promoteDue now)) := by
  obtain ⟨x, y, hm⟩ := hv.meter
  obtain ⟨z, hz⟩ := v.toMeter.promoteDue_eq now
  refine ⟨hv.terms, hv.deposit, hv.feeAccrued, ⟨z, y, ?_⟩, hv.accepted⟩
  rw [setMeter_toMeter, hz, hm]

theorem Settleable.finalize (h : Settleable s)
    (hf : ∀ w : TokenContract, w.NetPositive true → fees w true = w.settleFees true) :
    Unclamped.finalize fees s.begin now = s.begin.finalize now := by
  unfold Unclamped.finalize TokenContract.finalize
  refine Option.bind_congr fun _ hopen => ?_
  refine Option.bind_congr fun _ _ => ?_
  dsimp only
  split_ifs with hord
  · have hd : s.disputed = false := (of_guard hopen).2
    have hv := (Underway.begin s).promoteDue now
    have hcl := h.closable hv (Nat.zero_le _) (s.toMeter.promoteDue_final_le now h.sane.final_le)
      (h.undisputed hd)
    rw [(weeks_idle (.inl hord.1)).2] at hcl
    apply hcl.agrees
    apply hf
    apply hcl.netPositive
    intro _
    rw [finalOwed_eq hord.1]
    omega
  · rfl

theorem AtPar.congr (h : AtPar v) (ht : w.toTerms = v.toTerms) (hp : w.toPurse = v.toPurse)
    (hpaid : w.tokensPaid = v.tokensPaid) (hfund : w.fundedTokens = v.fundedTokens) : AtPar w := by
  constructor
  · rw [ht]
    exact h.valid
  · rw [ht]
    exact h.step
  · rw [ht, hfund]
    exact h.funds
  · rw [hpaid]
    exact h.probe
  · rw [hpaid, hfund]
    exact h.paid
  · rw [ht, hp, hpaid, hfund]
    exact h.escrow
  · rw [ht, hp, hpaid]
    exact h.fee

theorem Settleable.term_paid (h : Settleable s) (hsub : s.isSubscription = true)
    (ha : s.probeAccepted = true) (hw : s.subWeeks ≤ (s.toMeter.crossTo e).weekIndex)
    (he : e ≤ s.subWeeks) : (s.toMeter.crossTo e).tokensPaid = s.fundedTokens := by
  obtain ⟨h1, h2⟩ := h.covered.bonded.term hsub
  have hpos : 0 < s.subWeeks := by
    rw [h1]
    decide
  have hidx := (h.covered.counted ha).weeks
  rw [Meter.crossTo_weekIndex] at hw
  have hpaid : (s.toMeter.crossTo e).tokensPaid = s.subWeeks * s.tokensPerWeek := by
    rcases Nat.lt_or_ge s.weekIndex e with hlt | hge
    · rw [crossTo_tokensPaid (h.sane.accepted ha).2.1 (by omega) hlt.le]
      congr 1
      omega
    · rw [Meter.crossTo_of_le hge, (h.sane.accepted ha).2.1.later (by omega)]
      congr 1
      omega
  rw [hpaid, h1, Nat.mul_comm, h2]

theorem settleBoundaries_frame (v : TokenContract) (e : ℕ) :
    (v.settleBoundaries e).toTerms = v.toTerms ∧ (v.settleBoundaries e).toStage = v.toStage := by
  unfold settleBoundaries
  split_ifs
  · exact ⟨rfl, rfl⟩
  · obtain ⟨n, a, b, hw⟩ := v.chargeWeeksThrough_weekly e
    refine ⟨?_, ?_⟩
    · exact ((reportFinalized_moved _).terms).trans hw.moved.terms
    · rw [reportFinalized_toStage]
      exact hw.stage

variable (now) in
/-- A subscription at the end of its term can be closed, and has paid for everything final. -/
theorem Settleable.term_closable (h : Settleable s) (hsub : s.isSubscription = true)
    (ha : s.probeAccepted = true) (hd : s.disputed = false)
    (hdue : s.weeksElapsedAt τ = some e)
    (hw : (s.begin.settleBoundaries e).subWeeks ≤ (s.begin.settleBoundaries e).weekIndex)
    (hv : v = (s.begin.settleBoundaries e).setMeter
      ((s.begin.settleBoundaries e).toMeter.promoteDue now)) :
    Closable v ∧ v.tokensFinal ≤ v.tokensPaid := by
  have he := weeksElapsedAt_subWeeks hdue
  obtain ⟨hterms, hstage⟩ := s.begin.settleBoundaries_frame e
  obtain ⟨d, hset⟩ := s.toMeter.settleTo_eq e s.begin.probeAccepted
  have hmeter : (s.begin.settleBoundaries e).toMeter =
      { s.toMeter.crossTo e with ticksFinalized := d } :=
    (settleBoundaries_meter (s := s.begin) ha hdue).trans hset
  obtain ⟨x, hx⟩ := (s.begin.settleBoundaries e).toMeter.promoteDue_eq now
  have hxle : x ≤ s.tokensPend := by
    have h1 := (s.begin.settleBoundaries e).toMeter.promoteDue_final_le now
      (by rw [hmeter]; simpa using h.sane.final_le)
    rw [hx, hmeter] at h1
    simpa using h1
  have hvm : v.toMeter = { s.toMeter.crossTo e with tokensFinal := x, ticksFinalized := d } := by
    rw [hv, setMeter_toMeter, hx, hmeter]
  rw [hmeter] at hw
  change (s.toMeter.crossTo e).subWeeks ≤ (s.toMeter.crossTo e).weekIndex at hw
  rw [Meter.crossTo_subWeeks] at hw
  have hterm := h.term_paid hsub ha hw he
  have hclaims := (h.covered.counted ha).claims
  have hcross : (s.begin.chargeWeeksThrough e).toMeter = s.toMeter.crossTo e :=
    chargeWeeksThrough_meter (s := s.begin) hsub ha e
  obtain ⟨n, a, b, hweek⟩ := s.begin.chargeWeeksThrough_weekly e
  have hvg : v.toStage = s.toStage := by
    rw [hv, setMeter_toStage]
    exact hstage
  refine ⟨⟨fun _ => ?_, fun hno => ?_, ?_, ?_⟩, ?_⟩
  · apply ((h.weeks (.begin s) he).2 ha).congr
    · rw [hv]
      exact hterms.trans hweek.moved.terms.symm
    · rw [hv]
      exact settleBoundaries_purse s.begin e
    · rw [hvm, hcross]
    · rw [hvm, hcross]
  · rw [hvg] at hno
    exact absurd (ha.symm.trans hno) (by decide)
  · rw [hvm]
    change x ≤ (s.toMeter.crossTo e).fundedTokens
    rw [Meter.crossTo_fundedTokens]
    omega
  · rw [hvg]
    exact h.undisputed hd
  · rw [hvm]
    change x ≤ (s.toMeter.crossTo e).tokensPaid
    omega

theorem Settleable.settleWeek (h : Settleable s)
    (hf : ∀ w : TokenContract, w.NetPositive true → fees w true = w.settleFees true) :
    Unclamped.settleWeek fees s.begin now = s.begin.settleWeek now := by
  unfold Unclamped.settleWeek TokenContract.settleWeek
  refine Option.bind_congr fun _ hsub => ?_
  refine Option.bind_congr fun _ hopen => ?_
  refine Option.bind_congr fun _ hacc => ?_
  refine Option.bind_congr fun due hdue => ?_
  refine Option.bind_congr fun _ _ => ?_
  rw [h.boundaries (.begin s) (weeksElapsedAt_subWeeks hdue)]
  change ite _ _ _ = ite _ _ _
  split_ifs with hend
  · obtain ⟨hcl, hpaid⟩ := h.term_closable now (of_guard hsub)
      (of_guard hacc) (of_guard hopen).2 hdue hend.1 rfl
    apply hcl.agrees
    apply hf
    apply hcl.netPositive
    exact fun _ => hpaid.trans (Nat.le_add_right _ _)
  · rfl

theorem Underway.forfeit {b x : ℕ} (hv : Underway s v) (h : v.forfeitBonds b x = some w) :
    Underway s w := by
  obtain ⟨hmv, hm, hst, hp⟩ := forfeitBonds_inv h
  refine ⟨hmv.terms.trans hv.terms, ?_, ?_, ?_, ?_⟩
  · rw [hp]
    exact hv.deposit
  · rw [hp]
    exact hv.feeAccrued
  · rw [hm]
    exact hv.meter
  · rw [hst]
    exact hv.accepted

theorem Settleable.tokensPaid_charged (h : Settleable s) (hv : Underway s v)
    (hsub : s.isSubscription = true) (ha : s.probeAccepted = true) :
    (v.chargeWeeksThrough e).tokensPaid = max s.tokensPaid (e * s.tokensPerWeek) := by
  obtain ⟨x, y, hm⟩ := hv.meter
  have hpace := (h.sane.accepted ha).2.1
  rw [chargeWeeksThrough_meter (hv.isSubscription.trans hsub) (hv.accepted.trans ha)]
  rcases Nat.lt_or_ge s.weekIndex e with hlt | hge
  · have hpaid : (v.toMeter.crossTo e).tokensPaid = e * s.tokensPerWeek := by
      rw [Meter.crossTo_of_lt (by rw [hm]; exact hlt), hm]
    have hle : s.tokensPaid ≤ e * s.tokensPerWeek := by
      rcases Nat.eq_zero_or_pos s.weekIndex with h0 | h0
      · rw [hpace.first h0]
        exact (h.escrowed.term hsub).trans (Nat.le_mul_of_pos_left _ (by omega))
      · rw [hpace.later h0]
        exact Nat.mul_le_mul_right _ hlt.le
    rw [hpaid, Nat.max_eq_right hle]
  · have hpaid : (v.toMeter.crossTo e).tokensPaid = s.tokensPaid := by
      rw [Meter.crossTo_of_le (by rw [hm]; exact hge), hm]
    have hle : e * s.tokensPerWeek ≤ s.tokensPaid := by
      rcases Nat.eq_zero_or_pos s.weekIndex with h0 | h0
      · rw [show e = 0 by omega, Nat.zero_mul]
        exact Nat.zero_le _
      · rw [hpace.later h0]
        exact Nat.mul_le_mul_right _ hge
    rw [hpaid, Nat.max_eq_left hle]

/-- A stop charges the week it falls in, and with it everything claimed. -/
theorem Settleable.stop_charged (h : Settleable s) (hk : Clocked now s)
    (ha : s.probeAccepted = true) (hv : Underway s v) (hfinal : v.tokensFinal ≤ s.tokensPend)
    (hd : v.everDisputed = false) {g : ℕ} (hg : v.weeksStartedAt now = some g) :
    Unclamped.chargeWeeksThrough v g = some (v.chargeWeeksThrough g) ∧
      Closable (v.chargeWeeksThrough g) ∧ (v.chargeWeeksThrough g).tokensFinal ≤
        (v.chargeWeeksThrough g).tokensPaid + (v.chargeWeeksThrough g).finalOwed := by
  obtain ⟨x, y, hm⟩ := hv.meter
  have hstarted : s.weeksStartedAt now = some g := by
    rw [← hg, hm]
    rfl
  obtain ⟨e, hel, hle, hge⟩ := weeksStartedAt_le hstarted
  have hweek := hk.weekIndex_le (h.covered.counted ha) ha hel
  have hg' : g ≤ s.subWeeks := by omega
  refine ⟨(h.weeks hv hg').1, h.closable hv hg' hfinal hd, ?_⟩
  have htok : (v.chargeWeeksThrough g).tokensFinal = v.tokensFinal := by
    obtain ⟨n, a, b, hw⟩ := v.chargeWeeksThrough_weekly g
    rw [hw.meter]
  cases hsub : s.isSubscription with
  | false =>
    rw [(weeks_idle (.inl (hv.isSubscription.trans hsub))).2,
      finalOwed_eq (hv.isSubscription.trans hsub)]
    omega
  | true =>
    rw [htok, h.tokensPaid_charged hv hsub ha]
    obtain ⟨h1, h2⟩ := h.covered.bonded.term hsub
    have hfour : s.subWeeks = 4 := h1
    have hclaims := (h.covered.counted ha).claims
    have hbegun := h.claims_le hsub ha
    have hpend : s.tokensPend ≤ g * s.tokensPerWeek := by
      rcases Nat.lt_or_ge e 4 with hlt | hge4
      · refine hbegun.trans ?_
        apply Nat.mul_le_mul_right
        omega
      · have hall : g = SUB_WEEKS := by
          rw [hge, hfour]
          exact Nat.min_eq_right (by omega)
        rw [hall, Nat.mul_comm, h2]
        exact hclaims
    omega

theorem Settleable.stop (h : Settleable s) (hk : Clocked now s)
    (hf : ∀ w : TokenContract, w.NetPositive true → fees w true = w.settleFees true) :
    Unclamped.stop fees s.begin caller now = s.begin.stop caller now := by
  unfold Unclamped.stop TokenContract.stop
  refine Option.bind_congr fun _ _ => ?_
  refine Option.bind_congr fun _ _ => ?_
  refine Option.bind_congr fun _ hd => ?_
  have hund : s.everDisputed = false := h.undisputed (of_guard hd)
  split_ifs with hacc
  · rfl
  have ha : s.probeAccepted = true := by
    have : ¬ s.probeAccepted = false := hacc
    simpa using this
  have hpromoted := (Underway.begin s).promoteDue now
  -- the rest of a stop, once the claims are settled
  have htail : ∀ v, Underway s v → v.tokensFinal ≤ s.tokensPend → v.everDisputed = false →
      ((v.weeksStartedAt now).bind fun g =>
        (Unclamped.chargeWeeksThrough v g).bind (Unclamped.payFinalAndClose fees)) =
      (v.weeksStartedAt now).bind fun g => (v.chargeWeeksThrough g).payFinalAndClose := by
    intro v hv hfinal hdv
    refine Option.bind_congr fun g hg => ?_
    obtain ⟨h1, hcl, hpaid⟩ := h.stop_charged hk ha hv hfinal hdv hg
    rw [h1]
    apply hcl.agrees
    apply hf
    exact hcl.netPositive fun _ => hpaid
  dsimp only
  split_ifs with hsub
  · exact htail _ hpromoted (s.toMeter.promoteDue_final_le now h.sane.final_le) hund
  · refine Option.bind_congr fun v hv => ?_
    have hm := s.toMeter.promote_promoteDue now h.sane.final_le
    have hset : Underway s ((s.begin.setMeter (s.begin.toMeter.promoteDue now)).setMeter
        (s.begin.setMeter (s.begin.toMeter.promoteDue now)).toMeter.promote) :=
      ⟨rfl, rfl, rfl, ⟨s.tokensPend, s.tokensPend, hm⟩, rfl⟩
    obtain ⟨-, hmv, hst, -⟩ := forfeitBonds_inv hv
    apply htail v (hset.forfeit hv)
    · rw [hmv]
      change (s.toMeter.promoteDue now).promote.tokensFinal ≤ _
      rw [hm]
    · rw [hst]
      exact hund

/-- The seller leaves a subscription with no more delivered than its rebate leaves a fee for. -/
def RebateCovered (s : TokenContract) (i : Input) : Prop :=
  i.call = .sellerStop → s.isSubscription = true → s.probeAccepted = true →
    s.rebate ((s.toMeter.promoteDue i.now).tokensFinal / DEAL_TICK_SIZE) <
      s.payFeeOf (max s.tokensPaid ((s.weeksElapsedAt i.now).getD 0 * s.tokensPerWeek))

instance (s : TokenContract) (i : Input) : Decidable (s.RebateCovered i) :=
  inferInstanceAs (Decidable (_ → _ → _ → _))

theorem forfeitBonds_feeAccrued {b x : ℕ} (h : v.forfeitBonds b x = some w) :
    w.feeAccrued = v.feeAccrued := by
  obtain ⟨-, -, -, hp⟩ := forfeitBonds_inv h
  rw [hp]
  rfl

theorem sellerForfeit_feeAccrued (h : s.sellerForfeit now = some v) :
    v.feeAccrued = s.feeAccrued := by
  have htail : ∀ w : TokenContract, (if w.probeAccepted = true ∧ w.isSubscription = false then
      (w.setMeter { w.toMeter with tokensPend := w.tokensFinal }).forfeitBonds 0 w.pricePerTick
      else some w) = some v → v.feeAccrued = w.feeAccrued := by
    intro w h
    split_ifs at h
    · exact (forfeitBonds_feeAccrued h).trans rfl
    · rw [Option.some.inj h]
  unfold sellerForfeit at h
  dsimp only at h
  split_ifs at h with ha
  · obtain ⟨w, hw, h⟩ := of_bind h
    cases hw
    exact htail (s.setMeter (s.toMeter.promoteDue now)) h
  · obtain ⟨w, hw, h⟩ := of_bind h
    have hfee : w.feeAccrued = s.feeAccrued := forfeitBonds_feeAccrued hw
    exact (htail (w.setMeter (w.toMeter.promoteDue now)) h).trans hfee

theorem sellerForfeit_underway (hd : s.disputed = false)
    (h : s.begin.sellerForfeit now = some v) : Underway s v ∧ v.everDisputed = s.everDisputed ∧
      v.tokensFinal = (s.toMeter.promoteDue now).tokensFinal := by
  obtain ⟨w, x, y, hp, hm, hx⟩ := sellerForfeit_prepared (s := s) hd h
  refine ⟨⟨hp.moved.terms, hp.deposit, sellerForfeit_feeAccrued (s := s.begin) h, ⟨x, y, hm⟩, ?_⟩, ?_, ?_⟩
  · rw [hp.stage]
  · rw [hp.stage]
  · rw [hm]
    exact hx

variable (caller) in
/-- A seller who leaves is charged the weeks that ended. -/
theorem Settleable.sellerStop_charged (h : Settleable s) (hd : s.disputed = false)
    (hv : s.begin.sellerForfeit now = some v) (he : v.weeksElapsedAt now = some e) :
    Unclamped.chargeWeeksThrough v e = some (v.chargeWeeksThrough e) ∧
      Closable (v.chargeWeeksThrough e) ∧
      ((v.chargeWeeksThrough e).finalPaid.closing.NetPositive true ↔
        s.RebateCovered ⟨caller, now, .sellerStop⟩) := by
  obtain ⟨hway, hever, hfin⟩ := sellerForfeit_underway hd hv
  obtain ⟨x, y, hm⟩ := hway.meter
  have hel : s.weeksElapsedAt now = some e := by
    rw [← he, hm]
    rfl
  have hle := weeksElapsedAt_subWeeks hel
  have hfinal : v.tokensFinal ≤ s.tokensPend :=
    hfin.trans_le (s.toMeter.promoteDue_final_le now h.sane.final_le)
  have hcl := h.closable hway hle hfinal (hever.trans (h.undisputed hd))
  obtain ⟨n, a, b, hw⟩ := v.chargeWeeksThrough_weekly e
  have hacc : (v.chargeWeeksThrough e).probeAccepted = s.probeAccepted := by
    rw [hw.stage]
    exact hway.accepted
  have hsame : (v.chargeWeeksThrough e).isSubscription = s.isSubscription := by
    rw [← hway.isSubscription]
    unfold isSubscription
    rw [hw.meter]
  refine ⟨(h.weeks hway hle).1, hcl, ?_⟩
  by_cases hmid : s.isSubscription = true ∧ s.probeAccepted = true
  · obtain ⟨hsub, ha⟩ := hmid
    have htok : (v.chargeWeeksThrough e).tokensFinal = (s.toMeter.promoteDue now).tokensFinal := by
      rw [hw.meter]
      exact hfin
    have hge : DEAL_TICK_SIZE ≤ (s.toMeter.promoteDue now).tokensFinal := by
      have h1 := (h.sane.accepted ha).2.2.1
      have h2 := h.sane.final_le
      unfold Meter.promoteDue Meter.promote
      split_ifs
      · exact h1.trans h2
      · exact h1
      · exact h1
    have hterms : (v.chargeWeeksThrough e).toTerms = s.toTerms := hw.moved.terms.trans hway.terms
    rw [hcl.netPositive_iff (hacc.trans ha), htok, Nat.max_eq_right hge,
      finalOwed_eq_zero (hsame.trans hsub), Nat.add_zero, h.tokensPaid_charged hway hsub ha, hterms]
    unfold RebateCovered
    rw [hel]
    exact ⟨fun hlt _ _ _ => hlt, fun hc => hc rfl hsub ha⟩
  · constructor
    · intro _ _ hsub ha
      exact absurd ⟨hsub, ha⟩ hmid
    · intro _
      apply hcl.netPositive
      intro ha
      have hord : s.isSubscription = false := by
        by_contra hn
        exact hmid ⟨by simpa using hn, hacc.symm.trans ha⟩
      rw [finalOwed_eq (hsame.trans hord)]
      omega

theorem Settleable.sellerStop (h : Settleable s)
    (hf : ∀ w : TokenContract, w.NetPositive true ∨ fees = settleFees →
      fees w true = w.settleFees true)
    (hcov : s.RebateCovered ⟨caller, now, .sellerStop⟩ ∨ fees = settleFees) :
    Unclamped.sellerStop fees s.begin caller now = s.begin.sellerStop caller now := by
  unfold Unclamped.sellerStop TokenContract.sellerStop
  refine Option.bind_congr fun _ _ => ?_
  refine Option.bind_congr fun _ _ => ?_
  refine Option.bind_congr fun _ hd => ?_
  refine Option.bind_congr fun v hv => ?_
  refine Option.bind_congr fun e he => ?_
  obtain ⟨h1, hcl, hiff⟩ :=
    h.sellerStop_charged caller (of_guard hd) hv he
  rw [h1]
  apply hcl.agrees
  apply hf
  exact hcov.imp_left hiff.mpr

theorem Settleable.sellerStop_uncovered (h : Settleable s)
    (hcov : ¬ s.RebateCovered ⟨caller, now, .sellerStop⟩) :
    Unclamped.sellerStop netFees s.begin caller now = none := by
  by_contra hn
  obtain ⟨u, hu⟩ := Option.ne_none_iff_exists'.mp hn
  simp only [Unclamped.sellerStop, bind_iff] at hu
  obtain ⟨-, -, hd, v, hv, e, he, w, hw, hu⟩ := hu
  obtain ⟨h1, hcl, hiff⟩ := h.sellerStop_charged caller hd hv he
  cases h1.symm.trans hw
  rw [unclamped_finalPaid hcl.final_covered.1,
    closeClean_none (netFees_none fun hp => hcov (hiff.mp hp))] at hu
  cases hu

/-- A disputed deal on its way to either resolution: its charges have been made, or are none. -/
structure Resolvable (v : TokenContract) : Prop where
  idle : ∀ e, v.weeksElapsedAt v.disputeTime = some e →
    v.isSubscription = false ∨ v.probeAccepted = false ∨ e ≤ v.weekIndex
  fee : v.probeAccepted = true → 0 < v.feeAccrued
  trial : v.probeAccepted = false → v.tokensFinal = 0

/-- A resolution pays no rebate, and burns the fees whole. -/
theorem Resolvable.agrees {b x : ℕ} (h : Resolvable v)
    (hf : ∀ w : TokenContract, w.NetPositive false → fees w false = w.settleFees false) :
    Unclamped.settleTrustedAndClose fees v b x = v.settleTrustedAndClose b x := by
  unfold Unclamped.settleTrustedAndClose settleTrustedAndClose
  refine Option.bind_congr fun e he => ?_
  have hidle := weeks_idle (v := v.setPurse (v.toPurse.releaseProbe v.probeAccepted))
    (h.idle e he)
  rw [hidle.1, hidle.2, Option.bind_eq_bind, Option.bind_some]
  refine Option.bind_congr fun f hff => ?_
  refine Option.bind_congr fun kept _ => ?_
  refine Option.bind_congr fun g hg => ?_
  obtain ⟨-, fm, fg, fp⟩ := forfeitBonds_inv hff
  obtain ⟨hk, -⟩ := burnShell_inv hg
  have hnet : ((g.setPurse { g.toPurse.oweBond with deposit := 0, buyerBond := 0 }).setStage
      { g.toStage with opened := false }).NetPositive false := by
    cases ha : v.probeAccepted with
    | true =>
      right
      change 0 < g.feeAccrued
      rw [hk.purse, fp]
      refine Nat.lt_of_lt_of_le (h.fee ha) ?_
      obtain ⟨c, -, d, -, hch, -⟩ := (v.toPurse.releaseProbe v.probeAccepted).charge_charged
        (v.payOf (v.tokensFinal - v.claimBase)) (v.payFeeOf (v.tokensFinal - v.claimBase))
      have h1 := hch.accrued
      rw [Purse.releaseProbe_feeAccrued] at h1
      exact h1.symm ▸ Nat.le_add_right _ _
    | false =>
      left
      change g.ticksFinalized = 0
      rw [hk.meter, fm]
      change (if v.probeAccepted ∧ v.tokensFinal < DEAL_TICK_SIZE then DEAL_TICK_SIZE
        else v.tokensFinal) / DEAL_TICK_SIZE = 0
      rw [h.trial ha, if_neg (by simp [ha])]
      exact Nat.zero_div _
  exact congrArg (fun z => Option.bind z _) (hf _ hnet)

/-- Both resolutions start from the weeks elapsed at the dispute. -/
theorem Settleable.resolvable (h : Settleable s) (he : s.weeksElapsedAt s.disputeTime = some e) :
    Unclamped.chargeWeeksThrough s.begin e = some (s.begin.chargeWeeksThrough e) ∧
      (s.begin.chargeWeeksThrough e).endDispute.subWeeks =
        (s.begin.chargeWeeksThrough e).subWeeks ∧
      Resolvable (s.begin.chargeWeeksThrough e).endDispute := by
  obtain ⟨n, a, b, hw, hp, hm, -⟩ := disputed_prepared h.sane (e := e)
  have hacc : (s.begin.chargeWeeksThrough e).endDispute.probeAccepted = s.probeAccepted := by
    rw [hp.stage]
  refine ⟨(h.weeks (.begin s) (weeksElapsedAt_subWeeks he)).1, by rw [hm], ?_, ?_, ?_⟩
  · intro e' he'
    have hsame : e' = e := by
      rw [hp.stage, hm, hw.meter] at he'
      exact Option.some.inj (he'.symm.trans he)
    cases ha : s.probeAccepted with
    | false => exact .inr (.inl (hacc.trans ha))
    | true =>
      cases hsub : s.isSubscription with
      | false =>
        left
        unfold isSubscription
        rw [hm, hw.meter]
        exact hsub
      | true =>
        right
        right
        rw [hsame, hm, chargeWeeksThrough_meter (s := s.begin) hsub ha]
        change e ≤ (s.toMeter.crossTo e).weekIndex
        rw [Meter.crossTo_weekIndex]
        exact Nat.le_max_right _ _
  · intro ha
    have hpar := (h.weeks (.begin s) (weeksElapsedAt_subWeeks he)).2 (hacc.symm.trans ha)
    change 0 < (s.begin.chargeWeeksThrough e).feeAccrued
    rw [hpar.fee]
    refine Nat.lt_of_le_of_lt (Nat.zero_le _) (Terms.rebate_lt hpar.valid hpar.step Nat.one_pos
      ?_ (hpar.paid.trans hpar.funds))
    rw [Nat.one_mul]
    exact hpar.probe
  · intro ha
    have h0 := h.sane.unaccepted (hacc.symm.trans ha)
    have htr := h.sane.trustedTokens_le
    rw [hm]
    change s.trustedTokens = 0
    omega

theorem Settleable.releaseDispute (h : Settleable s)
    (hf : ∀ w : TokenContract, w.NetPositive false → fees w false = w.settleFees false) :
    Unclamped.releaseDispute fees s.begin caller = s.begin.releaseDispute caller := by
  unfold Unclamped.releaseDispute TokenContract.releaseDispute
  refine Option.bind_congr fun _ _ => ?_
  refine Option.bind_congr fun _ _ => ?_
  refine Option.bind_congr fun e he => ?_
  obtain ⟨h1, hsame, h2⟩ := h.resolvable he
  rw [h1]
  change ite _ _ _ = ite _ _ _
  split_ifs
  · exact h2.agrees hf
  · exact h2.agrees hf

theorem Settleable.resolveDisputeTimeout (h : Settleable s)
    (hf : ∀ w : TokenContract, w.NetPositive false → fees w false = w.settleFees false) :
    Unclamped.resolveDisputeTimeout fees s.begin now = s.begin.resolveDisputeTimeout now := by
  unfold Unclamped.resolveDisputeTimeout TokenContract.resolveDisputeTimeout
  refine Option.bind_congr fun _ _ => ?_
  refine Option.bind_congr fun _ _ => ?_
  refine Option.bind_congr fun e he => ?_
  obtain ⟨h1, hsame, h2⟩ := h.resolvable he
  rw [h1]
  change ite _ _ _ = ite _ _ _
  split_ifs with hsub
  · exact h2.agrees hf
  · refine Option.bind_congr fun g hg => ?_
    obtain ⟨hk, -⟩ := burnShell_inv hg
    refine Resolvable.agrees ⟨fun e _ => ?_, ?_, ?_⟩ hf
    · left
      unfold isSubscription at hsub ⊢
      rw [hk.meter, setPurse_toMeter, hsame]
      simpa using hsub
    · rw [hk.stage, hk.purse]
      exact h2.fee
    · rw [hk.stage, hk.meter]
      exact h2.trial

variable (fees) in
theorem Settleable.step_agrees (h : Settleable s) (hk : Clocked i.now s)
    (hf : ∀ (w : TokenContract) (c : Bool), w.NetPositive c ∨ fees = settleFees →
      fees w c = w.settleFees c) (hcov : s.RebateCovered i ∨ fees = settleFees) :
    Unclamped.step fees s i = s.step i := by
  have hclean : ∀ w : TokenContract, w.NetPositive true → fees w true = w.settleFees true :=
    fun w hw => hf w true (.inl hw)
  have htrust : ∀ w : TokenContract, w.NetPositive false → fees w false = w.settleFees false :=
    fun w hw => hf w false (.inl hw)
  obtain ⟨caller, now, call⟩ := i
  unfold Unclamped.step TokenContract.step
  split_ifs
  · rfl
  cases call with
  | claimTokens n => exact h.claimTokens n
  | finalize => exact h.finalize hclean
  | settleWeek => exact h.settleWeek hclean
  | stop => exact h.stop hk hclean
  | sellerStop => exact h.sellerStop (fun w => hf w true) hcov
  | releaseDispute => exact h.releaseDispute htrust
  | resolveDisputeTimeout => exact h.resolveDisputeTimeout htrust
  | _ => rfl

theorem Settleable.step_net_iff (h : Settleable s) (hk : Clocked i.now s)
    (hi : s.step i = some u) : Unclamped.step netFees s i = some u ↔ s.RebateCovered i := by
  constructor
  · intro hu
    by_contra hn
    obtain ⟨caller, now, call⟩ := i
    have hcall : call = .sellerStop := by
      by_contra hne
      exact hn fun hc => absurd hc hne
    subst hcall
    unfold Unclamped.step at hu
    rw [if_neg (by simp [step_live hi])] at hu
    exact absurd ((h.sellerStop_uncovered hn).symm.trans hu) (by simp)
  · intro hcov
    rw [h.step_agrees netFees hk _ (.inl hcov)]
    · exact hi
    · rintro w c (hw | hw)
      · exact netFees_eq hw
      · rw [hw]

/-- In a run whose calls come in time order and whose matches pay for whole ticks, no charge of a
settlement is ever clamped. No rebate is clamped, and each leaves part of the fees to burn, exactly
if the seller leaves no subscription in mid-week with a rebate beyond the fees on the tokens paid
for. -/
theorem clamps_iff {t : Terms} (ht : t.Valid) (hstep : PRICE_STEP ∣ t.pricePerTick)
    (h : Run step (init t) tr s) (hpay : Run.Each (fun s i _ => s.PaysWhole i) (init t) tr)
    (ho : Run.Ordered Input.now tr) :
    Run (Unclamped.step settleFees) (init t) tr s ∧
      (Run (Unclamped.step netFees) (init t) tr s ↔
        Run.Each (fun s i _ => s.RebateCovered i) (init t) tr) := by
  induction h with
  | nil => exact ⟨.nil, fun _ => trivial, fun _ => .nil⟩
  | @snoc tr s u i hr hi ih =>
    obtain ⟨hpay, hp⟩ := Run.each_concat.mp hpay
    have hlive := step_live hi
    have hset := run_settleable ht hstep hr hpay hlive
    have hk := run_clocked ht hr ho.of_append ho.until hlive
    obtain ⟨ih1, ih2⟩ := ih hpay ho.of_append
    have hnet := hset.step_net_iff hk hi
    refine ⟨ih1.snoc ?_, ?_⟩
    · rw [hset.step_agrees settleFees hk (fun _ _ _ => rfl) (.inr rfl)]
      exact hi
    · rw [Run.each_concat, hr.last_eq]
      constructor
      · intro hrun
        obtain ⟨v, hv, hlast⟩ := hrun.of_concat
        obtain rfl : v = s := hv.last_eq.symm.trans hr.last_eq
        exact ⟨ih2.mp hv, hnet.mp hlast⟩
      · rintro ⟨heach, hcov⟩
        exact (ih2.mpr heach).snoc (hnet.mpr hcov)

/-- A subscription of eight ticks a week. -/
def sampleQuota : Terms := { sampleTerms with maxTicks := 32 }

/-- It is opened and accepted, the seller claims `n` ticks of its first week and leaves. -/
def sampleQuit (n : ℕ) : List Input :=
  [⟨.internal (.note 1), 10, .postFromNote 5 1 1 0 0⟩,
    ⟨.internal sampleBook, 20,
      .fundFromOrderBook (32 * sampleUnit + 2 * PRICE_STEP) (.note 2) 9 FLAG_SUBSCRIPTION⟩,
    ⟨.internal (.note 1), 30, .fundDeal (2 * PRICE_STEP) none⟩,
    ⟨.external 7, 50, .openDeal [1]⟩,
    ⟨.external 7, 300, .acceptProbe⟩] ++
  (List.range n).map (fun k => ⟨.external 7, 400 + 60 * k, .claimTokens ((k + 2) * DEAL_TICK_SIZE)⟩) ++
  [⟨.external 7, 400 + 60 * n, .sellerStop⟩]

def quitTrace (n : ℕ) : List (Input × TokenContract) :=
  Run.trace step (init sampleQuota) (sampleQuit n)

theorem quit_run (n : ℕ) :
    Run step (init sampleQuota) (quitTrace n) (Run.last (init sampleQuota) (quitTrace n)) :=
  Run.trace_run ..

/-- Seven ticks delivered leave something to burn. -/
theorem clamps_sample : (quitTrace 6).length = 12 ∧
    Run (Unclamped.step netFees) (init sampleQuota) (quitTrace 6)
      (Run.last (init sampleQuota) (quitTrace 6)) :=
  ⟨by decide +kernel, (clamps_iff (by decide) (dvd_refl _) (quit_run 6) (by decide +kernel)
    (by decide +kernel)).2.mpr (by decide +kernel)⟩

/-- Eight ticks delivered in the first week, and one of them paid for, leave nothing. -/
theorem rebate_clamped :
    ¬ ∀ (t : Terms), t.Valid → PRICE_STEP ∣ t.pricePerTick →
      ∀ (tr : List (Input × TokenContract)) (s : TokenContract), Run step (init t) tr s →
        Run.Each (fun s i _ => s.PaysWhole i) (init t) tr → Run.Ordered Input.now tr →
          Run (Unclamped.step settleFees) (init t) tr s ∧
            Run (Unclamped.step netFees) (init t) tr s := by
  intro h
  have h1 := (h sampleQuota (by decide) (dvd_refl _) _ _ (quit_run 7) (by decide +kernel)
    (by decide +kernel)).2.taken
  exact absurd h1 (by decide +kernel)

end TokenContract

end Dexdo
