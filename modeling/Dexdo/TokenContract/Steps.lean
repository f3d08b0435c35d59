import Dexdo.TokenContract.Endings

namespace Dexdo

/-- Calls that come before the service. -/
def DealCall.early : DealCall → Bool
  | .close | .fundDeal .. | .fundBuyerBond _ | .openDeal _ | .acceptProbe | .cleanupUnopened
  | .destroy => true
  | _ => false

namespace TokenContract

variable {s t u : TokenContract} {i : Input} {caller : Caller} {now : ℕ}

/-- Calls from before the service fail once the probe is accepted. -/
theorem exec_early (ho : s.opened = true) (hf : s.funded = true) (ha : s.probeAccepted = true)
    {call : DealCall} (hc : call.early = true) : s.exec caller now call = none := by
  apply Option.eq_none_iff_forall_ne_some.mpr
  intro u h
  cases call with
  | close =>
    simp only [exec, close, bind_iff] at h
    exact absurd (hf.symm.trans h.2.1) (by decide)
  | fundDeal =>
    simp only [exec, fundDeal, bind_iff] at h
    exact absurd (ho.symm.trans h.2.1) (by decide)
  | fundBuyerBond =>
    simp only [exec, fundBuyerBond, bind_iff] at h
    exact absurd (ho.symm.trans h.2.1) (by decide)
  | openDeal =>
    simp only [exec, openDeal, bind_iff] at h
    exact absurd (ho.symm.trans h.2.2.1) (by decide)
  | acceptProbe =>
    simp only [exec, acceptProbe, bind_iff] at h
    exact absurd (ha.symm.trans h.2.2.2.1) (by decide)
  | cleanupUnopened =>
    simp only [exec, cleanupUnopened, bind_iff] at h
    exact absurd (ho.symm.trans h.2.1) (by decide)
  | destroy =>
    simp only [exec, destroy, bind_iff] at h
    exact absurd (ho.symm.trans h.2.1) (by decide)
  | _ => cases hc

theorem returnBond_inv (h : s.returnBond = some u) :
    Moved s u 0 s.sellerBond 0 0 ∧ u.toMeter = s.toMeter ∧
      u.probeAccepted = s.probeAccepted ∧ u.sellerBond = 0 ∧ u.finalizedOwed = s.finalizedOwed := by
  unfold returnBond at h
  dsimp only at h
  split_ifs at h with h0
  · cases h
    exact ⟨(Moved.refl s).cast rfl h0.symm rfl rfl, rfl, rfl, h0, rfl⟩
  · have hk := (payShell_inv h).1
    refine ⟨(((Moved.setPurse s (by rfl)).trans (.setStage _ _)).trans (paySeller_moved h)).cast rfl
      (by simp) rfl rfl, hk.meter, ?_, ?_, ?_⟩
    · rw [hk.stage]
      rfl
    · rw [hk.purse]
      rfl
    · rw [hk.purse]
      rfl

theorem release_closed (h : (do
      let s ← s.returnBond
      s.sweepAndDie) = some u) :
    Closed s u 0 s.sellerBond 0 ∧ u.toMeter = s.toMeter ∧
      u.probeAccepted = s.probeAccepted ∧ u.toPurse.ofSeller = s.finalizedOwed := by
  obtain ⟨t, ht, h⟩ := of_bind h
  obtain ⟨hm, h1, h2, h3, h4⟩ := returnBond_inv ht
  obtain ⟨hc, k1, k2, k3⟩ := sweepAndDie_closed h
  refine ⟨hm.closed hc, k1.trans h1, ?_, ?_⟩
  · rw [k2]
    exact h2
  · rw [k3]
    change t.finalizedOwed + t.sellerBond = _
    rw [h3, h4, Nat.add_zero]

theorem close_effect (hs : Sane s) (h : s.begin.close caller = some u) :
    Effect s ⟨caller, now, .close⟩ u := by
  simp only [close, bind_iff] at h
  obtain ⟨-, hf, -, h⟩ := h
  obtain ⟨hc, hm, ha, hx⟩ := release_closed (Option.bind_eq_some_iff.mpr h)
  have hf' : s.funded = false := hf
  have ho := (hs.unfunded hf').1
  have hacc := (hs.unopened ho).1
  refine .freed (.inl ⟨rfl, hf⟩) ho ?_ hm (ha.trans hacc) (hx.trans (hs.unaccepted hacc).1)
  rw [if_neg (by simp [hf'])]
  exact hc

theorem refundUnopened_inv (hp : s.probeTick = 0) (h : s.refundUnopened = some u) :
    Moved s u (if s.funded then s.deposit + s.buyerBond else 0) 0 0 0 ∧
      u.toMeter = s.toMeter ∧ u.probeAccepted = s.probeAccepted ∧ u.sellerBond = s.sellerBond ∧
      u.finalizedOwed = s.finalizedOwed := by
  unfold refundUnopened at h
  split_ifs at h with h0
  · cases h
    refine ⟨(Moved.refl s).cast (by simp [h0]) rfl rfl rfl, rfl, rfl, rfl, rfl⟩
  · have hk := (payShell_inv h).1
    have hdep : ((s.toPurse.releaseProbe s.probeAccepted).releaseBuyerBond).deposit =
        s.deposit + s.buyerBond := by
      unfold Purse.releaseBuyerBond Purse.releaseProbe
      split_ifs
      · rfl
      · simp [hp]
    refine ⟨((((Moved.setPurse s (by simp [Purse.releaseBuyerBond])).trans
      (.setPurse _ (by rfl))).trans (.setStage _ _)).trans (payBuyer_moved h)).cast ?_ rfl rfl rfl,
      hk.meter, ?_, ?_, ?_⟩
    · rw [setPurse_toPurse, hdep]
      simp [h0]
    · rw [hk.stage]
      rfl
    · rw [hk.purse]
      simp [Purse.releaseBuyerBond]
    · rw [hk.purse]
      simp [Purse.releaseBuyerBond]

theorem destroy_effect (hs : Sane s) (h : s.begin.destroy caller = some u) :
    Effect s ⟨caller, now, .destroy⟩ u := by
  simp only [destroy, bind_iff] at h
  obtain ⟨-, ho, -, -, t, ht, h⟩ := h
  have ho' : s.opened = false := ho
  obtain ⟨hacc, -, -, hp⟩ := hs.unopened ho'
  obtain ⟨hm, h1, h2, h3, h4⟩ := refundUnopened_inv (s := s.begin) hp ht
  obtain ⟨hc, k1, k2, k3⟩ := release_closed (Option.bind_eq_some_iff.mpr h)
  refine .freed (.inr rfl) ho' ((hm.closed hc).cast (Nat.add_zero _) ?_ rfl) (k1.trans h1)
    ((k2.trans h2).trans hacc) ?_
  · rw [h3, Nat.zero_add]
    rfl
  · rw [k3, h4]
    exact (hs.unaccepted hacc).1

theorem step_effect (hs : Sane s) (h : s.step i = some u) : s.destroyed = false ∧ Effect s i u := by
  unfold step at h
  split_ifs at h with hl
  have hlive : s.destroyed = false := by simpa using hl
  refine ⟨hlive, ?_⟩
  obtain ⟨caller, now, call⟩ := i
  cases call with
  | fundFromOrderBook => exact fundFromOrderBook_effect h
  | postFromNote => exact postFromNote_effect h
  | onSellClosed =>
    cases h
    exact onSellClosed_effect
  | close => exact close_effect hs h
  | fundDeal => exact fundDeal_effect h
  | fundBuyerBond => exact fundBuyerBond_effect h
  | openDeal => exact openDeal_effect h
  | acceptProbe => exact acceptProbe_effect h
  | claimTokens => exact claimTokens_effect hs h
  | finalize => exact finalize_effect hs hlive h
  | settleWeek => exact settleWeek_effect hs hlive h
  | stop => exact stop_effect hs hlive h
  | sellerStop => exact sellerStop_effect hs hlive h
  | dispute => exact dispute_effect h
  | releaseDispute => exact releaseDispute_effect hs hlive h
  | resolveDisputeTimeout => exact resolveDisputeTimeout_effect hs hlive h
  | cleanupUnopened => exact cleanupUnopened_effect h
  | withdrawShell => exact withdrawShell_effect hs h
  | destroy => exact destroy_effect hs h

theorem init_sane {t : Terms} (ht : t.Valid) : Sane (init t) where
  valid := ht
  unfunded := fun _ => ⟨rfl, rfl⟩
  unopened := fun _ => ⟨rfl, rfl, rfl, rfl⟩
  probe := fun h => by cases h
  unaccepted := fun _ => ⟨rfl, rfl, rfl, rfl, rfl, rfl⟩
  accepted := fun h => by cases h
  ordinary := fun _ => ⟨rfl, fun h => by cases h⟩
  disputed := fun h => by cases h
  size := fun h => by cases h
  funds := Nat.zero_le _
  quota := Nat.zero_le _
  sellerBond := rfl
  buyerBond := fun _ => rfl

theorem takesMatch_ticks {paid flags : ℕ} (hv : s.toTerms.Valid) (h : s.takesMatch paid flags) :
    2 ≤ (paid - s.matchBond flags) / s.unit ∧
      (paid - s.matchBond flags) / s.unit ≤ s.maxTicks := by
  obtain ⟨-, -, h2, h3⟩ := h
  have hu : 0 < s.unit := Nat.add_pos_left hv.1 _
  constructor
  · exact (Nat.le_div_iff_mul_le hu).mpr h2
  · exact Nat.div_le_of_le_mul (by rw [Nat.mul_comm]; exact h3)

theorem shape_quota (m : Meter) (now flags n : ℕ) :
    (m.shape now flags n).tokensPerWeek ≤ (m.shape now flags n).fundedTokens := by
  unfold Meter.shape
  dsimp only
  split_ifs
  · exact le_rfl
  · exact Nat.div_le_self _ _
  · exact le_rfl
  · exact Nat.div_le_self _ _

/-- A match fills the meter of a deal that was never opened. -/
theorem matched_sane {paid flags : ℕ} {note : Addr} {pk now : ℕ} (hs : Sane s)
    (ht : s.takesMatch paid flags) (hterms : u.toTerms = s.toTerms)
    (hp : u.toPurse = { s.toPurse with
      balance := s.balance + paid
      buyerBond := s.matchBond flags
      deposit := paid - s.matchBond flags })
    (hm : u.toMeter = s.toMeter.shape now flags
      ((paid - s.matchBond flags) / s.unit * DEAL_TICK_SIZE))
    (hg : u.toStage = { s.toStage with
      buyer := some note
      buyerPubkey := pk
      funded := true
      offerPosted := false
      fundedTime := now
      dealFlags := flags
      buyerBondFunded := if 0 < s.matchBond flags then true else s.buyerBondFunded }) : Sane u := by
  obtain ⟨T, P, M, G, A⟩ := u
  dsimp only at hterms hp hm hg
  subst hterms hp hm hg
  have ho : s.opened = false := (hs.unfunded ht.1).1
  have hacc : s.probeAccepted = false := (hs.unopened ho).1
  obtain ⟨h1, h2⟩ := takesMatch_ticks hs.valid ht
  obtain ⟨k1, k2, k3, k4, k5, k6⟩ := hs.unaccepted hacc
  constructor
  · exact hs.valid
  · intro h
    cases h
  · exact hs.unopened
  · exact hs.probe
  · exact fun _ => ⟨k1, k2, k3, k4, k5, rfl⟩
  · intro h
    rw [show s.probeAccepted = true from h] at hacc
    cases hacc
  · refine fun _ => ⟨rfl, fun h => ?_⟩
    rw [show s.probeAccepted = true from h] at hacc
    cases hacc
  · exact hs.disputed
  · intro _
    exact Nat.le_mul_of_pos_left _ (by omega)
  · exact Nat.mul_le_mul_right _ h2
  · exact shape_quota _ _ _ _
  · exact hs.sellerBond
  · intro h
    dsimp only at h ⊢
    split_ifs at h with h0
    omega

/-- Opening takes the probe out of the escrow. -/
theorem opened_sane {c : List ℕ} {now : ℕ} (hs : Sane s) (hf : s.funded = true)
    (ho : s.opened = false) (hterms : u.toTerms = s.toTerms)
    (hp : u.toPurse = s.toPurse.takeProbe s.pricePerTick)
    (hm : u.toMeter = { s.toMeter with lastClaimTime := now })
    (hg : u.toStage = { s.toStage with
      endpointCipher := c
      probeAccepted := false
      probeTime := now
      opened := true
      everOpened := true }) : Sane u := by
  obtain ⟨T, P, M, G, A⟩ := u
  dsimp only at hterms hp hm hg
  subst hterms hp hm hg
  have hacc := (hs.unopened ho).1
  constructor
  · exact hs.valid
  · intro h
    rw [show s.funded = false from h] at hf
    cases hf
  · intro h
    cases h
  · exact fun _ _ => rfl
  · exact fun _ => hs.unaccepted hacc
  · intro h
    cases h
  · exact fun h => ⟨(hs.ordinary h).1, fun h => by cases h⟩
  · exact hs.disputed
  · exact hs.size
  · exact hs.funds
  · exact hs.quota
  · exact hs.sellerBond
  · exact hs.buyerBond

/-- Acceptance of the probe starts the meter. -/
theorem accepted_sane {now : ℕ} (hs : Sane s) (ho : s.opened = true)
    (ha : s.probeAccepted = false) (hterms : u.toTerms = s.toTerms)
    (hp : u.toPurse = s.toPurse.acceptProbe (feeOf s.pricePerTick))
    (hm : u.toMeter = s.toMeter.acceptProbe now)
    (hg : u.toStage = { s.toStage with probeAccepted := true }) : Sane u := by
  obtain ⟨T, P, M, G, A⟩ := u
  dsimp only at hterms hp hm hg
  subst hterms hp hm hg
  obtain ⟨-, -, -, -, -, hwi⟩ := hs.unaccepted ha
  have hf : s.funded = true := by
    by_contra hn
    exact absurd ((hs.unfunded (by simpa using hn)).1.symm.trans ho) (by decide)
  constructor
  · exact hs.valid
  · intro h
    rw [show s.funded = false from h] at hf
    cases hf
  · intro h
    rw [show s.opened = false from h] at ho
    cases ho
  · intro _ h
    cases h
  · intro h
    cases h
  · refine fun _ => ⟨rfl, ⟨fun _ => rfl, fun h => ?_⟩, le_rfl, le_rfl⟩
    exact absurd hwi (Nat.pos_iff_ne_zero.mp h)
  · exact fun h => ⟨(hs.ordinary h).1, fun _ => hs.size hf⟩
  · exact hs.disputed
  · exact hs.size
  · exact hs.funds
  · exact hs.quota
  · exact hs.sellerBond
  · exact hs.buyerBond

/-- Weeks and claims of an open deal move its meter only. -/
theorem metered_sane {k a b x y c d : ℕ} (hs : Sane s) (ho : s.opened = true)
    (ha : s.probeAccepted = true) (hw : Weekly s.begin t k a b) (hpace : Paced t)
    (hx : DEAL_TICK_SIZE ≤ x) (hy : x ≤ y)
    (hord : s.isSubscription = false → t = s.begin ∧ y ≤ s.fundedTokens)
    (hterms : u.toTerms = s.toTerms) (hp : u.toPurse = t.toPurse)
    (hm : u.toMeter = { t.toMeter with
      tokensFinal := x, tokensPend := y, lastClaimTime := c, ticksFinalized := d })
    (hg : u.toStage = s.toStage) : Sane u := by
  have hmeter := hw.meter
  have hcharged := hw.charged
  obtain ⟨T, P, M, G, A⟩ := u
  dsimp only at hterms hp hm hg
  subst hterms hp hm hg
  have hsub : t.subWeeks = s.subWeeks := by rw [hmeter]; rfl
  have hf : s.funded = true := by
    by_contra hn
    exact absurd ((hs.unfunded (by simpa using hn)).1.symm.trans ho) (by decide)
  constructor
  · exact hs.valid
  · intro h
    rw [show s.funded = false from h] at hf
    cases hf
  · intro h
    rw [show s.opened = false from h] at ho
    cases ho
  · intro _ h
    rw [show s.probeAccepted = false from h] at ha
    cases ha
  · intro h
    rw [show s.probeAccepted = false from h] at ha
    cases ha
  · exact fun _ => ⟨hcharged.probeTick.trans (hs.noProbe ha), ⟨hpace.first, hpace.later⟩, hx, hy⟩
  · intro h
    have h0 : s.isSubscription = false := by
      rw [← h]
      exact congrArg (fun n : ℕ => decide (n ≠ 0)) hsub.symm
    obtain ⟨rfl, hle⟩ := hord h0
    exact ⟨(hs.ordinary h0).1, fun _ => hle⟩
  · exact hs.disputed
  · intro _
    change DEAL_TICK_SIZE ≤ t.fundedTokens
    rw [hmeter]
    exact hs.size hf
  · change t.fundedTokens ≤ s.maxTicks * DEAL_TICK_SIZE
    rw [hmeter]
    exact hs.funds
  · change t.tokensPerWeek ≤ t.fundedTokens
    rw [hmeter]
    exact hs.quota
  · exact hcharged.sellerBond.trans hs.sellerBond
  · exact fun h => hcharged.buyerBond.trans (hs.buyerBond h)

theorem Sane.paced (hs : Sane s) (ha : s.probeAccepted = true)
    (hm : u.toMeter = s.toMeter := by rfl) : s.probeTick = 0 ∧ Paced u ∧
      DEAL_TICK_SIZE ≤ s.tokensFinal ∧ s.tokensFinal ≤ s.tokensPend := by
  obtain ⟨h1, h2, h3⟩ := hs.accepted ha
  exact ⟨h1, h2.congr (by rw [hm]) (by rw [hm]) (by rw [hm]), h3⟩

/-- A transaction leaves a deal it does not end sane. -/
theorem Effect.sane (hs : Sane s) (he : Effect s i u) (hl : u.destroyed = false) : Sane u := by
  cases he with
  | quiet _ _ _ hp hm hg hpay =>
    obtain ⟨T, P, M, G, A⟩ := u
    obtain rfl := hpay.terms
    dsimp only at hp hm hg
    subst hp hm hg
    exact ⟨hs.valid, hs.unfunded, hs.unopened, hs.probe, hs.unaccepted, fun h => hs.paced h,
      hs.ordinary, hs.disputed, hs.size, hs.funds, hs.quota, hs.sellerBond, hs.buyerBond⟩
  | bounced _ _ _ hp hm hg hpay =>
    obtain ⟨T, P, M, G, A⟩ := u
    obtain rfl := hpay.terms
    dsimp only at hp hm hg
    subst hp hm hg
    exact ⟨hs.valid, hs.unfunded, hs.unopened, hs.probe, hs.unaccepted, fun h => hs.paced h,
      hs.ordinary, hs.disputed, hs.size, hs.funds, hs.quota, hs.sellerBond, hs.buyerBond⟩
  | matched _ _ _ ht hp hm hg hpay => exact matched_sane hs ht hpay.terms hp hm hg
  | sellerBonded _ _ ho hf hn hp hm hg hpay =>
    obtain ⟨T, P, M, G, A⟩ := u
    obtain rfl := hpay.terms
    dsimp only at hp hm hg
    subst hp hm hg
    exact ⟨hs.valid, hs.unfunded, hs.unopened, hs.probe, hs.unaccepted, fun h => hs.paced h,
      hs.ordinary, hs.disputed, hs.size, hs.funds, hs.quota, rfl, hs.buyerBond⟩
  | buyerBonded _ _ ho hf hn hp hm hg hpay =>
    obtain ⟨T, P, M, G, A⟩ := u
    obtain rfl := hpay.terms
    dsimp only at hp hm hg
    subst hp hm hg
    exact ⟨hs.valid, hs.unfunded, hs.unopened, hs.probe, hs.unaccepted, fun h => hs.paced h,
      hs.ordinary, hs.disputed, hs.size, hs.funds, hs.quota, hs.sellerBond, fun h => by cases h⟩
  | opened _ hf ho _ _ _ hp hm hg hpay => exact opened_sane hs hf ho hpay.terms hp hm hg
  | accepted _ ho _ ha hp hm hg hpay => exact accepted_sane hs ho ha hpay.terms hp hm hg
  | claimed _ ho _ ha hlt hw hpace _ hord hcap hp hm hg hpay =>
    obtain ⟨-, -, h1, h2⟩ := hs.accepted ha
    refine metered_sane hs ho ha hw hpace (h1.trans h2) hlt.le (fun h0 => ?_) hpay.terms hp hm hg
    obtain rfl := hord h0
    refine ⟨rfl, ?_⟩
    unfold Meter.claimCap at hcap
    rwa [if_pos (by simpa [isSubscription] using h0)] at hcap
  | promoted _ ho _ hlt _ hp hm hg hpay =>
    have ha : s.probeAccepted = true := by
      by_contra hn
      obtain ⟨-, -, -, h4, h5, -⟩ := hs.unaccepted (by simpa using hn)
      omega
    obtain ⟨-, hpace, h1, h2⟩ := hs.accepted ha
    exact metered_sane hs ho ha (.refl s.begin) ⟨hpace.first, hpace.later⟩ (h1.trans h2) le_rfl
      (fun h0 => ⟨rfl, (hs.ordinary h0).2 ha⟩) hpay.terms hp hm hg
  | @crossed k a b d t _ hsub ho ha hw hpace _ hp hm hg hpay =>
    obtain ⟨-, -, h1, h2⟩ := hs.accepted ha
    have hmeter := hw.meter
    have hm' : u.toMeter = { t.toMeter with
        tokensFinal := s.tokensFinal
        tokensPend := s.tokensPend
        lastClaimTime := s.lastClaimTime
        ticksFinalized := d } := by
      rw [hm, hmeter]
      rfl
    exact metered_sane hs ho ha hw hpace h1 h2
      (fun h0 => absurd (hsub.symm.trans h0) (by decide)) hpay.terms hp hm' hg
  | disputed _ ho _ hp hm hg hpay =>
    obtain ⟨T, P, M, G, A⟩ := u
    obtain rfl := hpay.terms
    dsimp only at hp hm hg
    subst hp hm hg
    exact ⟨hs.valid, hs.unfunded, fun h => absurd (ho.symm.trans h) (by decide), hs.probe,
      hs.unaccepted, fun h => hs.paced h, hs.ordinary, fun _ => rfl, hs.size, hs.funds, hs.quota,
      hs.sellerBond, hs.buyerBond⟩
  | cleaned _ hf ho _ hp hm hg hpay =>
    obtain ⟨T, P, M, G, A⟩ := u
    obtain rfl := hpay.terms
    dsimp only at hp hm hg
    subst hp hm hg
    exact ⟨hs.valid, fun _ => ⟨ho, rfl⟩, hs.unopened, hs.probe, hs.unaccepted,
      fun h => hs.paced h, hs.ordinary, hs.disputed, fun h => (by cases h), hs.funds, hs.quota, rfl,
      fun _ => rfl⟩
  | withdrawn _ ho hle _ hp hm hg hpay =>
    obtain ⟨T, P, M, G, A⟩ := u
    obtain rfl := hpay.terms
    dsimp only at hp hm hg
    subst hp hm hg
    refine ⟨hs.valid, hs.unfunded, hs.unopened, hs.probe, fun h => ?_, fun h => hs.paced h,
      hs.ordinary, hs.disputed, hs.size, hs.funds, hs.quota, hs.sellerBond, hs.buyerBond⟩
    obtain ⟨h1, h2⟩ := hs.unaccepted h
    exact ⟨by dsimp only; omega, h2⟩
  | freed _ _ hcl => exact absurd (hl.symm.trans hcl.destroyed) (by decide)
  | ended _ _ _ hx =>
    obtain ⟨_, _, _, hcl, -⟩ := hx.ends
    exact absurd (hl.symm.trans hcl.destroyed) (by decide)

theorem step_sane (hs : Sane s) (h : s.step i = some u) (hl : u.destroyed = false) : Sane u :=
  (step_effect hs h).2.sane hs hl

end TokenContract

end Dexdo
