import Dexdo.TokenContract.Ledger

namespace Dexdo

namespace TokenContract

variable {s t u : TokenContract}

/-- Frame of the week loop. -/
structure Weekly (s u : TokenContract) (n pay fee : ℕ) : Prop where
  moved : Moved s u 0 0 0 0
  stage : u.toStage = s.toStage
  meter : u.toMeter = { s.toMeter with
    weekIndex := s.weekIndex + n
    tokensPaid := u.tokensPaid
    weekBaseTokens := u.weekBaseTokens }
  charged : s.toPurse.Charged u.toPurse pay fee

theorem Weekly.refl (s : TokenContract) : Weekly s s 0 0 0 where
  moved := .refl s
  stage := rfl
  meter := rfl
  charged := .refl s.toPurse

theorem chargeWeek_weekly (s : TokenContract) :
    ∃ a ≤ s.payOf s.weekDue, ∃ b ≤ s.payFeeOf s.weekDue, Weekly s s.chargeWeek 1 a b := by
  obtain ⟨a, ha, b, hb, h, -⟩ := s.toPurse.charge_charged (s.payOf s.weekDue) (s.payFeeOf s.weekDue)
  exact ⟨a, ha, b, hb, (Moved.setPurse s (by rfl)).trans (.setMeter _ _), rfl, rfl, h⟩

theorem Weekly.trans {m n a b a' b' : ℕ} (h : Weekly s t m a b) (h' : Weekly t u n a' b') :
    Weekly s u (m + n) (a + a') (b + b') where
  moved := h.moved.trans h'.moved
  stage := h'.stage.trans h.stage
  meter := by
    rw [h'.meter, h.meter]
    simp only [Nat.add_assoc]
  charged := h.charged.trans h'.charged

theorem chargeWeeks_weekly (n : ℕ) (s : TokenContract) :
    ∃ a b, Weekly s (chargeWeeks n s) n a b := by
  induction n generalizing s with
  | zero => exact ⟨0, 0, .refl s⟩
  | succ n ih =>
    obtain ⟨a, -, b, -, h1⟩ := s.chargeWeek_weekly
    obtain ⟨a', b', h2⟩ := ih s.chargeWeek
    have h := h1.trans h2
    rw [Nat.add_comm 1 n] at h
    exact ⟨_, _, h⟩

theorem chargeWeeksThrough_eq (s : TokenContract) (e : ℕ) :
    ∃ n, s.chargeWeeksThrough e = chargeWeeks n s := by
  unfold chargeWeeksThrough
  split_ifs
  · exact ⟨0, rfl⟩
  · exact ⟨_, rfl⟩

theorem chargeWeeksThrough_weekly (s : TokenContract) (e : ℕ) :
    ∃ n a b, Weekly s (s.chargeWeeksThrough e) n a b := by
  obtain ⟨n, hn⟩ := s.chargeWeeksThrough_eq e
  rw [hn]
  exact ⟨n, chargeWeeks_weekly n s⟩

theorem chargeWeeksThrough_ordinary (h : s.isSubscription = false) (e : ℕ) :
    s.chargeWeeksThrough e = s := by
  unfold chargeWeeksThrough
  rw [h]
  exact if_pos (.inl (by decide))

/-- Delivered volume recorded, as every end of a deal does first. -/
def delivered (s : TokenContract) : TokenContract :=
  s.setMeter (s.toMeter.recordDelivered s.probeAccepted)

theorem closeClean_closed (hp : s.probeAccepted = true → s.probeTick = 0)
    (h : s.closeClean = some u) :
    Closed s u s.toPurse.ofBuyer (s.toPurse.ofSeller + s.delivered.rebateDue true)
        (s.feeAccrued - s.delivered.rebateDue true) ∧
      u.toMeter = s.toMeter.recordDelivered s.probeAccepted ∧
      u.toStage = { s.toStage with opened := false, destroyed := true } ∧
      u.toPurse = Purse.empty := by
  obtain ⟨hc, hm, hg, hq⟩ := finish_closed h
  have hb := s.toPurse.releaseProbe_ofBuyer s.probeAccepted
  have hz := s.toPurse.releaseProbe_probeTick s.probeAccepted hp
  have hr : s.delivered.rebateDue true ≤ s.feeAccrued := rebateDue_le _ _
  have hmv : Moved s (((((s.setPurse (s.toPurse.releaseProbe s.probeAccepted).releaseBuyerBond
      ).setMeter (s.toMeter.recordDelivered s.probeAccepted)).setPurse
      { (s.toPurse.releaseProbe s.probeAccepted).releaseBuyerBond.oweBond with deposit := 0 }
      ).setStage { s.toStage with opened := false })) 0 0 0 0 :=
    ((((Moved.setPurse s (by simp [Purse.releaseBuyerBond])).trans (.setMeter _ _)).trans
      (.setPurse _ (by rfl))).trans (.setStage _ _))
  refine ⟨(hmv.closed hc).cast ?_ ?_ ?_, hm, hg, ?_⟩
  · simp only [Purse.ofBuyer, hz, Purse.releaseProbe_buyerBond] at hb ⊢
    simp [Purse.releaseBuyerBond]
    omega
  · simp [Purse.releaseBuyerBond, Purse.oweBond, Purse.ofSeller]
    rfl
  · simp [Purse.releaseBuyerBond, Purse.oweBond]
    rfl
  · rw [hq]
    simp [Purse.releaseBuyerBond, Purse.oweBond, hz, Purse.empty]

/-- Purse after the final charge of a clean end. -/
def finalPurse (s : TokenContract) : Purse :=
  s.toPurse.charge (s.payOf s.finalOwed) (s.payFeeOf s.finalOwed)

theorem payFinalAndClose_eq (s : TokenContract) : ∃ n, s.payFinalAndClose =
    ((s.setPurse s.finalPurse).setMeter { s.toMeter with tokensPaid := n }).closeClean := by
  unfold payFinalAndClose
  dsimp only
  split_ifs
  · exact ⟨s.tokensFinal, rfl⟩
  · exact ⟨s.tokensPaid, rfl⟩

theorem payFinalAndClose_closed (hp : s.probeAccepted = true → s.probeTick = 0)
    (h : s.payFinalAndClose = some u) :
    ∃ r, r = ((s.setPurse s.finalPurse).delivered).rebateDue true ∧
      Closed s u s.finalPurse.ofBuyer (s.finalPurse.ofSeller + r) (s.finalPurse.feeAccrued - r) ∧
      (∃ n, u.toMeter = { s.toMeter.recordDelivered s.probeAccepted with tokensPaid := n }) ∧
      u.toStage = { s.toStage with opened := false, destroyed := true } ∧
      u.toPurse = Purse.empty := by
  obtain ⟨n, hn⟩ := s.payFinalAndClose_eq
  rw [hn] at h
  obtain ⟨hc, hm, hg, hq⟩ := closeClean_closed (by exact hp) h
  have hmv : Moved s ((s.setPurse s.finalPurse).setMeter { s.toMeter with tokensPaid := n }) 0 0 0 0 :=
    (Moved.setPurse s (by rfl)).trans (.setMeter _ _)
  exact ⟨_, rfl, (hmv.closed hc).cast (Nat.zero_add _) (Nat.zero_add _) (Nat.zero_add _), ⟨n, hm⟩, hg,
    hq⟩

theorem forfeitBonds_inv {b x : ℕ} (h : s.forfeitBonds b x = some u) :
    Moved s u 0 0 0 (min b s.buyerBond + min x s.sellerBond) ∧ u.toMeter = s.toMeter ∧
      u.toStage = s.toStage ∧
      u.toPurse = { s.toPurse.dropBonds b x with balance := u.balance } := by
  obtain ⟨hk, hm⟩ := burnShell_inv h
  exact ⟨((Moved.setPurse s (by rfl)).trans hm).cast rfl rfl rfl (Nat.zero_add _), hk.meter,
    hk.stage, hk.purse⟩

/-- A disputed deal once `e` weeks are charged. -/
def weeksCharged (s : TokenContract) (e : ℕ) : TokenContract :=
  (s.setPurse (s.toPurse.releaseProbe s.probeAccepted)).chargeWeeksThrough e

/-- Purse before the stakes of a resolved dispute are taken. -/
def trustedPurse (s : TokenContract) (e : ℕ) : Purse :=
  let t := s.weeksCharged e
  t.toPurse.charge (t.payOf (t.tokensFinal - t.claimBase)) (t.payFeeOf (t.tokensFinal - t.claimBase))

/-- The disputed deal with that charge made. -/
def trustCharged (s : TokenContract) (e : ℕ) : TokenContract :=
  ((s.weeksCharged e).setPurse (s.trustedPurse e)).setMeter
    { (s.weeksCharged e).toMeter.recordDelivered (s.weeksCharged e).probeAccepted with
      tokensPaid := max (s.weeksCharged e).tokensPaid (s.weeksCharged e).tokensFinal }

theorem disputeRefund_le {k : ℕ} (h : s.disputeRefund = some k) : k ≤ s.deposit := by
  unfold disputeRefund at h
  split_ifs at h
  · obtain ⟨_, -, h⟩ := of_bind h
    cases h
    exact Nat.min_le_left _ _
  · exact (Option.some.inj h).symm.le

theorem disputeRefund_ordinary {k : ℕ} (ho : s.isSubscription = false)
    (h : s.disputeRefund = some k) : k = s.deposit := by
  unfold disputeRefund at h
  rw [ho] at h
  exact (Option.some.inj h).symm

theorem weeksCharged_weekly (s : TokenContract) (e : ℕ) :
    ∃ n a b, Weekly (s.setPurse (s.toPurse.releaseProbe s.probeAccepted)) (s.weeksCharged e) n a b :=
  chargeWeeksThrough_weekly _ e

theorem trustCharged_moved (s : TokenContract) (e : ℕ) : Moved s (s.trustCharged e) 0 0 0 0 := by
  obtain ⟨n, a, b, hw⟩ := s.weeksCharged_weekly e
  exact (((Moved.setPurse s (by simp)).trans hw.moved).trans (.setPurse _ (by rfl))).trans
    (.setMeter _ _)

/-- Amounts a resolved dispute pays out of the purse `p`. -/
def stakesOf (p : Purse) (buyerStake sellerStake : ℕ) : ℕ :=
  min buyerStake p.buyerBond + min sellerStake p.sellerBond

theorem disputeRefund_congr (ht : u.toTerms = s.toTerms) (hm : u.toMeter = s.toMeter)
    (hg : u.toStage = s.toStage) (hd : u.deposit = s.deposit) :
    u.disputeRefund = s.disputeRefund := by
  unfold disputeRefund isSubscription
  rw [ht, hm, hg, hd]

theorem settleTrustedAndClose_exact {b x : ℕ} (hp : s.probeAccepted = true → s.probeTick = 0)
    (h : s.settleTrustedAndClose b x = some u) :
    ∃ e kept, s.weeksElapsedAt s.disputeTime = some e ∧
      (s.trustCharged e).disputeRefund = some kept ∧
      Closed s u (kept + ((s.trustedPurse e).buyerBond - min b (s.trustedPurse e).buyerBond))
        ((s.trustedPurse e).finalizedOwed +
          ((s.trustedPurse e).sellerBond - min x (s.trustedPurse e).sellerBond))
        (stakesOf (s.trustedPurse e) b x + ((s.trustedPurse e).deposit - kept) +
          (s.trustedPurse e).feeAccrued) ∧
      u.toMeter = (s.trustCharged e).toMeter ∧
      u.toStage = { s.toStage with opened := false, destroyed := true } ∧
      u.toPurse = Purse.empty := by
  obtain ⟨e, he, h⟩ := of_bind h
  obtain ⟨f, hf, h⟩ := of_bind h
  obtain ⟨kept, hk, h⟩ := of_bind h
  obtain ⟨g, hg, h⟩ := of_bind h
  obtain ⟨f1, f2, f3, f4⟩ := forfeitBonds_inv (s := s.trustCharged e) hf
  obtain ⟨hkeep, hmv⟩ := burnShell_inv hg
  obtain ⟨hc, hm, hst, hq⟩ := finish_closed h
  obtain ⟨n, a, b', hw⟩ := s.weeksCharged_weekly e
  have hpurse : g.toPurse = { (s.trustedPurse e).dropBonds b x with balance := g.balance } := by
    rw [hkeep.purse, f4]
    rfl
  have hdep : f.deposit = (s.trustedPurse e).deposit := by
    rw [f4]
    rfl
  have hstage : g.toStage = s.toStage := (hkeep.stage.trans f3).trans hw.stage
  have hmeter : g.toMeter = (s.trustCharged e).toMeter := hkeep.meter.trans f2
  have hprobe : (s.trustedPurse e).probeTick = 0 :=
    hw.charged.probeTick.trans (Purse.releaseProbe_probeTick _ _ hp)
  refine ⟨e, kept, he, ?_, ?_, ?_, ?_, ?_⟩
  · rw [← disputeRefund_congr f1.terms f2 f3 (by rw [f4]; rfl)]
    exact hk
  · have hall := ((trustCharged_moved s e).trans f1).trans hmv
    have hend := (hall.trans ((Moved.setPurse g (by rfl)).trans (.setStage _ _))).closed hc
    have hb : g.buyerBond = _ := congrArg Purse.buyerBond hpurse
    have hx : g.sellerBond = _ := congrArg Purse.sellerBond hpurse
    have ho : g.finalizedOwed = _ := congrArg Purse.finalizedOwed hpurse
    have hfee : g.feeAccrued = _ := congrArg Purse.feeAccrued hpurse
    refine hend.cast ?_ ?_ ?_
    · rw [hb]
      simp [Purse.dropBonds]
    · simp [rebateDue, hx, ho, Purse.oweBond, Purse.dropBonds]
    · rw [hdep]
      simp [rebateDue, hfee, Purse.oweBond, Purse.dropBonds, stakesOf]
      rfl
  · exact hm.trans hmeter
  · rw [hst]
    change ({ g.toStage with opened := false, destroyed := true } : Stage) = _
    rw [hstage]
  · rw [hq]
    change ({ g.toPurse.oweBond with
      deposit := 0, buyerBond := 0, balance := 0, finalizedOwed := 0, feeAccrued := 0 } : Purse) = _
    rw [hpurse]
    simp [Purse.oweBond, Purse.dropBonds, hprobe, Purse.empty]

theorem settleTrustedAndClose_closed {b x : ℕ} (hp : s.probeAccepted = true → s.probeTick = 0)
    (h : s.settleTrustedAndClose b x = some u) :
    ∃ e kept, s.weeksElapsedAt s.disputeTime = some e ∧ kept ≤ (s.trustedPurse e).deposit ∧
      (s.isSubscription = false → kept = (s.trustedPurse e).deposit) ∧
      Closed s u (kept + ((s.trustedPurse e).buyerBond - min b (s.trustedPurse e).buyerBond))
        ((s.trustedPurse e).finalizedOwed +
          ((s.trustedPurse e).sellerBond - min x (s.trustedPurse e).sellerBond))
        (stakesOf (s.trustedPurse e) b x + ((s.trustedPurse e).deposit - kept) +
          (s.trustedPurse e).feeAccrued) ∧
      u.toMeter = (s.trustCharged e).toMeter ∧
      u.toStage = { s.toStage with opened := false, destroyed := true } ∧
      u.toPurse = Purse.empty := by
  obtain ⟨e, kept, he, hk, h⟩ := settleTrustedAndClose_exact hp h
  obtain ⟨n, a, b', hw⟩ := s.weeksCharged_weekly e
  refine ⟨e, kept, he, disputeRefund_le hk, fun ho => disputeRefund_ordinary ?_ hk, h⟩
  unfold isSubscription
  change decide ((s.weeksCharged e).toMeter.subWeeks ≠ 0) = false
  rw [hw.meter]
  exact ho

end TokenContract

end Dexdo
