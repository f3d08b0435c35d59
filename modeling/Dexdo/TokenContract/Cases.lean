import Dexdo.TokenContract.Effect

namespace Dexdo

namespace TokenContract

variable {s t u : TokenContract} {caller : Caller} {now : ℕ}

theorem paid_begin (s : TokenContract) : Paid s s.begin 0 0 0 := (Moved.refl s.begin).paid

theorem receive_inv {a : ℕ} (h : s.receive a = some u) :
    u = s.setPurse { s.toPurse with balance := s.balance + a } := by
  obtain ⟨b, hb, h⟩ := of_bind h
  cases h
  unfold add128 at hb
  split_ifs at hb
  cases hb
  rfl

theorem Moved.paidFrom {v : TokenContract} {b x w : ℕ} (h : Moved v u b x 0 w)
    (hv : Paid s v 0 0 0) : Paid s u b x w := by
  obtain ⟨h1, -, h3, h4, h5, h6⟩ := h
  obtain ⟨k1, k2, k3, k4, k5⟩ := hv
  constructor
  · exact h1.trans k1
  all_goals omega

theorem Paid.followed {v : TokenContract} {b x w : ℕ} (hv : Paid s v b x w)
    (h : Moved v u 0 0 0 0) : Paid s u b x w := by
  obtain ⟨h1, -, h3, h4, h5, h6⟩ := h
  obtain ⟨k1, k2, k3, k4, k5⟩ := hv
  constructor
  · exact h1.trans k1
  all_goals omega

theorem fundFromOrderBook_effect {paid pk flags : ℕ} {note : Addr}
    (h : s.begin.fundFromOrderBook caller now paid note pk flags = some u) :
    Effect s ⟨caller, now, .fundFromOrderBook paid note pk flags⟩ u := by
  unfold fundFromOrderBook at h
  split_ifs at h with h0 h1 h2
  · cases h
    refine .quiet rfl ?_ rfl rfl rfl rfl s.paid_begin
    simp [buyerIn, h0]
  · cases h
    refine .quiet rfl ?_ rfl rfl rfl rfl s.paid_begin
    have hb : caller.isSender s.orderBook = false := h2
    simp [buyerIn, fromBook, hb]
  · have hfrom : s.fromBook caller = true := by
      have hb : caller.isSender s.orderBook = true := Bool.of_not_eq_false h2
      have hh : s.iobHash ≠ 0 := h1
      simp [fromBook, hb, hh]
    have hin : s.buyerIn ⟨caller, now, .fundFromOrderBook paid note pk flags⟩ = paid := by
      simp [buyerIn, hfrom]
    obtain ⟨v, hv, h⟩ := of_bind h
    obtain rfl := receive_inv hv
    dsimp only at h
    split_ifs at h with h3
    · obtain ⟨-, -, h⟩ := of_bind h
      cases h
      exact .matched rfl hfrom hin h3 rfl rfl rfl ⟨rfl, rfl, rfl, rfl, rfl⟩
    · obtain ⟨hk, hle, hb, -⟩ := payShell_inv h
      refine .bounced rfl h3 rfl ?_ hk.meter hk.stage ?_
      · rw [hk.purse, hb]
        simp
      · rw [hin]
        exact (payBuyer_moved h).paidFrom ⟨rfl, rfl, rfl, rfl, rfl⟩

theorem postFromNote_effect {h d n f dl : ℕ} (hu : s.begin.postFromNote caller h d n f dl = some u) :
    Effect s ⟨caller, now, .postFromNote h d n f dl⟩ u := by
  simp only [postFromNote, bind_iff] at hu
  obtain ⟨-, -, hu⟩ := hu
  split_ifs at hu
  · cases hu
    exact .quiet rfl rfl rfl rfl rfl rfl ⟨rfl, rfl, rfl, rfl, rfl⟩
  · cases hu
    exact .quiet rfl rfl rfl rfl rfl rfl ⟨rfl, rfl, rfl, rfl, rfl⟩

theorem onSellClosed_effect :
    Effect s ⟨caller, now, .onSellClosed⟩ (s.begin.onSellClosed caller) := by
  unfold onSellClosed
  split_ifs
  · exact .quiet rfl rfl rfl rfl rfl rfl ⟨rfl, rfl, rfl, rfl, rfl⟩
  · exact .quiet rfl rfl rfl rfl rfl rfl ⟨rfl, rfl, rfl, rfl, rfl⟩

theorem fundDeal_effect {amount : ℕ} {c : Option (List ℕ)}
    (h : s.begin.fundDeal caller amount c = some u) :
    Effect s ⟨caller, now, .fundDeal amount c⟩ u := by
  unfold fundDeal at h
  simp only [bind_iff] at h
  obtain ⟨-, ho, hf, -, v, hv, hn, w, hw, h⟩ := h
  obtain rfl := receive_inv hv
  obtain ⟨hk, hle, hb, -⟩ := payShell_inv hw
  have hpay := (paySeller_moved hw).paidFrom (s := s) ⟨rfl, rfl, rfl, rfl, rfl⟩
  have hn' : s.bondAmount ≤ amount := hn
  have hp : w.toPurse = { s.toPurse with
      balance := s.balance + s.bondAmount, sellerBond := s.bondAmount } := by
    rw [hk.purse, hb]
    change ({ s.toPurse with
      balance := s.balance + amount - (amount - s.bondAmount), sellerBond := s.bondAmount } : Purse) = _
    rw [show s.balance + amount - (amount - s.bondAmount) = s.balance + s.bondAmount by omega]
  cases h
  cases c with
  | none =>
    exact .sellerBonded ⟨_, _, rfl⟩ rfl ho hf hn' hp hk.meter hk.stage (hpay.followed (.emit w _))
  | some c =>
    refine .sellerBonded (c := c) ⟨_, _, rfl⟩ rfl ho hf hn' hp hk.meter ?_
      (hpay.followed (((Moved.emit w _).trans (.setStage _ _)).trans (.emit _ _)))
    change ({ w.toStage with endpointCipher := c } : Stage) = _
    rw [hk.stage]
    rfl

theorem fundBuyerBond_effect {amount : ℕ} (h : s.begin.fundBuyerBond caller amount = some u) :
    Effect s ⟨caller, now, .fundBuyerBond amount⟩ u := by
  simp only [fundBuyerBond, bind_iff] at h
  obtain ⟨hb, ho, hf, -, v, hv, hn, w, hw, h⟩ := h
  obtain rfl := receive_inv hv
  obtain ⟨hk, hle, hbal, -⟩ := payShell_inv hw
  have hpay := (payBuyer_moved hw).paidFrom (s := s) ⟨rfl, rfl, rfl, rfl, rfl⟩
  have hn' : s.bondAmount ≤ amount := hn
  cases h
  refine .buyerBonded rfl hb ho hf hn' ?_ hk.meter hk.stage (hpay.followed (.emit w _))
  change w.toPurse = _
  rw [hk.purse, hbal]
  change ({ s.toPurse with
    balance := s.balance + amount - (amount - s.bondAmount), buyerBond := s.bondAmount } : Purse) = _
  rw [show s.balance + amount - (amount - s.bondAmount) = s.balance + s.bondAmount by omega]

theorem openDeal_effect {c : List ℕ} (h : s.begin.openDeal caller now c = some u) :
    Effect s ⟨caller, now, .openDeal c⟩ u := by
  simp only [openDeal, bind_iff, pure_iff] at h
  obtain ⟨-, hf, ho, hx, hb, hd, rfl⟩ := h
  exact .opened ⟨c, rfl⟩ hf ho hx hb hd rfl rfl rfl ⟨rfl, rfl, rfl, rfl, rfl⟩

theorem acceptProbe_effect (h : s.begin.acceptProbe caller now = some u) :
    Effect s ⟨caller, now, .acceptProbe⟩ u := by
  simp only [acceptProbe, bind_iff, pure_iff] at h
  obtain ⟨-, ho, hd, ha, -, rfl⟩ := h
  exact .accepted rfl ho hd ha rfl rfl rfl ⟨rfl, rfl, rfl, rfl, rfl⟩

theorem dispute_effect (h : s.begin.dispute caller now = some u) :
    Effect s ⟨caller, now, .dispute⟩ u := by
  simp only [dispute, bind_iff, pure_iff] at h
  obtain ⟨ho, -, hd, rfl⟩ := h
  exact .disputed rfl ho hd rfl rfl rfl ⟨rfl, rfl, rfl, rfl, rfl⟩

theorem cleanupUnopened_effect (h : s.begin.cleanupUnopened caller now = some u) :
    Effect s ⟨caller, now, .cleanupUnopened⟩ u := by
  simp only [cleanupUnopened, bind_iff, pure_iff] at h
  obtain ⟨hf, ho, -, -, v, hv, w, hw, x, hx, rfl⟩ := h
  obtain ⟨k1, h1, b1, -⟩ := payShell_inv hv
  obtain ⟨k2, h2, b2, -⟩ := payShell_inv hw
  obtain ⟨k3, m3⟩ := burnShell_inv hx
  have k4 := announceClose_keeps x
  have hk := ((k1.trans k2).trans k3).trans k4
  have hb : x.balance = 0 := by
    have := m3.balance
    omega
  have hb4 : x.announceClose.balance = 0 := (announceClose_moved x).balance.trans hb
  have hpay := ((((payBuyer_moved hv).trans (paySeller_moved hw)).trans m3).paidFrom (s := s)
    ⟨rfl, rfl, rfl, rfl, rfl⟩).followed (announceClose_moved x)
  simp only [Nat.zero_add, Nat.add_zero] at hpay
  refine .cleaned rfl hf ho ?_ ?_ hk.meter hk.stage hpay
  · simp only [setStage_toPurse, setPurse_toPurse] at h1 b1
    have hbal : v.balance = s.balance - (s.deposit + s.buyerBond) := b1
    have hle : s.deposit + s.buyerBond ≤ s.balance := h1
    have hle2 : s.sellerBond ≤ v.balance := h2
    have hbal2 : w.balance = v.balance - s.sellerBond := b2
    omega
  · rw [hk.purse, hb4]
    rfl

theorem withdrawShell_effect {amount : ℕ} (hs : Sane s)
    (h : s.begin.withdrawShell caller amount = some u) :
    Effect s ⟨caller, now, .withdrawShell amount⟩ u := by
  simp only [withdrawShell, bind_iff] at h
  obtain ⟨-, hpos, hle, v, hv, h⟩ := h
  obtain ⟨hk, hbal, hb, -⟩ := payShell_inv hv
  have ho : s.opened = true := by
    by_contra hn
    have := hs.unaccepted (hs.unopened (by simpa using hn)).1
    have hle' : amount ≤ s.finalizedOwed := hle
    omega
  have hov : v.opened = true := by rw [hk.stage]; exact ho
  split_ifs at h with h1
  · have hcl : v.opened = false := h1.2.1
    rw [hov] at hcl
    cases hcl
  · cases h
    refine .withdrawn rfl ho hle hbal ?_ hk.meter hk.stage
      (((paySeller_moved hv).paidFrom (s := s) ⟨rfl, rfl, rfl, rfl, rfl⟩).followed (.emit v _))
    change v.toPurse = _
    rw [hk.purse, hb]
    rfl

theorem settleBoundaries_inv (due : ℕ) (hp : Paced s) (hv : s.toTerms.Valid)
    (hq : s.tokensPerWeek ≤ s.maxTicks * DEAL_TICK_SIZE) :
    ∃ t k a b ticks, Weekly s t k a b ∧ Paced t ∧ a + s.weeksValue ≤ t.weeksValue ∧
      (s.isSubscription = false → t = s) ∧ Moved s (s.settleBoundaries due) 0 0 0 0 ∧
      (s.settleBoundaries due).toPurse = t.toPurse ∧
      (s.settleBoundaries due).toMeter = { t.toMeter with ticksFinalized := ticks } ∧
      (s.settleBoundaries due).toStage = s.toStage := by
  unfold settleBoundaries
  split_ifs with h0
  · exact ⟨s, 0, 0, 0, s.ticksFinalized, .refl s, hp, (Nat.zero_add _).le, fun _ => rfl, .refl s, rfl,
      rfl, rfl⟩
  · obtain ⟨hp', n, a, b, hw, hval⟩ := chargeWeeksThrough_value due hp hv hq
    refine ⟨s.chargeWeeksThrough due, n, a, b, _, hw, hp', hval,
      fun ho => chargeWeeksThrough_ordinary ho due, ?_, reportFinalized_toPurse _,
      reportFinalized_toMeter _, ?_⟩
    · exact ((hw.moved.trans (.emit _ _)).trans (.setMeter _ _)).trans (reportFinalized_moved _)
    · exact (reportFinalized_toStage _).trans hw.stage

theorem claimTokens_effect {n : ℕ} (hs : Sane s) (h : s.begin.claimTokens caller now n = some u) :
    Effect s ⟨caller, now, .claimTokens n⟩ u := by
  simp only [claimTokens, bind_iff] at h
  obtain ⟨-, ho, hd, ha, hle, h⟩ := h
  split_ifs at h with hn
  · cases h
    exact .quiet rfl rfl rfl rfl rfl rfl s.paid_begin
  · obtain ⟨due, -, h⟩ := of_bind h
    obtain ⟨-, hpace, -, -⟩ := hs.accepted ha
    obtain ⟨t, k, a, b, ticks, hw, hp', hval, hord, hmv, hpu, hme, hst⟩ :=
      settleBoundaries_inv (s := s.begin) due ⟨hpace.first, hpace.later⟩ hs.valid
        (hs.quota.trans hs.funds)
    simp only [pendClaim, bind_iff, pure_iff] at h
    obtain ⟨hadm, heq, rfl⟩ := h
    obtain ⟨x, hx⟩ := (s.begin.settleBoundaries due).toMeter.promoteDue_eq now
    have hpend : t.tokensPend = s.tokensPend := by rw [hw.meter]; rfl
    have hxp : x = s.tokensPend := by
      simp only [setMeter_toMeter, hx] at heq
      rw [← heq, hme, ← hpend]
    have hlt : s.tokensPend < n := lt_of_le_of_ne hle (Ne.symm hn)
    have hcap : n ≤ t.toMeter.claimCap := by
      have h1 := hadm.1
      rw [hme] at h1
      exact h1
    refine .claimed (d := ticks) rfl ho hd ha hlt hw hp' hval hord hcap hpu ?_ hst
      ((((hmv.trans (.setMeter _ _)).trans (.setMeter _ _)).trans (.emit _ _)).paid)
    change Meter.pend _ now n = _
    rw [setMeter_toMeter, hx, hxp, hme]
    rfl

end TokenContract

end Dexdo
