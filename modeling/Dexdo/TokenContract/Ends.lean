import Dexdo.TokenContract.Exits

namespace Dexdo

namespace TokenContract

variable {s t u : TokenContract}

/-- The deal `s` on its way to an end: `fb` and `fx` are forfeited of the two bonds, `taken` has
left the escrow, `pay` of it for the seller, and `w` is written off. -/
structure Prepared (s t : TokenContract) (fb fx pay taken w : ℕ) : Prop where
  moved : Moved s.begin t 0 0 0 w
  stage : t.toStage = { s.toStage with disputed := false }
  buyer : t.toPurse.ofBuyer + fb + taken = s.toPurse.ofBuyer
  seller : t.toPurse.ofSeller + fx = s.toPurse.ofSeller + pay
  booked : t.toPurse.booked + w = s.toPurse.booked
  probeTick : t.probeTick = s.probeTick
  deposit : t.deposit + taken = s.deposit

/-- The deal `s` ends in `u`: as above, and `r` of the fees goes to the seller. -/
structure Exit (s u : TokenContract) (fb fx pay taken r : ℕ) : Prop where
  ends : ∃ b x w, Closed s.begin u b x w ∧ b + fb + taken = s.toPurse.ofBuyer ∧
    x + fx = s.toPurse.ofSeller + pay + r ∧ b + x + w = s.toPurse.booked
  stage : u.toStage = { s.toStage with opened := false, disputed := false, destroyed := true }
  purse : u.toPurse = Purse.empty
  undisputed : s.everDisputed = true → r = 0
  rebate : r ≤ u.rebate u.ticksFinalized

namespace Prepared

variable {fb fx pay taken w : ℕ}

theorem start (hd : s.disputed = false) : Prepared s s.begin 0 0 0 0 0 where
  moved := .refl s.begin
  stage := by
    rw [← hd]
    rfl
  buyer := rfl
  seller := rfl
  booked := rfl
  probeTick := rfl
  deposit := rfl

theorem cast {fb' fx' : ℕ} (h : Prepared s t fb fx pay taken w) (hb : fb = fb') (hx : fx = fx') :
    Prepared s t fb' fx' pay taken w := by
  subst hb hx
  exact h

theorem setMeter (h : Prepared s t fb fx pay taken w) (m : Meter) :
    Prepared s (t.setMeter m) fb fx pay taken w where
  moved := h.moved.trans (.setMeter t m)
  stage := h.stage
  buyer := h.buyer
  seller := h.seller
  booked := h.booked
  probeTick := h.probeTick
  deposit := h.deposit

theorem forfeit {b x : ℕ} (h : Prepared s t fb fx pay taken w)
    (hf : t.forfeitBonds b x = some u) :
    Prepared s u (fb + min b t.buyerBond) (fx + min x t.sellerBond) pay taken
      (w + (min b t.buyerBond + min x t.sellerBond)) := by
  obtain ⟨h1, -, h3, h4⟩ := forfeitBonds_inv hf
  have hb := h.buyer
  have hx := h.seller
  have hk := h.booked
  have hp := h.probeTick
  constructor
  · exact h.moved.trans h1
  · rw [h3, h.stage]
  · rw [h4]
    simp only [Purse.ofBuyer, Purse.dropBonds] at hb ⊢
    omega
  · rw [h4]
    simp only [Purse.ofSeller, Purse.dropBonds] at hx ⊢
    omega
  · rw [h4]
    simp only [Purse.booked, Purse.dropBonds] at hk ⊢
    omega
  · rw [h4]
    exact hp
  · rw [h4]
    exact h.deposit

theorem weekly {n a b : ℕ} (h : Prepared s t fb fx pay taken w) (hw : Weekly t u n a b) :
    Prepared s u fb fx (pay + a) (taken + (a + b)) w := by
  have h1 := hw.charged.ofBuyer
  have h2 := hw.charged.ofSeller
  have h3 := hw.charged.booked
  have hb := h.buyer
  have hx := h.seller
  have hk := h.booked
  constructor
  · exact h.moved.trans hw.moved
  · rw [hw.stage, h.stage]
  · omega
  · omega
  · omega
  · exact hw.charged.probeTick.trans h.probeTick
  · have hd := hw.charged.deposit
    have hk := h.deposit
    omega

/-- A part of the escrow is written off. -/
theorem writeOff {k : ℕ} (h : Prepared s t fb fx pay taken w) (hk : k ≤ t.deposit)
    (hg : (t.setPurse { t.toPurse with deposit := t.deposit - k }).burnShell k = some u) :
    Prepared s u fb fx pay (taken + k) (w + k) ∧ u.toMeter = t.toMeter ∧
      u.buyerBond = t.buyerBond ∧ u.sellerBond = t.sellerBond := by
  obtain ⟨hkeep, hmv⟩ := burnShell_inv hg
  have hb := h.buyer
  have hx := h.seller
  have hbk := h.booked
  refine ⟨⟨?_, ?_, ?_, ?_, ?_, ?_, ?_⟩, hkeep.meter, ?_, ?_⟩
  · exact ((h.moved.trans (.setPurse t (by rfl))).trans hmv).cast rfl rfl rfl (by omega)
  · rw [hkeep.stage]
    exact h.stage
  · rw [hkeep.purse]
    simp only [Purse.ofBuyer, setPurse_toPurse] at hb ⊢
    omega
  · rw [hkeep.purse]
    exact hx
  · rw [hkeep.purse]
    simp only [Purse.booked, setPurse_toPurse] at hbk ⊢
    omega
  · rw [hkeep.purse]
    exact h.probeTick
  · rw [hkeep.purse]
    have hd := h.deposit
    simp only [setPurse_toPurse]
    omega
  · rw [hkeep.purse]
    rfl
  · rw [hkeep.purse]
    rfl

/-- A clean end. -/
theorem clean (h : Prepared s t fb fx pay taken w)
    (hp : s.probeAccepted = true → s.probeTick = 0) (hu : t.payFinalAndClose = some u) :
    ∃ a ≤ t.payOf t.finalOwed, ∃ b ≤ t.payFeeOf t.finalOwed, ∃ r,
      a + b = min (t.payOf t.finalOwed + t.payFeeOf t.finalOwed) t.deposit ∧
      Exit s u fb fx (pay + a) (taken + (a + b)) r ∧
      ∃ n, u.toMeter = { t.toMeter.recordDelivered s.probeAccepted with tokensPaid := n } := by
  obtain ⟨a, ha, b, hb, hc, hsum⟩ :=
    t.toPurse.charge_charged (t.payOf t.finalOwed) (t.payFeeOf t.finalOwed)
  have hacc : t.probeAccepted = s.probeAccepted := by rw [h.stage]
  obtain ⟨r, hr, hcl, ⟨n, hm⟩, hg, hq⟩ := payFinalAndClose_closed
    (by rw [hacc, h.probeTick]; exact hp) hu
  have hall := h.moved.closed hcl
  have hrle : r ≤ t.finalPurse.feeAccrued := hr ▸ rebateDue_le _ _
  have hfp : t.toPurse.Charged t.finalPurse a b := hc
  have h1 := hfp.ofBuyer
  have h2 := hfp.ofSeller
  have h3 := hfp.booked
  have h4 := t.finalPurse.booked_eq
  have kb := h.buyer
  have kx := h.seller
  have kk := h.booked
  refine ⟨a, ha, b, hb, r, hsum, ⟨⟨_, _, _, hall, ?_, ?_, ?_⟩, ?_, hq, ?_, ?_⟩, n, ?_⟩
  · omega
  · omega
  · omega
  · rw [hg, h.stage]
  · intro he
    have : t.everDisputed = true := by rw [h.stage, ← he]
    rw [hr]
    unfold rebateDue
    exact if_neg (by simp [delivered, this])
  · have ht : u.toTerms = t.toTerms := hcl.moved.terms
    have hticks : u.ticksFinalized = ((t.setPurse t.finalPurse).delivered).ticksFinalized := by
      rw [hm]
      rfl
    rw [hr, ht, hticks]
    unfold rebateDue
    split_ifs
    · exact Nat.min_le_left _ _
    · exact Nat.zero_le _
  · rw [hm, hacc]

/-- The end of a resolved dispute. -/
theorem trusted {bs xs : ℕ} (h : Prepared s t fb fx pay taken w)
    (hp : s.probeAccepted = true → s.probeTick = 0)
    (hu : t.settleTrustedAndClose bs xs = some u) :
    ∃ e kept n a b, t.weeksElapsedAt t.disputeTime = some e ∧
      Weekly (t.setPurse (t.toPurse.releaseProbe t.probeAccepted)) (t.weeksCharged e) n a b ∧
      let v := t.weeksCharged e
      let owed := v.tokensFinal - v.claimBase
      ∃ a' ≤ v.payOf owed, ∃ b' ≤ v.payFeeOf owed,
        a' + b' = min (v.payOf owed + v.payFeeOf owed) v.deposit ∧
        (t.isSubscription = false → kept = (t.trustedPurse e).deposit) ∧
        Exit s u (fb + min bs t.buyerBond) (fx + min xs t.sellerBond) (pay + a + a')
          (taken + (a + b) + (a' + b') + ((t.trustedPurse e).deposit - kept)) 0 ∧
        u.toMeter = (t.trustCharged e).toMeter := by
  have hacc : t.probeAccepted = s.probeAccepted := by rw [h.stage]
  obtain ⟨e, kept, he, hle, hord, hcl, hm, hg, hq⟩ := settleTrustedAndClose_closed
    (by rw [hacc, h.probeTick]; exact hp) hu
  obtain ⟨n, a, b, hw⟩ := t.weeksCharged_weekly e
  obtain ⟨a', ha', b', hb', hc, hsum⟩ := (t.weeksCharged e).toPurse.charge_charged
    ((t.weeksCharged e).payOf ((t.weeksCharged e).tokensFinal - (t.weeksCharged e).claimBase))
    ((t.weeksCharged e).payFeeOf ((t.weeksCharged e).tokensFinal - (t.weeksCharged e).claimBase))
  have hch := hw.charged.trans hc
  have h0 : (t.trustedPurse e).probeTick = 0 := hch.probeTick.trans
    (Purse.releaseProbe_probeTick _ _ (by rw [hacc, h.probeTick]; exact hp))
  have h1 : (t.trustedPurse e).ofBuyer + _ = _ := hch.ofBuyer
  have h2 : (t.trustedPurse e).ofSeller = _ := hch.ofSeller
  have h3 : (t.trustedPurse e).booked = _ := hch.booked
  have h4 : (t.trustedPurse e).buyerBond = _ := hch.buyerBond
  have h5 : (t.trustedPurse e).sellerBond = _ := hch.sellerBond
  have kb := h.buyer
  have kx := h.seller
  have kk := h.booked
  simp only [setPurse_toPurse, Purse.releaseProbe_ofBuyer, Purse.releaseProbe_booked,
    Purse.releaseProbe_buyerBond, Purse.releaseProbe_sellerBond] at h1 h3 h4 h5
  have h6 : (t.toPurse.releaseProbe t.probeAccepted).ofSeller = t.toPurse.ofSeller := by
    simp [Purse.ofSeller]
  rw [setPurse_toPurse, h6] at h2
  refine ⟨e, kept, n, a, b, he, hw, a', ha', b', hb', hsum, hord, ⟨⟨_, _, _, h.moved.closed hcl, ?_, ?_, ?_⟩,
    ?_, hq, fun _ => rfl, Nat.zero_le _⟩, hm⟩
  · unfold Purse.ofBuyer at h1 kb ⊢
    omega
  · unfold Purse.ofSeller at h2 kx ⊢
    omega
  · have h7 := (t.trustedPurse e).booked_eq
    unfold stakesOf
    unfold Purse.ofBuyer Purse.ofSeller at h7
    omega
  · rw [hg, h.stage]

end Prepared

end TokenContract

end Dexdo
