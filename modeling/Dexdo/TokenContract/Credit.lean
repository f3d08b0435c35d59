import Dexdo.TokenContract.Earmarks

namespace Dexdo

namespace TokenContract

variable {s u : TokenContract} {i : Input}

/-- SHELL a transaction credits to the seller's note, as his due or as the rest of a destruct. -/
def toSeller (u : TokenContract) : ℕ := u.credited .seller + u.credited .residual

/-- Rebate a finished deal may carry: none after a dispute. -/
def rebateEarned (s : TokenContract) : ℕ :=
  if s.destroyed = true ∧ s.everDisputed = false then s.rebate s.ticksFinalized else 0

theorem rebateEarned_live (h : s.destroyed = false) : s.rebateEarned = 0 := by
  unfold rebateEarned
  rw [if_neg (by simp [h])]

theorem earned_congr (hs : s.destroyed = false) (hu : u.destroyed = false)
    (ht : u.toTerms = s.toTerms) (ha : u.probeAccepted = s.probeAccepted)
    (hm : u.subWeeks = s.subWeeks ∧ u.weekIndex = s.weekIndex ∧ u.tokensPerWeek = s.tokensPerWeek) :
    u.earned = s.earned := by
  obtain ⟨h1, h2, h3⟩ := hm
  have hsub : u.isSubscription = s.isSubscription := congrArg (fun n : ℕ => decide (n ≠ 0)) h1
  unfold earned
  rw [ha, hsub, hs, hu, ht, weeksValue_congr ht h2 h3]
  simp

/-- Calls that take nothing of the seller's bond. -/
def Input.sparesSeller (i : Input) : Bool :=
  match i.call with
  | .stop | .sellerStop | .releaseDispute | .resolveDisputeTimeout => false
  | _ => true

theorem sellerLoss_eq_zero (h : i.sparesSeller = true) : s.sellerLoss i = 0 := by
  obtain ⟨caller, now, call⟩ := i
  cases call with
  | stop | sellerStop | releaseDispute | resolveDisputeTimeout => cases h
  | _ => rfl

theorem Exit.rebateEarned_le {fb fx pay taken r : ℕ} (hx : Exit s u fb fx pay taken r) :
    r ≤ u.rebateEarned := by
  have h1 : u.destroyed = true := by rw [hx.stage]
  have h2 : u.everDisputed = s.everDisputed := by rw [hx.stage]
  unfold rebateEarned
  split_ifs with h
  · exact hx.rebate
  · rw [hx.undisputed]
    rw [h1, h2] at h
    simpa using h

theorem mayRest_spares (h : i.mayRest = true) : i.sparesSeller = true := by
  obtain ⟨caller, now, call⟩ := i
  cases call with
  | fundFromOrderBook | postFromNote | onSellClosed | claimTokens => rfl
  | _ => cases h

theorem Paid.seller_step {b x w : ℕ} (hpay : Paid s u b x w) (hi : i.sparesSeller = true)
    (h : x + u.toPurse.ofSeller + s.earned ≤ sellerIn i + s.toPurse.ofSeller + u.earned) :
    u.toSeller + s.sellerLoss i + u.toPurse.ofSeller + s.earned ≤
      sellerIn i + s.toPurse.ofSeller + u.earned + u.rebateEarned := by
  unfold toSeller
  rw [hpay.seller, hpay.residual, sellerLoss_eq_zero hi]
  omega

theorem accepted_earned {now : ℕ} (hs : Sane s) (hlive : s.destroyed = false)
    (ha : s.probeAccepted = false) (ht : u.toTerms = s.toTerms)
    (hm : u.toMeter = s.toMeter.acceptProbe now)
    (hg : u.toStage = { s.toStage with probeAccepted := true }) : u.earned = s.pricePerTick := by
  have hacc : u.probeAccepted = true := by rw [hg]
  have hdes : u.destroyed = false := by rw [hg]; exact hlive
  have hwi : u.weekIndex = 0 := by
    rw [hm]
    exact (hs.unaccepted ha).2.2.2.2.2
  rw [← Terms.payOf_tick hs.valid, ← ht]
  cases hsub : u.isSubscription with
  | false =>
    rw [earned_ordinary hacc hsub, hdes]
    rfl
  | true =>
    rw [earned_live hacc hsub hdes]
    exact if_pos hwi

theorem weekly_earned {t : TokenContract} {k a b : ℕ} (hlive : s.destroyed = false)
    (ha : s.probeAccepted = true) (hw : Weekly s.begin t k a b)
    (hval : a + s.weeksValue ≤ t.weeksValue) (hord : s.isSubscription = false → t = s.begin)
    (ht : u.toTerms = s.toTerms) (hp : u.toPurse = t.toPurse) (hg : u.toStage = s.toStage)
    (hm : u.subWeeks = t.subWeeks ∧ u.weekIndex = t.weekIndex ∧
      u.tokensPerWeek = t.tokensPerWeek) :
    u.toPurse.ofSeller + s.earned ≤ s.toPurse.ofSeller + u.earned := by
  have hdes : u.destroyed = false := by rw [hg]; exact hlive
  have hacc : u.probeAccepted = true := by rw [hg]; exact ha
  have hof : u.toPurse.ofSeller = s.toPurse.ofSeller + a := by
    rw [hp]
    exact hw.charged.ofSeller
  obtain ⟨h1, h2, h3⟩ := hm
  cases hsub : s.isSubscription with
  | false =>
    obtain rfl := hord hsub
    obtain ⟨rfl, -⟩ := hw.unique (.refl _)
    rw [hof, earned_congr hlive hdes ht (hacc.trans ha.symm) ⟨h1, h2, h3⟩]
    exact le_rfl
  | true =>
    have hu : u.isSubscription = true := by
      unfold isSubscription
      rw [h1, hw.meter]
      exact hsub
    have huv : u.weeksValue = t.weeksValue :=
      weeksValue_congr (ht.trans hw.moved.terms.symm) h2 h3
    rw [hof, earned_live ha hsub hlive, earned_live hacc hu hdes, huv]
    omega

/-- One transaction credits the seller no more than he gave, was owed or earned in it. -/
theorem Effect.seller_step (hs : Sane s) (hlive : s.destroyed = false) (he : Effect s i u)
    (hr : u.credited .residual = 0) :
    u.toSeller + s.sellerLoss i + u.toPurse.ofSeller + s.earned ≤
      sellerIn i + s.toPurse.ofSeller + u.earned + u.rebateEarned := by
  cases he with
  | quiet hc _ _ hp hm hg hpay =>
    apply hpay.seller_step (mayRest_spares hc)
    rw [hp, earned_congr hlive (by rw [hg]; exact hlive) hpay.terms (by rw [hg])
      (by rw [hm]; exact ⟨rfl, rfl, rfl⟩)]
    omega
  | bounced hc _ _ hp hm hg hpay =>
    apply hpay.seller_step (by rw [Input.sparesSeller, hc])
    rw [hp, earned_congr hlive (by rw [hg]; exact hlive) hpay.terms (by rw [hg])
      (by rw [hm]; exact ⟨rfl, rfl, rfl⟩)]
    omega
  | matched hc _ _ ht hp hm hg hpay =>
    have ha := (hs.unopened (hs.unfunded ht.1).1).1
    apply hpay.seller_step (by rw [Input.sparesSeller, hc])
    rw [hp, earned_unaccepted ha]
    change 0 + s.toPurse.ofSeller + 0 ≤ _
    omega
  | sellerBonded hc _ ho hf hn hp hm hg hpay =>
    obtain ⟨a, e, hc⟩ := hc
    have hsb := hs.sellerBond
    rw [hf, if_neg (by decide)] at hsb
    apply hpay.seller_step (by rw [Input.sparesSeller, hc])
    rw [hp, earned_congr hlive (by rw [hg]; exact hlive) hpay.terms (by rw [hg])
      (by rw [hm]; exact ⟨rfl, rfl, rfl⟩)]
    unfold Purse.ofSeller
    dsimp only
    omega
  | buyerBonded hc _ ho hf hn hp hm hg hpay =>
    apply hpay.seller_step (by rw [Input.sparesSeller, hc])
    rw [hp, earned_congr hlive (by rw [hg]; exact hlive) hpay.terms (by rw [hg])
      (by rw [hm]; exact ⟨rfl, rfl, rfl⟩)]
    change 0 + s.toPurse.ofSeller + _ ≤ _
    omega
  | opened hc _ ho _ _ _ hp hm hg hpay =>
    obtain ⟨c, hc⟩ := hc
    apply hpay.seller_step (by rw [Input.sparesSeller, hc])
    rw [hp, earned_unaccepted (hs.unopened ho).1]
    change 0 + s.toPurse.ofSeller + 0 ≤ _
    omega
  | accepted hc ho _ ha hp hm hg hpay =>
    have hprobe := hs.probe ho ha
    apply hpay.seller_step (by rw [Input.sparesSeller, hc])
    rw [hp, earned_unaccepted ha, accepted_earned hs hlive ha hpay.terms hm hg]
    unfold Purse.ofSeller
    dsimp only [Purse.acceptProbe]
    omega
  | claimed hc _ _ ha _ hw _ hval hord _ hp hm hg hpay =>
    apply hpay.seller_step (by rw [Input.sparesSeller, hc])
    have h := weekly_earned hlive ha hw hval hord hpay.terms hp hg (by rw [hm]; exact ⟨rfl, rfl, rfl⟩)
    omega
  | promoted hc _ _ _ _ hp hm hg hpay =>
    apply hpay.seller_step (by rw [Input.sparesSeller, hc])
    rw [hp, earned_congr hlive (by rw [hg]; exact hlive) hpay.terms (by rw [hg])
      (by rw [hm]; exact ⟨rfl, rfl, rfl⟩)]
    omega
  | crossed hc hsub _ ha hw _ hval hp hm hg hpay =>
    apply hpay.seller_step (by rw [Input.sparesSeller, hc])
    have h := weekly_earned hlive ha hw hval (fun h0 => absurd (hsub.symm.trans h0) (by decide))
      hpay.terms hp hg (by rw [hm]; exact ⟨rfl, rfl, rfl⟩)
    omega
  | disputed hc _ _ hp hm hg hpay =>
    apply hpay.seller_step (by rw [Input.sparesSeller, hc])
    rw [hp, earned_congr hlive (by rw [hg]; exact hlive) hpay.terms (by rw [hg])
      (by rw [hm]; exact ⟨rfl, rfl, rfl⟩)]
    omega
  | cleaned hc _ ho _ hp hm hg hpay =>
    apply hpay.seller_step (by rw [Input.sparesSeller, hc])
    rw [hp, earned_congr hlive (by rw [hg]; exact hlive) hpay.terms (by rw [hg])
      (by rw [hm]; exact ⟨rfl, rfl, rfl⟩)]
    unfold Purse.ofSeller
    dsimp only
    omega
  | withdrawn hc _ hle _ hp hm hg hpay =>
    apply hpay.seller_step (by rw [Input.sparesSeller, hc])
    rw [hp, earned_congr hlive (by rw [hg]; exact hlive) hpay.terms (by rw [hg])
      (by rw [hm]; exact ⟨rfl, rfl, rfl⟩)]
    unfold Purse.ofSeller
    dsimp only
    omega
  | freed hc ho hcl _ ha hx =>
    have hloss : s.sellerLoss i = 0 := by
      apply sellerLoss_eq_zero
      unfold Input.sparesSeller
      rcases hc with ⟨hc, -⟩ | hc
      · rw [hc]
      · rw [hc]
    have h1 := hcl.moved.seller
    rw [credited_begin, Nat.zero_add] at h1
    unfold toSeller
    rw [h1, hr, hloss, hx, earned_unaccepted (hs.unopened ho).1]
    unfold Purse.ofSeller
    omega
  | ended _ _ _ hx hval =>
    obtain ⟨b, x, w, hcl, -, h2, -⟩ := hx.ends
    have h1 := hcl.moved.seller
    rw [credited_begin, Nat.zero_add] at h1
    have h3 : u.toPurse.ofSeller = 0 := by rw [hx.purse]; rfl
    have h4 : _ ≤ u.rebateEarned := hx.rebateEarned_le
    unfold toSeller
    rw [h1, hr, h3]
    omega

/-- In every run of a deal that takes no late bond, what its destructs and payments credit to the
seller's note, with the parts of his bond that were burned, stays within the bonds he posted, the
service delivered and the rebate. -/
theorem seller_paid_for_service {t : Terms} (ht : t.Valid) {tr : List (Input × TokenContract)}
    (h : Run step (init t) tr u)
    (hok : Run.Each (fun s i _ => s.lateBond i = false) (init t) tr) :
    Run.total (fun _ _ v => v.toSeller) (init t) tr +
        Run.total (fun s i _ => s.sellerLoss i) (init t) tr ≤
      Run.total (fun _ i _ => sellerIn i) (init t) tr + u.earned + u.rebateEarned := by
  have hinv := h.invariant_each (fun tr u =>
    (u.destroyed = false → Earmarked u (postedBy (init t) tr)) ∧
      Run.total (fun _ _ v => v.toSeller) (init t) tr +
          Run.total (fun s i _ => s.sellerLoss i) (init t) tr + u.toPurse.ofSeller ≤
        Run.total (fun _ i _ => sellerIn i) (init t) tr + u.earned + u.rebateEarned) ?_ ?_ hok
  · have := hinv.2
    omega
  · refine ⟨fun _ => ⟨rfl, fun h => ?_⟩, Nat.zero_le _⟩
    cases h
  · intro tr s i u hr ⟨hI, hsum⟩ hnl hi
    have hl := step_live hi
    have hs := run_sane ht hr hl
    have hk := hI hl
    have he := (step_effect hs hi).2
    have hstep := he.seller_step hs hl (he.sweeps_nothing hs hk)
    rw [rebateEarned_live hl] at hsum
    refine ⟨fun hu => ?_, ?_⟩
    · unfold postedBy
      rw [Run.ghost_concat, hr.last_eq]
      exact he.earmarked hs hk hnl hu
    · simp only [Run.total_concat, hr.last_eq]
      omega

theorem seller_paid_for_service_sample :
    Run.total (fun _ _ v => v.toSeller) (init sampleTerms) (sampleTrace sampleService) +
        Run.total (fun s i _ => s.sellerLoss i) (init sampleTerms) (sampleTrace sampleService) ≤
      Run.total (fun _ i _ => sellerIn i) (init sampleTerms) (sampleTrace sampleService) +
        (Run.last (init sampleTerms) (sampleTrace sampleService)).earned +
        (Run.last (init sampleTerms) (sampleTrace sampleService)).rebateEarned :=
  seller_paid_for_service (by decide) (sample_run sampleService) (by decide +kernel)

/-- A late bond is credited to a seller who gave and earned nothing. -/
theorem late_bond_credited :
    ¬ ∀ (t : Terms), t.Valid → ∀ (tr : List (Input × TokenContract)) (u : TokenContract),
      Run step (init t) tr u →
        Run.total (fun _ _ v => v.toSeller) (init t) tr +
            Run.total (fun s i _ => s.sellerLoss i) (init t) tr ≤
          Run.total (fun _ i _ => sellerIn i) (init t) tr + u.earned + u.rebateEarned := by
  intro h
  have h1 := h sampleTerms (by decide) _ _ (sample_run sampleLateBond)
  exact absurd h1 (by decide +kernel)

end TokenContract

end Dexdo
