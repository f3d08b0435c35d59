import Dexdo.TokenContract.Cases

namespace Dexdo

namespace TokenContract

variable {s t u v : TokenContract} {caller : Caller} {now fb fx w x y : ℕ}

theorem weeksValue_congr (ht : u.toTerms = t.toTerms) (hi : u.weekIndex = t.weekIndex)
    (hq : u.tokensPerWeek = t.tokensPerWeek) : u.weeksValue = t.weeksValue := by
  unfold weeksValue
  rw [ht, hi, hq]

theorem promoteDue_weeksValue (s : TokenContract) (now : ℕ) :
    (s.setMeter (s.toMeter.promoteDue now)).weeksValue = s.weeksValue := by
  apply weeksValue_congr
  · rfl
  · exact Meter.promoteDue_weekIndex _ now
  · exact Meter.promoteDue_tokensPerWeek _ now

theorem Paced.congr (h : Paced s) (hi : t.weekIndex = s.weekIndex)
    (hq : t.tokensPerWeek = s.tokensPerWeek) (hp : t.tokensPaid = s.tokensPaid) : Paced t where
  first := by
    rw [hi, hp]
    exact h.first
  later := by
    rw [hi, hp, hq]
    exact h.later

/-- The weeks an end of the deal charges on the way. -/
theorem Sane.weeks (hs : Sane s) (hterms : t.toTerms = s.toTerms)
    (hacc : t.probeAccepted = s.probeAccepted)
    (hm : t.toMeter = { s.toMeter with tokensFinal := x, tokensPend := y }) (e : ℕ) :
    ∃ n a b, Weekly t (t.chargeWeeksThrough e) n a b ∧
      (s.probeAccepted = true → Paced (t.chargeWeeksThrough e) ∧
        a + s.weeksValue ≤ (t.chargeWeeksThrough e).weeksValue) ∧
      (s.probeAccepted = false ∨ s.isSubscription = false →
        t.chargeWeeksThrough e = t ∧ a = 0 ∧ b = 0) := by
  have hsub : t.isSubscription = s.isSubscription := by
    unfold isSubscription
    rw [hm]
  have hsame : t.weeksValue = s.weeksValue :=
    weeksValue_congr hterms (by rw [hm]) (by rw [hm])
  have hpaced : s.probeAccepted = true → Paced t := fun ha =>
    (hs.accepted ha).2.1.congr (by rw [hm]) (by rw [hm]) (by rw [hm])
  by_cases hc : s.probeAccepted = false ∨ s.isSubscription = false
  · have heq : t.chargeWeeksThrough e = t := by
      rcases hc with hc | hc
      · unfold chargeWeeksThrough
        rw [if_pos (.inr (by rw [hacc, hc]; decide))]
      · exact chargeWeeksThrough_ordinary (hsub.trans hc) e
    rw [heq]
    exact ⟨0, 0, 0, .refl t, fun ha => ⟨hpaced ha, by rw [hsame]; omega⟩, fun _ => ⟨rfl, rfl, rfl⟩⟩
  · have ha : s.probeAccepted = true := by
      by_contra hn
      exact hc (.inl (by simpa using hn))
    obtain ⟨hpc, n, a, b, hw, hval⟩ := chargeWeeksThrough_value e (hpaced ha)
      (by rw [hterms]; exact hs.valid)
      (by rw [hterms, show t.tokensPerWeek = s.tokensPerWeek by rw [hm]]
          exact hs.quota.trans hs.funds)
    rw [hsame] at hval
    exact ⟨n, a, b, hw, fun _ => ⟨hpc, hval⟩, fun h => absurd h hc⟩

theorem finalOwed_eq_zero (h : t.isSubscription = true) : t.finalOwed = 0 := by
  unfold finalOwed
  rw [h]
  rfl

theorem earned_unaccepted (ha : s.probeAccepted = false) : s.earned = 0 := if_pos ha

theorem earned_ordinary (ha : s.probeAccepted = true) (hsub : s.isSubscription = false) :
    s.earned = s.payOf (if s.destroyed then max DEAL_TICK_SIZE s.tokensFinal
      else DEAL_TICK_SIZE) := by
  unfold earned
  rw [ha, hsub]
  rfl

theorem earned_subscription (ha : s.probeAccepted = true) (hsub : s.isSubscription = true) :
    s.earned = s.weeksValue +
      if s.destroyed ∧ s.everDisputed then s.payOf s.provenTokens else 0 := by
  unfold earned
  rw [ha, hsub]
  rfl

theorem weeksValue_le_earned (ha : s.probeAccepted = true) (hsub : s.isSubscription = true) :
    s.weeksValue ≤ s.earned := by
  rw [earned_subscription ha hsub]
  exact Nat.le_add_right _ _

theorem earned_live (ha : s.probeAccepted = true) (hsub : s.isSubscription = true)
    (hl : s.destroyed = false) : s.earned = s.weeksValue := by
  rw [earned_subscription ha hsub, hl]
  simp

theorem Sane.trusted_value (hs : Sane s) (hord : s.isSubscription = false)
    (ha : s.probeAccepted = true) {n : ℕ} (hn : n ≤ s.tokensPend) :
    s.payOf (n - DEAL_TICK_SIZE) + s.payOf DEAL_TICK_SIZE ≤ s.payOf (max DEAL_TICK_SIZE n) := by
  apply Terms.payOf_add_le hs.valid
  · omega
  · have h1 := (hs.ordinary hord).2 ha
    have h2 := hs.funds
    have h3 := hs.valid.tick_le
    omega

/-- A clean end of the deal. -/
theorem clean_ended {i : Input} {a b : ℕ} (hs : Sane s) (hlive : s.destroyed = false)
    (ho : s.opened = true) (hin : s.buyerIn i = 0) (hxn : sellerIn i = 0)
    (hp : Prepared s v (s.buyerLoss i) (s.sellerLoss i) a (a + b) w)
    (hweeks : v.subWeeks = s.subWeeks) (hfinal : v.tokensFinal ≤ s.tokensPend)
    (hval : s.probeAccepted = true → a + s.weeksValue ≤ v.weeksValue)
    (hzero : s.probeAccepted = false ∨ s.isSubscription = false →
      v.tokensPaid = s.tokensPaid ∧ a = 0 ∧ b = 0)
    (htrust : s.isSubscription = false → s.probeAccepted = true →
      v.tokensFinal = s.trustedAt i ∧ i.prompt = true)
    (hu : v.payFinalAndClose = some u) : Effect s i u := by
  obtain ⟨a', ha', b', hb', r, hsum, hexit, k, hum⟩ := hp.clean hs.noProbe hu
  have hvt : v.toTerms = s.toTerms := hp.moved.terms
  have hut : u.toTerms = s.toTerms := by
    obtain ⟨_, _, _, hcl, -⟩ := hexit.ends
    exact hcl.moved.terms
  have hvsub : v.isSubscription = s.isSubscription := by
    unfold isSubscription
    rw [hweeks]
  have husub : u.isSubscription = s.isSubscription := by
    rw [← hvsub]
    unfold isSubscription
    rw [hum]
    rfl
  have hacc : u.probeAccepted = s.probeAccepted := by rw [hexit.stage]
  have hdes : u.destroyed = true := by rw [hexit.stage]
  have hfin : u.tokensFinal = v.tokensFinal := by
    rw [hum]
    rfl
  have huval : u.weeksValue = v.weeksValue := by
    apply weeksValue_congr (hut.trans hvt.symm)
    · rw [hum]; rfl
    · rw [hum]; rfl
  rw [hvt] at ha' hb'
  cases hcase : s.probeAccepted with
  | false =>
    -- nothing was ever claimed, so nothing is owed
    obtain ⟨-, rfl, rfl⟩ := hzero (.inl hcase)
    obtain ⟨-, -, -, -, hpend, -⟩ := hs.unaccepted hcase
    have hfo : v.finalOwed = 0 := by
      unfold finalOwed
      split_ifs
      · rfl
      · omega
    rw [hfo] at ha' hb'
    obtain rfl := Nat.le_zero.mp (ha'.trans_eq (Terms.payOf_zero _))
    obtain rfl := Nat.le_zero.mp (hb'.trans_eq (Terms.payFeeOf_zero _))
    refine .ended hin hxn ho hexit ?_ (fun _ _ => Nat.zero_le _) fun _ h =>
      absurd (hcase.symm.trans h) (by decide)
    rw [earned_unaccepted hcase]
    exact Nat.zero_le _
  | true =>
    obtain ⟨-, hpace, hT, -⟩ := hs.accepted hcase
    cases hsub : s.isSubscription with
    | true =>
      rw [finalOwed_eq_zero (hvsub.trans hsub)] at ha' hb'
      obtain rfl := Nat.le_zero.mp (ha'.trans_eq (Terms.payOf_zero _))
      refine .ended hin hxn ho hexit ?_ (fun h => absurd (hsub.symm.trans h) (by decide))
        fun h => absurd (hsub.symm.trans h) (by decide)
      have h1 := hval hcase
      have h2 := weeksValue_le_earned (hacc.trans hcase) (husub.trans hsub)
      rw [earned_live hcase hsub hlive]
      omega
    | false =>
      obtain ⟨hpaid, rfl, rfl⟩ := hzero (.inr hsub)
      rw [hpace.first (hs.ordinary hsub).1] at hpaid
      have hfo : v.finalOwed = v.tokensFinal - DEAL_TICK_SIZE := by
        unfold finalOwed
        rw [hvsub, hsub, hpaid]
        exact if_pos (by decide)
      rw [hvt, hfo] at hsum
      rw [hfo] at ha' hb'
      refine .ended hin hxn ho hexit ?_ (fun _ _ => ?_) fun _ _ _ => ?_
      · clear hsum
        have h1 := hs.trusted_value hsub hcase hfinal
        rw [earned_ordinary hcase hsub, earned_ordinary (hacc.trans hcase) (husub.trans hsub), hlive,
          hdes, hfin, hut]
        simp only [Bool.false_eq_true, if_false, if_true]
        omega
      · clear hsum
        rw [if_pos hcase]
        have h1 : s.valueOf (v.tokensFinal - DEAL_TICK_SIZE) ≤
            s.valueOf (s.tokensPend - DEAL_TICK_SIZE) := by
          have h2 := (hs.ordinary hsub).2 hcase
          have h3 := hs.funds
          apply Terms.valueOf_mono hs.valid
          · omega
          · omega
        unfold Terms.valueOf at h1 ⊢
        omega
      · have hdep := hp.deposit
        obtain ⟨htr, hprompt⟩ := htrust hsub hcase
        refine ⟨?_, .inl hprompt⟩
        unfold finalCharge Terms.valueOf
        rw [← htr, ← hdep, Nat.add_zero]
        exact (Nat.zero_add _).trans hsum

theorem weeks_ended {i : Input} {e : ℕ} (hs : Sane s) (hlive : s.destroyed = false)
    (ho : s.opened = true) (hin : s.buyerIn i = 0) (hxn : sellerIn i = 0)
    (hp : Prepared s t (s.buyerLoss i) (s.sellerLoss i) 0 0 w)
    (hm : t.toMeter = { s.toMeter with tokensFinal := x, tokensPend := y }) (hx : x ≤ s.tokensPend)
    (htrust : s.isSubscription = false → s.probeAccepted = true →
      x = s.trustedAt i ∧ i.prompt = true)
    (hu : (t.chargeWeeksThrough e).payFinalAndClose = some u) : Effect s i u := by
  obtain ⟨n, a, b, hw, hval, hzero⟩ := hs.weeks hp.moved.terms (by rw [hp.stage]) hm e
  have hprep := hp.weekly hw
  rw [Nat.zero_add, Nat.zero_add] at hprep
  refine clean_ended hs hlive ho hin hxn hprep ?_ ?_ (fun ha => (hval ha).2) ?_ ?_ hu
  · rw [hw.meter, hm]
  · rw [hw.meter, hm]
    exact hx
  · intro hc
    obtain ⟨h1, h2, h3⟩ := hzero hc
    rw [h1, hm]
    exact ⟨rfl, h2, h3⟩
  · intro hsub ha
    rw [hw.meter, hm]
    exact htrust hsub ha

theorem Sane.final_le (hs : Sane s) : s.tokensFinal ≤ s.tokensPend := by
  cases ha : s.probeAccepted with
  | false =>
    obtain ⟨-, -, -, h4, h5, -⟩ := hs.unaccepted ha
    omega
  | true => exact (hs.accepted ha).2.2.2

theorem finalize_effect (hs : Sane s) (hlive : s.destroyed = false)
    (h : s.begin.finalize now = some u) : Effect s ⟨caller, now, .finalize⟩ u := by
  simp only [finalize, bind_iff] at h
  obtain ⟨⟨ho, hd⟩, ⟨hlt, htime⟩, h⟩ := h
  split_ifs at h with h1
  · refine clean_ended (a := 0) (b := 0) hs hlive ho rfl rfl
      ((Prepared.start (s := s) hd).setMeter _) (s.toMeter.promoteDue_subWeeks now)
      (s.toMeter.promoteDue_final_le now hs.final_le) ?_ ?_ ?_ h
    · intro _
      rw [Nat.zero_add]
      exact (s.begin.promoteDue_weeksValue now).ge
    · intro _
      exact ⟨s.toMeter.promoteDue_tokensPaid now, rfl, rfl⟩
    · intro _ _
      refine ⟨?_, rfl⟩
      change (s.toMeter.promoteDue now).tokensFinal = s.tokensPend
      unfold Meter.promoteDue Meter.promote
      rw [if_pos (show s.lastClaimTime + CLAIM_PROMOTE_WINDOW ≤ now from htime),
        if_pos (show s.tokensFinal < s.tokensPend from hlt)]
  · cases h
    refine .promoted rfl ho hd hlt htime rfl ?_ rfl ⟨rfl, rfl, rfl, rfl, rfl⟩
    change (s.toMeter.promoteDue now) = _
    unfold Meter.promoteDue Meter.promote
    rw [if_pos (show s.lastClaimTime + CLAIM_PROMOTE_WINDOW ≤ now from htime),
      if_pos (show s.tokensFinal < s.tokensPend from hlt)]

theorem settleWeek_effect (hs : Sane s) (hlive : s.destroyed = false)
    (h : s.begin.settleWeek now = some u) : Effect s ⟨caller, now, .settleWeek⟩ u := by
  simp only [settleWeek, bind_iff] at h
  obtain ⟨hsub, ⟨ho, hd⟩, ha, due, -, -, h⟩ := h
  obtain ⟨-, hpace, -, -⟩ := hs.accepted ha
  obtain ⟨t, k, a, b, ticks, hw, hp', hval, -, hmv, hpu, hme, hst⟩ :=
    settleBoundaries_inv (s := s.begin) due ⟨hpace.first, hpace.later⟩ hs.valid
      (hs.quota.trans hs.funds)
  split_ifs at h with h1
  · have hprep : Prepared s (s.begin.settleBoundaries due) 0 0 a (a + b) 0 := by
      have hpw := (Prepared.start (s := s) hd).weekly hw
      rw [Nat.zero_add, Nat.zero_add] at hpw
      obtain ⟨k1, k2, k3, k4, k5, k6, k7⟩ := hpw
      refine ⟨hmv, ?_, ?_, ?_, ?_, ?_, ?_⟩
      · rw [hst, ← hd]
        rfl
      all_goals rw [hpu]; assumption
    have hsame : ∀ f : Meter → ℕ, (∀ m d, f { m with ticksFinalized := d } = f m) →
        f (s.begin.settleBoundaries due).toMeter = f t.toMeter := by
      intro f hf
      rw [hme]
      exact hf _ _
    have hpend : (s.begin.settleBoundaries due).tokensPend = s.tokensPend := by
      rw [hsame Meter.tokensPend fun _ _ => rfl, hw.meter]
      rfl
    have hfin : (s.begin.settleBoundaries due).tokensFinal = s.tokensFinal := by
      rw [hsame Meter.tokensFinal fun _ _ => rfl, hw.meter]
      rfl
    refine clean_ended hs hlive ho rfl rfl (hprep.setMeter _) ?_ ?_ ?_ ?_
      (fun h0 => absurd (hsub.symm.trans h0) (by decide)) h
    · refine (Meter.promoteDue_subWeeks _ now).trans ?_
      rw [hsame Meter.subWeeks fun _ _ => rfl, hw.meter]
      rfl
    · rw [← hpend]
      apply Meter.promoteDue_final_le
      rw [hpend, hfin]
      exact hs.final_le
    · intro _
      rw [promoteDue_weeksValue, weeksValue_congr (hmv.terms.trans hw.moved.terms.symm)
        (hsame Meter.weekIndex fun _ _ => rfl) (hsame Meter.tokensPerWeek fun _ _ => rfl)]
      exact hval
    · rintro (hc | hc)
      · exact absurd (ha.symm.trans hc) (by decide)
      · exact absurd (hsub.symm.trans hc) (by decide)
  · cases h
    exact .crossed rfl hsub ho ha hw hp' hval hpu hme hst hmv.paid

/-- The buyer leaves on an unaccepted probe. -/
theorem stopProbe_exit (hs : Sane s) (ha : s.probeAccepted = false)
    (hd : s.disputed = false) (h : s.begin.stopProbe = some u) :
    Exit s u 0 (min s.probeTick s.sellerBond) 0 s.probeTick 0 ∧ u.toMeter = s.toMeter := by
  obtain ⟨g, hg, h⟩ := of_bind h
  obtain ⟨v, hv, h⟩ := of_bind h
  obtain ⟨k1, m1⟩ := burnShell_inv hg
  obtain ⟨k2, -⟩ := payShell_inv hv
  obtain ⟨hcl, hm, hst, hpu⟩ := payOwedAndDie_closed h
  have hk := k1.trans k2
  have hmv : Moved s.begin ((s.begin.setPurse s.toPurse.burnProbe).setStage
      { s.toStage with opened := false }) 0 0 0 0 :=
    (Moved.setPurse s.begin (by rfl)).trans (.setStage _ _)
  have hall := (((hmv.trans m1).trans (payBuyer_moved hv)).trans (.emit v _)).closed hcl
  have howed : v.finalizedOwed = s.finalizedOwed + (s.sellerBond - min s.probeTick s.sellerBond) := by
    rw [hk.purse]
    rfl
  have hfee := (hs.unaccepted ha).2.1
  refine ⟨⟨⟨_, _, _, hall, ?_, ?_, ?_⟩, ?_, ?_, fun _ => rfl, Nat.zero_le _⟩, hm.trans hk.meter⟩
  · simp only [Purse.ofBuyer, begin_toPurse]
    omega
  · change 0 + 0 + 0 + 0 + v.finalizedOwed + _ = _
    rw [howed]
    unfold Purse.ofSeller
    omega
  · change _ + (0 + 0 + 0 + 0 + v.finalizedOwed) + _ = _
    rw [howed]
    simp only [Purse.booked, begin_toPurse]
    omega
  · rw [hst]
    change ({ v.toStage with destroyed := true } : Stage) = _
    rw [hk.stage, ← hd]
    rfl
  · rw [hpu]
    change ({ v.toPurse with balance := 0, finalizedOwed := 0 } : Purse) = _
    rw [hk.purse]
    simp [Purse.burnProbe, Purse.releaseBuyerBond, Purse.empty, hfee]

theorem stop_effect (hs : Sane s) (hlive : s.destroyed = false)
    (h : s.begin.stop caller now = some u) : Effect s ⟨caller, now, .stop⟩ u := by
  simp only [stop, bind_iff] at h
  obtain ⟨ho, -, hd, h⟩ := h
  have hd' : s.disputed = false := hd
  split_ifs at h with h1 h2
  · have ha : s.probeAccepted = false := h1
    obtain ⟨hex, hm⟩ := stopProbe_exit hs ha hd' h
    have hb : s.buyerLoss ⟨caller, now, .stop⟩ = 0 := by simp [buyerLoss, ha]
    have hx : s.sellerLoss ⟨caller, now, .stop⟩ = min s.probeTick s.sellerBond := by
      simp [sellerLoss, ha]
    have hex' : Exit s u (s.buyerLoss ⟨caller, now, .stop⟩) (s.sellerLoss ⟨caller, now, .stop⟩) 0
        s.probeTick 0 := by
      rw [hb, hx]
      exact hex
    refine .ended rfl rfl ho hex' ?_ ?_ fun _ h => absurd (ha.symm.trans h) (by decide)
    · rw [earned_unaccepted ha]
      exact Nat.zero_le _
    · intro _ _
      rw [if_neg (by simp [ha])]
      exact (hs.probe ho ha).le
  · have ha : s.probeAccepted = true := by simpa using h1
    obtain ⟨t, ht, h⟩ := of_bind h
    cases ht
    obtain ⟨started, -, h⟩ := of_bind h
    have hsub : s.isSubscription = true := by
      rw [← h2]
      unfold isSubscription
      rw [setMeter_toMeter, Meter.promoteDue_subWeeks]
      rfl
    obtain ⟨x, hx⟩ := s.toMeter.promoteDue_eq now
    have hle : x ≤ s.tokensPend := by
      have := s.toMeter.promoteDue_final_le now hs.final_le
      rw [hx] at this
      exact this
    have hb : s.buyerLoss ⟨caller, now, .stop⟩ = 0 := by simp [buyerLoss, hsub]
    have hl : s.sellerLoss ⟨caller, now, .stop⟩ = 0 := by simp [sellerLoss, ha]
    refine weeks_ended (w := 0) hs hlive ho rfl rfl ?_ hx hle
      (fun h0 => absurd (hsub.symm.trans h0) (by decide)) h
    rw [hb, hl]
    exact (Prepared.start hd').setMeter _
  · have ha : s.probeAccepted = true := by simpa using h1
    obtain ⟨t, ht, h⟩ := of_bind h
    obtain ⟨started, -, h⟩ := of_bind h
    have hsub : s.isSubscription = false := by
      rw [← Bool.not_eq_true]
      intro hs'
      apply h2
      rw [← hs']
      unfold isSubscription
      rw [setMeter_toMeter, Meter.promoteDue_subWeeks]
      rfl
    have hprep := (((Prepared.start hd').setMeter (s.toMeter.promoteDue now)).setMeter
      (s.toMeter.promoteDue now).promote).forfeit ht
    obtain ⟨-, hmt, -⟩ := forfeitBonds_inv ht
    have hmt' : t.toMeter = { s.toMeter with tokensFinal := s.tokensPend } :=
      hmt.trans (s.toMeter.promote_promoteDue now hs.final_le)
    have hb : s.buyerLoss ⟨caller, now, .stop⟩ = 0 + min s.pricePerTick s.buyerBond := by
      simp [buyerLoss, ha, hsub]
    have hl : s.sellerLoss ⟨caller, now, .stop⟩ = 0 + min 0 s.sellerBond := by
      simp [sellerLoss, ha]
    exact weeks_ended hs hlive ho rfl rfl (hprep.cast hb.symm hl.symm) hmt' le_rfl
      (fun _ _ => ⟨rfl, rfl⟩) h

/-- The forfeit of a seller who stops. -/
theorem sellerForfeit_prepared (hd : s.disputed = false)
    (h : s.begin.sellerForfeit now = some t) :
    ∃ w x y, Prepared s t 0 (if s.probeAccepted = true ∧ s.isSubscription = true then 0
        else min s.pricePerTick s.sellerBond) 0 0 w ∧
      t.toMeter = { s.toMeter with tokensFinal := x, tokensPend := y } ∧
      x = (s.toMeter.promoteDue now).tokensFinal := by
  obtain ⟨x, hx⟩ := s.toMeter.promoteDue_eq now
  have hfin : x = (s.toMeter.promoteDue now).tokensFinal := by rw [hx]
  unfold sellerForfeit at h
  cases ha : s.probeAccepted with
  | false =>
    rw [begin_toStage, ha] at h
    obtain ⟨g, hg, h⟩ := of_bind h
    obtain ⟨-, hm, hst, -⟩ := forfeitBonds_inv hg
    have hacc : g.probeAccepted = false := by
      rw [hst]
      exact ha
    dsimp only at h
    rw [if_neg (by simp [hacc])] at h
    cases h
    refine ⟨_, x, s.tokensPend, ((((Prepared.start hd).forfeit hg).setMeter _).cast ?_ ?_), ?_, hfin⟩
    · simp
    · simp
    · change g.toMeter.promoteDue now = _
      rw [hm]
      exact hx
  | true =>
    rw [begin_toStage, ha] at h
    dsimp only at h
    rw [if_pos rfl] at h
    obtain ⟨g, hg, h⟩ := of_bind h
    cases hg
    have hsub : (s.begin.setMeter (s.begin.toMeter.promoteDue now)).isSubscription =
        s.isSubscription := by
      unfold isSubscription
      rw [setMeter_toMeter, Meter.promoteDue_subWeeks]
      rfl
    rw [hsub] at h
    cases hc : s.isSubscription with
    | true =>
      rw [if_neg (by simp [hc])] at h
      cases h
      exact ⟨0, x, s.tokensPend, (Prepared.start hd).setMeter _, hx, hfin⟩
    | false =>
      rw [if_pos ⟨ha, hc⟩] at h
      obtain ⟨-, hm, -⟩ := forfeitBonds_inv h
      refine ⟨_, x, x, ((((Prepared.start hd).setMeter _).setMeter _).forfeit h).cast ?_ ?_, ?_, hfin⟩
      · simp
      · simp
      · rw [hm]
        change { s.toMeter.promoteDue now with
          tokensPend := (s.toMeter.promoteDue now).tokensFinal } = _
        rw [hx]

theorem sellerStop_effect (hs : Sane s) (hlive : s.destroyed = false)
    (h : s.begin.sellerStop caller now = some u) : Effect s ⟨caller, now, .sellerStop⟩ u := by
  simp only [sellerStop, bind_iff] at h
  obtain ⟨-, ho, hd, t, ht, e, -, h⟩ := h
  obtain ⟨w, x, y, hp, hm, hx⟩ := sellerForfeit_prepared (s := s) hd ht
  exact weeks_ended hs hlive ho rfl rfl hp hm
    (hx.trans_le (s.toMeter.promoteDue_final_le now hs.final_le)) (fun _ _ => ⟨hx, rfl⟩) h

theorem Weekly.unique {n n' a a' b b' : ℕ} (h : Weekly s t n a b) (h' : Weekly s t n' a' b') :
    a = a' ∧ b = b' := by
  have h1 := h.charged.owed
  have h2 := h'.charged.owed
  have h3 := h.charged.accrued
  have h4 := h'.charged.accrued
  omega

theorem claimBase_eq (h : Paced s) (hsub : s.subWeeks ≠ 0) : s.claimBase =
    if s.weekIndex = 0 then DEAL_TICK_SIZE else s.weekBaseTokens := by
  unfold Meter.claimBase
  split_ifs with h1 h2 h2
  · exact absurd h2 h1.2.ne'
  · rfl
  · exact h.first h2
  · exact absurd ⟨hsub, Nat.pos_of_ne_zero h2⟩ h1

theorem weeksCharged_eq (h : v.probeAccepted = false ∨ v.isSubscription = false) (e : ℕ) :
    v.weeksCharged e = v.setPurse (v.toPurse.releaseProbe v.probeAccepted) := by
  unfold weeksCharged chargeWeeksThrough
  apply if_pos
  rcases h with h | h
  · exact .inr (by simp [h])
  · exact .inl (by simp [isSubscription] at h; simp [isSubscription, h])

/-- The end of a dispute, after the write-off of `k` from the escrow. -/
theorem trusted_ended {i : Input} {a b bs xs n : ℕ} {t : TokenContract} (hs : Sane s)
    (hlive : s.destroyed = false) (hd : s.disputed = true) (hin : s.buyerIn i = 0)
    (hxn : sellerIn i = 0) {k : ℕ} (hp : Prepared s v 0 0 a (a + b + k) w)
    (hw : Weekly s.begin t n a b)
    (hm : v.toMeter = { t.toMeter with tokensFinal := x, tokensPend := y })
    (hx : x ≤ s.tokensPend)
    (hval : s.probeAccepted = true → Paced t ∧ a + s.weeksValue ≤ t.weeksValue)
    (hzero : s.probeAccepted = false ∨ s.isSubscription = false → t = s.begin ∧ a = 0 ∧ b = 0)
    (htaken : s.isSubscription = false → ¬ s.lateClaim i →
      if s.probeAccepted then
        k + s.valueOf (x - DEAL_TICK_SIZE) ≤ s.valueOf (s.tokensPend - DEAL_TICK_SIZE)
      else k = 0)
    (htrust : (i.call = .resolveDisputeTimeout → s.tokensFinal = s.tokensPend) →
      k = 0 ∧ x = s.trustedAt i)
    (hbs : min bs v.buyerBond = s.buyerLoss i) (hxs : min xs v.sellerBond = s.sellerLoss i)
    (hu : v.settleTrustedAndClose bs xs = some u) : Effect s i u := by
  obtain ⟨e, kept, n', a', b', he, hw', c, hc, d, hdle, hsum, hkept, hexit, hum⟩ :=
    hp.trusted hs.noProbe hu
  rw [hbs, hxs, Nat.zero_add, Nat.zero_add] at hexit
  have ho : s.opened = true := by
    by_contra hn
    exact absurd ((hs.unopened (by simpa using hn)).2.1.symm.trans hd) (by decide)
  have hvt : v.toTerms = s.toTerms := hp.moved.terms
  have h2t : (v.weeksCharged e).toTerms = s.toTerms := hw'.moved.terms.trans hvt
  have hut : u.toTerms = s.toTerms := by
    obtain ⟨_, _, _, hcl, -⟩ := hexit.ends
    exact hcl.moved.terms
  have hmv : v.toMeter = { s.toMeter with
      weekIndex := t.weekIndex, tokensPaid := t.tokensPaid, weekBaseTokens := t.weekBaseTokens,
      tokensFinal := x, tokensPend := y } := by
    rw [hm, hw.meter]
    rfl
  have hvacc : v.probeAccepted = s.probeAccepted := by rw [hp.stage]
  have hvsub : v.isSubscription = s.isSubscription := by
    unfold isSubscription
    rw [hmv]
  have h2sub : (v.weeksCharged e).subWeeks = s.subWeeks := by
    rw [hw'.meter, setPurse_toMeter, hmv]
  have h2fin : (v.weeksCharged e).tokensFinal = x := by
    rw [hw'.meter, setPurse_toMeter, hmv]
  have hacc : u.probeAccepted = s.probeAccepted := by rw [hexit.stage]
  have hdes : u.destroyed = true := by rw [hexit.stage]
  have hever : u.everDisputed = true := by
    rw [hexit.stage]
    exact hs.disputed hd
  have husub : u.isSubscription = s.isSubscription := by
    unfold isSubscription
    rw [hum]
    change decide ((v.weeksCharged e).subWeeks ≠ 0) = _
    rw [h2sub]
  have hufin : u.tokensFinal = x := by
    rw [hum]
    exact h2fin
  have huval : u.weeksValue = (v.weeksCharged e).weeksValue := by
    apply weeksValue_congr (hut.trans h2t.symm)
    · rw [hum]; rfl
    · rw [hum]; rfl
  rw [h2t, h2fin] at hc hdle
  have hskip : s.probeAccepted = false ∨ s.isSubscription = false →
      v.weeksCharged e = v.setPurse (v.toPurse.releaseProbe v.probeAccepted) ∧ a' = 0 ∧ b' = 0 := by
    intro h
    have heq : v.weeksCharged e = _ := weeksCharged_eq (by rw [hvacc, hvsub]; exact h) e
    rw [heq] at hw'
    exact ⟨heq, hw'.unique (.refl _)⟩
  cases hcase : s.probeAccepted with
  | false =>
    obtain ⟨heq, rfl, rfl⟩ := hskip (.inl hcase)
    obtain ⟨-, rfl, rfl⟩ := hzero (.inl hcase)
    obtain ⟨-, -, -, -, hpend, -⟩ := hs.unaccepted hcase
    have hx0 : x = 0 := by omega
    rw [hx0, Nat.zero_sub] at hc hdle
    obtain rfl := Nat.le_zero.mp (hc.trans_eq (Terms.payOf_zero _))
    obtain rfl := Nat.le_zero.mp (hdle.trans_eq (Terms.payFeeOf_zero _))
    refine .ended hin hxn ho hexit ?_ ?_ fun _ h => absurd (hcase.symm.trans h) (by decide)
    · rw [earned_unaccepted hcase]
      exact Nat.zero_le _
    · intro hsub hnl
      have h1 := htaken hsub hnl
      rw [if_neg (by simp [hcase])] at h1
      rw [hkept (hvsub.trans hsub), h1, Nat.sub_self]
      exact Nat.zero_le _
  | true =>
    obtain ⟨hpt, hvalt⟩ := hval hcase
    cases hsub : s.isSubscription with
    | true =>
      have hpv : Paced (v.setPurse (v.toPurse.releaseProbe v.probeAccepted)) :=
        hpt.congr (by rw [setPurse_toMeter, hmv]) (by rw [setPurse_toMeter, hm])
          (by rw [setPurse_toMeter, hmv])
      obtain ⟨hp2, n2, a2, b2, hw2, hval2⟩ := chargeWeeksThrough_value e hpv
        (by rw [setPurse_toTerms, hvt]; exact hs.valid)
        (by rw [setPurse_toTerms, hvt, setPurse_toMeter, hmv]; exact hs.quota.trans hs.funds)
      obtain ⟨rfl, rfl⟩ := hw'.unique hw2
      have hvv : (v.setPurse (v.toPurse.releaseProbe v.probeAccepted)).weeksValue = t.weeksValue :=
        weeksValue_congr (hvt.trans hw.moved.terms.symm) (by rw [setPurse_toMeter, hmv])
          (by rw [setPurse_toMeter, hm])
      have hproven : u.provenTokens = x - (v.weeksCharged e).claimBase := by
        have hwi : u.weekIndex = (v.weeksCharged e).weekIndex := by rw [hum]; rfl
        have hwb : u.weekBaseTokens = (v.weeksCharged e).weekBaseTokens := by rw [hum]; rfl
        have hne : s.subWeeks ≠ 0 := by simpa [isSubscription] using hsub
        unfold provenTokens
        rw [← h2sub] at hne
        rw [show (v.weeksCharged e).claimBase = _ from claimBase_eq hp2 hne, hufin, hwi, hwb]
      refine .ended hin hxn ho hexit ?_ (fun h => absurd (hsub.symm.trans h) (by decide))
        fun h => absurd (hsub.symm.trans h) (by decide)
      rw [earned_live hcase hsub hlive, earned_subscription (hacc.trans hcase) (husub.trans hsub),
        if_pos ⟨hdes, hever⟩, huval, hproven, hut]
      change a' + _ ≤ (v.weeksCharged e).weeksValue at hval2
      omega
    | false =>
      obtain ⟨heq, rfl, rfl⟩ := hskip (.inr hsub)
      obtain ⟨rfl, rfl, rfl⟩ := hzero (.inr hsub)
      have hbase : (v.weeksCharged e).claimBase = DEAL_TICK_SIZE := by
        have h0 : s.subWeeks = 0 := by simpa [isSubscription] using hsub
        unfold Meter.claimBase
        rw [if_neg (by rw [h2sub]; simp [h0]), heq, setPurse_toMeter, hmv]
        exact hpt.first (hs.ordinary hsub).1
      rw [h2t, h2fin, hbase] at hsum
      rw [hbase] at hc hdle
      refine .ended hin hxn ho hexit ?_ ?_ ?_
      · clear hsum
        have h1 := hs.trusted_value hsub hcase hx
        rw [earned_ordinary hcase hsub, earned_ordinary (hacc.trans hcase) (husub.trans hsub), hlive,
          hdes, hufin, hut]
        simp only [Bool.false_eq_true, if_false, if_true]
        omega
      · intro _ hnl
        clear hsum
        have h1 := htaken hsub hnl
        rw [if_pos hcase] at h1 ⊢
        rw [hkept (hvsub.trans hsub), Nat.sub_self]
        unfold Terms.valueOf at h1 ⊢
        omega
      · intro _ _ hcall
        obtain ⟨rfl, hxt⟩ := htrust hcall
        have hdep := hp.deposit
        have hrel : (v.weeksCharged e).deposit = s.deposit := by
          rw [heq, setPurse_toPurse, hvacc, hcase]
          exact hdep
        refine ⟨?_, .inr hd⟩
        rw [hkept (hvsub.trans hsub), Nat.sub_self, hsum, hrel, hxt]
        unfold finalCharge Terms.valueOf
        rw [Nat.add_zero, Nat.zero_add]

theorem voidClaims_eq (m : Meter) (d : ℕ) : m.voidClaims d =
    { m with
      tokensFinal := if m.tokensFinal < m.tokensPend ∧ m.lastClaimTime + CLAIM_PROMOTE_WINDOW ≤ d
        then m.tokensPend else m.tokensFinal
      tokensPend := if m.tokensFinal < m.tokensPend ∧ m.lastClaimTime + CLAIM_PROMOTE_WINDOW ≤ d
        then m.tokensPend else m.tokensFinal } := by
  unfold Meter.voidClaims
  split_ifs <;> rfl

theorem Sane.trustedTokens_le (hs : Sane s) : s.trustedTokens ≤ s.tokensPend := by
  unfold trustedTokens
  split_ifs
  · exact le_rfl
  · exact hs.final_le

/-- A disputed deal on its way to either resolution. -/
theorem disputed_prepared (hs : Sane s) {e : ℕ} :
    ∃ n a b, Weekly s.begin (s.begin.chargeWeeksThrough e) n a b ∧
      Prepared s (s.begin.chargeWeeksThrough e).endDispute 0 0 a (a + b) 0 ∧
      (s.begin.chargeWeeksThrough e).endDispute.toMeter =
        { (s.begin.chargeWeeksThrough e).toMeter with
          tokensFinal := s.trustedTokens, tokensPend := s.trustedTokens } ∧
      (s.begin.chargeWeeksThrough e).endDispute.buyerBond = s.buyerBond ∧
      (s.begin.chargeWeeksThrough e).endDispute.sellerBond = s.sellerBond ∧
      (s.probeAccepted = true → Paced (s.begin.chargeWeeksThrough e) ∧
        a + s.weeksValue ≤ (s.begin.chargeWeeksThrough e).weeksValue) ∧
      (s.probeAccepted = false ∨ s.isSubscription = false →
        s.begin.chargeWeeksThrough e = s.begin ∧ a = 0 ∧ b = 0) := by
  obtain ⟨n, a, b, hw, hval, hzero⟩ := hs.weeks (t := s.begin) (x := s.tokensFinal)
    (y := s.tokensPend) rfl rfl rfl e
  have h1 := hw.charged.ofBuyer
  have h2 := hw.charged.ofSeller
  refine ⟨n, a, b, hw, ⟨?_, ?_, ?_, ?_, ?_, ?_, ?_⟩, ?_, hw.charged.buyerBond, hw.charged.sellerBond, hval,
    hzero⟩
  · exact (hw.moved.trans (.setMeter _ _)).trans (.setStage _ _)
  · change ({ (s.begin.chargeWeeksThrough e).toStage with disputed := false } : Stage) = _
    rw [hw.stage]
    rfl
  · exact h1
  · exact h2
  · exact hw.charged.booked
  · exact hw.charged.probeTick
  · exact hw.charged.deposit
  · change (s.begin.chargeWeeksThrough e).toMeter.voidClaims
      (s.begin.chargeWeeksThrough e).disputeTime = _
    rw [voidClaims_eq, hw.stage, hw.meter]
    rfl

theorem releaseDispute_effect (hs : Sane s) (hlive : s.destroyed = false)
    (h : s.begin.releaseDispute caller = some u) : Effect s ⟨caller, now, .releaseDispute⟩ u := by
  simp only [releaseDispute, bind_iff] at h
  obtain ⟨-, hd, e, he, h⟩ := h
  obtain ⟨n, a, b, hw, hp, hm, hb, hx, hval, hzero⟩ := disputed_prepared hs (e := e)
  have hwd : s.weeksDisputed = s.begin.chargeWeeksThrough e := by
    unfold weeksDisputed
    rw [show s.weeksElapsedAt s.disputeTime = some e from he]
    rfl
  have hsub : (s.begin.chargeWeeksThrough e).endDispute.isSubscription = s.isSubscription := by
    unfold isSubscription
    rw [hm, hw.meter]
    rfl
  have htaken : s.isSubscription = false → ¬ s.lateClaim ⟨caller, now, .releaseDispute⟩ →
      if s.probeAccepted then 0 + s.valueOf (s.trustedTokens - DEAL_TICK_SIZE) ≤
        s.valueOf (s.tokensPend - DEAL_TICK_SIZE) else 0 = 0 := by
    intro ho _
    split_ifs with ha
    · have h1 := hs.trustedTokens_le
      have h2 := (hs.ordinary ho).2 ha
      have h3 := hs.funds
      rw [Nat.zero_add]
      apply Terms.valueOf_mono hs.valid
      · omega
      · omega
    · rfl
  split_ifs at h with h1
  · refine trusted_ended (k := 0) hs hlive hd rfl rfl hp hw hm hs.trustedTokens_le hval hzero htaken
      (fun _ => ⟨rfl, rfl⟩) ?_ ?_ h
    · rw [hsub] at h1
      rw [hb]
      simp [buyerLoss, h1, hwd]
    · rw [hsub] at h1
      rw [hx]
      simp [sellerLoss, h1]
  · have hs1 : s.isSubscription = false := by
      rw [hsub] at h1
      simpa using h1
    have hprice : (s.begin.chargeWeeksThrough e).endDispute.pricePerTick = s.pricePerTick := by
      rw [hp.moved.terms]
      rfl
    refine trusted_ended (k := 0) hs hlive hd rfl rfl hp hw hm hs.trustedTokens_le hval hzero htaken
      (fun _ => ⟨rfl, rfl⟩) ?_ ?_ h
    · rw [hb, hprice]
      simp [buyerLoss, hs1]
    · rw [hx, hprice]
      simp [sellerLoss, hs1]

theorem Sane.pendingValue_le (hs : Sane s) (hsub : s.isSubscription = false)
    (hnl : ¬ (s.tokensFinal < s.tokensPend ∧
      s.lastClaimTime + CLAIM_PROMOTE_WINDOW ≤ s.disputeTime)) :
    if s.probeAccepted then
      s.pendingValue + s.valueOf (s.trustedTokens - DEAL_TICK_SIZE) ≤
        s.valueOf (s.tokensPend - DEAL_TICK_SIZE)
    else s.pendingValue = 0 := by
  have htr : s.trustedTokens = s.tokensFinal := if_neg hnl
  have hpv : s.pendingValue ≤ s.valueOf (s.tokensPend - s.tokensFinal) := Nat.min_le_left _ _
  split_ifs with ha
  · obtain ⟨-, -, hT, hle⟩ := hs.accepted ha
    have h2 := (hs.ordinary hsub).2 ha
    have h3 := hs.funds
    have h4 : s.valueOf (s.tokensPend - s.tokensFinal) +
        s.valueOf (s.tokensFinal - DEAL_TICK_SIZE) ≤ s.valueOf (s.tokensPend - DEAL_TICK_SIZE) := by
      apply Terms.valueOf_add_le hs.valid
      · omega
      · omega
    rw [htr]
    omega
  · obtain ⟨-, -, -, h4, h5, -⟩ := hs.unaccepted (by simpa using ha)
    rw [h4, h5] at hpv
    simpa [Terms.valueOf] using hpv

theorem pendingValue_eq_zero (h : s.tokensFinal = s.tokensPend) : s.pendingValue = 0 := by
  unfold pendingValue
  dsimp only
  rw [h, Nat.sub_self, Terms.payOf_zero, Terms.payFeeOf_zero]
  exact Nat.zero_min _

theorem resolveDisputeTimeout_effect (hs : Sane s) (hlive : s.destroyed = false)
    (h : s.begin.resolveDisputeTimeout now = some u) :
    Effect s ⟨caller, now, .resolveDisputeTimeout⟩ u := by
  simp only [resolveDisputeTimeout, bind_iff] at h
  obtain ⟨hd, -, e, he, h⟩ := h
  obtain ⟨n, a, b, hw, hp, hm, hb, hx, hval, hzero⟩ := disputed_prepared hs (e := e)
  have hwd : s.weeksDisputed = s.begin.chargeWeeksThrough e := by
    unfold weeksDisputed
    rw [show s.weeksElapsedAt s.disputeTime = some e from he]
    rfl
  have hsub : (s.begin.chargeWeeksThrough e).isSubscription = s.isSubscription := by
    unfold isSubscription
    rw [hw.meter]
    rfl
  split_ifs at h with h1
  · rw [hsub] at h1
    refine trusted_ended (k := 0) hs hlive hd rfl rfl hp hw hm hs.trustedTokens_le hval hzero
      (fun ho => absurd (h1.symm.trans ho) (by decide)) (fun _ => ⟨rfl, rfl⟩) ?_ ?_ h
    · rw [hb]
      simp [buyerLoss, h1, hwd]
    · rw [hx]
      simp [sellerLoss, h1, hwd]
  · have hs1 : s.isSubscription = false := by
      rw [hsub] at h1
      simpa using h1
    obtain ⟨hst, rfl, rfl⟩ := hzero (.inr hs1)
    obtain ⟨g, hg, h⟩ := of_bind h
    rw [hst] at hg hp hm hb hx
    obtain ⟨hpg, hmg, hbg, hxg⟩ := hp.writeOff (Nat.min_le_right _ _) hg
    have hprice : g.pricePerTick = s.pricePerTick := by
      rw [hpg.moved.terms]
      rfl
    refine trusted_ended hs hlive hd rfl rfl hpg (hst ▸ hw) (hmg.trans hm) hs.trustedTokens_le
      (fun ha => hst ▸ hval ha) (fun _ => ⟨rfl, rfl, rfl⟩) ?_ ?_ ?_ ?_ h
    · intro _ hnl
      exact hs.pendingValue_le hs1 fun hc => hnl ⟨rfl, hs1, hc.1, hc.2⟩
    · intro heq
      exact ⟨pendingValue_eq_zero (heq rfl), rfl⟩
    · rw [hbg, hb, hprice]
      simp [buyerLoss, hs1]
    · rw [hxg, hx, hprice]
      simp [sellerLoss, hs1]

end TokenContract

end Dexdo
