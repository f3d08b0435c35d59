import Dexdo.TokenContract.Credit

namespace Dexdo

namespace TokenContract

variable {s u : TokenContract} {i : Input}

/-- Highest cumulative claim a deal held before one of the steps of a trace. -/
def peakClaim (s : TokenContract) (tr : List (Input × TokenContract)) : ℕ :=
  Run.ghost (fun s _ _ n => max n s.tokensPend) s tr 0

/-- What the buyer has handed over in a trace that starts in `s`, his holdings in `s` included. -/
def buyerGave (s : TokenContract) (tr : List (Input × TokenContract)) : ℕ :=
  s.toPurse.ofBuyer + Run.total (fun s i _ => s.buyerIn i) s tr

/-- What the buyer has got back in a trace or forfeited of his bond. -/
def buyerGot (s : TokenContract) (tr : List (Input × TokenContract)) : ℕ :=
  Run.total (fun _ _ v => v.credited .buyer) s tr + Run.total (fun s i _ => s.buyerLoss i) s tr

section

variable {v : TokenContract} {tr : List (Input × TokenContract)}

theorem buyerGave_concat (h : Run step s tr u) :
    buyerGave s (tr ++ [(i, v)]) = buyerGave s tr + u.buyerIn i := by
  unfold buyerGave
  rw [Run.total_concat, h.last_eq, Nat.add_assoc]

theorem buyerGot_concat (h : Run step s tr u) :
    buyerGot s (tr ++ [(i, v)]) = buyerGot s tr + v.credited .buyer + u.buyerLoss i := by
  unfold buyerGot
  rw [Run.total_concat, Run.total_concat, h.last_eq]
  omega

theorem buyerGave_append (h : Run step s tr u) (tr' : List (Input × TokenContract)) :
    buyerGave s (tr ++ tr') + u.toPurse.ofBuyer = buyerGave s tr + buyerGave u tr' := by
  unfold buyerGave
  rw [Run.total_append, h.last_eq]
  omega

theorem buyerGot_append (h : Run step s tr u) (tr' : List (Input × TokenContract)) :
    buyerGot s (tr ++ tr') = buyerGot s tr + buyerGot u tr' := by
  unfold buyerGot
  rw [Run.total_append, Run.total_append, h.last_eq]
  omega

end

/-- Calls that take nothing of the buyer's bond. -/
def Input.sparesBuyer (i : Input) : Bool :=
  match i.call with
  | .stop | .releaseDispute | .resolveDisputeTimeout => false
  | _ => true

theorem buyerLoss_eq_zero (h : i.sparesBuyer = true) : s.buyerLoss i = 0 := by
  obtain ⟨caller, now, call⟩ := i
  cases call with
  | stop | releaseDispute | resolveDisputeTimeout => cases h
  | _ => rfl

theorem mayRest_sparesBuyer (h : i.mayRest = true) : i.sparesBuyer = true := by
  obtain ⟨caller, now, call⟩ := i
  cases call with
  | fundFromOrderBook | postFromNote | onSellClosed | claimTokens => rfl
  | _ => cases h

/-- An open ordinary deal. -/
structure Serving (s : TokenContract) : Prop where
  opened : s.opened = true
  ordinary : s.isSubscription = false

theorem Serving.funded (h : Serving s) (hs : Sane s) : s.funded = true := by
  by_contra hn
  exact absurd ((hs.unfunded (by simpa using hn)).1.symm.trans h.opened) (by decide)

/-- Escrow the probe has taken. -/
def probeCharge (s : TokenContract) : ℕ :=
  if s.probeAccepted then s.valueOf DEAL_TICK_SIZE else 0

theorem probeCharge_congr (ht : u.toTerms = s.toTerms) (ha : u.probeAccepted = s.probeAccepted) :
    u.probeCharge = s.probeCharge := by
  unfold probeCharge
  rw [ha, ht]

theorem buyerIn_of_call (h : (match i.call with
    | .fundFromOrderBook .. | .fundBuyerBond _ => false
    | _ => true) = true) : s.buyerIn i = 0 := by
  obtain ⟨caller, now, call⟩ := i
  cases call with
  | fundFromOrderBook | fundBuyerBond => cases h
  | _ => rfl

theorem valueOf_tick (hv : s.toTerms.Valid) :
    s.valueOf DEAL_TICK_SIZE = s.pricePerTick + feeOf s.pricePerTick := by
  unfold Terms.valueOf Terms.payFeeOf
  rw [Terms.payOf_tick hv]

/-- What a step that neither accepts the probe nor ends the deal leaves of an open ordinary
deal. -/
structure Kept (s : TokenContract) (i : Input) (u : TokenContract) : Prop where
  serving : Serving u
  terms : u.toTerms = s.toTerms
  probe : u.probeAccepted = s.probeAccepted
  deposit : u.deposit = s.deposit
  account : s.toPurse.ofBuyer + s.buyerIn i =
    u.toPurse.ofBuyer + u.credited .buyer + s.buyerLoss i
  claims : u.toMeter = s.toMeter ∨ u.toMeter = { s.toMeter with tokensFinal := s.tokensPend } ∨
    s.tokensPend < s.toMeter.claimCap
  dispute : u.disputed = s.disputed ∧ u.disputeTime = s.disputeTime ∨
    i.call = .dispute ∧ u.disputeTime = i.now

/-- The step that accepts the probe takes its tick and the fee on it. -/
structure Accepting (s : TokenContract) (i : Input) (u : TokenContract) : Prop where
  serving : Serving u
  terms : u.toTerms = s.toTerms
  fresh : s.probeAccepted = false
  account : s.toPurse.ofBuyer + s.buyerIn i + s.probeCharge ≤
    u.toPurse.ofBuyer + u.credited .buyer + s.buyerLoss i + u.probeCharge

theorem Serving.keep {b x w : ℕ} (hv : Serving s) (hpay : Paid s u b x w)
    (hi : i.sparesBuyer = true) (hb : s.buyerIn i = b)
    (hp : u.toPurse.ofBuyer = s.toPurse.ofBuyer ∧ u.deposit = s.deposit)
    (hg : u.opened = s.opened ∧ u.probeAccepted = s.probeAccepted)
    (hm : u.subWeeks = s.subWeeks)
    (hclaims : u.toMeter = s.toMeter ∨
      u.toMeter = { s.toMeter with tokensFinal := s.tokensPend } ∨
        s.tokensPend < s.toMeter.claimCap)
    (hdispute : u.disputed = s.disputed ∧ u.disputeTime = s.disputeTime ∨
      i.call = .dispute ∧ u.disputeTime = i.now) : Kept s i u where
  serving := by
    refine ⟨hg.1.trans hv.opened, ?_⟩
    unfold isSubscription
    rw [hm]
    exact hv.ordinary
  terms := hpay.terms
  probe := hg.2
  deposit := hp.2
  account := by rw [hp.1, hpay.buyer, hb, buyerLoss_eq_zero hi, Nat.add_zero]
  claims := hclaims
  dispute := hdispute

/-- A step of an open ordinary deal that does not end it accepts the probe or keeps the escrow. -/
theorem Effect.kept (hs : Sane s) (he : Effect s i u) (hv : Serving s)
    (hl : u.destroyed = false) : Accepting s i u ∨ Kept s i u := by
  have ho := hv.opened
  cases he with
  | quiet hc hin _ hp hm hg hpay =>
    exact .inr (hv.keep hpay (mayRest_sparesBuyer hc) hin (by rw [hp]; exact ⟨rfl, rfl⟩)
      (by rw [hg]; exact ⟨rfl, rfl⟩) (by rw [hm]) (.inl hm) (.inl (by rw [hg]; exact ⟨rfl, rfl⟩)))
  | bounced hc _ _ hp hm hg hpay =>
    exact .inr (hv.keep hpay (by rw [Input.sparesBuyer, hc]) rfl (by rw [hp]; exact ⟨rfl, rfl⟩)
      (by rw [hg]; exact ⟨rfl, rfl⟩) (by rw [hm]) (.inl hm) (.inl (by rw [hg]; exact ⟨rfl, rfl⟩)))
  | matched _ _ _ ht => exact absurd ((hv.funded hs).symm.trans ht.1) (by decide)
  | sellerBonded _ _ hn => exact absurd (ho.symm.trans hn) (by decide)
  | buyerBonded _ _ hn => exact absurd (ho.symm.trans hn) (by decide)
  | opened _ _ hn => exact absurd (ho.symm.trans hn) (by decide)
  | accepted hc _ _ ha hp hm hg hpay =>
    have hprobe := hs.probe ho ha
    have hval := valueOf_tick hs.valid
    refine .inl ⟨⟨by rw [hg]; exact ho, ?_⟩, hpay.terms, ha, ?_⟩
    · unfold isSubscription
      rw [hm]
      exact hv.ordinary
    · rw [hp, hpay.buyer, buyerLoss_eq_zero (by rw [Input.sparesBuyer, hc]),
        buyerIn_of_call (by rw [hc])]
      unfold probeCharge
      rw [hpay.terms, hg, hval, if_pos rfl, if_neg (by simp [ha])]
      unfold Purse.ofBuyer
      dsimp only [Purse.acceptProbe]
      split_ifs <;> omega
  | claimed hc _ _ _ hlt hw _ _ hord hcap hp hm hg hpay =>
    obtain rfl := hord hv.ordinary
    exact .inr (hv.keep hpay (by rw [Input.sparesBuyer, hc]) (buyerIn_of_call (by rw [hc]))
      (by rw [hp]; exact ⟨rfl, rfl⟩) (by rw [hg]; exact ⟨rfl, rfl⟩) (by rw [hm]; rfl)
      (.inr (.inr (Nat.lt_of_lt_of_le hlt hcap))) (.inl (by rw [hg]; exact ⟨rfl, rfl⟩)))
  | promoted hc _ _ _ _ hp hm hg hpay =>
    exact .inr (hv.keep hpay (by rw [Input.sparesBuyer, hc]) (buyerIn_of_call (by rw [hc]))
      (by rw [hp]; exact ⟨rfl, rfl⟩) (by rw [hg]; exact ⟨rfl, rfl⟩) (by rw [hm])
      (.inr (.inl hm)) (.inl (by rw [hg]; exact ⟨rfl, rfl⟩)))
  | crossed _ hsub => exact absurd (hsub.symm.trans hv.ordinary) (by decide)
  | disputed hc _ _ hp hm hg hpay =>
    exact .inr (hv.keep hpay (by rw [Input.sparesBuyer, hc]) (buyerIn_of_call (by rw [hc]))
      (by rw [hp]; exact ⟨rfl, rfl⟩) (by rw [hg]; exact ⟨rfl, rfl⟩) (by rw [hm]) (.inl hm)
      (.inr ⟨hc, by rw [hg]⟩))
  | cleaned _ _ hn => exact absurd (ho.symm.trans hn) (by decide)
  | withdrawn hc _ _ _ hp hm hg hpay =>
    exact .inr (hv.keep hpay (by rw [Input.sparesBuyer, hc]) (buyerIn_of_call (by rw [hc]))
      (by rw [hp]; exact ⟨rfl, rfl⟩) (by rw [hg]; exact ⟨rfl, rfl⟩) (by rw [hm]) (.inl hm)
      (.inl (by rw [hg]; exact ⟨rfl, rfl⟩)))
  | freed _ hn => exact absurd (ho.symm.trans hn) (by decide)
  | ended _ _ _ hx =>
    obtain ⟨_, _, _, hcl, -⟩ := hx.ends
    exact absurd (hl.symm.trans hcl.destroyed) (by decide)

theorem Effect.serving (hs : Sane s) (he : Effect s i u) (hv : Serving s)
    (hl : u.destroyed = false) : Serving u ∧ u.toTerms = s.toTerms ∧
      s.toPurse.ofBuyer + s.buyerIn i + s.probeCharge ≤
        u.toPurse.ofBuyer + u.credited .buyer + s.buyerLoss i + u.probeCharge := by
  rcases he.kept hs hv hl with hk | hk
  · exact ⟨hk.serving, hk.terms, hk.account⟩
  · refine ⟨hk.serving, hk.terms, ?_⟩
    rw [probeCharge_congr hk.terms hk.probe, hk.account]

theorem Effect.exit (he : Effect s i u) (ho : s.opened = true) (hlive : s.destroyed = false)
    (hu : u.destroyed = true) : s.buyerIn i = 0 ∧ ∃ pay taken r,
      Exit s u (s.buyerLoss i) (s.sellerLoss i) pay taken r ∧
      (s.isSubscription = false → ¬ s.lateClaim i → taken ≤
        if s.probeAccepted then s.valueOf (s.tokensPend - DEAL_TICK_SIZE) else s.pricePerTick) ∧
      (s.isSubscription = false → s.probeAccepted = true →
        (i.call = .resolveDisputeTimeout → s.tokensFinal = s.tokensPend) →
          taken = s.finalCharge i ∧ (i.prompt = true ∨ s.disputed = true)) := by
  cases he with
  | freed _ hn => exact absurd (ho.symm.trans hn) (by decide)
  | ended hin _ _ hx _ htaken hexact => exact ⟨hin, _, _, _, hx, htaken, hexact⟩
  | _ =>
    have hg : ∃ g, u.toStage = g ∧ g.destroyed = s.destroyed := by
      refine ⟨?_, ?_, ?_⟩
      rotate_left
      · assumption
      · rfl
    obtain ⟨g, hg, hd⟩ := hg
    rw [hg, hd, hlive] at hu
    cases hu

theorem Effect.serving_ended (hs : Sane s) (he : Effect s i u) (hv : Serving s)
    (hnl : ¬ s.lateClaim i) (hu : u.destroyed = true) (hlive : s.destroyed = false) :
    s.toPurse.ofBuyer + s.buyerIn i + s.probeCharge ≤
      u.toPurse.ofBuyer + u.credited .buyer + s.buyerLoss i +
        s.valueOf (max DEAL_TICK_SIZE s.tokensPend) := by
  obtain ⟨hin, pay, taken, r, hx, htaken, -⟩ := he.exit hv.opened hlive hu
  obtain ⟨b, x, w, hcl, hb, -⟩ := hx.ends
  have hcredit := hcl.moved.buyer
  rw [credited_begin, Nat.zero_add] at hcredit
  have hle := htaken hv.ordinary hnl
  have hpeak : s.probeCharge + taken ≤ s.valueOf (max DEAL_TICK_SIZE s.tokensPend) := by
    unfold probeCharge
    split_ifs at hle ⊢ with ha
    · have h1 := (hs.ordinary hv.ordinary).2 ha
      have h2 := hs.funds
      have h3 := hs.valid.tick_le
      have h4 : s.valueOf DEAL_TICK_SIZE + s.valueOf (s.tokensPend - DEAL_TICK_SIZE) ≤
          s.valueOf (max DEAL_TICK_SIZE s.tokensPend) := by
        apply Terms.valueOf_add_le hs.valid
        · have := (hs.accepted ha).2.2
          omega
        · omega
      omega
    · have h1 := (hs.unaccepted (by simpa using ha)).2.2.2.2.1
      have h2 := valueOf_tick hs.valid
      rw [h1, Nat.max_eq_left (Nat.zero_le _)]
      omega
  omega

theorem Sane.pend_le (hs : Sane s) (hord : s.isSubscription = false) :
    s.tokensPend ≤ s.maxTicks * DEAL_TICK_SIZE := by
  cases ha : s.probeAccepted with
  | false =>
    rw [(hs.unaccepted ha).2.2.2.2.1]
    exact Nat.zero_le _
  | true => exact ((hs.ordinary hord).2 ha).trans hs.funds

theorem probeCharge_le (hv : s.toTerms.Valid) {n : ℕ} (hn : n ≤ s.maxTicks * DEAL_TICK_SIZE) :
    s.probeCharge ≤ s.valueOf (max DEAL_TICK_SIZE n) := by
  unfold probeCharge
  split_ifs
  · exact Terms.valueOf_mono hv (Nat.le_max_left _ _) (max_le hv.tick_le hn)
  · exact Nat.zero_le _

/-- Holdings of the buyer and what has come back to him, against what he gave. -/
theorem serving_account {tr : List (Input × TokenContract)} {s₁ : TokenContract}
    (hs : Sane s₁) (hv : Serving s₁) (ha : s₁.probeAccepted = false) (h : Run step s₁ tr u)
    (hok : Run.Each (fun s i _ => ¬ s.lateClaim i) s₁ tr) :
    buyerGave s₁ tr ≤ buyerGot s₁ tr + u.toPurse.ofBuyer +
      s₁.valueOf (max DEAL_TICK_SIZE (peakClaim s₁ tr)) := by
  have hinv := h.invariant_each (fun tr u =>
    peakClaim s₁ tr ≤ s₁.maxTicks * DEAL_TICK_SIZE ∧
    (u.destroyed = false → Sane u ∧ Serving u ∧ u.toTerms = s₁.toTerms ∧
      buyerGave s₁ tr ≤ buyerGot s₁ tr + u.toPurse.ofBuyer + u.probeCharge) ∧
    buyerGave s₁ tr ≤ buyerGot s₁ tr + u.toPurse.ofBuyer +
      s₁.valueOf (max DEAL_TICK_SIZE (peakClaim s₁ tr))) ?_ ?_ hok
  · exact hinv.2.2
  · have h0 : s₁.probeCharge = 0 := by
      unfold probeCharge
      rw [if_neg (by simp [ha])]
    refine ⟨Nat.zero_le _, fun _ => ⟨hs, hv, rfl, ?_⟩, ?_⟩
    · rw [h0]
      simp [buyerGave, buyerGot, Run.total, Run.ghost]
    · simp [buyerGave, buyerGot, Run.total, Run.ghost]
  · intro tr s i u hr hprev hnl hi
    obtain ⟨hpk, hI, -⟩ := hprev
    have hl := step_live hi
    obtain ⟨hss, hsv, hst, hacc⟩ := hI hl
    have he := (step_effect hss hi).2
    have hgave := buyerGave_concat (i := i) (v := u) hr
    have hgot := buyerGot_concat (i := i) (v := u) hr
    have hpeak : peakClaim s₁ (tr ++ [(i, u)]) = max (peakClaim s₁ tr) s.tokensPend := by
      unfold peakClaim
      rw [Run.ghost_concat, hr.last_eq]
    have hpend := hss.pend_le hsv.ordinary
    rw [hst] at hpend
    have hbound : max (peakClaim s₁ tr) s.tokensPend ≤ s₁.maxTicks * DEAL_TICK_SIZE :=
      max_le hpk hpend
    have htop : max DEAL_TICK_SIZE (max (peakClaim s₁ tr) s.tokensPend) ≤
        s₁.maxTicks * DEAL_TICK_SIZE := max_le hs.valid.tick_le hbound
    rw [hgave, hgot, hpeak]
    cases hu : u.destroyed with
    | false =>
      obtain ⟨huv, hut, hstep⟩ := he.serving hss hsv hu
      have hpc := probeCharge_le (s := u) (by rw [hut]; exact hss.valid)
        (n := max (peakClaim s₁ tr) s.tokensPend) (by rw [hut, hst]; exact hbound)
      rw [hut, hst] at hpc
      refine ⟨hbound, fun _ => ⟨step_sane hss hi hu, huv, hut.trans hst, by omega⟩, by omega⟩
    | true =>
      have hstep := he.serving_ended hss hsv hnl hu hl
      have hmono : s.valueOf (max DEAL_TICK_SIZE s.tokensPend) ≤
          s₁.valueOf (max DEAL_TICK_SIZE (max (peakClaim s₁ tr) s.tokensPend)) := by
        rw [hst]
        apply Terms.valueOf_mono hs.valid
        · omega
        · exact htop
      exact ⟨hbound, fun h => absurd h (by decide), by omega⟩

end TokenContract

end Dexdo
