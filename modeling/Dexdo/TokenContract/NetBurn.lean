import Dexdo.TokenContract.Clamps

namespace Dexdo

namespace Terms

variable {t : Terms} {m n : ℕ}

theorem payFeeOf_add (hv : t.Valid) (hp : PRICE_STEP ∣ t.pricePerTick)
    (h : m + n ≤ t.maxTicks * DEAL_TICK_SIZE) :
    t.payFeeOf m + t.payFeeOf n = t.payFeeOf (m + n) := by
  rw [payFeeOf_exact hv hp h, payFeeOf_exact hv hp (by omega), payFeeOf_exact hv hp (by omega)]
  ring

theorem payFeeOf_tick (hv : t.Valid) : t.payFeeOf DEAL_TICK_SIZE = feeOf t.pricePerTick := by
  unfold payFeeOf
  rw [payOf_tick hv]

theorem rebate_le (t : Terms) (n : ℕ) :
    t.rebate n ≤ REBATE_MAX_BPS * n * t.pricePerTick / BPS_DENOMINATOR := by
  unfold rebate
  dsimp only
  refine (toUint128_le _).trans ?_
  apply Nat.div_le_div_right
  apply Nat.mul_le_mul_right
  apply Nat.mul_le_mul_right
  split_ifs with h
  · exact Nat.le_refl _
  · exact Nat.le_of_not_lt h

theorem rebate_lt (hv : t.Valid) (hp : PRICE_STEP ∣ t.pricePerTick) (hn : 0 < n)
    (hm : n * DEAL_TICK_SIZE ≤ m) (hmax : m ≤ t.maxTicks * DEAL_TICK_SIZE) :
    t.rebate n < t.payFeeOf m := by
  have hk := price_steps hp
  have hpos : 0 < t.pricePerTick / PRICE_STEP := by
    apply Nat.div_pos _ (by decide)
    exact Nat.le_of_dvd hv.1 hp
  have hle := t.rebate_le n
  rw [payFeeOf_exact hv hp hmax]
  generalize t.pricePerTick / PRICE_STEP = k at hk hpos ⊢
  have hreb : REBATE_MAX_BPS * n * t.pricePerTick / BPS_DENOMINATOR = n * k * 20000000 := by
    rw [hk]
    apply Nat.div_eq_of_eq_mul_right (by decide)
    simp only [REBATE_MAX_BPS, PRICE_STEP, BPS_DENOMINATOR]
    ring
  have hfee : n * k * 25000000 ≤ m * k * 25 := by
    calc n * k * 25000000 = n * DEAL_TICK_SIZE * k * 25 := by
          simp only [DEAL_TICK_SIZE]
          ring
      _ ≤ m * k * 25 := by
          apply Nat.mul_le_mul_right
          exact Nat.mul_le_mul_right _ hm
  have hnk : 0 < n * k := Nat.mul_pos hn hpos
  omega

end Terms

namespace TokenContract

variable {s u v w : TokenContract} {i : Input} {fees : TokenContract → Bool → Option TokenContract}
  {e τ : ℕ} {tr : List (Input × TokenContract)}

/-- Escrow and fees of an accepted deal in step with the tokens paid for. -/
structure AtPar (s : TokenContract) : Prop where
  valid : s.toTerms.Valid
  step : PRICE_STEP ∣ s.pricePerTick
  funds : s.fundedTokens ≤ s.maxTicks * DEAL_TICK_SIZE
  probe : DEAL_TICK_SIZE ≤ s.tokensPaid
  paid : s.tokensPaid ≤ s.fundedTokens
  escrow : s.deposit + s.valueOf s.tokensPaid = s.valueOf s.fundedTokens
  fee : s.feeAccrued = s.payFeeOf s.tokensPaid

theorem AtPar.chargeWeek (h : AtPar s) (hpace : Paced s) (hq : DEAL_TICK_SIZE ≤ s.tokensPerWeek)
    (hn : (s.weekIndex + 1) * s.tokensPerWeek ≤ s.fundedTokens) :
    Unclamped.chargeWeek s = some s.chargeWeek ∧ AtPar s.chargeWeek := by
  obtain ⟨hdue, hsum, hcover⟩ :=
    weekDue_covered h.valid h.step hpace hq h.funds hn h.escrow
  obtain ⟨hdep, hfee⟩ := Purse.charge_covered (p := s.toPurse) hcover
  have htick : DEAL_TICK_SIZE ≤ (s.weekIndex + 1) * s.tokensPerWeek := by
    rw [Nat.succ_mul]
    omega
  constructor
  · unfold Unclamped.chargeWeek
    rw [Purse.chargeFully_eq hcover]
    rfl
  · refine ⟨h.valid, h.step, h.funds, htick, hn, ?_, ?_⟩
    · change s.chargeWeek.deposit + s.valueOf ((s.weekIndex + 1) * s.tokensPerWeek) =
        s.valueOf s.fundedTokens
      have hdep' : s.chargeWeek.deposit + s.valueOf s.weekDue = s.deposit := hdep
      have hx := h.escrow
      omega
    · change (s.toPurse.charge (s.payOf s.weekDue) (s.payFeeOf s.weekDue)).feeAccrued =
        s.payFeeOf ((s.weekIndex + 1) * s.tokensPerWeek)
      rw [hfee, h.fee, Nat.add_comm, ← hdue]
      apply Terms.payFeeOf_add h.valid h.step
      rw [hdue]
      exact hn.trans h.funds

theorem AtPar.chargeWeeks (n : ℕ) (h : AtPar s) (hpace : Paced s)
    (hq : DEAL_TICK_SIZE ≤ s.tokensPerWeek)
    (hn : (s.weekIndex + n) * s.tokensPerWeek ≤ s.fundedTokens) :
    Unclamped.chargeWeeks n s = some (chargeWeeks n s) ∧ AtPar (chargeWeeks n s) := by
  induction n generalizing s with
  | zero => exact ⟨rfl, h⟩
  | succ n ih =>
    have hnext : (s.weekIndex + 1) * s.tokensPerWeek ≤ s.fundedTokens :=
      le_trans (Nat.mul_le_mul_right _ (by omega)) hn
    obtain ⟨h1, h2⟩ := h.chargeWeek hpace hq hnext
    have hrest : (s.chargeWeek.weekIndex + n) * s.chargeWeek.tokensPerWeek ≤
        s.chargeWeek.fundedTokens := by
      change (s.weekIndex + 1 + n) * s.tokensPerWeek ≤ s.fundedTokens
      rwa [Nat.add_assoc, Nat.add_comm 1 n]
    obtain ⟨h3, h4⟩ := ih h2 (.chargeWeek s) hq hrest
    refine ⟨?_, h4⟩
    rw [Unclamped.chargeWeeks, h1]
    exact h3

/-- What a live deal has levied: the fee on the paid tokens; its claims stay within the weeks
begun, and a dispute is never taken back. -/
structure Levied (s : TokenContract) : Prop where
  fee : s.probeAccepted = true → s.feeAccrued = s.payFeeOf s.tokensPaid
  base : s.isSubscription = true → s.probeAccepted = true →
    s.weekBaseTokens ≤ s.weekIndex * s.tokensPerWeek
  disputed : s.everDisputed = true → s.disputed = true

/-- Everything the settlement of a live deal rests on. -/
structure Settleable (s : TokenContract) : Prop where
  sane : Sane s
  covered : Covered s
  escrowed : Escrowed s
  levied : Levied s
  step : PRICE_STEP ∣ s.pricePerTick

theorem Settleable.tokensPaid (h : Settleable s) (ha : s.probeAccepted = true) :
    DEAL_TICK_SIZE ≤ s.tokensPaid ∧ s.tokensPaid ≤ s.fundedTokens := by
  have hpace := (h.sane.accepted ha).2.1
  have hopen := h.sane.opened_of_accepted ha
  rcases Nat.eq_zero_or_pos s.weekIndex with h0 | h0
  · rw [hpace.first h0]
    exact ⟨Nat.le_refl _, h.sane.size (h.sane.funded_of_opened hopen)⟩
  · rw [hpace.later h0]
    have hsub : s.isSubscription = true := by
      by_contra hn
      have := (h.sane.ordinary (by simpa using hn)).1
      omega
    obtain ⟨h1, h2⟩ := h.covered.bonded.term hsub
    have hw := (h.covered.counted ha).weeks
    have hq := h.escrowed.term hsub
    refine ⟨hq.trans (Nat.le_mul_of_pos_left _ h0), ?_⟩
    rw [← h2, Nat.mul_comm]
    apply Nat.mul_le_mul_left
    rwa [← h1]

/-- Fields of a deal on its way to a settlement that the charges read. -/
structure Underway (s v : TokenContract) : Prop where
  terms : v.toTerms = s.toTerms
  deposit : v.deposit = s.deposit
  feeAccrued : v.feeAccrued = s.feeAccrued
  meter : ∃ x y, v.toMeter = { s.toMeter with tokensFinal := x, tokensPend := y }
  accepted : v.probeAccepted = s.probeAccepted

theorem Settleable.atPar (h : Settleable s) (hv : Underway s v) (ha : s.probeAccepted = true) :
    AtPar v := by
  obtain ⟨x, y, hm⟩ := hv.meter
  obtain ⟨h1, h2⟩ := h.tokensPaid ha
  have hpaid : v.tokensPaid = s.tokensPaid := by rw [hm]
  have hfund : v.fundedTokens = s.fundedTokens := by rw [hm]
  constructor
  · rw [hv.terms]
    exact h.sane.valid
  · rw [hv.terms]
    exact h.step
  · rw [hv.terms, hfund]
    exact h.sane.funds
  · rwa [hpaid]
  · rwa [hpaid, hfund]
  · rw [hv.terms, hv.deposit, hpaid, hfund]
    exact h.escrowed.accepted ha
  · rw [hv.terms, hv.feeAccrued, hpaid]
    exact h.levied.fee ha

theorem Underway.isSubscription (hv : Underway s v) : v.isSubscription = s.isSubscription := by
  obtain ⟨x, y, hm⟩ := hv.meter
  unfold TokenContract.isSubscription
  rw [hm]

/-- The week loop on the way to a settlement never meets its clamp. -/
theorem Settleable.weeks (h : Settleable s) (hv : Underway s v) (he : e ≤ s.subWeeks) :
    Unclamped.chargeWeeksThrough v e = some (v.chargeWeeksThrough e) ∧
      (s.probeAccepted = true → AtPar (v.chargeWeeksThrough e)) := by
  unfold Unclamped.chargeWeeksThrough chargeWeeksThrough
  split_ifs with hno
  · exact ⟨rfl, h.atPar hv⟩
  · obtain ⟨x, y, hm⟩ := hv.meter
    have hsub : s.isSubscription = true := by
      rw [← hv.isSubscription]
      by_contra hn
      exact hno (.inl hn)
    have ha : s.probeAccepted = true := by
      rw [← hv.accepted]
      by_contra hn
      exact hno (.inr hn)
    obtain ⟨h1, h2⟩ := h.covered.bonded.term hsub
    have hw := (h.covered.counted ha).weeks
    have hidx : v.weekIndex = s.weekIndex := by rw [hm]
    have hq : v.tokensPerWeek = s.tokensPerWeek := by rw [hm]
    have hfund : v.fundedTokens = s.fundedTokens := by rw [hm]
    obtain ⟨h3, h4⟩ := (h.atPar hv ha).chargeWeeks (e - v.weekIndex)
      ((h.sane.accepted ha).2.1.congr (by rw [hm]) (by rw [hm]) (by rw [hm]))
      (by rw [hq]; exact h.escrowed.term hsub)
      (by
        rw [hidx, hq, hfund, ← h2, Nat.mul_comm]
        apply Nat.mul_le_mul_left
        rw [← h1]
        omega)
    exact ⟨h3, fun _ => h4⟩

/-- Nothing is levied on an accepted deal whose escrow rests. -/
theorem Effect.fee_of_deposit (he : Effect s i u) (hs : Sane s) (ha : s.probeAccepted = true)
    (hl : u.destroyed = false) (hd : u.deposit = s.deposit) : u.feeAccrued = s.feeAccrued := by
  have ho := hs.opened_of_accepted ha
  have hpurse : u.toPurse = s.toPurse → u.feeAccrued = s.feeAccrued := congrArg Purse.feeAccrued
  have hweekly : ∀ {t : TokenContract} {k a b : ℕ}, Weekly s.begin t k a b →
      u.toPurse = t.toPurse → u.feeAccrued = s.feeAccrued := by
    intro t k a b hw hp
    have h1 : t.deposit + (a + b) = s.deposit := hw.charged.deposit
    have h2 : t.feeAccrued = s.feeAccrued + b := hw.charged.accrued
    have h3 : u.deposit = t.deposit := congrArg Purse.deposit hp
    have h4 : u.feeAccrued = t.feeAccrued := congrArg Purse.feeAccrued hp
    omega
  cases he with
  | quiet _ _ _ hp => exact hpurse hp
  | bounced _ _ _ hp => exact hpurse hp
  | disputed _ _ _ hp => exact hpurse hp
  | promoted _ _ _ _ _ hp => exact hpurse hp
  | withdrawn _ _ _ _ hp => rw [hp]
  | claimed _ _ _ _ _ hw _ _ _ _ hp => exact hweekly hw hp
  | crossed _ _ _ _ hw _ _ hp => exact hweekly hw hp
  | matched _ _ _ ht => exact absurd ((hs.funded_of_opened ho).symm.trans ht.1) (by decide)
  | sellerBonded _ _ ho' => exact absurd (ho.symm.trans ho') (by decide)
  | buyerBonded _ _ ho' => exact absurd (ho.symm.trans ho') (by decide)
  | opened _ _ ho' => exact absurd (ho.symm.trans ho') (by decide)
  | accepted _ _ _ ha' => exact absurd (ha.symm.trans ha') (by decide)
  | cleaned _ _ ho' => exact absurd (ho.symm.trans ho') (by decide)
  | freed _ ho' => exact absurd (ho.symm.trans ho') (by decide)
  | ended _ _ _ hx =>
    obtain ⟨_, _, _, hcl, -⟩ := hx.ends
    exact absurd (hl.symm.trans hcl.destroyed) (by decide)

theorem Effect.keeps_dispute (he : Effect s i u) (hl : u.destroyed = false)
    (hd : s.everDisputed = true → s.disputed = true) : u.everDisputed = true → u.disputed = true := by
  have hkeep : u.everDisputed = s.everDisputed → u.disputed = s.disputed →
      u.everDisputed = true → u.disputed = true :=
    fun h1 h2 h => h2.trans (hd (h1.symm.trans h))
  cases he with
  | disputed _ _ _ _ _ hg =>
    rw [hg]
    exact fun _ => rfl
  | quiet _ _ _ _ _ hg => exact hkeep (by rw [hg]) (by rw [hg])
  | bounced _ _ _ _ _ hg => exact hkeep (by rw [hg]) (by rw [hg])
  | matched _ _ _ _ _ _ hg => exact hkeep (by rw [hg]) (by rw [hg])
  | sellerBonded _ _ _ _ _ _ _ hg => exact hkeep (by rw [hg]) (by rw [hg])
  | buyerBonded _ _ _ _ _ _ _ hg => exact hkeep (by rw [hg]) (by rw [hg])
  | opened _ _ _ _ _ _ _ _ hg => exact hkeep (by rw [hg]) (by rw [hg])
  | accepted _ _ _ _ _ _ hg => exact hkeep (by rw [hg]) (by rw [hg])
  | claimed _ _ _ _ _ _ _ _ _ _ _ _ hg => exact hkeep (by rw [hg]) (by rw [hg])
  | promoted _ _ _ _ _ _ _ hg => exact hkeep (by rw [hg]) (by rw [hg])
  | crossed _ _ _ _ _ _ _ _ _ hg => exact hkeep (by rw [hg]) (by rw [hg])
  | cleaned _ _ _ _ _ _ hg => exact hkeep (by rw [hg]) (by rw [hg])
  | withdrawn _ _ _ _ _ _ hg => exact hkeep (by rw [hg]) (by rw [hg])
  | freed _ _ hcl => exact absurd (hl.symm.trans hcl.destroyed) (by decide)
  | ended _ _ _ hx =>
    obtain ⟨_, _, _, hcl, -⟩ := hx.ends
    exact absurd (hl.symm.trans hcl.destroyed) (by decide)

theorem Settleable.claims_le (h : Settleable s) (hsub : s.isSubscription = true)
    (ha : s.probeAccepted = true) : s.tokensPend ≤ (s.weekIndex + 1) * s.tokensPerWeek := by
  have hquota := (h.covered.counted ha).quota hsub
  have hbase := h.levied.base hsub ha
  have hq := h.escrowed.term hsub
  rw [Nat.succ_mul]
  omega

theorem Settleable.base_crossed (h : Settleable s) (hsub : s.isSubscription = true)
    (ha : s.probeAccepted = true) (due : ℕ) :
    (s.toMeter.crossTo due).weekBaseTokens ≤
      (s.toMeter.crossTo due).weekIndex * s.tokensPerWeek := by
  rw [Meter.crossTo_weekBaseTokens h.sane.final_le, Meter.crossTo_weekIndex]
  split_ifs with hlt
  · refine (h.claims_le hsub ha).trans ?_
    apply Nat.mul_le_mul_right
    omega
  · rw [Nat.max_eq_left (Nat.le_of_not_lt hlt)]
    exact h.levied.base hsub ha

theorem Underway.begin (s : TokenContract) : Underway s s.begin :=
  ⟨rfl, rfl, rfl, ⟨s.tokensFinal, s.tokensPend, rfl⟩, rfl⟩

/-- On an accepted deal fees and claims stay in step with the weeks. -/
theorem Metered.levied (hm : Metered s i u) (he : Effect s i u) (h : Settleable s)
    (ha : s.probeAccepted = true) (hl : u.destroyed = false) :
    u.feeAccrued = u.payFeeOf u.tokensPaid ∧ (u.isSubscription = true →
      u.weekBaseTokens ≤ u.weekIndex * u.tokensPerWeek) := by
  have hterms := he.terms
  have hcharge : ∀ {due : ℕ}, s.weeksElapsedAt i.now = some due →
      u.toPurse = (s.begin.chargeWeeksThrough due).toPurse →
      u.tokensPaid = (s.toMeter.crossTo due).tokensPaid → u.feeAccrued = u.payFeeOf u.tokensPaid := by
    intro due hdue hp hpaid
    have hle : due ≤ s.subWeeks := (weeksElapsedAt_le hdue).2 ▸ Nat.min_le_right _ _
    have hpar := (h.weeks (.begin s) hle).2 ha
    have hpaid' : (s.begin.chargeWeeksThrough due).tokensPaid =
        (s.toMeter.crossTo due).tokensPaid := by
      cases hsub : s.isSubscription with
      | true => rw [chargeWeeksThrough_meter (s := s.begin) hsub ha]; rfl
      | false =>
        have h0 : s.subWeeks = 0 := by simpa [TokenContract.isSubscription] using hsub
        rw [chargeWeeksThrough_ordinary (s := s.begin) hsub,
          Meter.crossTo_of_le (by omega : due ≤ s.toMeter.weekIndex)]
        rfl
    have hsame : (s.begin.chargeWeeksThrough due).toTerms = s.toTerms := by
      obtain ⟨n, a, b, hw⟩ := s.begin.chargeWeeksThrough_weekly due
      exact hw.moved.terms
    rw [hp, hpaid, hterms, ← hpaid', hpar.fee, hsame]
  cases hm with
  | kept hm hp =>
    rw [he.fee_of_deposit h.sane ha hl hp, hm, hterms]
    refine ⟨h.levied.fee ha, fun hsub => h.levied.base ?_ ha⟩
    unfold TokenContract.isSubscription at hsub ⊢
    rwa [hm] at hsub
  | @claimed n due _ _ _ hdue _ hm hp =>
    obtain ⟨d, hd⟩ := s.toMeter.settleTo_eq due true
    rw [hd] at hm
    refine ⟨hcharge hdue hp (by rw [hm]; rfl), fun hsub => ?_⟩
    have hsub' : s.isSubscription = true := by
      unfold TokenContract.isSubscription at hsub ⊢
      rw [hm] at hsub
      change decide ((s.toMeter.crossTo due).subWeeks ≠ 0) = true at hsub
      rwa [Meter.crossTo_subWeeks] at hsub
    rw [hm]
    change (s.toMeter.crossTo due).weekBaseTokens ≤
      (s.toMeter.crossTo due).weekIndex * (s.toMeter.crossTo due).tokensPerWeek
    rw [Meter.crossTo_tokensPerWeek]
    exact h.base_crossed hsub' ha due
  | promoted _ _ _ _ hm hp =>
    rw [hp, hm, hterms]
    refine ⟨h.levied.fee ha, fun hsub => h.levied.base ?_ ha⟩
    unfold TokenContract.isSubscription at hsub ⊢
    rwa [hm] at hsub
  | @crossed due _ hsub _ hdue hm hp =>
    obtain ⟨d, hd⟩ := s.toMeter.settleTo_eq due true
    rw [hd] at hm
    refine ⟨hcharge hdue hp (by rw [hm]), fun _ => ?_⟩
    rw [hm]
    change (s.toMeter.crossTo due).weekBaseTokens ≤
      (s.toMeter.crossTo due).weekIndex * (s.toMeter.crossTo due).tokensPerWeek
    rw [Meter.crossTo_tokensPerWeek]
    exact h.base_crossed hsub ha due

theorem step_levied (h : Settleable s) (hi : s.step i = some u) (hl : u.destroyed = false) :
    Levied u := by
  have he := (step_effect h.sane hi).2
  have hdisp := he.keeps_dispute hl h.levied.disputed
  cases ha : s.probeAccepted with
  | true =>
    obtain ⟨h1, h2⟩ := (step_metered h.sane ha hi hl).levied he h ha hl
    exact ⟨fun _ => h1, fun hsub _ => h2 hsub, hdisp⟩
  | false =>
    have hstart : u.probeAccepted = true → u.feeAccrued = u.payFeeOf u.tokensPaid ∧
        u.weekBaseTokens = 0 := by
      intro hu
      obtain ⟨hm, ho, -, hp, -⟩ := he.accepts ha hu hl
      have hfee : s.feeAccrued = 0 := (h.sane.unaccepted ha).2.1
      have hpar := h.escrowed.opened ho ha
      have hval : s.valueOf DEAL_TICK_SIZE ≤ s.valueOf s.fundedTokens :=
        Terms.valueOf_mono h.sane.valid (h.sane.size (h.sane.funded_of_opened ho)) h.sane.funds
      have htick := Terms.valueOf_tick h.sane.valid h.step
      have hunit : s.unit = s.pricePerTick + feeOf s.pricePerTick := rfl
      rw [hm, hp, he.terms]
      refine ⟨?_, rfl⟩
      change s.feeAccrued + (if s.deposit < feeOf s.pricePerTick then s.deposit
        else feeOf s.pricePerTick) = s.payFeeOf DEAL_TICK_SIZE
      rw [if_neg (by omega), hfee, Nat.zero_add, Terms.payFeeOf_tick h.sane.valid]
    refine ⟨fun hu => (hstart hu).1, fun _ hu => ?_, hdisp⟩
    rw [(hstart hu).2]
    exact Nat.zero_le _

theorem run_settleable {t : Terms} (ht : t.Valid) (hstep : PRICE_STEP ∣ t.pricePerTick)
    (h : Run step (init t) tr u)
    (hpay : Run.Each (fun s i _ => s.PaysWhole i) (init t) tr) (hl : u.destroyed = false) :
    Settleable u := by
  refine h.invariant_each (fun _ u => u.destroyed = false → Settleable u) ?_ ?_ hpay hl
  · intro _
    refine ⟨init_sane ht, init_covered t, ?_, ?_, hstep⟩
    · exact run_escrowed ht hstep .nil trivial rfl
    · constructor
      · exact fun h => by cases h
      · exact fun _ h => by cases h
      · exact fun h => by cases h
  · intro tr s i u _ hI hp hi hu
    have hs := hI (step_live hi)
    have hterms := (step_effect hs.sane hi).2.terms
    refine ⟨step_sane hs.sane hi hu, step_covered hs.sane hs.covered hi hu,
      step_escrowed hs.sane hs.covered hs.escrowed hs.step hp hi hu, step_levied hs hi hu, ?_⟩
    rw [hterms]
    exact hs.step

end TokenContract

end Dexdo
