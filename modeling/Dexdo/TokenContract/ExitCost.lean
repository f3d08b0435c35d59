import Dexdo.InferenceBook.Reach
import Dexdo.TokenContract.Escrow

namespace Dexdo

namespace TokenContract

section Book

variable {s : TokenContract} {b : InferenceOrderBook} {f : InferenceOrderBook.Fill}

theorem subscription_iff (flags : UInt8) : flags.toNat &&& FLAG_SUBSCRIPTION ≠ 0 ↔
    InferenceOrderBook.has flags InferenceOrderBook.FLAG_SUBSCRIPTION = true := by
  rw [InferenceOrderBook.has, bne_iff_ne, ne_eq, ne_eq, ← UInt8.toNat_inj, UInt8.toNat_and]
  rfl

/-- `PaysWhole` is what the book sends: a deal posts its ask at its own price, and a match settled
at that price pays for whole ticks, and on a subscription for whole weeks of them. -/
theorem fill_paysWhole (hv : s.toTerms.Valid) {modelHash : ℕ}
    {tr : List (InferenceOrderBook.Input × InferenceOrderBook)}
    (h : Run InferenceOrderBook.step (.init modelHash) tr b) (hf : f ∈ b.fills)
    (hp : f.clearing = s.pricePerTick) (caller : Caller) (now : ℕ) (buyer : Addr) (pubkey : ℕ) :
    s.PaysWhole ⟨caller, now, .fundFromOrderBook f.debit buyer pubkey f.dealFlags.toNat⟩ := by
  have hx := (InferenceOrderBook.run_ready h).clean.fills f hf
  have hunit : s.unit = InferenceOrderBook.unit f.clearing := by
    rw [hp, Terms.unit, feeOf_eq hv.price_lt]
    rfl
  have hbond : s.matchBond f.dealFlags.toNat =
      InferenceOrderBook.bondAt f.dealFlags f.clearing := by
    unfold matchBond InferenceOrderBook.bondAt
    rw [hp]
    exact if_congr (subscription_iff _) rfl rfl
  have hpaid : f.debit - s.matchBond f.dealFlags.toNat = f.trade * s.unit := by
    rw [hx.debit, hbond, hunit, Nat.add_sub_cancel]
  intro _
  rw [hpaid]
  refine ⟨Nat.dvd_mul_left .., fun hs => ?_⟩
  exact Nat.mul_dvd_mul_right (hx.weeks ((subscription_iff _).mp hs)) _

end Book

variable {s t u v : TokenContract} {i : Input} {τ e g : ℕ} {tr : List (Input × TokenContract)}

theorem weeksStartedAt_le {m : Meter} (h : m.weeksStartedAt τ = some g) :
    ∃ e, m.weeksElapsedAt τ = some e ∧ e ≤ m.subWeeks ∧ g = min (e + 1) m.subWeeks := by
  obtain ⟨e, he, h⟩ := of_bind h
  have hle : e ≤ m.subWeeks := (weeksElapsedAt_le he).2 ▸ Nat.min_le_right _ _
  refine ⟨e, he, hle, ?_⟩
  cases h
  split_ifs <;> omega

theorem Clocked.weekIndex_le (hk : Clocked τ s) (hc : Counted s) (ha : s.probeAccepted = true)
    (he : s.weeksElapsedAt τ = some e) : s.weekIndex ≤ e := by
  have h1 := hk.weeks ha
  obtain ⟨h2, h3⟩ := weeksElapsedAt_le he
  have h4 : s.weekIndex ≤ (τ - s.periodStart) / SUB_WEEK_LEN := by
    rw [Nat.le_div_iff_mul_le (by decide)]
    omega
  rw [h3]
  exact Nat.le_min.mpr ⟨h4, hc.weeks⟩

theorem crossTo_tokensPaid (hp : Paced s) (hn : 0 < n) (hle : s.weekIndex ≤ n) :
    (s.toMeter.crossTo n).tokensPaid = n * s.tokensPerWeek := by
  unfold Meter.crossTo
  split_ifs with h
  · rfl
  · rw [hp.later (by omega), show s.weekIndex = n by omega]

/-- A stop of a subscription returns the escrow of the weeks not begun, and the bond. -/
theorem stop_refund {caller : Caller} (hs : Sane s) (hc : Covered s) (hx : Escrowed s)
    (hstep : PRICE_STEP ∣ s.pricePerTick) (hk : Clocked τ s) (ha : s.probeAccepted = true)
    (hsub : s.isSubscription = true) (h : s.begin.stop caller τ = some u) :
    ∃ g, s.weeksStartedAt τ = some g ∧ u.credited .buyer =
      s.valueOf ((s.subWeeks - g) * s.tokensPerWeek) + s.bondAmount := by
  simp only [stop, bind_iff] at h
  obtain ⟨ho, -, -, h⟩ := h
  have ha' : ¬ s.begin.probeAccepted = false := by
    rw [show s.begin.probeAccepted = true from ha]
    decide
  rw [if_neg ha'] at h
  obtain ⟨x, hx'⟩ := s.toMeter.promoteDue_eq τ
  have hsub' : (s.begin.setMeter (s.toMeter.promoteDue τ)).isSubscription = true := by
    unfold isSubscription
    rw [setMeter_toMeter, hx']
    exact hsub
  rw [begin_toMeter, if_pos hsub', Option.bind_some] at h
  obtain ⟨g, hg, h⟩ := of_bind h
  have hstarted : s.weeksStartedAt τ = some g := by
    rw [← hg, setMeter_toMeter, hx']
    rfl
  obtain ⟨e, he, hle, hge⟩ := weeksStartedAt_le hstarted
  have hweek := hk.weekIndex_le (hc.counted ha) ha he
  have hterm := hc.bonded.term hsub
  have hfour : s.subWeeks = 4 := hterm.1
  have hmeter : ((s.begin.setMeter (s.toMeter.promoteDue τ)).chargeWeeksThrough g).toMeter =
      Meter.crossTo { s.toMeter with tokensFinal := x } g := by
    rw [chargeWeeksThrough_meter hsub' ha, setMeter_toMeter, hx']
  obtain ⟨n, a, b, hw⟩ :=
    (s.begin.setMeter (s.toMeter.promoteDue τ)).chargeWeeksThrough_weekly g
  have hdep := hx.charge (v := s.begin.setMeter (s.toMeter.promoteDue τ)) (x := x)
    (y := s.tokensPend) hs hc hstep ha rfl rfl hx' (e := g) (by omega)
  generalize hv : (s.begin.setMeter (s.toMeter.promoteDue τ)).chargeWeeksThrough g = v at *
  have hprobe : v.probeTick = 0 := hw.charged.probeTick.trans (hs.noProbe ha)
  obtain ⟨r, -, hcl, -⟩ := payFinalAndClose_closed (fun _ => hprobe) h
  have howed : v.finalOwed = 0 := by
    apply finalOwed_eq_zero
    unfold isSubscription
    rw [hmeter]
    simpa [isSubscription] using hsub
  have hfinal : v.finalPurse.ofBuyer = v.deposit + s.buyerBond := by
    have hb : v.buyerBond = s.buyerBond := hw.charged.buyerBond
    unfold finalPurse
    rw [howed, Terms.payOf_zero, Terms.payFeeOf_zero]
    simp [Purse.ofBuyer, Purse.charge, Purse.clampPay, hprobe, hb]
  refine ⟨g, hstarted, ?_⟩
  have hcredit : u.credited .buyer = v.credited .buyer + v.finalPurse.ofBuyer := hcl.moved.buyer
  have hzero : v.credited .buyer = 0 := hw.moved.buyer
  have hpaid : v.tokensPaid = g * s.tokensPerWeek := by
    have hp : Paced (s.begin.setMeter { s.toMeter with tokensFinal := x }) :=
      (hs.accepted ha).2.1.congr rfl rfl rfl
    rw [hmeter]
    exact crossTo_tokensPaid hp (by omega) (by change s.weekIndex ≤ g; omega)
  have hsum : s.valueOf ((s.subWeeks - g) * s.tokensPerWeek) + s.valueOf (g * s.tokensPerWeek) =
      s.valueOf s.fundedTokens := by
    have htotal : (s.subWeeks - g) * s.tokensPerWeek + g * s.tokensPerWeek = s.fundedTokens := by
      rw [← Nat.add_mul, Nat.sub_add_cancel (by omega), hterm.1, Nat.mul_comm]
      exact hterm.2
    rw [Terms.valueOf_add hs.valid hstep (htotal ▸ hs.funds), htotal]
  have hbond := (hc.bonds hs ho hsub).1
  rw [hcredit, hzero, hfinal, hbond]
  rw [hpaid] at hdep
  omega

theorem chargeWeeksThrough_of_le (h : e ≤ s.weekIndex) : s.chargeWeeksThrough e = s := by
  unfold chargeWeeksThrough
  rw [Nat.sub_eq_zero_of_le h]
  split_ifs <;> rfl

theorem trusted_room (hs : Sane s) (hc : Covered s) (hx : Escrowed s) (ha : s.probeAccepted = true)
    (hsub : s.isSubscription = true) (hweek : s.weekIndex ≤ s.disputeWeeks) :
    (s.toMeter.crossTo s.disputeWeeks).tokensPaid +
        (s.trustedTokens - s.weeksDisputed.claimBase) ≤
      (s.disputeWeeks + 1) * s.tokensPerWeek := by
  have hp := (hs.accepted ha).2.1
  have hq := hx.term hsub
  have htr := hs.trustedTokens_le
  have hquota := (hc.counted ha).quota hsub
  rw [weeksDisputed_claimBase hs ha hsub, Nat.succ_mul]
  split_ifs with hlt
  · rw [crossTo_tokensPaid hp (by omega) hweek, Nat.sub_eq_zero_of_le htr]
    omega
  · have heq : s.weekIndex = s.disputeWeeks := by omega
    have hne : s.subWeeks ≠ 0 := of_decide_eq_true hsub
    rcases Nat.eq_zero_or_pos s.weekIndex with h0 | h0
    · have hbase : s.claimBase = s.tokensPaid := if_neg (by omega)
      have hfirst := (hc.counted ha).first h0
      rw [Meter.crossTo_of_le heq.ge, hbase, hp.first h0]
      omega
    · have hbase : s.claimBase = s.weekBaseTokens := if_pos ⟨hne, h0⟩
      rw [crossTo_tokensPaid hp (by omega) hweek, hbase]
      omega

/-- A disputed subscription before the stakes are taken: what the claims prove beyond the charged
weeks has been paid out of its escrow. -/
theorem settledDispute_eq (hs : Sane s) (ha : s.probeAccepted = true)
    (hsub : s.isSubscription = true) :
    s.settledDispute.toTerms = s.toTerms ∧
      s.settledDispute.toStage = { s.toStage with disputed := false } ∧
      s.settledDispute.subWeeks = s.subWeeks ∧
      s.settledDispute.tokensPerWeek = s.tokensPerWeek ∧
      s.settledDispute.periodStart = s.periodStart ∧
      s.settledDispute.toPurse = s.weeksDisputed.toPurse.charge
        (s.payOf (s.trustedTokens - s.weeksDisputed.claimBase))
        (s.payFeeOf (s.trustedTokens - s.weeksDisputed.claimBase)) := by
  obtain ⟨n, a, b, hw, hp, hm, -⟩ := disputed_prepared hs (e := s.disputeWeeks)
  rw [← weeksDisputed_eq] at hw hp
  have hmeter : s.weeksDisputed.toMeter = s.toMeter.crossTo s.disputeWeeks :=
    chargeWeeksThrough_meter (s := s.begin) hsub ha s.disputeWeeks
  have hm' : s.weeksDisputed.endDispute.toMeter = { s.toMeter.crossTo s.disputeWeeks with
      tokensFinal := s.trustedTokens, tokensPend := s.trustedTokens } := by
    rw [← hmeter]
    exact hm
  have hacc : s.weeksDisputed.endDispute.probeAccepted = true := by
    rw [hp.stage]
    exact ha
  have hidx : s.disputeWeeks ≤ s.weeksDisputed.endDispute.weekIndex := by
    rw [hm']
    change s.disputeWeeks ≤ (s.toMeter.crossTo s.disputeWeeks).weekIndex
    rw [Meter.crossTo_weekIndex]
    exact Nat.le_max_right _ _
  -- the second charge of the weeks finds none left
  have hsame : s.weeksDisputed.endDispute.weeksCharged s.disputeWeeks =
      s.weeksDisputed.endDispute := by
    unfold weeksCharged
    rw [hacc]
    exact chargeWeeksThrough_of_le hidx
  have hfinal : s.weeksDisputed.endDispute.tokensFinal = s.trustedTokens := by rw [hm']
  have hbase : s.weeksDisputed.endDispute.claimBase = s.weeksDisputed.claimBase := by
    unfold Meter.claimBase
    rw [hm', hmeter]
  have hterms : s.weeksDisputed.endDispute.toTerms = s.toTerms := hp.moved.terms
  unfold settledDispute trustCharged
  rw [hsame]
  refine ⟨hterms, hp.stage, ?_, ?_, ?_, ?_⟩
  · rw [setMeter_toMeter]
    unfold Meter.recordDelivered
    rw [hm']
    exact Meter.crossTo_subWeeks _ _
  · rw [setMeter_toMeter]
    unfold Meter.recordDelivered
    rw [hm']
    exact Meter.crossTo_tokensPerWeek _ _
  · rw [setMeter_toMeter]
    unfold Meter.recordDelivered
    rw [hm']
    exact Meter.crossTo_periodStart _ _
  · change s.weeksDisputed.endDispute.trustedPurse s.disputeWeeks = _
    unfold trustedPurse
    rw [hsame]
    dsimp only
    rw [hfinal, hbase, hterms]
    rfl

theorem disputeRefund_started (hsub : s.isSubscription = true) (ha : s.probeAccepted = true)
    (hg : s.weeksStartedAt s.disputeTime = some g) : s.disputeRefund =
      some (min s.deposit (s.valueOf ((s.subWeeks - g) * s.tokensPerWeek))) := by
  unfold disputeRefund
  rw [if_pos ⟨hsub, ha⟩, hg]
  rfl

/-- Weeks charged, tokens proven and weeks not begun are paid for out of what was bought. -/
theorem trusted_cover (hs : Sane s) (hc : Covered s) (hx : Escrowed s)
    (hstep : PRICE_STEP ∣ s.pricePerTick) (ha : s.probeAccepted = true)
    (hsub : s.isSubscription = true) (hweek : s.weekIndex ≤ s.disputeWeeks)
    (hg : s.weeksStartedAt s.disputeTime = some g) :
    s.valueOf ((s.subWeeks - g) * s.tokensPerWeek) +
      s.valueOf (s.trustedTokens - s.weeksDisputed.claimBase) ≤ s.weeksDisputed.deposit ∨
    (s.subWeeks - g) * s.tokensPerWeek = 0 := by
  obtain ⟨e, he, hle, hge⟩ := weeksStartedAt_le hg
  have hdw := disputeWeeks_eq he
  have hterm := hc.bonded.term hsub
  have hfour : s.subWeeks = 4 := hterm.1
  rcases Nat.lt_or_ge e 4 with hlt | hge4
  · left
    have hroom := trusted_room hs hc hx ha hsub hweek
    have hdep := hx.charge (v := s.begin) (x := s.tokensFinal) (y := s.tokensPend) hs hc hstep ha
      rfl rfl rfl (e := s.disputeWeeks) (hdw ▸ hle)
    have hmeter : s.weeksDisputed.toMeter = s.toMeter.crossTo s.disputeWeeks :=
      chargeWeeksThrough_meter (s := s.begin) hsub ha s.disputeWeeks
    rw [← weeksDisputed_eq, hmeter, hdw] at hdep
    rw [hdw] at hroom
    have hg' : g = e + 1 := by omega
    have htotal : (s.subWeeks - g) * s.tokensPerWeek + (e + 1) * s.tokensPerWeek =
        s.fundedTokens := by
      rw [← Nat.add_mul, hg', Nat.sub_add_cancel (by omega), hterm.1, Nat.mul_comm]
      exact hterm.2
    have hfund := hs.funds
    have h1 := Terms.valueOf_add hs.valid hstep (a := (s.toMeter.crossTo e).tokensPaid)
      (b := s.trustedTokens - s.weeksDisputed.claimBase) (by omega)
    have h2 := Terms.valueOf_add hs.valid hstep (a := (s.subWeeks - g) * s.tokensPerWeek)
      (b := (s.toMeter.crossTo e).tokensPaid +
        (s.trustedTokens - s.weeksDisputed.claimBase)) (by omega)
    have h3 := Terms.valueOf_mono hs.valid (a := (s.subWeeks - g) * s.tokensPerWeek +
      ((s.toMeter.crossTo e).tokensPaid + (s.trustedTokens - s.weeksDisputed.claimBase)))
      (by omega) hfund
    omega
  · right
    rw [show s.subWeeks - g = 0 by omega, Nat.zero_mul]

/-- Both resolutions return the escrow of the weeks not begun when the dispute was raised. -/
theorem trustedRefund_eq (hs : Sane s) (hc : Covered s) (hx : Escrowed s)
    (hstep : PRICE_STEP ∣ s.pricePerTick) (ha : s.probeAccepted = true)
    (hsub : s.isSubscription = true) (hweek : s.weekIndex ≤ s.disputeWeeks)
    (hg : s.weeksStartedAt s.disputeTime = some g) :
    s.trustedRefund = s.valueOf ((s.subWeeks - g) * s.tokensPerWeek) := by
  obtain ⟨h1, h2, h3, h4, h5, h6⟩ := settledDispute_eq hs ha hsub
  obtain ⟨a, -, b, -, hch, hab⟩ := s.weeksDisputed.toPurse.charge_charged
    (s.payOf (s.trustedTokens - s.weeksDisputed.claimBase))
    (s.payFeeOf (s.trustedTokens - s.weeksDisputed.claimBase))
  have hpaid : a + b ≤ s.valueOf (s.trustedTokens - s.weeksDisputed.claimBase) :=
    hab ▸ Nat.min_le_left _ _
  have hafter : s.settledDispute.deposit + (a + b) = s.weeksDisputed.deposit := by
    rw [h6]
    exact hch.deposit
  have hsub' : s.settledDispute.isSubscription = true := by
    unfold isSubscription
    rw [h3]
    exact hsub
  have hstart : s.settledDispute.weeksStartedAt s.settledDispute.disputeTime = some g := by
    rw [h2, ← hg]
    unfold Meter.weeksStartedAt
    rw [weeksElapsedAt_congr h5 h3, h3]
  have hacc : s.settledDispute.probeAccepted = true := by
    rw [h2]
    exact ha
  unfold trustedRefund
  rw [disputeRefund_started hsub' hacc hstart, h1, h3, h4, Option.getD_some]
  apply Nat.min_eq_right
  rcases trusted_cover hs hc hx hstep ha hsub hweek hg with h | h
  · omega
  · rw [h]
    unfold Terms.valueOf
    rw [Terms.payOf_zero, Terms.payFeeOf_zero]
    exact Nat.zero_le _

/-- The deal `u` under a dispute that was open in `s`: nobody but the resolution touches its claims
and the buyer's money. -/
structure Frozen (s u : TokenContract) : Prop where
  terms : u.toTerms = s.toTerms
  meter : u.toMeter = s.toMeter
  deposit : u.deposit = s.deposit
  buyerBond : u.buyerBond = s.buyerBond
  disputed : u.disputed = true
  disputeTime : u.disputeTime = s.disputeTime
  accepted : u.probeAccepted = true

theorem Frozen.trans (h : Frozen s t) (h' : Frozen t u) : Frozen s u where
  terms := h'.terms.trans h.terms
  meter := h'.meter.trans h.meter
  deposit := h'.deposit.trans h.deposit
  buyerBond := h'.buyerBond.trans h.buyerBond
  disputed := h'.disputed
  disputeTime := h'.disputeTime.trans h.disputeTime
  accepted := h'.accepted

theorem Metered.frozen (hm : Metered s i u) (hd : s.disputed = true) :
    u.toMeter = s.toMeter ∧ u.deposit = s.deposit := by
  cases hm with
  | kept hm hp => exact ⟨hm, hp⟩
  | claimed _ hd' => exact absurd (hd.symm.trans hd') (by decide)
  | promoted _ hd' => exact absurd (hd.symm.trans hd') (by decide)
  | crossed _ _ hd' => exact absurd (hd.symm.trans hd') (by decide)

/-- The buyer's bond rests while a deal is disputed, and what comes in for him goes back out. -/
theorem Effect.frozen_money (he : Effect s i u) (hs : Sane s) (ha : s.probeAccepted = true)
    (hd : s.disputed = true) (hl : u.destroyed = false) :
    u.buyerBond = s.buyerBond ∧ u.credited .buyer = s.buyerIn i := by
  have ho := hs.opened_of_accepted ha
  cases he with
  | quiet _ hin _ hp _ _ hpay => exact ⟨by rw [hp], hpay.buyer.trans hin.symm⟩
  | bounced _ _ _ hp _ _ hpay => exact ⟨by rw [hp], hpay.buyer⟩
  | withdrawn hc _ _ _ hp _ _ hpay =>
    refine ⟨by rw [hp], hpay.buyer.trans ?_⟩
    unfold buyerIn
    rw [hc]
  | crossed hc _ _ _ hw _ _ hp _ _ hpay =>
    refine ⟨?_, hpay.buyer.trans ?_⟩
    · rw [hp]
      exact hw.charged.buyerBond
    · unfold buyerIn
      rw [hc]
  | matched _ _ _ ht => exact absurd ((hs.funded_of_opened ho).symm.trans ht.1) (by decide)
  | sellerBonded _ _ ho' => exact absurd (ho.symm.trans ho') (by decide)
  | buyerBonded _ _ ho' => exact absurd (ho.symm.trans ho') (by decide)
  | opened _ _ ho' => exact absurd (ho.symm.trans ho') (by decide)
  | accepted _ _ _ ha' => exact absurd (ha.symm.trans ha') (by decide)
  | claimed _ _ hd' => exact absurd (hd.symm.trans hd') (by decide)
  | promoted _ _ hd' => exact absurd (hd.symm.trans hd') (by decide)
  | disputed _ _ hd' => exact absurd (hd.symm.trans hd') (by decide)
  | cleaned _ _ ho' => exact absurd (ho.symm.trans ho') (by decide)
  | freed _ _ hcl => exact absurd (hl.symm.trans hcl.destroyed) (by decide)
  | ended _ _ _ hx =>
    obtain ⟨_, _, _, hcl, -⟩ := hx.ends
    exact absurd (hl.symm.trans hcl.destroyed) (by decide)

theorem step_frozen (hs : Sane s) (ha : s.probeAccepted = true) (hd : s.disputed = true)
    (h : s.step i = some u) (hl : u.destroyed = false) :
    Frozen s u ∧ u.credited .buyer = s.buyerIn i := by
  have he := (step_effect hs h).2
  obtain ⟨h1, h2⟩ := (step_metered hs ha h hl).frozen hd
  obtain ⟨h3, h4⟩ := he.frozen_money hs ha hd hl
  obtain ⟨h5, h6⟩ := he.dispute_stage hs ha hl
  rcases h6 with ⟨h6, h7⟩ | ⟨h6, -, -⟩
  · exact ⟨⟨he.terms, h1, h2, h3, h6.trans hd, h7, h5⟩, h4⟩
  · exact absurd (hd.symm.trans h6) (by decide)

/-- What a trace credits to the buyer's side, matches that only pass through included. -/
def refunded (s : TokenContract) (tr : List (Input × TokenContract)) : ℕ :=
  Run.total (fun _ _ u => u.credited .buyer) s tr

/-- What the buyer's side hands over along a trace. -/
def handedIn (s : TokenContract) (tr : List (Input × TokenContract)) : ℕ :=
  Run.total (fun s i _ => s.buyerIn i) s tr

theorem run_frozen (hs : Sane s) (ha : s.probeAccepted = true) (hd : s.disputed = true)
    (h : Run step s tr u) (hl : u.destroyed = false) :
    Frozen s u ∧ Sane u ∧ refunded s tr = handedIn s tr := by
  refine h.invariant (fun tr u => u.destroyed = false → Frozen s u ∧ Sane u ∧
    refunded s tr = handedIn s tr) ?_ ?_ hl
  · exact fun _ => ⟨⟨rfl, rfl, rfl, rfl, hd, rfl, ha⟩, hs, rfl⟩
  · intro tr t i u hr hI hi hu
    obtain ⟨hf, hst, hsum⟩ := hI (step_live hi)
    obtain ⟨h1, h2⟩ := step_frozen hst hf.accepted hf.disputed hi hu
    refine ⟨hf.trans h1, step_sane hst hi hu, ?_⟩
    unfold refunded handedIn at hsum ⊢
    rw [Run.total_concat, Run.total_concat, hr.last_eq, hsum, h2]

theorem stake_bounds (hs : Sane s) (hc : Covered s) (hd : s.disputed = true)
    (hsub : s.isSubscription = true) (hi : i.resolves = true) :
    s.pricePerTick ≤ s.buyerLoss i ∧ s.buyerLoss i ≤ 2 * s.pricePerTick ∧
      s.buyerBond = 2 * s.pricePerTick := by
  obtain ⟨h1, h2⟩ := disputeStakes_eq hs hc hd hsub
  have hb := (hc.bonds hs (hs.opened_of_disputed hd) hsub).1
  have hbond : s.bondAmount = 2 * s.pricePerTick := rfl
  rw [hbond] at h1 h2 hb
  obtain ⟨caller, now, call⟩ := i
  cases call with
  | releaseDispute =>
    unfold buyerLoss
    dsimp only
    rw [if_pos hsub, h1, hb]
    omega
  | resolveDisputeTimeout =>
    unfold buyerLoss
    dsimp only
    rw [if_pos hsub, h2, hb]
    omega
  | _ => cases hi

theorem timeout_left {d a b f k paid : ℕ} (hf : f ≤ b) (hp : paid = min b (d - min a d))
    (hk : k + paid = d - min a d) : k + min (a + f) d ≤ d := by
  omega

/-- Purse of an ordinary deal at the timeout of a dispute: the pending claim is destroyed, the
trusted ones are paid, and two ticks go off the buyer's bond. -/
theorem timeout_refund {now : ℕ} (hs : Sane s) (hstep : PRICE_STEP ∣ s.pricePerTick)
    (ha : s.probeAccepted = true) (hord : s.isSubscription = false)
    (h : s.begin.resolveDisputeTimeout now = some u) :
    u.credited .buyer + min (2 * s.pricePerTick) s.buyerBond +
      min (s.valueOf (s.tokensPend - DEAL_TICK_SIZE)) s.deposit ≤ s.deposit + s.buyerBond := by
  simp only [resolveDisputeTimeout, bind_iff] at h
  obtain ⟨-, -, e, -, h⟩ := h
  obtain ⟨n, a, b, hw, hp, hm, hb, -⟩ := disputed_prepared hs (e := e)
  have hskip : s.begin.chargeWeeksThrough e = s.begin :=
    chargeWeeksThrough_ordinary (s := s.begin) hord e
  rw [hskip] at h hw hp hm hb
  rw [if_neg (by rw [show s.begin.isSubscription = false from hord]; decide)] at h
  obtain ⟨g, hg, h⟩ := of_bind h
  obtain ⟨hpg, hmg, hbg, -⟩ := hp.writeOff (Nat.min_le_right _ _) hg
  have hgdep : g.deposit = s.deposit - s.pendingValue := by
    rw [(burnShell_inv hg).1.purse]
    rfl
  have hgt : g.toTerms = s.toTerms := hpg.moved.terms
  have hgacc : g.probeAccepted = true := by
    rw [hpg.stage]
    exact ha
  have hgsub : g.isSubscription = false := by
    unfold isSubscription
    rw [hmg, hm]
    exact hord
  obtain ⟨e', kept, -, hk, hcl, -⟩ := settleTrustedAndClose_exact
    (by rw [hpg.probeTick]; exact fun _ => hs.noProbe ha) h
  have hsame : g.weeksCharged e' = g := by
    unfold weeksCharged
    rw [hgacc]
    exact chargeWeeksThrough_ordinary hgsub e'
  obtain ⟨-, hpace, htick, hle⟩ := hs.accepted ha
  have hpaid : s.tokensPaid = DEAL_TICK_SIZE := hpace.first (hs.ordinary hord).1
  have hbase : g.claimBase = DEAL_TICK_SIZE := by
    have h0 : s.subWeeks = 0 := by simpa [isSubscription] using hord
    unfold Meter.claimBase
    rw [hmg, hm]
    exact (if_neg fun h => h.1 h0).trans hpaid
  have hfinal : g.tokensFinal = s.trustedTokens := by
    rw [hmg, hm]
  obtain ⟨c, -, d, -, hch, hcd⟩ := g.toPurse.charge_charged
    (s.payOf (s.trustedTokens - DEAL_TICK_SIZE)) (s.payFeeOf (s.trustedTokens - DEAL_TICK_SIZE))
  have hpurse : g.trustedPurse e' = g.toPurse.charge
      (s.payOf (s.trustedTokens - DEAL_TICK_SIZE))
      (s.payFeeOf (s.trustedTokens - DEAL_TICK_SIZE)) := by
    unfold trustedPurse
    rw [hsame]
    dsimp only
    rw [hfinal, hbase, hgt]
  have hkept : kept = (g.trustedPurse e').deposit := by
    refine disputeRefund_ordinary ?_ hk
    unfold isSubscription trustCharged
    rw [setMeter_toMeter, hsame]
    exact hgsub
  have hbond : (g.trustedPurse e').buyerBond = s.buyerBond := by
    rw [hpurse, hch.buyerBond, hbg]
    exact hb
  have hcredit : u.credited .buyer = g.credited .buyer + _ := hcl.moved.buyer
  have hzero : g.credited .buyer = 0 := hpg.moved.buyer
  have hdep : (g.trustedPurse e').deposit + (c + d) = g.deposit := by
    rw [hpurse]
    exact hch.deposit
  have hprice : g.pricePerTick = s.pricePerTick := by rw [hgt]
  rw [hzero, hbond, hkept, hprice] at hcredit
  -- the trusted claims reach at least to the final ones
  have hfund : s.tokensPend ≤ s.maxTicks * DEAL_TICK_SIZE :=
    ((hs.ordinary hord).2 ha).trans hs.funds
  have hmono : s.valueOf (s.tokensFinal - DEAL_TICK_SIZE) ≤
      s.valueOf (s.trustedTokens - DEAL_TICK_SIZE) := by
    have htr := hs.trustedTokens_le
    apply Terms.valueOf_mono hs.valid
    · unfold trustedTokens
      split_ifs <;> omega
    · omega
  have hsum := Terms.valueOf_add hs.valid hstep (a := s.tokensPend - s.tokensFinal)
    (b := s.tokensFinal - DEAL_TICK_SIZE) (by omega)
  rw [show s.tokensPend - s.tokensFinal + (s.tokensFinal - DEAL_TICK_SIZE) =
    s.tokensPend - DEAL_TICK_SIZE by omega] at hsum
  have hpv : s.pendingValue = min (s.valueOf (s.tokensPend - s.tokensFinal)) s.deposit := rfl
  have hcd' : c + d = min (s.valueOf (s.trustedTokens - DEAL_TICK_SIZE)) g.deposit := hcd
  rw [hgdep, hpv] at hcd' hdep
  have hleft := timeout_left hmono hcd' hdep
  rw [hsum] at hleft
  have hmin : min (2 * s.pricePerTick) s.buyerBond ≤ s.buyerBond := Nat.min_le_right _ _
  rw [hcredit, Nat.zero_add]
  generalize min (s.valueOf (s.tokensPend - DEAL_TICK_SIZE)) s.deposit = taken at hleft ⊢
  clear hsum hmono hcd' hpv hfund
  omega

theorem Effect.stop_ends (he : Effect s i u) (hc : i.call = .stop) : u.destroyed = true := by
  cases he with
  | quiet hc' =>
    rw [Input.mayRest, hc] at hc'
    cases hc'
  | freed hc' =>
    rcases hc' with ⟨hc', -⟩ | hc'
    · exact absurd (hc.symm.trans hc') nofun
    · exact absurd (hc.symm.trans hc') nofun
  | ended _ _ _ hx =>
    obtain ⟨_, _, _, hcl, -⟩ := hx.ends
    exact hcl.destroyed
  | bounced hc' => exact absurd (hc.symm.trans hc') nofun
  | matched hc' => exact absurd (hc.symm.trans hc') nofun
  | sellerBonded hc' =>
    obtain ⟨_, _, hc'⟩ := hc'
    exact absurd (hc.symm.trans hc') nofun
  | buyerBonded hc' => exact absurd (hc.symm.trans hc') nofun
  | opened hc' =>
    obtain ⟨_, hc'⟩ := hc'
    exact absurd (hc.symm.trans hc') nofun
  | accepted hc' => exact absurd (hc.symm.trans hc') nofun
  | claimed hc' => exact absurd (hc.symm.trans hc') nofun
  | promoted hc' => exact absurd (hc.symm.trans hc') nofun
  | crossed hc' => exact absurd (hc.symm.trans hc') nofun
  | disputed hc' => exact absurd (hc.symm.trans hc') nofun
  | cleaned hc' => exact absurd (hc.symm.trans hc') nofun
  | withdrawn hc' => exact absurd (hc.symm.trans hc') nofun

theorem stop_ordinary_refund (hs : Sane s) (ha : s.probeAccepted = true)
    (hord : s.isSubscription = false) (hc : i.call = .stop) (h : s.step i = some u) :
    u.credited .buyer + min s.pricePerTick s.buyerBond +
      min (s.valueOf (s.tokensPend - DEAL_TICK_SIZE)) s.deposit = s.deposit + s.buyerBond := by
  have he := (step_effect hs h).2
  obtain ⟨-, pay, taken, r, hx, -, hexact⟩ :=
    he.exit (hs.opened_of_accepted ha) (step_live h) (he.stop_ends hc)
  obtain ⟨htaken, -⟩ := hexact hord ha fun hn => absurd (hc.symm.trans hn) nofun
  obtain ⟨b, x, w, hcl, hsum, -⟩ := hx.ends
  have hcredit := hcl.moved.buyer
  rw [credited_begin, Nat.zero_add] at hcredit
  have hloss : s.buyerLoss i = min s.pricePerTick s.buyerBond := by
    unfold buyerLoss
    rw [hc]
    exact if_pos ⟨ha, hord⟩
  have htrust : s.trustedAt i = s.tokensPend := by
    unfold trustedAt
    rw [hc]
  unfold finalCharge at htaken
  rw [htrust] at htaken
  rw [hloss] at hsum
  have hprobe := hs.noProbe ha
  unfold Purse.ofBuyer at hsum
  rw [hcredit, ← htaken]
  clear htaken hexact
  omega

theorem Frozen.escrowed (hf : Frozen s u) (hx : Escrowed s) (ha : s.probeAccepted = true)
    (ho : u.opened = true) : Escrowed u where
  funded := fun _ h => absurd (ho.symm.trans h) (by decide)
  opened := fun _ h => absurd (hf.accepted.symm.trans h) (by decide)
  accepted := fun _ => by
    rw [hf.deposit, hf.terms, hf.meter]
    exact hx.accepted ha
  term := by
    unfold isSubscription
    rw [hf.meter]
    exact hx.term

theorem step_dispute {caller : Caller} (h : s.step ⟨caller, τ, .dispute⟩ = some u) :
    s.disputed = false ∧ u.toPurse = s.toPurse ∧ u.toMeter = s.toMeter ∧
      u.toStage = { s.toStage with disputed := true, everDisputed := true, disputeTime := τ } ∧
      u.credited .buyer = 0 ∧ u.toTerms = s.toTerms := by
  have hl := step_live h
  unfold step at h
  rw [if_neg (by simp [hl])] at h
  simp only [exec, dispute, bind_iff, pure_iff] at h
  obtain ⟨-, -, hd, rfl⟩ := h
  exact ⟨hd, rfl, rfl, rfl, rfl, rfl⟩

theorem caller_resolve (hc : i.call = .resolveDisputeTimeout) (h : s.step i = some u) :
    s.begin.resolveDisputeTimeout i.now = some u := by
  have hx := step_exec h
  rw [hc] at hx
  exact hx

/-- A dispute never leaves the buyer better off than a stop at the same instant. On a subscription
it costs him exactly a stake of one to two ticks, whoever resolves it and however late; on an
ordinary deal its timeout returns no more. -/
theorem no_exit_cheaper {t : Terms} (ht : t.Valid) (hstep : PRICE_STEP ∣ t.pricePerTick)
    (h : Run step (init t) tr s) (ha : s.probeAccepted = true) {b c : Caller}
    {p v w x : TokenContract} {tr' : List (Input × TokenContract)}
    (hstop : step s ⟨b, τ, .stop⟩ = some p) (hdisp : step s ⟨c, τ, .dispute⟩ = some v)
    (hwait : Run step v tr' w) (hi : i.resolves = true) (hx : step w i = some x) :
    (s.isSubscription = true → Run.Each (fun s i _ => s.PaysWhole i) (init t) tr →
      Run.Ordered Input.now (tr ++ [(⟨c, τ, .dispute⟩, v)]) →
        s.pricePerTick ≤ w.buyerLoss i ∧ w.buyerLoss i ≤ 2 * s.pricePerTick ∧
        refunded s ((⟨c, τ, .dispute⟩, v) :: (tr' ++ [(i, x)])) + w.buyerLoss i =
          p.credited .buyer + handedIn s ((⟨c, τ, .dispute⟩, v) :: (tr' ++ [(i, x)]))) ∧
    (s.isSubscription = false → i.call = .resolveDisputeTimeout →
      refunded s ((⟨c, τ, .dispute⟩, v) :: (tr' ++ [(i, x)])) ≤
        p.credited .buyer + handedIn s ((⟨c, τ, .dispute⟩, v) :: (tr' ++ [(i, x)]))) := by
  have hl := step_live hstop
  have hs := run_sane ht h hl
  have hc := run_covered ht h hl
  have hterms : s.toTerms = t := run_terms hl (init_sane ht) h
  have hstep' : PRICE_STEP ∣ s.pricePerTick := by
    rw [hterms]
    exact hstep
  obtain ⟨hd, hvp, hvm, hvg, hvc, hvt⟩ := step_dispute hdisp
  have hvl : v.destroyed = false := by
    rw [hvg]
    exact hl
  have hvs : Sane v := step_sane hs hdisp hvl
  have hva : v.probeAccepted = true := by
    rw [hvg]
    exact ha
  have hvd : v.disputed = true := by rw [hvg]
  have hwl := step_live hx
  obtain ⟨hf, hws, hsum⟩ := run_frozen hvs hva hvd hwait hwl
  have hrun : Run step (init t) (tr ++ [(⟨c, τ, .dispute⟩, v)] ++ tr') w :=
    (h.snoc hdisp).append hwait
  have hwc := run_covered ht hrun hwl
  have hwsub : w.isSubscription = s.isSubscription := by
    unfold isSubscription
    rw [hf.meter, hvm]
  have hin : w.buyerIn i = 0 := by
    unfold buyerIn
    cases hcall : i.call with
    | fundFromOrderBook =>
      rw [Input.resolves, hcall] at hi
      cases hi
    | fundBuyerBond =>
      rw [Input.resolves, hcall] at hi
      cases hi
    | _ => rfl
  -- the resolution is the only transaction that pays
  have hpaid : refunded s ((⟨c, τ, .dispute⟩, v) :: (tr' ++ [(i, x)])) =
      x.credited .buyer + handedIn s ((⟨c, τ, .dispute⟩, v) :: (tr' ++ [(i, x)])) := by
    unfold refunded handedIn at hsum ⊢
    rw [Run.total_cons, Run.total_cons, Run.total_concat, Run.total_concat, hwait.last_eq, hsum, hin]
    dsimp only
    rw [hvc]
    have h0 : s.buyerIn ⟨c, τ, .dispute⟩ = 0 := rfl
    rw [h0]
    omega
  rw [hpaid]
  have hwt : w.toTerms = s.toTerms := hf.terms.trans hvt
  have hwdep : w.deposit = s.deposit := by rw [hf.deposit, hvp]
  have hwbond : w.buyerBond = s.buyerBond := by rw [hf.buyerBond, hvp]
  refine ⟨fun hsub hpay ho => ?_, fun hord hcall => ?_⟩
  · have hex := run_escrowed ht hstep h hpay hl
    have hk := run_clocked ht h ho.of_append ho.until hl
    obtain ⟨g, hg, hstopped⟩ := stop_refund hs hc hex hstep' hk ha hsub (step_exec hstop)
    obtain ⟨e, he, -⟩ := weeksStartedAt_le hg
    have hweek := hk.weekIndex_le (hc.counted ha) ha he
    have htime : w.disputeTime = τ := by rw [hf.disputeTime, hvg]
    have hmeter : w.toMeter = s.toMeter := hf.meter.trans hvm
    have hwg : w.weeksStartedAt w.disputeTime = some g := by
      rw [htime, hmeter]
      exact hg
    have hwe : w.weeksElapsedAt w.disputeTime = some e := by
      rw [htime, hmeter]
      exact he
    have hvex : Escrowed v := by
      constructor
      · exact fun _ hn => absurd ((hvs.opened_of_accepted hva).symm.trans hn) (by decide)
      · exact fun _ hn => absurd (hva.symm.trans hn) (by decide)
      · rw [hvp, hvt, hvm]
        exact fun _ => hex.accepted ha
      · unfold isSubscription
        rw [hvm]
        exact hex.term
    have hwex := hf.escrowed hvex hva (hws.opened_of_accepted hf.accepted)
    have hwstep : PRICE_STEP ∣ w.pricePerTick := by
      rw [hwt]
      exact hstep'
    have hwsub' : w.isSubscription = true := hwsub.trans hsub
    have hrefund := trustedRefund_eq hws hwc hwex hwstep hf.accepted hwsub' (g := g)
      (by rw [disputeWeeks_eq hwe, hmeter]; exact hweek) hwg
    obtain ⟨h1, h2, h3⟩ := stake_bounds hws hwc hf.disputed hwsub' hi
    have hres := resolution_refund hws hwsub' hi hx
    rw [hrefund, h3, hmeter, hwt] at hres
    rw [hwt] at h1 h2
    have hbond : s.bondAmount = 2 * s.pricePerTick := rfl
    exact ⟨h1, h2, by omega⟩
  · have hres := timeout_refund hws (by rw [hwt]; exact hstep') hf.accepted
      (hwsub.trans hord) (caller_resolve hcall hx)
    have hst := stop_ordinary_refund hs ha hord rfl hstop
    have hpend : w.tokensPend = s.tokensPend := by rw [hf.meter, hvm]
    rw [hwt, hwdep, hwbond, hpend] at hres
    have hmin : min s.pricePerTick s.buyerBond ≤ min (2 * s.pricePerTick) s.buyerBond :=
      min_le_min_right _ (Nat.le_mul_of_pos_left _ (by decide))
    generalize min (s.valueOf (s.tokensPend - DEAL_TICK_SIZE)) s.deposit = taken at hres hst
    omega

/-- The sample subscription with a claim pending. -/
def sampleClaim : List Input :=
  sampleSubscription ++ [⟨.external 7, 400, .claimTokens (2 * DEAL_TICK_SIZE)⟩]

def sampleRunning : TokenContract := Run.last (init sampleTerms) (sampleTrace sampleClaim)

def sampleLeave : Input := ⟨.internal (.note 2), 430, .stop⟩

def sampleRaise : Input := ⟨.internal (.note 2), 430, .dispute⟩

/-- The deal after a step it takes. -/
def after (s : TokenContract) (i : Input) : TokenContract := (step s i).getD s

theorem step_after (h : (step s i).isSome = true) : step s i = some (s.after i) := by
  obtain ⟨u, hu⟩ := Option.isSome_iff_exists.mp h
  unfold after
  rw [hu]
  rfl

theorem no_exit_cheaper_sample :
    refunded sampleRunning [(sampleRaise, sampleRunning.after sampleRaise),
        (sampleConcession, (sampleRunning.after sampleRaise).after sampleConcession)] +
        (sampleRunning.after sampleRaise).buyerLoss sampleConcession =
      (sampleRunning.after sampleLeave).credited .buyer +
        handedIn sampleRunning [(sampleRaise, sampleRunning.after sampleRaise),
          (sampleConcession, (sampleRunning.after sampleRaise).after sampleConcession)] :=
  ((no_exit_cheaper (t := sampleTerms) (by decide) (dvd_refl _) (sample_run sampleClaim)
    (by decide +kernel) (step_after (i := sampleLeave) (by decide +kernel))
    (step_after (i := sampleRaise) (by decide +kernel)) .nil rfl
    (step_after (i := sampleConcession) (by decide +kernel))).1 (by decide +kernel)
    (by decide +kernel) (by decide +kernel)).2.2

end TokenContract

end Dexdo
