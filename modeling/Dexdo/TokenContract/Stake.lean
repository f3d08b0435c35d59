import Dexdo.TokenContract.Weeks

namespace Dexdo

namespace TokenContract

variable {s t u : TokenContract} {i j : Input} {e : ℕ}

/-- Calls that resolve a dispute. -/
def Input.resolves (i : Input) : Bool :=
  match i.call with
  | .releaseDispute | .resolveDisputeTimeout => true
  | _ => false

/-- Weeks of the term that had elapsed when the dispute was raised. -/
def disputeWeeks (s : TokenContract) : ℕ := (s.weeksElapsedAt s.disputeTime).getD 0

/-- A disputed deal as both resolutions settle it, before the stakes are taken. -/
def settledDispute (s : TokenContract) : TokenContract :=
  s.weeksDisputed.endDispute.trustCharged s.disputeWeeks

/-- Escrow that returns to the buyer when the dispute is resolved. -/
def trustedRefund (s : TokenContract) : ℕ := s.settledDispute.disputeRefund.getD 0

/-- Neither resolution sees the contested claim: the boundaries it crosses take every claim into
the base, or the trusted claims are worth what all of them are, or all of them no more than the
least stake, or the trusted ones no less than the greatest. -/
def StakesMeet (s : TokenContract) : Prop :=
  s.weekIndex < s.disputeWeeks ∨
    s.valueOf (s.trustedTokens - s.claimBase) = s.valueOf (s.tokensPend - s.claimBase) ∨
    s.valueOf (s.tokensPend - s.claimBase) ≤ s.pricePerTick ∨
    s.bondAmount ≤ s.valueOf (s.trustedTokens - s.claimBase)

instance (s : TokenContract) : Decidable s.StakesMeet :=
  inferInstanceAs (Decidable (_ ∨ _ ∨ _ ∨ _))

theorem disputeWeeks_eq (h : s.weeksElapsedAt s.disputeTime = some e) : s.disputeWeeks = e := by
  unfold disputeWeeks
  rw [h]
  rfl

theorem weeksDisputed_eq (s : TokenContract) :
    s.weeksDisputed = s.begin.chargeWeeksThrough s.disputeWeeks := rfl

theorem weeksElapsedAt_congr {m m' : Meter} (hp : m.periodStart = m'.periodStart)
    (hw : m.subWeeks = m'.subWeeks) (time : ℕ) :
    m.weeksElapsedAt time = m'.weeksElapsedAt time := by
  unfold Meter.weeksElapsedAt
  rw [hp, hw]

/-- The refund of a resolved dispute: the escrow that returns, and the bond less the stake. -/
theorem trusted_refund {v : TokenContract} {b x : ℕ} (hs : Sane s) (hv : v = s.weeksDisputed.endDispute)
    (he : s.weeksElapsedAt s.disputeTime = some e) (h : v.settleTrustedAndClose b x = some u) :
    u.credited .buyer + min b s.buyerBond = s.trustedRefund + s.buyerBond := by
  have hdw := disputeWeeks_eq he
  obtain ⟨n, a, b', hw, hp, hm, hb, -⟩ := disputed_prepared hs (e := s.disputeWeeks)
  rw [← weeksDisputed_eq, ← hv] at hp hm hb
  rw [← weeksDisputed_eq] at hw
  have hclock : v.weeksElapsedAt v.disputeTime = s.weeksElapsedAt s.disputeTime := by
    rw [hp.stage]
    apply weeksElapsedAt_congr
    · rw [hm, hw.meter]
      rfl
    · rw [hm, hw.meter]
      rfl
  obtain ⟨e', kept, he', hk, hc, -⟩ := settleTrustedAndClose_exact
    (by rw [hp.probeTick, hp.stage]; exact hs.noProbe) h
  obtain rfl : e' = s.disputeWeeks := by
    rw [hclock, he] at he'
    rw [hdw]
    exact (Option.some.inj he').symm
  have hbond : (v.trustedPurse s.disputeWeeks).buyerBond = s.buyerBond := by
    obtain ⟨n, a, b, hw'⟩ := v.weeksCharged_weekly s.disputeWeeks
    obtain ⟨_, -, _, -, hch, -⟩ := (v.weeksCharged s.disputeWeeks).toPurse.charge_charged
      ((v.weeksCharged s.disputeWeeks).payOf ((v.weeksCharged s.disputeWeeks).tokensFinal -
        (v.weeksCharged s.disputeWeeks).claimBase))
      ((v.weeksCharged s.disputeWeeks).payFeeOf ((v.weeksCharged s.disputeWeeks).tokensFinal -
        (v.weeksCharged s.disputeWeeks).claimBase))
    refine hch.buyerBond.trans (hw'.charged.buyerBond.trans ?_)
    rw [setPurse_toPurse, Purse.releaseProbe_buyerBond]
    exact hb
  have hkept : s.trustedRefund = kept := by
    unfold trustedRefund settledDispute
    rw [← hv, hk]
    rfl
  have hcredit := hc.moved.buyer
  have hzero : v.credited .buyer = 0 := hp.moved.buyer
  rw [hbond, hzero] at hcredit
  have hle : min b s.buyerBond ≤ s.buyerBond := Nat.min_le_right _ _
  omega

theorem releaseDispute_refund {caller : Caller} (hs : Sane s) (hsub : s.isSubscription = true)
    (h : s.begin.releaseDispute caller = some u) :
    u.credited .buyer + min s.weeksDisputed.endDispute.disputeStake s.buyerBond =
      s.trustedRefund + s.buyerBond := by
  simp only [releaseDispute, bind_iff] at h
  obtain ⟨-, -, e, he, h⟩ := h
  have he' : s.weeksElapsedAt s.disputeTime = some e := he
  obtain ⟨n, a, b', hw, hp, hm, -⟩ := disputed_prepared hs (e := e)
  have hsub' : (s.begin.chargeWeeksThrough e).endDispute.isSubscription = true := by
    rw [← hsub]
    unfold isSubscription
    rw [hm, hw.meter]
    rfl
  rw [if_pos hsub'] at h
  have heq : s.begin.chargeWeeksThrough e = s.weeksDisputed := by
    rw [weeksDisputed_eq, disputeWeeks_eq he']
  rw [heq] at h
  exact trusted_refund hs rfl he' h

theorem resolveDisputeTimeout_refund {now : ℕ} (hs : Sane s) (hsub : s.isSubscription = true)
    (h : s.begin.resolveDisputeTimeout now = some u) :
    u.credited .buyer + min s.weeksDisputed.disputeStake s.buyerBond =
      s.trustedRefund + s.buyerBond := by
  simp only [resolveDisputeTimeout, bind_iff] at h
  obtain ⟨-, -, e, he, h⟩ := h
  have he' : s.weeksElapsedAt s.disputeTime = some e := he
  obtain ⟨n, a, b', hw, -⟩ := disputed_prepared hs (e := e)
  have hsub' : (s.begin.chargeWeeksThrough e).isSubscription = true := by
    rw [← hsub]
    unfold isSubscription
    rw [hw.meter]
    rfl
  rw [if_pos hsub'] at h
  have heq : s.begin.chargeWeeksThrough e = s.weeksDisputed := by
    rw [weeksDisputed_eq, disputeWeeks_eq he']
  rw [heq] at h
  exact trusted_refund hs rfl he' h

theorem resolution_refund (hs : Sane s) (hsub : s.isSubscription = true)
    (hi : i.resolves = true) (h : s.step i = some u) :
    u.credited .buyer + s.buyerLoss i = s.trustedRefund + s.buyerBond := by
  have hx := step_exec h
  obtain ⟨caller, now, call⟩ := i
  cases call with
  | releaseDispute =>
    unfold buyerLoss
    dsimp only
    rw [if_pos hsub]
    exact releaseDispute_refund hs hsub hx
  | resolveDisputeTimeout =>
    unfold buyerLoss
    dsimp only
    rw [if_pos hsub]
    exact resolveDisputeTimeout_refund hs hsub hx
  | _ => cases hi

theorem disputeStake_eq (hsub : s.isSubscription = true) (hb : s.buyerBond = s.bondAmount)
    (hx : s.sellerBond = s.bondAmount) :
    s.disputeStake = min (max s.claimedUnpaidValue s.pricePerTick) s.bondAmount := by
  unfold disputeStake
  dsimp only
  rw [if_pos hsub, hb, hx]
  have h : s.bondAmount = 2 * s.pricePerTick := rfl
  split_ifs <;> omega

theorem stake_eq_iff {a b p : ℕ} (h : a ≤ b) :
    min (max a p) (2 * p) = min (max b p) (2 * p) ↔ a = b ∨ b ≤ p ∨ 2 * p ≤ a := by
  omega

theorem Covered.bonds (hc : Covered s) (hs : Sane s) (ho : s.opened = true)
    (hsub : s.isSubscription = true) :
    s.buyerBond = s.bondAmount ∧ s.sellerBond = s.bondAmount := by
  refine ⟨hc.bonded.buyerBond (hs.funded_of_opened ho) hsub, ?_⟩
  rw [hs.sellerBond, if_pos (hc.bonded.sellerBond ho)]

theorem Sane.opened_of_disputed (hs : Sane s) (hd : s.disputed = true) : s.opened = true := by
  by_contra hn
  exact absurd ((hs.unopened (by simpa using hn)).2.1.symm.trans hd) (by decide)

theorem weeksDisputed_claimBase (hs : Sane s) (ha : s.probeAccepted = true)
    (hsub : s.isSubscription = true) : s.weeksDisputed.claimBase =
      if s.weekIndex < s.disputeWeeks then s.tokensPend else s.claimBase := by
  have hmeter : s.weeksDisputed.toMeter = s.toMeter.crossTo s.disputeWeeks :=
    chargeWeeksThrough_meter (s := s.begin) hsub ha s.disputeWeeks
  have hne : s.subWeeks ≠ 0 := of_decide_eq_true hsub
  rw [hmeter]
  split_ifs with h
  · rw [Meter.crossTo_of_lt h, Meter.claimBase]
    rw [if_pos (And.intro hne (by exact Nat.zero_lt_of_lt h))]
    exact Nat.max_eq_right hs.final_le
  · rw [Meter.crossTo_of_le (Nat.le_of_not_lt h)]

/-- The two stakes of a disputed subscription. -/
theorem disputeStakes_eq (hs : Sane s) (hc : Covered s) (hd : s.disputed = true)
    (hsub : s.isSubscription = true) :
    s.weeksDisputed.endDispute.disputeStake = min (max (s.valueOf (s.trustedTokens -
        s.weeksDisputed.claimBase)) s.pricePerTick) s.bondAmount ∧
      s.weeksDisputed.disputeStake = min (max (s.valueOf (s.tokensPend -
        s.weeksDisputed.claimBase)) s.pricePerTick) s.bondAmount := by
  obtain ⟨hb, hx⟩ := hc.bonds hs (hs.opened_of_disputed hd) hsub
  obtain ⟨n, a, b, hw, hp, hm, hb', hx', -⟩ := disputed_prepared hs (e := s.disputeWeeks)
  rw [← weeksDisputed_eq] at hw hp hm hb' hx'
  have hterms : s.weeksDisputed.toTerms = s.toTerms := hw.moved.terms
  have hterms' : s.weeksDisputed.endDispute.toTerms = s.toTerms := hp.moved.terms
  have hsub1 : s.weeksDisputed.isSubscription = true := by
    rw [← hsub]
    unfold isSubscription
    rw [hw.meter]
    rfl
  have hsub2 : s.weeksDisputed.endDispute.isSubscription = true := by
    rw [← hsub1]
    unfold isSubscription
    rw [hm]
  constructor
  · rw [disputeStake_eq hsub2 (by rw [hb', hterms', hb]) (by rw [hx', hterms', hx]), hterms']
    unfold claimedUnpaidValue Meter.claimBase
    rw [hm, hterms']
    rfl
  · rw [disputeStake_eq hsub1 (by rw [hw.charged.buyerBond, hterms]; exact hb)
      (by rw [hw.charged.sellerBond, hterms]; exact hx), hterms]
    have hpend : s.weeksDisputed.tokensPend = s.tokensPend := by
      rw [hw.meter]
      rfl
    unfold claimedUnpaidValue
    rw [hterms, hpend]
    rfl

theorem Covered.claims_le (hc : Covered s) (hs : Sane s) :
    s.tokensPend ≤ s.maxTicks * DEAL_TICK_SIZE := by
  cases ha : s.probeAccepted with
  | true => exact (hc.counted ha).claims.trans hs.funds
  | false =>
    rw [(hs.unaccepted ha).2.2.2.2.1]
    exact Nat.zero_le _

theorem stakes_meet_iff (hs : Sane s) (hc : Covered s) (hd : s.disputed = true)
    (hsub : s.isSubscription = true) :
    s.weeksDisputed.endDispute.disputeStake = s.weeksDisputed.disputeStake ↔ s.StakesMeet := by
  obtain ⟨h1, h2⟩ := disputeStakes_eq hs hc hd hsub
  have htr := hs.trustedTokens_le
  have hmax := hc.claims_le hs
  have hmono : ∀ base, s.valueOf (s.trustedTokens - base) ≤ s.valueOf (s.tokensPend - base) :=
    fun base => Terms.valueOf_mono hs.valid (Nat.sub_le_sub_right htr base)
      ((Nat.sub_le _ _).trans hmax)
  have hbond : s.bondAmount = 2 * s.pricePerTick := rfl
  rw [h1, h2, hbond, stake_eq_iff (hmono _)]
  unfold StakesMeet
  rw [hbond]
  cases ha : s.probeAccepted with
  | true =>
    rw [weeksDisputed_claimBase hs ha hsub]
    split_ifs with h
    · rw [Nat.sub_self, Nat.sub_eq_zero_of_le htr]
      simp [h]
    · simp [h]
  | false =>
    obtain ⟨-, -, -, -, hp, -⟩ := hs.unaccepted ha
    rw [hp] at htr ⊢
    rw [Nat.le_zero.mp htr]
    simp

/-- In every state of a subscription with an open dispute, both resolutions return the same escrow
and differ in the stake alone; they take the same stake exactly when the contested claim does not
show in it. -/
theorem dispute_stakes_iff {t : Terms} (ht : t.Valid) {tr : List (Input × TokenContract)}
    (h : Run step (init t) tr s) (hl : s.destroyed = false) (hsub : s.isSubscription = true)
    (hd : s.disputed = true) (hi : i.call = .releaseDispute)
    (hj : j.call = .resolveDisputeTimeout) :
    (∀ u, step s i = some u →
      u.credited .buyer + s.buyerLoss i = s.trustedRefund + s.buyerBond) ∧
    (∀ u, step s j = some u →
      u.credited .buyer + s.buyerLoss j = s.trustedRefund + s.buyerBond) ∧
    (s.buyerLoss i = s.buyerLoss j ↔ s.StakesMeet) := by
  have hs := run_sane ht h hl
  have hc := run_covered ht h hl
  refine ⟨fun u hu => ?_, fun u hu => ?_, ?_⟩
  · exact resolution_refund hs hsub (by rw [Input.resolves, hi]) hu
  · exact resolution_refund hs hsub (by rw [Input.resolves, hj]) hu
  · obtain ⟨h1, h2⟩ := disputeStakes_eq hs hc hd hsub
    have hb := (hc.bonds hs (hs.opened_of_disputed hd) hsub).1
    rw [← stakes_meet_iff hs hc hd hsub]
    unfold buyerLoss
    rw [hi, hj]
    dsimp only
    rw [if_pos hsub, if_pos hsub, hb]
    omega

/-- A subscription of eight ticks, opened and accepted. -/
def sampleSubscription : List Input :=
  [⟨.internal (.note 1), 10, .postFromNote 5 1 1 0 0⟩,
    ⟨.internal sampleBook, 20,
      .fundFromOrderBook (8 * sampleUnit + 2 * PRICE_STEP) (.note 2) 9 FLAG_SUBSCRIPTION⟩,
    ⟨.internal (.note 1), 30, .fundDeal (2 * PRICE_STEP) none⟩,
    ⟨.external 7, 50, .openDeal [1]⟩,
    ⟨.external 7, 300, .acceptProbe⟩]

/-- A second tick is claimed at 400, and the dispute raised `gap` seconds after that. -/
def sampleDispute (gap : ℕ) : List Input :=
  sampleSubscription ++
    [⟨.external 7, 400, .claimTokens (2 * DEAL_TICK_SIZE)⟩,
      ⟨.internal (.note 2), 400 + gap, .dispute⟩]

/-- Both resolutions of the sample dispute. -/
def sampleConcession : Input := ⟨.external 7, 600, .releaseDispute⟩

def sampleExpiry : Input := ⟨.external 0, 1100, .resolveDisputeTimeout⟩

/-- A claim that had matured when the dispute was raised shows in both stakes. -/
theorem dispute_stakes_sample :
    (Run.last (init sampleTerms) (sampleTrace (sampleDispute 60))).buyerLoss sampleConcession =
      (Run.last (init sampleTerms) (sampleTrace (sampleDispute 60))).buyerLoss sampleExpiry :=
  (dispute_stakes_iff (by decide) (sample_run (sampleDispute 60)) (by decide +kernel)
    (by decide +kernel) (by decide +kernel) rfl rfl).2.2.mpr (by decide +kernel)

/-- A claim still pending when the dispute is raised raises the stake of the timeout alone. -/
theorem dispute_stakes_differ :
    ¬ ∀ (t : Terms), t.Valid → ∀ (tr : List (Input × TokenContract)) (s : TokenContract),
      Run step (init t) tr s → s.destroyed = false → s.isSubscription = true →
        s.disputed = true → ∀ i j : Input, i.call = .releaseDispute →
          j.call = .resolveDisputeTimeout → s.buyerLoss i = s.buyerLoss j := by
  intro h
  have h1 := h sampleTerms (by decide) _ _ (sample_run (sampleDispute 1)) (by decide +kernel)
    (by decide +kernel) (by decide +kernel) sampleConcession sampleExpiry rfl rfl
  exact absurd h1 (by decide +kernel)

end TokenContract

end Dexdo
