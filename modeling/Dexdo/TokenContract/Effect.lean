import Dexdo.TokenContract.Ends

namespace Dexdo

theorem toUint128_le (n : ℕ) : toUint128 n ≤ n := Nat.mod_le _ _

theorem toUint128_of_lt {n : ℕ} (h : n < 2 ^ 128) : toUint128 n = n := Nat.mod_eq_of_lt h

theorem feeOf_le (n : ℕ) : feeOf n ≤ n * PLATFORM_FEE_BPS / BPS_DENOMINATOR := toUint128_le _

theorem feeOf_eq {n : ℕ} (h : n < 2 ^ 128) : feeOf n = n * PLATFORM_FEE_BPS / BPS_DENOMINATOR := by
  unfold feeOf
  apply toUint128_of_lt
  simp only [PLATFORM_FEE_BPS, BPS_DENOMINATOR]
  omega

theorem feeOf_add_le {a b c : ℕ} (h : a + b ≤ c) (hc : c < 2 ^ 128) :
    feeOf a + feeOf b ≤ feeOf c := by
  have h1 := feeOf_le a
  have h2 := feeOf_le b
  rw [feeOf_eq hc]
  simp only [PLATFORM_FEE_BPS, BPS_DENOMINATOR] at *
  omega

namespace Terms

variable (t : Terms)

/-- Pay and fee of `n` tokens. -/
def valueOf (n : ℕ) : ℕ := t.payOf n + t.payFeeOf n

theorem payOf_le (n : ℕ) : t.payOf n ≤ n * t.pricePerTick / DEAL_TICK_SIZE := toUint128_le _

theorem payOf_lt (n : ℕ) : t.payOf n < 2 ^ 128 := Nat.mod_lt _ (by decide)

@[simp] theorem payOf_zero : t.payOf 0 = 0 := by
  unfold payOf
  rw [Nat.zero_mul]
  rfl

@[simp] theorem payFeeOf_zero : t.payFeeOf 0 = 0 := by
  unfold payFeeOf
  rw [payOf_zero]
  rfl

variable {t}

theorem Valid.price_lt (hv : t.Valid) : t.pricePerTick < 2 ^ 128 := by
  obtain ⟨-, h2, h3⟩ := hv
  have h : 1 * t.pricePerTick ≤ t.maxTicks * t.unit := by
    apply Nat.mul_le_mul
    · omega
    · exact Nat.le_add_right _ _
  omega

theorem payOf_eq (hv : t.Valid) {n : ℕ} (h : n ≤ t.maxTicks * DEAL_TICK_SIZE) :
    t.payOf n = n * t.pricePerTick / DEAL_TICK_SIZE := by
  unfold payOf
  apply toUint128_of_lt
  calc n * t.pricePerTick / DEAL_TICK_SIZE
      ≤ t.maxTicks * DEAL_TICK_SIZE * t.pricePerTick / DEAL_TICK_SIZE :=
        Nat.div_le_div_right (Nat.mul_le_mul_right _ h)
    _ = t.maxTicks * t.pricePerTick := by
        rw [Nat.mul_right_comm, Nat.mul_div_cancel _ (by decide)]
    _ ≤ t.maxTicks * t.unit := Nat.mul_le_mul_left _ (Nat.le_add_right _ _)
    _ < 2 ^ 128 := hv.2.2

theorem rebate_eq (hv : t.Valid) {n : ℕ} (h : n ≤ t.maxTicks) :
    t.rebate n =
      min REBATE_MAX_BPS (REBATE_SLOPE_BPS * n) * n * t.pricePerTick / BPS_DENOMINATOR := by
  have hrate : (if REBATE_MAX_BPS < REBATE_SLOPE_BPS * n then REBATE_MAX_BPS
      else REBATE_SLOPE_BPS * n) = min REBATE_MAX_BPS (REBATE_SLOPE_BPS * n) := by
    split_ifs <;> omega
  unfold rebate
  rw [hrate]
  apply toUint128_of_lt
  calc min REBATE_MAX_BPS (REBATE_SLOPE_BPS * n) * n * t.pricePerTick / BPS_DENOMINATOR
      ≤ BPS_DENOMINATOR * n * t.pricePerTick / BPS_DENOMINATOR := by
        gcongr
        exact (min_le_left _ _).trans (by decide)
    _ = n * t.pricePerTick := by
        rw [Nat.mul_assoc, Nat.mul_div_cancel_left _ (by decide)]
    _ ≤ t.maxTicks * t.unit := Nat.mul_le_mul h (Nat.le_add_right _ _)
    _ < 2 ^ 128 := hv.2.2

theorem Valid.tick_le (hv : t.Valid) : DEAL_TICK_SIZE ≤ t.maxTicks * DEAL_TICK_SIZE :=
  Nat.le_mul_of_pos_left _ (by have := hv.2.1; omega)

theorem payOf_tick (hv : t.Valid) : t.payOf DEAL_TICK_SIZE = t.pricePerTick := by
  rw [payOf_eq hv hv.tick_le, Nat.mul_div_cancel_left _ (by decide)]

theorem payOf_add_le (hv : t.Valid) {a b c : ℕ} (h : a + b ≤ c)
    (hc : c ≤ t.maxTicks * DEAL_TICK_SIZE) : t.payOf a + t.payOf b ≤ t.payOf c := by
  have h1 := t.payOf_le a
  have h2 := t.payOf_le b
  rw [payOf_eq hv hc]
  calc t.payOf a + t.payOf b
      ≤ a * t.pricePerTick / DEAL_TICK_SIZE + b * t.pricePerTick / DEAL_TICK_SIZE :=
        Nat.add_le_add h1 h2
    _ ≤ (a * t.pricePerTick + b * t.pricePerTick) / DEAL_TICK_SIZE := Nat.div_add_div_le_add_div
    _ ≤ c * t.pricePerTick / DEAL_TICK_SIZE := by
        rw [← Nat.add_mul]
        exact Nat.div_le_div_right (Nat.mul_le_mul_right _ h)

theorem valueOf_add_le (hv : t.Valid) {a b c : ℕ} (h : a + b ≤ c)
    (hc : c ≤ t.maxTicks * DEAL_TICK_SIZE) : t.valueOf a + t.valueOf b ≤ t.valueOf c := by
  have h1 := payOf_add_le hv h hc
  have h2 : t.payFeeOf a + t.payFeeOf b ≤ t.payFeeOf c := feeOf_add_le h1 (t.payOf_lt c)
  unfold valueOf
  omega

theorem valueOf_mono (hv : t.Valid) {a c : ℕ} (h : a ≤ c)
    (hc : c ≤ t.maxTicks * DEAL_TICK_SIZE) : t.valueOf a ≤ t.valueOf c :=
  le_trans (Nat.le_add_right _ (t.valueOf (c - a)))
    (valueOf_add_le hv (Nat.add_sub_cancel' h).le hc)

end Terms

namespace TokenContract

variable {s t u : TokenContract}

/-- Tokens paid for so far, in step with the weeks charged. -/
structure Paced (s : TokenContract) : Prop where
  first : s.weekIndex = 0 → s.tokensPaid = DEAL_TICK_SIZE
  later : 0 < s.weekIndex → s.tokensPaid = s.weekIndex * s.tokensPerWeek

/-- Value of the weeks charged: the probe opens the first one. -/
def weeksValue (s : TokenContract) : ℕ :=
  if s.weekIndex = 0 then s.payOf DEAL_TICK_SIZE
  else s.payOf (max DEAL_TICK_SIZE s.tokensPerWeek) + (s.weekIndex - 1) * s.payOf s.tokensPerWeek

theorem Paced.chargeWeek (s : TokenContract) : Paced s.chargeWeek where
  first := fun h => absurd h (Nat.succ_ne_zero _)
  later := fun _ => rfl

theorem Paced.weekDue_le (h : Paced s) (hv : s.toTerms.Valid)
    (hq : s.tokensPerWeek ≤ s.maxTicks * DEAL_TICK_SIZE) :
    s.payOf s.weekDue + s.weeksValue ≤ s.chargeWeek.weeksValue := by
  have hnext : s.chargeWeek.weeksValue =
      s.payOf (max DEAL_TICK_SIZE s.tokensPerWeek) + s.weekIndex * s.payOf s.tokensPerWeek :=
    if_neg (Nat.succ_ne_zero _)
  rw [hnext]
  rcases Nat.eq_zero_or_pos s.weekIndex with h0 | h0
  · have hd : s.weekDue = s.tokensPerWeek - DEAL_TICK_SIZE := by
      unfold Meter.weekDue
      rw [h.first h0, h0]
      omega
    rw [weeksValue, if_pos h0, hd, h0, Nat.zero_mul]
    apply Terms.payOf_add_le hv
    · omega
    · exact max_le hv.tick_le hq
  · have hd : s.weekDue = s.tokensPerWeek := by
      unfold Meter.weekDue
      rw [h.later h0, Nat.succ_mul]
      omega
    obtain ⟨k, hk⟩ := Nat.exists_eq_succ_of_ne_zero h0.ne'
    rw [weeksValue, if_neg h0.ne', hd, hk]
    simp only [Nat.succ_sub_one, Nat.succ_mul]
    omega

theorem chargeWeeks_value (n : ℕ) (h : Paced s) (hv : s.toTerms.Valid)
    (hq : s.tokensPerWeek ≤ s.maxTicks * DEAL_TICK_SIZE) :
    Paced (chargeWeeks n s) ∧ ∃ a b, Weekly s (chargeWeeks n s) n a b ∧
      a + s.weeksValue ≤ (chargeWeeks n s).weeksValue := by
  induction n generalizing s with
  | zero => exact ⟨h, 0, 0, .refl s, (Nat.zero_add _).le⟩
  | succ n ih =>
    obtain ⟨a, ha, b, -, h1⟩ := s.chargeWeek_weekly
    obtain ⟨hp, a', b', h2, h3⟩ := ih (.chargeWeek s) hv hq
    have hw := h1.trans h2
    rw [Nat.add_comm 1 n] at hw
    refine ⟨hp, _, _, hw, ?_⟩
    have h4 := h.weekDue_le hv hq
    change a + a' + s.weeksValue ≤ (chargeWeeks n s.chargeWeek).weeksValue
    omega

theorem chargeWeeksThrough_value (e : ℕ) (h : Paced s) (hv : s.toTerms.Valid)
    (hq : s.tokensPerWeek ≤ s.maxTicks * DEAL_TICK_SIZE) :
    Paced (s.chargeWeeksThrough e) ∧ ∃ n a b, Weekly s (s.chargeWeeksThrough e) n a b ∧
      a + s.weeksValue ≤ (s.chargeWeeksThrough e).weeksValue := by
  obtain ⟨n, hn⟩ := s.chargeWeeksThrough_eq e
  rw [hn]
  obtain ⟨hp, a, b, hw⟩ := chargeWeeks_value n h hv hq
  exact ⟨hp, n, a, b, hw⟩

end TokenContract

namespace TokenContract

variable {s t u : TokenContract} {i : Input}

/-- What holds of every live deal, whoever called what. -/
structure Sane (s : TokenContract) : Prop where
  valid : s.toTerms.Valid
  unfunded : s.funded = false → s.opened = false ∧ s.deposit = 0
  unopened : s.opened = false →
    s.probeAccepted = false ∧ s.disputed = false ∧ s.everDisputed = false ∧ s.probeTick = 0
  probe : s.opened = true → s.probeAccepted = false → s.probeTick = s.pricePerTick
  unaccepted : s.probeAccepted = false → s.finalizedOwed = 0 ∧ s.feeAccrued = 0 ∧
    s.tokensPaid = 0 ∧ s.tokensFinal = 0 ∧ s.tokensPend = 0 ∧ s.weekIndex = 0
  accepted : s.probeAccepted = true → s.probeTick = 0 ∧ Paced s ∧
    DEAL_TICK_SIZE ≤ s.tokensFinal ∧ s.tokensFinal ≤ s.tokensPend
  ordinary : s.isSubscription = false → s.weekIndex = 0 ∧
    (s.probeAccepted = true → s.tokensPend ≤ s.fundedTokens)
  disputed : s.disputed = true → s.everDisputed = true
  size : s.funded = true → DEAL_TICK_SIZE ≤ s.fundedTokens
  funds : s.fundedTokens ≤ s.maxTicks * DEAL_TICK_SIZE
  quota : s.tokensPerWeek ≤ s.fundedTokens
  sellerBond : s.sellerBond = if s.sellerBondFunded then s.bondAmount else 0
  buyerBond : s.buyerBondFunded = false → s.buyerBond = 0

theorem Sane.noProbe (h : Sane s) : s.probeAccepted = true → s.probeTick = 0 :=
  fun ha => (h.accepted ha).1

theorem Sane.opened_of_accepted (h : Sane s) (ha : s.probeAccepted = true) : s.opened = true := by
  by_contra hn
  rw [(h.unopened (by simpa using hn)).1] at ha
  cases ha

/-- SHELL a buyer's side hands over with a call. -/
def buyerIn (s : TokenContract) (i : Input) : ℕ :=
  match i.call with
  | .fundFromOrderBook paid _ _ _ => if s.fromBook i.caller then paid else 0
  | .fundBuyerBond amount => amount
  | _ => 0

/-- SHELL the seller hands over with a call. -/
def sellerIn (i : Input) : ℕ :=
  match i.call with
  | .fundDeal amount _ => amount
  | _ => 0

/-- A disputed deal with its elapsed weeks charged. -/
def weeksDisputed (s : TokenContract) : TokenContract :=
  s.begin.chargeWeeksThrough ((s.weeksElapsedAt s.disputeTime).getD 0)

/-- Part of the buyer's bond that an end of the deal burns. -/
def buyerLoss (s : TokenContract) (i : Input) : ℕ :=
  match i.call with
  | .stop => if s.probeAccepted = true ∧ s.isSubscription = false then
      min s.pricePerTick s.buyerBond else 0
  | .releaseDispute => if s.isSubscription then
      min s.weeksDisputed.endDispute.disputeStake s.buyerBond else min s.pricePerTick s.buyerBond
  | .resolveDisputeTimeout => if s.isSubscription then
      min s.weeksDisputed.disputeStake s.buyerBond else min (2 * s.pricePerTick) s.buyerBond
  | _ => 0

/-- Part of the seller's bond that an end of the deal burns. -/
def sellerLoss (s : TokenContract) (i : Input) : ℕ :=
  match i.call with
  | .stop => if s.probeAccepted then 0 else min s.probeTick s.sellerBond
  | .sellerStop => if s.probeAccepted = true ∧ s.isSubscription = true then 0
      else min s.pricePerTick s.sellerBond
  | .releaseDispute => if s.isSubscription then 0 else min s.pricePerTick s.sellerBond
  | .resolveDisputeTimeout => if s.isSubscription then
      min s.weeksDisputed.disputeStake s.sellerBond else min (2 * s.pricePerTick) s.sellerBond
  | _ => 0

/-- Tokens a resolved dispute of a subscription proves beyond its charged weeks. -/
def provenTokens (s : TokenContract) : ℕ :=
  s.tokensFinal - if s.weekIndex = 0 then DEAL_TICK_SIZE else s.weekBaseTokens

/-- What the service has earned the seller: on an ordinary deal the probe, and at its end every
trusted token; on a subscription the charged weeks, and after a dispute the proven tokens. -/
def earned (s : TokenContract) : ℕ :=
  if s.probeAccepted = false then 0
  else if s.isSubscription = false then
    s.payOf (if s.destroyed then max DEAL_TICK_SIZE s.tokensFinal else DEAL_TICK_SIZE)
  else s.weeksValue + if s.destroyed ∧ s.everDisputed then s.payOf s.provenTokens else 0

/-- The timeout of a dispute over an ordinary deal whose pending claim had matured before the
dispute was raised and was never promoted. -/
def lateClaim (s : TokenContract) (i : Input) : Prop :=
  i.call = .resolveDisputeTimeout ∧ s.isSubscription = false ∧ s.tokensFinal < s.tokensPend ∧
    s.lastClaimTime + CLAIM_PROMOTE_WINDOW ≤ s.disputeTime

instance (s : TokenContract) (i : Input) : Decidable (s.lateClaim i) :=
  inferInstanceAs (Decidable (_ ∧ _ ∧ _ ∧ _))

/-- Tokens a dispute leaves trusted. -/
def trustedTokens (s : TokenContract) : ℕ :=
  if s.tokensFinal < s.tokensPend ∧ s.lastClaimTime + CLAIM_PROMOTE_WINDOW ≤ s.disputeTime
  then s.tokensPend else s.tokensFinal

/-- Tokens an end of an ordinary deal trusts. -/
def trustedAt (s : TokenContract) (i : Input) : ℕ :=
  match i.call with
  | .finalize | .stop => s.tokensPend
  | .sellerStop => (s.toMeter.promoteDue i.now).tokensFinal
  | _ => s.trustedTokens

/-- Escrow an end of an ordinary deal takes beyond the probe. -/
def finalCharge (s : TokenContract) (i : Input) : ℕ :=
  min (s.valueOf (s.trustedAt i - DEAL_TICK_SIZE)) s.deposit

/-- Calls that end a deal no dispute is raised on. -/
def Input.prompt (i : Input) : Bool :=
  match i.call with
  | .finalize | .stop | .sellerStop => true
  | _ => false

/-- Payments of a transaction that does not end the deal. -/
structure Paid (s u : TokenContract) (toBuyer toSeller burned : ℕ) : Prop where
  terms : u.toTerms = s.toTerms
  buyer : u.credited .buyer = toBuyer
  seller : u.credited .seller = toSeller
  residual : u.credited .residual = 0
  burned : u.burned = burned

theorem Moved.paid {b x w : ℕ} (h : Moved s.begin u b x 0 w) : Paid s u b x w where
  terms := h.terms
  buyer := h.buyer.trans (Nat.zero_add _)
  seller := h.seller.trans (Nat.zero_add _)
  residual := h.residual
  burned := h.burned.trans (Nat.zero_add _)

/-- Calls that may leave no mark on the money of the deal. -/
def Input.mayRest (i : Input) : Bool :=
  match i.call with
  | .fundFromOrderBook .. | .postFromNote .. | .onSellClosed | .claimTokens _ => true
  | _ => false

/-- Everything one transaction can do. -/
inductive Effect (s : TokenContract) (i : Input) (u : TokenContract) : Prop
  | quiet {h d : ℕ} {a o : Bool} (hc : i.mayRest = true) (hin : s.buyerIn i = 0) (hxn : sellerIn i = 0)
      (hp : u.toPurse = s.toPurse) (hm : u.toMeter = s.toMeter)
      (hg : u.toStage = { s.toStage with
        iobHash := h, iobDepth := d, noteAuthorized := a, offerPosted := o })
      (hpay : Paid s u 0 0 0)
  | bounced {paid : ℕ} {note : Addr} {pk flags : ℕ}
      (hc : i.call = .fundFromOrderBook paid note pk flags) (ht : ¬ s.takesMatch paid flags)
      (hxn : sellerIn i = 0) (hp : u.toPurse = s.toPurse) (hm : u.toMeter = s.toMeter)
      (hg : u.toStage = s.toStage) (hpay : Paid s u (s.buyerIn i) 0 0)
  | matched {paid : ℕ} {note : Addr} {pk flags : ℕ}
      (hc : i.call = .fundFromOrderBook paid note pk flags) (hb : s.fromBook i.caller = true)
      (hin : s.buyerIn i = paid) (ht : s.takesMatch paid flags)
      (hp : u.toPurse = { s.toPurse with
        balance := s.balance + paid
        buyerBond := s.matchBond flags
        deposit := paid - s.matchBond flags })
      (hm : u.toMeter = s.toMeter.shape i.now flags
        ((paid - s.matchBond flags) / s.unit * DEAL_TICK_SIZE))
      (hg : u.toStage = { s.toStage with
        buyer := some note
        buyerPubkey := pk
        funded := true
        offerPosted := false
        fundedTime := i.now
        dealFlags := flags
        buyerBondFunded := if 0 < s.matchBond flags then true else s.buyerBondFunded })
      (hpay : Paid s u 0 0 0)
  | sellerBonded {c : List ℕ} (hc : ∃ a e, i.call = .fundDeal a e) (hin : s.buyerIn i = 0) (ho : s.opened = false)
      (hf : s.sellerBondFunded = false) (hn : s.bondAmount ≤ sellerIn i)
      (hp : u.toPurse = { s.toPurse with
        balance := s.balance + s.bondAmount, sellerBond := s.bondAmount })
      (hm : u.toMeter = s.toMeter)
      (hg : u.toStage = { s.toStage with sellerBondFunded := true, endpointCipher := c })
      (hpay : Paid s u 0 (sellerIn i - s.bondAmount) 0)
  | buyerBonded {amount : ℕ} (hc : i.call = .fundBuyerBond amount) (hb : s.fromBuyer i.caller)
      (ho : s.opened = false) (hf : s.buyerBondFunded = false) (hn : s.bondAmount ≤ amount)
      (hp : u.toPurse = { s.toPurse with
        balance := s.balance + s.bondAmount, buyerBond := s.bondAmount })
      (hm : u.toMeter = s.toMeter) (hg : u.toStage = { s.toStage with buyerBondFunded := true })
      (hpay : Paid s u (amount - s.bondAmount) 0 0)
  | opened {c : List ℕ} (hc : ∃ c, i.call = .openDeal c) (hf : s.funded = true)
      (ho : s.opened = false) (hx : s.sellerBondFunded = true) (hb : s.buyerBondFunded = true)
      (hd : s.pricePerTick ≤ s.deposit) (hp : u.toPurse = s.toPurse.takeProbe s.pricePerTick)
      (hm : u.toMeter = { s.toMeter with lastClaimTime := i.now })
      (hg : u.toStage = { s.toStage with
        endpointCipher := c
        probeAccepted := false
        probeTime := i.now
        opened := true
        everOpened := true })
      (hpay : Paid s u 0 0 0)
  | accepted (hc : i.call = .acceptProbe) (ho : s.opened = true) (hd : s.disputed = false)
      (ha : s.probeAccepted = false)
      (hp : u.toPurse = s.toPurse.acceptProbe (feeOf s.pricePerTick))
      (hm : u.toMeter = s.toMeter.acceptProbe i.now)
      (hg : u.toStage = { s.toStage with probeAccepted := true }) (hpay : Paid s u 0 0 0)
  | claimed {n k a b d : ℕ} {t : TokenContract} (hc : i.call = .claimTokens n)
      (ho : s.opened = true) (hd : s.disputed = false) (ha : s.probeAccepted = true)
      (hlt : s.tokensPend < n) (hw : Weekly s.begin t k a b) (hpace : Paced t)
      (hval : a + s.weeksValue ≤ t.weeksValue) (hord : s.isSubscription = false → t = s.begin)
      (hcap : n ≤ t.toMeter.claimCap) (hp : u.toPurse = t.toPurse)
      (hm : u.toMeter = { t.toMeter with
        tokensFinal := s.tokensPend
        tokensPend := n
        lastClaimTime := i.now
        ticksFinalized := d })
      (hg : u.toStage = s.toStage) (hpay : Paid s u 0 0 0)
  | promoted (hc : i.call = .finalize) (ho : s.opened = true) (hd : s.disputed = false)
      (hlt : s.tokensFinal < s.tokensPend) (htime : s.lastClaimTime + CLAIM_PROMOTE_WINDOW ≤ i.now)
      (hp : u.toPurse = s.toPurse) (hm : u.toMeter = { s.toMeter with tokensFinal := s.tokensPend })
      (hg : u.toStage = s.toStage) (hpay : Paid s u 0 0 0)
  | crossed {k a b d : ℕ} {t : TokenContract} (hc : i.call = .settleWeek)
      (hsub : s.isSubscription = true) (ho : s.opened = true) (ha : s.probeAccepted = true)
      (hw : Weekly s.begin t k a b) (hpace : Paced t) (hval : a + s.weeksValue ≤ t.weeksValue)
      (hp : u.toPurse = t.toPurse) (hm : u.toMeter = { t.toMeter with ticksFinalized := d })
      (hg : u.toStage = s.toStage) (hpay : Paid s u 0 0 0)
  | disputed (hc : i.call = .dispute) (ho : s.opened = true) (hd : s.disputed = false)
      (hp : u.toPurse = s.toPurse) (hm : u.toMeter = s.toMeter)
      (hg : u.toStage = { s.toStage with
        disputed := true, everDisputed := true, disputeTime := i.now })
      (hpay : Paid s u 0 0 0)
  | cleaned {w : ℕ} (hc : i.call = .cleanupUnopened) (hf : s.funded = true) (ho : s.opened = false)
      (hw : s.deposit + s.buyerBond + s.sellerBond + w = s.balance)
      (hp : u.toPurse = { s.toPurse with
        balance := 0, deposit := 0, buyerBond := 0, sellerBond := 0 })
      (hm : u.toMeter = s.toMeter)
      (hg : u.toStage = { s.toStage with
        funded := false
        sellerBondFunded := false
        buyerBondFunded := false
        offerPosted := false
        endpointCipher := [] })
      (hpay : Paid s u (s.deposit + s.buyerBond) s.sellerBond w)
  | withdrawn {amount : ℕ} (hc : i.call = .withdrawShell amount) (ho : s.opened = true)
      (hle : amount ≤ s.finalizedOwed) (hbal : amount ≤ s.balance)
      (hp : u.toPurse = { s.toPurse with
        balance := s.balance - amount, finalizedOwed := s.finalizedOwed - amount })
      (hm : u.toMeter = s.toMeter) (hg : u.toStage = s.toStage) (hpay : Paid s u 0 amount 0)
  | freed (hc : i.call = .close ∧ s.funded = false ∨ i.call = .destroy) (ho : s.opened = false)
      (hcl : Closed s.begin u (if s.funded then s.deposit + s.buyerBond else 0) s.sellerBond 0)
      (hm : u.toMeter = s.toMeter) (ha : u.probeAccepted = false) (hx : u.toPurse.ofSeller = 0)
  | ended {pay taken r : ℕ} (hin : s.buyerIn i = 0) (hxn : sellerIn i = 0) (ho : s.opened = true)
      (hx : Exit s u (s.buyerLoss i) (s.sellerLoss i) pay taken r)
      (hval : pay + s.earned ≤ u.earned)
      (htaken : s.isSubscription = false → ¬ s.lateClaim i → taken ≤
        if s.probeAccepted then s.valueOf (s.tokensPend - DEAL_TICK_SIZE) else s.pricePerTick)
      (hexact : s.isSubscription = false → s.probeAccepted = true →
        (i.call = .resolveDisputeTimeout → s.tokensFinal = s.tokensPend) →
          taken = s.finalCharge i ∧ (i.prompt = true ∨ s.disputed = true))

end TokenContract

end Dexdo
