import Dexdo.TokenContract.Once

namespace Dexdo

namespace Meter

variable {m : Meter} {a b : ℕ}

/-- Every week up to `target` charged: the claims so far are the base of the next one. -/
def crossTo (m : Meter) (target : ℕ) : Meter :=
  if m.weekIndex < target then
    { m with
      weekIndex := target
      tokensPaid := target * m.tokensPerWeek
      weekBaseTokens := max m.tokensFinal m.tokensPend }
  else m

theorem crossTo_of_le (h : a ≤ m.weekIndex) : m.crossTo a = m := if_neg (Nat.not_lt_of_le h)

theorem crossTo_of_lt (h : m.weekIndex < a) : m.crossTo a =
    { m with
      weekIndex := a
      tokensPaid := a * m.tokensPerWeek
      weekBaseTokens := max m.tokensFinal m.tokensPend } :=
  if_pos h

theorem nextWeek_crossTo (n : ℕ) : m.nextWeek.crossTo (m.weekIndex + 1 + n) =
    m.crossTo (m.weekIndex + (n + 1)) := by
  rw [crossTo_of_lt (m := m) (by omega)]
  rcases Nat.eq_zero_or_pos n with rfl | hn
  · apply crossTo_of_le
    exact Nat.le_refl _
  · have hlt : m.nextWeek.weekIndex < m.weekIndex + 1 + n := by
      change m.weekIndex + 1 < _
      omega
    rw [crossTo_of_lt hlt]
    change Meter.mk .. = Meter.mk ..
    rw [show m.weekIndex + 1 + n = m.weekIndex + (n + 1) by omega]
    rfl

/-- The boundaries up to `due` crossed, with the volume they report. -/
def settleTo (m : Meter) (due : ℕ) (probeAccepted : Bool) : Meter :=
  if m.weekIndex < due then (m.crossTo due).recordDelivered probeAccepted else m

theorem settleTo_eq (m : Meter) (due : ℕ) (p : Bool) :
    ∃ d, m.settleTo due p = { m.crossTo due with ticksFinalized := d } := by
  unfold settleTo
  split_ifs with h
  · exact ⟨_, rfl⟩
  · rw [crossTo_of_le (Nat.le_of_not_lt h)]
    exact ⟨_, rfl⟩

@[simp] theorem crossTo_fundedTokens (m : Meter) (a : ℕ) :
    (m.crossTo a).fundedTokens = m.fundedTokens := by
  unfold crossTo
  split_ifs <;> rfl

@[simp] theorem crossTo_subWeeks (m : Meter) (a : ℕ) : (m.crossTo a).subWeeks = m.subWeeks := by
  unfold crossTo
  split_ifs <;> rfl

@[simp] theorem crossTo_tokensPerWeek (m : Meter) (a : ℕ) :
    (m.crossTo a).tokensPerWeek = m.tokensPerWeek := by
  unfold crossTo
  split_ifs <;> rfl

@[simp] theorem crossTo_tokensFinal (m : Meter) (a : ℕ) :
    (m.crossTo a).tokensFinal = m.tokensFinal := by
  unfold crossTo
  split_ifs <;> rfl

@[simp] theorem crossTo_tokensPend (m : Meter) (a : ℕ) :
    (m.crossTo a).tokensPend = m.tokensPend := by
  unfold crossTo
  split_ifs <;> rfl

@[simp] theorem crossTo_lastClaimTime (m : Meter) (a : ℕ) :
    (m.crossTo a).lastClaimTime = m.lastClaimTime := by
  unfold crossTo
  split_ifs <;> rfl

@[simp] theorem crossTo_periodStart (m : Meter) (a : ℕ) :
    (m.crossTo a).periodStart = m.periodStart := by
  unfold crossTo
  split_ifs <;> rfl

theorem crossTo_claims (m : Meter) (a d : ℕ) : { m.crossTo a with ticksFinalized := d } =
    { m.crossTo a with
      tokensFinal := m.tokensFinal
      tokensPend := m.tokensPend
      lastClaimTime := m.lastClaimTime
      ticksFinalized := d } := by
  unfold crossTo
  split_ifs <;> rfl

theorem crossTo_weekIndex (m : Meter) (a : ℕ) :
    (m.crossTo a).weekIndex = max m.weekIndex a := by
  unfold crossTo
  split_ifs
  · change a = _
    omega
  · omega

theorem crossTo_weekBaseTokens (h : m.tokensFinal ≤ m.tokensPend) (a : ℕ) :
    (m.crossTo a).weekBaseTokens =
      if m.weekIndex < a then m.tokensPend else m.weekBaseTokens := by
  unfold crossTo
  split_ifs
  · exact Nat.max_eq_right h
  · rfl

end Meter

namespace TokenContract

variable {s t u : TokenContract} {i : Input} {caller : Caller} {now : ℕ}

theorem chargeWeeks_meter (n : ℕ) (s : TokenContract) :
    (chargeWeeks n s).toMeter = s.toMeter.crossTo (s.weekIndex + n) := by
  induction n generalizing s with
  | zero => exact (Meter.crossTo_of_le (Nat.le_refl _)).symm
  | succ n ih => exact (ih s.chargeWeek).trans (Meter.nextWeek_crossTo n)

theorem chargeWeeksThrough_meter (hsub : s.isSubscription = true)
    (ha : s.probeAccepted = true) (e : ℕ) :
    (s.chargeWeeksThrough e).toMeter = s.toMeter.crossTo e := by
  unfold chargeWeeksThrough
  rw [hsub, ha, if_neg (by decide), chargeWeeks_meter]
  rcases Nat.le_total e s.weekIndex with h | h
  · rw [Meter.crossTo_of_le h, Meter.crossTo_of_le (by omega)]
  · rw [Nat.add_sub_of_le h]

theorem weeksElapsedAt_le {m : Meter} {e : ℕ} (h : m.weeksElapsedAt now = some e) :
    m.periodStart ≤ now ∧ e = min ((now - m.periodStart) / SUB_WEEK_LEN) m.subWeeks := by
  simp only [Meter.weeksElapsedAt, bind_iff, pure_iff] at h
  exact ⟨h.1, h.2.symm⟩

theorem settleBoundaries_meter (ha : s.probeAccepted = true) {due : ℕ}
    (h : s.weeksElapsedAt now = some due) :
    (s.settleBoundaries due).toMeter = s.toMeter.settleTo due s.probeAccepted := by
  unfold settleBoundaries Meter.settleTo
  by_cases hd : due ≤ s.weekIndex
  · rw [if_pos hd, if_neg (Nat.not_lt_of_le hd)]
  · rw [if_neg hd, if_pos (Nat.lt_of_not_le hd)]
    have hsub : s.isSubscription = true := by
      have h1 := (weeksElapsedAt_le h).2
      have h2 : due ≤ s.subWeeks := h1 ▸ Nat.min_le_right _ _
      have h3 : s.subWeeks ≠ 0 := by omega
      exact decide_eq_true h3
    rw [reportFinalized_toMeter]
    change ((s.chargeWeeksThrough due).toMeter).recordDelivered
      (s.chargeWeeksThrough due).probeAccepted = _
    obtain ⟨n, a, b, hw⟩ := s.chargeWeeksThrough_weekly due
    rw [chargeWeeksThrough_meter hsub ha, hw.stage]

theorem settleBoundaries_purse (s : TokenContract) (due : ℕ) :
    (s.settleBoundaries due).toPurse = (s.chargeWeeksThrough due).toPurse := by
  unfold settleBoundaries
  split_ifs with hd
  · unfold chargeWeeksThrough
    rw [Nat.sub_eq_zero_of_le hd]
    split_ifs <;> rfl
  · exact reportFinalized_toPurse _

/-- Everything one transaction can do to the claims and the escrow of a deal whose probe is
accepted. -/
inductive Metered (s : TokenContract) (i : Input) (u : TokenContract) : Prop
  | kept (hm : u.toMeter = s.toMeter) (hp : u.deposit = s.deposit)
      (hc : ∀ n, i.call = .claimTokens n → n = s.tokensPend)
  | claimed {n due : ℕ} (hc : i.call = .claimTokens n) (hd : s.disputed = false)
      (hlt : s.tokensPend < n) (hdue : s.weeksElapsedAt i.now = some due)
      (hadm : (s.toMeter.settleTo due true).admits i.now n)
      (hm : u.toMeter =
        ({ s.toMeter.settleTo due true with tokensFinal := s.tokensPend } : Meter).pend i.now n)
      (hp : u.toPurse = (s.begin.chargeWeeksThrough due).toPurse)
  | promoted (hc : i.call = .finalize) (hd : s.disputed = false)
      (hlt : s.tokensFinal < s.tokensPend) (htime : s.lastClaimTime + CLAIM_PROMOTE_WINDOW ≤ i.now)
      (hm : u.toMeter = { s.toMeter with tokensFinal := s.tokensPend })
      (hp : u.toPurse = s.toPurse)
  | crossed {due : ℕ} (hc : i.call = .settleWeek) (hsub : s.isSubscription = true)
      (hd : s.disputed = false) (hdue : s.weeksElapsedAt i.now = some due)
      (hm : u.toMeter = s.toMeter.settleTo due true)
      (hp : u.toPurse = (s.begin.chargeWeeksThrough due).toPurse)

theorem claimTokens_metered {n : ℕ} (h : s.begin.claimTokens caller now n = some u) :
    Metered s ⟨caller, now, .claimTokens n⟩ u := by
  simp only [claimTokens, bind_iff] at h
  obtain ⟨-, ho, hd, ha, hn, h⟩ := h
  split_ifs at h with hn'
  · cases h
    exact .kept rfl rfl fun m hm => (DealCall.claimTokens.inj hm) ▸ hn'
  · obtain ⟨due, hdue, h⟩ := of_bind h
    have hacc : s.probeAccepted = true := ha
    have hmeter : (s.begin.settleBoundaries due).toMeter = s.toMeter.settleTo due true := by
      rw [settleBoundaries_meter (s := s.begin) ha hdue]
      exact congrArg (s.toMeter.settleTo due) hacc
    simp only [pendClaim, bind_iff, pure_iff] at h
    obtain ⟨hadm, heq, rfl⟩ := h
    rw [hmeter] at hadm
    refine .claimed rfl hd (lt_of_le_of_ne hn (Ne.symm hn')) hdue hadm ?_
      (settleBoundaries_purse s.begin due)
    change (((s.begin.settleBoundaries due).toMeter.promoteDue now).pend now n) = _
    rw [setMeter_toMeter] at heq
    rw [hmeter] at heq ⊢
    obtain ⟨d, hd'⟩ := s.toMeter.settleTo_eq due true
    have hpend : (s.toMeter.settleTo due true).tokensPend = s.tokensPend := by simp [hd']
    obtain ⟨x, hx⟩ := (s.toMeter.settleTo due true).promoteDue_eq now
    rw [hx] at heq ⊢
    have hxp : x = s.tokensPend := heq.symm.trans hpend
    rw [hxp]

theorem finalize_metered (hl : u.destroyed = false) (hp : s.probeAccepted = true → s.probeTick = 0)
    (h : s.begin.finalize now = some u) : Metered s ⟨caller, now, .finalize⟩ u := by
  simp only [finalize, bind_iff] at h
  obtain ⟨⟨-, hd⟩, ⟨hlt, hw⟩, h⟩ := h
  split_ifs at h with h1
  · obtain ⟨_, -, -, -, hg, -⟩ := payFinalAndClose_closed (by exact hp) h
    rw [hg] at hl
    cases hl
  · cases h
    refine .promoted rfl hd hlt hw ?_ rfl
    change s.toMeter.promoteDue now = _
    unfold Meter.promoteDue Meter.promote
    rw [if_pos (by exact hw), if_pos (by exact hlt)]

theorem settleWeek_metered (hl : u.destroyed = false)
    (hp : s.probeAccepted = true → s.probeTick = 0)
    (h : s.begin.settleWeek now = some u) : Metered s ⟨caller, now, .settleWeek⟩ u := by
  simp only [settleWeek, bind_iff] at h
  obtain ⟨hsub, ⟨-, hd⟩, ha, due, hdue, -, h⟩ := h
  have hacc : s.probeAccepted = true := ha
  have hmeter : (s.begin.settleBoundaries due).toMeter = s.toMeter.settleTo due true := by
    rw [settleBoundaries_meter (s := s.begin) ha hdue]
    exact congrArg (s.toMeter.settleTo due) hacc
  split_ifs at h with h1
  · have hprobe : (s.begin.settleBoundaries due).probeTick = s.probeTick ∧
        (s.begin.settleBoundaries due).probeAccepted = true := by
      unfold settleBoundaries
      split_ifs
      · exact ⟨rfl, hacc⟩
      · obtain ⟨n, a, b, hw⟩ := s.begin.chargeWeeksThrough_weekly due
        rw [reportFinalized_toPurse, reportFinalized_toStage]
        refine ⟨hw.charged.probeTick, ?_⟩
        change (s.begin.chargeWeeksThrough due).toStage.probeAccepted = true
        rw [hw.stage]
        exact hacc
    obtain ⟨_, -, -, -, hg, -⟩ := payFinalAndClose_closed
      (by exact fun _ => hprobe.1.trans (hp hacc)) h
    rw [hg] at hl
    cases hl
  · cases h
    exact .crossed rfl hsub hd hdue hmeter (settleBoundaries_purse s.begin due)

theorem Sane.funded_of_opened (hs : Sane s) (ho : s.opened = true) : s.funded = true := by
  by_contra hn
  exact absurd ((hs.unfunded (by simpa using hn)).1.symm.trans ho) (by decide)

theorem Effect.meter_kept (hs : Sane s) (he : Effect s i u) (ha : s.probeAccepted = true)
    (hl : u.destroyed = false) (hc : ∀ n, i.call ≠ .claimTokens n) (hf : i.call ≠ .finalize)
    (hw : i.call ≠ .settleWeek) : u.toMeter = s.toMeter ∧ u.deposit = s.deposit := by
  have ho := hs.opened_of_accepted ha
  have hpurse : u.toPurse = s.toPurse → u.deposit = s.deposit := congrArg Purse.deposit
  cases he with
  | quiet _ _ _ hp hm => exact ⟨hm, hpurse hp⟩
  | bounced _ _ _ hp hm => exact ⟨hm, hpurse hp⟩
  | disputed _ _ _ hp hm => exact ⟨hm, hpurse hp⟩
  | matched _ _ _ ht => exact absurd ((hs.funded_of_opened ho).symm.trans ht.1) (by decide)
  | sellerBonded _ _ _ _ _ hp hm => exact ⟨hm, by rw [hp]⟩
  | buyerBonded _ _ _ _ _ hp hm => exact ⟨hm, by rw [hp]⟩
  | opened _ _ ho' => exact absurd (ho.symm.trans ho') (by decide)
  | accepted _ _ _ ha' => exact absurd (ha.symm.trans ha') (by decide)
  | claimed hc' => exact absurd hc' (hc _)
  | promoted hc' => exact absurd hc' hf
  | crossed hc' => exact absurd hc' hw
  | cleaned _ _ ho' => exact absurd (ho.symm.trans ho') (by decide)
  | withdrawn _ _ _ _ hp hm => exact ⟨hm, by rw [hp]⟩
  | freed _ _ hcl => exact absurd (hl.symm.trans hcl.destroyed) (by decide)
  | ended _ _ _ hx =>
    obtain ⟨_, _, _, hcl, -⟩ := hx.ends
    exact absurd (hl.symm.trans hcl.destroyed) (by decide)

theorem step_metered (hs : Sane s) (ha : s.probeAccepted = true) (h : s.step i = some u)
    (hl : u.destroyed = false) : Metered s i u := by
  obtain ⟨hlive, he⟩ := step_effect hs h
  unfold step at h
  rw [if_neg (by simp [hlive])] at h
  obtain ⟨caller, now, call⟩ := i
  cases call with
  | claimTokens => exact claimTokens_metered h
  | finalize => exact finalize_metered hl hs.noProbe h
  | settleWeek => exact settleWeek_metered hl hs.noProbe h
  | _ =>
    obtain ⟨hm, hp⟩ := he.meter_kept hs ha hl (fun n hn => by cases hn) nofun nofun
    exact .kept hm hp nofun

/-- Bonds and term of a live deal. -/
structure Bonded (s : TokenContract) : Prop where
  buyerBond : s.funded = true → s.isSubscription = true → s.buyerBond = s.bondAmount
  sellerBond : s.opened = true → s.sellerBondFunded = true
  term : s.isSubscription = true →
    s.subWeeks = SUB_WEEKS ∧ s.tokensPerWeek * SUB_WEEKS = s.fundedTokens

/-- Claims of a deal whose probe is accepted: within the escrow, and within the quota of the week
they are made in. -/
structure Counted (s : TokenContract) : Prop where
  claims : s.tokensPend ≤ s.fundedTokens
  weeks : s.weekIndex ≤ s.subWeeks
  base : s.weekBaseTokens ≤ s.tokensPend
  first : s.weekIndex = 0 → s.weekBaseTokens = 0
  quota : s.isSubscription = true →
    s.tokensPend ≤ max DEAL_TICK_SIZE (s.weekBaseTokens + s.tokensPerWeek)

/-- What the escrow and the bonds of a live deal cover. -/
structure Covered (s : TokenContract) : Prop where
  bonded : Bonded s
  counted : s.probeAccepted = true → Counted s

theorem claimCap_le {m : Meter} (h : m.tokensPend ≤ m.fundedTokens) :
    m.claimCap ≤ m.fundedTokens := by
  unfold Meter.claimCap
  split_ifs
  · exact Nat.le_refl _
  · exact h
  · exact Nat.min_le_right _ _

theorem claimCap_week {m : Meter} (hsub : m.subWeeks ≠ 0) {n : ℕ} (hlt : m.tokensPend < n)
    (h : n ≤ m.claimCap) : m.weekIndex < m.subWeeks ∧ n ≤ m.weekBaseTokens + m.tokensPerWeek := by
  unfold Meter.claimCap at h
  rw [if_neg hsub] at h
  split_ifs at h with hw
  · omega
  · exact ⟨by omega, h.trans (Nat.min_le_left _ _)⟩

/-- Crossing boundaries of the term keeps the count. -/
theorem Counted.cross (hc : Counted s) (hle : s.tokensFinal ≤ s.tokensPend) {e x y c d : ℕ}
    (hdue : e ≤ s.subWeeks) (hxy : s.tokensPend ≤ y) (hfund : y ≤ s.fundedTokens)
    (hq : s.isSubscription = true → y = s.tokensPend ∨
      y ≤ (s.toMeter.crossTo e).weekBaseTokens + s.tokensPerWeek)
    (hm : u.toMeter = { s.toMeter.crossTo e with
      tokensFinal := x, tokensPend := y, lastClaimTime := c, ticksFinalized := d }) :
    Counted u := by
  have hbase := Meter.crossTo_weekBaseTokens hle e
  have hidx := s.toMeter.crossTo_weekIndex e
  have hb := hc.base
  have hf := hc.first
  have hw := hc.weeks
  constructor
  · rw [hm]
    simpa using hfund
  · rw [hm]
    change (s.toMeter.crossTo e).weekIndex ≤ (s.toMeter.crossTo e).subWeeks
    rw [hidx, Meter.crossTo_subWeeks]
    omega
  · rw [hm]
    change (s.toMeter.crossTo e).weekBaseTokens ≤ y
    rw [hbase]
    split_ifs <;> omega
  · rw [hm]
    change (s.toMeter.crossTo e).weekIndex = 0 → (s.toMeter.crossTo e).weekBaseTokens = 0
    rw [hidx, hbase]
    intro h0
    rw [if_neg (by omega)]
    exact hf (by omega)
  · intro hsub
    have hsub' : s.isSubscription = true := by
      rw [← hsub]
      unfold isSubscription
      rw [hm]
      simp
    rw [hm]
    change y ≤ max _ ((s.toMeter.crossTo e).weekBaseTokens +
      (s.toMeter.crossTo e).tokensPerWeek)
    rw [Meter.crossTo_tokensPerWeek]
    rcases hq hsub' with rfl | h
    · have hquota := hc.quota hsub'
      rw [hbase]
      split_ifs <;> omega
    · exact h.trans (Nat.le_max_right _ _)

theorem Metered.counted (hs : Sane s) (hc : Counted s) (ha : s.probeAccepted = true)
    (hm : Metered s i u) : Counted u := by
  have hle : s.tokensFinal ≤ s.tokensPend := (hs.accepted ha).2.2.2
  cases hm with
  | kept hm _ _ =>
    apply hc.cross hle (e := 0) (Nat.zero_le _) (Nat.le_refl _) hc.claims (fun _ => .inl rfl)
    rw [hm, Meter.crossTo_of_le (Nat.zero_le _)]
  | @claimed n due _ _ hlt hdue hadm hm _ =>
    obtain ⟨d, hd⟩ := s.toMeter.settleTo_eq due true
    have hcap := hadm.1
    rw [hd] at hcap hm
    refine hc.cross hle ((weeksElapsedAt_le hdue).2 ▸ Nat.min_le_right _ _) (Nat.le_of_lt hlt) ?_
      (fun hsub => .inr ?_) hm
    · have h6 := claimCap_le (m := { s.toMeter.crossTo due with ticksFinalized := d })
        (by simpa using hc.claims)
      simpa using hcap.trans h6
    · have h6 := (claimCap_week (m := { s.toMeter.crossTo due with ticksFinalized := d })
        (by simpa [isSubscription] using hsub) (by simpa using hlt) hcap).2
      simpa using h6
  | promoted _ _ _ _ hm _ =>
    apply hc.cross hle (e := 0) (Nat.zero_le _) (Nat.le_refl _) hc.claims (fun _ => .inl rfl)
    rw [hm, Meter.crossTo_of_le (Nat.zero_le _)]
  | @crossed due _ hsub _ hdue hm _ =>
    obtain ⟨d, hd⟩ := s.toMeter.settleTo_eq due true
    apply hc.cross hle ((weeksElapsedAt_le hdue).2 ▸ Nat.min_le_right _ _) (Nat.le_refl _)
      hc.claims (fun _ => .inl rfl)
    rw [hm, hd, Meter.crossTo_claims]

theorem shape_term (m : Meter) (now flags n : ℕ) (h : (m.shape now flags (n * DEAL_TICK_SIZE)).subWeeks ≠ 0) :
    (m.shape now flags (n * DEAL_TICK_SIZE)).subWeeks = SUB_WEEKS ∧
      (m.shape now flags (n * DEAL_TICK_SIZE)).tokensPerWeek * SUB_WEEKS =
        (m.shape now flags (n * DEAL_TICK_SIZE)).fundedTokens := by
  unfold Meter.shape at h ⊢
  by_cases hf : flags &&& FLAG_SUBSCRIPTION ≠ 0
  · rw [if_pos hf]
    refine ⟨rfl, ?_⟩
    dsimp only
    rw [if_neg (by decide)]
    apply Nat.div_mul_cancel
    exact Dvd.dvd.mul_left (by decide) n
  · rw [if_neg hf] at h
    exact absurd rfl h

/-- Terms, bonds and term of a deal that a transaction does not touch. -/
structure SameDeal (s u : TokenContract) : Prop where
  terms : u.toTerms = s.toTerms
  subWeeks : u.subWeeks = s.subWeeks
  tokensPerWeek : u.tokensPerWeek = s.tokensPerWeek
  fundedTokens : u.fundedTokens = s.fundedTokens
  buyerBond : u.buyerBond = s.buyerBond
  funded : u.funded = s.funded
  bonded : u.sellerBondFunded = s.sellerBondFunded
  opened : u.opened = true → s.opened = true ∨ s.sellerBondFunded = true

theorem SameDeal.isSubscription (h : SameDeal s u) : u.isSubscription = s.isSubscription :=
  congrArg (fun n : ℕ => decide (n ≠ 0)) h.subWeeks

theorem SameDeal.bonded_keep (h : SameDeal s u) (hb : Bonded s) : Bonded u := by
  refine ⟨fun hf hsub => ?_, fun ho => ?_, fun hsub => ?_⟩
  · rw [h.buyerBond, h.terms]
    exact hb.buyerBond (h.funded.symm.trans hf) (h.isSubscription.symm.trans hsub)
  · rw [h.bonded]
    exact (h.opened ho).elim hb.sellerBond id
  · rw [h.subWeeks, h.tokensPerWeek, h.fundedTokens]
    exact hb.term (h.isSubscription.symm.trans hsub)

theorem Effect.bonded (hs : Sane s) (hc : Bonded s) (he : Effect s i u)
    (hl : u.destroyed = false) : Bonded u := by
  cases he with
  | quiet _ _ _ hp hm hg hpay =>
    apply SameDeal.bonded_keep _ hc
    exact ⟨hpay.terms, by rw [hm], by rw [hm], by rw [hm], by rw [hp], by rw [hg], by rw [hg],
      by rw [hg]; exact .inl⟩
  | bounced _ _ _ hp hm hg hpay =>
    apply SameDeal.bonded_keep _ hc
    exact ⟨hpay.terms, by rw [hm], by rw [hm], by rw [hm], by rw [hp], by rw [hg], by rw [hg],
      by rw [hg]; exact .inl⟩
  | @matched paid note pk flags _ _ _ ht hp hm hg hpay =>
    refine ⟨fun _ hsub => ?_, fun ho => ?_, fun hsub => ?_⟩
    · rw [hp, hpay.terms]
      unfold isSubscription at hsub
      rw [hm] at hsub
      unfold matchBond
      apply if_pos
      by_contra hn
      unfold Meter.shape at hsub
      rw [if_neg (not_not.mpr hn)] at hsub
      cases hsub
    · rw [hg] at ho
      exact absurd ((hs.unfunded ht.1).1.symm.trans ho) (by decide)
    · unfold isSubscription at hsub
      rw [hm] at hsub ⊢
      exact shape_term _ _ _ _ (of_decide_eq_true hsub)
  | sellerBonded _ _ _ _ _ hp hm hg hpay =>
    refine ⟨?_, fun _ => ?_, ?_⟩
    · rw [hp, hg, hpay.terms]
      unfold isSubscription
      rw [hm]
      exact hc.buyerBond
    · rw [hg]
    · unfold isSubscription
      rw [hm]
      exact hc.term
  | buyerBonded _ _ _ _ _ hp hm hg hpay =>
    refine ⟨fun _ _ => ?_, ?_, ?_⟩
    · rw [hp, hpay.terms]
    · rw [hg]
      exact hc.sellerBond
    · unfold isSubscription
      rw [hm]
      exact hc.term
  | opened _ _ _ hx _ _ hp hm hg hpay =>
    apply SameDeal.bonded_keep _ hc
    exact ⟨hpay.terms, by rw [hm], by rw [hm], by rw [hm], by rw [hp]; rfl, by rw [hg], by rw [hg],
      fun _ => .inr hx⟩
  | accepted _ _ _ _ hp hm hg hpay =>
    apply SameDeal.bonded_keep _ hc
    exact ⟨hpay.terms, by rw [hm]; rfl, by rw [hm]; rfl, by rw [hm]; rfl, by rw [hp]; rfl, by rw [hg],
      by rw [hg], by rw [hg]; exact .inl⟩
  | claimed _ _ _ _ _ hw _ _ _ _ hp hm hg hpay =>
    apply SameDeal.bonded_keep _ hc
    exact ⟨hpay.terms, by rw [hm, hw.meter]; rfl, by rw [hm, hw.meter]; rfl,
      by rw [hm, hw.meter]; rfl, by rw [hp]; exact hw.charged.buyerBond, by rw [hg], by rw [hg],
      by rw [hg]; exact .inl⟩
  | promoted _ _ _ _ _ hp hm hg hpay =>
    apply SameDeal.bonded_keep _ hc
    exact ⟨hpay.terms, by rw [hm], by rw [hm], by rw [hm], by rw [hp], by rw [hg], by rw [hg],
      by rw [hg]; exact .inl⟩
  | crossed _ _ _ _ hw _ _ hp hm hg hpay =>
    apply SameDeal.bonded_keep _ hc
    exact ⟨hpay.terms, by rw [hm, hw.meter]; rfl, by rw [hm, hw.meter]; rfl,
      by rw [hm, hw.meter]; rfl, by rw [hp]; exact hw.charged.buyerBond, by rw [hg], by rw [hg],
      by rw [hg]; exact .inl⟩
  | disputed _ ho _ hp hm hg hpay =>
    apply SameDeal.bonded_keep _ hc
    exact ⟨hpay.terms, by rw [hm], by rw [hm], by rw [hm], by rw [hp], by rw [hg], by rw [hg],
      fun _ => .inl ho⟩
  | cleaned _ _ ho _ hp hm hg =>
    refine ⟨fun hf => ?_, fun ho' => ?_, ?_⟩
    · rw [hg] at hf
      cases hf
    · rw [hg] at ho'
      exact absurd (ho.symm.trans ho') (by decide)
    · unfold isSubscription
      rw [hm]
      exact hc.term
  | withdrawn _ _ _ _ hp hm hg hpay =>
    apply SameDeal.bonded_keep _ hc
    exact ⟨hpay.terms, by rw [hm], by rw [hm], by rw [hm], by rw [hp], by rw [hg], by rw [hg],
      by rw [hg]; exact .inl⟩
  | freed _ _ hcl => exact absurd (hl.symm.trans hcl.destroyed) (by decide)
  | ended _ _ _ hx =>
    obtain ⟨_, _, _, hcl, -⟩ := hx.ends
    exact absurd (hl.symm.trans hcl.destroyed) (by decide)

theorem Effect.accepts (he : Effect s i u) (hn : s.probeAccepted = false)
    (ha : u.probeAccepted = true) (hl : u.destroyed = false) :
    u.toMeter = s.toMeter.acceptProbe i.now ∧ s.opened = true ∧ s.disputed = false ∧
      u.toPurse = s.toPurse.acceptProbe (feeOf s.pricePerTick) ∧
      u.toStage = { s.toStage with probeAccepted := true } := by
  have hkeep : u.probeAccepted = s.probeAccepted → False := fun h =>
    absurd ((ha.symm.trans h).trans hn) (by decide)
  cases he with
  | accepted _ ho hd _ hp hm hg => exact ⟨hm, ho, hd, hp, hg⟩
  | opened _ _ _ _ _ _ _ _ hg =>
    rw [hg] at ha
    cases ha
  | claimed _ _ _ ha' => exact absurd (hn.symm.trans ha') (by decide)
  | crossed _ _ _ ha' => exact absurd (hn.symm.trans ha') (by decide)
  | promoted _ _ _ _ _ _ _ hg => exact (hkeep (by rw [hg])).elim
  | freed _ _ hcl => exact absurd (hl.symm.trans hcl.destroyed) (by decide)
  | ended _ _ _ hx =>
    obtain ⟨_, _, _, hcl, -⟩ := hx.ends
    exact absurd (hl.symm.trans hcl.destroyed) (by decide)
  | quiet _ _ _ _ _ hg => exact (hkeep (by rw [hg])).elim
  | bounced _ _ _ _ _ hg => exact (hkeep (by rw [hg])).elim
  | matched _ _ _ _ _ _ hg => exact (hkeep (by rw [hg])).elim
  | sellerBonded _ _ _ _ _ _ _ hg => exact (hkeep (by rw [hg])).elim
  | buyerBonded _ _ _ _ _ _ _ hg => exact (hkeep (by rw [hg])).elim
  | disputed _ _ _ _ _ hg => exact (hkeep (by rw [hg])).elim
  | cleaned _ _ _ _ _ _ hg => exact (hkeep (by rw [hg])).elim
  | withdrawn _ _ _ _ _ _ hg => exact (hkeep (by rw [hg])).elim

theorem init_covered (t : Terms) : Covered (init t) where
  bonded := ⟨nofun, nofun, nofun⟩
  counted := fun h => by cases h

theorem step_covered (hs : Sane s) (hc : Covered s) (h : s.step i = some u)
    (hl : u.destroyed = false) : Covered u := by
  have he := (step_effect hs h).2
  refine ⟨he.bonded hs hc.bonded hl, fun hu => ?_⟩
  cases ha : s.probeAccepted with
  | true => exact (step_metered hs ha h hl).counted hs (hc.counted ha) ha
  | false =>
    obtain ⟨hm, ho, -⟩ := he.accepts ha hu hl
    constructor
    · rw [hm]
      exact hs.size (hs.funded_of_opened ho)
    · rw [hm]
      exact (hs.unaccepted ha).2.2.2.2.2 ▸ Nat.zero_le _
    · rw [hm]
      exact Nat.zero_le _
    · rw [hm]
      exact fun _ => rfl
    · rw [hm]
      exact fun _ => Nat.le_max_left _ _

theorem run_covered {t : Terms} (ht : t.Valid) {tr : List (Input × TokenContract)}
    (h : Run step (init t) tr u) (hl : u.destroyed = false) : Covered u := by
  refine h.invariant (fun _ u => u.destroyed = false → Covered u) (fun _ => init_covered t) ?_ hl
  intro tr s i u hr hc hi hu
  have hlive := step_live hi
  exact step_covered (run_sane ht hr hlive) (hc hlive) hi hu

end TokenContract

end Dexdo
