import Dexdo.TokenContract.Stake

namespace Dexdo

namespace Terms

variable {t : Terms} {a b n : ℕ}

theorem price_steps (hp : PRICE_STEP ∣ t.pricePerTick) :
    t.pricePerTick = PRICE_STEP * (t.pricePerTick / PRICE_STEP) := (Nat.mul_div_cancel' hp).symm

theorem payOf_exact (hv : t.Valid) (hp : PRICE_STEP ∣ t.pricePerTick)
    (h : n ≤ t.maxTicks * DEAL_TICK_SIZE) :
    t.payOf n = n * (t.pricePerTick / PRICE_STEP) * 1000 := by
  have hk := price_steps hp
  generalize t.pricePerTick / PRICE_STEP = k at hk ⊢
  rw [payOf_eq hv h, hk]
  apply Nat.div_eq_of_eq_mul_right (by decide)
  simp only [DEAL_TICK_SIZE, PRICE_STEP]
  ring

theorem payFeeOf_exact (hv : t.Valid) (hp : PRICE_STEP ∣ t.pricePerTick)
    (h : n ≤ t.maxTicks * DEAL_TICK_SIZE) :
    t.payFeeOf n = n * (t.pricePerTick / PRICE_STEP) * 25 := by
  unfold payFeeOf
  rw [feeOf_eq (t.payOf_lt n), payOf_exact hv hp h]
  simp only [PLATFORM_FEE_BPS, BPS_DENOMINATOR]
  omega

theorem valueOf_exact (hv : t.Valid) (hp : PRICE_STEP ∣ t.pricePerTick)
    (h : n ≤ t.maxTicks * DEAL_TICK_SIZE) :
    t.valueOf n = n * (t.pricePerTick / PRICE_STEP * 1025) := by
  unfold valueOf
  rw [payOf_exact hv hp h, payFeeOf_exact hv hp h]
  ring

theorem unit_exact (hv : t.Valid) (hp : PRICE_STEP ∣ t.pricePerTick) :
    t.unit = DEAL_TICK_SIZE * (t.pricePerTick / PRICE_STEP * 1025) := by
  have hk := price_steps hp
  unfold unit
  rw [feeOf_eq hv.price_lt]
  generalize t.pricePerTick / PRICE_STEP = k at hk ⊢
  rw [hk]
  simp only [PLATFORM_FEE_BPS, BPS_DENOMINATOR, PRICE_STEP, DEAL_TICK_SIZE]
  omega

theorem valueOf_add (hv : t.Valid) (hp : PRICE_STEP ∣ t.pricePerTick)
    (h : a + b ≤ t.maxTicks * DEAL_TICK_SIZE) : t.valueOf a + t.valueOf b = t.valueOf (a + b) := by
  rw [valueOf_exact hv hp h, valueOf_exact hv hp (by omega), valueOf_exact hv hp (by omega)]
  ring

theorem valueOf_ticks (hv : t.Valid) (hp : PRICE_STEP ∣ t.pricePerTick) (h : n ≤ t.maxTicks) :
    t.valueOf (n * DEAL_TICK_SIZE) = n * t.unit := by
  rw [valueOf_exact hv hp (Nat.mul_le_mul_right _ h), unit_exact hv hp]
  ring

theorem valueOf_tick (hv : t.Valid) (hp : PRICE_STEP ∣ t.pricePerTick) :
    t.valueOf DEAL_TICK_SIZE = t.unit := by
  have h := valueOf_ticks hv hp (n := 1) (by have := hv.2.1; omega)
  rwa [Nat.one_mul, Nat.one_mul] at h

end Terms

namespace TokenContract

variable {s t u : TokenContract} {i : Input} {τ : ℕ} {tr : List (Input × TokenContract)}

/-- The clock of a deal at time `τ`: the boundaries charged have passed, those of a disputed deal
before the dispute. -/
structure Clocked (τ : ℕ) (s : TokenContract) : Prop where
  raised : s.disputed = true → s.disputeTime ≤ τ
  weeks : s.probeAccepted = true → s.periodStart + s.weekIndex * SUB_WEEK_LEN ≤ τ
  dispute : s.disputed = true →
    s.probeAccepted = true → s.periodStart + s.weekIndex * SUB_WEEK_LEN ≤ s.disputeTime

theorem Clocked.later {τ' : ℕ} (h : Clocked τ s) (hle : τ ≤ τ') : Clocked τ' s :=
  ⟨fun hd => (h.raised hd).trans hle, fun ha => (h.weeks ha).trans hle, h.dispute⟩

theorem elapsed_passed {m : Meter} {e : ℕ} (h : m.weeksElapsedAt τ = some e) :
    m.periodStart + e * SUB_WEEK_LEN ≤ τ := by
  obtain ⟨h1, h2⟩ := weeksElapsedAt_le h
  have h3 : e ≤ (τ - m.periodStart) / SUB_WEEK_LEN := h2 ▸ Nat.min_le_left _ _
  have h4 := (Nat.le_div_iff_mul_le (by decide)).mp h3
  omega

theorem Metered.clocked (hm : Metered s i u) (ha : s.probeAccepted = true) (hc : Clocked i.now s) :
    u.periodStart = s.periodStart ∧
      (s.disputed = true → u.weekIndex = s.weekIndex) ∧
      u.periodStart + u.weekIndex * SUB_WEEK_LEN ≤ i.now := by
  have hw := hc.weeks ha
  have hcross : ∀ {due}, s.weeksElapsedAt i.now = some due →
      s.periodStart + (s.toMeter.crossTo due).weekIndex * SUB_WEEK_LEN ≤ i.now := by
    intro due hdue
    rw [Meter.crossTo_weekIndex]
    rcases Nat.le_total s.weekIndex due with h | h
    · rw [Nat.max_eq_right h]
      exact elapsed_passed hdue
    · rw [Nat.max_eq_left h]
      exact hw
  cases hm with
  | kept hm =>
    rw [hm]
    exact ⟨rfl, fun _ => rfl, hw⟩
  | @claimed n due _ hd _ hdue _ hm =>
    obtain ⟨d, hs⟩ := s.toMeter.settleTo_eq due true
    rw [hs] at hm
    have hp : u.periodStart = s.periodStart := by
      rw [hm]
      exact s.toMeter.crossTo_periodStart due
    refine ⟨hp, fun h => absurd (hd.symm.trans h) (by decide), ?_⟩
    rw [hp, hm]
    exact hcross hdue
  | promoted _ hd _ _ hm =>
    rw [hm]
    exact ⟨rfl, fun _ => rfl, hw⟩
  | @crossed due _ _ hd hdue hm =>
    obtain ⟨d, hs⟩ := s.toMeter.settleTo_eq due true
    rw [hs] at hm
    have hp : u.periodStart = s.periodStart := by
      rw [hm]
      exact s.toMeter.crossTo_periodStart due
    refine ⟨hp, fun h => absurd (hd.symm.trans h) (by decide), ?_⟩
    rw [hp, hm]
    exact hcross hdue

/-- Transactions on an accepted deal that it survives: the dispute is raised by `dispute` alone, and
no transaction takes it back. -/
theorem Effect.dispute_stage (hs : Sane s) (he : Effect s i u) (ha : s.probeAccepted = true)
    (hl : u.destroyed = false) : u.probeAccepted = true ∧
      (u.disputed = s.disputed ∧ u.disputeTime = s.disputeTime ∨
        s.disputed = false ∧ u.disputed = true ∧ u.disputeTime = i.now) := by
  have ho := hs.opened_of_accepted ha
  have hkeep : u.probeAccepted = s.probeAccepted → u.disputed = s.disputed →
      u.disputeTime = s.disputeTime → u.probeAccepted = true ∧
        (u.disputed = s.disputed ∧ u.disputeTime = s.disputeTime ∨
          s.disputed = false ∧ u.disputed = true ∧ u.disputeTime = i.now) :=
    fun h1 h2 h3 => ⟨h1.trans ha, .inl ⟨h2, h3⟩⟩
  cases he with
  | quiet _ _ _ _ _ hg => exact hkeep (by rw [hg]) (by rw [hg]) (by rw [hg])
  | bounced _ _ _ _ _ hg => exact hkeep (by rw [hg]) (by rw [hg]) (by rw [hg])
  | claimed _ _ _ _ _ _ _ _ _ _ _ _ hg => exact hkeep (by rw [hg]) (by rw [hg]) (by rw [hg])
  | promoted _ _ _ _ _ _ _ hg => exact hkeep (by rw [hg]) (by rw [hg]) (by rw [hg])
  | crossed _ _ _ _ _ _ _ _ _ hg => exact hkeep (by rw [hg]) (by rw [hg]) (by rw [hg])
  | withdrawn _ _ _ _ _ _ hg => exact hkeep (by rw [hg]) (by rw [hg]) (by rw [hg])
  | disputed _ _ hd _ _ hg =>
    rw [hg]
    exact ⟨ha, .inr ⟨hd, rfl, rfl⟩⟩
  | matched _ _ _ ht => exact absurd ((hs.funded_of_opened ho).symm.trans ht.1) (by decide)
  | sellerBonded _ _ ho' => exact absurd (ho.symm.trans ho') (by decide)
  | buyerBonded _ _ ho' => exact absurd (ho.symm.trans ho') (by decide)
  | opened _ _ ho' => exact absurd (ho.symm.trans ho') (by decide)
  | accepted _ _ _ ha' => exact absurd (ha.symm.trans ha') (by decide)
  | cleaned _ _ ho' => exact absurd (ho.symm.trans ho') (by decide)
  | freed _ _ hcl => exact absurd (hl.symm.trans hcl.destroyed) (by decide)
  | ended _ _ _ hx =>
    obtain ⟨_, _, _, hcl, -⟩ := hx.ends
    exact absurd (hl.symm.trans hcl.destroyed) (by decide)

theorem Effect.raised (he : Effect s i u) (hc : Clocked i.now s)
    (hl : u.destroyed = false) (hd : u.disputed = true) : u.disputeTime ≤ i.now := by
  have hkeep : u.disputed = s.disputed → u.disputeTime = s.disputeTime → u.disputeTime ≤ i.now :=
    fun h1 h2 => h2 ▸ hc.raised (h1.symm.trans hd)
  cases he with
  | disputed _ _ _ _ _ hg => rw [hg]
  | quiet _ _ _ _ _ hg => exact hkeep (by rw [hg]) (by rw [hg])
  | bounced _ _ _ _ _ hg => exact hkeep (by rw [hg]) (by rw [hg])
  | matched _ _ _ _ _ _ hg => exact hkeep (by rw [hg]) (by rw [hg])
  | sellerBonded _ _ _ _ _ _ _ hg => exact hkeep (by rw [hg]) (by rw [hg])
  | buyerBonded _ _ _ _ _ _ _ hg => exact hkeep (by rw [hg]) (by rw [hg])
  | opened _ _ _ _ _ _ _ _ hg => exact hkeep (by rw [hg]) (by rw [hg])
  | accepted _ _ _ _ _ _ hg => exact hkeep (by rw [hg]) (by rw [hg])
  | claimed _ _ _ _ _ _ _ _ _ _ _ _ hg => exact hkeep (by rw [hg]) (by rw [hg])
  | promoted _ _ _ _ _ _ _ hg => exact hkeep (by rw [hg]) (by rw [hg])
  | crossed _ _ _ _ _ _ _ _ _ hg => exact hkeep (by rw [hg]) (by rw [hg])
  | cleaned _ _ _ _ _ _ hg => exact hkeep (by rw [hg]) (by rw [hg])
  | withdrawn _ _ _ _ _ _ hg => exact hkeep (by rw [hg]) (by rw [hg])
  | freed _ _ hcl => exact absurd (hl.symm.trans hcl.destroyed) (by decide)
  | ended _ _ _ hx =>
    obtain ⟨_, _, _, hcl, -⟩ := hx.ends
    exact absurd (hl.symm.trans hcl.destroyed) (by decide)

theorem step_clocked (hs : Sane s) (hc : Clocked i.now s) (h : s.step i = some u)
    (hl : u.destroyed = false) : Clocked i.now u := by
  have he := (step_effect hs h).2
  cases ha : s.probeAccepted with
  | true =>
    obtain ⟨h1, h2, h3⟩ := (step_metered hs ha h hl).clocked ha hc
    refine ⟨he.raised hc hl, fun _ => h3, fun hd _ => ?_⟩
    rcases (he.dispute_stage hs ha hl).2 with ⟨k1, k2⟩ | ⟨-, -, k2⟩
    · have hd' := k1.symm.trans hd
      rw [k2, h1, h2 hd']
      exact hc.dispute hd' ha
    · rw [k2]
      exact h3
  | false =>
    have hstart : u.probeAccepted = true → u.periodStart + u.weekIndex * SUB_WEEK_LEN = i.now ∧
        u.disputed = false := by
      intro hu
      obtain ⟨hm, -, hd, -, hg⟩ := he.accepts ha hu hl
      have h0 : s.weekIndex = 0 := (hs.unaccepted ha).2.2.2.2.2
      rw [hm, hg]
      refine ⟨?_, hd⟩
      change i.now + s.weekIndex * SUB_WEEK_LEN = i.now
      rw [h0, Nat.zero_mul, Nat.add_zero]
    refine ⟨he.raised hc hl, fun hu => (hstart hu).1.le, fun hd hu => ?_⟩
    exact absurd ((hstart hu).2.symm.trans hd) (by decide)

theorem run_clocked {t : Terms} (ht : t.Valid) (h : Run step (init t) tr u)
    (ho : Run.Ordered Input.now tr) (hu : Run.Until Input.now τ tr) (hl : u.destroyed = false) :
    Clocked τ u := by
  refine ho.invariant (fun τ u => u.destroyed = false → Clocked τ u) ?_ ?_ ?_ h hu hl
  · exact fun _ _ => ⟨nofun, nofun, nofun⟩
  · exact fun τ τ' u hle hc hl => (hc hl).later hle
  · intro tr s i u hr hc hi hu
    have hlive := step_live hi
    exact step_clocked (run_sane ht hr hlive) (hc hlive) hi hu

theorem weekDue_covered (hv : s.toTerms.Valid) (hstep : PRICE_STEP ∣ s.pricePerTick)
    (hpace : Paced s) (hq : DEAL_TICK_SIZE ≤ s.tokensPerWeek)
    (hf : s.fundedTokens ≤ s.maxTicks * DEAL_TICK_SIZE)
    (hn : (s.weekIndex + 1) * s.tokensPerWeek ≤ s.fundedTokens)
    (hd : s.deposit + s.valueOf s.tokensPaid = s.valueOf s.fundedTokens) :
    s.weekDue + s.tokensPaid = (s.weekIndex + 1) * s.tokensPerWeek ∧
      s.valueOf s.weekDue + s.valueOf s.tokensPaid =
        s.valueOf ((s.weekIndex + 1) * s.tokensPerWeek) ∧
      s.valueOf s.weekDue ≤ s.deposit := by
  have hpaid : s.tokensPaid ≤ (s.weekIndex + 1) * s.tokensPerWeek := by
    rcases Nat.eq_zero_or_pos s.weekIndex with h0 | h0
    · rw [hpace.first h0, h0]
      omega
    · rw [hpace.later h0]
      exact Nat.mul_le_mul_right _ (Nat.le_succ _)
  have hdue : s.weekDue + s.tokensPaid = (s.weekIndex + 1) * s.tokensPerWeek :=
    Nat.sub_add_cancel hpaid
  have hsum : s.valueOf s.weekDue + s.valueOf s.tokensPaid =
      s.valueOf ((s.weekIndex + 1) * s.tokensPerWeek) := by
    rw [Terms.valueOf_add hv hstep (by omega), hdue]
  have hle : s.valueOf ((s.weekIndex + 1) * s.tokensPerWeek) ≤ s.valueOf s.fundedTokens :=
    Terms.valueOf_mono hv hn hf
  exact ⟨hdue, hsum, by omega⟩

theorem chargeWeeks_deposit (n : ℕ) (hv : s.toTerms.Valid) (hstep : PRICE_STEP ∣ s.pricePerTick)
    (hpace : Paced s) (hq : DEAL_TICK_SIZE ≤ s.tokensPerWeek)
    (hf : s.fundedTokens ≤ s.maxTicks * DEAL_TICK_SIZE)
    (hn : (s.weekIndex + n) * s.tokensPerWeek ≤ s.fundedTokens)
    (hd : s.deposit + s.valueOf s.tokensPaid = s.valueOf s.fundedTokens) :
    (chargeWeeks n s).deposit + s.valueOf (chargeWeeks n s).tokensPaid =
      s.valueOf s.fundedTokens := by
  induction n generalizing s with
  | zero => exact hd
  | succ n ih =>
    have hnext : (s.weekIndex + 1) * s.tokensPerWeek ≤ s.fundedTokens :=
      le_trans (Nat.mul_le_mul_right _ (by omega)) hn
    obtain ⟨-, hsum, hcover⟩ := weekDue_covered hv hstep hpace hq hf hnext hd
    obtain ⟨a, -, b, -, hc, hab⟩ :=
      s.toPurse.charge_charged (s.payOf s.weekDue) (s.payFeeOf s.weekDue)
    have hdep : s.chargeWeek.deposit + (a + b) = s.deposit := hc.deposit
    have hroom : a + b = s.valueOf s.weekDue := by
      rw [hab]
      exact Nat.min_eq_left hcover
    apply ih (s := s.chargeWeek) hv hstep (.chargeWeek s) hq hf
    · change (s.weekIndex + 1 + n) * s.tokensPerWeek ≤ s.fundedTokens
      rwa [Nat.add_assoc, Nat.add_comm 1 n]
    · change s.chargeWeek.deposit + s.valueOf ((s.weekIndex + 1) * s.tokensPerWeek) =
        s.valueOf s.fundedTokens
      omega

/-- A match pays for whole ticks, on a subscription for as many in every week, as each fill of the
book does (`fill_paysWhole`). -/
def PaysWhole (s : TokenContract) (i : Input) : Prop :=
  match i.call with
  | .fundFromOrderBook paid _ _ flags => s.fromBook i.caller = true →
    s.unit ∣ paid - s.matchBond flags ∧
      (flags &&& FLAG_SUBSCRIPTION ≠ 0 → SUB_WEEKS * s.unit ∣ paid - s.matchBond flags)
  | _ => True

instance (s : TokenContract) (i : Input) : Decidable (s.PaysWhole i) := by
  unfold PaysWhole
  split <;> infer_instance

/-- Escrow and paid tokens of a live deal add up to what was bought. -/
structure Escrowed (s : TokenContract) : Prop where
  funded : s.funded = true → s.opened = false → s.deposit = s.valueOf s.fundedTokens
  opened : s.opened = true → s.probeAccepted = false →
    s.deposit + s.pricePerTick = s.valueOf s.fundedTokens
  accepted : s.probeAccepted = true →
    s.deposit + s.valueOf s.tokensPaid = s.valueOf s.fundedTokens
  term : s.isSubscription = true → DEAL_TICK_SIZE ≤ s.tokensPerWeek

/-- Weeks charged on an accepted deal, by whatever call. -/
theorem Escrowed.charge {v : TokenContract} {x y : ℕ} (hs : Sane s) (hc : Covered s)
    (he : Escrowed s) (hstep : PRICE_STEP ∣ s.pricePerTick) (ha : s.probeAccepted = true)
    (hterms : v.toTerms = s.toTerms) (hdep : v.deposit = s.deposit)
    (hm : v.toMeter = { s.toMeter with tokensFinal := x, tokensPend := y }) {e : ℕ} (hdue : e ≤ s.subWeeks) :
    (v.chargeWeeksThrough e).deposit + s.valueOf (v.chargeWeeksThrough e).tokensPaid =
      s.valueOf s.fundedTokens := by
  have hfund : v.fundedTokens = s.fundedTokens := by rw [hm]
  have hpaid : v.deposit + s.valueOf v.tokensPaid = s.valueOf s.fundedTokens := by
    rw [hdep, hm]
    exact he.accepted ha
  unfold chargeWeeksThrough
  split_ifs with h
  · exact hpaid
  · have hsub : s.isSubscription = true := by
      have hv : v.isSubscription = true := by
        by_contra hn
        exact h (.inl hn)
      unfold isSubscription at hv ⊢
      rwa [hm] at hv
    obtain ⟨h1, h2⟩ := hc.bonded.term hsub
    have hpace : Paced v :=
      (hs.accepted ha).2.1.congr (by rw [hm]) (by rw [hm]) (by rw [hm])
    have hw := (hc.counted ha).weeks
    have hidx : v.weekIndex = s.weekIndex := by rw [hm]
    have hq : v.tokensPerWeek = s.tokensPerWeek := by rw [hm]
    rw [← hfund, ← hterms]
    apply chargeWeeks_deposit (s := v)
    · rw [hterms]
      exact hs.valid
    · rw [hterms]
      exact hstep
    · exact hpace
    · rw [hq]
      exact he.term hsub
    · rw [hfund, hterms]
      exact hs.funds
    · rw [hidx, hq, hfund, ← h2, Nat.mul_comm]
      apply Nat.mul_le_mul_left
      rw [← h1]
      omega
    · rw [hterms, hfund]
      exact hpaid

theorem matched_value (hs : Sane s) (hstep : PRICE_STEP ∣ s.pricePerTick) {paid flags : ℕ}
    (ht : s.takesMatch paid flags) (hw : s.unit ∣ paid - s.matchBond flags) :
    s.valueOf ((paid - s.matchBond flags) / s.unit * DEAL_TICK_SIZE) =
      paid - s.matchBond flags := by
  rw [Terms.valueOf_ticks hs.valid hstep (takesMatch_ticks hs.valid ht).2]
  exact Nat.div_mul_cancel hw

theorem matched_term (hs : Sane s) {paid flags now : ℕ} (ht : s.takesMatch paid flags)
    (hw : flags &&& FLAG_SUBSCRIPTION ≠ 0 → SUB_WEEKS * s.unit ∣ paid - s.matchBond flags)
    (hsub : (s.toMeter.shape now flags
      ((paid - s.matchBond flags) / s.unit * DEAL_TICK_SIZE)).subWeeks ≠ 0) :
    DEAL_TICK_SIZE ≤ (s.toMeter.shape now flags
      ((paid - s.matchBond flags) / s.unit * DEAL_TICK_SIZE)).tokensPerWeek := by
  have hu : 0 < s.unit := Nat.add_pos_left hs.valid.1 _
  have h2 := (takesMatch_ticks hs.valid ht).1
  obtain ⟨h3, h4⟩ := shape_term _ _ _ _ hsub
  have hflag : flags &&& FLAG_SUBSCRIPTION ≠ 0 := by
    intro hn
    unfold Meter.shape at hsub
    rw [if_neg (not_not.mpr hn)] at hsub
    exact hsub rfl
  obtain ⟨k, hk⟩ := hw hflag
  have hticks : (paid - s.matchBond flags) / s.unit = SUB_WEEKS * k := by
    rw [hk, Nat.mul_right_comm]
    exact Nat.mul_div_cancel _ hu
  rw [hticks] at h2 h4 ⊢
  change _ = SUB_WEEKS * k * DEAL_TICK_SIZE at h4
  simp only [SUB_WEEKS, DEAL_TICK_SIZE] at h2 h4 ⊢
  omega

theorem accepted_escrow (hs : Sane s) (he : Escrowed s) (hstep : PRICE_STEP ∣ s.pricePerTick)
    (ho : s.opened = true) (ha : s.probeAccepted = false) :
    (s.toPurse.acceptProbe (feeOf s.pricePerTick)).deposit + s.valueOf DEAL_TICK_SIZE =
      s.valueOf s.fundedTokens := by
  have h1 := he.opened ho ha
  have h2 : s.valueOf DEAL_TICK_SIZE ≤ s.valueOf s.fundedTokens :=
    Terms.valueOf_mono hs.valid (hs.size (hs.funded_of_opened ho)) hs.funds
  have h3 := Terms.valueOf_tick hs.valid hstep
  have h4 : s.unit = s.pricePerTick + feeOf s.pricePerTick := rfl
  unfold Purse.acceptProbe
  dsimp only
  split_ifs <;> omega

theorem Escrowed.keep (he : Escrowed s) (hs : Sane s) (ht : u.toTerms = s.toTerms)
    (hm : u.toMeter = s.toMeter) (hd : s.funded = true → u.deposit = s.deposit)
    (hf : u.funded = s.funded) (ho : u.opened = s.opened)
    (ha : u.probeAccepted = s.probeAccepted) : Escrowed u := by
  constructor
  · rw [hf, ho, ht, hm]
    intro h1 h2
    rw [hd h1]
    exact he.funded h1 h2
  · rw [ho, ha, ht, hm]
    intro h1 h2
    rw [hd (hs.funded_of_opened h1)]
    exact he.opened h1 h2
  · rw [ha, ht, hm]
    intro h1
    rw [hd (hs.funded_of_opened (hs.opened_of_accepted h1))]
    exact he.accepted h1
  · unfold isSubscription
    rw [hm]
    exact he.term

theorem Effect.terms (he : Effect s i u) : u.toTerms = s.toTerms := by
  cases he with
  | freed _ _ hcl => exact hcl.moved.terms
  | ended _ _ _ hx =>
    obtain ⟨_, _, _, hcl, -⟩ := hx.ends
    exact hcl.moved.terms
  | _ => exact Paid.terms (by assumption)

theorem run_terms {tr : List (Input × TokenContract)} (hl : u.destroyed = false)
    (hs : Sane s) (h : Run step s tr u) : u.toTerms = s.toTerms := by
  refine (h.state_invariant (fun u => u.destroyed = false → Sane u ∧ u.toTerms = s.toTerms)
    (fun _ => ⟨hs, rfl⟩) ?_ hl).2
  intro t i u hI hi hu
  obtain ⟨h1, h2⟩ := hI (step_live hi)
  exact ⟨step_sane h1 hi hu, (step_effect h1 hi).2.terms.trans h2⟩

/-- On an accepted deal escrow and paid tokens stay in step. -/
theorem Metered.escrowed (hm : Metered s i u) (hs : Sane s) (hc : Covered s) (he : Escrowed s)
    (hstep : PRICE_STEP ∣ s.pricePerTick) (ha : s.probeAccepted = true) :
    u.deposit + s.valueOf u.tokensPaid = s.valueOf u.fundedTokens ∧
      u.subWeeks = s.subWeeks ∧ u.tokensPerWeek = s.tokensPerWeek := by
  have hcharge : ∀ {due : ℕ} {m : Meter}, s.weeksElapsedAt i.now = some due →
      u.toPurse = (s.begin.chargeWeeksThrough due).toPurse → u.toMeter = m →
      m.tokensPaid = (s.toMeter.crossTo due).tokensPaid →
      m.fundedTokens = s.fundedTokens →
      u.deposit + s.valueOf u.tokensPaid = s.valueOf u.fundedTokens := by
    intro due m hdue hp hm h1 h2
    have hdue' : due ≤ s.subWeeks := (weeksElapsedAt_le hdue).2 ▸ Nat.min_le_right _ _
    have hkey := he.charge (v := s.begin) (x := s.tokensFinal) (y := s.tokensPend) hs hc hstep ha
      rfl rfl rfl hdue'
    have hpaid : (s.begin.chargeWeeksThrough due).tokensPaid =
        (s.toMeter.crossTo due).tokensPaid := by
      cases hsub : s.isSubscription with
      | true => rw [chargeWeeksThrough_meter (s := s.begin) hsub ha]; rfl
      | false =>
        have h0 : s.subWeeks = 0 := by simpa [isSubscription] using hsub
        rw [chargeWeeksThrough_ordinary (s := s.begin) hsub,
          Meter.crossTo_of_le (by omega : due ≤ s.toMeter.weekIndex)]
        rfl
    rw [hp, hm, h1, h2, ← hpaid]
    exact hkey
  cases hm with
  | kept hm hp =>
    rw [hp, hm]
    exact ⟨he.accepted ha, rfl, rfl⟩
  | @claimed n due _ _ _ hdue _ hm hp =>
    obtain ⟨d, hd⟩ := s.toMeter.settleTo_eq due true
    rw [hd] at hm
    refine ⟨hcharge hdue hp hm rfl (Meter.crossTo_fundedTokens _ _), ?_, ?_⟩
    · rw [hm]
      exact Meter.crossTo_subWeeks _ _
    · rw [hm]
      exact Meter.crossTo_tokensPerWeek _ _
  | promoted _ _ _ _ hm hp =>
    rw [hp, hm]
    exact ⟨he.accepted ha, rfl, rfl⟩
  | @crossed due _ _ _ hdue hm hp =>
    obtain ⟨d, hd⟩ := s.toMeter.settleTo_eq due true
    rw [hd] at hm
    refine ⟨hcharge hdue hp hm rfl (Meter.crossTo_fundedTokens _ _), ?_, ?_⟩
    · rw [hm]
      exact Meter.crossTo_subWeeks _ _
    · rw [hm]
      exact Meter.crossTo_tokensPerWeek _ _

/-- Transactions on a deal whose probe is not accepted. -/
theorem Effect.escrowed (he : Effect s i u) (hs : Sane s) (hx : Escrowed s)
    (hstep : PRICE_STEP ∣ s.pricePerTick) (hpay : s.PaysWhole i) (ha : s.probeAccepted = false)
    (hl : u.destroyed = false) : Escrowed u := by
  have hpurse : u.toPurse = s.toPurse → s.funded = true → u.deposit = s.deposit :=
    fun h _ => congrArg Purse.deposit h
  have hterms := he.terms
  cases he with
  | quiet _ _ _ hp hm hg =>
    exact hx.keep hs hterms hm (hpurse hp) (by rw [hg]) (by rw [hg]) (by rw [hg])
  | bounced _ _ _ hp hm hg =>
    exact hx.keep hs hterms hm (hpurse hp) (by rw [hg]) (by rw [hg]) (by rw [hg])
  | @matched paid note pk flags hc hb _ ht hp hm hg =>
    have ho := (hs.unfunded ht.1).1
    unfold PaysWhole at hpay
    rw [hc] at hpay
    obtain ⟨hw1, hw2⟩ := hpay hb
    constructor
    · intro _ _
      rw [hp, hm, hterms]
      exact (matched_value hs hstep ht hw1).symm
    · rw [hg]
      intro h
      exact absurd (ho.symm.trans h) (by decide)
    · rw [hg]
      intro h
      exact absurd (ha.symm.trans h) (by decide)
    · unfold isSubscription
      rw [hm]
      intro h
      exact matched_term hs ht hw2 (of_decide_eq_true h)
  | sellerBonded _ _ _ _ _ hp hm hg =>
    exact hx.keep hs hterms hm (fun _ => by rw [hp]) (by rw [hg]) (by rw [hg]) (by rw [hg])
  | buyerBonded _ _ _ _ _ hp hm hg =>
    exact hx.keep hs hterms hm (fun _ => by rw [hp]) (by rw [hg]) (by rw [hg]) (by rw [hg])
  | opened _ hf ho _ _ hd hp hm hg =>
    have h1 := hx.funded hf ho
    constructor
    · rw [hg]
      exact fun _ h => by cases h
    · intro _ _
      rw [hp, hm, hterms]
      unfold Purse.takeProbe
      dsimp only
      omega
    · rw [hg]
      exact fun h => by cases h
    · unfold isSubscription
      rw [hm]
      exact hx.term
  | accepted _ ho _ _ hp hm hg =>
    have h1 := accepted_escrow hs hx hstep ho ha
    constructor
    · rw [hg]
      exact fun _ h => absurd (ho.symm.trans h) (by decide)
    · rw [hg]
      exact fun _ h => by cases h
    · intro _
      rw [hp, hm, hterms]
      exact h1
    · unfold isSubscription
      rw [hm]
      exact hx.term
  | claimed _ _ _ ha' => exact absurd (ha.symm.trans ha') (by decide)
  | crossed _ _ _ ha' => exact absurd (ha.symm.trans ha') (by decide)
  | promoted _ _ _ hlt =>
    obtain ⟨-, -, -, h4, h5, -⟩ := hs.unaccepted ha
    omega
  | disputed _ _ _ hp hm hg =>
    exact hx.keep hs hterms hm (hpurse hp) (by rw [hg]) (by rw [hg]) (by rw [hg])
  | cleaned _ _ ho _ hp hm hg =>
    constructor
    · rw [hg]
      exact fun h => by cases h
    · rw [hg]
      exact fun h => absurd (ho.symm.trans h) (by decide)
    · rw [hg]
      exact fun h => absurd (ha.symm.trans h) (by decide)
    · unfold isSubscription
      rw [hm]
      exact hx.term
  | withdrawn _ _ _ _ hp hm hg =>
    exact hx.keep hs hterms hm (fun _ => by rw [hp]) (by rw [hg]) (by rw [hg]) (by rw [hg])
  | freed _ _ hcl => exact absurd (hl.symm.trans hcl.destroyed) (by decide)
  | ended _ _ _ hend =>
    obtain ⟨_, _, _, hcl, -⟩ := hend.ends
    exact absurd (hl.symm.trans hcl.destroyed) (by decide)

theorem step_escrowed (hs : Sane s) (hc : Covered s) (hx : Escrowed s)
    (hstep : PRICE_STEP ∣ s.pricePerTick) (hpay : s.PaysWhole i) (h : s.step i = some u)
    (hl : u.destroyed = false) : Escrowed u := by
  have he := (step_effect hs h).2
  cases ha : s.probeAccepted with
  | false => exact he.escrowed hs hx hstep hpay ha hl
  | true =>
    obtain ⟨h1, h2, h3⟩ := (step_metered hs ha h hl).escrowed hs hc hx hstep ha
    have hacc := (he.dispute_stage hs ha hl).1
    have ho := (step_sane hs h hl).opened_of_accepted hacc
    constructor
    · exact fun _ h => absurd (ho.symm.trans h) (by decide)
    · exact fun _ h => absurd (hacc.symm.trans h) (by decide)
    · rw [he.terms]
      exact fun _ => h1
    · unfold isSubscription
      rw [h2, h3]
      exact hx.term

theorem run_escrowed {t : Terms} (ht : t.Valid) (hstep : PRICE_STEP ∣ t.pricePerTick)
    (h : Run step (init t) tr u)
    (hpay : Run.Each (fun s i _ => s.PaysWhole i) (init t) tr) (hl : u.destroyed = false) :
    Escrowed u := by
  refine h.invariant_each (fun _ u => u.destroyed = false → Escrowed u) ?_ ?_ hpay hl
  · intro _
    constructor
    · exact nofun
    · exact nofun
    · exact nofun
    · exact nofun
  · intro tr s i u hr hI hp hi hu
    have hlive := step_live hi
    have hs := run_sane ht hr hlive
    have hterms : s.toTerms = t := run_terms hlive (init_sane ht) hr
    refine step_escrowed hs (run_covered ht hr hlive) (hI hlive) ?_ hp hi hu
    rw [hterms]
    exact hstep

end TokenContract

end Dexdo
