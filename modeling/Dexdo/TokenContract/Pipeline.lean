import Dexdo.TokenContract.ExitCost

namespace Dexdo

namespace TokenContract

variable {s t u v : TokenContract} {i : Input} {τ : ℕ} {tr : List (Input × TokenContract)}

/-- What a transaction does to the two claim figures of a deal it does not end. -/
inductive Figures (s : TokenContract) (i : Input) (u : TokenContract) : Prop
  | rest (hf : u.tokensFinal = s.tokensFinal) (hp : u.tokensPend = s.tokensPend)
      (ht : u.lastClaimTime = s.lastClaimTime)
      (hc : ∀ n, i.call = .claimTokens n → n = s.tokensPend)
  | promote (hc : i.call = .finalize) (hlt : s.tokensFinal < s.tokensPend)
      (htime : s.lastClaimTime + CLAIM_PROMOTE_WINDOW ≤ i.now) (hf : u.tokensFinal = s.tokensPend)
      (hp : u.tokensPend = s.tokensPend) (ht : u.lastClaimTime = s.lastClaimTime)
  | claim {n : ℕ} (hc : i.call = .claimTokens n) (hlt : s.tokensPend < n)
      (hdelta : n ≤ s.tokensPend + DEAL_TICK_SIZE)
      (hrate : (n - s.tokensPend) * MIN_SECONDS_PER_TICK ≤
        (i.now - s.lastClaimTime) * DEAL_TICK_SIZE)
      (htime : s.lastClaimTime + MIN_CLAIM_INTERVAL ≤ i.now) (hf : u.tokensFinal = s.tokensPend)
      (hp : u.tokensPend = n) (ht : u.lastClaimTime = i.now)

theorem Metered.figures (hm : Metered s i u) : Figures s i u := by
  cases hm with
  | kept hm _ hc => exact .rest (by rw [hm]) (by rw [hm]) (by rw [hm]) hc
  | promoted hc _ hlt htime hm =>
    exact .promote hc hlt htime (by rw [hm]) (by rw [hm]) (by rw [hm])
  | @claimed n due hc _ hlt _ hadm hm =>
    obtain ⟨d, hd⟩ := s.toMeter.settleTo_eq due true
    obtain ⟨-, h1, h2, h3, h4⟩ := hadm
    rw [hd] at h1 h2 h3 h4 hm
    simp only [Meter.crossTo_tokensPend, Meter.crossTo_lastClaimTime] at h1 h2 h3 h4
    have h5 : n - s.tokensPend ≤ DEAL_TICK_SIZE := h3
    refine .claim hc hlt (by omega) h4 (by omega) ?_ ?_ ?_
    · rw [hm]
      rfl
    · rw [hm]
      rfl
    · rw [hm]
      rfl
  | @crossed due hc _ _ _ hm =>
    obtain ⟨d, hd⟩ := s.toMeter.settleTo_eq due true
    rw [hd] at hm
    refine .rest ?_ ?_ ?_ fun n hn => absurd (hc.symm.trans hn) nofun
    · rw [hm]
      exact Meter.crossTo_tokensFinal _ _
    · rw [hm]
      exact Meter.crossTo_tokensPend _ _
    · rw [hm]
      exact Meter.crossTo_lastClaimTime _ _

theorem Figures.grow (hf : Figures s i u) (hle : s.tokensFinal ≤ s.tokensPend) :
    s.tokensFinal ≤ u.tokensFinal ∧ s.tokensPend ≤ u.tokensPend := by
  cases hf with
  | rest hf hp => exact ⟨hf.ge, hp.ge⟩
  | promote _ _ _ hf hp => exact ⟨hf ▸ hle, hp.ge⟩
  | claim _ hlt _ _ _ hf hp => exact ⟨hf ▸ hle, hp ▸ Nat.le_of_lt hlt⟩

theorem Figures.lag (hf : Figures s i u) (h : s.tokensPend ≤ s.tokensFinal + DEAL_TICK_SIZE) :
    u.tokensPend ≤ u.tokensFinal + DEAL_TICK_SIZE := by
  cases hf with
  | rest hf hp =>
    rw [hf, hp]
    exact h
  | promote _ _ _ hf hp =>
    rw [hf, hp]
    exact Nat.le_add_right _ _
  | claim _ _ hdelta _ _ hf hp =>
    rw [hf, hp]
    exact hdelta

theorem step_accepted (hs : Sane s) (ha : s.probeAccepted = true) (h : s.step i = some u)
    (hl : u.destroyed = false) : Sane u ∧ u.probeAccepted = true ∧ Figures s i u :=
  ⟨step_sane hs h hl, ((step_effect hs h).2.dispute_stage hs ha hl).1,
    (step_metered hs ha h hl).figures⟩

theorem run_grows (hs : Sane s) (ha : s.probeAccepted = true) (h : Run step s tr u)
    (hl : u.destroyed = false) : Sane u ∧ u.probeAccepted = true ∧
      s.tokensFinal ≤ u.tokensFinal ∧ s.tokensPend ≤ u.tokensPend := by
  refine h.state_invariant (fun u => u.destroyed = false → Sane u ∧ u.probeAccepted = true ∧
    s.tokensFinal ≤ u.tokensFinal ∧ s.tokensPend ≤ u.tokensPend) ?_ ?_ hl
  · exact fun _ => ⟨hs, ha, Nat.le_refl _, Nat.le_refl _⟩
  · intro t i u hI hi hu
    obtain ⟨h1, h2, h3, h4⟩ := hI (step_live hi)
    obtain ⟨h5, h6, h7⟩ := step_accepted h1 h2 hi hu
    obtain ⟨h8, h9⟩ := h7.grow h1.final_le
    exact ⟨h5, h6, h3.trans h8, h4.trans h9⟩

theorem run_lag {t : Terms} (ht : t.Valid) (h : Run step (init t) tr s)
    (hl : s.destroyed = false) : s.tokensPend ≤ s.tokensFinal + DEAL_TICK_SIZE := by
  refine h.invariant (fun _ s => s.destroyed = false →
    s.tokensPend ≤ s.tokensFinal + DEAL_TICK_SIZE) ?_ ?_ hl
  · exact fun _ => Nat.zero_le _
  · intro tr s i u hr hI hi hu
    have hlive := step_live hi
    have hs := run_sane ht hr hlive
    cases ha : s.probeAccepted with
    | true => exact ((step_accepted hs ha hi hu).2.2).lag (hI hlive)
    | false =>
      cases hau : u.probeAccepted with
      | true =>
        obtain ⟨hm, -⟩ := (step_effect hs hi).2.accepts ha hau hu
        rw [hm]
        exact Nat.le_add_right _ _
      | false =>
        obtain ⟨-, -, -, -, hp, -⟩ := (step_sane hs hi hu).unaccepted hau
        rw [hp]
        exact Nat.zero_le _

theorem Figures.rate (hf : Figures s i u) {base since : ℕ} (hb : base ≤ s.tokensPend)
    (hs : since ≤ s.lastClaimTime)
    (h : (s.tokensPend - base) * MIN_SECONDS_PER_TICK ≤
      (s.lastClaimTime - since + MIN_SECONDS_PER_TICK) * DEAL_TICK_SIZE) :
    base ≤ u.tokensPend ∧ since ≤ u.lastClaimTime ∧
      (u.lastClaimTime = s.lastClaimTime ∨ u.lastClaimTime = i.now) ∧
      (u.tokensPend - base) * MIN_SECONDS_PER_TICK ≤
        (u.lastClaimTime - since + MIN_SECONDS_PER_TICK) * DEAL_TICK_SIZE := by
  cases hf with
  | rest _ hp ht =>
    rw [hp, ht]
    exact ⟨hb, hs, .inl rfl, h⟩
  | promote _ _ _ _ hp ht =>
    rw [hp, ht]
    exact ⟨hb, hs, .inl rfl, h⟩
  | @claim n _ hlt _ hrate htime _ hp ht =>
    rw [hp, ht]
    refine ⟨by omega, by omega, .inr rfl, ?_⟩
    have h1 : n - base = n - s.tokensPend + (s.tokensPend - base) := by omega
    have h2 : i.now - since + MIN_SECONDS_PER_TICK = i.now - s.lastClaimTime +
        (s.lastClaimTime - since + MIN_SECONDS_PER_TICK) := by omega
    rw [h1, h2, Nat.add_mul, Nat.add_mul]
    exact Nat.add_le_add hrate h

theorem Figures.landed (hf : Figures s i u) {n : ℕ} (hc : i.call = .claimTokens n)
    (hlt : s.tokensPend < n) : n ≤ s.tokensPend + DEAL_TICK_SIZE ∧
      u.tokensFinal = s.tokensPend ∧ u.tokensPend = n ∧ u.lastClaimTime = i.now := by
  cases hf with
  | rest _ _ _ hc' =>
    have := hc' n hc
    omega
  | promote hc' => exact absurd (hc.symm.trans hc') nofun
  | claim hc' _ hdelta _ _ hf hp ht =>
    obtain rfl := DealCall.claimTokens.inj (hc.symm.trans hc')
    exact ⟨hdelta, hf, hp, ht⟩

theorem claim_rate (hs : Sane s) (ha : s.probeAccepted = true) {c : Caller} {n secs : ℕ}
    (hclaim : step s ⟨c, τ, .claimTokens n⟩ = some v) (hlt : s.tokensPend < n)
    (h : Run step v tr u) (hl : u.destroyed = false) (htime : Run.Until Input.now (τ + secs) tr) :
    (u.tokensPend - s.tokensPend) * MIN_SECONDS_PER_TICK ≤
      (secs + MIN_SECONDS_PER_TICK) * DEAL_TICK_SIZE := by
  have hI : u.destroyed = false → Sane u ∧ u.probeAccepted = true ∧
      s.tokensPend ≤ u.tokensPend ∧ τ ≤ u.lastClaimTime ∧ u.lastClaimTime ≤ τ + secs ∧
      (u.tokensPend - s.tokensPend) * MIN_SECONDS_PER_TICK ≤
        (u.lastClaimTime - τ + MIN_SECONDS_PER_TICK) * DEAL_TICK_SIZE := by
    clear hl
    induction h with
    | nil =>
      intro hl
      obtain ⟨hsv, hav, hf⟩ := step_accepted hs ha hclaim hl
      obtain ⟨h1, -, h3, h4⟩ := hf.landed rfl hlt
      have h4' : v.lastClaimTime = τ := h4
      refine ⟨hsv, hav, by omega, h4'.ge, by omega, ?_⟩
      rw [h3, h4', Nat.sub_self, Nat.zero_add, Nat.mul_comm]
      exact Nat.mul_le_mul_left _ (by omega)
    | snoc hr hi ih =>
      intro hl
      obtain ⟨h1, h2, h3, h4, h5, h6⟩ := ih htime.of_append (step_live hi)
      obtain ⟨k1, k2, k3⟩ := step_accepted h1 h2 hi hl
      obtain ⟨k4, k5, k6, k7⟩ := k3.rate h3 h4 h6
      have hnow := htime.last
      exact ⟨k1, k2, k4, k5, by omega, k7⟩
  obtain ⟨-, -, -, -, h5, h6⟩ := hI hl
  exact h6.trans (Nat.mul_le_mul_right _ (by omega))

theorem promoteDue_final (m : Meter) (now : ℕ) :
    (m.promoteDue now).tokensFinal = m.tokensFinal ∨
      m.lastClaimTime + CLAIM_PROMOTE_WINDOW ≤ now := by
  unfold Meter.promoteDue
  split_ifs with h
  · exact .inr h
  · exact .inl rfl

theorem weeks_final {e : ℕ} (hp : t.probeTick = 0)
    (h : (t.chargeWeeksThrough e).payFinalAndClose = some u) : u.tokensFinal = t.tokensFinal := by
  obtain ⟨n, a, b, hw⟩ := t.chargeWeeksThrough_weekly e
  obtain ⟨_, -, -, ⟨k, hm⟩, -⟩ :=
    payFinalAndClose_closed (fun _ => hw.charged.probeTick.trans hp) h
  rw [hm]
  change (t.chargeWeeksThrough e).tokensFinal = _
  rw [hw.meter]

/-- The trusted figure grows with a claim that has outlived its window, or at the stop of an ordinary
deal by its buyer. -/
def Trusts (s : TokenContract) (i : Input) (u : TokenContract) : Prop :=
  u.tokensFinal ≤ s.tokensFinal ∨ s.lastClaimTime + CLAIM_PROMOTE_WINDOW ≤ i.now ∨
    i.call = .stop ∧ s.isSubscription = false ∧ s.fromBuyer i.caller = true

theorem stop_trusts {caller : Caller} {now : ℕ} (hs : Sane s) (ha : s.probeAccepted = true)
    (h : s.begin.stop caller now = some u) : Trusts s ⟨caller, now, .stop⟩ u := by
  simp only [stop, bind_iff] at h
  obtain ⟨-, hb, -, h⟩ := h
  cases hsub : s.isSubscription with
  | false => exact .inr (.inr ⟨rfl, hsub, hb⟩)
  | true =>
    have ha' : ¬ s.begin.probeAccepted = false := by
      rw [show s.begin.probeAccepted = true from ha]
      decide
    have hsub' : (s.begin.setMeter (s.toMeter.promoteDue now)).isSubscription = true := by
      unfold isSubscription
      rw [setMeter_toMeter, Meter.promoteDue_subWeeks]
      exact hsub
    rw [if_neg ha', begin_toMeter, if_pos hsub', Option.bind_some] at h
    obtain ⟨g, -, h⟩ := of_bind h
    have hfinal := weeks_final (t := s.begin.setMeter (s.toMeter.promoteDue now)) (hs.noProbe ha) h
    rcases promoteDue_final s.toMeter now with h1 | h1
    · exact .inl (hfinal.trans h1).le
    · exact .inr (.inl h1)

theorem sellerStop_trusts {caller : Caller} {now : ℕ} (hs : Sane s) (ha : s.probeAccepted = true)
    (h : s.begin.sellerStop caller now = some u) : Trusts s ⟨caller, now, .sellerStop⟩ u := by
  simp only [sellerStop, bind_iff] at h
  obtain ⟨-, -, hd, t, ht, e, -, h⟩ := h
  obtain ⟨w, x, y, hp, hm, hx⟩ := sellerForfeit_prepared (s := s) hd ht
  have hfinal := weeks_final (hp.probeTick.trans (hs.noProbe ha)) h
  have hx' : t.tokensFinal = (s.toMeter.promoteDue now).tokensFinal := by
    rw [hm]
    exact hx
  rcases promoteDue_final s.toMeter now with h1 | h1
  · exact .inl (hfinal.trans (hx'.trans h1)).le
  · exact .inr (.inl h1)

theorem settleWeek_trusts {caller : Caller} {now : ℕ}
    (h : s.begin.settleWeek now = some u) : Trusts s ⟨caller, now, .settleWeek⟩ u := by
  simp only [settleWeek, bind_iff] at h
  obtain ⟨-, -, ha, due, hdue, -, h⟩ := h
  have hmeter := settleBoundaries_meter (s := s.begin) ha hdue
  obtain ⟨d, hd⟩ := s.toMeter.settleTo_eq due s.probeAccepted
  rw [begin_toMeter, begin_toStage, hd] at hmeter
  split_ifs at h with h1
  · have h2 := h1.2
    rw [hmeter] at h2
    right
    left
    simpa using h2
  · cases h
    left
    rw [hmeter]
    exact (Meter.crossTo_tokensFinal _ _).le

theorem resolved_trusts {g : TokenContract} {w b x : ℕ} (hs : Sane s) (ha : s.probeAccepted = true)
    (hk : Clocked i.now s) (hd : s.disputed = true) {fb fx pay taken : ℕ}
    (hp : Prepared s g fb fx pay taken w) (hf : g.tokensFinal = s.trustedTokens)
    (h : g.settleTrustedAndClose b x = some u) : Trusts s i u := by
  have hfinal : u.tokensFinal = g.tokensFinal := by
    obtain ⟨e, kept, -, -, -, hm, -⟩ :=
      settleTrustedAndClose_exact (fun _ => hp.probeTick.trans (hs.noProbe ha)) h
    obtain ⟨n, a, c, hw⟩ := g.weeksCharged_weekly e
    rw [hm]
    change (g.weeksCharged e).tokensFinal = g.tokensFinal
    rw [hw.meter]
    rfl
  rw [Trusts, hfinal, hf]
  unfold trustedTokens
  split_ifs with hmat
  · exact .inr (.inl (hmat.2.trans (hk.raised hd)))
  · exact .inl (Nat.le_refl _)

theorem releaseDispute_trusts {caller : Caller} {now : ℕ} (hs : Sane s)
    (ha : s.probeAccepted = true) (hk : Clocked now s)
    (h : s.begin.releaseDispute caller = some u) : Trusts s ⟨caller, now, .releaseDispute⟩ u := by
  simp only [releaseDispute, bind_iff] at h
  obtain ⟨-, hd, e, -, h⟩ := h
  obtain ⟨n, a, b, hw, hp, hm, -⟩ := disputed_prepared hs (e := e)
  have hf : (s.begin.chargeWeeksThrough e).endDispute.tokensFinal = s.trustedTokens := by rw [hm]
  split_ifs at h
  · exact resolved_trusts (i := ⟨caller, now, .releaseDispute⟩) hs ha hk hd hp hf h
  · exact resolved_trusts (i := ⟨caller, now, .releaseDispute⟩) hs ha hk hd hp hf h

theorem resolveDisputeTimeout_trusts {caller : Caller} {now : ℕ} (hs : Sane s)
    (ha : s.probeAccepted = true) (hk : Clocked now s)
    (h : s.begin.resolveDisputeTimeout now = some u) :
    Trusts s ⟨caller, now, .resolveDisputeTimeout⟩ u := by
  simp only [resolveDisputeTimeout, bind_iff] at h
  obtain ⟨hd, -, e, -, h⟩ := h
  obtain ⟨n, a, b, hw, hp, hm, -⟩ := disputed_prepared hs (e := e)
  have hf : (s.begin.chargeWeeksThrough e).endDispute.tokensFinal = s.trustedTokens := by rw [hm]
  split_ifs at h
  · exact resolved_trusts (i := ⟨caller, now, .resolveDisputeTimeout⟩) hs ha hk hd hp hf h
  · obtain ⟨g, hg, h⟩ := of_bind h
    have hle : (s.begin.chargeWeeksThrough e).pendingValue ≤
        (s.begin.chargeWeeksThrough e).endDispute.deposit := Nat.min_le_right _ _
    obtain ⟨hpg, hmg, -⟩ := hp.writeOff hle hg
    exact resolved_trusts (i := ⟨caller, now, .resolveDisputeTimeout⟩) hs ha hk hd hpg
      (by rw [hmg, hf]) h

/-- Every transaction on an accepted deal, whether it ends it or not. -/
theorem step_trusts (hs : Sane s) (ha : s.probeAccepted = true) (hk : Clocked i.now s)
    (h : s.step i = some u) : Trusts s i u := by
  have hx := step_exec h
  have ho := hs.opened_of_accepted ha
  have hf := hs.funded_of_opened ho
  have hsame : u.toMeter = s.toMeter → Trusts s i u := fun hm => .inl (by rw [hm])
  obtain ⟨caller, now, call⟩ := i
  cases call with
  | fundFromOrderBook =>
    exact hsame (fundFromOrderBook_setMeter (s := s.begin) hf hx s.toMeter).2.1
  | postFromNote => exact hsame (postFromNote_setMeter hx s.toMeter).2.1
  | onSellClosed =>
    cases hx
    apply hsame
    unfold onSellClosed
    split_ifs <;> rfl
  | withdrawShell => exact hsame (withdrawShell_setMeter (s := s.begin) ho hx s.toMeter).2.1
  | dispute => exact hsame (dispute_setMeter hx s.toMeter).2.1
  | claimTokens =>
    simp only [exec] at hx
    cases (claimTokens_metered hx).figures with
    | rest hf => exact .inl hf.le
    | promote hc => cases hc
    | claim _ _ _ _ htime => exact .inr (.inl htime)
  | finalize =>
    simp only [exec, finalize, bind_iff] at hx
    exact .inr (.inl hx.2.1.2)
  | settleWeek => exact settleWeek_trusts hx
  | stop => exact stop_trusts hs ha hx
  | sellerStop => exact sellerStop_trusts hs ha hx
  | releaseDispute => exact releaseDispute_trusts hs ha hk hx
  | resolveDisputeTimeout => exact resolveDisputeTimeout_trusts hs ha hk hx
  | close =>
    simp only [exec, close, bind_iff] at hx
    exact absurd (hf.symm.trans hx.2.1) (by decide)
  | fundDeal =>
    simp only [exec, fundDeal, bind_iff] at hx
    exact absurd (ho.symm.trans hx.2.1) (by decide)
  | fundBuyerBond =>
    simp only [exec, fundBuyerBond, bind_iff] at hx
    exact absurd (ho.symm.trans hx.2.1) (by decide)
  | openDeal =>
    simp only [exec, openDeal, bind_iff] at hx
    exact absurd (ho.symm.trans hx.2.2.1) (by decide)
  | acceptProbe =>
    simp only [exec, acceptProbe, bind_iff] at hx
    exact absurd (ha.symm.trans hx.2.2.2.1) (by decide)
  | cleanupUnopened =>
    simp only [exec, cleanupUnopened, bind_iff] at hx
    exact absurd (ho.symm.trans hx.2.1) (by decide)
  | destroy =>
    simp only [exec, destroy, bind_iff] at hx
    exact absurd (ho.symm.trans hx.2.1) (by decide)

/-- The claim `n` that landed at `since`, as long as it is not trusted. -/
structure Waiting (n since : ℕ) (s : TokenContract) : Prop where
  sane : Sane s
  accepted : s.probeAccepted = true
  landed : s.tokensFinal < n → s.tokensPend = n ∧ s.lastClaimTime = since

theorem Waiting.step {n since : ℕ} (hw : Waiting n since s) (h : s.step i = some u)
    (hl : u.destroyed = false) : Waiting n since u := by
  obtain ⟨h1, h2, h3⟩ := step_accepted hw.sane hw.accepted h hl
  have hle := hw.sane.final_le
  refine ⟨h1, h2, fun hlt => ?_⟩
  cases h3 with
  | rest hf hp ht =>
    rw [hp, ht]
    exact hw.landed (hf ▸ hlt)
  | promote _ hlt' _ hf _ _ =>
    obtain ⟨h4, -⟩ := hw.landed (by omega)
    omega
  | claim _ hlt' _ _ _ hf hp _ =>
    obtain ⟨h4, -⟩ := hw.landed (by omega)
    omega

/-- A claim becomes trusted a minute after it landed, or by the stop of an ordinary deal by its
buyer. -/
theorem claim_trust {t : Terms} (ht : t.Valid) (h : Run step (init t) tr s)
    (ha : s.probeAccepted = true) {c : Caller} {n : ℕ} {x : TokenContract}
    {tr' : List (Input × TokenContract)} (hclaim : step s ⟨c, τ, .claimTokens n⟩ = some v)
    (hlt : s.tokensPend < n) (hwait : Run step v tr' u) (hx : step u i = some x)
    (ho : Run.Ordered Input.now (tr ++ [(⟨c, τ, .claimTokens n⟩, v)] ++ tr' ++ [(i, x)]))
    (hbelow : u.tokensFinal < n) (hreach : n ≤ x.tokensFinal) :
    τ + CLAIM_PROMOTE_WINDOW ≤ i.now ∨
      i.call = .stop ∧ u.isSubscription = false ∧ u.fromBuyer i.caller = true := by
  have hul := step_live hx
  have hs := run_sane ht h (step_live hclaim)
  have hrun : Run step (init t) (tr ++ [(⟨c, τ, .claimTokens n⟩, v)] ++ tr') u :=
    (h.snoc hclaim).append hwait
  have hvl : v.destroyed = false := by
    cases hwait with
    | nil => exact hul
    | snoc hr hi =>
      by_contra hn
      obtain ⟨-, rfl⟩ := run_destroyed hr (by simpa using hn)
      exact hn (step_live hi)
  have hstart : Waiting n τ v := by
    obtain ⟨h1, h2, h3⟩ := step_accepted hs ha hclaim hvl
    obtain ⟨-, -, h4, h5⟩ := h3.landed rfl hlt
    exact ⟨h1, h2, fun _ => ⟨h4, h5⟩⟩
  have hwaiting : Waiting n τ u :=
    hwait.state_invariant (fun u => u.destroyed = false → Waiting n τ u) (fun _ => hstart)
      (fun s i u hI hi hu => (hI (step_live hi)).step hi hu) hul
  obtain ⟨-, hland⟩ := hwaiting.landed hbelow
  have hk := run_clocked ht hrun ho.of_append ho.until hul
  rcases step_trusts hwaiting.sane hwaiting.accepted hk hx with h1 | h1 | h1
  · omega
  · left
    rwa [hland] at h1
  · exact .inr h1

/-- The claims of one week, counted from a state `s` of it; `k` weeks have elapsed. -/
structure InWeek (s : TokenContract) (k : ℕ) (u : TokenContract) : Prop where
  sane : Sane u
  accepted : u.probeAccepted = true
  counted : Counted u
  start : u.periodStart = s.periodStart
  weeks : u.subWeeks = s.subWeeks
  quota : u.tokensPerWeek = s.tokensPerWeek
  claims : u.tokensPend ≤ s.tokensPend + s.tokensPerWeek
  before : u.weekIndex < k → u.tokensPend = s.tokensPend
  base : k ≤ u.weekIndex → u.weekBaseTokens ≤ s.tokensPend
  past : k = s.subWeeks → u.tokensPend = s.tokensPend

theorem InWeek.step {k : ℕ} (hw : InWeek s k t) (hsub : s.subWeeks ≠ 0)
    (hk : s.weeksElapsedAt i.now = some k) (h : t.step i = some u) (hl : u.destroyed = false) :
    InWeek s k u := by
  have hm := step_metered hw.sane hw.accepted h hl
  obtain ⟨h1, h2, -⟩ := step_accepted hw.sane hw.accepted h hl
  have h3 := hm.counted hw.sane hw.counted hw.accepted
  have hk' : t.weeksElapsedAt i.now = some k := by
    rw [← hk]
    exact weeksElapsedAt_congr hw.start hw.weeks _
  have hidx := t.toMeter.crossTo_weekIndex k
  have hbase := Meter.crossTo_weekBaseTokens hw.sane.final_le k
  have hbefore := hw.before
  have hb := hw.base
  -- past the boundary the base is what was claimed before it
  have hcross : (t.toMeter.crossTo k).weekBaseTokens ≤ s.tokensPend := by
    rw [hbase]
    split_ifs with hlt
    · exact (hbefore hlt).le
    · exact hb (by omega)
  cases hm with
  | kept hm =>
    constructor
    · exact h1
    · exact h2
    · exact h3
    all_goals rw [hm]
    · exact hw.start
    · exact hw.weeks
    · exact hw.quota
    · exact hw.claims
    · exact hbefore
    · exact hb
    · exact hw.past
  | promoted _ _ _ _ hm =>
    constructor
    · exact h1
    · exact h2
    · exact h3
    all_goals rw [hm]
    · exact hw.start
    · exact hw.weeks
    · exact hw.quota
    · exact hw.claims
    · exact hbefore
    · exact hb
    · exact hw.past
  | @claimed n due _ _ hlt hdue hadm hm =>
    obtain rfl : due = k := Option.some.inj (hdue.symm.trans hk')
    obtain ⟨d, hd⟩ := t.toMeter.settleTo_eq due true
    have hcap := hadm.1
    rw [hd] at hcap hm
    obtain ⟨h4, h5⟩ := claimCap_week (m := { t.toMeter.crossTo due with ticksFinalized := d })
      (by simpa [hw.weeks] using hsub) (by simpa using hlt) hcap
    have h4' : (t.toMeter.crossTo due).weekIndex < s.subWeeks := by
      simpa [hw.weeks] using h4
    have h5' : n ≤ (t.toMeter.crossTo due).weekBaseTokens + s.tokensPerWeek := by
      simpa [hw.quota] using h5
    constructor
    · exact h1
    · exact h2
    · exact h3
    all_goals rw [hm]
    · exact (Meter.crossTo_periodStart _ _).trans hw.start
    · exact (Meter.crossTo_subWeeks _ _).trans hw.weeks
    · exact (Meter.crossTo_tokensPerWeek _ _).trans hw.quota
    · change n ≤ _
      omega
    · change (t.toMeter.crossTo due).weekIndex < due → _
      omega
    · exact fun _ => hcross
    · omega
  | @crossed due _ _ _ hdue hm =>
    obtain rfl : due = k := Option.some.inj (hdue.symm.trans hk')
    obtain ⟨d, hd⟩ := t.toMeter.settleTo_eq due true
    rw [hd] at hm
    constructor
    · exact h1
    · exact h2
    · exact h3
    all_goals rw [hm]
    · exact (Meter.crossTo_periodStart _ _).trans hw.start
    · exact (Meter.crossTo_subWeeks _ _).trans hw.weeks
    · exact (Meter.crossTo_tokensPerWeek _ _).trans hw.quota
    · exact (Meter.crossTo_tokensPend _ _).le.trans hw.claims
    · change (t.toMeter.crossTo due).weekIndex < due → _
      omega
    · exact fun _ => hcross
    · exact fun h => (Meter.crossTo_tokensPend _ _).trans (hw.past h)

theorem week_claims {k : ℕ} (hs : Sane s) (hc : Counted s) (ha : s.probeAccepted = true)
    (hsub : s.subWeeks ≠ 0) (h : Run step s tr u) (hl : u.destroyed = false)
    (hk : ∀ a ∈ tr, s.weeksElapsedAt a.1.now = some k) : InWeek s k u := by
  induction h with
  | nil =>
    exact ⟨hs, ha, hc, rfl, rfl, rfl, Nat.le_add_right _ _, fun _ => rfl, fun _ => hc.base,
      fun _ => rfl⟩
  | snoc hr hi ih =>
    have h1 := ih (step_live hi) fun a ha => hk a (List.mem_append_left _ ha)
    exact h1.step hsub (hk _ (List.mem_append_right _ (List.mem_singleton_self _))) hi hl

theorem weeksElapsedAt_of {m : Meter} {k now : ℕ} (h : m.periodStart + k * SUB_WEEK_LEN ≤ now)
    (hk : k = m.subWeeks ∨ k < m.subWeeks ∧ now < m.periodStart + (k + 1) * SUB_WEEK_LEN) :
    m.weeksElapsedAt now = some k := by
  have hle : k ≤ (now - m.periodStart) / SUB_WEEK_LEN := by
    rw [Nat.le_div_iff_mul_le (by decide)]
    omega
  simp only [Meter.weeksElapsedAt, bind_iff, pure_iff]
  refine ⟨by omega, ?_⟩
  rcases hk with rfl | ⟨hlt, hnow⟩
  · exact Nat.min_eq_right hle
  · have hgt : (now - m.periodStart) / SUB_WEEK_LEN < k + 1 := by
      rw [Nat.div_lt_iff_lt_mul (by decide)]
      omega
    omega

/-- The claim pipeline of every deal, from the acceptance of its probe on: the bounds of its two
figures, their growth, the rate of the claims, the window of each one and the quota of each
week. -/
theorem claim_pipeline {t : Terms} (ht : t.Valid) (h : Run step (init t) tr s)
    (hl : s.destroyed = false) (ha : s.probeAccepted = true) :
    (DEAL_TICK_SIZE ≤ s.tokensFinal ∧ s.tokensFinal ≤ s.tokensPend ∧
      s.tokensPend ≤ s.fundedTokens ∧ s.tokensPend - s.tokensFinal ≤ DEAL_TICK_SIZE) ∧
    (∀ (tr' : List (Input × TokenContract)) (u : TokenContract), Run step s tr' u →
      u.destroyed = false → s.tokensFinal ≤ u.tokensFinal ∧ s.tokensPend ≤ u.tokensPend) ∧
    (∀ (c : Caller) (τ n : ℕ) (v : TokenContract), step s ⟨c, τ, .claimTokens n⟩ = some v →
      s.tokensPend < n → ∀ (tr' : List (Input × TokenContract)) (u : TokenContract),
        Run step v tr' u →
          (∀ secs, Run.Until Input.now (τ + secs) tr' → u.destroyed = false →
            (u.tokensPend - s.tokensPend) * MIN_SECONDS_PER_TICK ≤
              (secs + MIN_SECONDS_PER_TICK) * DEAL_TICK_SIZE) ∧
          (∀ (i : Input) (x : TokenContract), step u i = some x →
            Run.Ordered Input.now (tr ++ [(⟨c, τ, .claimTokens n⟩, v)] ++ tr' ++ [(i, x)]) →
            u.tokensFinal < n → n ≤ x.tokensFinal → τ + CLAIM_PROMOTE_WINDOW ≤ i.now ∨
              i.call = .stop ∧ u.isSubscription = false ∧ u.fromBuyer i.caller = true)) ∧
    (s.isSubscription = true → ∀ (tr' : List (Input × TokenContract)) (u : TokenContract),
      Run step s tr' u → u.destroyed = false →
        (∀ k < SUB_WEEKS, (∀ a ∈ tr', s.periodStart + k * SUB_WEEK_LEN ≤ a.1.now ∧
          a.1.now < s.periodStart + (k + 1) * SUB_WEEK_LEN) →
            u.tokensPend ≤ s.tokensPend + s.tokensPerWeek) ∧
        ((∀ a ∈ tr', s.periodStart + SUB_WEEKS * SUB_WEEK_LEN ≤ a.1.now) →
          u.tokensPend = s.tokensPend)) := by
  have hs := run_sane ht h hl
  have hc := run_covered ht h hl
  have hlag := run_lag ht h hl
  obtain ⟨-, -, htick, hle⟩ := hs.accepted ha
  refine ⟨⟨htick, hle, (hc.counted ha).claims, by omega⟩, fun tr' u hr hu => ?_,
    fun c τ n v hclaim hlt tr' u hr => ⟨fun secs htime hu => ?_, fun i x hx ho hb hn => ?_⟩,
    fun hsub tr' u hr hu => ?_⟩
  · exact (run_grows hs ha hr hu).2.2
  · exact claim_rate hs ha hclaim hlt hr hu htime
  · exact claim_trust ht h ha hclaim hlt hr hx ho hb hn
  · have hne : s.subWeeks ≠ 0 := of_decide_eq_true hsub
    have hfour : s.subWeeks = SUB_WEEKS := (hc.bonded.term hsub).1
    refine ⟨fun k hk htime => ?_, fun htime => ?_⟩
    · refine (week_claims (k := k) hs (hc.counted ha) ha hne hr hu fun a hmem => ?_).claims
      obtain ⟨h1, h2⟩ := htime a hmem
      exact weeksElapsedAt_of h1 (.inr ⟨hfour ▸ hk, h2⟩)
    · refine (week_claims (k := SUB_WEEKS) hs (hc.counted ha) ha hne hr hu
        fun a hmem => ?_).past hfour.symm
      exact weeksElapsedAt_of (htime a hmem) (.inl hfour.symm)

/-- The sample subscription once its probe is accepted. -/
def sampleAccepted : TokenContract := Run.last (init sampleTerms) (sampleTrace sampleSubscription)

def sampleSecond : Input := ⟨.external 7, 400, .claimTokens (2 * DEAL_TICK_SIZE)⟩

def samplePromotion : Input := ⟨.external 0, 470, .finalize⟩

/-- A claim of the second tick and its promotion: figures, rate and weekly quota. -/
theorem claim_pipeline_sample :
    let s := sampleAccepted
    let v := s.after sampleSecond
    let u := Run.last v (Run.trace step v [samplePromotion])
    let w := Run.last s (Run.trace step s [sampleSecond, samplePromotion])
    (DEAL_TICK_SIZE ≤ s.tokensFinal ∧ s.tokensFinal ≤ s.tokensPend ∧
      s.tokensPend ≤ s.fundedTokens ∧ s.tokensPend - s.tokensFinal ≤ DEAL_TICK_SIZE) ∧
    (Run.trace step v [samplePromotion]).length = 1 ∧
    (u.tokensPend - s.tokensPend) * MIN_SECONDS_PER_TICK ≤
      (70 + MIN_SECONDS_PER_TICK) * DEAL_TICK_SIZE ∧
    w.tokensPend ≤ s.tokensPend + s.tokensPerWeek := by
  intro s v u w
  obtain ⟨hfigures, -, hclaim, hweek⟩ := claim_pipeline (t := sampleTerms) (by decide)
    (sample_run sampleSubscription) (by decide +kernel) (by decide +kernel)
  have hv : step s sampleSecond = some v := step_after (by decide +kernel)
  refine ⟨hfigures, by decide +kernel, ?_, ?_⟩
  · exact (hclaim (.external 7) 400 (2 * DEAL_TICK_SIZE) v hv (by decide +kernel) _ u
      (Run.trace_run ..)).1 70 (by unfold Run.Until; decide +kernel) (by decide +kernel)
  · exact (hweek (by decide +kernel) _ w (Run.trace_run ..) (by decide +kernel)).1 0 (by decide)
      (by decide +kernel)

end TokenContract

end Dexdo
