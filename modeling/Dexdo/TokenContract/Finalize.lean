import Dexdo.TokenContract.Charge
import Dexdo.Lib.Unwinding

namespace Dexdo

namespace TokenContract

variable {s t u v : TokenContract} {i : Input} {τ τ' now : ℕ} {caller : Caller}

theorem payShell_setMeter {p : Payee} {d : Addr} {a : ℕ} (h : s.payShell p d a = some u)
    (m : Meter) : (s.setMeter m).payShell p d a = some (u.setMeter m) := by
  unfold payShell at h ⊢
  split_ifs at h ⊢ with h0
  · cases h
    rfl
  · obtain ⟨b, hb, h⟩ := of_bind h
    cases h
    exact Option.bind_eq_some_iff.mpr ⟨b, hb, rfl⟩

theorem fundFromOrderBook_setMeter (hf : s.funded = true) {paid k f : ℕ} {n : Addr}
    (h : s.fundFromOrderBook caller now paid n k f = some u) (m : Meter) :
    (s.setMeter m).fundFromOrderBook caller now paid n k f = some (u.setMeter m) ∧
      u.toMeter = s.toMeter ∧ u.toStage = s.toStage := by
  have ht : ∀ r : TokenContract, r.funded = true → ¬ r.takesMatch paid f :=
    fun r h ht => absurd (h.symm.trans ht.1) (by decide)
  unfold fundFromOrderBook at h ⊢
  change (if paid = 0 then _ else if s.iobHash = 0 then none else
    if caller.isSender s.orderBook = false then _ else _) = _ ∧ _
  split_ifs at h ⊢
  · cases h
    exact ⟨rfl, rfl, rfl⟩
  · cases h
    exact ⟨rfl, rfl, rfl⟩
  · obtain ⟨r, hr, h⟩ := of_bind h
    obtain ⟨b, hb, hr⟩ := of_bind hr
    cases hr
    dsimp only at h
    rw [if_neg (ht (act _ _) (by exact hf))] at h
    obtain ⟨hk, -⟩ := payShell_inv h
    refine ⟨Option.bind_eq_some_iff.mpr
      ⟨_, Option.bind_eq_some_iff.mpr ⟨b, hb, rfl⟩, ?_⟩, hk.meter, hk.stage⟩
    dsimp only
    rw [if_neg (ht (act _ _) (by exact hf))]
    exact payShell_setMeter h m

theorem postFromNote_setMeter {a d k f e : ℕ} (h : s.postFromNote caller a d k f e = some u)
    (m : Meter) : (s.setMeter m).postFromNote caller a d k f e = some (u.setMeter m) ∧
      u.toMeter = s.toMeter ∧ u.disputed = s.disputed ∧ u.disputeTime = s.disputeTime := by
  simp only [postFromNote, bind_iff] at h ⊢
  obtain ⟨h1, h2, h⟩ := h
  refine ⟨⟨h1, h2, ?_⟩, ?_⟩
  · change (if s.offerPosted ∨ s.funded then _ else _) = _ at h
    change (if s.offerPosted ∨ s.funded then _ else _) = _
    split_ifs at h ⊢ with h3
    · cases h
      rfl
    · cases h
      rfl
  · split_ifs at h
    · cases h
      exact ⟨rfl, rfl, rfl⟩
    · cases h
      exact ⟨rfl, rfl, rfl⟩

theorem withdrawShell_setMeter (ho : s.opened = true) {a : ℕ}
    (h : s.withdrawShell caller a = some u) (m : Meter) :
    (s.setMeter m).withdrawShell caller a = some (u.setMeter m) ∧ u.toMeter = s.toMeter ∧
      u.toStage = s.toStage := by
  simp only [withdrawShell, bind_iff] at h ⊢
  obtain ⟨h1, h2, h3, t, ht, h⟩ := h
  obtain ⟨hk, -⟩ := payShell_inv ht
  have hto : t.opened = true := by
    rw [hk.stage]
    exact ho
  rw [if_neg fun hc => absurd (hto.symm.trans hc.2.1) (by decide)] at h
  cases h
  refine ⟨⟨h1, h2, h3, _, payShell_setMeter ht m, ?_⟩, hk.meter, hk.stage⟩
  rw [if_neg fun hc => absurd (hto.symm.trans hc.2.1) (by decide)]
  rfl

/-- Time up to which the claims of a deal mature: a dispute stops the clock. -/
def clock (s : TokenContract) (τ : ℕ) : ℕ := if s.disputed then s.disputeTime else τ

/-- The meter with its pending claim promoted. -/
def ripened (s : TokenContract) : Meter := { s.toMeter with tokensFinal := s.tokensPend }

/-- A claim is pending that has matured by `τ`. -/
def Ripe (s : TokenContract) (τ : ℕ) : Prop :=
  s.tokensFinal < s.tokensPend ∧ s.lastClaimTime + CLAIM_PROMOTE_WINDOW ≤ s.clock τ

/-- A deal as it stands at `τ`, its matured claim promoted and its actions forgotten. -/
def settled (s : TokenContract) (τ : ℕ) : TokenContract :=
  s.begin.setMeter (s.toMeter.promoteDue (s.clock τ))

theorem promoteDue_ripe (h : s.tokensFinal < s.tokensPend)
    (hw : s.lastClaimTime + CLAIM_PROMOTE_WINDOW ≤ τ) : s.toMeter.promoteDue τ = s.ripened := by
  unfold Meter.promoteDue Meter.promote
  rw [if_pos hw, if_pos h]
  rfl

theorem promoteDue_ripened (s : TokenContract) (τ : ℕ) : s.ripened.promoteDue τ = s.ripened := by
  unfold Meter.promoteDue Meter.promote
  rw [if_neg (show ¬ s.ripened.tokensFinal < s.ripened.tokensPend from lt_irrefl _), ite_self]

theorem settled_ripe (h : Ripe s τ) : s.settled τ = s.begin.setMeter s.ripened := by
  unfold settled
  rw [promoteDue_ripe h.1 h.2]

theorem settled_unripe (h : ¬ Ripe s τ) : s.settled τ = s.begin := by
  unfold settled
  have h1 : s.toMeter.promoteDue (s.clock τ) = s.toMeter := by
    unfold Meter.promoteDue Meter.promote
    split_ifs with h1 h2
    · exact absurd ⟨h2, h1⟩ h
    · rfl
    · rfl
  rw [h1]
  rfl

theorem settled_ripened (h : Ripe s τ) (hm : u.toMeter = s.toMeter) (hc : s.clock τ ≤ u.clock τ) :
    (u.setMeter s.ripened).settled τ = u.settled τ := by
  have h1 : u.toMeter.promoteDue (u.clock τ) = s.ripened := by
    rw [hm]
    exact promoteDue_ripe h.1 (h.2.trans hc)
  have h2 : (u.setMeter s.ripened).settled τ =
      u.begin.setMeter (s.ripened.promoteDue (u.clock τ)) := rfl
  rw [h2, promoteDue_ripened]
  unfold settled
  rw [h1]

theorem settleBoundaries_ordinary (hord : s.isSubscription = false) {time due : ℕ}
    (h : s.weeksElapsedAt time = some due) : s.settleBoundaries due = s := by
  obtain ⟨-, -, h⟩ := of_bind h
  have h0 : s.subWeeks = 0 := by simpa [isSubscription] using hord
  have h1 : due = 0 := by
    rw [← Option.some.inj h, h0]
    exact Nat.min_zero _
  unfold settleBoundaries
  rw [if_pos (by omega)]

theorem claimTokens_ripened (hord : s.isSubscription = false) (hr : Ripe s now) {n : ℕ}
    (h : s.claimTokens caller now n = some u) :
    (s.setMeter s.ripened).claimTokens caller now n = some u ∨
      u = s ∧ (s.setMeter s.ripened).claimTokens caller now n = some (s.setMeter s.ripened) := by
  simp only [claimTokens, bind_iff] at h ⊢
  obtain ⟨h1, h2, h3, h4, h5, h⟩ := h
  by_cases hn : n = s.tokensPend
  · rw [if_pos hn] at h
    exact .inr ⟨(Option.some.inj h).symm, h1, h2, h3, h4, h5, if_pos hn⟩
  · rw [if_neg hn] at h
    obtain ⟨due, hdue, h⟩ := of_bind h
    rw [settleBoundaries_ordinary hord hdue] at h
    refine .inl ⟨h1, h2, h3, h4, h5, (if_neg hn).trans ?_⟩
    refine Option.bind_eq_some_iff.mpr ⟨due, hdue, ?_⟩
    rw [settleBoundaries_ordinary (s := s.setMeter s.ripened) hord hdue]
    have hclock : s.clock now = now := if_neg (by simp [h3])
    have hw := hr.2
    rw [hclock] at hw
    simp only [pendClaim, bind_iff] at h ⊢
    obtain ⟨h6, h7, h⟩ := h
    rw [promoteDue_ripe hr.1 hw] at h
    refine ⟨h6, ?_, ?_⟩
    · rw [setMeter_toMeter, setMeter_toMeter, promoteDue_ripened]
      rfl
    · rw [setMeter_toMeter, promoteDue_ripened]
      exact h

theorem stop_ripened (hr : Ripe s now) (ha : s.probeAccepted = true)
    (h : s.stop caller now = some u) : (s.setMeter s.ripened).stop caller now = some u := by
  simp only [stop, bind_iff] at h ⊢
  obtain ⟨h1, h2, h3, h⟩ := h
  have hclock : s.clock now = now := if_neg (by simp [h3])
  have hw := hr.2
  rw [hclock] at hw
  refine ⟨h1, h2, h3, ?_⟩
  rw [if_neg (by simp [ha]), promoteDue_ripe hr.1 hw] at h
  refine (if_neg (by simp [ha])).trans ?_
  rw [setMeter_toMeter, promoteDue_ripened]
  exact h

theorem sellerStop_ripened (hr : Ripe s now) (ha : s.probeAccepted = true)
    (h : s.sellerStop caller now = some u) :
    (s.setMeter s.ripened).sellerStop caller now = some u := by
  simp only [sellerStop, bind_iff] at h ⊢
  obtain ⟨h1, h2, h3, h⟩ := h
  have hclock : s.clock now = now := if_neg (by simp [h3])
  have hw := hr.2
  rw [hclock] at hw
  refine ⟨h1, h2, h3, ?_⟩
  obtain ⟨t, ht, h⟩ := h
  refine ⟨t, ?_, h⟩
  unfold sellerForfeit at ht ⊢
  rw [if_pos ha] at ht
  rw [if_pos (show (s.setMeter s.ripened).probeAccepted = true from ha)]
  obtain ⟨r, hr', ht⟩ := of_bind ht
  cases hr'
  refine Option.bind_eq_some_iff.mpr ⟨_, rfl, ?_⟩
  dsimp only at ht ⊢
  rw [promoteDue_ripe hr.1 hw] at ht
  rw [setMeter_toMeter, promoteDue_ripened]
  exact ht

theorem releaseDispute_ripened (hord : s.isSubscription = false) (hr : Ripe s now)
    (h : s.releaseDispute caller = some u) :
    (s.setMeter s.ripened).releaseDispute caller = some u := by
  simp only [releaseDispute, bind_iff] at h ⊢
  obtain ⟨h1, h2, e, he, h⟩ := h
  refine ⟨h1, h2, e, he, ?_⟩
  have hclock : s.clock now = s.disputeTime := if_pos h2
  have hw := hr.2
  rw [hclock] at hw
  have hmeter : s.ripened.voidClaims s.disputeTime = s.toMeter.voidClaims s.disputeTime := by
    have hnone : ¬ (s.ripened.tokensFinal < s.ripened.tokensPend ∧
        s.ripened.lastClaimTime + CLAIM_PROMOTE_WINDOW ≤ s.disputeTime) :=
      fun h => absurd h.1 (lt_irrefl s.tokensPend)
    rw [voidClaims_eq, voidClaims_eq s.toMeter, if_pos (And.intro hr.1 hw), if_neg hnone]
    rfl
  have hvoid : (s.setMeter s.ripened).endDispute = s.endDispute := by
    unfold endDispute
    change ((s.setMeter s.ripened).setMeter (s.ripened.voidClaims s.disputeTime)).setStage _ = _
    rw [hmeter]
    rfl
  rw [chargeWeeksThrough_ordinary hord] at h
  rw [chargeWeeksThrough_ordinary (s := s.setMeter s.ripened) hord, hvoid]
  exact h

theorem dispute_setMeter (h : s.dispute caller now = some u) (m : Meter) :
    (s.setMeter m).dispute caller now = some (u.setMeter m) ∧ u.toMeter = s.toMeter ∧
      u.clock now = now ∧ s.clock now = now := by
  simp only [dispute, bind_iff, pure_iff] at h ⊢
  obtain ⟨h1, h2, h3, rfl⟩ := h
  exact ⟨⟨h1, h2, h3, rfl⟩, rfl, if_pos rfl, if_neg (by simp [h3])⟩

/-- A call other than `finalize` does the same before and after the promotion of a claim that has
matured, the timeout of a dispute over such a claim apart. -/
theorem exec_ripened (hs : Sane s) (hv : Serving s) (hr : Ripe s now) {call : DealCall}
    (hc : call ≠ .finalize) (hnl : ¬ s.lateClaim ⟨caller, now, call⟩)
    (h : s.exec caller now call = some u) :
    ∃ v, (s.setMeter s.ripened).exec caller now call = some v ∧ v.actions = u.actions ∧
      v.settled now = u.settled now := by
  have ha : s.probeAccepted = true := by
    by_contra hn
    have h1 := (hs.unaccepted (by simpa using hn)).2.2.2.2.1
    have h2 := hr.1
    omega
  have hf := hv.funded hs
  have ho := hv.opened
  have hframe : ∀ {v : TokenContract}, v.toMeter = s.toMeter → v.toStage.disputed = s.disputed →
      v.disputeTime = s.disputeTime → (v.setMeter s.ripened).settled now = v.settled now := by
    intro v h1 h2 h3
    apply settled_ripened hr h1
    unfold clock
    rw [h2, h3]
  cases call with
  | fundFromOrderBook =>
    obtain ⟨h1, h2, h3⟩ := fundFromOrderBook_setMeter hf h s.ripened
    exact ⟨_, h1, rfl, hframe h2 (by rw [h3]) (by rw [h3])⟩
  | postFromNote =>
    obtain ⟨h1, h2, h3, h4⟩ := postFromNote_setMeter h s.ripened
    exact ⟨_, h1, rfl, hframe h2 h3 h4⟩
  | onSellClosed =>
    have hsame : ∀ r : TokenContract, r.funded = true → r.onSellClosed caller = r :=
      fun r hf => if_pos (.inr hf)
    cases h
    refine ⟨_, congrArg some (hsame (s.setMeter s.ripened) hf), ?_⟩
    rw [hsame s hf]
    exact ⟨rfl, hframe rfl rfl rfl⟩
  | claimTokens =>
    rcases claimTokens_ripened hv.ordinary hr h with h1 | ⟨rfl, h1⟩
    · exact ⟨u, h1, rfl, rfl⟩
    · exact ⟨_, h1, rfl, hframe rfl rfl rfl⟩
  | finalize => exact absurd rfl hc
  | settleWeek =>
    simp only [exec, settleWeek, bind_iff] at h
    exact absurd (hv.ordinary.symm.trans h.1) (by decide)
  | stop => exact ⟨u, stop_ripened hr ha h, rfl, rfl⟩
  | sellerStop => exact ⟨u, sellerStop_ripened hr ha h, rfl, rfl⟩
  | dispute =>
    obtain ⟨h1, h2, h3, h4⟩ := dispute_setMeter h s.ripened
    exact ⟨_, h1, rfl, settled_ripened hr h2 (by rw [h3, h4])⟩
  | releaseDispute => exact ⟨u, releaseDispute_ripened hv.ordinary hr h, rfl, rfl⟩
  | resolveDisputeTimeout =>
    simp only [exec, resolveDisputeTimeout, bind_iff] at h
    have hclock : s.clock now = s.disputeTime := if_pos h.1
    exact absurd ⟨rfl, hv.ordinary, hr.1, hclock ▸ hr.2⟩ hnl
  | withdrawShell =>
    obtain ⟨h1, h2, h3⟩ := withdrawShell_setMeter ho h s.ripened
    exact ⟨_, h1, rfl, hframe h2 (by rw [h3]) (by rw [h3])⟩
  | _ => exact absurd (h.symm.trans (exec_early ho hf ha rfl)) (by simp)

theorem Sane.begin (h : Sane s) : Sane s.begin :=
  ⟨h.valid, h.unfunded, h.unopened, h.probe, h.unaccepted,
    fun ha => (h.accepted ha).imp id (And.imp (·.congr rfl rfl rfl) id), h.ordinary, h.disputed,
    h.size, h.funds, h.quota, h.sellerBond, h.buyerBond⟩

theorem Serving.begin (h : Serving s) : Serving s.begin := ⟨h.opened, h.ordinary⟩

/-- Calls of `finalize`. -/
def Input.finalizes (i : Input) : Bool := decide (i.call = .finalize)

/-- A step of an open ordinary deal whose timeout, if it is one, burns no matured claim, and which
does not end the deal when it is a `finalize`. -/
structure Regular (s : TokenContract) (i : Input) (u : TokenContract) : Prop where
  sane : Sane s
  serving : Serving s
  timely : ¬ s.lateClaim i
  goesOn : i.finalizes = true → u.destroyed = false

theorem step_exec (h : step s i = some u) : s.begin.exec i.caller i.now i.call = some u := by
  unfold step at h
  rw [step_live h] at h
  exact h

theorem step_settled (hr : Regular s i u) (hc : i.finalizes = false) (h : step s i = some u) :
    ∃ v, step (s.settled i.now) i = some v ∧ v.actions = u.actions ∧
      v.settled i.now = u.settled i.now := by
  have hl := step_live h
  have he := step_exec h
  have hstep : ∀ m : Meter, step (s.begin.setMeter m) i =
      (s.begin.setMeter m).exec i.caller i.now i.call := by
    intro m
    unfold step
    rw [if_neg (by simp [hl])]
    rfl
  by_cases hripe : Ripe s i.now
  · rw [settled_ripe hripe, hstep]
    exact exec_ripened hr.sane.begin hr.serving.begin hripe (of_decide_eq_false hc) hr.timely he
  · rw [settled_unripe hripe]
    exact ⟨u, (hstep s.toMeter).trans he, rfl, rfl⟩

theorem settled_settled (h : τ ≤ τ') : (s.settled τ).settled τ' = s.settled τ' := by
  by_cases hr : Ripe s τ
  · have hc : s.clock τ ≤ s.clock τ' := by
      unfold clock
      split_ifs
      · exact le_rfl
      · exact h
    rw [settled_ripe hr]
    exact settled_ripened ⟨hr.1, hr.2.trans hc⟩ (u := s.begin) rfl le_rfl
  · rw [settled_unripe hr]
    rfl

theorem finalize_settled (hs : Sane s) (hc : i.call = .finalize) (h : step s i = some u)
    (hl : u.destroyed = false) (hτ : i.now ≤ τ) :
    u.actions = [] ∧ u.settled τ = s.settled τ := by
  have he := step_exec h
  rw [hc] at he
  simp only [exec, finalize, bind_iff] at he
  obtain ⟨⟨-, hd⟩, ⟨hlt, hw⟩, he⟩ := he
  split_ifs at he with h1
  · obtain ⟨_, -, -, -, hg, -⟩ := payFinalAndClose_closed (by exact hs.noProbe) he
    rw [hg] at hl
    cases hl
  · cases he
    have hripe : Ripe s.begin τ := ⟨hlt, by
      rw [clock, hd]
      exact hw.trans hτ⟩
    refine ⟨rfl, ?_⟩
    rw [promoteDue_ripe hlt hw]
    exact settled_ripened hripe rfl le_rfl

theorem credited_congr (h : u.actions = v.actions) (p : Payee) : u.credited p = v.credited p := by
  unfold credited
  rw [h]

theorem buyerLoss_settled (h : s.isSubscription = false) :
    (s.settled τ).buyerLoss i = s.buyerLoss i := by
  have hm : (s.settled τ).isSubscription = s.isSubscription := by
    unfold isSubscription
    rw [show (s.settled τ).subWeeks = s.subWeeks from s.toMeter.promoteDue_subWeeks _]
  obtain ⟨caller, now, call⟩ := i
  cases call with
  | stop =>
    unfold buyerLoss
    dsimp only
    rw [hm]
    rfl
  | releaseDispute | resolveDisputeTimeout =>
    unfold buyerLoss
    dsimp only
    rw [hm, h, if_neg (by decide), if_neg (by decide)]
    rfl
  | _ => rfl

theorem settled_unwinding (f : TokenContract → Input → TokenContract → ℕ)
    (h0 : ∀ s i u, i.call = .finalize → u.actions = [] → f s i u = 0)
    (h1 : ∀ s t i u v, Regular s i u → Regular t i v → s.settled i.now = t.settled i.now →
      u.actions = v.actions → f s i u = f t i v) :
    Unwinding step Input.finalizes Input.now Regular (fun τ s t => s.settled τ = t.settled τ) f where
  refl _ _ := rfl
  symm h := h.symm
  later {τ τ' s t} hle h := by
    rw [← settled_settled hle, h, settled_settled hle]
  stutter {τ s t i u} hh hP hi hτ h := by
    have hc := of_decide_eq_true hh
    obtain ⟨h2, h3⟩ := finalize_settled hP.sane hc hi (hP.goesOn hh) hτ
    exact ⟨h3.trans h, h0 s i u hc h2⟩
  lockstep {s t i u v} hh hP hP' hi hj h := by
    obtain ⟨u', h2, h3, h4⟩ := step_settled hP hh hi
    obtain ⟨v', h5, h6, h7⟩ := step_settled hP' hh hj
    rw [h, h5] at h2
    cases h2
    exact ⟨h4.symm.trans h7, h1 s t i u v hP hP' h (h3.symm.trans h6)⟩

end TokenContract

end Dexdo
