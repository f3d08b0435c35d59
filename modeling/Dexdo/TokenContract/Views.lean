import Dexdo.TokenContract.Keeper

namespace Dexdo

namespace TokenContract

variable {s t u v : TokenContract} {i : Input} {τ τ' now c d : ℕ} {caller : Caller}

/-- What a transaction shows once everything is settled that could be settled by `τ`: the state it
leaves, and what it pays and burns. -/
def view (τ : ℕ) (u : TokenContract) : TokenContract × (Payee → ℕ) × ℕ :=
  (u.upToDate τ, u.credited, u.burned)

theorem view_eq (h1 : u.upToDate τ = v.upToDate τ) (h2 : ∀ p, u.credited p = v.credited p)
    (h3 : u.burned = v.burned) : view τ u = view τ v := by
  unfold view
  rw [h1, funext h2, h3]

/-- A state without its actions and its delivered volume. -/
def bare (s : TokenContract) : TokenContract := s.begin.setTicks 0

theorem caughtUp_bare (s : TokenContract) (c w : ℕ) : s.bare.caughtUp c w = s.caughtUp c w := by
  have h1 : s.bare.begin.chargeWeeksThrough w = (s.begin.chargeWeeksThrough w).setTicks 0 :=
    setTicks_chargeWeeksThrough s.begin 0 w
  unfold caughtUp
  rw [h1, setTicks_promoted]
  rfl

theorem upToDate_bare (h : s.opened = true) (τ : ℕ) : s.bare.upToDate τ = s.upToDate τ := by
  have h1 : s.bare.opened = true := h
  rw [upToDate_open h1, upToDate_open h]
  exact caughtUp_bare ..

theorem upToDate_congr (h : u.bare = v.bare) (hu : u.opened = true) (τ : ℕ) :
    u.upToDate τ = v.upToDate τ := by
  have hv : v.opened = true := (congrArg (·.opened) h).symm.trans hu
  rw [← upToDate_bare hu, h, upToDate_bare hv]

theorem upToDate_act (s : TokenContract) (a : DealAction) (τ : ℕ) :
    (s.act a).upToDate τ = s.upToDate τ := rfl

theorem upToDate_setStage (ho : s.opened = true) {g : Stage} (h1 : g.opened = true)
    (h2 : g.probeAccepted = s.probeAccepted) (hc : (s.setStage g).clock τ = s.clock τ) :
    (s.setStage g).upToDate τ = (s.upToDate τ).setStage g := by
  have hw : (s.setStage g).weeksBy τ = s.weeksBy τ := by
    unfold weeksBy
    rw [hc]
    rfl
  rw [upToDate_open (s := s.setStage g) h1, upToDate_open ho, hc, hw]
  have h3 : (s.setStage g).begin.chargeWeeksThrough (s.weeksBy τ) =
      (s.begin.chargeWeeksThrough (s.weeksBy τ)).setStage g :=
    setStage_chargeWeeksThrough s.begin g h2 _
  unfold caughtUp
  rw [h3]
  rfl

theorem upToDate_taken (ho : s.opened = true) {a : ℕ} (ha : a ≤ s.finalizedOwed) (τ : ℕ) :
    (s.taken a).upToDate τ = (s.upToDate τ).taken a := by
  rw [upToDate_open (s := s.taken a) ho, upToDate_open ho]
  have h1 : (s.taken a).begin.chargeWeeksThrough (s.weeksBy τ) =
      (s.begin.chargeWeeksThrough (s.weeksBy τ)).taken a :=
    taken_chargeWeeksThrough (s := s.begin) ha _
  change (((s.taken a).begin.chargeWeeksThrough (s.weeksBy τ)).promoted _).setTicks 0 = _
  rw [h1]
  rfl

namespace OnTerm

theorem upToDate_eq (hs : OnTerm s) (hd : s.disputed = false) (now : ℕ) :
    s.upToDate now = s.caughtUp now (s.weeksBy now) := by
  have hc : s.clock now = now := if_neg (by simp [hd])
  rw [upToDate_open hs.opened, hc]

theorem upToDate_subscription (hs : OnTerm s) (τ : ℕ) : (s.upToDate τ).isSubscription = true := by
  rw [upToDate_open hs.opened]
  unfold isSubscription
  rw [caughtUp_subWeeks]
  exact hs.subscription

theorem upToDate_idem (hs : OnTerm s) (τ : ℕ) : (s.upToDate τ).upToDate τ = s.upToDate τ :=
  upToDate_upToDate (fun _ => hs.claims) (Nat.le_refl _)

end OnTerm

theorem payFinalAndClose_setTicks (s : TokenContract) (d : ℕ) :
    (s.setTicks d).payFinalAndClose = s.payFinalAndClose := by
  unfold payFinalAndClose
  change (if 0 < s.finalOwed then _ else _ : TokenContract).closeClean =
    (if 0 < s.finalOwed then _ else _ : TokenContract).closeClean
  split_ifs
  · rfl
  · rfl

theorem weeksCharged_setTicks (s : TokenContract) (d e : ℕ) :
    (s.setTicks d).weeksCharged e = (s.weeksCharged e).setTicks d :=
  setTicks_chargeWeeksThrough (s.setPurse _) d e

theorem trustCharged_setTicks (s : TokenContract) (d e : ℕ) :
    (s.setTicks d).trustCharged e = s.trustCharged e := by
  have h1 : (s.setTicks d).trustedPurse e = s.trustedPurse e := by
    unfold trustedPurse
    rw [weeksCharged_setTicks]
    rfl
  unfold trustCharged
  rw [h1, weeksCharged_setTicks]
  rfl

theorem settleTrustedAndClose_setTicks (s : TokenContract) (d b x : ℕ) :
    (s.setTicks d).settleTrustedAndClose b x = s.settleTrustedAndClose b x := by
  unfold settleTrustedAndClose
  apply Option.bind_congr
  intro e _
  change (((s.setTicks d).trustCharged e).forfeitBonds b x).bind _ =
    ((s.trustCharged e).forfeitBonds b x).bind _
  rw [trustCharged_setTicks]

theorem setTicks_promoted_charge (h : s.tokensFinal ≤ s.tokensPend) (c e : ℕ) :
    ((s.begin.promoted c).chargeWeeksThrough e).setTicks 0 = s.caughtUp c e := by
  rw [promoted_chargeWeeksThrough (s := s.begin) h]
  rfl

theorem weeksElapsedAt_form (m : Meter) (now : ℕ) : m.weeksElapsedAt now =
    if m.periodStart ≤ now then some (min ((now - m.periodStart) / SUB_WEEK_LEN) m.subWeeks)
    else none := by
  unfold Meter.weeksElapsedAt
  split_ifs with h
  · simp [h]
  · simp [h]

theorem caughtUp_weeksElapsedAt (s : TokenContract) (c w τ : ℕ) :
    (s.caughtUp c w).weeksElapsedAt τ = s.weeksElapsedAt τ := by
  rw [weeksElapsedAt_form, weeksElapsedAt_form, caughtUp_periodStart, caughtUp_subWeeks]

theorem caughtUp_weeksStartedAt (s : TokenContract) (c w τ : ℕ) :
    (s.caughtUp c w).weeksStartedAt τ = s.weeksStartedAt τ := by
  unfold Meter.weeksStartedAt
  rw [caughtUp_weeksElapsedAt, caughtUp_subWeeks]

namespace OnTerm

theorem elapsed (hd : s.disputed = false) {e : ℕ} (h : s.weeksElapsedAt now = some e) :
    e = s.weeksBy now := by
  have hc : s.clock now = now := if_neg (by simp [hd])
  unfold weeksBy
  rw [hc]
  exact (weeksElapsedAt_le h).2

theorem started (hd : s.disputed = false) {g : ℕ} (h : s.weeksStartedAt now = some g) :
    s.weeksBy now ≤ g := by
  obtain ⟨e, he, h⟩ := of_bind h
  rw [← elapsed hd he]
  have h := Option.some.inj h
  split_ifs at h <;> omega

theorem windUp (hs : OnTerm s) {w e : ℕ} (hw : w ≤ e) :
    (((s.caughtUp now w).promoted now).chargeWeeksThrough e).payFinalAndClose =
      ((s.begin.promoted now).chargeWeeksThrough e).payFinalAndClose := by
  rw [caughtUp_promoted (Nat.le_refl now), caughtUp_charge hs.claims hw,
    ← setTicks_promoted_charge hs.claims, payFinalAndClose_setTicks]

end OnTerm

theorem stop_iff (ha : s.probeAccepted = true) (hsub : s.isSubscription = true) :
    s.stop caller now = some u ↔ s.opened = true ∧ s.fromBuyer caller = true ∧
      s.disputed = false ∧ ∃ g, s.weeksStartedAt now = some g ∧
        ((s.promoted now).chargeWeeksThrough g).payFinalAndClose = some u := by
  have hsub' : (s.promoted now).isSubscription = true := by
    unfold isSubscription at hsub ⊢
    rw [promoted, setMeter_toMeter, Meter.promoteDue_subWeeks]
    exact hsub
  have hstart : (s.promoted now).weeksStartedAt now = s.weeksStartedAt now := by
    obtain ⟨x, hx⟩ := s.toMeter.promoteDue_eq now
    rw [promoted, setMeter_toMeter, hx]
    rfl
  simp only [stop, bind_iff]
  rw [if_neg (by simp [ha])]
  rw [← promoted, if_pos hsub', Option.bind_some, Option.bind_eq_some_iff, hstart]

theorem sellerStop_iff (ha : s.probeAccepted = true) (hsub : s.isSubscription = true) :
    s.sellerStop caller now = some u ↔ caller.pubkey = s.sellerPubkey ∧ s.opened = true ∧
      s.disputed = false ∧ ∃ e, s.weeksElapsedAt now = some e ∧
        ((s.promoted now).chargeWeeksThrough e).payFinalAndClose = some u := by
  have hsub' : ¬ ((s.promoted now).probeAccepted = true ∧
      (s.promoted now).isSubscription = false) := by
    intro h
    have h2 := h.2
    unfold isSubscription at hsub h2
    rw [promoted, setMeter_toMeter, Meter.promoteDue_subWeeks] at h2
    exact absurd (hsub.symm.trans h2) (by decide)
  have hkeep : s.sellerForfeit now = some (s.promoted now) := by
    unfold sellerForfeit
    rw [if_pos ha]
    exact if_neg hsub'
  have helapsed : (s.promoted now).weeksElapsedAt now = s.weeksElapsedAt now := by
    obtain ⟨x, hx⟩ := s.toMeter.promoteDue_eq now
    rw [promoted, setMeter_toMeter, hx]
    rfl
  simp only [sellerStop, bind_iff, hkeep, pure_iff, exists_eq_left', helapsed]

namespace OnTerm

theorem stop_upToDate (hs : OnTerm s) :
    (s.upToDate now).stop caller now = s.begin.stop caller now := by
  have hg : (s.upToDate now).toStage = s.toStage := s.upToDate_toStage now
  have hacc : (s.upToDate now).probeAccepted = true := by
    rw [hg]
    exact hs.accepted
  apply Option.ext
  intro u
  rw [stop_iff hacc (hs.upToDate_subscription now), stop_iff (s := s.begin) hs.accepted hs.subscription,
    hg]
  have hbuyer : (s.upToDate now).fromBuyer caller = s.fromBuyer caller := by
    unfold fromBuyer
    rw [hg]
  rw [hbuyer]
  apply and_congr_right
  intro _
  apply and_congr_right
  intro _
  apply and_congr_right
  intro hd
  rw [hs.upToDate_eq hd, caughtUp_weeksStartedAt]
  apply exists_congr
  intro g
  apply and_congr_right
  intro hstart
  rw [hs.windUp (started hd hstart)]

theorem sellerStop_upToDate (hs : OnTerm s) :
    (s.upToDate now).sellerStop caller now = s.begin.sellerStop caller now := by
  have hg : (s.upToDate now).toStage = s.toStage := s.upToDate_toStage now
  have hacc : (s.upToDate now).probeAccepted = true := by
    rw [hg]
    exact hs.accepted
  apply Option.ext
  intro u
  rw [sellerStop_iff hacc (hs.upToDate_subscription now),
    sellerStop_iff (s := s.begin) hs.accepted hs.subscription, hg]
  rw [upToDate_open hs.opened, caughtUp_toTerms, ← upToDate_open hs.opened]
  apply and_congr_right
  intro _
  apply and_congr_right
  intro _
  apply and_congr_right
  intro hd
  rw [hs.upToDate_eq hd, caughtUp_weeksElapsedAt]
  apply exists_congr
  intro g
  apply and_congr_right
  intro helapsed
  rw [hs.windUp (elapsed hd helapsed).ge]

end OnTerm

theorem voidClaims_promoteDue (m : Meter) (c : ℕ) : (m.promoteDue c).voidClaims c = m.voidClaims c := by
  unfold Meter.promoteDue Meter.promote
  rw [voidClaims_eq, voidClaims_eq]
  split_ifs <;> first | rfl | (dsimp only at *; omega)

theorem endDispute_promoted (s : TokenContract) :
    (s.promoted s.disputeTime).endDispute = s.endDispute := by
  have h := voidClaims_promoteDue s.toMeter s.disputeTime
  unfold endDispute
  change ((s.promoted s.disputeTime).setMeter
    ((s.toMeter.promoteDue s.disputeTime).voidClaims s.disputeTime)).setStage _ = _
  rw [h]
  rfl

theorem endDispute_setTicks (s : TokenContract) (d : ℕ) :
    (s.setTicks d).endDispute = s.endDispute.setTicks d := by
  have h : ({ s.toMeter with ticksFinalized := d } : Meter).voidClaims s.disputeTime =
      { s.toMeter.voidClaims s.disputeTime with ticksFinalized := d } := by
    rw [voidClaims_eq, voidClaims_eq]
  unfold endDispute
  change ((s.setTicks d).setMeter
    (({ s.toMeter with ticksFinalized := d } : Meter).voidClaims s.disputeTime)).setStage _ = _
  rw [h]
  rfl

theorem disputeStake_promoted (s : TokenContract) (c : ℕ) :
    (s.promoted c).disputeStake = s.disputeStake := by
  obtain ⟨x, hx⟩ := s.toMeter.promoteDue_eq c
  unfold promoted
  rw [hx]
  rfl

namespace OnTerm

theorem elapsed_disputed (hd : s.disputed = true) {e : ℕ}
    (h : s.weeksElapsedAt s.disputeTime = some e) : e = s.weeksBy now := by
  have hc : s.clock now = s.disputeTime := if_pos hd
  unfold weeksBy
  rw [hc]
  exact (weeksElapsedAt_le h).2

theorem disputed_charge (hs : OnTerm s) (hd : s.disputed = true) {e : ℕ}
    (h : s.weeksElapsedAt s.disputeTime = some e) :
    (s.upToDate now).chargeWeeksThrough e =
      ((s.begin.chargeWeeksThrough e).promoted s.disputeTime).setTicks 0 := by
  have hc : s.clock now = s.disputeTime := if_pos hd
  rw [upToDate_open hs.opened, hc, caughtUp_charge hs.claims (elapsed_disputed hd h).ge]
  rfl

theorem disputed_end (hs : OnTerm s) (hd : s.disputed = true) {e : ℕ}
    (h : s.weeksElapsedAt s.disputeTime = some e) :
    ((s.upToDate now).chargeWeeksThrough e).endDispute =
      (s.begin.chargeWeeksThrough e).endDispute.setTicks 0 := by
  have hg : (s.begin.chargeWeeksThrough e).disputeTime = s.disputeTime := by
    rw [chargeWeeksThrough_stage]
    rfl
  rw [hs.disputed_charge hd h, endDispute_setTicks, ← hg, endDispute_promoted]

theorem releaseDispute_upToDate (hs : OnTerm s) :
    (s.upToDate now).releaseDispute caller = s.begin.releaseDispute caller := by
  have hg : (s.upToDate now).toStage = s.toStage := s.upToDate_toStage now
  have ht : (s.upToDate now).toTerms = s.toTerms := by
    rw [upToDate_open hs.opened, caughtUp_toTerms]
  have he : ∀ τ, (s.upToDate now).weeksElapsedAt τ = s.weeksElapsedAt τ := by
    rw [upToDate_open hs.opened]
    exact fun τ => caughtUp_weeksElapsedAt ..
  apply Option.ext
  intro u
  simp only [releaseDispute, bind_iff]
  rw [hg, ht, he]
  apply and_congr_right
  intro _
  apply and_congr_right
  intro hd
  apply exists_congr
  intro e
  apply and_congr_right
  intro helapsed
  have hsub : ∀ r : TokenContract, (r.setTicks 0).isSubscription = r.isSubscription := fun _ => rfl
  have hstake : ∀ r : TokenContract, (r.setTicks 0).disputeStake = r.disputeStake := fun _ => rfl
  rw [hs.disputed_end hd helapsed, hsub, hstake, settleTrustedAndClose_setTicks,
    settleTrustedAndClose_setTicks]
  rfl

theorem resolveDisputeTimeout_upToDate (hs : OnTerm s) :
    (s.upToDate now).resolveDisputeTimeout now = s.begin.resolveDisputeTimeout now := by
  have hg : (s.upToDate now).toStage = s.toStage := s.upToDate_toStage now
  have he : ∀ τ, (s.upToDate now).weeksElapsedAt τ = s.weeksElapsedAt τ := by
    rw [upToDate_open hs.opened]
    exact fun τ => caughtUp_weeksElapsedAt ..
  apply Option.ext
  intro u
  simp only [resolveDisputeTimeout, bind_iff]
  rw [hg, he]
  apply and_congr_right
  intro hd
  apply and_congr_right
  intro _
  apply exists_congr
  intro e
  apply and_congr_right
  intro helapsed
  have hsub : ∀ r : TokenContract, r.subWeeks = s.subWeeks → r.isSubscription = true := by
    intro r hr
    unfold isSubscription
    rw [hr]
    exact hs.subscription
  have hticks : ∀ r : TokenContract, (r.setTicks 0).disputeStake = r.disputeStake := fun _ => rfl
  have hstake : ((s.upToDate now).chargeWeeksThrough e).disputeStake =
      (s.begin.chargeWeeksThrough e).disputeStake := by
    rw [hs.disputed_charge hd helapsed, hticks, disputeStake_promoted]
  have hX : ((s.upToDate now).chargeWeeksThrough e).subWeeks = s.subWeeks := by
    rw [(chargeWeeksThrough_claims _ e).2.2.2, upToDate_open hs.opened, caughtUp_subWeeks]
  have hB : (s.begin.chargeWeeksThrough e).subWeeks = s.subWeeks :=
    (chargeWeeksThrough_claims s.begin e).2.2.2
  rw [if_pos (hsub _ hX), if_pos (hsub _ hB), hstake, hs.disputed_end hd helapsed,
    settleTrustedAndClose_setTicks]

end OnTerm

end TokenContract

end Dexdo
