import Dexdo.TokenContract.Reports

namespace Dexdo

namespace TokenContract

variable {s t u : TokenContract} {i : Input} {now : ℕ} {caller : Caller}

/-- A transaction that has no part in the delivered volume. -/
structure Still (s u : TokenContract) : Prop where
  reports : u.reports = []
  ticks : u.ticksFinalized = s.ticksFinalized
  final : u.tokensFinal = s.tokensFinal
  probe : u.probeAccepted = s.probeAccepted
  ends : u.destroyed = s.destroyed ∨ s.probeAccepted = false

theorem fundFromOrderBook_still {paid pk flags : ℕ} {note : Addr}
    (h : s.begin.fundFromOrderBook caller now paid note pk flags = some u) : Still s u := by
  unfold fundFromOrderBook at h
  split_ifs at h with h0 h1 h2
  · cases h
    exact ⟨rfl, rfl, rfl, rfl, .inl rfl⟩
  · cases h
    exact ⟨rfl, rfl, rfl, rfl, .inl rfl⟩
  · obtain ⟨v, hv, h⟩ := of_bind h
    obtain rfl := receive_inv hv
    dsimp only at h
    split_ifs at h
    · obtain ⟨-, -, h⟩ := of_bind h
      cases h
      exact ⟨rfl, rfl, rfl, rfl, .inl rfl⟩
    · obtain ⟨hk, -⟩ := payShell_inv h
      have hr := reports_payShell h
      refine ⟨hr.trans rfl, by rw [hk.meter]; rfl, by rw [hk.meter]; rfl, by rw [hk.stage]; rfl, ?_⟩
      rw [hk.stage]
      exact .inl rfl

theorem postFromNote_still {a b k f e : ℕ} (h : s.begin.postFromNote caller a b k f e = some u) :
    Still s u := by
  simp only [postFromNote, bind_iff] at h
  obtain ⟨-, -, h⟩ := h
  split_ifs at h
  · cases h
    exact ⟨rfl, rfl, rfl, rfl, .inl rfl⟩
  · cases h
    exact ⟨rfl, rfl, rfl, rfl, .inl rfl⟩

theorem onSellClosed_still : Still s (s.begin.onSellClosed caller) := by
  unfold onSellClosed
  split_ifs
  · exact ⟨rfl, rfl, rfl, rfl, .inl rfl⟩
  · exact ⟨rfl, rfl, rfl, rfl, .inl rfl⟩

theorem release_still (ho : s.probeAccepted = false) (hr : t.reports = [])
    (hm : t.toMeter = s.toMeter) (ha : t.probeAccepted = s.probeAccepted) (h : (do
      let s ← t.returnBond
      s.sweepAndDie) = some u) : Still s u := by
  obtain ⟨-, hm', ha', -⟩ := release_closed h
  obtain ⟨v, hv, h⟩ := of_bind h
  refine ⟨?_, by rw [hm', hm], by rw [hm', hm], ha'.trans ha, .inr ho⟩
  rw [reports_sweepAndDie h, reports_returnBond hv, hr]

theorem close_still (hs : Sane s) (h : s.begin.close caller = some u) : Still s u := by
  simp only [close, bind_iff] at h
  obtain ⟨-, hf, -, h⟩ := h
  exact release_still (hs.unopened (hs.unfunded hf).1).1 (t := s.begin) rfl rfl rfl (Option.bind_eq_some_iff.mpr h)

theorem destroy_still (hs : Sane s) (h : s.begin.destroy caller = some u) : Still s u := by
  simp only [destroy, bind_iff] at h
  obtain ⟨-, ho, -, -, t, ht, h⟩ := h
  obtain ⟨-, h1, h2, -⟩ := refundUnopened_inv (s := s.begin) (hs.unopened ho).2.2.2 ht
  exact release_still (hs.unopened ho).1 (reports_refundUnopened ht) h1 h2 (Option.bind_eq_some_iff.mpr h)

theorem fundDeal_still {amount : ℕ} {c : Option (List ℕ)}
    (h : s.begin.fundDeal caller amount c = some u) : Still s u := by
  simp only [fundDeal, bind_iff] at h
  obtain ⟨-, -, -, -, v, hv, -, w, hw, h⟩ := h
  obtain rfl := receive_inv hv
  obtain ⟨hk, -⟩ := payShell_inv hw
  have hr : w.reports = [] := reports_payShell hw
  have hstill : Still s w := by
    refine ⟨hr, by rw [hk.meter]; rfl, by rw [hk.meter]; rfl, by rw [hk.stage]; rfl, ?_⟩
    rw [hk.stage]
    exact .inl rfl
  cases h
  cases c with
  | none =>
    exact ⟨(reports_emit ..).trans hr, hstill.ticks, hstill.final, hstill.probe, hstill.ends⟩
  | some =>
    refine ⟨?_, hstill.ticks, hstill.final, hstill.probe, hstill.ends⟩
    exact (reports_emit ..).trans ((reports_emit ..).trans hr)

theorem fundBuyerBond_still {amount : ℕ} (h : s.begin.fundBuyerBond caller amount = some u) :
    Still s u := by
  simp only [fundBuyerBond, bind_iff] at h
  obtain ⟨-, -, -, -, v, hv, -, w, hw, h⟩ := h
  obtain rfl := receive_inv hv
  obtain ⟨hk, -⟩ := payShell_inv hw
  have hr : w.reports = [] := reports_payShell hw
  have hprobe : w.probeAccepted = s.probeAccepted := by
    rw [hk.stage]
    rfl
  have hlive : w.destroyed = s.destroyed := by
    rw [hk.stage]
    rfl
  cases h
  refine ⟨(reports_emit ..).trans hr, ?_, ?_, hprobe, .inl hlive⟩
  · exact congrArg Meter.ticksFinalized hk.meter
  · exact congrArg Meter.tokensFinal hk.meter

theorem openDeal_still (hs : Sane s) {c : List ℕ} (h : s.begin.openDeal caller now c = some u) :
    Still s u := by
  simp only [openDeal, bind_iff, pure_iff] at h
  obtain ⟨-, -, ho, -, -, -, rfl⟩ := h
  exact ⟨rfl, rfl, rfl, (hs.unopened ho).1.symm, .inr (hs.unopened ho).1⟩

theorem dispute_still (h : s.begin.dispute caller now = some u) : Still s u := by
  simp only [dispute, bind_iff, pure_iff] at h
  obtain ⟨-, -, -, rfl⟩ := h
  exact ⟨rfl, rfl, rfl, rfl, .inl rfl⟩

theorem cleanupUnopened_still (hs : Sane s) (h : s.begin.cleanupUnopened caller now = some u) : Still s u := by
  simp only [cleanupUnopened, bind_iff, pure_iff] at h
  obtain ⟨-, ho, -, -, v, hv, w, hw, x, hx, rfl⟩ := h
  have hk := (((payShell_inv hv).1.trans (payShell_inv hw).1).trans (burnShell_inv hx).1).trans
    (announceClose_keeps x)
  refine ⟨?_, by rw [hk.meter]; rfl, by rw [hk.meter]; rfl, by rw [hk.stage]; rfl,
    .inr (hs.unopened ho).1⟩
  rw [reports_announceClose, reports_burnShell hx, reports_payShell hw, reports_payShell hv]
  rfl

theorem withdrawShell_still (hs : Sane s) {a : ℕ} (h : s.begin.withdrawShell caller a = some u) :
    Still s u := by
  simp only [withdrawShell, bind_iff] at h
  obtain ⟨-, -, -, v, hv, h⟩ := h
  obtain ⟨hk, -⟩ := payShell_inv hv
  have hr : v.reports = [] := reports_payShell hv
  have hprobe : v.probeAccepted = s.probeAccepted := by
    rw [hk.stage]
    rfl
  split_ifs at h with h1
  · obtain ⟨-, hm, hg, -⟩ := sweepAndDie_closed h
    have hopen : v.opened = false := h1.2.1
    rw [hk.stage] at hopen
    refine ⟨?_, ?_, ?_, ?_, .inr (hs.unopened hopen).1⟩
    · rw [reports_sweepAndDie h, reports_emit, hr]
    · rw [hm]
      exact congrArg Meter.ticksFinalized hk.meter
    · rw [hm]
      exact congrArg Meter.tokensFinal hk.meter
    · rw [hg]
      exact hprobe
  · cases h
    refine ⟨(reports_emit ..).trans hr, ?_, ?_, hprobe, .inl ?_⟩
    · exact congrArg Meter.ticksFinalized hk.meter
    · exact congrArg Meter.tokensFinal hk.meter
    · exact congrArg Stage.destroyed hk.stage

/-- A report the deal may have made: to its book, at its price, of no more than `n` ticks. -/
structure Truthful (s : TokenContract) (n : ℕ) (r : VolumeReport) : Prop where
  book : r.book = s.orderBook
  price : r.pricePerTick = s.pricePerTick
  posted : s.iobHash ≠ 0
  ticks : r.ticks ≤ n

theorem truthful_due {r : VolumeReport} (h : r ∈ s.dueReport) :
    Truthful s s.ticksFinalized r := by
  unfold dueReport at h
  split_ifs at h with h0
  · exact absurd h List.not_mem_nil
  · obtain rfl := List.mem_singleton.mp h
    push Not at h0
    exact ⟨rfl, rfl, h0.2, Nat.le_refl _⟩

theorem Truthful.moved {r : VolumeReport} {m n : ℕ} (h : Truthful s m r)
    (ht : u.toTerms = s.toTerms) (hb : u.iobHash = s.iobHash ∧ u.iobDepth = s.iobDepth)
    (hn : m ≤ n) : Truthful u n r := by
  obtain ⟨h1, h2, h3, h4⟩ := h
  refine ⟨?_, by rw [h2, ht], by rw [hb.1]; exact h3, h4.trans hn⟩
  rw [h1]
  unfold orderBook
  rw [ht, hb.1, hb.2]

/-- What a transaction does to the delivered volume: it never shrinks, no report overstates it, and
the end of the deal reports it whole. -/
structure Volume (s u : TokenContract) : Prop where
  grows : s.ticksFinalized ≤ u.ticksFinalized
  truthful : ∀ r ∈ u.reports, Truthful u u.ticksFinalized r
  final : u.destroyed = true → ∀ r ∈ u.dueReport, r ∈ u.reports
  lag : u.destroyed = false → u.ticksFinalized ≤ u.served

theorem served_eq_zero (hs : Sane s) (ha : s.probeAccepted = false) : s.served = 0 := by
  unfold served Meter.recordDelivered
  rw [ha, (hs.unaccepted ha).2.2.2.1]
  exact Nat.zero_div _

theorem Still.volume (h : Still s u) (hs : Sane s) (hlive : s.destroyed = false)
    (hlag : s.ticksFinalized ≤ s.served) : Volume s u := by
  have hserved : u.served = s.served := by
    unfold served Meter.recordDelivered
    rw [h.final, h.probe]
  refine ⟨h.ticks.ge, ?_, fun hd r hr => ?_, fun _ => ?_⟩
  · rw [h.reports]
    exact fun _ hr => absurd hr List.not_mem_nil
  · rcases h.ends with h1 | ha
    · exact absurd (hlive.symm.trans (h1.symm.trans hd)) (by decide)
    · rw [served_eq_zero hs ha] at hlag
      have hzero : u.ticksFinalized = 0 := h.ticks.trans (Nat.le_zero.mp hlag)
      unfold dueReport at hr
      rw [if_pos (.inl hzero)] at hr
      exact absurd hr List.not_mem_nil
  · rw [h.ticks, hserved]
    exact hlag

theorem Finished.volume (h : Finished t u) (hd : u.destroyed = true)
    (hle : s.ticksFinalized ≤ t.served) (hr : ∀ r ∈ t.reports, Truthful t t.served r) :
    Volume s u := by
  refine ⟨by rw [h.ticks]; exact hle, fun r hmem => ?_, fun _ r hmem => ?_, fun hl => ?_⟩
  · rw [h.reports] at hmem
    rcases List.mem_append.mp hmem with hmem | hmem
    · exact (hr r hmem).moved h.terms h.book h.ticks.ge
    · exact truthful_due hmem
  · rw [h.reports]
    exact List.mem_append_right _ hmem
  · exact absurd (hd.symm.trans hl) (by decide)

theorem Passed.finished (hp : Passed s.begin t) (h : Finished t u) (hd : u.destroyed = true)
    (hlag : s.ticksFinalized ≤ s.served) : Volume s u := by
  apply h.volume hd (hlag.trans hp.served_le)
  rw [hp.reports]
  exact fun _ hr => absurd hr List.not_mem_nil

/-- Boundaries crossed within a transaction. -/
structure Crossed (s r : TokenContract) : Prop where
  reports : ∀ x ∈ r.reports, x ∈ r.dueReport
  grows : s.ticksFinalized ≤ r.ticksFinalized
  lag : r.ticksFinalized ≤ r.served
  stage : r.toStage = s.toStage
  purse : r.probeTick = s.probeTick

theorem settleBoundaries_crossed (hlag : s.ticksFinalized ≤ s.served) (due : ℕ) :
    Crossed s (s.begin.settleBoundaries due) := by
  unfold settleBoundaries
  split_ifs
  · exact ⟨fun _ hx => absurd hx List.not_mem_nil, Nat.le_refl _, hlag, rfl, rfl⟩
  · obtain ⟨n, a, b, hw⟩ := s.begin.chargeWeeksThrough_weekly due
    have hpass := (Passed.refl s.begin).weeks due
    refine ⟨fun x hx => ?_, ?_, ?_, ?_, ?_⟩
    · rw [reports_reportFinalized, reports_setMeter, reports_emit, hpass.reports] at hx
      rw [dueReport_reportFinalized]
      exact hx
    · rw [reportFinalized_toMeter]
      exact hlag.trans hpass.served_le
    · unfold served
      rw [reportFinalized_toMeter, reportFinalized_toStage]
      exact Nat.le_refl _
    · rw [reportFinalized_toStage]
      exact hw.stage
    · rw [reportFinalized_toPurse]
      exact hw.charged.probeTick

theorem promoteDue_grows (m : Meter) (now : ℕ) :
    m.tokensFinal ≤ (m.promoteDue now).tokensFinal := by
  unfold Meter.promoteDue Meter.promote
  split_ifs with h1 h2
  · exact Nat.le_of_lt h2
  · exact Nat.le_refl _
  · exact Nat.le_refl _

theorem Crossed.truthful (hc : Crossed s t) {r : VolumeReport} (hr : r ∈ t.reports) :
    Truthful t t.ticksFinalized r :=
  truthful_due (hc.reports r hr)

theorem Crossed.volume (hc : Crossed s t) (hp : Passed t u)
    (ht : u.ticksFinalized = t.ticksFinalized) (hl : u.destroyed = false) : Volume s u where
  grows := by
    rw [ht]
    exact hc.grows
  truthful := by
    intro r hr
    rw [hp.reports] at hr
    exact (hc.truthful hr).moved hp.terms hp.book ht.ge
  final := fun hd => absurd (hd.symm.trans hl) (by decide)
  lag := fun _ => by
    rw [ht]
    exact hc.lag.trans hp.served_le

theorem claimTokens_volume (hs : Sane s) (hlive : s.destroyed = false)
    (hlag : s.ticksFinalized ≤ s.served) {n : ℕ} (h : s.begin.claimTokens caller now n = some u) :
    Volume s u := by
  simp only [claimTokens, bind_iff] at h
  obtain ⟨-, -, -, -, -, h⟩ := h
  split_ifs at h with hn
  · cases h
    exact Still.volume ⟨rfl, rfl, rfl, rfl, .inl rfl⟩ hs hlive hlag
  · obtain ⟨due, -, h⟩ := of_bind h
    have hc := settleBoundaries_crossed hlag due
    simp only [pendClaim, bind_iff, pure_iff] at h
    obtain ⟨-, -, rfl⟩ := h
    refine hc.volume ⟨reports_emit .., promoteDue_grows _ now, rfl, ⟨rfl, rfl⟩, rfl⟩ ?_ ?_
    · obtain ⟨x, hx⟩ := (s.begin.settleBoundaries due).toMeter.promoteDue_eq now
      exact congrArg (·.ticksFinalized) hx
    · exact (congrArg (·.destroyed) hc.stage).trans hlive

theorem finalize_volume (hs : Sane s) (hlive : s.destroyed = false)
    (hlag : s.ticksFinalized ≤ s.served) (h : s.begin.finalize now = some u) : Volume s u := by
  simp only [finalize, bind_iff] at h
  obtain ⟨-, -, h⟩ := h
  have hp : Passed s.begin (s.begin.setMeter (s.begin.toMeter.promoteDue now)) :=
    (Passed.refl s.begin).setMeter (promoteDue_grows _ now)
  split_ifs at h
  · obtain ⟨_, -, -, -, hg, -⟩ := payFinalAndClose_closed (by exact hs.noProbe) h
    exact hp.finished (payFinalAndClose_finished (by exact hs.noProbe) h) (by rw [hg]) hlag
  · cases h
    obtain ⟨x, hx⟩ := s.begin.toMeter.promoteDue_eq now
    have hticks : (s.begin.toMeter.promoteDue now).ticksFinalized = s.ticksFinalized :=
      congrArg (·.ticksFinalized) hx
    refine ⟨hticks.ge, fun _ hr => absurd hr List.not_mem_nil,
      fun hd => absurd (hd.symm.trans hlive) (by decide), fun _ => ?_⟩
    exact hticks.le.trans (hlag.trans hp.served_le)

theorem settleWeek_volume (hs : Sane s) (hlive : s.destroyed = false)
    (hlag : s.ticksFinalized ≤ s.served) (h : s.begin.settleWeek now = some u) : Volume s u := by
  simp only [settleWeek, bind_iff] at h
  obtain ⟨-, -, ha, due, -, -, h⟩ := h
  have hc := settleBoundaries_crossed hlag due
  have hprobe : (s.begin.settleBoundaries due).probeTick = 0 := hc.purse.trans (hs.noProbe ha)
  have hp : Passed (s.begin.settleBoundaries due) ((s.begin.settleBoundaries due).setMeter
      ((s.begin.settleBoundaries due).toMeter.promoteDue now)) :=
    (Passed.refl _).setMeter (promoteDue_grows _ now)
  split_ifs at h
  · obtain ⟨_, -, -, -, hg, -⟩ := payFinalAndClose_closed (by exact fun _ => hprobe) h
    have hle := hc.lag.trans hp.served_le
    apply (payFinalAndClose_finished (by exact fun _ => hprobe) h).volume (by rw [hg]) (hc.grows.trans hle)
    intro r hr
    exact (hc.truthful hr).moved rfl ⟨rfl, rfl⟩ hle
  · cases h
    exact hc.volume (.refl _) rfl ((congrArg (·.destroyed) hc.stage).trans hlive)

theorem acceptProbe_volume (hs : Sane s) (hlive : s.destroyed = false)
    (hlag : s.ticksFinalized ≤ s.served) (h : s.begin.acceptProbe caller now = some u) :
    Volume s u := by
  simp only [acceptProbe, bind_iff, pure_iff] at h
  obtain ⟨-, -, -, ha, -, rfl⟩ := h
  rw [served_eq_zero hs ha] at hlag
  have hone : ∀ m : Meter, ((m.acceptProbe now).recordDelivered true).ticksFinalized = 1 := by
    intro m
    simp [Meter.acceptProbe, Meter.recordDelivered, DEAL_TICK_SIZE]
  refine ⟨hlag.trans (Nat.zero_le _), fun _ hr => absurd hr List.not_mem_nil,
    fun hd => absurd (hd.symm.trans hlive) (by decide), fun _ => ?_⟩
  exact (hone _).ge

theorem stopProbe_still (ha : s.probeAccepted = false) (h : s.begin.stopProbe = some u) :
    Still s u := by
  simp only [stopProbe, bind_iff] at h
  obtain ⟨v, hv, w, hw, h⟩ := h
  obtain ⟨-, hm, hg, -⟩ := payOwedAndDie_closed h
  have hk := ((burnShell_inv hv).1.trans (payShell_inv hw).1)
  refine ⟨?_, ?_, ?_, ?_, .inr ha⟩
  · rw [reports_payOwedAndDie h, reports_emit, reports_payShell hw, reports_burnShell hv]
    rfl
  · rw [hm]
    exact congrArg Meter.ticksFinalized hk.meter
  · rw [hm]
    exact congrArg Meter.tokensFinal hk.meter
  · have hprobe : w.probeAccepted = s.probeAccepted := by
      rw [hk.stage]
      rfl
    rw [hg]
    exact hprobe

theorem Passed.clean (hp : Passed s.begin t) (hpurse : t.probeTick = s.probeTick)
    (hs : Sane s) (hlag : s.ticksFinalized ≤ s.served) {e : ℕ}
    (h : (t.chargeWeeksThrough e).payFinalAndClose = some u) : Volume s u := by
  obtain ⟨n, a, b, hw⟩ := t.chargeWeeksThrough_weekly e
  have hprobe : (t.chargeWeeksThrough e).probeAccepted = true →
      (t.chargeWeeksThrough e).probeTick = 0 := by
    intro ha
    rw [hw.charged.probeTick, hpurse]
    apply hs.noProbe
    rw [hw.stage, hp.probe] at ha
    exact ha
  obtain ⟨_, -, -, -, hg, -⟩ := payFinalAndClose_closed hprobe h
  exact (hp.weeks e).finished (payFinalAndClose_finished hprobe h) (by rw [hg]) hlag

theorem stop_volume (hs : Sane s) (hlive : s.destroyed = false)
    (hlag : s.ticksFinalized ≤ s.served) (h : s.begin.stop caller now = some u) : Volume s u := by
  simp only [stop, bind_iff] at h
  obtain ⟨-, -, -, h⟩ := h
  have hp : Passed s.begin (s.begin.setMeter (s.begin.toMeter.promoteDue now)) :=
    (Passed.refl s.begin).setMeter (promoteDue_grows _ now)
  split_ifs at h with ha hsub
  · exact (stopProbe_still (s := s) ha h).volume hs hlive hlag
  · rw [Option.bind_some] at h
    obtain ⟨g, -, h⟩ := of_bind h
    exact hp.clean rfl hs hlag h
  · obtain ⟨t, ht, h⟩ := of_bind h
    obtain ⟨g, -, h⟩ := of_bind h
    have hpurse : t.probeTick = s.probeTick := by
      rw [(forfeitBonds_inv ht).2.2.2]
      rfl
    have hp' : Passed s.begin t := (hp.setMeter (m := Meter.promote _) ?_).forfeit ht
    · exact hp'.clean hpurse hs hlag h
    · unfold Meter.promote
      split_ifs with hlt
      · exact Nat.le_of_lt hlt
      · exact Nat.le_refl _

theorem reports_sellerForfeit (h : s.sellerForfeit now = some t) : t.reports = s.reports := by
  unfold sellerForfeit at h
  have htail : ∀ v : TokenContract, v.reports = s.reports → (if (v.setMeter
      (v.toMeter.promoteDue now)).probeAccepted = true ∧
        (v.setMeter (v.toMeter.promoteDue now)).isSubscription = false then
      ((v.setMeter (v.toMeter.promoteDue now)).setMeter
        { (v.toMeter.promoteDue now) with
          tokensPend := (v.toMeter.promoteDue now).tokensFinal }).forfeitBonds 0 v.pricePerTick
      else some (v.setMeter (v.toMeter.promoteDue now))) = some t → t.reports = s.reports := by
    intro v hv h
    split_ifs at h
    · exact (reports_forfeitBonds h).trans hv
    · cases h
      exact hv
  cases ha : s.probeAccepted with
  | false =>
    rw [ha] at h
    obtain ⟨g, hg, h⟩ := of_bind h
    exact htail g (reports_forfeitBonds hg) h
  | true =>
    rw [ha] at h
    dsimp only at h
    rw [if_pos rfl] at h
    obtain ⟨g, hg, h⟩ := of_bind h
    cases hg
    exact htail s rfl h

theorem sellerStop_volume (hs : Sane s) (hlag : s.ticksFinalized ≤ s.served)
    (h : s.begin.sellerStop caller now = some u) : Volume s u := by
  simp only [sellerStop, bind_iff] at h
  obtain ⟨-, -, hd, t, ht, e, -, h⟩ := h
  obtain ⟨w, x, y, hprep, hm, hx⟩ := sellerForfeit_prepared (s := s) hd ht
  have hp : Passed s.begin t := by
    refine ⟨reports_sellerForfeit ht, ?_, hprep.moved.terms, ?_, ?_⟩
    · rw [hm, hx]
      exact promoteDue_grows s.toMeter now
    · rw [hprep.stage]
      exact ⟨rfl, rfl⟩
    · rw [hprep.stage]
      rfl
  exact hp.clean hprep.probeTick hs hlag h

theorem endDispute_passed (h : Passed s t) : Passed s t.endDispute := by
  apply h.trans
  refine ⟨rfl, ?_, rfl, ⟨rfl, rfl⟩, rfl⟩
  change t.tokensFinal ≤ (t.toMeter.voidClaims t.disputeTime).tokensFinal
  rw [voidClaims_eq]
  change t.tokensFinal ≤ if _ then _ else _
  split_ifs with h1
  · exact Nat.le_of_lt h1.1
  · exact Nat.le_refl _

theorem Passed.trusted (hp : Passed s.begin t) (hpurse : t.probeTick = s.probeTick) (hs : Sane s)
    (hlag : s.ticksFinalized ≤ s.served) {b x : ℕ}
    (h : t.settleTrustedAndClose b x = some u) : Volume s u := by
  have hprobe : t.probeAccepted = true → t.probeTick = 0 := by
    intro ha
    rw [hpurse]
    apply hs.noProbe
    rw [hp.probe] at ha
    exact ha
  obtain ⟨_, _, -, -, -, -, hg, -⟩ := settleTrustedAndClose_exact hprobe h
  exact hp.finished (settleTrustedAndClose_finished hprobe h) (by rw [hg]) hlag

theorem releaseDispute_volume (hs : Sane s) (hlag : s.ticksFinalized ≤ s.served)
    (h : s.begin.releaseDispute caller = some u) : Volume s u := by
  simp only [releaseDispute, bind_iff] at h
  obtain ⟨-, -, e, -, h⟩ := h
  have hp := endDispute_passed ((Passed.refl s.begin).weeks e)
  have hpurse : (s.begin.chargeWeeksThrough e).endDispute.probeTick = s.probeTick := by
    obtain ⟨n, a, b, hw⟩ := s.begin.chargeWeeksThrough_weekly e
    exact hw.charged.probeTick
  split_ifs at h
  · exact hp.trusted hpurse hs hlag h
  · exact hp.trusted hpurse hs hlag h

theorem resolveDisputeTimeout_volume (hs : Sane s) (hlag : s.ticksFinalized ≤ s.served)
    (h : s.begin.resolveDisputeTimeout now = some u) : Volume s u := by
  simp only [resolveDisputeTimeout, bind_iff] at h
  obtain ⟨-, -, e, -, h⟩ := h
  have hp := endDispute_passed ((Passed.refl s.begin).weeks e)
  have hpurse : (s.begin.chargeWeeksThrough e).endDispute.probeTick = s.probeTick := by
    obtain ⟨n, a, b, hw⟩ := s.begin.chargeWeeksThrough_weekly e
    exact hw.charged.probeTick
  split_ifs at h
  · exact hp.trusted hpurse hs hlag h
  · obtain ⟨g, hg, h⟩ := of_bind h
    obtain ⟨hk, hm⟩ := burnShell_inv hg
    have hg' : Passed s.begin g := by
      apply hp.trans
      refine ⟨(reports_burnShell hg).trans (reports_setPurse ..), ?_, hm.terms, ?_, ?_⟩
      · rw [hk.meter]
        exact Nat.le_refl _
      · rw [hk.stage]
        exact ⟨rfl, rfl⟩
      · rw [hk.stage]
        rfl
    apply hg'.trusted _ hs hlag h
    rw [hk.purse]
    exact hpurse

theorem step_volume (hs : Sane s) (hlag : s.ticksFinalized ≤ s.served)
    (h : s.step i = some u) : Volume s u := by
  have hl := step_live h
  have hx := step_exec h
  obtain ⟨caller, now, call⟩ := i
  cases call with
  | fundFromOrderBook => exact (fundFromOrderBook_still hx).volume hs hl hlag
  | postFromNote => exact (postFromNote_still hx).volume hs hl hlag
  | onSellClosed =>
    cases hx
    exact onSellClosed_still.volume hs hl hlag
  | close => exact (close_still hs hx).volume hs hl hlag
  | fundDeal => exact (fundDeal_still hx).volume hs hl hlag
  | fundBuyerBond => exact (fundBuyerBond_still hx).volume hs hl hlag
  | openDeal => exact (openDeal_still hs hx).volume hs hl hlag
  | acceptProbe => exact acceptProbe_volume hs hl hlag hx
  | claimTokens => exact claimTokens_volume hs hl hlag hx
  | finalize => exact finalize_volume hs hl hlag hx
  | settleWeek => exact settleWeek_volume hs hl hlag hx
  | stop => exact stop_volume hs hl hlag hx
  | sellerStop => exact sellerStop_volume hs hlag hx
  | dispute => exact (dispute_still hx).volume hs hl hlag
  | releaseDispute => exact releaseDispute_volume hs hlag hx
  | resolveDisputeTimeout => exact resolveDisputeTimeout_volume hs hlag hx
  | cleanupUnopened => exact (cleanupUnopened_still hs hx).volume hs hl hlag
  | withdrawShell => exact (withdrawShell_still hs hx).volume hs hl hlag
  | destroy => exact (destroy_still hs hx).volume hs hl hlag

/-- Volume reports of a whole trace, in the order they are sent. -/
def reportsOf (tr : List (Input × TokenContract)) : List VolumeReport :=
  tr.flatMap fun x => x.2.reports

theorem reportsOf_concat (tr : List (Input × TokenContract)) :
    reportsOf (tr ++ [(i, u)]) = reportsOf tr ++ u.reports := by
  simp [reportsOf]

/-- What a deal has reported in all its transactions. -/
structure Accounted (tr : List (Input × TokenContract)) (u : TokenContract) : Prop where
  lag : u.destroyed = false → u.ticksFinalized ≤ u.served
  ticks : ∀ r ∈ reportsOf tr, r.ticks ≤ u.ticksFinalized
  price : ∀ r ∈ reportsOf tr, r.pricePerTick = u.pricePerTick
  book : ∀ r ∈ reportsOf tr, ∃ h d, h ≠ 0 ∧ r.book = .inferenceBook h d u.modelHash
  final : u.destroyed = true → ∀ r ∈ u.dueReport, r ∈ reportsOf tr

theorem run_accounted {t : Terms} (ht : t.Valid) {tr : List (Input × TokenContract)}
    (h : Run step (init t) tr u) : Accounted tr u := by
  refine h.invariant Accounted ?_ ?_
  · refine ⟨fun _ => Nat.zero_le _, ?_, ?_, ?_, nofun⟩
    · exact fun _ hr => absurd hr List.not_mem_nil
    · exact fun _ hr => absurd hr List.not_mem_nil
    · exact fun _ hr => absurd hr List.not_mem_nil
  · intro tr s i u hr hI hi
    have hl := step_live hi
    have hs := run_sane ht hr hl
    have hv := step_volume hs (hI.lag hl) hi
    have hterms := (step_effect hs hi).2.terms
    refine ⟨hv.lag, fun r hmem => ?_, fun r hmem => ?_, fun r hmem => ?_, fun hd r hmem => ?_⟩
    · rw [reportsOf_concat] at hmem
      rcases List.mem_append.mp hmem with hmem | hmem
      · exact (hI.ticks r hmem).trans hv.grows
      · exact (hv.truthful r hmem).ticks
    · rw [reportsOf_concat] at hmem
      rcases List.mem_append.mp hmem with hmem | hmem
      · rw [hterms]
        exact hI.price r hmem
      · exact (hv.truthful r hmem).price
    · rw [reportsOf_concat] at hmem
      rcases List.mem_append.mp hmem with hmem | hmem
      · rw [hterms]
        exact hI.book r hmem
      · exact ⟨_, _, (hv.truthful r hmem).posted, (hv.truthful r hmem).book⟩
    · rw [reportsOf_concat]
      exact List.mem_append_right _ (hv.final hd r hmem)

/-- Highest cumulative volume among the reports to a book. -/
def reportedTo (book : Addr) : List VolumeReport → ℕ
  | [] => 0
  | r :: rs => if r.book = book then max r.ticks (reportedTo book rs) else reportedTo book rs

theorem reportedTo_le {book : Addr} {n : ℕ} {rs : List VolumeReport}
    (h : ∀ r ∈ rs, r.book = book → r.ticks ≤ n) : reportedTo book rs ≤ n := by
  induction rs with
  | nil => exact Nat.zero_le _
  | cons r rs ih =>
    have h1 := ih fun x hx => h x (List.mem_cons_of_mem _ hx)
    unfold reportedTo
    split_ifs with hb
    · exact max_le (h r List.mem_cons_self hb) h1
    · exact h1

theorem le_reportedTo {r : VolumeReport} {rs : List VolumeReport} (h : r ∈ rs) :
    r.ticks ≤ reportedTo r.book rs := by
  induction rs with
  | nil => exact absurd h List.not_mem_nil
  | cons x rs ih =>
    unfold reportedTo
    rcases List.mem_cons.mp h with rfl | h
    · rw [if_pos rfl]
      exact Nat.le_max_left _ _
    · split_ifs
      · exact (ih h).trans (Nat.le_max_right _ _)
      · exact ih h

theorem Accounted.whole {tr : List (Input × TokenContract)} (h : Accounted tr u)
    (hd : u.destroyed = true) : reportedTo u.orderBook (reportsOf tr) =
      if u.iobHash = 0 then 0 else u.ticksFinalized := by
  split_ifs with h0
  · apply Nat.le_zero.mp
    apply reportedTo_le
    intro r hr hb
    obtain ⟨x, y, hx, hbook⟩ := h.book r hr
    have heq := hb.symm.trans hbook
    unfold orderBook at heq
    exact absurd ((Addr.inferenceBook.inj heq).1.symm.trans h0) hx
  · apply Nat.le_antisymm (reportedTo_le fun r hr _ => h.ticks r hr)
    by_cases hn : u.ticksFinalized = 0
    · rw [hn]
      exact Nat.zero_le _
    · have hdue : u.dueReport = [⟨u.orderBook, u.pricePerTick, u.ticksFinalized⟩] :=
        if_neg (by tauto)
      have hmem := h.final hd ⟨u.orderBook, u.pricePerTick, u.ticksFinalized⟩
        (by rw [hdue]; exact List.mem_singleton_self _)
      exact le_reportedTo hmem

end TokenContract

end Dexdo
