import Dexdo.TokenContract.Pipeline

namespace Dexdo

/-- A `reportFinalized` message of a deal to a book. -/
structure VolumeReport where
  book : Addr
  pricePerTick : ℕ
  ticks : ℕ
  deriving DecidableEq

/-- The volume report an action sends. -/
def DealAction.volumeReport : DealAction → Option VolumeReport
  | .reportFinalized book price n => some ⟨book, price, n⟩
  | _ => none

namespace TokenContract

variable {s t u : TokenContract}

/-- Volume reports of the current transaction. -/
def reports (s : TokenContract) : List VolumeReport := s.actions.filterMap DealAction.volumeReport

/-- The report of the delivered volume, if there is one to make. -/
def dueReport (s : TokenContract) : List VolumeReport :=
  if s.ticksFinalized = 0 ∨ s.iobHash = 0 then []
  else [⟨s.orderBook, s.pricePerTick, s.ticksFinalized⟩]

section Flows

variable (s : TokenContract)

theorem reports_act (a : DealAction) :
    (s.act a).reports = s.reports ++ a.volumeReport.toList := by
  unfold reports
  rw [act_actions, List.filterMap_append]
  cases h : a.volumeReport <;> simp [h]

@[simp] theorem reports_setPurse (p : Purse) : (s.setPurse p).reports = s.reports := rfl
@[simp] theorem reports_setMeter (m : Meter) : (s.setMeter m).reports = s.reports := rfl
@[simp] theorem reports_setStage (g : Stage) : (s.setStage g).reports = s.reports := rfl
@[simp] theorem reports_emit (e : DealEvent) : (s.emit e).reports = s.reports :=
  (reports_act s _).trans (List.append_nil _)

@[simp] theorem reports_announceClose : s.announceClose.reports = s.reports := by
  unfold announceClose
  cases s.buyer with
  | none => exact (reports_act s _).trans (List.append_nil _)
  | some =>
    refine (reports_act _ _).trans ((List.append_nil _).trans ?_)
    exact (reports_act s _).trans (List.append_nil _)

@[simp] theorem reports_die : s.die.reports = s.reports := by
  unfold die
  rw [reports_setStage, reports_act, reports_emit, reports_announceClose]
  exact List.append_nil _

@[simp] theorem reports_reportFinalized :
    s.reportFinalized.reports = s.reports ++ s.dueReport := by
  unfold reportFinalized dueReport
  split_ifs
  · exact (List.append_nil _).symm
  · exact reports_act s _

@[simp] theorem reports_chargeWeeks (n : ℕ) : (chargeWeeks n s).reports = s.reports := by
  induction n generalizing s with
  | zero => rfl
  | succ n ih => exact ih s.chargeWeek

@[simp] theorem reports_chargeWeeksThrough (e : ℕ) :
    (s.chargeWeeksThrough e).reports = s.reports := by
  obtain ⟨n, hn⟩ := s.chargeWeeksThrough_eq e
  rw [hn, reports_chargeWeeks]

end Flows

theorem reports_payShell {p : Payee} {d : Addr} {a : ℕ} (h : s.payShell p d a = some u) :
    u.reports = s.reports := by
  unfold payShell at h
  split_ifs at h
  · rw [Option.some.inj h]
  · obtain ⟨b, -, h⟩ := of_bind h
    cases h
    exact (reports_act _ _).trans (List.append_nil _)

theorem reports_burnShell {a : ℕ} (h : s.burnShell a = some u) : u.reports = s.reports := by
  unfold burnShell at h
  split_ifs at h
  · rw [Option.some.inj h]
  · obtain ⟨b, -, h⟩ := of_bind h
    cases h
    exact (reports_act _ _).trans (List.append_nil _)

theorem reports_forfeitBonds {b x : ℕ} (h : s.forfeitBonds b x = some u) :
    u.reports = s.reports :=
  (reports_burnShell h).trans (reports_setPurse ..)

theorem reports_sweepAndDie (h : s.sweepAndDie = some u) : u.reports = s.reports := by
  obtain ⟨t, ht, h⟩ := of_bind h
  cases h
  rw [reports_die, reports_payShell ht]

theorem reports_payOwedAndDie (h : s.payOwedAndDie = some u) : u.reports = s.reports := by
  obtain ⟨t, ht, h⟩ := of_bind h
  rw [reports_sweepAndDie (show t.sweepAndDie = some u from h), reports_payShell ht,
    reports_setPurse]

theorem reports_returnBond (h : s.returnBond = some u) : u.reports = s.reports := by
  unfold returnBond at h
  dsimp only at h
  split_ifs at h
  · rw [Option.some.inj h]
  · rw [reports_payShell h, reports_setStage, reports_setPurse]

theorem reports_refundUnopened (h : s.refundUnopened = some u) : u.reports = s.reports := by
  unfold refundUnopened at h
  split_ifs at h
  · rw [Option.some.inj h]
  · rw [reports_payShell h, reports_setStage, reports_setPurse, reports_setPurse]

theorem dueReport_congr (ht : u.toTerms = s.toTerms)
    (hb : u.iobHash = s.iobHash ∧ u.iobDepth = s.iobDepth)
    (hn : u.ticksFinalized = s.ticksFinalized) : u.dueReport = s.dueReport := by
  unfold dueReport orderBook
  rw [ht, hb.1, hb.2, hn]

theorem dueReport_reportFinalized (s : TokenContract) :
    s.reportFinalized.dueReport = s.dueReport := by
  apply dueReport_congr
  · exact (reportFinalized_moved s).terms
  · rw [reportFinalized_toStage]
    exact ⟨rfl, rfl⟩
  · rw [reportFinalized_toMeter]

theorem reports_settleFees {clean : Bool} (h : s.settleFees clean = some u) :
    u.reports = s.reports ++ s.dueReport := by
  obtain ⟨t, ht, h⟩ := of_bind h
  cases h
  obtain ⟨hk, hm⟩ := burnShell_inv ht
  rw [reports_reportFinalized, reports_setPurse, reports_burnShell ht, reports_setPurse]
  congr 1
  apply dueReport_congr
  · exact hm.terms
  · rw [setPurse_toStage, hk.stage]
    exact ⟨rfl, rfl⟩
  · rw [setPurse_toMeter, hk.meter]
    rfl

/-- Ticks the trusted claims of a deal make up. -/
def served (s : TokenContract) : ℕ := (s.toMeter.recordDelivered s.probeAccepted).ticksFinalized

/-- What comes before the end of a deal in the same transaction reports nothing, and the trusted
claims do not shrink. -/
structure Passed (s t : TokenContract) : Prop where
  reports : t.reports = s.reports
  final : s.tokensFinal ≤ t.tokensFinal
  terms : t.toTerms = s.toTerms
  book : t.iobHash = s.iobHash ∧ t.iobDepth = s.iobDepth
  probe : t.probeAccepted = s.probeAccepted

theorem Passed.refl (s : TokenContract) : Passed s s := ⟨rfl, Nat.le_refl _, rfl, ⟨rfl, rfl⟩, rfl⟩

theorem Passed.trans (h : Passed s t) (h' : Passed t u) : Passed s u where
  reports := h'.reports.trans h.reports
  final := h.final.trans h'.final
  terms := h'.terms.trans h.terms
  book := ⟨h'.book.1.trans h.book.1, h'.book.2.trans h.book.2⟩
  probe := h'.probe.trans h.probe

theorem Passed.setMeter (h : Passed s t) {m : Meter} (hm : t.tokensFinal ≤ m.tokensFinal) :
    Passed s (t.setMeter m) :=
  ⟨h.reports, h.final.trans hm, h.terms, h.book, h.probe⟩

theorem Passed.weeks (h : Passed s t) (e : ℕ) : Passed s (t.chargeWeeksThrough e) := by
  obtain ⟨n, a, b, hw⟩ := t.chargeWeeksThrough_weekly e
  apply h.trans
  refine ⟨reports_chargeWeeksThrough .., ?_, hw.moved.terms, ?_, ?_⟩
  · rw [hw.meter]
  · rw [hw.stage]
    exact ⟨rfl, rfl⟩
  · rw [hw.stage]

theorem Passed.forfeit (h : Passed s t) {b x : ℕ} (hf : t.forfeitBonds b x = some u) :
    Passed s u := by
  obtain ⟨h1, h2, h3, -⟩ := forfeitBonds_inv hf
  apply h.trans
  refine ⟨reports_forfeitBonds hf, ?_, h1.terms, ?_, ?_⟩
  · rw [h2]
  · rw [h3]
    exact ⟨rfl, rfl⟩
  · rw [h3]

theorem served_mono {m n : Meter} (h : m.tokensFinal ≤ n.tokensFinal) (p : Bool) :
    (m.recordDelivered p).ticksFinalized ≤ (n.recordDelivered p).ticksFinalized := by
  unfold Meter.recordDelivered
  apply Nat.div_le_div_right
  cases p with
  | false => simpa using h
  | true =>
    simp only [true_and]
    split_ifs <;> omega

theorem Passed.served_le (h : Passed s t) : s.served ≤ t.served := by
  unfold served
  rw [h.probe]
  exact served_mono h.final _

/-- The end of a deal: it reports once what it has served in all. -/
structure Finished (t u : TokenContract) : Prop where
  reports : u.reports = t.reports ++ u.dueReport
  ticks : u.ticksFinalized = t.served
  terms : u.toTerms = t.toTerms
  book : u.iobHash = t.iobHash ∧ u.iobDepth = t.iobDepth

theorem finish_reports {clean : Bool} {refund : ℕ} {e : TokenContract → DealEvent}
    (h : (do
      let s ← s.settleFees clean
      let s ← s.payShell .buyer s.buyerAddr refund
      (s.emit (e s)).payOwedAndDie) = some u) : u.reports = s.reports ++ s.dueReport := by
  simp only [bind_iff] at h
  obtain ⟨t, ht, v, hv, h⟩ := h
  rw [reports_payOwedAndDie h, reports_emit, reports_payShell hv, reports_settleFees ht]

theorem closeClean_finished (hp : s.probeAccepted = true → s.probeTick = 0)
    (h : s.closeClean = some u) : Finished s u := by
  obtain ⟨hc, hm, hg, -⟩ := closeClean_closed hp h
  have hr := finish_reports h
  refine ⟨?_, by rw [hm]; rfl, hc.moved.terms, by rw [hg]; exact ⟨rfl, rfl⟩⟩
  rw [hr]
  change s.reports ++ _ = _
  congr 1
  symm
  apply dueReport_congr
  · exact hc.moved.terms
  · rw [hg]
    exact ⟨rfl, rfl⟩
  · rw [hm]
    rfl

theorem payFinalAndClose_finished (hp : s.probeAccepted = true → s.probeTick = 0)
    (h : s.payFinalAndClose = some u) : Finished s u := by
  obtain ⟨n, hn⟩ := s.payFinalAndClose_eq
  rw [hn] at h
  obtain ⟨h1, h2, h3, h4⟩ := closeClean_finished (by exact hp) h
  exact ⟨h1, h2, h3, h4⟩

theorem settleTrustedAndClose_finished {b x : ℕ} (hp : s.probeAccepted = true → s.probeTick = 0)
    (h : s.settleTrustedAndClose b x = some u) : Finished s u := by
  obtain ⟨e', kept', -, -, hcl, hm, hg, -⟩ := settleTrustedAndClose_exact hp h
  obtain ⟨e, he, h⟩ := of_bind h
  obtain ⟨f, hf, h⟩ := of_bind h
  obtain ⟨kept, -, h⟩ := of_bind h
  obtain ⟨g, hg', h⟩ := of_bind h
  obtain ⟨hcl', hm', hst', -⟩ := finish_closed h
  refine ⟨?_, ?_, hcl.moved.terms, by rw [hg]; exact ⟨rfl, rfl⟩⟩
  · have hpast : g.reports = s.reports := by
      rw [reports_burnShell hg', reports_forfeitBonds hf, reports_setMeter, reports_setPurse,
        reports_chargeWeeksThrough, reports_setPurse]
    rw [finish_reports h, reports_setStage, reports_setPurse, hpast]
    congr 1
    symm
    apply dueReport_congr
    · exact hcl'.moved.terms
    · rw [hst']
      exact ⟨rfl, rfl⟩
    · rw [hm']
  · obtain ⟨n, a, c, hw⟩ := s.weeksCharged_weekly e'
    rw [hm]
    change ((s.weeksCharged e').toMeter.recordDelivered (s.weeksCharged e').probeAccepted).ticksFinalized
      = _
    rw [hw.stage, hw.meter]
    rfl

end TokenContract

end Dexdo
