import Dexdo.TokenContract.ExitCost

namespace Dexdo

namespace Purse

/-- Part of what is owed to the seller has left. -/
def taken (p : Purse) (a : ℕ) : Purse :=
  { p with finalizedOwed := p.finalizedOwed - a, balance := p.balance - a }

theorem charge_taken (p : Purse) {a : ℕ} (h : a ≤ p.finalizedOwed) (pay fee : ℕ) :
    (p.taken a).charge pay fee = (p.charge pay fee).taken a := by
  have howed : p.finalizedOwed - a + (p.clampPay pay fee).1 =
      p.finalizedOwed + (p.clampPay pay fee).1 - a := (Nat.sub_add_comm h).symm
  exact congrArg (fun n => ({ p.charge pay fee with
    finalizedOwed := n, balance := p.balance - a } : Purse)) howed

end Purse

namespace Meter

variable {m : Meter} {c d : ℕ}

theorem promoteDue_nextWeek (h : m.tokensFinal ≤ m.tokensPend) (c : ℕ) :
    (m.promoteDue c).nextWeek = m.nextWeek.promoteDue c := by
  unfold promoteDue promote
  change (if _ then if _ then _ else _ else _ : Meter).nextWeek =
    if m.lastClaimTime + CLAIM_PROMOTE_WINDOW ≤ c then
      if m.tokensFinal < m.tokensPend then { m.nextWeek with tokensFinal := m.tokensPend }
      else m.nextWeek
    else m.nextWeek
  split_ifs
  · have hmax : max m.tokensPend m.tokensPend = max m.tokensFinal m.tokensPend := by
      rw [max_self, max_eq_right h]
    unfold nextWeek
    exact congrArg (fun x => ({ m with
      tokensFinal := m.tokensPend
      tokensPaid := (m.weekIndex + 1) * m.tokensPerWeek
      weekIndex := m.weekIndex + 1
      weekBaseTokens := x } : Meter)) hmax
  · rfl
  · rfl

theorem promoteDue_promoteDue (h : c ≤ d) : (m.promoteDue c).promoteDue d = m.promoteDue d := by
  have hstay : ∀ n : Meter, ¬ n.tokensFinal < n.tokensPend → n.promoteDue d = n := by
    intro n hn
    unfold promoteDue promote
    rw [if_neg hn, ite_self]
  by_cases hc : m.lastClaimTime + CLAIM_PROMOTE_WINDOW ≤ c
  · have h1 : ∀ e, m.lastClaimTime + CLAIM_PROMOTE_WINDOW ≤ e → m.promoteDue e = m.promote :=
      fun e he => if_pos he
    rw [h1 c hc, h1 d (hc.trans h)]
    apply hstay
    unfold promote
    split_ifs with h2
    · exact lt_irrefl m.tokensPend
    · exact h2
  · rw [show m.promoteDue c = m from if_neg hc]

theorem promoteDue_ticks (m : Meter) (c n : ℕ) :
    ({ m with ticksFinalized := n } : Meter).promoteDue c =
      { m.promoteDue c with ticksFinalized := n } := by
  unfold promoteDue promote
  split_ifs <;> rfl

end Meter

namespace TokenContract

variable {s t u v : TokenContract} {i : Input} {τ τ' now a b c d : ℕ} {caller : Caller}

theorem chargeWeeks_add (m n : ℕ) (s : TokenContract) :
    chargeWeeks (m + n) s = chargeWeeks n (chargeWeeks m s) := by
  induction m generalizing s with
  | zero => rw [Nat.zero_add]; rfl
  | succ m ih => rw [Nat.succ_add]; exact ih s.chargeWeek

theorem chargeWeeks_comm {F : TokenContract → TokenContract} {P : TokenContract → Prop}
    (hP : ∀ r, P r → P r.chargeWeek) (hF : ∀ r, P r → (F r).chargeWeek = F r.chargeWeek) (n : ℕ)
    (h : P s) : chargeWeeks n (F s) = F (chargeWeeks n s) := by
  induction n generalizing s with
  | zero => rfl
  | succ n ih =>
    calc chargeWeeks n (F s).chargeWeek = chargeWeeks n (F s.chargeWeek) := by rw [hF s h]
      _ = F (chargeWeeks n s.chargeWeek) := ih (hP s h)

theorem chargeWeeksThrough_comm {F : TokenContract → TokenContract} {P : TokenContract → Prop}
    (hP : ∀ r, P r → P r.chargeWeek) (hF : ∀ r, P r → (F r).chargeWeek = F r.chargeWeek)
    (hm : (F s).subWeeks = s.subWeeks ∧ (F s).weekIndex = s.weekIndex)
    (hg : (F s).probeAccepted = s.probeAccepted) (e : ℕ) (h : P s) :
    (F s).chargeWeeksThrough e = F (s.chargeWeeksThrough e) := by
  unfold chargeWeeksThrough isSubscription
  rw [hm.1, hm.2, hg]
  split_ifs
  · rfl
  · exact chargeWeeks_comm hP hF _ h

theorem chargeWeeksThrough_stage (s : TokenContract) (e : ℕ) :
    (s.chargeWeeksThrough e).toStage = s.toStage := by
  obtain ⟨n, x, y, hw⟩ := s.chargeWeeksThrough_weekly e
  exact hw.stage

theorem chargeWeeksThrough_terms (s : TokenContract) (e : ℕ) :
    (s.chargeWeeksThrough e).toTerms = s.toTerms := by
  obtain ⟨n, x, y, hw⟩ := s.chargeWeeksThrough_weekly e
  exact hw.moved.terms

theorem chargeWeeksThrough_claims (s : TokenContract) (e : ℕ) :
    (s.chargeWeeksThrough e).tokensFinal = s.tokensFinal ∧
      (s.chargeWeeksThrough e).tokensPend = s.tokensPend ∧
      (s.chargeWeeksThrough e).periodStart = s.periodStart ∧
      (s.chargeWeeksThrough e).subWeeks = s.subWeeks := by
  obtain ⟨n, x, y, hw⟩ := s.chargeWeeksThrough_weekly e
  rw [hw.meter]
  exact ⟨rfl, rfl, rfl, rfl⟩

theorem chargeWeeksThrough_trans (h : a ≤ b) :
    (s.chargeWeeksThrough a).chargeWeeksThrough b = s.chargeWeeksThrough b := by
  by_cases hs : ¬ s.isSubscription ∨ ¬ s.probeAccepted
  · unfold chargeWeeksThrough
    simp only [if_pos hs]
  · obtain ⟨hsub, hacc⟩ : s.isSubscription = true ∧ s.probeAccepted = true := by
      simpa using hs
    have hidx : (s.chargeWeeksThrough a).weekIndex = max s.weekIndex a := by
      rw [chargeWeeksThrough_meter hsub hacc a]
      exact s.toMeter.crossTo_weekIndex a
    have hsub' : (s.chargeWeeksThrough a).isSubscription = true := by
      unfold isSubscription at hsub ⊢
      rw [(s.chargeWeeksThrough_claims a).2.2.2]
      exact hsub
    have hacc' : (s.chargeWeeksThrough a).probeAccepted = true := by
      rw [chargeWeeksThrough_stage]
      exact hacc
    have hform : ∀ r : TokenContract, r.isSubscription = true → r.probeAccepted = true → ∀ e,
        r.chargeWeeksThrough e = chargeWeeks (e - r.weekIndex) r := by
      intro r h1 h2 e
      unfold chargeWeeksThrough
      rw [h1, h2]
      exact if_neg (by decide)
    rw [hform _ hsub' hacc', hidx, hform s hsub hacc, hform s hsub hacc, ← chargeWeeks_add]
    congr 1
    omega

/-- The matured claim promoted. -/
def promoted (s : TokenContract) (c : ℕ) : TokenContract := s.setMeter (s.toMeter.promoteDue c)

/-- Another figure for the delivered volume. -/
def setTicks (s : TokenContract) (d : ℕ) : TokenContract :=
  s.setMeter { s.toMeter with ticksFinalized := d }

/-- The seller has taken `a` of his due. -/
def taken (s : TokenContract) (a : ℕ) : TokenContract := s.setPurse (s.toPurse.taken a)

theorem promoted_chargeWeeksThrough (h : s.tokensFinal ≤ s.tokensPend) (c e : ℕ) :
    (s.promoted c).chargeWeeksThrough e = (s.chargeWeeksThrough e).promoted c := by
  apply chargeWeeksThrough_comm (F := fun r => r.promoted c)
    (P := fun r => r.tokensFinal ≤ r.tokensPend)
  · exact fun r hr => hr
  · intro r hr
    have hdue : (r.toMeter.promoteDue c).weekDue = r.weekDue := by
      obtain ⟨x, hx⟩ := r.toMeter.promoteDue_eq c
      rw [hx]
      rfl
    have hmeter := Meter.promoteDue_nextWeek hr c
    unfold promoted chargeWeek
    rw [setMeter_toMeter, setMeter_toPurse, hdue, hmeter]
    rfl
  · exact ⟨s.toMeter.promoteDue_subWeeks c, s.toMeter.promoteDue_weekIndex c⟩
  · rfl
  · exact h

theorem setTicks_chargeWeeksThrough (s : TokenContract) (d e : ℕ) :
    (s.setTicks d).chargeWeeksThrough e = (s.chargeWeeksThrough e).setTicks d := by
  apply chargeWeeksThrough_comm (F := fun r => r.setTicks d) (P := fun _ => True)
  · exact fun _ _ => trivial
  · exact fun _ _ => rfl
  · exact ⟨rfl, rfl⟩
  · rfl
  · trivial

theorem begin_chargeWeeksThrough (s : TokenContract) (e : ℕ) :
    s.begin.chargeWeeksThrough e = (s.chargeWeeksThrough e).begin := by
  apply chargeWeeksThrough_comm (F := begin) (P := fun _ => True)
  · exact fun _ _ => trivial
  · exact fun _ _ => rfl
  · exact ⟨rfl, rfl⟩
  · rfl
  · trivial

theorem setStage_chargeWeeksThrough (s : TokenContract) (g : Stage)
    (h : g.probeAccepted = s.probeAccepted) (e : ℕ) :
    (s.setStage g).chargeWeeksThrough e = (s.chargeWeeksThrough e).setStage g := by
  apply chargeWeeksThrough_comm (F := fun r => r.setStage g) (P := fun _ => True)
  · exact fun _ _ => trivial
  · exact fun _ _ => rfl
  · exact ⟨rfl, rfl⟩
  · exact h
  · trivial

theorem taken_chargeWeeksThrough (h : a ≤ s.finalizedOwed) (e : ℕ) :
    (s.taken a).chargeWeeksThrough e = (s.chargeWeeksThrough e).taken a := by
  apply chargeWeeksThrough_comm (F := fun r => r.taken a) (P := fun r => a ≤ r.finalizedOwed)
  · exact fun r hr => hr.trans (Nat.le_add_right _ _)
  · intro r hr
    have hcharge := r.toPurse.charge_taken hr (r.payOf r.weekDue) (r.payFeeOf r.weekDue)
    unfold taken chargeWeek
    change ((r.setPurse _).setPurse
      (Purse.charge _ (r.payOf r.weekDue) (r.payFeeOf r.weekDue))).setMeter _ = _
    rw [setPurse_toPurse, hcharge]
    rfl
  · exact ⟨rfl, rfl⟩
  · rfl
  · exact h

/-- A deal with `w` weeks charged and the claim that has matured at `c` promoted. The delivered
volume is left out, which only the next boundary or the end of the deal records. -/
def caughtUp (s : TokenContract) (c w : ℕ) : TokenContract :=
  ((s.begin.chargeWeeksThrough w).promoted c).setTicks 0

section CaughtUp

variable (s : TokenContract) (c w : ℕ)

@[simp] theorem caughtUp_toStage : (s.caughtUp c w).toStage = s.toStage :=
  s.begin.chargeWeeksThrough_stage w

@[simp] theorem caughtUp_toTerms : (s.caughtUp c w).toTerms = s.toTerms :=
  s.begin.chargeWeeksThrough_terms w

@[simp] theorem caughtUp_actions : (s.caughtUp c w).actions = [] := by
  unfold caughtUp
  rw [begin_chargeWeeksThrough]
  rfl

@[simp] theorem caughtUp_begin : (s.caughtUp c w).begin = s.caughtUp c w := by
  unfold begin
  rw [← caughtUp_actions s c w]

@[simp] theorem caughtUp_balance : (s.caughtUp c w).balance = s.balance := by
  obtain ⟨n, x, y, hw⟩ := s.begin.chargeWeeksThrough_weekly w
  exact hw.charged.balance

theorem caughtUp_meter : ∃ x, (s.caughtUp c w).toMeter =
    { (s.chargeWeeksThrough w).toMeter with tokensFinal := x, ticksFinalized := 0 } := by
  obtain ⟨x, hx⟩ := (s.begin.chargeWeeksThrough w).toMeter.promoteDue_eq c
  refine ⟨x, ?_⟩
  unfold caughtUp promoted setTicks
  rw [setMeter_toMeter, setMeter_toMeter, hx, begin_chargeWeeksThrough]
  rfl

@[simp] theorem caughtUp_tokensPend : (s.caughtUp c w).tokensPend = s.tokensPend := by
  obtain ⟨x, hx⟩ := s.caughtUp_meter c w
  rw [hx]
  exact (s.chargeWeeksThrough_claims w).2.1

@[simp] theorem caughtUp_periodStart : (s.caughtUp c w).periodStart = s.periodStart := by
  obtain ⟨x, hx⟩ := s.caughtUp_meter c w
  rw [hx]
  exact (s.chargeWeeksThrough_claims w).2.2.1

@[simp] theorem caughtUp_subWeeks : (s.caughtUp c w).subWeeks = s.subWeeks := by
  obtain ⟨x, hx⟩ := s.caughtUp_meter c w
  rw [hx]
  exact (s.chargeWeeksThrough_claims w).2.2.2

end CaughtUp

theorem promoted_promoted (h : c ≤ d) : (s.promoted c).promoted d = s.promoted d := by
  unfold promoted
  rw [setMeter_toMeter, Meter.promoteDue_promoteDue h]
  rfl

theorem setTicks_promoted (s : TokenContract) (n c : ℕ) :
    (s.setTicks n).promoted c = (s.promoted c).setTicks n := by
  unfold promoted setTicks
  rw [setMeter_toMeter, Meter.promoteDue_ticks]
  rfl

theorem charged_final_le (h : s.tokensFinal ≤ s.tokensPend) (w : ℕ) :
    (s.begin.chargeWeeksThrough w).tokensFinal ≤ (s.begin.chargeWeeksThrough w).tokensPend := by
  obtain ⟨h1, h2, -⟩ := s.begin.chargeWeeksThrough_claims w
  rw [h1, h2]
  exact h

theorem caughtUp_charge (h : s.tokensFinal ≤ s.tokensPend) {w e : ℕ} (hw : w ≤ e) (c : ℕ) :
    (s.caughtUp c w).chargeWeeksThrough e = s.caughtUp c e := by
  unfold caughtUp
  rw [setTicks_chargeWeeksThrough, promoted_chargeWeeksThrough (charged_final_le h w),
    chargeWeeksThrough_trans hw]

theorem caughtUp_promoted {w : ℕ} (hc : c ≤ d) : (s.caughtUp c w).promoted d = s.caughtUp d w := by
  unfold caughtUp
  rw [setTicks_promoted, promoted_promoted hc]

theorem caughtUp_caughtUp (h : s.tokensFinal ≤ s.tokensPend) {w e : ℕ} (hc : c ≤ d) (hw : w ≤ e) :
    (s.caughtUp c w).caughtUp d e = s.caughtUp d e := by
  have h1 : (s.caughtUp c w).begin.chargeWeeksThrough e = s.caughtUp c e := by
    rw [caughtUp_begin, caughtUp_charge h hw]
  have h2 : ((s.caughtUp c w).caughtUp d e) = ((s.caughtUp c e).promoted d).setTicks 0 := by
    rw [← h1]
    rfl
  rw [h2, caughtUp_promoted hc]
  rfl

/-- Weeks elapsed at `τ`; a dispute stops the clock. -/
def weeksBy (s : TokenContract) (τ : ℕ) : ℕ :=
  min ((s.clock τ - s.periodStart) / SUB_WEEK_LEN) s.subWeeks

/-- An open deal as it stands at `τ`, with everything settled that anyone could settle. -/
def upToDate (s : TokenContract) (τ : ℕ) : TokenContract :=
  if s.opened then s.caughtUp (s.clock τ) (s.weeksBy τ) else s.begin

/-- A subscription that is being served. -/
structure OnTerm (s : TokenContract) : Prop where
  opened : s.opened = true
  accepted : s.probeAccepted = true
  subscription : s.isSubscription = true
  claims : s.tokensFinal ≤ s.tokensPend

theorem clock_mono (s : TokenContract) (h : τ ≤ τ') : s.clock τ ≤ s.clock τ' := by
  unfold clock
  split_ifs
  · exact le_rfl
  · exact h

theorem weeksBy_mono (s : TokenContract) (h : τ ≤ τ') : s.weeksBy τ ≤ s.weeksBy τ' := by
  apply min_le_min_right
  apply Nat.div_le_div_right
  exact Nat.sub_le_sub_right (s.clock_mono h) _

theorem upToDate_open (h : s.opened = true) (τ : ℕ) :
    s.upToDate τ = s.caughtUp (s.clock τ) (s.weeksBy τ) :=
  if_pos h

theorem upToDate_toStage (s : TokenContract) (τ : ℕ) : (s.upToDate τ).toStage = s.toStage := by
  unfold upToDate
  split_ifs
  · exact caughtUp_toStage ..
  · rfl

theorem upToDate_upToDate (h : s.opened = true → s.tokensFinal ≤ s.tokensPend) (hle : τ ≤ τ') :
    (s.upToDate τ).upToDate τ' = s.upToDate τ' := by
  cases ho : s.opened with
  | false =>
    have h1 : ∀ σ, s.upToDate σ = s.begin := fun σ => if_neg (by simp [ho])
    rw [h1, h1]
    exact if_neg (by simp [ho])
  | true =>
    have h1 : (s.upToDate τ).opened = true := by rw [upToDate_toStage]; exact ho
    have hclock : (s.upToDate τ).clock τ' = s.clock τ' := by
      unfold clock
      rw [upToDate_toStage]
    have hweeks : (s.upToDate τ).weeksBy τ' = s.weeksBy τ' := by
      unfold weeksBy
      rw [hclock, upToDate_open ho, caughtUp_periodStart, caughtUp_subWeeks]
    rw [upToDate_open h1, hclock, hweeks, upToDate_open ho, upToDate_open ho]
    exact caughtUp_caughtUp (h ho) (s.clock_mono hle) (s.weeksBy_mono hle)

end TokenContract

end Dexdo
