import Dexdo.TokenContract.Entry

namespace Dexdo

namespace DealAction

/-- SHELL an action credits to the given payee. -/
def credit (p : Payee) : DealAction → ℕ
  | creditFromDeal q _ a => if q = p then a else 0
  | _ => 0

/-- SHELL an action writes off. -/
def writeOff : DealAction → ℕ
  | reportDealWriteOff a => a
  | _ => 0

end DealAction

namespace Purse

/-- Sum of the earmarks. -/
def booked (p : Purse) : ℕ :=
  p.deposit + p.probeTick + p.finalizedOwed + p.feeAccrued + p.buyerBond + p.sellerBond

/-- What the purse holds for the buyer. -/
def ofBuyer (p : Purse) : ℕ := p.deposit + p.probeTick + p.buyerBond

/-- What the purse holds for the seller. -/
def ofSeller (p : Purse) : ℕ := p.finalizedOwed + p.sellerBond

theorem booked_eq (p : Purse) : p.booked = p.ofBuyer + p.ofSeller + p.feeAccrued := by
  unfold booked ofBuyer ofSeller
  omega

theorem clampPay_fst (p : Purse) (pay fee : ℕ) : (p.clampPay pay fee).1 ≤ pay := by
  unfold clampPay
  dsimp only
  split_ifs <;> dsimp only <;> omega

theorem clampPay_snd (p : Purse) (pay fee : ℕ) : (p.clampPay pay fee).2 ≤ fee := by
  unfold clampPay
  dsimp only
  split_ifs <;> dsimp only <;> omega

/-- `pay` has moved from the escrow to the seller and `fee` to the fees. -/
structure Charged (p q : Purse) (pay fee : ℕ) : Prop where
  deposit : q.deposit + (pay + fee) = p.deposit
  owed : q.finalizedOwed = p.finalizedOwed + pay
  accrued : q.feeAccrued = p.feeAccrued + fee
  balance : q.balance = p.balance
  probeTick : q.probeTick = p.probeTick
  buyerBond : q.buyerBond = p.buyerBond
  sellerBond : q.sellerBond = p.sellerBond

namespace Charged

variable {p q r : Purse} {a b a' b' : ℕ}

theorem refl (p : Purse) : Charged p p 0 0 := by
  constructor <;> rfl

theorem trans (h : Charged p q a b) (h' : Charged q r a' b') :
    Charged p r (a + a') (b + b') := by
  obtain ⟨h1, h2, h3, h4, h5, h6, h7⟩ := h
  obtain ⟨k1, k2, k3, k4, k5, k6, k7⟩ := h'
  constructor <;> omega

theorem booked (h : Charged p q a b) : q.booked = p.booked := by
  obtain ⟨h1, h2, h3, -, h5, h6, h7⟩ := h
  unfold Purse.booked
  omega

theorem ofSeller (h : Charged p q a b) : q.ofSeller = p.ofSeller + a := by
  unfold Purse.ofSeller
  rw [h.owed, h.sellerBond]
  omega

theorem ofBuyer (h : Charged p q a b) : q.ofBuyer + (a + b) = p.ofBuyer := by
  have h1 := h.deposit
  unfold Purse.ofBuyer
  rw [h.probeTick, h.buyerBond]
  omega

end Charged

theorem clampPay_sum (p : Purse) (pay fee : ℕ) :
    (p.clampPay pay fee).1 + (p.clampPay pay fee).2 = min (pay + fee) p.deposit := by
  unfold clampPay
  dsimp only
  split_ifs <;> dsimp only <;> omega

theorem charge_charged (p : Purse) (pay fee : ℕ) :
    ∃ a ≤ pay, ∃ b ≤ fee, Charged p (p.charge pay fee) a b ∧ a + b = min (pay + fee) p.deposit := by
  refine ⟨_, p.clampPay_fst pay fee, _, p.clampPay_snd pay fee, ?_, p.clampPay_sum pay fee⟩
  constructor
  · refine Nat.sub_add_cancel ?_
    rw [clampPay_sum]
    exact Nat.min_le_right _ _
  all_goals rfl

theorem releaseProbe_booked (p : Purse) (b : Bool) : (p.releaseProbe b).booked = p.booked := by
  unfold releaseProbe
  split_ifs
  · rfl
  · dsimp only [booked]
    omega

theorem releaseProbe_ofBuyer (p : Purse) (b : Bool) : (p.releaseProbe b).ofBuyer = p.ofBuyer := by
  unfold releaseProbe
  split_ifs
  · rfl
  · dsimp only [ofBuyer]
    omega

section Release

variable (p : Purse) (b : Bool)

@[simp] theorem releaseProbe_balance : (p.releaseProbe b).balance = p.balance := by
  cases b <;> rfl
@[simp] theorem releaseProbe_finalizedOwed :
    (p.releaseProbe b).finalizedOwed = p.finalizedOwed := by cases b <;> rfl
@[simp] theorem releaseProbe_feeAccrued : (p.releaseProbe b).feeAccrued = p.feeAccrued := by
  cases b <;> rfl
@[simp] theorem releaseProbe_buyerBond : (p.releaseProbe b).buyerBond = p.buyerBond := by
  cases b <;> rfl
@[simp] theorem releaseProbe_sellerBond : (p.releaseProbe b).sellerBond = p.sellerBond := by
  cases b <;> rfl

theorem releaseProbe_probeTick (h : b = true → p.probeTick = 0) :
    (p.releaseProbe b).probeTick = 0 := by
  cases b with
  | false => rfl
  | true => exact h rfl

end Release

end Purse

namespace Meter

variable (m : Meter) (time : ℕ)

theorem promoteDue_eq : ∃ x, m.promoteDue time = { m with tokensFinal := x } := by
  unfold promoteDue promote
  split_ifs
  · exact ⟨m.tokensPend, rfl⟩
  · exact ⟨m.tokensFinal, rfl⟩
  · exact ⟨m.tokensFinal, rfl⟩

@[simp] theorem promoteDue_subWeeks : (m.promoteDue time).subWeeks = m.subWeeks := by
  obtain ⟨x, hx⟩ := m.promoteDue_eq time
  rw [hx]

@[simp] theorem promoteDue_weekIndex : (m.promoteDue time).weekIndex = m.weekIndex := by
  obtain ⟨x, hx⟩ := m.promoteDue_eq time
  rw [hx]

@[simp] theorem promoteDue_tokensPerWeek : (m.promoteDue time).tokensPerWeek = m.tokensPerWeek := by
  obtain ⟨x, hx⟩ := m.promoteDue_eq time
  rw [hx]

@[simp] theorem promoteDue_tokensPaid : (m.promoteDue time).tokensPaid = m.tokensPaid := by
  obtain ⟨x, hx⟩ := m.promoteDue_eq time
  rw [hx]

theorem promoteDue_final_le (h : m.tokensFinal ≤ m.tokensPend) :
    (m.promoteDue time).tokensFinal ≤ m.tokensPend := by
  unfold promoteDue promote
  split_ifs
  · exact le_rfl
  · exact h
  · exact h

theorem promote_eq {m : Meter} (h : m.tokensFinal ≤ m.tokensPend) :
    m.promote = { m with tokensFinal := m.tokensPend } := by
  unfold promote
  split_ifs with h1
  · rfl
  · have he := Nat.le_antisymm h (Nat.not_lt.mp h1)
    exact congrArg (fun x => { m with tokensFinal := x }) he

theorem promote_promoteDue (h : m.tokensFinal ≤ m.tokensPend) :
    (m.promoteDue time).promote = { m with tokensFinal := m.tokensPend } := by
  have hle := m.promoteDue_final_le time h
  obtain ⟨x, hx⟩ := m.promoteDue_eq time
  rw [hx] at hle ⊢
  exact promote_eq hle

end Meter

namespace TokenContract

/-- SHELL the current transaction credits to the given payee. -/
def credited (s : TokenContract) (p : Payee) : ℕ := (s.actions.map (DealAction.credit p)).sum

/-- SHELL the current transaction writes off. -/
def burned (s : TokenContract) : ℕ := (s.actions.map DealAction.writeOff).sum

variable {s t u : TokenContract}

section Flows

variable (s : TokenContract) (p : Payee)

@[simp] theorem credited_act (a : DealAction) :
    (s.act a).credited p = s.credited p + a.credit p := by simp [credited]
@[simp] theorem credited_setPurse (q : Purse) : (s.setPurse q).credited p = s.credited p := rfl
@[simp] theorem credited_begin : s.begin.credited p = 0 := rfl
@[simp] theorem burned_act (a : DealAction) : (s.act a).burned = s.burned + a.writeOff := by
  simp [burned]
@[simp] theorem burned_setPurse (q : Purse) : (s.setPurse q).burned = s.burned := rfl
end Flows

/-- The transaction that led from `s` to `u` paid out the given amounts. -/
structure Moved (s u : TokenContract) (toBuyer toSeller swept burned : ℕ) : Prop where
  terms : u.toTerms = s.toTerms
  balance : u.balance + (toBuyer + toSeller + swept + burned) = s.balance
  buyer : u.credited .buyer = s.credited .buyer + toBuyer
  seller : u.credited .seller = s.credited .seller + toSeller
  residual : u.credited .residual = s.credited .residual + swept
  burned : u.burned = s.burned + burned

namespace Moved

variable {a b c d a' b' c' d' : ℕ}

theorem trans (h : Moved s t a b c d) (h' : Moved t u a' b' c' d') :
    Moved s u (a + a') (b + b') (c + c') (d + d') := by
  obtain ⟨h1, h2, h3, h4, h5, h6⟩ := h
  obtain ⟨k1, k2, k3, k4, k5, k6⟩ := h'
  constructor
  · exact k1.trans h1
  all_goals omega

theorem cast (h : Moved s u a b c d) (ha : a = a') (hb : b = b') (hc : c = c') (hd : d = d') :
    Moved s u a' b' c' d' := by
  subst ha hb hc hd
  exact h

theorem refl (s : TokenContract) : Moved s s 0 0 0 0 := by
  constructor <;> rfl

theorem setPurse (s : TokenContract) {p : Purse} (hp : p.balance = s.balance) :
    Moved s (s.setPurse p) 0 0 0 0 := by
  constructor <;> first | rfl | exact hp

theorem setMeter (s : TokenContract) (m : Meter) : Moved s (s.setMeter m) 0 0 0 0 := by
  constructor <;> rfl

theorem setStage (s : TokenContract) (g : Stage) : Moved s (s.setStage g) 0 0 0 0 := by
  constructor <;> rfl

theorem act (s : TokenContract) {x : DealAction} (hc : ∀ p, x.credit p = 0)
    (hw : x.writeOff = 0) : Moved s (s.act x) 0 0 0 0 := by
  constructor <;> simp [hc, hw]

theorem emit (s : TokenContract) (e : DealEvent) : Moved s (s.emit e) 0 0 0 0 :=
  act s (fun _ => rfl) rfl

end Moved

/-- Only the balance and the action list change. -/
structure Keeps (s u : TokenContract) : Prop where
  meter : u.toMeter = s.toMeter
  stage : u.toStage = s.toStage
  purse : u.toPurse = { s.toPurse with balance := u.balance }

theorem Keeps.trans (h : Keeps s t) (h' : Keeps t u) : Keeps s u :=
  ⟨h'.meter.trans h.meter, h'.stage.trans h.stage, by rw [h'.purse, h.purse]⟩

theorem payShell_inv {p : Payee} {d : Addr} {a : ℕ} (h : s.payShell p d a = some u) :
    Keeps s u ∧ a ≤ s.balance ∧ u.balance = s.balance - a ∧ u.toTerms = s.toTerms ∧
      u.burned = s.burned ∧ ∀ q, u.credited q = s.credited q + if p = q then a else 0 := by
  unfold payShell at h
  split_ifs at h with h0
  · cases h
    subst h0
    exact ⟨⟨rfl, rfl, rfl⟩, Nat.zero_le _, rfl, rfl, rfl, fun _ => by rw [ite_self]; rfl⟩
  · simp only [sub128, bind_iff, Option.ite_none_right_eq_some, pure_iff] at h
    obtain ⟨_, ⟨hle, rfl⟩, rfl⟩ := h
    refine ⟨⟨rfl, rfl, rfl⟩, hle, rfl, rfl, by simp [DealAction.writeOff], fun q => ?_⟩
    simp [DealAction.credit]

theorem payBuyer_moved {d : Addr} {a : ℕ} (h : s.payShell .buyer d a = some u) :
    Moved s u a 0 0 0 := by
  obtain ⟨-, hle, hb, ht, hw, hc⟩ := payShell_inv h
  exact ⟨ht, by omega, hc _, hc _, hc _, hw⟩

theorem paySeller_moved {d : Addr} {a : ℕ} (h : s.payShell .seller d a = some u) :
    Moved s u 0 a 0 0 := by
  obtain ⟨-, hle, hb, ht, hw, hc⟩ := payShell_inv h
  exact ⟨ht, by omega, hc _, hc _, hc _, hw⟩

theorem burnShell_inv {a : ℕ} (h : s.burnShell a = some u) : Keeps s u ∧ Moved s u 0 0 0 a := by
  unfold burnShell at h
  split_ifs at h with h0
  · cases h
    subst h0
    exact ⟨⟨rfl, rfl, rfl⟩, Moved.refl s⟩
  · simp only [sub128, bind_iff, Option.ite_none_right_eq_some, pure_iff] at h
    obtain ⟨_, ⟨hle, rfl⟩, rfl⟩ := h
    refine ⟨⟨rfl, rfl, rfl⟩, rfl, ?_, ?_, ?_, ?_, ?_⟩
    · simp only [act_toPurse, setPurse_toPurse]
      omega
    all_goals simp [DealAction.credit, DealAction.writeOff]

theorem sweep_inv (h : s.sweep = some u) :
    Keeps s u ∧ u.balance = 0 ∧ Moved s u 0 0 s.balance 0 := by
  obtain ⟨hk, hle, hb, ht, hw, hc⟩ := payShell_inv h
  exact ⟨hk, by omega, ht, by omega, hc _, hc _, hc _, hw⟩

theorem announceClose_moved (s : TokenContract) : Moved s s.announceClose 0 0 0 0 := by
  unfold announceClose
  cases s.buyer with
  | none => exact .act s (fun _ => rfl) rfl
  | some => exact (Moved.act s (fun _ => rfl) rfl).trans (.act _ (fun _ => rfl) rfl)

theorem announceClose_keeps (s : TokenContract) : Keeps s s.announceClose := by
  unfold announceClose
  cases s.buyer with
  | none | some => exact ⟨rfl, rfl, rfl⟩

theorem die_moved (s : TokenContract) : Moved s s.die 0 0 0 0 :=
  (((announceClose_moved s).trans (.emit _ _)).trans (.act _ (fun _ => rfl) rfl)).trans
    (.setStage _ _)

@[simp] theorem die_toMeter (s : TokenContract) : s.die.toMeter = s.toMeter :=
  (announceClose_keeps s).meter

@[simp] theorem die_toPurse (s : TokenContract) : s.die.toPurse = s.toPurse :=
  (announceClose_keeps s).purse.trans (by
    rw [show s.announceClose.balance = s.balance from (announceClose_moved s).balance])

@[simp] theorem die_toStage (s : TokenContract) :
    s.die.toStage = { s.toStage with destroyed := true } := rfl

/-- The end of the deal `s`, with the amounts that go to the two sides and to the write-off; the
rest of the balance is swept. -/
structure Closed (s u : TokenContract) (toBuyer toSeller burned : ℕ) : Prop where
  moved : Moved s u toBuyer toSeller (s.balance - (toBuyer + toSeller + burned)) burned
  covered : toBuyer + toSeller + burned ≤ s.balance
  balance : u.balance = 0
  destroyed : u.destroyed = true

theorem Moved.closed {a b d a' b' d' : ℕ} (h : Moved s t a b 0 d) (h' : Closed t u a' b' d') :
    Closed s u (a + a') (b + b') (d + d') := by
  have h1 := h.balance
  have h2 := h'.covered
  exact ⟨(h.trans h'.moved).cast rfl rfl (by omega) rfl, by omega, h'.balance, h'.destroyed⟩

theorem Closed.cast {a b d a' b' d' : ℕ} (h : Closed s u a b d) (ha : a = a') (hb : b = b')
    (hd : d = d') : Closed s u a' b' d' := by
  subst ha hb hd
  exact h

theorem sweepAndDie_closed (h : s.sweepAndDie = some u) :
    Closed s u 0 0 0 ∧ u.toMeter = s.toMeter ∧ u.toStage = { s.toStage with destroyed := true } ∧
      u.toPurse = { s.toPurse with balance := 0 } := by
  obtain ⟨t, ht, h⟩ := of_bind h
  cases h
  obtain ⟨hk, hb, hm⟩ := sweep_inv ht
  refine ⟨⟨(hm.trans (die_moved t)).cast rfl rfl (by omega) rfl, Nat.zero_le _, ?_, rfl⟩, ?_, ?_, ?_⟩
  · rw [die_toPurse, hb]
  · rw [die_toMeter, hk.meter]
  · rw [die_toStage, hk.stage]
  · rw [die_toPurse, hk.purse, hb]

theorem payOwedAndDie_closed (h : s.payOwedAndDie = some u) :
    Closed s u 0 s.finalizedOwed 0 ∧ u.toMeter = s.toMeter ∧
      u.toStage = { s.toStage with destroyed := true } ∧
      u.toPurse = { s.toPurse with balance := 0, finalizedOwed := 0 } := by
  obtain ⟨t, ht, h⟩ := of_bind h
  obtain ⟨hc, hm, hg, hp⟩ := sweepAndDie_closed h
  have hk := (payShell_inv ht).1
  have h1 : Moved s t 0 s.finalizedOwed 0 0 :=
    ((Moved.setPurse s (by rfl)).trans (paySeller_moved ht)).cast rfl (Nat.zero_add _) rfl rfl
  refine ⟨(h1.closed hc).cast rfl rfl rfl, ?_, ?_, ?_⟩
  · rw [hm, hk.meter, setPurse_toMeter]
  · rw [hg, hk.stage, setPurse_toStage]
  · rw [hp, hk.purse, setPurse_toPurse]

theorem reportFinalized_moved (s : TokenContract) : Moved s s.reportFinalized 0 0 0 0 := by
  unfold reportFinalized
  split_ifs
  · exact .refl s
  · exact .act s (fun _ => rfl) rfl

@[simp] theorem reportFinalized_toPurse (s : TokenContract) :
    s.reportFinalized.toPurse = s.toPurse := by
  unfold reportFinalized
  split_ifs <;> rfl

@[simp] theorem reportFinalized_toMeter (s : TokenContract) :
    s.reportFinalized.toMeter = s.toMeter := by
  unfold reportFinalized
  split_ifs <;> rfl

@[simp] theorem reportFinalized_toStage (s : TokenContract) :
    s.reportFinalized.toStage = s.toStage := by
  unfold reportFinalized
  split_ifs <;> rfl

theorem rebateDue_le (s : TokenContract) (clean : Bool) : s.rebateDue clean ≤ s.feeAccrued := by
  unfold rebateDue
  split_ifs
  · exact Nat.min_le_right _ _
  · exact Nat.zero_le _

theorem settleFees_inv {clean : Bool} (h : s.settleFees clean = some u) :
    Moved s u 0 0 0 (s.feeAccrued - s.rebateDue clean) ∧ u.toMeter = s.toMeter ∧
      u.toStage = s.toStage ∧
      u.toPurse = { s.toPurse with
        balance := u.balance
        finalizedOwed := s.finalizedOwed + s.rebateDue clean
        feeAccrued := 0 } := by
  obtain ⟨t, ht, h⟩ := of_bind h
  cases h
  obtain ⟨hk, hm⟩ := burnShell_inv ht
  refine ⟨((((Moved.setPurse s (by rfl)).trans hm).trans (.setPurse t (by rfl))).trans
    (reportFinalized_moved _)).cast rfl rfl rfl (by simp), ?_, ?_, ?_⟩
  · rw [reportFinalized_toMeter, setPurse_toMeter, hk.meter, setPurse_toMeter]
  · rw [reportFinalized_toStage, setPurse_toStage, hk.stage, setPurse_toStage]
  · rw [reportFinalized_toPurse, setPurse_toPurse, hk.purse, setPurse_toPurse]

theorem finish_closed {clean : Bool} {refund : ℕ} {e : TokenContract → DealEvent}
    (h : (do
      let s ← s.settleFees clean
      let s ← s.payShell .buyer s.buyerAddr refund
      (s.emit (e s)).payOwedAndDie) = some u) :
    Closed s u refund (s.finalizedOwed + s.rebateDue clean)
        (s.feeAccrued - s.rebateDue clean) ∧ u.toMeter = s.toMeter ∧
      u.toStage = { s.toStage with destroyed := true } ∧
      u.toPurse = { s.toPurse with balance := 0, finalizedOwed := 0, feeAccrued := 0 } := by
  simp only [bind_iff] at h
  obtain ⟨t, ht, v, hv, h⟩ := h
  obtain ⟨hc, hm, hg, hp⟩ := payOwedAndDie_closed h
  obtain ⟨h1, h2, h3, h4⟩ := settleFees_inv ht
  obtain ⟨k1, k2, k3⟩ := (payShell_inv hv).1
  have hmv := (h1.trans (payBuyer_moved hv)).trans (.emit v (e v))
  have howed : (v.emit (e v)).finalizedOwed = s.finalizedOwed + s.rebateDue clean := by
    change v.toPurse.finalizedOwed = _
    rw [k3, h4]
  refine ⟨(hmv.closed hc).cast (by simp) (by simp [howed]) (by simp), ?_, ?_, ?_⟩
  · rw [hm, ← h2, ← k1]
    rfl
  · rw [hg, ← h3, ← k2]
    rfl
  · rw [hp]
    change ({ v.toPurse with balance := 0, finalizedOwed := 0 } : Purse) = _
    rw [k3, h4]

end TokenContract

end Dexdo
