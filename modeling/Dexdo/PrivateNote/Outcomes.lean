import Dexdo.PrivateNote.Coupons

namespace Dexdo

/-- What the record of a market keeps while its PMP has not answered. -/
def PmpCall.Pledged (r : StakeInfo) : PmpCall → Prop
  | .acceptStake _ _ _ betType => r.candidateAmount = 0 ∨ r.candidateBetType = betType
  | .cancelStake _ _ couponsAmount _ => couponsAmount.sum ≤ r.couponsAmount.sum
  | .claim _ debtAmount couponsAmount _ =>
    couponsAmount.sum ≤ r.couponsAmount.sum ∧ debtAmount.sum ≤ r.debtAmount.sum
  | _ => True

theorem PmpCall.Pledged.quiet {r r' : StakeInfo} {c : PmpCall} (h : c.Pledged r)
    (hq : r.Quiet r') : c.Pledged r' := by
  cases c with
  | acceptStake =>
    rcases hq.candidate with h0 | ⟨ha, hb⟩
    · exact .inl h0
    · exact h.imp ha.trans hb.trans
  | cancelStake => exact (le_of_le_of_eq h hq.coupons.symm)
  | claim => exact ⟨le_of_le_of_eq h.1 hq.coupons.symm, le_of_le_of_eq h.2 hq.debts.symm⟩
  | _ => trivial

namespace Tab

/-- A change after which the coupon ledger of the note owes no more than before. -/
structure Eases (v w : Tab) : Prop where
  coupons : w.coupons ≤ v.coupons
  kinds : w.couponsTokenType = v.couponsTokenType ∧ w.debtTokenType = v.debtTokenType
  record : ∀ m, (w.stakes.read m).coupons ≤ (v.stakes.read m).coupons ∧
    (w.stakes.read m).debts ≤ (v.stakes.read m).debts
  owes : 0 < w.debt → 0 < v.debt ∨ 0 < v.coupons
  named : v.Named → w.Named
  fresh : v.stakedCoupons = 0 → (∀ m, (v.stakes.read m).debts = 0) →
    w.couponsValue = v.couponsValue ∧ w.debt = v.debt

theorem Lighter.eases {v w : Tab} (h : v.Lighter w) : v.Eases w where
  coupons := by
    have h1 := h.coupons.1
    have h2 := h.staked
    unfold Tab.coupons
    omega
  kinds := ⟨h.coupons.2, h.debt.2⟩
  record := h.record
  owes hd := .inl (h.debt.1 ▸ hd)
  named := h.named
  fresh _ _ := ⟨h.coupons.1, h.debt.1⟩

/-- The coupon ledger of a note is in order. -/
structure Held (v : Tab) : Prop where
  nominal : v.coupons ≤ getCouponValue v.couponsTokenType
  kind : ∀ m, 0 < (v.stakes.read m).coupons → m.tokenType = v.couponsTokenType
  tag : 0 < v.coupons → v.couponsTokenType = v.debtTokenType
  owed : 0 < v.debt ∨ 0 < v.coupons →
    ∀ m, 0 < (v.stakes.read m).debts → m.tokenType = v.debtTokenType
  named : v.Named

/-- The ledger stays in order when nothing is added to it. -/
theorem Held.eases {v w : Tab} (hv : v.Held) (h : v.Eases w) : w.Held where
  nominal := by
    rw [h.kinds.1]
    exact h.coupons.trans hv.nominal
  kind m hm := by
    rw [h.kinds.1]
    exact hv.kind m (hm.trans_le (h.record m).1)
  tag hw := by
    rw [h.kinds.1, h.kinds.2]
    exact hv.tag (hw.trans_le h.coupons)
  owed hw m hm := by
    rw [h.kinds.2]
    apply hv.owed _ m (hm.trans_le (h.record m).2)
    rcases hw with hw | hw
    · exact h.owes hw
    · exact .inr (hw.trans_le h.coupons)
  named := h.named hv.named

/-- The message that took the latch is on its way to a PMP, and the record waits for it. -/
def Awaits (v : Tab) : Option NoteAction → Prop
  | some (.pmp m call) =>
    v.busy = some (.pmp m) ∧ v.stakes.has m = true ∧ call.Pledged (v.stakes.read m)
  | some (.deployPMP m _ _ _ _ _) => v.busy = some (.pmp m) ∧ v.stakes.has m = true
  | _ => True

variable {v w : Tab} {op : Option NoteAction}

/-- The operation in flight still finds its record. -/
theorem Awaits.quiet (h : v.Awaits op) (hb : w.busy = v.busy)
    (hq : ∀ m, v.busy = some (.pmp m) → v.stakes.has m = true →
      (v.stakes.read m).Quiet (w.stakes.read m) ∧ w.stakes.has m = true) : w.Awaits op := by
  rcases op with _ | a
  · trivial
  · cases a with
    | pmp m =>
      obtain ⟨h1, h2, h3⟩ := h
      obtain ⟨hq, hm⟩ := hq m h1 h2
      exact ⟨hb.trans h1, hm, h3.quiet hq⟩
    | deployPMP m =>
      obtain ⟨h1, h2⟩ := h
      exact ⟨hb.trans h1, (hq m h1 h2).2⟩
    | _ => trivial

theorem Awaits.calm (h : v.Awaits op) (hc : v.Calm w) (hw : w.busy ≠ none) : w.Awaits op :=
  h.quiet (hc.busy.resolve_right hw) fun m _ hm => ⟨hc.quiet m, hc.has m hm⟩

end Tab

/-- Calls of the owner that spend a coupon, or begin or end one. -/
def NoteCall.spendsCoupon : NoteCall → Bool
  | .owner (.setStake ..) | .owner (.generateCoupon _) | .owner .discardCoupon => true
  | _ => false

namespace PrivateNote

/-- What any other call does: it leaves the operation in flight alone, ends one, or starts one. -/
inductive Outcome (s t : PrivateNote) : Prop
  | kept (h : s.tab.Lighter t.tab) (hb : t.busy = s.busy ∨ t.busy = none)
      (ha : t.busy ≠ none → ∀ op, s.tab.Awaits op → t.tab.Awaits op)
  | done (h : s.tab.Eases t.tab) (hb : t.busy = none)
  | took (h : s.tab.Lighter t.tab) (hb : s.busy = none)
      (ha : s.tab.Named → t.tab.Awaits t.actions.getLast?)

namespace Outcome

variable {s t : PrivateNote}

theorem calm (h : s.tab.Calm t.tab) : Outcome s t :=
  .kept h.toLighter h.busy fun hb _ ha => ha.calm h hb

theorem same (h : t.tab = s.tab) : Outcome s t := .calm (.of_eq h)

theorem ends (h : s.tab.Lighter t.tab) (hb : t.busy = none) : Outcome s t := .done h.eases hb

theorem eases (h : Outcome s t) : s.tab.Eases t.tab := by
  cases h with
  | kept h => exact h.eases
  | done h => exact h
  | took h => exact h.eases

end Outcome

@[simp] theorem act_last (s : PrivateNote) (a : NoteAction) :
    (s.act a).actions.getLast? = some a := List.getLast?_concat

section Callbacks

variable {s t u : PrivateNote} {m : MarketId} {caller : Caller} {e : NoteEnv}

theorem onInitialStakesAccepted_outcome {amounts : List ℕ} (hm : s.stakes.has m = true)
    (h : s.onInitialStakesAccepted caller m amounts = some t) : Outcome s t := by
  replace h := of_pass (of_pass h)
  cases h
  apply Outcome.calm
  rw [free_tab, putStake_tab]
  exact Tab.Calm.free (Tab.Calm.put (.refl s.tab) ⟨rfl, rfl, .inl rfl⟩ fun hn => hn m hm)

theorem onPmpCleanRefund_outcome {amounts : List ℕ} {total : ℕ}
    (h : s.onPmpCleanRefund caller m amounts total = some t) : Outcome s t := by
  obtain ⟨_, _, h⟩ := of_bind h
  obtain ⟨u, hu, h⟩ := of_bind h
  cases h
  apply Outcome.calm
  rw [act_tab]
  rcases ite_eq_iff.mp hu with ⟨hm, hu⟩ | ⟨_, hu⟩
  · obtain ⟨_, _, hu⟩ := of_bind hu
    rw [credit_tab hu, putStake_tab]
    exact (Tab.Calm.refl s.tab).put ⟨rfl, rfl, .inr ⟨rfl, rfl⟩⟩ fun hn => hn m hm
  · exact .of_eq (by rw [Option.some.inj hu])

theorem dropStake_lighter {v : Tab} (h : v.Lighter s.tab) (m : Option MarketId) :
    v.Lighter (s.dropStake m).tab := by
  cases m with
  | none => exact h
  | some m => exact h.drop m

theorem onForfeitAccepted_outcome (h : s.onForfeitAccepted caller = some t) : Outcome s t := by
  replace h := of_pass h
  cases h
  refine .ends ?_ rfl
  rw [freeOp_tab]
  exact (dropStake_lighter (s := s.emit _) (.refl s.tab) s.lastHash).latch none

theorem sized_lighter (r : StakeInfo) (n : ℕ) :
    (r.sized n).couponsAmount.sum ≤ r.couponsAmount.sum ∧
      (r.sized n).debtAmount.sum ≤ r.debtAmount.sum := by
  unfold StakeInfo.sized
  split_ifs
  · simp
  · exact ⟨le_rfl, le_rfl⟩

theorem sized_names {r : StakeInfo} (h : r.Names m) (n : ℕ) : (r.sized n).Names m := by
  unfold StakeInfo.sized
  split_ifs <;> exact h

theorem onSplitAccepted_outcome {amounts : List ℕ} {used : ℕ} (hm : s.stakes.has m = true)
    (h : s.onSplitAccepted caller m amounts used = some t) : Outcome s t := by
  obtain ⟨_, _, h⟩ := of_bind h
  obtain ⟨_, _, h⟩ := of_bind h
  obtain ⟨u, hu, h⟩ := of_bind h
  cases h
  refine .ends ?_ rfl
  rw [free_tab, emit_tab, putStake_tab, creditPositive_tab hu]
  obtain ⟨hc, hd⟩ := sized_lighter (s.stakes.read m) amounts.length
  refine Tab.Lighter.latch (.settle (.refl s.tab) ?_ ?_ ?_ ?_) none
  · exact .inl rfl
  · exact hc
  · exact hd
  · exact fun hn => sized_names (hn m hm) amounts.length

theorem onMergeAccepted_outcome {collateral : ℕ} {amounts : List ℕ} (hm : s.stakes.has m = true)
    (h : s.onMergeAccepted caller m collateral amounts = some t) : Outcome s t := by
  obtain ⟨_, _, h⟩ := of_bind h
  obtain ⟨_, _, h⟩ := of_bind h
  obtain ⟨u, hu, h⟩ := of_bind h
  cases h
  refine .ends ?_ rfl
  rw [free_tab, emit_tab, credit_tab hu]
  split_ifs
  · exact (dropStake_lighter (.refl s.tab) (some m)).latch none
  · refine Tab.Lighter.latch (.settle (.refl s.tab) ?_ ?_ ?_ ?_) none
    · exact .inl rfl
    · exact le_rfl
    · exact le_rfl
    · exact fun hn => hn m hm

theorem acceptFee_outcome {fee : ℕ} (h : s.acceptFee caller m fee = some t) : Outcome s t := by
  replace h := of_pass h
  change (if s.hasWithdrawn then _ else _) = _ at h
  split_ifs at h
  · exact .same (by rw [Option.some.inj h])
  · exact .same (credit_tab h)

theorem onInferencePlaced_tab {x : ℕ} {d : Addr} {i c : ℕ} {b : Bool} {p k : ℕ}
    (h : s.onInferencePlaced e x d i c b p k = some t) : t.tab = s.tab := by
  replace h := of_pass h
  cases h
  rfl

theorem onInferenceOrderRemoved_tab {x i c r : ℕ}
    (h : s.onInferenceOrderRemoved e x i c r = some t) : t.tab = s.tab := by
  replace h := of_pass h
  rw [← Option.some.inj h, emit_tab]
  split_ifs <;> rfl

theorem sendBond_tab {d : Addr} {a : ℕ} (h : s.sendBond e d a = some t) : t.tab = s.tab := by
  obtain ⟨u, hu, h⟩ := of_bind h
  obtain ⟨_, _, h⟩ := of_bind h
  rw [← Option.some.inj h, act_tab, debit_tab hu]

theorem spendPending_tab (s : PrivateNote) (c x : ℕ) : (s.spendPending c x).tab = s.tab := by
  unfold spendPending
  dsimp only
  split_ifs <;> rfl

theorem onInferenceFilled_tab {x : ℕ} {d : Addr} {i c k p z : ℕ} {b : Bool}
    (h : s.onInferenceFilled e x d i c k p z b = some t) : t.tab = s.tab := by
  obtain ⟨_, _, h⟩ := of_bind h
  rcases ite_eq_iff.mp h with ⟨_, h⟩ | ⟨_, h⟩
  · obtain ⟨_, _, h⟩ := of_bind h
    obtain ⟨_, _, h⟩ := of_bind h
    rcases ite_eq_iff.mp h with ⟨_, h⟩ | ⟨_, h⟩
    · rw [sendBond_tab h, emit_tab, spendPending_tab, setInference_tab]
    · rw [← Option.some.inj h, emit_tab, spendPending_tab, setInference_tab]
  · rw [← Option.some.inj h, emit_tab, spendPending_tab, setInference_tab]

theorem onInferenceRejected_tab {x c k r : ℕ} (h : s.onInferenceRejected e x c k r = some t) :
    t.tab = s.tab := by
  replace h := of_pass h
  obtain ⟨u, hu, h⟩ := of_bind h
  rw [← Option.some.inj h, emit_tab, setInference_tab, creditPositive_tab hu]

theorem closeDeal_tab (s : PrivateNote) (d : Addr) : (s.closeDeal d).tab = s.tab := by
  unfold closeDeal
  split_ifs <;> rfl

theorem onDealClosed_tab (s : PrivateNote) (e : NoteEnv) : (s.onDealClosed e).tab = s.tab := by
  unfold onDealClosed
  split
  · exact closeDeal_tab s _
  · rfl

theorem creditFromDeal_tab {a k n : ℕ} (h : s.creditFromDeal e a k n = some t) :
    t.tab = s.tab := by
  rcases ite_eq_iff.mp h with ⟨_, h⟩ | ⟨_, h⟩
  · rw [Option.some.inj h]
  · replace h := of_pass h
    obtain ⟨u, hu, h⟩ := of_bind h
    rw [← Option.some.inj h, emit_tab, credit_tab hu]

theorem creditFromBook_tab {a x : ℕ} (h : s.creditFromBook e a x = some t) : t.tab = s.tab := by
  rcases ite_eq_iff.mp h with ⟨_, h⟩ | ⟨_, h⟩
  · rw [Option.some.inj h]
  · replace h := of_pass h
    obtain ⟨u, hu, h⟩ := of_bind h
    rw [← Option.some.inj h, emit_tab, credit_tab hu]

theorem offerTransfer_tab {k a x : ℕ} (h : s.offerTransfer e k a x = some t) :
    t.tab = s.tab := by
  replace h := of_pass (of_pass h)
  obtain ⟨u, hu, h⟩ := of_bind h
  rw [← Option.some.inj h, act_tab, emit_tab, credit_tab hu]

theorem creditAll_tab {l : List (ℕ × ℕ)}
    (h : l.foldlM (fun s a => s.credit a.1 a.2) s = some t) : t.tab = s.tab := by
  induction l generalizing s with
  | nil => rw [Option.some.inj h]
  | cons x l ih =>
    rw [List.foldlM_cons] at h
    obtain ⟨u, hu, h⟩ := of_bind h
    rw [ih h, credit_tab hu]

theorem revertWithdraw_tab {l : List (ℕ × ℕ)} (h : s.revertWithdraw e l = some t) :
    t.tab = s.tab := by
  replace h := of_pass h
  obtain ⟨u, hu, h⟩ := of_bind h
  rw [← Option.some.inj h, ← creditAll_tab hu]
  rfl

theorem onTransferAccepted_outcome (h : s.onTransferAccepted e = some t) : Outcome s t := by
  replace h := of_pass h
  cases h
  exact .calm (Tab.Calm.refl s.tab).free

theorem onBounce_tab {a : Addr} {body : BouncedBody} (hb : body ≠ .other)
    (h : s.onBounce a body = some t) : t.tab = s.tab := by
  cases body with
  | placeBuyOrder => rw [credit_tab h, setInference_tab]
  | touchDeal =>
    cases h
    exact closeDeal_tab s a
  | fundDeal => exact credit_tab h
  | fundBuyerBond => exact credit_tab h
  | other => exact absurd rfl hb

end Callbacks

section Owner

variable {s t u : PrivateNote} {m : MarketId} {e : NoteEnv}

theorem touchDeal_tab {d : Addr} (h : s.touchDeal e d = some t) : t.tab = s.tab := by
  replace h := of_pass (of_pass h)
  cases h
  rfl

theorem changeOwner_tab {k : ℕ} (h : s.changeOwner k = some t) : t.tab = s.tab := by
  replace h := of_pass h
  cases h
  rfl

theorem deployInferenceOrderBook_tab {x : ℕ} {n : String}
    (h : s.deployInferenceOrderBook x n = some t) : t.tab = s.tab := by
  replace h := of_pass h
  cases h
  rfl

theorem postSellOffer_tab {f n l : ℕ} (h : s.postSellOffer e f n l = some t) : t.tab = s.tab := by
  replace h := of_pass (of_pass (of_pass h))
  cases h
  rfl

theorem placeInferenceBuy_tab {x p k a f d : ℕ}
    (h : s.placeInferenceBuy e x p k a f d = some t) : t.tab = s.tab := by
  obtain ⟨_, _, h⟩ := of_bind h
  obtain ⟨_, _, h⟩ := of_bind h
  obtain ⟨u, hu, h⟩ := of_bind h
  obtain ⟨_, _, h⟩ := of_bind h
  obtain ⟨_, _, h⟩ := of_bind h
  obtain ⟨v, hv, h⟩ := of_bind h
  obtain ⟨_, _, hv⟩ := of_bind hv
  rw [← Option.some.inj h, act_tab, ← Option.some.inj hv, setInference_tab, debit_tab hu]

theorem fundBuyerBondNow_tab {d : Addr} {b : ℕ} (h : s.fundBuyerBondNow e d b = some t) :
    t.tab = s.tab := by
  replace h := of_pass (of_pass (of_pass h))
  exact sendBond_tab h

theorem streamCall_tab {d : Addr} {c : DealCall} (h : s.streamCall e d c = some t) :
    t.tab = s.tab := by
  obtain ⟨_, _, h⟩ := of_bind h
  rw [← Option.some.inj h, act_tab]

theorem fundDeal_tab {n g a : ℕ} {c : Option (List ℕ)} (h : s.fundDeal n g a c = some t) :
    t.tab = s.tab := by
  replace h := of_pass (of_pass h)
  obtain ⟨u, hu, h⟩ := of_bind h
  rw [← Option.some.inj h, act_tab, debit_tab hu]

theorem fundDeployShell_tab (s : PrivateNote) (n a : ℕ) : (s.fundDeployShell n a).tab = s.tab := by
  unfold fundDeployShell
  split_ifs <;> rfl

theorem deployDeal_tab {n : ℕ} {name : String} {x p k g : ℕ}
    (h : s.deployDeal n name x p k g = some t) : t.tab = s.tab := by
  replace h := of_pass h
  cases h
  rfl

theorem withdrawTokens_tab {d : Addr} {x : ℕ} (h : s.withdrawTokens e d x = some t) :
    t.tab = s.tab := by
  obtain ⟨_, _, h⟩ := of_bind h
  obtain ⟨_, _, h⟩ := of_bind h
  obtain ⟨_, _, h⟩ := of_bind h
  obtain ⟨_, _, h⟩ := of_bind h
  obtain ⟨_, _, h⟩ := of_bind h
  obtain ⟨_, _, h⟩ := of_bind h
  cases h
  rfl

theorem sweepShell_tab {d : Addr} (h : s.sweepShell e d = some t) : t.tab = s.tab := by
  obtain ⟨_, _, h⟩ := of_bind h
  obtain ⟨_, _, h⟩ := of_bind h
  obtain ⟨_, _, h⟩ := of_bind h
  cases h
  rfl

end Owner

section Latched

variable {s t u : PrivateNote} {m dest : MarketId} {e : NoteEnv}

theorem Outcome.toPMP {c : PmpCall} {t : PrivateNote} (hb : s.busy = none)
    (ht : t.tab = { u.tab with busy := some (.pmp dest) })
    (hl : t.actions.getLast? = some (.pmp dest c)) (hu : s.tab.Lighter u.tab)
    (ha : s.tab.Named → u.stakes.has dest = true ∧ c.Pledged (u.stakes.read dest)) :
    Outcome s t := by
  refine .took ?_ hb fun hn => ?_
  · rw [ht]
    exact hu.latch _
  · obtain ⟨h1, h2⟩ := ha hn
    rw [hl, ht]
    exact ⟨rfl, h1, h2⟩

theorem dest_eq (hn : s.tab.Named) (hm : s.stakes.has m = true) :
    ({ m with oracleListHash := (s.stakes.read m).oracleListHash } : MarketId) = m := by
  have h : (s.stakes.read m).oracleListHash = m.oracleListHash := (hn m hm).2
  rw [h]

theorem latch_free {x : Unit} (h : guard (s.busy.isNone = true) = some x) : s.busy = none :=
  Option.isNone_iff_eq_none.mp (of_guard h)

theorem deleteStake_outcome (h : s.deleteStake m = some t) : Outcome s t := by
  obtain ⟨_, hb, h⟩ := of_bind h
  obtain ⟨_, hm, h⟩ := of_bind h
  replace h := of_pass h
  rw [Option.guard_eq_some'] at hm
  cases h
  refine .toPMP (u := s) (latch_free hb) rfl (act_last _ _) (.refl _) fun hn => ?_
  rw [dest_eq hn hm]
  exact ⟨hm, trivial⟩

theorem cancelStake_outcome (h : s.cancelStake m = some t) : Outcome s t := by
  replace h := of_pass h
  obtain ⟨_, hb, h⟩ := of_bind h
  obtain ⟨_, hm, h⟩ := of_bind h
  replace h := of_pass h
  rw [Option.guard_eq_some'] at hm
  cases h
  refine .toPMP (u := s) (latch_free hb) rfl (act_last _ _) (.refl _) fun hn => ?_
  rw [dest_eq hn hm]
  exact ⟨hm, le_rfl⟩

theorem claim_outcome (h : s.claim m = some t) : Outcome s t := by
  obtain ⟨_, hm, h⟩ := of_bind h
  replace h := of_pass h
  obtain ⟨_, hb, h⟩ := of_bind h
  replace h := of_pass (of_pass h)
  rw [Option.guard_eq_some'] at hm
  cases h
  refine .toPMP (u := s) (latch_free hb) rfl (act_last _ _) (.refl _) fun hn => ?_
  have hk : (s.stakes.read m).tokenType = m.tokenType := (hn m hm).1
  rw [hk, dest_eq hn hm]
  exact ⟨hm, le_rfl, le_rfl⟩

theorem has_insert (s : PrivateNote) (m : MarketId) (r : StakeInfo) :
    Mapping.has (AList.insert m r s.stakes) m = true := by
  simp [Mapping.has]

theorem splitFullSet_outcome {x : ℕ} (h : s.splitFullSet m x = some t) : Outcome s t := by
  obtain ⟨_, hb, h⟩ := of_bind h
  replace h := of_pass (of_pass (of_pass h))
  obtain ⟨u, hu, h⟩ := of_bind h
  cases h
  refine .toPMP (u := u.putStake (some m) { u.stakes.read m with
    candidateAmount := x
    candidateBetType := .clean
    oracleListHash := m.oracleListHash
    tokenType := m.tokenType }) (latch_free hb) rfl (act_last _ _) ?_ fun _ => ?_
  · have hr : u.stakes = s.stakes := congrArg Tab.stakes (debit_tab hu)
    rw [putStake_tab, debit_tab hu, hr]
    refine (Tab.Lighter.refl s.tab).settle (.inr ⟨?_, ?_⟩) ?_ ?_ fun _ => ⟨rfl, rfl⟩
    · exact BetType.noConfusion
    · exact BetType.noConfusion
    · exact le_rfl
    · exact le_rfl
  · exact ⟨has_insert u m _, trivial⟩

theorem mergeFullSet_outcome {a : List ℕ} (h : s.mergeFullSet m a = some t) : Outcome s t := by
  obtain ⟨_, hb, h⟩ := of_bind h
  replace h := of_pass (of_pass (of_pass h))
  obtain ⟨_, hm, h⟩ := of_bind h
  replace h := of_pass (of_pass h)
  obtain ⟨x, _, h⟩ := of_bind h
  rw [Option.guard_eq_some'] at hm
  cases h
  refine .toPMP (u := s.putStake (some m) { s.stakes.read m with
    candidateAmount := x, candidateBetType := .merge }) (latch_free hb) rfl (act_last _ _) ?_
    fun _ => ⟨has_insert s m _, trivial⟩
  rw [putStake_tab]
  refine (Tab.Lighter.refl s.tab).settle (.inr ⟨?_, ?_⟩) ?_ ?_ fun hn => hn m hm
  · exact BetType.noConfusion
  · exact BetType.noConfusion
  · exact le_rfl
  · exact le_rfl

/-- A deploy takes the latch, its stakes are noted. -/
theorem deployPMP_outcome {i k : ℕ} {f n x a : List ℕ} (h : s.deployPMP i f k n x a = some t) :
    Outcome s t := by
  obtain ⟨_, _, h⟩ := of_bind h
  obtain ⟨_, _, h⟩ := of_bind h
  obtain ⟨_, _, h⟩ := of_bind h
  obtain ⟨_, _, h⟩ := of_bind h
  obtain ⟨_, _, h⟩ := of_bind h
  obtain ⟨_, _, h⟩ := of_bind h
  obtain ⟨_, _, h⟩ := of_bind h
  obtain ⟨_, _, h⟩ := of_bind h
  obtain ⟨total, _, h⟩ := of_bind h
  obtain ⟨_, hb, h⟩ := of_bind h
  obtain ⟨_, _, h⟩ := of_bind h
  obtain ⟨_, _, h⟩ := of_bind h
  obtain ⟨_, _, h⟩ := of_bind h
  obtain ⟨_, hm, h⟩ := of_bind h
  obtain ⟨u, hu, h⟩ := of_bind h
  cases h
  refine .took ?_ (latch_free hb) fun _ => ?_
  · rw [act_tab, emit_tab, occupy_tab, putStake_tab, debit_tab hu]
    refine Tab.Lighter.latch (.settle (.refl s.tab) (.inr ⟨?_, ?_⟩) ?_ ?_ fun _ => ?_) _
    · exact BetType.noConfusion
    · exact BetType.noConfusion
    · simp [StakeInfo.candidate]
    · simp [StakeInfo.candidate]
    · exact ⟨rfl, rfl⟩
  · rw [act_last]
    exact ⟨rfl, has_insert u _ _⟩

theorem Outcome.elsewhere {a : NoteAction} {b : Option Addr} (hb : s.busy = none)
    (ht : t.tab = { u.tab with busy := b }) (hl : t.actions.getLast? = some a)
    (hu : s.tab.Lighter u.tab) (ha : ∀ v : Tab, v.Awaits (some a)) : Outcome s t := by
  refine .took ?_ hb fun _ => ?_
  · rw [ht]
    exact hu.latch b
  · rw [hl]
    exact ha _

theorem sendBatch_outcome {o : List PlaceParams} {c : List ℕ} (hb : s.busy = none)
    (hu : s.tab.Lighter u.tab) (h : u.sendBatch m o c = some t) : Outcome s t := by
  obtain ⟨v, hv, h⟩ := of_bind h
  cases h
  refine .elsewhere (b := some (.orderBook m)) hb ?_ (act_last _ _) hu fun _ => trivial
  rw [act_tab, nextOp_tab hv]
  rfl

theorem reserveClientOrder_tab {c : ℕ} (h : s.reserveClientOrder c = some t) : t.tab = s.tab := by
  replace h := of_pass h
  rw [← Option.some.inj h, setPositions_tab]

theorem reservePlace_tab {c : ℕ} (h : s.reservePlace c = some t) : t.tab = s.tab := by
  rcases ite_eq_iff.mp h with ⟨_, h⟩ | ⟨_, h⟩
  · rw [Option.some.inj h]
  · obtain ⟨u, hu, h⟩ := of_bind h
    rw [← Option.some.inj h, ← reserveClientOrder_tab hu]
    rfl

theorem lockBalance_tab {k a : ℕ} (h : s.lockBalance k a = some t) : t.tab = s.tab := by
  obtain ⟨u, hu, h⟩ := of_bind h
  obtain ⟨_, _, h⟩ := of_bind h
  rw [← Option.some.inj h, setPositions_tab, debit_tab hu]

theorem placeBuy_tab {p : PlaceParams} (h : s.placeBuy m p = some t) : t.tab = s.tab := by
  obtain ⟨_, _, h⟩ := of_bind h
  obtain ⟨u, hu, h⟩ := of_bind h
  rw [← Option.some.inj h, ← lockBalance_tab hu]
  rfl

theorem placeSell_lighter {p : PlaceParams} (h : s.placeSell m p = some t) :
    s.tab.Lighter t.tab := by
  obtain ⟨_, hm, h⟩ := of_bind h
  obtain ⟨x, _, h⟩ := of_bind h
  rw [Option.guard_eq_some'] at hm
  rw [← Option.some.inj h, putStake_tab]
  refine (Tab.Lighter.refl s.tab).settle (.inr ⟨?_, ?_⟩) ?_ ?_ fun hn => hn m hm
  · exact BetType.noConfusion
  · exact BetType.noConfusion
  · exact le_rfl
  · exact le_rfl

theorem placeOrder_outcome {p : PlaceParams} (h : s.placeOrder m p = some t) : Outcome s t := by
  replace h := of_pass h
  obtain ⟨_, hb, h⟩ := of_bind h
  replace h := of_pass h
  obtain ⟨u, hu, h⟩ := of_bind h
  replace h := of_pass h
  obtain ⟨v, hv, h⟩ := of_bind h
  apply sendBatch_outcome (latch_free hb) _ h
  rw [← reservePlace_tab hu]
  rcases ite_eq_iff.mp hv with ⟨_, hv⟩ | ⟨_, hv⟩
  · rw [placeBuy_tab hv, emit_tab]
    exact .refl _
  · rw [← emit_tab u (.orderSubmitted p.clientOrderId p.outcomeId p.isBuy p.price p.amount p.flags
      m.eventId m.tokenType)]
    exact placeSell_lighter hv

theorem cancelOrder_outcome {i : ℕ} (h : s.cancelOrder m i = some t) : Outcome s t := by
  obtain ⟨_, hb, h⟩ := of_bind h
  exact sendBatch_outcome (latch_free hb) (.refl _) h

theorem cancelOrderByClient_outcome {c : ℕ} (h : s.cancelOrderByClient m c = some t) :
    Outcome s t := by
  obtain ⟨_, hb, h⟩ := of_bind h
  obtain ⟨_, _, h⟩ := of_bind h
  obtain ⟨_, _, h⟩ := of_bind h
  obtain ⟨_, _, h⟩ := of_bind h
  exact sendBatch_outcome (latch_free hb) (.refl _) h

theorem cancelAllOrders_outcome (h : s.cancelAllOrders m = some t) : Outcome s t := by
  obtain ⟨_, hb, h⟩ := of_bind h
  obtain ⟨u, hu, h⟩ := of_bind h
  cases h
  refine .elsewhere (u := s) (b := some (.orderBook m)) (latch_free hb) ?_ (act_last _ _)
    (.refl _) fun _ => trivial
  rw [act_tab, nextOp_tab hu]
  rfl

/-- What a batch keeps as it gathers orders: the note's ledger, and a record that only sells. -/
structure Gathered (s : PrivateNote) (m : MarketId) (d : BatchDraft) : Prop where
  tab : d.note.tab = s.tab
  stake : ∃ a, d.stake = { s.stakes.read m with amount := a }
  sells : d.note.pendingBatchSells ≠ [] → s.stakes.has m = true

namespace Gathered

variable {d d' : BatchDraft}

theorem reserve {c : ℕ} (hd : s.Gathered m d) (h : d.reserve c = some d') : s.Gathered m d' := by
  rcases ite_eq_iff.mp h with ⟨_, h⟩ | ⟨_, h⟩
  · cases h
    exact hd
  · obtain ⟨u, hu, h⟩ := of_bind h
    have hs : u.pendingBatchSells = d.note.pendingBatchSells := by
      replace hu := of_pass hu
      cases hu
      rfl
    cases h
    refine ⟨?_, hd.stake, ?_⟩
    · exact (reserveClientOrder_tab hu).trans hd.tab
    · intro hne
      apply hd.sells
      rwa [← hs]

theorem sell {p : PlaceParams} (hd : s.Gathered m d) (h : d.sell m p = some d') :
    s.Gathered m d' := by
  obtain ⟨_, hm, h⟩ := of_bind h
  obtain ⟨x, _, h⟩ := of_bind h
  rw [Option.guard_eq_some'] at hm
  cases h
  have hs : d.note.stakes = s.stakes := congrArg Tab.stakes hd.tab
  refine ⟨hd.tab, ?_, fun _ => hs ▸ hm⟩
  obtain ⟨a, ha⟩ := hd.stake
  exact ⟨x, by rw [ha]⟩

theorem place {p : PlaceParams} (hd : s.Gathered m d) (h : d.place m p = some d') :
    s.Gathered m d' := by
  obtain ⟨x, hx, h⟩ := of_bind h
  obtain ⟨_, _, h⟩ := of_bind h
  have hx := hd.reserve hx
  rcases ite_eq_iff.mp h with ⟨_, h⟩ | ⟨_, h⟩
  · obtain ⟨_, _, h⟩ := of_bind h
    obtain ⟨_, _, h⟩ := of_bind h
    cases h
    exact ⟨hx.tab, hx.stake, hx.sells⟩
  · exact hx.sell h

theorem places {l : List PlaceParams} (hd : s.Gathered m d)
    (h : l.foldlM (BatchDraft.place m) d = some d') : s.Gathered m d' := by
  induction l generalizing d with
  | nil =>
    cases h
    exact hd
  | cons p l ih =>
    rw [List.foldlM_cons] at h
    obtain ⟨x, hx, h⟩ := of_bind h
    exact ih (hd.place hx) h

end Gathered

/-- A batch takes the latch, its sales leave the record. -/
theorem placeBatch_outcome {o : List PlaceParams} {c : List ℕ}
    (h : s.placeBatch m o c = some t) : Outcome s t := by
  obtain ⟨_, hb, h⟩ := of_bind h
  obtain ⟨_, _, h⟩ := of_bind h
  obtain ⟨_, _, h⟩ := of_bind h
  obtain ⟨_, _, h⟩ := of_bind h
  obtain ⟨_, _, h⟩ := of_bind h
  obtain ⟨d, hd, h⟩ := of_bind h
  obtain ⟨u, hu, h⟩ := of_bind h
  have hg : s.Gathered m d := by
    refine Gathered.places ⟨rfl, ⟨_, rfl⟩, ?_⟩ hd
    exact fun hne => absurd rfl hne
  have hs : u.pendingBatchSells = d.note.pendingBatchSells := by
    obtain ⟨v, hv, hu⟩ := of_bind hu
    obtain ⟨_, _, hu⟩ := of_bind hu
    obtain ⟨_, _, hv⟩ := of_bind hv
    rw [← Option.some.inj hu, ← Option.some.inj hv]
    rfl
  have hk : u.tab = s.tab := (lockBalance_tab hu).trans hg.tab
  apply sendBatch_outcome (latch_free hb) _ h
  split_ifs with hne
  · exact hk ▸ .refl s.tab
  · obtain ⟨a, ha⟩ := hg.stake
    have hm : s.stakes.has m = true := hg.sells fun h0 => hne (hs.trans h0)
    change s.tab.Lighter (u.putStake (some m) d.stake).tab
    rw [putStake_tab, hk, ha]
    have hc : s.tab.Calm (s.tab.put m { s.stakes.read m with amount := a }) :=
      (Tab.Calm.refl s.tab).put ⟨rfl, rfl, .inr ⟨rfl, rfl⟩⟩ fun hn => hn m hm
    exact hc.toLighter

theorem initTransfer_outcome {d k a x : ℕ} (h : s.initTransfer e d k a x = some t) :
    Outcome s t := by
  obtain ⟨_, _, h⟩ := of_bind h
  obtain ⟨_, hb, h⟩ := of_bind h
  obtain ⟨_, _, h⟩ := of_bind h
  obtain ⟨_, _, h⟩ := of_bind h
  obtain ⟨_, _, h⟩ := of_bind h
  obtain ⟨_, _, h⟩ := of_bind h
  obtain ⟨_, _, h⟩ := of_bind h
  obtain ⟨_, _, h⟩ := of_bind h
  obtain ⟨u, hu, h⟩ := of_bind h
  obtain ⟨_, _, h⟩ := of_bind h
  obtain ⟨_, _, h⟩ := of_bind h
  cases h
  refine .elsewhere (u := u) (b := some (.note d)) (latch_free hb) rfl (act_last _ _) ?_
    fun _ => trivial
  rw [debit_tab hu]
  exact .refl _

end Latched

end PrivateNote

end Dexdo
