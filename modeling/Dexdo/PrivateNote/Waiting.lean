import Dexdo.PMP.Claims
import Dexdo.PrivateNote.CouponLedger
import Mathlib.Logic.Relation

namespace Dexdo

/-- Callbacks a note takes only from the contract that holds its latch. -/
def PmpCallback.latched : PmpCallback → Bool
  | .onInitialStakesFailed _ | .onPmpCleanRefund .. | .acceptFee _ => false
  | _ => true

/-- What a callback repeats of the call it answers. -/
def PmpCall.Repeats (c : PmpCall) : PmpCallback → Prop
  | .onStakeAccepted _ b => ∃ k a h, c = .acceptStake k a h b
  | .onStakeCancelled _ w => ∃ a d b h, c = .cancelStake a d b h ∧ w = b.sum
  | .onClaimAccepted _ _ _ z p => ∃ a d b h, c = .claim a d b h ∧
      (0 < z → 0 < b.sum) ∧ (0 < p → 0 < d.sum)
  | _ => True

theorem sum_pos_of_getD {l : List ℕ} {k : ℕ} (h : 0 < l.getD k 0) : 0 < l.sum := by
  rw [List.getD_eq_getElem?_getD] at h
  cases hk : l[k]? with
  | none =>
    rw [hk] at h
    exact absurd h (lt_irrefl 0)
  | some =>
    rw [hk] at h
    exact h.trans_le (List.le_sum_of_mem (List.mem_of_getElem? hk))

theorem Payout.clamp_le (q : Payout) (x : ℕ) :
    (q.clamp x).coupon ≤ q.coupon ∧ (q.clamp x).debtPaid = q.debtPaid := by
  unfold clamp
  split_ifs
  · exact ⟨Nat.sub_le _ _, rfl⟩
  · exact ⟨le_rfl, rfl⟩

namespace Core

variable {c : Core}

theorem paid_pos {k d b : ℕ} :
    (0 < (c.paid k d b).coupon → 0 < b) ∧ (0 < (c.paid k d b).debtPaid → 0 < d) := by
  obtain ⟨hc, hd⟩ := (c.capped k d b).clamp_le c.totalUnclaimedBalance
  constructor
  · intro h
    by_contra hb
    have h0 : (c.toRewards.payout k d b).coupon = 0 := if_neg hb
    have hcap : (c.capped k d b).coupon = 0 := by
      change (if c.totalRewardsCoupon < (c.toRewards.payout k d b).coupon then
        c.totalRewardsCoupon else (c.toRewards.payout k d b).coupon) = 0
      rw [h0, if_neg (Nat.not_lt_zero _)]
    exact absurd (h.trans_le hc) (by omega)
  · intro h
    by_contra h0
    have h1 : (c.toRewards.payout k d b).debt = 0 := if_neg h0
    have h2 : (c.toRewards.payout k d b).debtPaid = 0 := if_neg h0
    have hcap : (c.capped k d b).debtPaid = (c.toRewards.payout k d b).debtPaid :=
      if_neg (by rw [h1]; exact Nat.not_lt_zero _)
    exact absurd (h.trans_eq (hd.trans (hcap.trans h2))) (lt_irrefl 0)

theorem Closes.repeats {r : Core × Mail} {call : PmpCall} (h : c.Closes r) :
    ∀ m ∈ r.2, call.Repeats m.2 := by
  intro m hm
  obtain ⟨x, hx⟩ := h.mail m hm
  rw [hx]
  trivial

end Core

theorem MaybeFreeze.repeats {c d : Core} {os : Mail} {call : PmpCall} (h : MaybeFreeze c os d) :
    ∀ m ∈ os, call.Repeats m.2 := by
  intro m hm
  cases h with
  | skip => exact absurd hm List.not_mem_nil
  | freeze =>
    unfold Core.refundMail at hm
    split_ifs at hm
    · rw [List.mem_singleton.mp hm]
      trivial
    · exact absurd hm List.not_mem_nil

/-- Every callback of a transaction answers the call it processes. -/
theorem Effect.repeats {c d : Core} {i : PMP.Input} {os : Mail} (h : Effect c i os d) :
    ∀ m ∈ os, i.call.Repeats m.2 := by
  intro m hm
  cases h with
  | idle => exact absurd hm List.not_mem_nil
  | abort n _ _ ho =>
    rcases ho with rfl | rfl
    · exact absurd hm List.not_mem_nil
    · rw [List.mem_singleton.mp hm]
      trivial
  | opened =>
    rw [List.mem_singleton.mp hm]
    trivial
  | openedAbort =>
    rcases List.mem_pair.mp hm with rfl | rfl <;> trivial
  | timings st rs _ _ _ hf => exact hf.repeats m hm
  | cancelled => exact absurd hm List.not_mem_nil
  | stake k a h t _ hcall =>
    rw [List.mem_singleton.mp hm]
    exact ⟨k, a, h, hcall⟩
  | refund a d b h e _ hcall =>
    rcases List.mem_cons.mp hm with rfl | hm
    · exact ⟨a, d, b, h, hcall, rfl⟩
    · exact (Core.closeCancelled_closes _).repeats m hm
  | frozenNow _ _ hf => exact hf.repeats m hm
  | split f h _ e _ _ _ hf =>
    rcases List.mem_append.mp hm with hm | hm
    · exact hf.repeats m hm
    · rw [List.mem_singleton.mp hm]
      trivial
  | merge a h n p _ e _ _ _ hf =>
    rcases List.mem_append.mp hm with hm | hm
    · exact hf.repeats m hm
    · rw [List.mem_singleton.mp hm]
      trivial
  | resolved k _ e hf =>
    rcases List.mem_append.mp hm with hm | hm
    · exact hf.repeats m hm
    · unfold Core.feeMail at hm
      split_ifs at hm
      · rw [List.mem_singleton.mp hm]
        trivial
      · exact absurd hm List.not_mem_nil
  | claimNone a d b h hcall =>
    rw [List.mem_singleton.mp hm]
    exact ⟨a, d, b, h, hcall, fun h => absurd h (lt_irrefl 0), fun h => absurd h (lt_irrefl 0)⟩
  | claimRefund a d b h hcall =>
    rcases List.mem_cons.mp hm with rfl | hm
    · exact ⟨a, d, b, h, hcall, fun h => absurd h (lt_irrefl 0), fun h => absurd h (lt_irrefl 0)⟩
    · exact (Core.closeDebtRefund_closes _).repeats m hm
  | claimWin a d b h k q hcall _ _ _ _ hq =>
    rcases List.mem_cons.mp hm with rfl | hm
    · refine ⟨a, d, b, h, hcall, fun h => ?_, fun h => ?_⟩
      · rw [hq] at h
        exact sum_pos_of_getD (Core.paid_pos.1 h)
      · rw [hq] at h
        exact sum_pos_of_getD (Core.paid_pos.2 h)
    · exact (Core.closeWin_closes _ k).repeats m hm
  | forfeit =>
    rcases List.mem_cons.mp hm with rfl | hm
    · trivial
    · exact (Core.tryClose_closes _).repeats m hm
  | refundReceived => exact absurd hm List.not_mem_nil
  | bookDone => exact (Core.tryClose_closes _).repeats m hm

namespace PrivateNote

variable {s t : PrivateNote} {e : NoteEnv}

theorem execOwner_outcome {c : OwnerCall} (hc : (NoteCall.owner c).spendsCoupon = false)
    (h : s.execOwner e c = some t) : s.Outcome t := by
  cases c with
  | changeOwner => exact .same (changeOwner_tab h)
  | touchDeal => exact .same (touchDeal_tab h)
  | deployInferenceOrderBook => exact .same (deployInferenceOrderBook_tab h)
  | postSellOffer => exact .same (postSellOffer_tab h)
  | placeInferenceBuy => exact .same (placeInferenceBuy_tab h)
  | cancelInferenceOrder =>
    cases h
    exact .same rfl
  | cancelAllInferenceOrders =>
    cases h
    exact .same rfl
  | fundBuyerBondNow => exact .same (fundBuyerBondNow_tab h)
  | streamStop => exact .same (streamCall_tab h)
  | streamDispute => exact .same (streamCall_tab h)
  | streamCleanup => exact .same (streamCall_tab h)
  | fundDeal => exact .same (fundDeal_tab h)
  | fundDeployShell n a =>
    cases h
    exact .same (fundDeployShell_tab s n a)
  | deployDeal => exact .same (deployDeal_tab h)
  | deployPMP => exact deployPMP_outcome h
  | deleteStake => exact deleteStake_outcome h
  | cancelStake => exact cancelStake_outcome h
  | splitFullSet => exact splitFullSet_outcome h
  | mergeFullSet => exact mergeFullSet_outcome h
  | setStake => exact Bool.noConfusion hc
  | claim => exact claim_outcome h
  | generateCoupon => exact Bool.noConfusion hc
  | discardCoupon => exact Bool.noConfusion hc
  | initTransfer => exact initTransfer_outcome h
  | withdrawTokens => exact .same (withdrawTokens_tab h)
  | sweepShell => exact .same (sweepShell_tab h)
  | placeOrder => exact placeOrder_outcome h
  | cancelOrder => exact cancelOrder_outcome h
  | cancelOrderByClient => exact cancelOrderByClient_outcome h
  | placeBatch => exact placeBatch_outcome h
  | cancelAllOrders => exact cancelAllOrders_outcome h

end PrivateNote

/-- The PMP of market `m` sends `cb` to the note of deposit `h` as it processes its message `a`. -/
inductive Answers (h : ℕ) (m : MarketId) : NoteAction → PmpCallback → Prop
  | call {s t : PMP} {now : ℕ} {c : PmpCall} {cb : PmpCallback} (hr : s.Ready)
      (hm : s.market = m) (ht : s.step ⟨.note h, now, c⟩ = some t)
      (hcb : (Addr.note h, cb) ∈ t.sent) : Answers h m (.pmp m c) cb
  | deploy {d x : ℕ} {l : List Addr} {f xs : List ℕ} :
      Answers h m (.deployPMP m d l f xs x) (.onInitialStakesAccepted xs)

/-- A note, and the message of the operation that holds its latch. -/
structure Waiting where
  note : PrivateNote
  op : Option NoteAction

namespace Waiting

/-- The operation in flight after a transaction that led to `t`. -/
def opAfter (w : Waiting) (t : PrivateNote) : Option NoteAction :=
  if t.busy = none then none
  else if w.note.busy = none then t.actions.getLast?
  else w.op

def step (w : Waiting) (i : PrivateNote.Input) : Option Waiting := do
  let t ← w.note.step i
  return ⟨t, w.opAfter t⟩

/-- A callback of a PMP that the latch lets in answers the operation that holds it. The note cannot
tell: a PMP that gives up frees the latch of whatever its deployer has asked it meanwhile. -/
def Fits (w : Waiting) (i : PrivateNote.Input) : Prop :=
  ∀ m cb, i.call = .pmp m cb → cb.latched = true → w.note.latched i.caller = true →
    ∃ a, w.op = some a ∧ Answers w.note.depositIdentifierHash m a cb

/-- A transaction of the note. -/
def Next (w : Waiting) (i : PrivateNote.Input) (u : Waiting) : Prop :=
  w.Fits i ∧ w.step i = some u

/-- The ledger is in order, and the operation in flight finds its record. -/
structure Sound (w : Waiting) : Prop where
  held : w.note.tab.Held
  awaits : w.note.tab.Awaits w.op

variable {w u : Waiting} {i : PrivateNote.Input} {m : MarketId} {cb : PmpCallback}
  {t : PrivateNote}

theorem Sound.answered (hw : w.Sound) (hf : w.Fits i) (hi : i.call = .pmp m cb)
    (hl : cb.latched = true) (hla : w.note.latched i.caller = true) :
    w.note.stakes.has m = true ∧
      ((∃ c : PmpCall, c.Pledged (w.note.stakes.read m) ∧ c.Repeats cb) ∨
        ∃ xs, cb = .onInitialStakesAccepted xs) := by
  obtain ⟨a, ha, h⟩ := hf m cb hi hl hla
  have hwt := hw.awaits
  rw [ha] at hwt
  cases h with
  | call hr hm ht hcb =>
    obtain ⟨_, hs, hp⟩ := hwt
    exact ⟨hs, .inl ⟨_, hp, (PMP.step_effect hr ht).repeats _ hcb⟩⟩
  | deploy => exact ⟨hwt.2, .inr ⟨_, rfl⟩⟩

theorem fromPMP_outcome (hw : w.Sound) (hf : w.Fits i) (hi : i.call = .pmp m cb)
    (h : w.note.begin.fromPMP i.caller m cb = some t) : w.note.begin.Outcome t := by
  have ha (hl : cb.latched = true) (hla : w.note.latched i.caller = true) :=
    hw.answered hf hi hl hla
  cases cb with
  | onInitialStakesAccepted =>
    obtain ⟨_, hla, _⟩ := of_bind h
    exact PrivateNote.onInitialStakesAccepted_outcome
      (ha rfl (of_guard hla)).1 h
  | onInitialStakesFailed => exact PrivateNote.onInitialStakesFailed_outcome h
  | onPmpCleanRefund => exact PrivateNote.onPmpCleanRefund_outcome h
  | onForfeitAccepted => exact PrivateNote.onForfeitAccepted_outcome h
  | onStakeCancelled =>
    obtain ⟨_, hla, _⟩ := of_bind h
    obtain ⟨_, ⟨c, hp, a, d, b, k, rfl, rfl⟩ | ⟨_, hx⟩⟩ := ha rfl (of_guard hla)
    · exact PrivateNote.onStakeCancelled_outcome hw.held hp h
    · exact PmpCallback.noConfusion hx
  | onSplitAccepted =>
    obtain ⟨_, hla, _⟩ := of_bind h
    exact PrivateNote.onSplitAccepted_outcome (ha rfl (of_guard hla)).1 h
  | onMergeAccepted =>
    obtain ⟨_, hla, _⟩ := of_bind h
    exact PrivateNote.onMergeAccepted_outcome (ha rfl (of_guard hla)).1 h
  | onStakeAccepted =>
    obtain ⟨_, hla, _⟩ := of_bind h
    obtain ⟨hm, ⟨c, hp, k, a, x, rfl⟩ | ⟨_, hx⟩⟩ := ha rfl (of_guard hla)
    · exact PrivateNote.onStakeAccepted_outcome hm hp h
    · exact PmpCallback.noConfusion hx
  | onClaimAccepted =>
    obtain ⟨_, hla, _⟩ := of_bind h
    obtain ⟨_, ⟨c, hp, a, d, b, k, rfl, hz, hq⟩ | ⟨_, hx⟩⟩ :=
      ha rfl (of_guard hla)
    · exact PrivateNote.onClaimAccepted_outcome (fun h0 => (hz h0).trans_le hp.1)
        (fun h0 => (hq h0).trans_le hp.2) h
    · exact PmpCallback.noConfusion hx
  | acceptFee => exact PrivateNote.acceptFee_outcome h

/-- Every call that spends no coupon has one of the listed outcomes. -/
theorem exec_outcome (hw : w.Sound) (hf : w.Fits i) (hi : i.call.spendsCoupon = false)
    (h : w.note.step i = some t) : w.note.begin.Outcome t := by
  obtain ⟨e, c⟩ := i
  cases c with
  | owner =>
    replace h := of_pass h
    exact PrivateNote.execOwner_outcome hi h
  | pmp => exact fromPMP_outcome hw hf rfl h
  | orderBook => exact .calm (PrivateNote.fromOrderBook_calm h)
  | onInferencePlaced => exact .same (PrivateNote.onInferencePlaced_tab h)
  | onInferenceOrderRemoved => exact .same (PrivateNote.onInferenceOrderRemoved_tab h)
  | onInferenceFilled => exact .same (PrivateNote.onInferenceFilled_tab h)
  | onInferenceRejected => exact .same (PrivateNote.onInferenceRejected_tab h)
  | onDealClosed =>
    cases h
    exact .same (PrivateNote.onDealClosed_tab _ _)
  | creditFromDeal => exact .same (PrivateNote.creditFromDeal_tab h)
  | creditFromBook => exact .same (PrivateNote.creditFromBook_tab h)
  | offerTransfer => exact .same (PrivateNote.offerTransfer_tab h)
  | onTransferAccepted => exact PrivateNote.onTransferAccepted_outcome h
  | revertWithdraw => exact .same (PrivateNote.revertWithdraw_tab h)
  | receive =>
    cases h
    exact .same rfl
  | onBounce body =>
    change w.note.begin.bounced e.caller body = some t at h
    unfold PrivateNote.bounced at h
    split at h
    · exact PrivateNote.onBounce_outcome hw.held h
    · exact absurd h (by simp)

theorem Sound.outcome (hw : w.Sound) (h : w.note.begin.Outcome t) : Sound ⟨t, w.opAfter t⟩ := by
  refine ⟨hw.held.eases h.eases, ?_⟩
  change t.tab.Awaits (w.opAfter t)
  unfold opAfter
  split_ifs with ht hb
  · trivial
  · cases h with
    | kept _ hk => exact absurd (hk.elim (fun h => h.trans hb) id) ht
    | done _ hk => exact absurd hk ht
    | took _ _ ha => exact ha hw.held.named
  · cases h with
    | kept _ _ ha => exact ha ht _ hw.awaits
    | done _ hk => exact absurd hk ht
    | took _ hk => exact absurd hk hb

theorem Sound.still (hw : w.Sound) (hs : t.stakes = w.note.stakes) (hb : t.busy = w.note.busy)
    (ht : t.tab.Held) : Sound ⟨t, w.opAfter t⟩ := by
  refine ⟨ht, ?_⟩
  change t.tab.Awaits (w.opAfter t)
  unfold opAfter
  split_ifs with h0 h1
  · trivial
  · exact absurd (hb.trans h1) h0
  · refine hw.awaits.quiet hb fun m _ hm => ?_
    change (w.note.stakes.read m).Quiet (t.stakes.read m) ∧ t.stakes.has m = true
    rw [hs]
    exact ⟨.refl _, hm⟩

theorem setStake_sound {k a : ℕ} {c : Bool} (hw : w.Sound)
    (h : w.note.begin.setStake m k a c = some t) : Sound ⟨t, w.opAfter t⟩ := by
  obtain ⟨hh, hb, ha⟩ := PrivateNote.setStake_held (s := w.note.begin) hw.held h
  refine ⟨hh, ?_⟩
  change t.tab.Awaits (w.opAfter t)
  unfold opAfter
  split_ifs with h0 h1
  · trivial
  · exact ha
  · exact absurd hb h1

theorem generateCoupon_sound {k : ℕ} (hw : w.Sound)
    (h : w.note.begin.generateCoupon k = some t) : Sound ⟨t, w.opAfter t⟩ := by
  obtain ⟨hu, hn, hs, hb, _⟩ := PrivateNote.generateCoupon_spec h
  exact hw.still hs hb (hu.held hn)

theorem discardCoupon_sound (hw : w.Sound) (h : w.note.begin.discardCoupon = some t) :
    Sound ⟨t, w.opAfter t⟩ := by
  obtain ⟨_, hh, hs, hb⟩ := PrivateNote.discardCoupon_spec (s := w.note.begin) hw.held h
  exact hw.still hs hb hh

theorem spends_cases {c : NoteCall} (h : c.spendsCoupon = true) :
    (∃ m k a b, c = .owner (.setStake m k a b)) ∨ (∃ k, c = .owner (.generateCoupon k)) ∨
      c = .owner .discardCoupon := by
  cases c with
  | owner c =>
    cases c with
    | setStake m k a b => exact .inl ⟨m, k, a, b, rfl⟩
    | generateCoupon k => exact .inr (.inl ⟨k, rfl⟩)
    | discardCoupon => exact .inr (.inr rfl)
    | _ => exact Bool.noConfusion h
  | _ => exact Bool.noConfusion h

theorem Next.note (h : w.Next i u) :
    w.note.step i = some u.note ∧ u = ⟨u.note, w.opAfter u.note⟩ := by
  obtain ⟨t, ht, h⟩ := of_bind h.2
  cases h
  exact ⟨ht, rfl⟩

theorem Sound.next (hw : w.Sound) (h : w.Next i u) : u.Sound := by
  obtain ⟨ht, hu⟩ := h.note
  rw [hu]
  by_cases hi : i.call.spendsCoupon = true
  · obtain ⟨e, c⟩ := i
    obtain ⟨m, k, a, b, rfl⟩ | ⟨k, rfl⟩ | rfl := spends_cases hi
    · replace ht := of_pass ht
      exact setStake_sound hw ht
    · replace ht := of_pass ht
      exact generateCoupon_sound hw ht
    · replace ht := of_pass ht
      exact discardCoupon_sound hw ht
  · exact hw.outcome (exec_outcome hw h.1 (by simpa using hi) ht)

/-- One transaction. -/
def Moves (w u : Waiting) : Prop := ∃ i, w.Next i u

/-- One transaction that spends no coupon, and begins and ends none. -/
def Idles (w u : Waiting) : Prop := ∃ i, i.call.spendsCoupon = false ∧ w.Next i u

theorem Sound.reach (hw : w.Sound) (h : Relation.ReflTransGen Moves w u) : u.Sound := by
  induction h with
  | refl => exact hw
  | tail _ hi ih =>
    obtain ⟨i, hi⟩ := hi
    exact ih.next hi

theorem Sound.idle {k : ℕ} (hw : w.Sound) (hk : PrivateNote.Unspent w.note.tab k)
    (h : Relation.ReflTransGen Idles w u) : u.Sound ∧ PrivateNote.Unspent u.note.tab k := by
  induction h with
  | refl => exact ⟨hw, hk⟩
  | tail _ hi ih =>
    obtain ⟨i, hc, hi⟩ := hi
    refine ⟨ih.1.next hi, ih.2.eases ?_⟩
    exact (exec_outcome ih.1 hi.1 hc hi.note.1).eases

/-- A note the root has just made. -/
def start (depositIdentifierHash value ephemeralPubkey tokenType codeHash codeDepth : ℕ) :
    Waiting :=
  ⟨.init depositIdentifierHash value ephemeralPubkey tokenType codeHash codeDepth, none⟩

theorem start_sound (h v k t c d : ℕ) : (start h v k t c d).Sound := by
  refine ⟨⟨Nat.zero_le _, ?_, ?_, ?_, ?_⟩, trivial⟩
  · exact fun m hm => absurd hm (lt_irrefl 0)
  · exact fun h0 => absurd h0 (lt_irrefl 0)
  · exact fun _ m hm => absurd hm (lt_irrefl 0)
  · exact fun m hm => Bool.noConfusion hm

end Waiting

namespace PrivateNote

/-- Coupon value in the stake records, staked or waiting to be. -/
def stakedCoupons (s : PrivateNote) : ℕ := s.stakes.total StakeInfo.coupons

/-- The coupon ledger of a note: one nominal at most, in one currency, and in the currency of the
debt while there is one. -/
structure CouponLedger (s : PrivateNote) : Prop where
  nominal : s.couponsValue + s.stakedCoupons ≤ getCouponValue s.couponsTokenType
  kind : ∀ m, 0 < (s.stakes.read m).coupons →
    m.tokenType = s.couponsTokenType ∧ (s.stakes.read m).tokenType = s.couponsTokenType
  owed : 0 < s.debt →
    (0 < s.couponsValue → s.couponsTokenType = s.debtTokenType) ∧
    ∀ m, 0 < (s.stakes.read m).coupons ∨ 0 < (s.stakes.read m).debts →
      m.tokenType = s.debtTokenType ∧ (s.stakes.read m).tokenType = s.debtTokenType

variable {s t : PrivateNote} {m : MarketId} {caller : Caller}

theorem record_kind (hn : s.tab.Named)
    (h : 0 < (s.stakes.read m).coupons ∨ 0 < (s.stakes.read m).debts) :
    (s.stakes.read m).tokenType = m.tokenType := by
  by_cases hm : s.stakes.has m = true
  · exact (hn m hm).1
  · rw [Mapping.read_of_not_has hm] at h
    exact absurd h (by decide)

theorem couponLedger_of_held (h : s.tab.Held) : s.CouponLedger := by
  have hkind (m : MarketId) (hm : 0 < (s.stakes.read m).coupons) :
      m.tokenType = s.couponsTokenType := h.kind m hm
  have htag (m : MarketId) (hm : 0 < (s.stakes.read m).coupons) :
      s.couponsTokenType = s.debtTokenType := by
    have hle := s.tab.read_le_staked m
    exact h.tag (hm.trans_le (hle.trans (Nat.le_add_left _ _)))
  refine ⟨h.nominal, ?_, ?_⟩
  · exact fun m hm => ⟨hkind m hm, (record_kind h.named (.inl hm)).trans (hkind m hm)⟩
  · intro hd
    refine ⟨fun hc => h.tag (hc.trans_le (Nat.le_add_right _ _)), fun m hm => ?_⟩
    have hk : m.tokenType = s.debtTokenType := by
      rcases hm with hm | hm
      · exact (hkind m hm).trans (htag m hm)
      · exact h.owed (.inl hd) m hm
    exact ⟨hk, (record_kind h.named hm).trans hk⟩

theorem onClaimAccepted_debt {o : Option ℕ} {a d z p : ℕ}
    (h : s.onClaimAccepted caller m o a d z p = some t) :
    t.debt = s.debt ∨ t.debt = s.debt + z - p := by
  replace h := of_pass h
  rcases ite_eq_iff.mp h with ⟨_, h⟩ | ⟨_, h⟩
  · cases h
    exact .inl rfl
  obtain ⟨x, _, h⟩ := of_bind h
  obtain ⟨u, hu, h⟩ := of_bind h
  obtain ⟨y, hy, h⟩ := of_bind h
  cases h
  refine .inr ?_
  change y - p = s.debt + z - p
  rw [(Pools.add128_eq_some hy).1, show u.debt = s.debt from congrArg Tab.debt (credit_tab hu)]

end PrivateNote

namespace Waiting

variable {w u : Waiting} {i : PrivateNote.Input} {m : MarketId}

theorem claim_kind {o : Option ℕ} {a d z p : ℕ} (hw : w.Sound) (h : w.Next i u)
    (hi : i.call = .pmp m (.onClaimAccepted o a d z p)) (hd : u.note.debt ≠ w.note.debt) :
    m.tokenType = w.note.debtTokenType := by
  have ht := h.note.1
  change w.note.begin.exec i.toNoteEnv i.call = _ at ht
  rw [hi] at ht
  have hdebt : u.note.debt = w.note.debt + z - p :=
    (PrivateNote.onClaimAccepted_debt ht).resolve_left hd
  obtain ⟨_, hla, _⟩ := of_bind ht
  obtain ⟨_, ⟨c, hp, _, _, _, _, rfl, hz, hq⟩ | ⟨_, hx⟩⟩ :=
    hw.answered h.1 hi rfl (of_guard hla)
  · rcases Nat.eq_zero_or_pos z with h0 | h0
    · have hdm : 0 < (w.note.stakes.read m).debts :=
        ((hq (by omega)).trans_le hp.2).trans_le (Nat.le_add_right _ _)
      have hpos : 0 < w.note.debt := by omega
      exact hw.held.owed (.inl hpos) m hdm
    · have hcm : 0 < (w.note.stakes.read m).coupons :=
        ((hz h0).trans_le hp.1).trans_le (Nat.le_add_right _ _)
      have hle := w.note.tab.read_le_staked m
      exact (hw.held.kind m hcm).trans
        (hw.held.tag (hcm.trans_le (hle.trans (Nat.le_add_left _ _))))
  · exact PmpCallback.noConfusion hx

theorem discard_unstaked (hw : w.Sound) (h : w.Next i u) (hi : i.call = .owner .discardCoupon) :
    w.note.stakedCoupons = 0 := by
  have ht := h.note.1
  change w.note.begin.exec i.toNoteEnv i.call = _ at ht
  rw [hi] at ht
  replace ht := of_pass ht
  exact (PrivateNote.discardCoupon_spec (s := w.note.begin) hw.held ht).1

theorem generate_discard {k : ℕ} {v : Waiting} (hw : w.Sound) (h : w.Next i u)
    (hi : i.call = .owner (.generateCoupon k)) (hv : Relation.ReflTransGen Idles u v) :
    ∃ x, v.note.discardCoupon = some x ∧ x.debt = w.note.debt ∧
      x.couponsValue = w.note.couponsValue ∧ x.couponsTokenType = 0 ∧ x.debtTokenType = 0 := by
  have ht := h.note.1
  change w.note.begin.exec i.toNoteEnv i.call = _ at ht
  rw [hi] at ht
  replace ht := of_pass ht
  obtain ⟨hu, _, _, _, hk, hd, hc⟩ := PrivateNote.generateCoupon_spec ht
  obtain ⟨x, hx, h1, h2, h3, h4⟩ := ((hw.next h).idle hu hv).2.discard hk
  exact ⟨x, hx, h1.trans (Eq.symm hd), h2.trans (Eq.symm hc), h3, h4⟩

/-- The coupon ledger over every run of a note. -/
theorem coupon_ledger {h x k t c d : ℕ}
    (hr : Relation.ReflTransGen Moves (start h x k t c d) w) :
    w.note.CouponLedger ∧ ∀ i u, w.Next i u →
      (i.call = .owner .discardCoupon → w.note.stakedCoupons = 0) ∧
      (∀ m o a b z p, i.call = .pmp m (.onClaimAccepted o a b z p) →
        u.note.debt ≠ w.note.debt → m.tokenType = w.note.debtTokenType) ∧
      ∀ k, i.call = .owner (.generateCoupon k) → ∀ v, Relation.ReflTransGen Idles u v →
        ∃ y, v.note.discardCoupon = some y ∧ y.debt = w.note.debt ∧
          y.couponsValue = w.note.couponsValue ∧ y.couponsTokenType = 0 ∧
          y.debtTokenType = 0 := by
  have hw := (start_sound h x k t c d).reach hr
  refine ⟨PrivateNote.couponLedger_of_held hw.held, fun i u hi => ⟨?_, ?_, ?_⟩⟩
  · exact discard_unstaked hw hi
  · exact fun m o a b z p hc hd => claim_kind hw hi hc hd
  · exact fun k hk v hv => generate_discard hw hi hk hv

section Sample

/-- A PMP that has processed `history` since its constructor. -/
def pmpAfter (m : MarketId) (history : List PMP.Input) : Option PMP :=
  history.foldlM PMP.step (PMP.init m 7 [.oracleEventList 5 0] [10 ^ 13, 10 ^ 13])

/-- A note transaction; the history and the time of the PMP that answers, when it is a callback. -/
structure Told where
  input : PrivateNote.Input
  history : List PMP.Input
  now : ℕ

/-- The PMP with the history of `x` sends the callback of `x` as it processes the message of the
operation in flight. -/
def answered (w : Waiting) (x : Told) : Bool :=
  match x.input.call, w.op with
  | .pmp m cb, some (.pmp m' c) => decide (m' = m) && (pmpAfter m x.history).any fun s =>
      decide (s.approved = true → s.numberOfOracleEvents ≤ s.approvedOracleEvents) &&
      decide (s.market = m) &&
      (s.step ⟨.note w.note.depositIdentifierHash, x.now, c⟩).any fun t =>
        decide ((.note w.note.depositIdentifierHash, cb) ∈ t.sent)
  | .pmp .., _ => false
  | _, _ => true

def tell (w : Waiting) (x : Told) : Option Waiting := do
  guard (w.answered x)
  w.step x.input

theorem fits_of_answered {x : Told} (h : w.answered x = true) : w.Fits x.input := by
  intro m cb hc _ _
  unfold answered at h
  rw [hc] at h
  cases hop : w.op with
  | none =>
    rw [hop] at h
    exact Bool.noConfusion h
  | some a =>
    rw [hop] at h
    cases a with
    | pmp =>
      obtain ⟨hm, h⟩ := Bool.and_eq_true_iff.mp h
      obtain ⟨s, _, h⟩ := (Option.any_eq_true _ _).mp h
      obtain ⟨h, ht⟩ := Bool.and_eq_true_iff.mp h
      obtain ⟨hr, hk⟩ := Bool.and_eq_true_iff.mp h
      obtain ⟨t, ht, hcb⟩ := (Option.any_eq_true _ _).mp ht
      have hr : s.Ready := fun ha => of_decide_eq_true hr ha
      obtain rfl := of_decide_eq_true hm
      exact ⟨_, rfl, .call hr (of_decide_eq_true hk) ht (of_decide_eq_true hcb)⟩
    | _ => exact Bool.noConfusion h

theorem reach_of_told {l : List Told} (h : l.foldlM tell w = some u) :
    Relation.ReflTransGen Moves w u := by
  induction l generalizing w with
  | nil =>
    rw [← Option.some.inj h]
  | cons x l ih =>
    rw [List.foldlM_cons] at h
    obtain ⟨v, hv, h⟩ := of_bind h
    obtain ⟨_, ha, hv⟩ := of_bind hv
    have hn : w.Next x.input v := ⟨fits_of_answered (of_guard ha), hv⟩
    exact (ih h).head ⟨x.input, hn⟩

def market (eventId : ℕ) : MarketId := ⟨eventId, 0, CURRENCIES_ID_SHELL⟩

def ownerCall (c : OwnerCall) : PrivateNote.Input := ⟨⟨.external 21, 0, fun _ => 0⟩, .owner c⟩

def byOwner (c : OwnerCall) : Told := ⟨ownerCall c, [], 0⟩

def byPMP (m : MarketId) (cb : PmpCallback) (history : List PMP.Input) (now : ℕ) : Told :=
  ⟨⟨⟨.internal (.pmp m), 0, fun _ => 0⟩, .pmp m cb⟩, history, now⟩

/-- Approval, timings and, from the second message on, one stake of the note. -/
def opening (amount : ℕ) (b : BetType) : List PMP.Input :=
  [⟨.oracleEventList 5 0, 10, .approveEvent 11 2 none⟩,
   ⟨.rootPN, 1000, .submitSetTimings (.external 11) 200000⟩,
   ⟨.note 3, 2000, .acceptStake 0 amount 3 b⟩]

def closing (m : MarketId) (outcomeId : ℕ) : List PMP.Input :=
  [⟨.rootPN, 190000, .freezeNow⟩,
   ⟨.orderBook m, 200000, .onOrderBookShutdownComplete⟩,
   ⟨.rootPN, 200001, .submitResolve (.external 11) outcomeId⟩]

/-- A coupon is staked and lost, and its debt is paid by a stake under debt that wins. -/
def spentCoupon : List Told :=
  [byOwner (.fundDeal 0 0 (10 ^ 11) none),
   byOwner (.generateCoupon CURRENCIES_ID_SHELL),
   byOwner (.setStake (market 1) 0 (10 ^ 11) true),
   byPMP (market 1) (.onStakeAccepted 2 .coupon) ((opening (10 ^ 11) .coupon).take 2) 2000,
   byOwner (.claim (market 1)),
   byPMP (market 1) (.onClaimAccepted (some 1) 0 0 0 0)
     (opening (10 ^ 11) .coupon ++ closing (market 1) 1) 300000,
   ⟨⟨⟨.internal (.note 9), 0, fun _ => 0⟩, .offerTransfer CURRENCIES_ID_SHELL (2 * 10 ^ 11) 9⟩,
     [], 0⟩,
   byOwner (.setStake (market 2) 0 (2 * 10 ^ 11) false),
   byPMP (market 2) (.onStakeAccepted 2 .debt) ((opening (2 * 10 ^ 11) .debt).take 2) 2000,
   byOwner (.claim (market 2)),
   byPMP (market 2) (.onClaimAccepted (some 0) 0 386200000000 0 9800000000)
     (opening (2 * 10 ^ 11) .debt ++ closing (market 2) 0) 300000,
   byOwner (.fundDeal 0 0 386200000000 none)]

theorem spentCoupon_generates :
    ((spentCoupon.foldlM tell (start 3 (10 ^ 11) 21 CURRENCIES_ID_SHELL 0 0)).bind
      fun w => w.step (ownerCall (.generateCoupon CURRENCIES_ID_USDC))).isSome = true := by
  decide +kernel

/-- The ledger after the coupon is spent, and a second coupon generated and discarded. -/
theorem coupon_ledger_sample : ∃ w u y,
    spentCoupon.foldlM tell (start 3 (10 ^ 11) 21 CURRENCIES_ID_SHELL 0 0) = some w ∧
      w.note.CouponLedger ∧ w.step (ownerCall (.generateCoupon CURRENCIES_ID_USDC)) = some u ∧
      u.note.discardCoupon = some y ∧ y.debt = w.note.debt ∧
      y.couponsValue = w.note.couponsValue ∧ y.couponsTokenType = 0 ∧ y.debtTokenType = 0 := by
  obtain ⟨u, h⟩ := Option.isSome_iff_exists.mp spentCoupon_generates
  obtain ⟨w, hw, hu⟩ := of_bind h
  obtain ⟨hledger, hnext⟩ := coupon_ledger (reach_of_told hw)
  have hn : w.Next (ownerCall (.generateCoupon CURRENCIES_ID_USDC)) u :=
    ⟨fun m cb hc => NoteCall.noConfusion hc, hu⟩
  obtain ⟨y, hy⟩ := (hnext _ u hn).2.2 _ rfl u .refl
  exact ⟨w, u, y, hw, hledger, hu, hy⟩

theorem coupon_tags_cleared : ¬ ∀ (h x k t c d : ℕ) (w u : Waiting) (i : PrivateNote.Input)
    (j : ℕ) (y : PrivateNote), Relation.ReflTransGen Moves (start h x k t c d) w →
    w.Next i u → i.call = .owner (.generateCoupon j) → u.note.discardCoupon = some y →
    y.debt = w.note.debt ∧ y.couponsValue = w.note.couponsValue ∧
      y.couponsTokenType = w.note.couponsTokenType ∧ y.debtTokenType = w.note.debtTokenType := by
  intro hall
  have hrun : ((spentCoupon.foldlM tell (start 3 (10 ^ 11) 21 CURRENCIES_ID_SHELL 0 0)).bind
      fun w => (w.step (ownerCall (.generateCoupon CURRENCIES_ID_USDC))).bind fun u =>
        u.note.discardCoupon.map fun y => (y.couponsTokenType, w.note.couponsTokenType)) =
      some (0, CURRENCIES_ID_SHELL) := by
    decide +kernel
  obtain ⟨w, hw, hrun⟩ := of_bind hrun
  obtain ⟨u, hu, hrun⟩ := of_bind hrun
  obtain ⟨y, hy, hrun⟩ := Option.map_eq_some_iff.mp hrun
  obtain ⟨h0, h2⟩ := Prod.mk.inj hrun
  have hn : w.Next (ownerCall (.generateCoupon CURRENCIES_ID_USDC)) u :=
    ⟨fun m cb hc => NoteCall.noConfusion hc, hu⟩
  have ht := (hall _ _ _ _ _ _ w u _ _ y (reach_of_told hw) hn rfl hy).2.2.1
  rw [h0, h2] at ht
  exact absurd ht (by decide)

end Sample

end Waiting

end Dexdo
