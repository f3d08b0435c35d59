import Dexdo.PMP.Solvent
import Dexdo.PrivateNote.Outcomes

namespace Dexdo

theorem sum_set_add {l : List ℕ} {i x : ℕ} (a : ℕ) (h : l[i]? = some x) :
    (l.set i (x + a)).sum = l.sum + a := by
  induction l generalizing i with
  | nil => exact absurd h (by simp)
  | cons b l ih =>
    cases i with
    | zero =>
      obtain rfl : b = x := Option.some.inj h
      simp only [List.set_cons_zero, List.sum_cons]
      omega
    | succ i =>
      have := ih h
      simp only [List.set_cons_succ, List.sum_cons]
      omega

theorem addAt_sum {l l' : List ℕ} {i a : ℕ} (h : addAt l i a = some l') : l'.sum = l.sum + a := by
  obtain ⟨x, hx, h⟩ := of_bind h
  obtain ⟨y, hy, h⟩ := of_bind h
  rw [← Option.some.inj h, (Pools.add128_eq_some hy).1]
  exact sum_set_add a hx

theorem Tab.Lighter.back {v w : Tab} {a : ℕ} (h : v.Lighter w)
    (hs : w.stakedCoupons + a ≤ v.stakedCoupons) :
    v.Eases { w with couponsValue := v.couponsValue + a } where
  coupons := by
    change v.couponsValue + a + w.stakedCoupons ≤ v.couponsValue + v.stakedCoupons
    omega
  kinds := ⟨h.coupons.2, h.debt.2⟩
  record := h.record
  owes hd := .inl (h.debt.1 ▸ hd)
  named := h.named
  fresh h0 _ := by
    refine ⟨?_, h.debt.1⟩
    change v.couponsValue + a = v.couponsValue
    omega

theorem Tab.Held.candidate_kind {v : Tab} {m : MarketId} (hv : v.Held)
    (hm : v.stakes.has m = true) (hb : (v.stakes.read m).candidateBetType = .coupon)
    (ha : 0 < (v.stakes.read m).candidateAmount) :
    (v.stakes.read m).tokenType = v.couponsTokenType := by
  rw [(hv.named m hm).1]
  apply hv.kind
  unfold StakeInfo.coupons
  rw [if_pos hb]
  exact Nat.add_pos_right _ ha

theorem Tab.Eases.free {v w : Tab} (h : v.Eases w) : v.Eases w.free :=
  ⟨h.coupons, h.kinds, h.record, h.owes, h.named, h.fresh⟩

namespace PrivateNote

section Callbacks

variable {s t u : PrivateNote} {m : MarketId} {caller : Caller} {e : NoteEnv}

theorem refundStake_tab {x : ℕ} (h : s.refundStake m x = some t) :
    t.tab = s.tab ∨ t.tab = s.tab.drop m := by
  rcases ite_eq_iff.mp h with ⟨_, h⟩ | ⟨_, h⟩
  · obtain ⟨u, hu, h⟩ := Option.map_eq_some_iff.mp h
    rw [← h, dropStake_tab, credit_tab hu]
    exact .inr rfl
  · rw [Option.some.inj h]
    exact .inl rfl

theorem onInitialStakesFailed_outcome {x : ℕ} (h : s.onInitialStakesFailed caller m x = some t) :
    Outcome s t := by
  replace h := of_pass h
  obtain ⟨u, hu, h⟩ := of_bind h
  cases h
  have hl : s.tab.Lighter u.tab := by
    rcases refundStake_tab hu with h | h <;> rw [h]
    · exact .refl _
    · exact (Tab.Lighter.refl _).drop m
  have hb : u.tab.busy = s.tab.busy := by rcases refundStake_tab hu with h | h <;> rw [h]; rfl
  split_ifs with hm
  · exact .ends (hl.latch none) rfl
  · refine .kept hl (.inl hb) fun _ op ha => ha.quiet hb fun j hj hs => ?_
    -- the operation in flight is at another PMP, whose record stays
    have hjm : j ≠ m := by
      rintro rfl
      exact hm (hb.trans hj)
    rcases refundStake_tab hu with h | h <;> rw [h]
    · exact ⟨.refl _, hs⟩
    · rw [Tab.drop_read, if_neg hjm]
      refine ⟨.refl _, ?_⟩
      simpa [Tab.drop, Mapping.has, AList.lookup_erase_ne hjm] using hs

end Callbacks

section Bounces

variable {s t u : PrivateNote} {m : MarketId} {v w : Tab}

theorem restoreBatchLock_tab (h : s.restoreBatchLock = some t) : t.tab = s.tab := by
  rcases ite_eq_iff.mp h with ⟨_, h⟩ | ⟨_, h⟩
  · exact returnLock_tab h
  · rw [Option.some.inj h]

theorem restoreBatchSells_calm (h : s.restoreBatchSells = some t) : s.tab.Calm t.tab := by
  unfold restoreBatchSells at h
  split at h
  · rename_i m _
    rcases ite_eq_iff.mp h with ⟨hm, h⟩ | ⟨_, h⟩
    · obtain ⟨x, _, h⟩ := of_bind h
      rw [← Option.some.inj h, putStake_tab]
      exact (Tab.Calm.refl s.tab).put ⟨rfl, rfl, .inr ⟨rfl, rfl⟩⟩ fun hn => hn m hm.2
    · exact .of_eq (by rw [Option.some.inj h])
  · exact .of_eq (by rw [Option.some.inj h])

theorem forgetClientOrders_tab (s : PrivateNote) (l : List ℕ) :
    (l.foldl forgetClientOrder s).tab = s.tab := by
  induction l generalizing s with
  | nil => rfl
  | cons c l ih =>
    rw [List.foldl_cons, ih, forgetClientOrder_tab]

theorem restoreBatch_outcome (h : s.restoreBatch = some t) : Outcome s t := by
  obtain ⟨u, hu, h⟩ := of_bind h
  obtain ⟨v, hv, h⟩ := of_bind h
  cases h
  refine .ends ?_ rfl
  rw [freeOp_tab, clearBatch_tab, forgetClientOrders_tab, ← restoreBatchLock_tab hu]
  exact (restoreBatchSells_calm hv).toLighter.latch none

theorem restorePlaceBuy_outcome (h : s.restorePlaceBuy = some t) : Outcome s t := by
  obtain ⟨u, hu, h⟩ := of_bind h
  cases h
  refine .ends ?_ rfl
  rw [freeOp_tab, clearPlaceLock_tab, dropPlaceClientOrder_tab, returnLock_tab hu]
  exact (Tab.Lighter.refl s.tab).latch none

theorem restoreTransfer_outcome (h : s.restoreTransfer = some t) : Outcome s t := by
  obtain ⟨u, hu, h⟩ := of_bind h
  cases h
  refine .ends ?_ rfl
  rw [setPending_tab, credit_tab hu]
  exact (Tab.Lighter.refl s.tab).latch none

theorem dropForfeit_outcome (s : PrivateNote) : Outcome s s.dropForfeit :=
  .ends ((dropStake_lighter (s := s.emit _) (.refl s.tab) s.lastHash).latch none) rfl

theorem returnCoupon_tab {k a : ℕ} (hk : 0 < a → k = s.couponsTokenType)
    (h : s.returnCoupon k a = some t) :
    t.tab = { s.tab with couponsValue := s.couponsValue + a } := by
  rcases ite_eq_iff.mp h with ⟨ha, h⟩ | ⟨ha, h⟩
  · obtain ⟨x, hx, h⟩ := of_bind h
    rw [← Option.some.inj h, ← (Pools.add128_eq_some hx).1, hk ha]
    change ({ s.tab with
      couponsValue := x
      couponsTokenType := if s.couponsValue = 0 then s.couponsTokenType
        else s.couponsTokenType } : Tab) = _
    rw [ite_self]
    rfl
  · obtain rfl : a = 0 := Nat.eq_zero_of_not_pos ha
    cases h
    rfl

theorem restored_lighter {r : StakeInfo} (h : v.Lighter w) (hm : v.Named → r.Names m)
    (hc : r.couponsAmount.sum ≤ (w.stakes.read m).couponsAmount.sum)
    (hd : r.debtAmount.sum ≤ (w.stakes.read m).debtAmount.sum) :
    v.Lighter (if r.allEmpty then w.drop m else w.put m { r with candidateAmount := 0 }) := by
  split_ifs with he
  · exact h.drop m
  · exact h.settle (.inl rfl) hc hd hm

theorem restored_coupon {r : StakeInfo} (hb : (v.stakes.read m).candidateBetType = .coupon)
    (h0 : r.candidateAmount = 0) (hc : r.couponsAmount = (v.stakes.read m).couponsAmount)
    (hd : r.debtAmount = (v.stakes.read m).debtAmount) (hn : v.Named → r.Names m) :
    v.Eases (if (v.stakes.read m).allEmpty
      then Tab.drop { v with
        couponsValue := v.couponsValue + (v.stakes.read m).candidateAmount, busy := none } m
      else Tab.put { v with
        couponsValue := v.couponsValue + (v.stakes.read m).candidateAmount, busy := none } m r) := by
  have hm : (v.stakes.read m).coupons =
      (v.stakes.read m).couponsAmount.sum + (v.stakes.read m).candidateAmount := by
    unfold StakeInfo.coupons
    rw [if_pos hb]
  split_ifs
  · have hd := v.drop_staked m
    have h := (Tab.Lighter.refl v).drop m
    exact (h.back (a := (v.stakes.read m).candidateAmount) (by omega)).free
  · have hp := v.put_staked m r
    have hr := StakeInfo.Plain.coupons (.inl h0 : r.Plain)
    rw [hc] at hr
    have h := (Tab.Lighter.refl v).settle (.inl h0) (hc ▸ le_rfl) (hd ▸ le_rfl) hn
    exact (h.back (a := (v.stakes.read m).candidateAmount) (by omega)).free

theorem stakeAt_cases (s : PrivateNote) (m : Option MarketId) :
    s.stakeAt m = .empty ∨
      ∃ k, m = some k ∧ s.stakes.has k = true ∧ s.stakeAt m = s.stakes.read k := by
  cases m with
  | none => exact .inl rfl
  | some k =>
    by_cases hk : s.stakes.has k = true
    · exact .inr ⟨k, rfl, hk, rfl⟩
    · exact .inl (Mapping.read_of_not_has hk)

theorem restoreCandidate_coupon {r r' : StakeInfo} (hb : r.candidateBetType = .coupon)
    (h : s.restoreCandidate r = some (u, r')) :
    s.returnCoupon r.tokenType r.candidateAmount = some u ∧ r' = r := by
  unfold restoreCandidate at h
  rw [hb] at h
  obtain ⟨x, hx, h⟩ := of_bind h
  cases h
  exact ⟨hx, rfl⟩

theorem restoreCandidate_other {r r' : StakeInfo} (hb : r.candidateBetType ≠ .coupon)
    (h : s.restoreCandidate r = some (u, r')) :
    u.tab = s.tab ∧ ∃ a, r' = { r with amount := a } := by
  unfold restoreCandidate at h
  split at h
  · exact absurd ‹_› hb
  · obtain ⟨x, hx, h⟩ := of_bind h
    cases h
    exact ⟨dropPlaceClientOrder_tab s, x, rfl⟩
  · cases h
    exact ⟨rfl, r.amount, rfl⟩
  · obtain ⟨x, hx, h⟩ := of_bind h
    cases h
    exact ⟨credit_tab hx, r.amount, rfl⟩

theorem credit_lastHash {k a : ℕ} (h : s.credit k a = some t) : t.lastHash = s.lastHash := by
  obtain ⟨_, _, h⟩ := of_bind h
  cases h
  rfl

theorem returnCoupon_lastHash {k a : ℕ} (h : s.returnCoupon k a = some t) :
    t.lastHash = s.lastHash := by
  rcases ite_eq_iff.mp h with ⟨_, h⟩ | ⟨_, h⟩
  · obtain ⟨_, _, h⟩ := of_bind h
    cases h
    rfl
  · rw [Option.some.inj h]

theorem restoreCandidate_lastHash {r r' : StakeInfo} (h : s.restoreCandidate r = some (u, r')) :
    u.lastHash = s.lastHash := by
  unfold restoreCandidate at h
  split at h
  · obtain ⟨x, hx, h⟩ := of_bind h
    rw [← (Prod.mk.inj (Option.some.inj h)).1, returnCoupon_lastHash hx]
  · obtain ⟨x, hx, h⟩ := of_bind h
    rw [← (Prod.mk.inj (Option.some.inj h)).1]
    unfold dropPlaceClientOrder
    split_ifs <;> rfl
  · rw [← (Prod.mk.inj (Option.some.inj h)).1]
  · obtain ⟨x, hx, h⟩ := of_bind h
    rw [← (Prod.mk.inj (Option.some.inj h)).1, credit_lastHash hx]

theorem putOrDrop_tab (s : PrivateNote) (m : MarketId) (r r' : StakeInfo) :
    (if r.allEmpty then s.dropStake (some m) else s.putStake (some m) r').tab =
      if r.allEmpty then s.tab.drop m else s.tab.put m r' := by
  split_ifs <;> rfl

theorem putOrDrop_busy (s : PrivateNote) (m : Option MarketId) (r r' : StakeInfo) :
    (if r.allEmpty then s.dropStake m else s.putStake m r').busy = s.busy := by
  cases m <;> split_ifs <;> rfl

theorem restoreStake_outcome (hv : s.tab.Held) (h : s.restoreStake = some t) : Outcome s t := by
  obtain ⟨⟨u, r⟩, hu, h⟩ := of_bind h
  change some (if r.allEmpty then u.dropStake u.lastHash
    else u.putStake u.lastHash { r with candidateAmount := 0 }) = some t at h
  rw [Option.some.injEq, restoreCandidate_lastHash hu] at h
  change (if r.allEmpty then u.dropStake s.lastHash
    else u.putStake s.lastHash { r with candidateAmount := 0 }) = t at h
  rcases s.stakeAt_cases s.lastHash with h0 | ⟨m, hm, hs, h0⟩ <;> rw [h0] at hu
  · obtain ⟨x, hx, hu⟩ := of_bind hu
    obtain ⟨rfl, rfl⟩ := Prod.mk.inj (Option.some.inj hu)
    have hk : x.tab = s.tab.free := credit_tab hx
    refine .ends ?_ ?_
    · rw [← h]
      apply dropStake_lighter
      rw [hk]
      exact (Tab.Lighter.refl s.tab).latch none
    · rw [← h, putOrDrop_busy]
      exact congrArg Tab.busy hk
  · rw [hm] at h
    rw [← h]
    by_cases hb : (s.stakes.read m).candidateBetType = .coupon
    · obtain ⟨hr, rfl⟩ := restoreCandidate_coupon hb hu
      have hk := returnCoupon_tab (s := s.freeOp) (fun ha => hv.candidate_kind hs hb ha) hr
      refine .done ?_ ((putOrDrop_busy _ _ _ _).trans (congrArg Tab.busy hk))
      rw [putOrDrop_tab, hk]
      exact restored_coupon (v := s.tab) hb rfl rfl rfl fun hn => hn m hs
    · obtain ⟨hk, a, rfl⟩ := restoreCandidate_other hb hu
      refine .done ?_ ((putOrDrop_busy _ _ _ _).trans (congrArg Tab.busy hk))
      rw [putOrDrop_tab, hk]
      refine (restored_lighter (r := { s.stakes.read m with amount := a })
        ((Tab.Lighter.refl s.tab).latch none) ?_ ?_ ?_).eases
      · exact fun hn => hn m hs
      · exact le_rfl
      · exact le_rfl

/-- A bounce restores what the last operation took. -/
theorem bounceOp_outcome (hv : s.tab.Held) (h : s.bounceOp = some t) : Outcome s t := by
  rcases ite_eq_iff.mp h with ⟨_, h⟩ | ⟨_, h⟩
  · cases h
    exact dropForfeit_outcome s
  rcases ite_eq_iff.mp h with ⟨_, h⟩ | ⟨_, h⟩
  · exact restoreBatch_outcome h
  rcases ite_eq_iff.mp h with ⟨_, h⟩ | ⟨_, h⟩
  · exact restorePlaceBuy_outcome h
  rcases ite_eq_iff.mp h with ⟨_, h⟩ | ⟨_, h⟩
  · exact restoreTransfer_outcome h
  · exact restoreStake_outcome hv h

theorem onBounce_outcome {a : Addr} {body : BouncedBody} (hv : s.tab.Held)
    (h : s.onBounce a body = some t) : Outcome s t := by
  by_cases hb : body = .other
  · rw [hb] at h
    rcases ite_eq_iff.mp h with ⟨_, h⟩ | ⟨_, h⟩
    · exact bounceOp_outcome hv h
    · exact .same (by rw [Option.some.inj h])
  · exact .same (onBounce_tab hb h)

end Bounces

section Answers

variable {s t u : PrivateNote} {m : MarketId} {caller : Caller}

theorem sized_candidate (r : StakeInfo) (n : ℕ) :
    (r.sized n).candidateAmount = r.candidateAmount := by
  unfold StakeInfo.sized
  split_ifs <;> rfl

theorem confirmStake_sums {r r' : StakeInfo} {b : BetType} (h : confirmStake r b = some r') :
    r'.couponsAmount.sum =
        r.couponsAmount.sum + (if b = .coupon then r.candidateAmount else 0) ∧
      r'.debtAmount.sum = r.debtAmount.sum + (if b = .debt then r.candidateAmount else 0) ∧
      r'.oracleListHash = r.oracleListHash ∧ r'.tokenType = r.tokenType := by
  unfold confirmStake at h
  split at h
  · obtain ⟨x, hx, h⟩ := of_bind h
    cases h
    exact ⟨addAt_sum hx, rfl, rfl, rfl⟩
  · obtain ⟨x, hx, h⟩ := of_bind h
    cases h
    exact ⟨rfl, addAt_sum hx, rfl, rfl⟩
  · rename_i hc hd
    obtain ⟨x, hx, h⟩ := of_bind h
    rw [← Option.some.inj h, if_neg hc, if_neg hd]
    exact ⟨rfl, rfl, rfl, rfl⟩

theorem onStakeAccepted_outcome {n : ℕ} {b : BetType} (hm : s.stakes.has m = true)
    (hp : (s.stakes.read m).candidateAmount = 0 ∨ (s.stakes.read m).candidateBetType = b)
    (h : s.onStakeAccepted caller m n b = some t) : Outcome s t := by
  replace h := of_pass h
  obtain ⟨r, hr, h⟩ := of_bind h
  cases h
  refine .ends ?_ rfl
  rw [free_tab, emit_tab, putStake_tab]
  obtain ⟨hc, hd, ho, hk⟩ := confirmStake_sums hr
  obtain ⟨hcs, hds⟩ := sized_lighter (s.stakes.read m) n
  rw [sized_candidate] at hc hd
  refine Tab.Lighter.latch (.put (.refl s.tab) ?_ ?_ fun hn => ?_) none
  · refine (StakeInfo.Plain.coupons (.inl rfl)).trans_le (hc.trans_le ?_)
    rcases hp with hp | hp
    · rw [hp, ite_self]
      exact hcs.trans (Nat.le_add_right _ _)
    · rw [← hp]
      exact Nat.add_le_add_right hcs _
  · refine (StakeInfo.Plain.debts (.inl rfl)).trans_le (hd.trans_le ?_)
    rcases hp with hp | hp
    · rw [hp, ite_self]
      exact hds.trans (Nat.le_add_right _ _)
    · rw [← hp]
      exact Nat.add_le_add_right hds _
  · obtain ⟨h1, h2⟩ := sized_names (hn m hm) n
    exact ⟨hk.trans h1, ho.trans h2⟩

theorem onStakeCancelled_outcome {x c : ℕ} (hv : s.tab.Held)
    (hp : c ≤ (s.stakes.read m).couponsAmount.sum)
    (h : s.onStakeCancelled caller m x c = some t) : Outcome s t := by
  replace h := of_pass h
  obtain ⟨u, hu, h⟩ := of_bind h
  obtain ⟨v, hw, h⟩ := of_bind h
  cases h
  have hk : u.tab = s.tab.drop m := credit_tab hu
  have hc : c ≤ (s.tab.stakes.read m).coupons := hp.trans (Nat.le_add_right _ _)
  have ht : 0 < c → m.tokenType = u.couponsTokenType := fun h0 =>
    (hv.kind m (h0.trans_le hc)).trans (congrArg Tab.couponsTokenType hk).symm
  refine .done ?_ rfl
  rw [free_tab, emit_tab, returnCoupon_tab ht hw, hk,
    show u.couponsValue = s.tab.couponsValue from congrArg Tab.couponsValue hk]
  have hd := s.tab.drop_staked m
  exact (((Tab.Lighter.refl s.tab).drop m).back (by omega)).free

/-- A claim answer drops the record and settles the debt. -/
theorem onClaimAccepted_outcome {o : Option ℕ} {a d z p : ℕ}
    (hz : 0 < z → 0 < (s.stakes.read m).couponsAmount.sum)
    (hp : 0 < p → 0 < (s.stakes.read m).debtAmount.sum)
    (h : s.onClaimAccepted caller m o a d z p = some t) : Outcome s t := by
  replace h := of_pass h
  rcases ite_eq_iff.mp h with ⟨_, h⟩ | ⟨_, h⟩
  · cases h
    exact .calm (Tab.Calm.refl s.tab).free
  obtain ⟨x, _, h⟩ := of_bind h
  obtain ⟨u, hu, h⟩ := of_bind h
  obtain ⟨y, hy, h⟩ := of_bind h
  cases h
  have hk : u.tab = s.tab := credit_tab hu
  obtain ⟨rfl, _⟩ := Pools.add128_eq_some hy
  have hl := (Tab.Lighter.refl s.tab).drop m
  have hc : (s.stakes.read m).couponsAmount.sum ≤ s.tab.stakedCoupons :=
    (Nat.le_add_right _ _).trans (s.tab.read_le_staked m)
  refine .done ?_ rfl
  rw [free_tab, dropStake_tab, emit_tab]
  change s.tab.Eases (Tab.free { u.tab.drop m with debt := u.tab.debt + z - p })
  rw [hk]
  refine Tab.Eases.free ⟨hl.eases.coupons, ⟨rfl, rfl⟩, hl.record, ?_, hl.named, ?_⟩
  · intro h0
    dsimp only at h0
    by_cases hz0 : 0 < z
    · have := hz hz0
      refine .inr ?_
      unfold Tab.coupons
      omega
    · exact .inl (by omega)
  · intro h0 hd0
    refine ⟨rfl, ?_⟩
    have hz0 : ¬ 0 < z := fun h => by have := hz h; omega
    have hdm : (s.stakes.read m).debtAmount.sum ≤ 0 := (Nat.le_add_right _ _).trans_eq (hd0 m)
    have hp0 : ¬ 0 < p := fun h => by have := hp h; omega
    dsimp only
    omega

end Answers

section Spending

variable {s t : PrivateNote} {m : MarketId}

/-- A stake is pledged: `x` of it from the coupon, `y` of it under debt. -/
theorem held_pledge {v : Tab} {r : StakeInfo} {x y : ℕ} (hv : v.Held) (hn : r.Names m)
    (hc : r.coupons = (v.stakes.read m).coupons + x) (hle : x ≤ v.couponsValue)
    (hx : 0 < x → m.tokenType = v.couponsTokenType)
    (hd : r.debts = (v.stakes.read m).debts + y)
    (hy : 0 < y → m.tokenType = v.debtTokenType) (b : Option Addr) :
    Tab.Held { v.put m r with couponsValue := v.couponsValue - x, busy := b } := by
  have hp := v.put_staked m r
  have ht : Tab.coupons { v.put m r with couponsValue := v.couponsValue - x, busy := b } =
      v.coupons := by
    change v.couponsValue - x + (v.put m r).stakedCoupons = v.couponsValue + v.stakedCoupons
    omega
  constructor
  · rw [ht]
    exact hv.nominal
  · intro j hj
    change 0 < ((v.put m r).stakes.read j).coupons at hj
    rw [Tab.put_read] at hj
    split_ifs at hj with hjm
    · rw [hjm]
      rcases Nat.eq_zero_or_pos x with h0 | h0
      · exact hv.kind m (by omega)
      · exact hx h0
    · exact hv.kind j hj
  · rw [ht]
    exact hv.tag
  · rw [ht]
    intro h0 j hj
    change 0 < ((v.put m r).stakes.read j).debts at hj
    rw [Tab.put_read] at hj
    split_ifs at hj with hjm
    · rw [hjm]
      rcases Nat.eq_zero_or_pos y with hy0 | hy0
      · exact hv.owed h0 m (by omega)
      · exact hy hy0
    · exact hv.owed h0 j hj
  · exact hv.named.put hn

theorem stakeCandidate_spec {k a : ℕ} {b : BetType} {r : StakeInfo} (hn : s.tab.Named)
    (h : s.stakeCandidate m k a b = some r) :
    r.Names m ∧ r.couponsAmount.sum = (s.stakes.read m).couponsAmount.sum ∧
      r.debtAmount.sum = (s.stakes.read m).debtAmount.sum ∧
      (s.stakes.read m).candidateAmount = 0 ∧ r.candidateAmount = a ∧ r.candidateBetType = b := by
  rcases ite_eq_iff.mp h with ⟨hm, h⟩ | ⟨hm, h⟩
  · obtain ⟨_, h0, h⟩ := of_bind h
    cases h
    exact ⟨hn m hm, rfl, rfl, of_guard h0, rfl, rfl⟩
  · rw [Mapping.read_of_not_has hm, ← Option.some.inj h]
    exact ⟨⟨rfl, rfl⟩, rfl, rfl, rfl, rfl, rfl⟩

theorem payStake_coupon {k a : ℕ} (h : s.payStake k a true = some t) :
    k = s.couponsTokenType ∧ a ≤ s.couponsValue ∧
      t.tab = { s.tab with couponsValue := s.couponsValue - a } := by
  obtain ⟨_, hk, h⟩ := of_bind h
  obtain ⟨x, hx, h⟩ := of_bind h
  rw [Option.guard_eq_some'] at hk
  have hx := Pools.sub128_eq_some hx
  cases h
  obtain rfl : x = s.couponsValue - a := by omega
  exact ⟨hk, by omega, rfl⟩

/-- A stake keeps the ledger and takes the latch. -/
theorem setStake_held {k a : ℕ} {c : Bool} (hv : s.tab.Held) (h : s.setStake m k a c = some t) :
    t.tab.Held ∧ s.busy = none ∧ t.tab.Awaits t.actions.getLast? := by
  replace h := of_pass (of_pass (of_pass h))
  obtain ⟨_, hb, h⟩ := of_bind h
  obtain ⟨r, hr, h⟩ := of_bind h
  obtain ⟨u, hu, h⟩ := of_bind h
  cases h
  obtain ⟨hn, hcs, hds, h0, ha, hbt⟩ := stakeCandidate_spec hv.named hr
  have hc0 : (s.tab.stakes.read m).coupons = r.couponsAmount.sum :=
    (StakeInfo.Plain.coupons (.inl h0)).trans hcs.symm
  have hd0 : (s.tab.stakes.read m).debts = r.debtAmount.sum :=
    (StakeInfo.Plain.debts (.inl h0)).trans hds.symm
  refine ⟨?_, latch_free hb, ?_⟩
  · rw [act_tab, occupy_tab, putStake_tab]
    cases c with
    | true =>
      obtain ⟨hk, hle, ht⟩ := payStake_coupon hu
      rw [ht]
      refine held_pledge (x := a) (y := 0) hv hn ?_ hle (fun _ => hk) ?_ (fun h => ?_) _
      · unfold StakeInfo.coupons at hc0 ⊢
        rw [hc0, hbt, ha]
        rfl
      · unfold StakeInfo.debts at hd0 ⊢
        rw [hd0, hbt]
        rfl
      · exact absurd h (lt_irrefl 0)
    | false =>
      rw [show u.tab = s.tab from debit_tab hu]
      have hne : s.betTypeOf m.tokenType false ≠ .coupon := by
        unfold betTypeOf
        split_ifs <;> simp_all
      refine held_pledge (x := 0) (y := if s.betTypeOf m.tokenType false = .debt then a else 0)
        hv hn ?_ (Nat.zero_le _) (fun h => ?_) ?_ (fun h => ?_) _
      · unfold StakeInfo.coupons at hc0 ⊢
        rw [hc0, hbt, if_neg hne]
      · exact absurd h (lt_irrefl 0)
      · unfold StakeInfo.debts at hd0 ⊢
        rw [hd0, hbt, ha]
      · by_cases hd : 0 < s.debt ∧ s.debtTokenType = m.tokenType
        · exact hd.2.symm
        · simp [betTypeOf, hd] at h
  · rw [act_last]
    refine ⟨rfl, has_insert u m r, .inr ?_⟩
    rw [act_tab, occupy_tab, putStake_tab, Tab.put_read, if_pos rfl]
    exact hbt

/-- A coupon of currency `k` that is not spent, and whose debt is not paid. -/
structure Unspent (v : Tab) (k : ℕ) : Prop where
  value : v.couponsValue = getCouponValue k
  debt : v.debt = getCouponValue k * 5 / 100
  kinds : v.couponsTokenType = k ∧ v.debtTokenType = k
  staked : v.stakedCoupons = 0
  debts : ∀ m, (v.stakes.read m).debts = 0

theorem Unspent.eases {v w : Tab} {k : ℕ} (hv : Unspent v k) (h : v.Eases w) : Unspent w k := by
  obtain ⟨hc, hd⟩ := h.fresh hv.staked hv.debts
  refine ⟨hc.trans hv.value, hd.trans hv.debt, ?_, ?_, ?_⟩
  · rw [h.kinds.1, h.kinds.2]
    exact hv.kinds
  · have h1 := h.coupons
    have h2 := hv.staked
    unfold Tab.coupons at h1
    omega
  · exact fun m => Nat.le_zero.mp ((h.record m).2.trans_eq (hv.debts m))

theorem Unspent.held {v : Tab} {k : ℕ} (hv : Unspent v k) (hn : v.Named) : v.Held := by
  constructor
  · unfold Tab.coupons
    rw [hv.staked, hv.value, hv.kinds.1]
    exact le_rfl
  · intro m hm
    have := v.read_le_staked m
    have := hv.staked
    omega
  · exact fun _ => hv.kinds.1.trans hv.kinds.2.symm
  · intro _ m hm
    exact absurd (hv.debts m) hm.ne'
  · exact hn

/-- A new coupon is unspent and touches no stake. -/
theorem generateCoupon_spec {k : ℕ} (h : s.generateCoupon k = some t) :
    Unspent t.tab k ∧ t.tab.Named ∧ t.stakes = s.stakes ∧ t.busy = s.busy ∧
      0 < getCouponValue k ∧ s.debt = 0 ∧ s.couponsValue = 0 := by
  obtain ⟨_, hk, h⟩ := of_bind h
  obtain ⟨_, hd, h⟩ := of_bind h
  replace h := of_pass (of_pass h)
  obtain ⟨_, he, h⟩ := of_bind h
  replace h := of_pass (of_pass h)
  obtain ⟨_, hc, h⟩ := of_bind h
  rw [Option.guard_eq_some'] at hk hd he hc
  cases h
  have h0 : s.stakes.entries = [] := List.isEmpty_iff.mp he
  have hr (m : MarketId) : ¬ s.stakes.has m = true := by
    simp [Mapping.has, AList.lookup, h0]
  refine ⟨⟨rfl, rfl, ⟨rfl, rfl⟩, ?_, ?_⟩, ?_, rfl, rfl, hk, hd, hc⟩
  · change Mapping.total s.stakes StakeInfo.coupons = 0
    unfold Mapping.total
    rw [h0]
    rfl
  · intro m
    change (s.stakes.read m).debts = 0
    rw [Mapping.read_of_not_has (hr m)]
    rfl
  · exact fun m hm => absurd hm (hr m)

/-- A coupon is discarded only while none is staked. -/
theorem discardCoupon_spec (hv : s.tab.Held) (h : s.discardCoupon = some t) :
    s.tab.stakedCoupons = 0 ∧ t.tab.Held ∧ t.stakes = s.stakes ∧ t.busy = s.busy := by
  obtain ⟨_, hpos, h⟩ := of_bind h
  obtain ⟨_, heq, h⟩ := of_bind h
  rw [Option.guard_eq_some'] at hpos heq
  have hs : s.tab.stakedCoupons = 0 := by
    have h1 := hv.nominal
    change s.couponsValue + s.tab.stakedCoupons ≤ getCouponValue s.couponsTokenType at h1
    omega
  cases h
  refine ⟨hs, ?_, rfl, rfl⟩
  have h0 : ∀ m, (s.stakes.read m).coupons = 0 := fun m =>
    Nat.le_zero.mp ((s.tab.read_le_staked m).trans_eq hs)
  constructor
  · change 0 + s.tab.stakedCoupons ≤ _
    rw [hs]
    exact Nat.zero_le _
  · exact fun m hm => absurd (h0 m) hm.ne'
  · intro hc
    change 0 < 0 + s.tab.stakedCoupons at hc
    omega
  · intro hc m hm
    have hcoup : ¬ 0 < 0 + s.tab.stakedCoupons := by omega
    have hd : 0 < s.debt - s.couponsValue * 5 / 100 := hc.resolve_right hcoup
    change m.tokenType = if s.debt - s.couponsValue * 5 / 100 = 0 then 0 else s.debtTokenType
    rw [if_neg hd.ne']
    exact hv.owed (.inl (hd.trans_le (Nat.sub_le _ _))) m hm
  · exact hv.named

theorem Unspent.discard {k : ℕ} (h : Unspent s.tab k) (hk : 0 < getCouponValue k) :
    ∃ t, s.discardCoupon = some t ∧ t.debt = 0 ∧ t.couponsValue = 0 ∧
      t.couponsTokenType = 0 ∧ t.debtTokenType = 0 := by
  have hv : s.couponsValue = getCouponValue k := h.value
  have hd : s.debt = getCouponValue k * 5 / 100 := h.debt
  have ht : s.couponsTokenType = k := h.kinds.1
  have hz : s.debt - s.couponsValue * 5 / 100 = 0 := by rw [hv, hd, Nat.sub_self]
  refine ⟨_, Option.bind_eq_some_iff.mpr ⟨(), ?_, Option.bind_eq_some_iff.mpr ⟨(), ?_, rfl⟩⟩,
    hz, rfl, rfl, if_pos hz⟩
  · rw [Option.guard_eq_some', hv]
    exact hk
  · rw [Option.guard_eq_some', hv, ht]

end Spending

end PrivateNote

end Dexdo
