import Dexdo.PrivateNote.Entry

namespace Dexdo

namespace StakeInfo

/-- Coupon value of a record: staked, or waiting to be. -/
def coupons (r : StakeInfo) : ℕ :=
  r.couponsAmount.sum + if r.candidateBetType = .coupon then r.candidateAmount else 0

/-- Stakes of a record made under debt. -/
def debts (r : StakeInfo) : ℕ :=
  r.debtAmount.sum + if r.candidateBetType = .debt then r.candidateAmount else 0

theorem coupons_default : coupons default = 0 := rfl

/-- The record of market `m` names it. -/
def Names (r : StakeInfo) (m : MarketId) : Prop :=
  r.tokenType = m.tokenType ∧ r.oracleListHash = m.oracleListHash

/-- No coupon and no debt waits in the record. -/
def Plain (r : StakeInfo) : Prop :=
  r.candidateAmount = 0 ∨ r.candidateBetType ≠ .coupon ∧ r.candidateBetType ≠ .debt

theorem Plain.coupons {r : StakeInfo} (h : r.Plain) : r.coupons = r.couponsAmount.sum := by
  unfold StakeInfo.coupons
  rcases h with h | ⟨h, _⟩
  · rw [h, ite_self, Nat.add_zero]
  · rw [if_neg h, Nat.add_zero]

theorem Plain.debts {r : StakeInfo} (h : r.Plain) : r.debts = r.debtAmount.sum := by
  unfold StakeInfo.debts
  rcases h with h | ⟨_, h⟩
  · rw [h, ite_self, Nat.add_zero]
  · rw [if_neg h, Nat.add_zero]

/-- A change of a record that leaves its coupons and debts alone, or drops its candidate. -/
structure Quiet (r r' : StakeInfo) : Prop where
  coupons : r'.couponsAmount.sum = r.couponsAmount.sum
  debts : r'.debtAmount.sum = r.debtAmount.sum
  candidate : r'.candidateAmount = 0 ∨
    r'.candidateAmount = r.candidateAmount ∧ r'.candidateBetType = r.candidateBetType

namespace Quiet

variable {r r' r'' : StakeInfo}

theorem refl (r : StakeInfo) : Quiet r r := ⟨rfl, rfl, .inr ⟨rfl, rfl⟩⟩

theorem trans (h : Quiet r r') (h' : Quiet r' r'') : Quiet r r'' := by
  refine ⟨h'.coupons.trans h.coupons, h'.debts.trans h.debts, ?_⟩
  rcases h'.candidate with h0 | ⟨ha, hb⟩
  · exact .inl h0
  rcases h.candidate with h0 | ⟨ha', hb'⟩
  · exact .inl (ha.trans h0)
  · exact .inr ⟨ha.trans ha', hb.trans hb'⟩

theorem coupons_le (h : Quiet r r') : r'.coupons ≤ r.coupons := by
  unfold StakeInfo.coupons
  rw [h.coupons]
  rcases h.candidate with h0 | ⟨ha, hb⟩
  · simp [h0]
  · rw [ha, hb]

theorem debts_le (h : Quiet r r') : r'.debts ≤ r.debts := by
  unfold StakeInfo.debts
  rw [h.debts]
  rcases h.candidate with h0 | ⟨ha, hb⟩
  · simp [h0]
  · rw [ha, hb]

end Quiet

theorem padded_quiet (r : StakeInfo) (n : ℕ) : Quiet r (r.padded n) := by
  refine ⟨?_, ?_, .inr ⟨rfl, rfl⟩⟩ <;> simp [padded]

end StakeInfo

/-- What the coupon ledger reads of a note. -/
structure Tab where
  stakes : Mapping MarketId StakeInfo
  couponsValue : ℕ
  couponsTokenType : ℕ
  debt : ℕ
  debtTokenType : ℕ
  busy : Option Addr

namespace Tab

variable {u v w : Tab} {m : MarketId} {r : StakeInfo}

/-- Coupon value in the stake records. -/
def stakedCoupons (v : Tab) : ℕ := v.stakes.total StakeInfo.coupons

/-- All coupon value of the note, spent on a stake or not. -/
def coupons (v : Tab) : ℕ := v.couponsValue + v.stakedCoupons

/-- Every record names the market it is kept under. -/
def Named (v : Tab) : Prop := ∀ m, v.stakes.has m = true → (v.stakes.read m).Names m

/-- Write of a record. -/
def put (v : Tab) (m : MarketId) (r : StakeInfo) : Tab :=
  { v with stakes := AList.insert m r v.stakes }

/-- A stake record is deleted. -/
def drop (v : Tab) (m : MarketId) : Tab := { v with stakes := AList.erase m v.stakes }

/-- The latch is released. -/
def free (v : Tab) : Tab := { v with busy := none }

theorem put_read (v : Tab) (m : MarketId) (r : StakeInfo) (j : MarketId) :
    (v.put m r).stakes.read j = if j = m then r else v.stakes.read j :=
  Mapping.read_insert v.stakes j m r

theorem drop_read (v : Tab) (m j : MarketId) :
    (v.drop m).stakes.read j = if j = m then default else v.stakes.read j := by
  unfold drop
  split_ifs with h
  · rw [h]
    exact Mapping.read_erase_self v.stakes m
  · exact Mapping.read_erase_of_ne v.stakes h

theorem put_has {j : MarketId} (r : StakeInfo) (h : v.stakes.has j = true) :
    (v.put m r).stakes.has j = true := by
  by_cases hj : j = m
  · rw [hj]
    simp [put, Mapping.has]
  · have : AList.lookup j (AList.insert m r v.stakes) = v.stakes.lookup j :=
      AList.lookup_insert_ne hj
    simpa [put, Mapping.has, this] using h

theorem put_staked (v : Tab) (m : MarketId) (r : StakeInfo) :
    (v.put m r).stakedCoupons + (v.stakes.read m).coupons = v.stakedCoupons + r.coupons :=
  Mapping.total_insert StakeInfo.coupons_default v.stakes m r

theorem drop_staked (v : Tab) (m : MarketId) :
    (v.drop m).stakedCoupons + (v.stakes.read m).coupons = v.stakedCoupons :=
  Mapping.total_erase StakeInfo.coupons_default v.stakes m

theorem read_le_staked (v : Tab) (m : MarketId) : (v.stakes.read m).coupons ≤ v.stakedCoupons :=
  Mapping.le_total StakeInfo.coupons_default v.stakes m

theorem Named.put (h : v.Named) (hr : r.Names m) : (v.put m r).Named := by
  intro j hj
  rw [put_read]
  split_ifs with hjm
  · rw [hjm]
    exact hr
  · apply h
    have : AList.lookup j (AList.insert m r v.stakes) = v.stakes.lookup j :=
      AList.lookup_insert_ne hjm
    simpa [Tab.put, Mapping.has, this] using hj

theorem Named.drop (h : v.Named) : (v.drop m).Named := by
  intro j hj
  have hjm : j ≠ m := by
    rintro rfl
    simp [Tab.drop, Mapping.has] at hj
  rw [drop_read, if_neg hjm]
  apply h
  simpa [Tab.drop, Mapping.has, AList.lookup_erase_ne hjm] using hj

/-- A change that adds no coupon and no debt anywhere. -/
structure Lighter (v w : Tab) : Prop where
  coupons : w.couponsValue = v.couponsValue ∧ w.couponsTokenType = v.couponsTokenType
  debt : w.debt = v.debt ∧ w.debtTokenType = v.debtTokenType
  staked : w.stakedCoupons ≤ v.stakedCoupons
  record : ∀ m, (w.stakes.read m).coupons ≤ (v.stakes.read m).coupons ∧
    (w.stakes.read m).debts ≤ (v.stakes.read m).debts
  named : v.Named → w.Named

namespace Lighter

theorem refl (v : Tab) : Lighter v v :=
  ⟨⟨rfl, rfl⟩, ⟨rfl, rfl⟩, le_rfl, fun _ => ⟨le_rfl, le_rfl⟩, id⟩

theorem latch (h : Lighter v w) (b : Option Addr) : Lighter v { w with busy := b } :=
  ⟨h.coupons, h.debt, h.staked, h.record, h.named⟩

theorem put (h : Lighter v w) (hc : r.coupons ≤ (w.stakes.read m).coupons)
    (hd : r.debts ≤ (w.stakes.read m).debts) (hr : v.Named → r.Names m) :
    Lighter v (w.put m r) := by
  refine ⟨h.coupons, h.debt, ?_, ?_, fun hn => (h.named hn).put (hr hn)⟩
  · have := w.put_staked m r
    have := h.staked
    omega
  · intro j
    rw [put_read]
    split_ifs with hj
    · rw [hj]
      exact ⟨hc.trans (h.record m).1, hd.trans (h.record m).2⟩
    · exact h.record j

theorem settle (h : Lighter v w) (h0 : r.Plain)
    (hc : r.couponsAmount.sum ≤ (w.stakes.read m).couponsAmount.sum)
    (hd : r.debtAmount.sum ≤ (w.stakes.read m).debtAmount.sum) (hr : v.Named → r.Names m) :
    Lighter v (w.put m r) := by
  refine h.put ?_ ?_ hr
  · rw [h0.coupons]
    exact hc.trans (Nat.le_add_right _ _)
  · rw [h0.debts]
    exact hd.trans (Nat.le_add_right _ _)

theorem drop (h : Lighter v w) (m : MarketId) : Lighter v (w.drop m) := by
  refine ⟨h.coupons, h.debt, ?_, ?_, fun hn => (h.named hn).drop⟩
  · have := w.drop_staked m
    have := h.staked
    omega
  · intro j
    rw [drop_read]
    split_ifs
    · exact ⟨Nat.zero_le _, Nat.zero_le _⟩
    · exact h.record j

end Lighter

/-- A change that is lighter record by record, and takes no latch. -/
structure Calm (v w : Tab) : Prop extends Lighter v w where
  quiet : ∀ m, (v.stakes.read m).Quiet (w.stakes.read m)
  has : ∀ m, v.stakes.has m = true → w.stakes.has m = true
  busy : w.busy = v.busy ∨ w.busy = none

namespace Calm

theorem refl (v : Tab) : Calm v v := ⟨.refl v, fun _ => .refl _, fun _ => id, .inl rfl⟩

theorem of_eq (h : w = v) : Calm v w := by
  rw [h]
  exact .refl v

theorem free (h : Calm v w) : Calm v w.free :=
  ⟨h.toLighter.latch none, h.quiet, h.has, .inr rfl⟩

theorem put (h : Calm v w) (hq : (w.stakes.read m).Quiet r) (hr : w.Named → r.Names m) :
    Calm v (w.put m r) := by
  refine ⟨h.toLighter.put hq.coupons_le hq.debts_le fun hn => hr (h.named hn), ?_, ?_, h.busy⟩
  · intro j
    rw [put_read]
    split_ifs with hj
    · rw [hj]
      exact (h.quiet m).trans hq
    · exact h.quiet j
  · exact fun j hj => put_has r (h.has j hj)

end Calm

end Tab

namespace PrivateNote

/-- Stakes, coupons and debt of a note. -/
def tab (s : PrivateNote) : Tab where
  stakes := s.stakes
  couponsValue := s.couponsValue
  couponsTokenType := s.couponsTokenType
  debt := s.debt
  debtTokenType := s.debtTokenType
  busy := s.busy

section Tab

variable {s t u : PrivateNote} {m : MarketId} {r : StakeInfo} {caller : Caller} {e : NoteEnv}
  {v : Tab}

@[simp] theorem act_tab (s : PrivateNote) (a : NoteAction) : (s.act a).tab = s.tab := rfl
@[simp] theorem emit_tab (s : PrivateNote) (x : NoteEvent) : (s.emit x).tab = s.tab := rfl
@[simp] theorem setPositions_tab (s : PrivateNote) (p : Positions) :
    (s.setPositions p).tab = s.tab := rfl
@[simp] theorem setInference_tab (s : PrivateNote) (p : Inference) :
    (s.setInference p).tab = s.tab := rfl
@[simp] theorem setPending_tab (s : PrivateNote) (p : Pending) :
    (s.setPending p).tab = { s.tab with busy := p.busy } := rfl
@[simp] theorem free_tab (s : PrivateNote) : s.free.tab = s.tab.free := rfl
@[simp] theorem freeOp_tab (s : PrivateNote) : s.freeOp.tab = s.tab.free := rfl
@[simp] theorem occupy_tab (s : PrivateNote) (d : Addr) (m : MarketId) :
    (s.occupy d m).tab = { s.tab with busy := some d } := rfl
@[simp] theorem putStake_tab (s : PrivateNote) (m : MarketId) (r : StakeInfo) :
    (s.putStake (some m) r).tab = s.tab.put m r := rfl
@[simp] theorem dropStake_tab (s : PrivateNote) (m : MarketId) :
    (s.dropStake (some m)).tab = s.tab.drop m := rfl
@[simp] theorem unlock_tab (s : PrivateNote) (k a : ℕ) : (s.unlock k a).tab = s.tab := rfl
@[simp] theorem forgetClientOrder_tab (s : PrivateNote) (c : ℕ) :
    (s.forgetClientOrder c).tab = s.tab := rfl
@[simp] theorem clearPlaceLock_tab (s : PrivateNote) : s.clearPlaceLock.tab = s.tab := rfl
@[simp] theorem clearBatch_tab (s : PrivateNote) : s.clearBatch.tab = s.tab := rfl
@[simp] theorem dropLocks_tab (s : PrivateNote) (m : MarketId) (i : ℕ) :
    (s.dropLocks m i).tab = s.tab := rfl
@[simp] theorem countClosed_tab (s : PrivateNote) (m : MarketId) :
    (s.countClosed m).tab = s.tab := rfl
@[simp] theorem setReserve_tab (s : PrivateNote) (m : MarketId) (i x : ℕ) :
    (s.setReserve m i x).tab = s.tab := rfl

theorem credit_tab {k a : ℕ} (h : s.credit k a = some t) : t.tab = s.tab := by
  obtain ⟨_, _, h⟩ := of_bind h
  cases h
  rfl

theorem debit_tab {k a : ℕ} (h : s.debit k a = some t) : t.tab = s.tab := by
  obtain ⟨_, _, h⟩ := of_bind h
  cases h
  rfl

theorem creditPositive_tab {k a : ℕ} (h : s.creditPositive k a = some t) : t.tab = s.tab := by
  rcases ite_eq_iff.mp h with ⟨_, h⟩ | ⟨_, h⟩
  · exact credit_tab h
  · rw [← Option.some.inj h]

theorem returnLock_tab {k a : ℕ} (h : s.returnLock k a = some t) : t.tab = s.tab := by
  obtain ⟨v, hv, h⟩ := of_bind h
  rw [← Option.some.inj h, unlock_tab, credit_tab hv]

theorem nextOp_tab (h : s.nextOp = some t) : t.tab = s.tab := by
  replace h := of_pass h
  cases h
  rfl

theorem answerClientOrder_tab (s : PrivateNote) (c : ℕ) (o : Option ℕ) :
    (s.answerClientOrder c o).tab = s.tab := by
  unfold answerClientOrder
  cases o <;> dsimp only <;> split_ifs <;> rfl

theorem dropPlaceClientOrder_tab (s : PrivateNote) : s.dropPlaceClientOrder.tab = s.tab := by
  unfold dropPlaceClientOrder
  split_ifs <;> rfl

theorem freeFrom_calm (h : v.Calm s.tab) : v.Calm (s.freeFrom m).tab := by
  unfold freeFrom
  split_ifs
  · exact h.free
  · exact h

theorem settleSellCandidate_calm (h : v.Calm s.tab) : v.Calm (s.settleSellCandidate m).tab := by
  unfold settleSellCandidate
  dsimp only
  split_ifs with hc
  · exact h.put ⟨rfl, rfl, .inl rfl⟩ fun hn => hn m hc.1
  · exact h

theorem stakeFor_quiet (s : PrivateNote) (m : MarketId) (n : ℕ) :
    (s.stakes.read m).Quiet (s.stakeFor m n) := by
  unfold stakeFor
  dsimp only
  split_ifs with hm
  · exact StakeInfo.padded_quiet _ n
  · have hr : s.stakes.read m = StakeInfo.empty := by
      unfold Mapping.has at hm
      unfold Mapping.read
      rw [Option.not_isSome_iff_eq_none.mp hm]
      rfl
    rw [hr]
    have h0 : StakeInfo.empty.Quiet
        { StakeInfo.empty with oracleListHash := m.oracleListHash, tokenType := m.tokenType } :=
      ⟨rfl, rfl, .inl rfl⟩
    exact h0.trans (StakeInfo.padded_quiet _ n)

theorem stakeFor_names (hn : s.tab.Named) (m : MarketId) (n : ℕ) : (s.stakeFor m n).Names m := by
  unfold stakeFor
  dsimp only
  split_ifs with hm
  · exact hn m hm
  · exact ⟨rfl, rfl⟩

theorem onOrderPlaced_calm {i x l c k : ℕ} {b : Bool} {f : UInt8} {p a n : ℕ}
    (h : s.onOrderPlaced caller m i x l c k b f p a n = some t) : s.tab.Calm t.tab := by
  replace h := of_pass h
  obtain ⟨u, hu, h⟩ := of_bind h
  replace hu := of_pass (of_pass hu)
  have hk : u.tab = s.tab := by
    cases hu
    exact answerClientOrder_tab s c (some i)
  rw [← Option.some.inj h, emit_tab]
  split_ifs
  · apply freeFrom_calm
    apply settleSellCandidate_calm
    rw [clearPlaceLock_tab]
    exact .of_eq hk
  · exact .of_eq hk

theorem rejectBuy_tab {f : UInt8} {p a n : ℕ} (h : s.rejectBuy m f p a n = some t) :
    t.tab = s.tab := by
  obtain ⟨_, _, h⟩ := of_bind h
  obtain ⟨u, hu, h⟩ := of_bind h
  rw [← Option.some.inj h, ← returnLock_tab hu]
  split_ifs <;> rfl

theorem rejectSell_calm {k a n : ℕ} (h : s.rejectSell m k a n = some t) : s.tab.Calm t.tab := by
  obtain ⟨x, _, h⟩ := of_bind h
  rw [← Option.some.inj h, putStake_tab]
  refine (Tab.Calm.refl _).put ((stakeFor_quiet s m n).trans ⟨rfl, rfl, ?_⟩)
    fun hn => stakeFor_names hn m n
  dsimp only
  split_ifs
  · exact .inl rfl
  · exact .inr ⟨rfl, rfl⟩

theorem onOrderRejected_calm {k : ℕ} {b : Bool} {f : UInt8} {p a o c n : ℕ}
    (h : s.onOrderRejected caller m k b f p a o c n = some t) : s.tab.Calm t.tab := by
  replace h := of_pass h
  obtain ⟨u, hu, h⟩ := of_bind h
  rw [← Option.some.inj h, emit_tab, ← answerClientOrder_tab s c none]
  rcases ite_eq_iff.mp hu with ⟨_, hu⟩ | ⟨_, hu⟩
  · exact .of_eq (rejectBuy_tab hu)
  · exact rejectSell_calm hu

theorem cancelSell_calm {k a : ℕ} (h : s.cancelSell m k a = some t) : s.tab.Calm t.tab := by
  rcases ite_eq_iff.mp h with ⟨hc, h⟩ | ⟨_, h⟩
  · obtain ⟨_, _, h⟩ := of_bind h
    rw [← Option.some.inj h, putStake_tab]
    exact (Tab.Calm.refl _).put ⟨rfl, rfl, .inr ⟨rfl, rfl⟩⟩ fun hn => hn m hc.1
  · exact .of_eq (by rw [Option.some.inj h])

theorem cancelBuy_tab {i a : ℕ} (h : s.cancelBuy m i a = some t) : t.tab = s.tab := by
  obtain ⟨_, _, h⟩ := of_bind h
  obtain ⟨u, hu, h⟩ := of_bind h
  rw [← Option.some.inj h, dropLocks_tab, returnLock_tab hu]

theorem onOrderCancelled_calm {i k : ℕ} {b : Bool} {a c n : ℕ}
    (h : s.onOrderCancelled caller m i k b a c n = some t) : s.tab.Calm t.tab := by
  replace h := of_pass h
  obtain ⟨u, hu, h⟩ := of_bind h
  have h0 : ((if c ≠ 0 then s.forgetClientOrder c else s).countClosed m).tab = s.tab := by
    rw [countClosed_tab]
    split_ifs <;> rfl
  have hk : s.tab.Calm u.tab := by
    rw [← h0]
    rcases ite_eq_iff.mp hu with ⟨_, hu⟩ | ⟨_, hu⟩
    · exact .of_eq (cancelBuy_tab hu)
    · exact cancelSell_calm hu
  rw [← Option.some.inj h, emit_tab]
  split_ifs
  · exact freeFrom_calm hk
  · exact hk

theorem consumeLock_tab {i a : ℕ} {b : Bool} (h : s.consumeLock m i a b = some t) :
    t.tab = s.tab := by
  rcases ite_eq_iff.mp h with ⟨_, h⟩ | ⟨_, h⟩
  · obtain ⟨u, hu, h⟩ := of_bind h
    obtain ⟨_, _, h⟩ := of_bind h
    rw [← Option.some.inj h, setPositions_tab, credit_tab hu]
  · obtain ⟨_, _, h⟩ := of_bind h
    rw [← Option.some.inj h, setPositions_tab]

theorem fillBuy_calm {k a p x f : ℕ} {b : Bool} {i : ℕ} {l : Bool} {o : ℕ}
    (h : s.fillBuy m k a p x f b i l o = some t) : s.tab.Calm t.tab := by
  obtain ⟨y, _, h⟩ := of_bind h
  obtain ⟨_, _, h⟩ := of_bind h
  obtain ⟨u, hu, h⟩ := of_bind h
  obtain ⟨_, _, h⟩ := of_bind h
  obtain ⟨_, _, h⟩ := of_bind h
  rw [consumeLock_tab h, credit_tab hu, setReserve_tab, putStake_tab]
  exact (Tab.Calm.refl _).put ((stakeFor_quiet s m o).trans ⟨rfl, rfl, .inr ⟨rfl, rfl⟩⟩)
    fun hn => stakeFor_names hn m o

theorem fillSell_tab {a p f : ℕ} {b : Bool} (h : s.fillSell m a p f b = some t) :
    t.tab = s.tab := by
  obtain ⟨_, _, h⟩ := of_bind h
  rcases ite_eq_iff.mp h with ⟨_, h⟩ | ⟨_, h⟩
  · obtain ⟨_, _, h⟩ := of_bind h
    exact credit_tab h
  · rcases ite_eq_iff.mp h with ⟨_, h⟩ | ⟨_, h⟩
    · exact credit_tab h
    · rw [Option.some.inj h]

theorem onOrderFilled_calm {k a p : ℕ} {b : Bool} {x f : ℕ} {d : Bool} {i : ℕ} {l : Bool}
    {o c : ℕ} (h : s.onOrderFilled caller m k a p b x f d i l o c = some t) :
    s.tab.Calm t.tab := by
  replace h := of_pass h
  obtain ⟨u, hu, h⟩ := of_bind h
  have h0 : (if l = true ∧ c ≠ 0 then s.forgetClientOrder c else s).tab = s.tab := by
    split_ifs <;> rfl
  have hk : s.tab.Calm u.tab := by
    rw [← h0]
    rcases ite_eq_iff.mp hu with ⟨_, hu⟩ | ⟨_, hu⟩
    · exact fillBuy_calm hu
    · exact .of_eq (fillSell_tab hu)
  rw [← Option.some.inj h, emit_tab]
  split_ifs
  · exact hk
  · exact hk

theorem onBatchComplete_calm {n : ℕ} (h : s.onBatchComplete caller m n = some t) :
    s.tab.Calm t.tab := by
  replace h := of_pass h
  cases h
  split_ifs
  · exact freeFrom_calm (.of_eq (clearBatch_tab s))
  · exact .refl _

theorem fromOrderBook_calm {cb : Callback} (h : s.fromOrderBook caller m cb = some t) :
    s.tab.Calm t.tab := by
  cases cb with
  | onOrderPlaced => exact onOrderPlaced_calm h
  | onOrderRejected => exact onOrderRejected_calm h
  | onOrderCancelled => exact onOrderCancelled_calm h
  | onOrderFilled => exact onOrderFilled_calm h
  | onBatchComplete => exact onBatchComplete_calm h

end Tab

end PrivateNote

end Dexdo
