import Dexdo.OrderBook.Says
import Dexdo.PrivateNote.Waiting

namespace Dexdo

/-- Messages a note sends to an order book. -/
inductive Request
  | executeBatch (depositIdentifierHash : ℕ) (orders : List PlaceParams) (cancelIds : List ℕ)
      (opNonce : ℕ)
  | cancelAllOrders (depositIdentifierHash opNonce : ℕ)
  deriving DecidableEq

namespace Request

def depositIdentifierHash : Request → ℕ
  | executeBatch h _ _ _ | cancelAllOrders h _ => h

def opNonce : Request → ℕ
  | executeBatch _ _ _ n | cancelAllOrders _ n => n

/-- The call the book of the message processes. -/
def call (sender : Addr) (now : ℕ) : Request → Call
  | executeBatch h orders ids n => .executeBatch sender now h orders ids n
  | cancelAllOrders h n => .cancelAllOrders sender now h n

/-- Orders a request places. -/
def orders : Request → List PlaceParams
  | executeBatch _ orders _ _ => orders
  | cancelAllOrders .. => []

/-- Orders and cancellations in the message. -/
def entries : Request → ℕ
  | executeBatch _ orders ids _ => orders.length + ids.length
  | cancelAllOrders .. => 1

end Request

/-- The request among the messages of a note. -/
def NoteAction.request? : NoteAction → Option (MarketId × Request)
  | .executeBatch m h orders ids n => some (m, .executeBatch h orders ids n)
  | .cancelAllOrders m h n => some (m, .cancelAllOrders h n)
  | _ => none

/-- What ties a note to its order books: the operation in flight, the counts of its open orders,
and the messages its transaction sends them. -/
structure Ties where
  busy : Option Addr
  opNonce : ℕ
  busyOpNonce : ℕ
  pendingBatchActive : Bool
  openOrderCount : ℕ
  openOrdersByEvent : Mapping MarketId ℕ
  owner : ℕ
  requests : List (MarketId × Request)

namespace Ties

def occupy (v : Ties) (dest : Addr) : Ties := { v with busy := some dest }

def free (v : Ties) : Ties := { v with busy := none }

/-- The latch is released with its nonce. -/
def freeOp (v : Ties) : Ties := { v with busy := none, busyOpNonce := 0 }

/-- A book releases the latch it holds. -/
def freeFrom (m : MarketId) (v : Ties) : Ties :=
  if v.busy = some (.orderBook m) then v.freeOp else v

/-- Answer to operation `n` from the book of `m`; a batch waits for its acknowledgement. -/
def answered (m : MarketId) (n : ℕ) (v : Ties) : Ties :=
  if v.pendingBatchActive = false ∧ n = v.busyOpNonce then v.freeFrom m else v

/-- One more order rests in the book. -/
def opened (m : MarketId) (v : Ties) : Ties :=
  { v with
    openOrderCount := v.openOrderCount + 1
    openOrdersByEvent := AList.insert m (v.openOrdersByEvent.read m + 1) v.openOrdersByEvent }

/-- One order fewer rests in the book. -/
def closed (m : MarketId) (v : Ties) : Ties :=
  { v with
    openOrderCount := v.openOrderCount - 1
    openOrdersByEvent := if 0 < v.openOrdersByEvent.read m then
        AList.insert m (v.openOrdersByEvent.read m - 1) v.openOrdersByEvent
      else v.openOrdersByEvent }

/-- What a notice of the book of `m` does to the ties. -/
def hear (m : MarketId) (v : Ties) : Notice → Ties
  | .placed n => (v.opened m).answered m n
  | .rejected _ => v
  | .cancelled n => (v.closed m).answered m n
  | .filled isFinal => if isFinal then v.closed m else v
  | .complete n =>
    if n = v.busyOpNonce then { v with pendingBatchActive := false }.freeFrom m else v

/-- A message to the book of `m` takes the latch under a fresh nonce. -/
def send (m : MarketId) (r : Request) (batch : Bool) (v : Ties) : Ties :=
  { v with
    busy := some (.orderBook m)
    opNonce := v.opNonce + 1
    busyOpNonce := v.opNonce + 1
    pendingBatchActive := batch
    requests := v.requests ++ [(m, r)] }

end Ties

namespace PrivateNote

/-- Latch, nonces and open orders of a note. -/
def ties (s : PrivateNote) : Ties where
  busy := s.busy
  opNonce := s.opNonce
  busyOpNonce := s.busyOpNonce
  pendingBatchActive := s.pendingBatchActive
  openOrderCount := s.openOrderCount
  openOrdersByEvent := s.openOrdersByEvent
  owner := s.depositIdentifierHash
  requests := s.actions.filterMap NoteAction.request?

/-- The transaction leaves the ties to the order books alone. -/
def Untied (s t : PrivateNote) : Prop := t.ties = s.ties

variable {s t u : PrivateNote} {e : NoteEnv} {m : MarketId} {caller : Caller}

theorem act_ties {a : NoteAction} (h : a.request? = none) : (s.act a).ties = s.ties := by
  simp [ties, act, List.filterMap_append, h]

@[simp] theorem emit_ties (s : PrivateNote) (x : NoteEvent) : (s.emit x).ties = s.ties :=
  act_ties rfl

@[simp] theorem setFunds_ties (s : PrivateNote) (f : Funds) : (s.setFunds f).ties = s.ties := rfl

@[simp] theorem putStake_ties (s : PrivateNote) (m : Option MarketId) (r : StakeInfo) :
    (s.putStake m r).ties = s.ties := by
  cases m <;> rfl

@[simp] theorem dropStake_ties (s : PrivateNote) (m : Option MarketId) :
    (s.dropStake m).ties = s.ties := by
  cases m <;> rfl

@[simp] theorem occupy_ties (s : PrivateNote) (d : Addr) (m : MarketId) :
    (s.occupy d m).ties = s.ties.occupy d := rfl

@[simp] theorem free_ties (s : PrivateNote) : s.free.ties = s.ties.free := rfl

@[simp] theorem freeOp_ties (s : PrivateNote) : s.freeOp.ties = s.ties.freeOp := rfl

theorem Untied.act {a : NoteAction} (h : s.Untied u) (ha : a.request? = none) :
    s.Untied (u.act a) := (act_ties ha).trans h

theorem Untied.emit (h : s.Untied u) (x : NoteEvent) : s.Untied (u.emit x) := (emit_ties u x).trans h

theorem credit_ties (s : PrivateNote) (k a : ℕ) : Ensures (s.credit k a) s.Untied :=
  .any fun _ => .pure rfl

theorem debit_ties (s : PrivateNote) (k a : ℕ) : Ensures (s.debit k a) s.Untied :=
  .any fun _ => .pure rfl

theorem creditPositive_ties (s : PrivateNote) (k a : ℕ) :
    Ensures (s.creditPositive k a) s.Untied :=
  .ite (fun _ => credit_ties s k a) fun _ => .pure rfl

theorem returnCoupon_ties (s : PrivateNote) (k a : ℕ) : Ensures (s.returnCoupon k a) s.Untied :=
  .ite (fun _ => .any fun _ => .pure rfl) fun _ => .pure rfl

section Untied

theorem changeOwner_ties (k : ℕ) : Ensures (s.changeOwner k) s.Untied :=
  .check fun _ => .pure (emit_ties _ _)

theorem touchDeal_ties (d : Addr) : Ensures (s.touchDeal e d) s.Untied :=
  .check fun _ => .check fun _ => .pure (act_ties rfl)

theorem deployInferenceOrderBook_ties (x : ℕ) (n : String) :
    Ensures (s.deployInferenceOrderBook x n) s.Untied :=
  .check fun _ => .pure (act_ties rfl)

theorem postSellOffer_ties (f n l : ℕ) : Ensures (s.postSellOffer e f n l) s.Untied :=
  .check fun _ => .check fun _ => .check fun _ => .pure (act_ties rfl)

theorem openPending_ties (s : PrivateNote) (x : ℕ) : Ensures (s.openPending x) s.Untied :=
  .check fun _ => .pure rfl

theorem placeInferenceBuy_ties (x p k a f d : ℕ) :
    Ensures (s.placeInferenceBuy e x p k a f d) s.Untied := by
  refine .check fun _ => .check fun _ => (debit_ties s _ a).bind fun u hu => ?_
  refine .any fun _ => .check fun _ => (openPending_ties u a).bind fun v hv => .pure ?_
  exact (act_ties rfl).trans (hv.trans hu)

theorem sendBond_ties (d : Addr) (b : ℕ) : Ensures (s.sendBond e d b) s.Untied :=
  (debit_ties s _ b).bind fun _ hu => .any fun _ => .pure (hu.act rfl)

theorem streamCall_ties (d : Addr) (c : DealCall) : Ensures (s.streamCall e d c) s.Untied :=
  .any fun _ => .pure (act_ties rfl)

theorem fundBuyerBondNow_ties (d : Addr) (b : ℕ) : Ensures (s.fundBuyerBondNow e d b) s.Untied :=
  .check fun _ => .check fun _ => .check fun _ => sendBond_ties d b

theorem fundDeal_ties (n g a : ℕ) (c : Option (List ℕ)) : Ensures (s.fundDeal n g a c) s.Untied :=
  .check fun _ => .check fun _ => (debit_ties s _ a).bind fun _ hu => .pure (hu.act rfl)

theorem fundDeployShell_ties (s : PrivateNote) (n a : ℕ) : s.Untied (s.fundDeployShell n a) := by
  unfold fundDeployShell
  split_ifs
  · exact act_ties rfl
  · rfl

theorem deployDeal_ties (n : ℕ) (name : String) (x p k g : ℕ) :
    Ensures (s.deployDeal n name x p k g) s.Untied :=
  .check fun _ => .pure (act_ties rfl)

theorem generateCoupon_ties (k : ℕ) : Ensures (s.generateCoupon k) s.Untied :=
  .check fun _ => .check fun _ => .check fun _ => .check fun _ => .check fun _ => .check fun _ =>
    .check fun _ => .check fun _ => .pure rfl

theorem discardCoupon_ties : Ensures s.discardCoupon s.Untied :=
  .check fun _ => .check fun _ => .pure rfl

theorem withdrawTokens_ties (d : Addr) (x : ℕ) : Ensures (s.withdrawTokens e d x) s.Untied :=
  .check fun _ => .check fun _ => .check fun _ => .check fun _ => .check fun _ => .any fun _ =>
    .pure ((setFunds_ties _ _).trans (act_ties rfl))

theorem sweepShell_ties (d : Addr) : Ensures (s.sweepShell e d) s.Untied :=
  .check fun _ => .any fun _ => .check fun _ => .pure (act_ties rfl)

theorem offerTransfer_ties (k a x : ℕ) : Ensures (s.offerTransfer e k a x) s.Untied :=
  .check fun _ => .check fun _ => (credit_ties s k a).bind fun _ hu =>
    .pure ((hu.emit _).act rfl)

theorem revertWithdraw_ties (l : List (ℕ × ℕ)) : Ensures (s.revertWithdraw e l) s.Untied := by
  refine .check fun _ => .bind (P := s.Untied) (.foldlM (fun u x hu => ?_) rfl) fun u hu => .pure hu
  exact (credit_ties u x.1 x.2).mono fun v hv => Eq.trans hv hu

theorem onInferencePlaced_ties (x : ℕ) (d : Addr) (i c : ℕ) (b : Bool) (p k : ℕ) :
    Ensures (s.onInferencePlaced e x d i c b p k) s.Untied :=
  .check fun _ => .pure (emit_ties _ _)

theorem onInferenceOrderRemoved_ties (x i c r : ℕ) :
    Ensures (s.onInferenceOrderRemoved e x i c r) s.Untied := by
  refine .check fun _ => .pure ((emit_ties _ _).trans ?_)
  split_ifs <;> rfl

theorem spendPending_ties (s : PrivateNote) (c x : ℕ) : s.Untied (s.spendPending c x) := by
  unfold spendPending Untied
  dsimp only
  split_ifs <;> rfl

theorem postBond_ties (d : Addr) (p : ℕ) : Ensures (s.postBond e d p) s.Untied :=
  .any fun _ => .any fun _ => .ite (fun _ => sendBond_ties d _) fun _ => .pure rfl

theorem onInferenceFilled_ties (x : ℕ) (d : Addr) (i c k p z : ℕ) (b : Bool) :
    Ensures (s.onInferenceFilled e x d i c k p z b) s.Untied := by
  have h0 (f : Inference) (n : NoteEvent) :
      s.Untied (((s.setInference f).spendPending c z).emit n) :=
    Untied.emit (spendPending_ties (s.setInference f) c z) n
  refine .check fun _ => .ite (fun _ => ?_) fun _ => .pure (h0 _ _)
  exact (postBond_ties d p).mono fun v hv => Eq.trans hv (h0 _ _)

theorem onInferenceRejected_ties (x c k r : ℕ) :
    Ensures (s.onInferenceRejected e x c k r) s.Untied :=
  .check fun _ => (creditPositive_ties s _ _).bind fun _ hu => .pure ((emit_ties _ _).trans hu)

theorem closeDeal_ties (s : PrivateNote) (d : Addr) : s.Untied (s.closeDeal d) := by
  unfold closeDeal
  split_ifs
  · exact emit_ties _ _
  · rfl

theorem onDealClosed_ties (s : PrivateNote) (e : NoteEnv) : s.Untied (s.onDealClosed e) := by
  unfold onDealClosed
  split
  · exact closeDeal_ties s _
  · rfl

theorem creditFromDeal_ties (a k n : ℕ) : Ensures (s.creditFromDeal e a k n) s.Untied :=
  .ite (fun _ => .pure rfl) fun _ => .check fun _ => (credit_ties s _ a).bind fun _ hu =>
    .pure (hu.emit _)

theorem creditFromBook_ties (a x : ℕ) : Ensures (s.creditFromBook e a x) s.Untied :=
  .ite (fun _ => .pure rfl) fun _ => .check fun _ => (credit_ties s _ a).bind fun _ hu =>
    .pure (hu.emit _)

theorem acceptFee_ties (f : ℕ) : Ensures (s.acceptFee caller m f) s.Untied :=
  .check fun _ => .ite (fun _ => .pure rfl) fun _ => credit_ties s _ f

theorem cleanRefund_ties (l : List ℕ) (x : ℕ) : Ensures (s.cleanRefund m l x) s.Untied := by
  refine .ite (fun _ => .any fun _ => ?_) fun _ => .pure rfl
  exact (credit_ties _ _ _).mono fun v hv => Eq.trans hv (putStake_ties s _ _)

theorem onPmpCleanRefund_ties (l : List ℕ) (x : ℕ) :
    Ensures (s.onPmpCleanRefund caller m l x) s.Untied :=
  .check fun _ => (cleanRefund_ties l x).bind fun _ hu => .pure (hu.act rfl)

theorem onBounce_ties {a : Addr} {body : BouncedBody} (hb : body ≠ .other) :
    Ensures (s.onBounce a body) s.Untied := by
  cases body with
  | placeBuyOrder => exact (credit_ties _ _ _).mono fun v hv => hv
  | touchDeal => exact .pure (closeDeal_ties s a)
  | fundDeal x => exact credit_ties s _ x
  | fundBuyerBond x => exact credit_ties s _ x
  | other => exact absurd rfl hb

end Untied

/-- No order book holds the latch. -/
def Elsewhere (busy : Option Addr) : Prop := ∀ m, busy ≠ some (.orderBook m)

theorem elsewhere_none : Elsewhere none := fun _ h => absurd h (by simp)

theorem elsewhere_pmp (m : MarketId) : Elsewhere (some (.pmp m)) := fun _ h => absurd h (by simp)

theorem elsewhere_note (h : ℕ) : Elsewhere (some (.note h)) := fun _ h => absurd h (by simp)

/-- The transaction begins no operation on an order book, and the counts of the open orders stay. -/
structure Steady (s t : PrivateNote) : Prop where
  opNonce : t.opNonce = s.opNonce
  openOrderCount : t.openOrderCount = s.openOrderCount
  openOrdersByEvent : t.openOrdersByEvent = s.openOrdersByEvent
  owner : t.depositIdentifierHash = s.depositIdentifierHash
  requests : t.ties.requests = s.ties.requests

/-- A transaction that has nothing to do with the order books: no operation on one ends either. -/
structure Aside (s t : PrivateNote) : Prop extends Steady s t where
  latch : (t.busy = s.busy ∧ t.busyOpNonce = s.busyOpNonce ∧
    t.pendingBatchActive = s.pendingBatchActive) ∨ Elsewhere s.busy ∧ Elsewhere t.busy

theorem Steady.of_ties {busy : Option Addr} {n : ℕ} {b : Bool}
    (h : t.ties = { s.ties with busy := busy, busyOpNonce := n, pendingBatchActive := b }) :
    s.Steady t :=
  ⟨congrArg Ties.opNonce h, congrArg Ties.openOrderCount h, congrArg Ties.openOrdersByEvent h,
    congrArg Ties.owner h, by rw [h]⟩

theorem Untied.aside (h : s.Untied t) : s.Aside t where
  toSteady := .of_ties (n := s.busyOpNonce) (b := s.pendingBatchActive) h
  latch := .inl ⟨congrArg Ties.busy h, congrArg Ties.busyOpNonce h,
    congrArg Ties.pendingBatchActive h⟩

theorem Aside.taken {d : Addr} (h : t.ties = s.ties.occupy d) (hb : s.busy.isNone = true)
    (hd : Elsewhere (some d)) : s.Aside t where
  toSteady := .of_ties (n := s.busyOpNonce) (b := s.pendingBatchActive) h
  latch := by
    refine .inr ⟨?_, ?_⟩
    · rw [Option.isNone_iff_eq_none.mp hb]
      exact elsewhere_none
    · rw [show t.busy = some d from congrArg Ties.busy h]
      exact hd

theorem Aside.released (h : t.ties = s.ties.free ∨ t.ties = s.ties.freeOp)
    (hs : Elsewhere s.busy) : s.Aside t where
  toSteady := by
    rcases h with h | h
    · exact .of_ties (n := s.busyOpNonce) (b := s.pendingBatchActive) h
    · exact .of_ties (n := 0) (b := s.pendingBatchActive) h
  latch := by
    refine .inr ⟨hs, ?_⟩
    rw [show t.busy = none by rcases h with h | h <;> exact congrArg Ties.busy h]
    exact elsewhere_none

section Operations

theorem setStake_aside (k a : ℕ) (c : Bool) : Ensures (s.setStake m k a c) s.Aside := by
  refine .check fun _ => .check fun _ => .check fun _ => .check fun hb => .any fun r => ?_
  have hpay : Ensures (s.payStake m.tokenType a c) s.Untied :=
    .ite (fun _ => .check fun _ => .any fun _ => .pure rfl) fun _ => debit_ties s _ a
  refine hpay.bind fun u hu => .pure (.taken ?_ hb (elsewhere_pmp m))
  rw [act_ties rfl, occupy_ties, putStake_ties, hu]

theorem deployPMP_aside (i : ℕ) (f : List ℕ) (k : ℕ) (n x a : List ℕ) :
    Ensures (s.deployPMP i f k n x a) s.Aside := by
  refine .check fun _ => .check fun _ => .check fun _ => .check fun _ => .check fun _ =>
    .check fun _ => .check fun _ => .check fun _ => .any fun t => .check fun hb => .any fun y =>
    .check fun _ => .any fun z => .check fun _ => (debit_ties s k t).bind fun u hu => .pure ?_
  refine .taken ?_ hb (elsewhere_pmp ⟨i, oracleListHashOf n, k⟩)
  rw [act_ties rfl, emit_ties, occupy_ties, putStake_ties, hu]

theorem deleteStake_aside : Ensures (s.deleteStake m) s.Aside :=
  .check fun hb => .check fun _ => .check fun _ => .pure
    (.taken (act_ties rfl) hb (elsewhere_pmp _))

theorem cancelStake_aside : Ensures (s.cancelStake m) s.Aside :=
  .check fun _ => .check fun hb => .check fun _ => .check fun _ => .pure
    (.taken (act_ties rfl) hb (elsewhere_pmp _))

theorem claim_aside : Ensures (s.claim m) s.Aside :=
  .check fun _ => .check fun _ => .check fun hb => .check fun _ => .check fun _ => .pure
    (.taken (act_ties rfl) hb (elsewhere_pmp _))

theorem mergeFullSet_aside (a : List ℕ) : Ensures (s.mergeFullSet m a) s.Aside := by
  refine .check fun hb => .check fun _ => .check fun _ => .check fun _ => .check fun _ =>
    .check fun _ => .any fun x => .any fun y => .pure (.taken ?_ hb (elsewhere_pmp m))
  rw [act_ties rfl, occupy_ties, putStake_ties]

theorem splitFullSet_aside (c : ℕ) : Ensures (s.splitFullSet m c) s.Aside := by
  refine .check fun hb => .check fun _ => .check fun _ => .check fun _ =>
    (debit_ties s _ c).bind fun u hu => .pure (.taken ?_ hb (elsewhere_pmp m))
  rw [act_ties rfl, putStake_ties, occupy_ties, hu]

theorem initTransfer_aside (d k a x : ℕ) : Ensures (s.initTransfer e d k a x) s.Aside := by
  refine .check fun _ => .check fun hb => .check fun _ => .check fun _ => .check fun _ =>
    .check fun _ => .check fun _ => .check fun _ => (debit_ties s k a).bind fun u hu =>
    .any fun _ => .check fun _ => .pure (.taken ?_ hb (elsewhere_note d))
  rw [act_ties rfl, emit_ties, ← hu]
  rfl

theorem latched_elsewhere (hc : ∀ m, caller.isSender (.orderBook m) = false)
    (h : s.latched caller = true) : Elsewhere s.busy := by
  intro m hm
  have h' : caller.isSender (.orderBook m) = true := by simpa [latched, hm] using h
  exact Bool.noConfusion ((hc m).symm.trans h')

theorem refundStake_ties (x : ℕ) : Ensures (s.refundStake m x) s.Untied := by
  refine .ite (fun _ => ?_) fun _ => .pure rfl
  rw [Option.map_eq_bind]
  exact (credit_ties s _ x).bind fun u hu => .pure ((dropStake_ties u (some m)).trans hu)

theorem onInitialStakesFailed_aside (x : ℕ) :
    Ensures (s.onInitialStakesFailed caller m x) s.Aside := by
  refine .check fun _ => (refundStake_ties x).bind fun u hu => .pure ?_
  split_ifs with hb
  · refine .released (.inl ((free_ties u).trans (congrArg Ties.free hu))) ?_
    rw [show s.busy = u.busy from (congrArg Ties.busy hu).symm, hb]
    exact elsewhere_pmp m
  · exact Untied.aside hu

section Latched

variable (hc : ∀ m, caller.isSender (.orderBook m) = false)

include hc

theorem onInitialStakesAccepted_aside (a : List ℕ) :
    Ensures (s.onInitialStakesAccepted caller m a) s.Aside := by
  refine .check fun hl => .check fun _ => .pure (.released (.inl ?_) (latched_elsewhere hc hl))
  rw [free_ties, putStake_ties]

theorem onForfeitAccepted_aside : Ensures (s.onForfeitAccepted caller) s.Aside := by
  refine .check fun hl => .pure (.released (.inr ?_) (latched_elsewhere hc hl))
  rw [freeOp_ties]
  exact congrArg Ties.freeOp ((dropStake_ties _ _).trans (emit_ties s _))

theorem onStakeCancelled_aside (v c : ℕ) :
    Ensures (s.onStakeCancelled caller m v c) s.Aside := by
  refine .check fun hl => (credit_ties (s.dropStake (some m)) _ v).bind fun u hu =>
    (returnCoupon_ties u _ c).bind fun w hw => .pure (.released (.inl ?_) (latched_elsewhere hc hl))
  rw [free_ties, emit_ties, hw, hu, dropStake_ties]

theorem onSplitAccepted_aside (a : List ℕ) (x : ℕ) :
    Ensures (s.onSplitAccepted caller m a x) s.Aside := by
  refine .check fun hl => .any fun y => (creditPositive_ties s _ _).bind fun u hu =>
    .pure (.released (.inl ?_) (latched_elsewhere hc hl))
  rw [free_ties, emit_ties, putStake_ties, hu]

theorem onMergeAccepted_aside (x : ℕ) (a : List ℕ) :
    Ensures (s.onMergeAccepted caller m x a) s.Aside := by
  refine .check fun hl => .any fun y => (credit_ties _ _ x).bind fun u hu =>
    .pure (.released (.inl ?_) (latched_elsewhere hc hl))
  rw [free_ties, emit_ties, hu]
  split_ifs
  · rw [dropStake_ties]
  · rw [putStake_ties]

theorem onStakeAccepted_aside (n : ℕ) (b : BetType) :
    Ensures (s.onStakeAccepted caller m n b) s.Aside := by
  refine .check fun hl => .any fun y => .pure (.released (.inl ?_) (latched_elsewhere hc hl))
  rw [free_ties, emit_ties, putStake_ties]

theorem onClaimAccepted_aside (o : Option ℕ) (a d z p : ℕ) :
    Ensures (s.onClaimAccepted caller m o a d z p) s.Aside := by
  refine .check fun hl => .ite (fun _ => .pure ?_) fun _ => .any fun x =>
    (credit_ties s _ x).bind fun u hu => .any fun y => .pure ?_
  · exact .released (.inl (free_ties s)) (latched_elsewhere hc hl)
  · refine .released (.inl ?_) (latched_elsewhere hc hl)
    rw [free_ties, dropStake_ties, emit_ties, setFunds_ties, hu]

/-- A callback of a PMP leaves the books aside. -/
theorem fromPMP_aside (cb : PmpCallback) : Ensures (s.fromPMP caller m cb) s.Aside := by
  cases cb with
  | onInitialStakesAccepted a => exact onInitialStakesAccepted_aside hc a
  | onInitialStakesFailed x => exact onInitialStakesFailed_aside x
  | onPmpCleanRefund a x => exact (onPmpCleanRefund_ties a x).mono fun _ => Untied.aside
  | onForfeitAccepted => exact onForfeitAccepted_aside hc
  | onStakeCancelled v c => exact onStakeCancelled_aside hc v c
  | onSplitAccepted a x => exact onSplitAccepted_aside hc a x
  | onMergeAccepted x a => exact onMergeAccepted_aside hc x a
  | onStakeAccepted n b => exact onStakeAccepted_aside hc n b
  | onClaimAccepted o a d z p => exact onClaimAccepted_aside hc o a d z p
  | acceptFee f => exact (acceptFee_ties f).mono fun _ => Untied.aside

theorem onTransferAccepted_aside (he : e.caller = caller) :
    Ensures (s.onTransferAccepted e) s.Aside := by
  refine .check fun hl => .pure (.released (.inl rfl) ?_)
  rw [he] at hl
  exact latched_elsewhere hc hl

end Latched

theorem returnLock_ties (k x : ℕ) : Ensures (s.returnLock k x) s.Untied :=
  (credit_ties s k x).bind fun _ hu => .pure hu

theorem restoreBatchLock_ties : Ensures s.restoreBatchLock s.Untied :=
  .ite (fun _ => returnLock_ties _ _) fun _ => .pure rfl

theorem restoreBatchSells_ties : Ensures s.restoreBatchSells s.Untied := by
  unfold restoreBatchSells
  split
  · exact .ite (fun _ => .any fun _ => .pure (putStake_ties s _ _)) fun _ => .pure rfl
  · exact .pure rfl

theorem forgetClientOrders_ties (l : List ℕ) (s : PrivateNote) :
    (l.foldl forgetClientOrder s).ties = s.ties := by
  induction l generalizing s with
  | nil => rfl
  | cons c l ih =>
    rw [List.foldl_cons, ih]
    rfl

@[simp] theorem dropPlaceClientOrder_ties (s : PrivateNote) :
    s.dropPlaceClientOrder.ties = s.ties := by
  unfold dropPlaceClientOrder
  split_ifs <;> rfl

theorem restoreCandidate_ties (r : StakeInfo) :
    Ensures (s.restoreCandidate r) fun x => s.Untied x.1 := by
  unfold restoreCandidate
  cases r.candidateBetType with
  | coupon => exact (returnCoupon_ties s _ _).bind fun u hu => .pure hu
  | obSell => exact .any fun _ => .pure (dropPlaceClientOrder_ties s)
  | merge => exact .pure rfl
  | clean => exact (credit_ties s _ _).bind fun u hu => .pure hu
  | debt => exact (credit_ties s _ _).bind fun u hu => .pure hu

/-- The message that holds the latch has bounced, and the operation is over. -/
def Ended (s t : PrivateNote) : Prop :=
  t.ties = s.ties.free ∨ t.ties = s.ties.freeOp ∨
    t.ties = { s.ties with pendingBatchActive := false }.freeOp

theorem Ended.steady (h : s.Ended t) : s.Steady t ∧ t.busy = none := by
  rcases h with h | h | h
  · exact ⟨.of_ties (n := s.busyOpNonce) (b := s.pendingBatchActive) h, congrArg Ties.busy h⟩
  · exact ⟨.of_ties (n := 0) (b := s.pendingBatchActive) h, congrArg Ties.busy h⟩
  · exact ⟨.of_ties (n := 0) (b := false) h, congrArg Ties.busy h⟩

theorem dropForfeit_ended : s.Ended s.dropForfeit := by
  have h (u : PrivateNote) (d : Option MarketId) :
      ((u.dropStake d).setPending { u.toPending with pendingForfeit := false }).ties = u.ties := by
    cases d <;> rfl
  refine .inr (.inl ((freeOp_ties _).trans (congrArg Ties.freeOp ?_)))
  exact (h _ _).trans (emit_ties s _)

theorem restoreBatch_ended : Ensures s.restoreBatch s.Ended := by
  refine restoreBatchLock_ties.bind fun u hu => restoreBatchSells_ties.bind fun v hv => .pure ?_
  have h := (forgetClientOrders_ties v.pendingBatchClientOrderIds v).trans (Eq.trans hv hu)
  refine .inr (.inr ((freeOp_ties _).trans (congrArg Ties.freeOp ?_)))
  rw [← h]
  rfl

theorem restorePlaceBuy_ended : Ensures s.restorePlaceBuy s.Ended := by
  refine (returnLock_ties _ _).bind fun u hu => .pure (.inr (.inl ?_))
  rw [freeOp_ties, ← hu, ← dropPlaceClientOrder_ties u]
  rfl

theorem restoreTransfer_ended : Ensures s.restoreTransfer s.Ended := by
  refine (credit_ties s _ _).bind fun u hu => .pure (.inl ?_)
  rw [← hu]
  rfl

theorem restoreStake_ended : Ensures s.restoreStake s.Ended := by
  refine (restoreCandidate_ties _).bind fun x hx => .pure (.inr (.inl ?_))
  split_ifs
  · rw [dropStake_ties, hx, freeOp_ties]
  · rw [putStake_ties, hx, freeOp_ties]

theorem bounceOp_ended : Ensures s.bounceOp s.Ended :=
  .ite (fun _ => .pure dropForfeit_ended) fun _ => .ite (fun _ => restoreBatch_ended) fun _ =>
    .ite (fun _ => restorePlaceBuy_ended) fun _ => .ite (fun _ => restoreTransfer_ended) fun _ =>
      restoreStake_ended

/-- The note has made the sum of the lock the book will make. -/
def Summed (p : PlaceParams) : Prop := (OrderBook.placeLock p).isSome = true

theorem buyLock_summed {p : PlaceParams} (hb : p.isBuy = true) :
    Ensures (buyLock p.flags p.price p.amount) fun _ => Summed p := by
  refine .bind (P := fun cost => cost = OrderBook.placeCost p) ?_ fun cost hc => ?_
  · unfold OrderBook.placeCost PlaceParams.isMarket
    refine .ite (fun hm => .pure (if_pos hm).symm) fun hm => .check fun _ => ?_
    intro c hc
    rw [if_neg hm, (cast128_eq_some.mp hc).2]
  · refine .bind (P := fun fee => fee = takerFeeOf cost) (fun f hf => (cast128_eq_some.mp hf).2.symm)
      fun fee hf l hl => ?_
    rw [Summed, OrderBook.placeLock, if_pos hb, ← hc, ← hf, hl]
    rfl

theorem sell_summed {p : PlaceParams} (hb : ¬ p.isBuy = true) : Summed p := by
  rw [Summed, OrderBook.placeLock, if_neg hb]
  rfl

/-- The transaction takes the latch for the book of `m` and sends it `r`. -/
structure Sends (s t : PrivateNote) (m : MarketId) (r : Request) : Prop where
  before : s.busy = none
  ties : ∃ b, t.ties = s.ties.send m r b ∧ (b = false → r.entries ≤ 1)
  owner : r.depositIdentifierHash = s.depositIdentifierHash
  opNonce : r.opNonce = s.opNonce + 1
  summed : ∀ p ∈ r.orders, Summed p

theorem act_request {a : NoteAction} {x : MarketId × Request} (h : a.request? = some x) :
    (s.act a).ties = { s.ties with requests := s.ties.requests ++ [x] } := by
  simp [ties, act, List.filterMap_append, h]

theorem nextOp_ties : Ensures s.nextOp fun t =>
    t.ties = { s.ties with opNonce := s.opNonce + 1, busyOpNonce := s.opNonce + 1 } :=
  .check fun _ => .pure rfl

theorem Sends.of_ties {b : Bool} {r : Request} (hu : u.ties = { s.ties with pendingBatchActive := b })
    (hb : s.busy.isNone = true) (hr : b = false → r.entries ≤ 1)
    (ho : r.depositIdentifierHash = u.depositIdentifierHash) (hn : r.opNonce = u.opNonce + 1)
    (hp : ∀ p ∈ r.orders, Summed p) (ht : t.ties = u.ties.send m r b) : s.Sends t m r where
  before := Option.isNone_iff_eq_none.mp hb
  ties := by
    refine ⟨b, ?_, hr⟩
    rw [ht, hu]
    rfl
  owner := ho.trans (congrArg Ties.owner hu)
  opNonce := by
    rw [hn, show u.opNonce = s.opNonce from congrArg Ties.opNonce hu]
  summed := hp

/-- A batch is one request with the next nonce. -/
theorem sendBatch_sends {b : Bool} {orders : List PlaceParams} {ids : List ℕ}
    (hu : u.ties = { s.ties with pendingBatchActive := b }) (hb : s.busy.isNone = true)
    (hone : b = false → orders.length + ids.length ≤ 1) (hp : ∀ p ∈ orders, Summed p) :
    Ensures (u.sendBatch m orders ids) fun t => ∃ r, s.Sends t m r := by
  refine nextOp_ties.bind fun v hv => .pure ?_
  have ho : v.depositIdentifierHash = u.depositIdentifierHash := congrArg Ties.owner hv
  have hn : v.opNonce = u.opNonce + 1 := congrArg Ties.opNonce hv
  refine ⟨_, .of_ties (r := .executeBatch v.depositIdentifierHash orders ids v.opNonce) hu hb hone
    ho hn hp ?_⟩
  obtain rfl : u.pendingBatchActive = b := congrArg Ties.pendingBatchActive hu
  rw [act_request rfl, hv]
  rfl

theorem cancelAllOrders_sends : Ensures (s.cancelAllOrders m) fun t => ∃ r, s.Sends t m r := by
  refine .check fun hb => nextOp_ties.bind fun v hv => .pure ?_
  have ho : v.depositIdentifierHash = s.depositIdentifierHash := congrArg Ties.owner hv
  have hn : v.opNonce = s.opNonce + 1 := congrArg Ties.opNonce hv
  refine ⟨_, .of_ties (u := s.setPending { s.toPending with pendingBatchActive := true })
    (r := .cancelAllOrders v.depositIdentifierHash v.opNonce) rfl hb (fun _ => le_rfl) ho hn
    (fun _ hp => absurd hp List.not_mem_nil) ?_⟩
  rw [act_request rfl, hv]
  rfl

theorem cancelOrder_sends (i : ℕ) : Ensures (s.cancelOrder m i) fun t => ∃ r, s.Sends t m r :=
  .check fun hb => sendBatch_sends (b := s.pendingBatchActive) rfl hb (fun _ => le_rfl)
    fun _ hp => absurd hp List.not_mem_nil

theorem cancelOrderByClient_sends (c : ℕ) :
    Ensures (s.cancelOrderByClient m c) fun t => ∃ r, s.Sends t m r :=
  .check fun hb => .check fun _ => .any fun _ => .check fun _ =>
    sendBatch_sends (b := s.pendingBatchActive) rfl hb (fun _ => le_rfl)
      fun _ hp => absurd hp List.not_mem_nil

theorem reserveClientOrder_ties (c : ℕ) : Ensures (s.reserveClientOrder c) s.Untied :=
  .check fun _ => .pure rfl

theorem reservePlace_ties (c : ℕ) : Ensures (s.reservePlace c) s.Untied :=
  .ite (fun _ => .pure rfl) fun _ => (reserveClientOrder_ties c).bind fun _ hu => .pure hu

theorem lockBalance_ties (s : PrivateNote) (k x : ℕ) : Ensures (s.lockBalance k x) s.Untied :=
  (debit_ties s k x).bind fun _ hu => .any fun _ => .pure hu

theorem placeBuy_ties (p : PlaceParams) (hb : p.isBuy = true) :
    Ensures (s.placeBuy m p) fun t => s.Untied t ∧ Summed p :=
  (buyLock_summed hb).bind fun x hp => (lockBalance_ties s _ x).bind fun _ hu => .pure ⟨hu, hp⟩

theorem placeSell_ties (p : PlaceParams) : Ensures (s.placeSell m p) s.Untied :=
  .check fun _ => .any fun _ => .pure (putStake_ties s _ _)

/-- A single order is one request too. -/
theorem placeOrder_sends (p : PlaceParams) :
    Ensures (s.placeOrder m p) fun t => ∃ r, s.Sends t m r := by
  refine .check fun _ => .check fun hb => .check fun _ => (reservePlace_ties _).bind fun u hu =>
    .check fun _ => ?_
  refine (Ensures.ite (fun hb => placeBuy_ties p hb) fun hb => (placeSell_ties p).mono
    fun _ hv => ⟨hv, sell_summed hb⟩).bind fun v hv => ?_
  exact sendBatch_sends (b := s.pendingBatchActive) (Eq.trans hv.1 ((emit_ties u _).trans hu)) hb
    (fun _ => le_rfl) (List.forall_mem_singleton.mpr hv.2)

theorem draftPlace_ties {d : BatchDraft} (hd : s.Untied d.note) (p : PlaceParams) :
    Ensures (d.place m p) fun d' => s.Untied d'.note := by
  have hres : Ensures (d.reserve p.clientOrderId) fun d' => s.Untied d'.note :=
    .ite (fun _ => .pure hd) fun _ =>
      (reserveClientOrder_ties _).bind fun u hu => .pure (Eq.trans hu hd)
  refine hres.bind fun d' hd' => .check fun _ => .ite (fun _ => ?_) fun _ => ?_
  · exact .any fun _ => .any fun _ => .pure hd'
  · exact .check fun _ => .any fun _ => .pure hd'

theorem draftPlace_summed (d : BatchDraft) (p : PlaceParams) :
    Ensures (d.place m p) fun _ => Summed p :=
  .any fun _ => .check fun _ => .ite (fun hb => (buyLock_summed hb).bind fun _ hp => .any fun _ =>
    .pure hp) fun hb _ _ => sell_summed hb

theorem placeBatch_sends (orders : List PlaceParams) (ids : List ℕ) :
    Ensures (s.placeBatch m orders ids) fun t => ∃ r, s.Sends t m r := by
  refine .check fun hb => .check fun _ => .check fun _ => .check fun _ => .check fun _ => ?_
  refine Ensures.bind (P := fun d => s.Untied d.note ∧ ∀ p ∈ orders, Summed p) (.and
    (.foldlM (fun d p hd => draftPlace_ties hd p) rfl) (.foldlM_each draftPlace_summed))
    fun d ⟨hd, hp⟩ => ?_
  refine (lockBalance_ties d.note _ _).bind fun u hu => ?_
  refine sendBatch_sends (b := true) ?_ hb (fun h => Bool.noConfusion h) hp
  have hput : (if u.pendingBatchSells = [] then u else u.putStake (some m) d.stake).ties =
      s.ties := by
    split_ifs
    · exact Eq.trans hu hd
    · exact (putStake_ties u _ _).trans (Eq.trans hu hd)
  rw [← hput]
  rfl

end Operations

section Callbacks

@[simp] theorem answerClientOrder_ties (s : PrivateNote) (c : ℕ) (o : Option ℕ) :
    (s.answerClientOrder c o).ties = s.ties := by
  unfold answerClientOrder
  cases o <;> (dsimp only; split_ifs <;> rfl)

@[simp] theorem settleSellCandidate_ties (s : PrivateNote) (m : MarketId) :
    (s.settleSellCandidate m).ties = s.ties := by
  unfold settleSellCandidate
  dsimp only
  split_ifs <;> rfl

@[simp] theorem freeFrom_ties (s : PrivateNote) (m : MarketId) :
    (s.freeFrom m).ties = s.ties.freeFrom m := by
  unfold freeFrom
  exact apply_ite ties _ _ _

@[simp] theorem countClosed_ties (s : PrivateNote) (m : MarketId) :
    (s.countClosed m).ties = s.ties.closed m := rfl

theorem countOpen_ties : Ensures (s.countOpen m) fun t => t.ties = s.ties.opened m :=
  .check fun _ => .check fun _ => .pure rfl

theorem answered_ties (s : PrivateNote) (m : MarketId) (n : ℕ) {u : PrivateNote}
    (hu : u.ties = s.ties) :
    (if s.answers n then u.freeFrom m else s).ties = s.ties.answered m n := by
  rw [apply_ite ties, freeFrom_ties, hu]
  rfl

theorem onOrderPlaced_ties (i r l c k : ℕ) (b : Bool) (f : UInt8) (p a n : ℕ) :
    Ensures (s.onOrderPlaced caller m i r l c k b f p a n) fun t =>
      t.ties = s.ties.hear m (.placed n) := by
  refine .check fun _ => countOpen_ties.bind fun u hu => .pure ?_
  have hu : u.ties = s.ties.opened m := hu.trans (congrArg (Ties.opened m) (answerClientOrder_ties ..))
  have hw : (u.clearPlaceLock.settleSellCandidate m).ties = u.ties :=
    settleSellCandidate_ties u.clearPlaceLock m
  rw [emit_ties, answered_ties u m n hw, hu]
  rfl

theorem rejectBuy_ties (f : UInt8) (p a n : ℕ) :
    Ensures (s.rejectBuy m f p a n) s.Untied := by
  refine .any fun x => (returnLock_ties _ x).bind fun u hu => .pure ?_
  split_ifs <;> exact hu

theorem rejectSell_ties (k a n : ℕ) : Ensures (s.rejectSell m k a n) s.Untied :=
  .any fun _ => .pure (putStake_ties s _ _)

theorem onOrderRejected_ties (k : ℕ) (b : Bool) (f : UInt8) (p a o c n : ℕ) :
    Ensures (s.onOrderRejected caller m k b f p a o c n) fun t =>
      t.ties = s.ties.hear m (.rejected n) := by
  refine .check fun _ => ?_
  refine (Ensures.ite (fun _ => rejectBuy_ties f p a n) fun _ => rejectSell_ties k a o).bind
    fun u hu => .pure ?_
  rw [emit_ties, hu, answerClientOrder_ties]
  rfl

theorem cancelBuy_ties (i a : ℕ) : Ensures (s.cancelBuy m i a) s.Untied :=
  .any fun x => (returnLock_ties _ x).bind fun _ hu => .pure hu

theorem cancelSell_ties (k a : ℕ) : Ensures (s.cancelSell m k a) s.Untied :=
  .ite (fun _ => .any fun _ => .pure (putStake_ties s _ _)) fun _ => .pure rfl

theorem onOrderCancelled_ties (i k : ℕ) (b : Bool) (a c n : ℕ) :
    Ensures (s.onOrderCancelled caller m i k b a c n) fun t =>
      t.ties = s.ties.hear m (.cancelled n) := by
  refine .check fun _ => ?_
  refine (Ensures.ite (fun _ => cancelBuy_ties i a) fun _ => cancelSell_ties k a).bind
    fun u hu => .pure ?_
  have hu : u.ties = s.ties.closed m := by
    rw [hu, countClosed_ties]
    split_ifs <;> rfl
  rw [emit_ties, answered_ties u m n rfl, hu]
  rfl

theorem consumeLock_ties (i x : ℕ) (b : Bool) : Ensures (s.consumeLock m i x b) s.Untied :=
  .ite (fun _ => (credit_ties s _ _).bind fun _ hu => .any fun _ => .pure hu)
    fun _ => .any fun _ => .pure rfl

theorem fillBuy_ties (k a p r f : ℕ) (b : Bool) (i : ℕ) (l : Bool) (o : ℕ) :
    Ensures (s.fillBuy m k a p r f b i l o) s.Untied := by
  refine .any fun x => .any fun y => (credit_ties _ _ y).bind fun u hu => .any fun z =>
    .any fun w => (consumeLock_ties i w l).mono fun v hv => ?_
  exact Eq.trans hv (Eq.trans hu (putStake_ties s _ _))

theorem fillSell_ties (a p f : ℕ) (b : Bool) : Ensures (s.fillSell m a p f b) s.Untied :=
  .any fun _ => .ite (fun _ => .any fun y => credit_ties s _ y) fun _ =>
    .ite (fun _ => credit_ties s _ _) fun _ => .pure rfl

theorem onOrderFilled_ties (k a p : ℕ) (b : Bool) (r f : ℕ) (e : Bool) (i : ℕ) (l : Bool)
    (o c : ℕ) :
    Ensures (s.onOrderFilled caller m k a p b r f e i l o c) fun t =>
      t.ties = s.ties.hear m (.filled l) := by
  refine .check fun _ => ?_
  refine (Ensures.ite (fun _ => fillBuy_ties k a p r f e i l o) fun _ =>
    fillSell_ties a p f e).bind fun u hu => .pure ?_
  have hu : u.ties = s.ties := by
    rw [hu]
    split_ifs <;> rfl
  rw [emit_ties, apply_ite ties, countClosed_ties, hu]
  rfl

theorem onBatchComplete_ties (n : ℕ) :
    Ensures (s.onBatchComplete caller m n) fun t => t.ties = s.ties.hear m (.complete n) := by
  refine .check fun _ => .pure ?_
  rw [apply_ite ties, freeFrom_ties]
  rfl

theorem fromOrderBook_sender (cb : Callback) :
    Ensures (s.fromOrderBook caller m cb) fun _ => caller.isSender (.orderBook m) = true := by
  cases cb <;> exact .check fun h _ _ => h

/-- A callback of a book is heard as its notice. -/
theorem fromOrderBook_ties (cb : Callback) :
    Ensures (s.fromOrderBook caller m cb) fun t => t.ties = s.ties.hear m cb.notice := by
  cases cb with
  | onOrderPlaced i r l c k b f p a n => exact onOrderPlaced_ties i r l c k b f p a n
  | onOrderRejected k b f p a o c n => exact onOrderRejected_ties k b f p a o c n
  | onOrderCancelled i k b a c n => exact onOrderCancelled_ties i k b a c n
  | onOrderFilled k a p b r f e i l o c => exact onOrderFilled_ties k a p b r f e i l o c
  | onBatchComplete n => exact onBatchComplete_ties n

end Callbacks

/-- A call of the owner leaves the order books alone, or sends one of them one message. -/
theorem execOwner_ties (c : OwnerCall) :
    Ensures (s.execOwner e c) fun t => s.Aside t ∨ ∃ m r, s.Sends t m r := by
  have untied {x : Option PrivateNote} (h : Ensures x s.Untied) :
      Ensures x fun t => s.Aside t ∨ ∃ m r, s.Sends t m r := h.mono fun _ ht => .inl ht.aside
  have aside {x : Option PrivateNote} (h : Ensures x s.Aside) :
      Ensures x fun t => s.Aside t ∨ ∃ m r, s.Sends t m r := h.mono fun _ => .inl
  have sends {x : Option PrivateNote} {m : MarketId}
      (h : Ensures x fun t => ∃ r, s.Sends t m r) :
      Ensures x fun t => s.Aside t ∨ ∃ m r, s.Sends t m r := h.mono fun _ ht => .inr ⟨m, ht⟩
  cases c with
  | changeOwner k => exact untied (changeOwner_ties k)
  | touchDeal d => exact untied (touchDeal_ties d)
  | deployInferenceOrderBook x n => exact untied (deployInferenceOrderBook_ties x n)
  | postSellOffer f n l => exact untied (postSellOffer_ties f n l)
  | placeInferenceBuy x p k a f d => exact untied (placeInferenceBuy_ties x p k a f d)
  | cancelInferenceOrder => exact untied (.pure (act_ties rfl))
  | cancelAllInferenceOrders => exact untied (.pure (act_ties rfl))
  | fundBuyerBondNow d b => exact untied (fundBuyerBondNow_ties d b)
  | streamStop d => exact untied (streamCall_ties d _)
  | streamDispute d => exact untied (streamCall_ties d _)
  | streamCleanup d => exact untied (streamCall_ties d _)
  | fundDeal n g a c => exact untied (fundDeal_ties n g a c)
  | fundDeployShell n a => exact untied (.pure (fundDeployShell_ties s n a))
  | deployDeal n name x p k g => exact untied (deployDeal_ties n name x p k g)
  | deployPMP i f k n x a => exact aside (deployPMP_aside i f k n x a)
  | deleteStake => exact aside deleteStake_aside
  | cancelStake => exact aside cancelStake_aside
  | splitFullSet m c => exact aside (splitFullSet_aside c)
  | mergeFullSet m a => exact aside (mergeFullSet_aside a)
  | setStake m k a c => exact aside (setStake_aside k a c)
  | claim => exact aside claim_aside
  | generateCoupon k => exact untied (generateCoupon_ties k)
  | discardCoupon => exact untied discardCoupon_ties
  | initTransfer d k a x => exact aside (initTransfer_aside d k a x)
  | withdrawTokens d x => exact untied (withdrawTokens_ties d x)
  | sweepShell d => exact untied (sweepShell_ties d)
  | placeOrder m p => exact sends (placeOrder_sends p)
  | cancelOrder m i => exact sends (cancelOrder_sends i)
  | cancelOrderByClient m c => exact sends (cancelOrderByClient_sends c)
  | placeBatch m o c => exact sends (placeBatch_sends o c)
  | cancelAllOrders => exact sends cancelAllOrders_sends

theorem bounced_ties {m : MarketId} (hb : s.busy = some (.orderBook m)) :
    Ensures (s.bounced (.internal (.orderBook m)) .other) fun t => s.Steady t ∧ t.busy = none :=
  .ite (fun _ => bounceOp_ended.mono fun _ ht => ht.steady) fun h => absurd hb h

/-- A bounce from anything but a book leaves the books aside. -/
theorem bounced_aside (hc : ∀ m, caller.isSender (.orderBook m) = false) (body : BouncedBody) :
    Ensures (s.bounced caller body) s.Aside := by
  cases caller with
  | external => exact fun t ht => absurd ht (by simp [bounced])
  | internal a =>
    by_cases hb : body = .other
    · subst hb
      refine .ite (fun hb => bounceOp_ended.mono fun t ht => ?_) fun _ => .pure (Untied.aside rfl)
      obtain ⟨hs, ht⟩ := ht.steady
      refine ⟨hs, .inr ⟨fun m hm => ?_, ?_⟩⟩
      · have ha : a = .orderBook m := Option.some.inj (hb.symm.trans hm)
        exact absurd (hc m) (by simp [Caller.isSender, ha])
      · rw [ht]
        exact elsewhere_none
    · exact (onBounce_ties hb).mono fun _ => Untied.aside

theorem exec_ties (hc : ∀ m, e.caller.isSender (.orderBook m) = false) (c : NoteCall) :
    Ensures (s.exec e c) fun t => s.Aside t ∨ ∃ m r, s.Sends t m r := by
  have untied {x : Option PrivateNote} (h : Ensures x s.Untied) :
      Ensures x fun t => s.Aside t ∨ ∃ m r, s.Sends t m r := h.mono fun _ ht => .inl ht.aside
  cases c with
  | owner c => exact .check fun _ => execOwner_ties c
  | pmp m cb => exact (fromPMP_aside hc cb).mono fun _ => .inl
  | orderBook m cb =>
    exact (fromOrderBook_sender cb).mono fun _ h => Bool.noConfusion ((hc m).symm.trans h)
  | onInferencePlaced x d i c b p k => exact untied (onInferencePlaced_ties x d i c b p k)
  | onInferenceOrderRemoved x i c r => exact untied (onInferenceOrderRemoved_ties x i c r)
  | onInferenceFilled x d i c k p z b => exact untied (onInferenceFilled_ties x d i c k p z b)
  | onInferenceRejected x c k r => exact untied (onInferenceRejected_ties x c k r)
  | onDealClosed => exact untied (.pure (onDealClosed_ties s e))
  | creditFromDeal a k n => exact untied (creditFromDeal_ties a k n)
  | creditFromBook a x => exact untied (creditFromBook_ties a x)
  | offerTransfer k a x => exact untied (offerTransfer_ties k a x)
  | onTransferAccepted => exact (onTransferAccepted_aside hc rfl).mono fun _ => .inl
  | revertWithdraw l => exact untied (revertWithdraw_ties l)
  | receive => exact untied (.pure rfl)
  | onBounce body => exact (bounced_aside hc body).mono fun _ => .inl

end PrivateNote

end Dexdo
