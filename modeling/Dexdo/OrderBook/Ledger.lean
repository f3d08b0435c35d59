import Dexdo.OrderBook.Walk
import Mathlib.Data.Multiset.Basic

namespace Dexdo

/-- A submitted order the book still has to answer for. `orderId` is zero until it is placed;
`amount` is what remains, in quote for a market buy and in base otherwise. -/
structure Item where
  sub : ℕ
  owner : ℕ
  orderId : ℕ
  outcomeId : ℕ
  isBuy : Bool
  flags : UInt8
  price : ℕ
  amount : ℕ
  clientOrderId : ℕ
  deriving DecidableEq

/-- A callback with its history variables. -/
structure Out where
  dest : ℕ
  cb : Callback
  sub : ℕ
  cause : Option ℕ
  deriving DecidableEq

/-- The sum of a reported lock has not left `uint128`. -/
def Callback.fits : Callback → Bool
  | .onOrderPlaced _ _ lock .. => decide (lock < 2 ^ 128)
  | _ => true

def Action.out? : Action → Option Out
  | .callback dest cb sub cause => some ⟨dest, cb, sub, cause⟩
  | _ => none

/-- Callbacks of the current transaction, oldest first. -/
def OrderBook.outs (s : OrderBook) : List Out := s.actions.filterMap Action.out?

def Action.collected : Action → ℕ
  | .collectProtocolFee amount => amount
  | _ => 0

/-- Protocol fees held, with those this transaction reports to RootPN. -/
def OrderBook.feeTotal (s : OrderBook) : ℕ :=
  s.totalProtocolFees + (s.actions.map Action.collected).sum

def Callback.isAck : Callback → Bool
  | .onBatchComplete _ => true
  | _ => false

/-- Fee a callback takes from its note, negative for a rebate. -/
def Callback.fee : Callback → ℤ
  | .onOrderFilled _ _ _ _ _ feeAmount isRebate _ _ _ _ => if isRebate then -feeAmount else feeAmount
  | _ => 0

namespace Item

def isMarket (x : Item) : Bool := x.flags &&& FLAG_MARKET != 0

/-- Quote a buy has to pay for what remains of it. -/
def cost (x : Item) : ℕ :=
  if x.isBuy then (if x.isMarket then x.amount else notionalOf x.amount x.price) else 0

def ofParams (sub owner orderId : ℕ) (p : PlaceParams) : Item :=
  ⟨sub, owner, orderId, p.outcomeId, p.isBuy, p.flags, p.price, p.amount, p.clientOrderId⟩

def ofEntry (e : QueueEntry) : Item := ofParams e.sub e.depositHash e.targetOrderId e.params

def ofOrder (id : ℕ) (o : Order) : Item :=
  ⟨o.sub, o.depositHash, id, o.outcomeId, o.isBuy, o.flags, o.price, o.amount, o.clientOrderId⟩

/-- What is left of an item after `spent` of it is used up. -/
def after (x : Item) (spent : ℕ) : Multiset Item :=
  if x.amount = spent then 0 else {{ x with amount := x.amount - spent }}

def rejected (x : Item) (numOutcomes opNonce : ℕ) : Callback :=
  .onOrderRejected x.outcomeId x.isBuy x.flags x.price x.amount numOutcomes x.clientOrderId opNonce

def placed (x : Item) (id opNonce : ℕ) : Callback :=
  .onOrderPlaced id (takerFeeOf x.cost) (x.cost + takerFeeOf x.cost) x.clientOrderId x.outcomeId
    x.isBuy x.flags x.price x.amount opNonce

def cancelled (x : Item) (returnAmt opNonce : ℕ) : Callback :=
  .onOrderCancelled x.orderId x.outcomeId x.isBuy returnAmt x.clientOrderId opNonce

/-- Units of a taker one fill uses up. -/
def spent (x : Item) (trade price : ℕ) : ℕ :=
  if x.isBuy ∧ x.isMarket then notionalOf trade price else trade

/-- Price improvement returned to a limit buy. -/
def refund (x : Item) (trade price : ℕ) : ℕ :=
  if x.isBuy ∧ ¬ x.isMarket then notionalOf trade (x.price - price) else 0

def makerFilled (x : Item) (trade numOutcomes : ℕ) : Callback :=
  .onOrderFilled x.outcomeId trade x.price x.isBuy 0
    (makerRebateOf (takerFeeOf (notionalOf trade x.price))) true x.orderId
    (decide (x.amount = trade)) numOutcomes x.clientOrderId

def takerFilled (x : Item) (trade price numOutcomes : ℕ) : Callback :=
  .onOrderFilled x.outcomeId trade price x.isBuy (x.refund trade price)
    (takerFeeOf (notionalOf trade price)) false x.orderId
    (decide (x.amount = x.spent trade price)) numOutcomes x.clientOrderId

/-- A taker may trade with a resting order. -/
structure Matches (t m : Item) : Prop where
  outcome : t.outcomeId = m.outcomeId
  side : t.isBuy = !m.isBuy
  limit : m.isMarket = false
  cross : Book.pricesCross t.isBuy t.price t.isMarket m.price = true
  live : m.orderId ≠ 0 ∧ t.orderId ≠ 0

/-- The lock of every order that has yet to be announced fits its checked sum. -/
def Checked (M : Multiset Item) : Prop :=
  ∀ x ∈ M, x.orderId = 0 → x.cost + takerFeeOf x.cost < 2 ^ 128

variable {x : Item} {M M' : Multiset Item}

theorem checked_add : Checked (M + M') ↔ Checked M ∧ Checked M' := by
  simp only [Checked, Multiset.mem_add, or_imp, forall_and]

theorem checked_cons : Checked (x ::ₘ M) ↔
    (x.orderId = 0 → x.cost + takerFeeOf x.cost < 2 ^ 128) ∧ Checked M := by
  simp only [Checked, Multiset.mem_cons, forall_eq_or_imp]

theorem checked_after (spent : ℕ) (h : x.orderId ≠ 0) : Checked (x.after spent) := by
  unfold after Checked
  split_ifs
  · simp
  · simp [h]

end Item

/-- One move of the book on the orders it answers for, with the callbacks it sends. -/
inductive LedgerStep (N : ℕ) : Multiset Item → List Out → Multiset Item → Prop
  | reject (x : Item) (M : Multiset Item) (opNonce : ℕ) (c : Option ℕ) (hx : x.orderId = 0) :
      LedgerStep N (x ::ₘ M) [⟨x.owner, x.rejected N opNonce, x.sub, c⟩] M
  | place (x : Item) (M : Multiset Item) (id opNonce : ℕ) (c : Option ℕ) (hx : x.orderId = 0)
      (hid : id ≠ 0) (ha : 0 < x.amount) :
      LedgerStep N (x ::ₘ M) [⟨x.owner, x.placed id opNonce, x.sub, c⟩]
        ({ x with orderId := id } ::ₘ M)
  | fill (t m : Item) (M : Multiset Item) (trade : ℕ) (c : Option ℕ) (h : t.Matches m)
      (h0 : 0 < trade) (hm : trade ≤ m.amount) (ht : t.spent trade m.price ≤ t.amount) :
      LedgerStep N (t ::ₘ m ::ₘ M)
        [⟨m.owner, m.makerFilled trade N, m.sub, c⟩, ⟨t.owner, t.takerFilled trade m.price N, t.sub, c⟩]
        (t.after (t.spent trade m.price) + (m.after trade + M))
  | cancel (x : Item) (M : Multiset Item) (returnAmt opNonce : ℕ) (c : Option ℕ)
      (hx : x.orderId ≠ 0) (hr : x.isBuy = false → returnAmt = x.amount) :
      LedgerStep N (x ::ₘ M) [⟨x.owner, x.cancelled returnAmt opNonce, x.sub, c⟩] M
  | ack (M : Multiset Item) (dest opNonce : ℕ) (c : Option ℕ) :
      LedgerStep N M [⟨dest, .onBatchComplete opNonce, 0, c⟩] M

theorem LedgerStep.checked {N : ℕ} {M M' : Multiset Item} {os : List Out}
    (h : LedgerStep N M os M') (hM : Item.Checked M) :
    Item.Checked M' ∧ ∀ o ∈ os, o.cb.fits = true := by
  cases h with
  | reject => exact ⟨(Item.checked_cons.mp hM).2, by simp [Item.rejected, Callback.fits]⟩
  | place x M id opNonce c hx hid =>
    obtain ⟨h0, hM⟩ := Item.checked_cons.mp hM
    exact ⟨Item.checked_cons.mpr ⟨fun h => absurd h hid, hM⟩,
      by simpa [Item.placed, Callback.fits] using h0 hx⟩
  | fill t m M trade c hm =>
    refine ⟨?_, by simp [Item.makerFilled, Item.takerFilled, Callback.fits]⟩
    rw [Item.checked_add, Item.checked_add]
    exact ⟨Item.checked_after _ hm.live.2, Item.checked_after _ hm.live.1,
      (Item.checked_cons.mp (Item.checked_cons.mp hM).2).2⟩
  | cancel => exact ⟨(Item.checked_cons.mp hM).2, by simp [Item.cancelled, Callback.fits]⟩
  | ack => exact ⟨hM, by simp [Callback.fits]⟩

/-- A sequence of moves. -/
inductive LedgerPath (N : ℕ) : Multiset Item → List Out → Multiset Item → Prop
  | refl (M : Multiset Item) : LedgerPath N M [] M
  | snoc {M M' M'' : Multiset Item} {os o : List Out} : LedgerPath N M os M' →
      LedgerStep N M' o M'' → LedgerPath N M (os ++ o) M''

namespace LedgerPath

variable {N : ℕ} {M M' M'' : Multiset Item} {os os' : List Out}

theorem single (h : LedgerStep N M os M') : LedgerPath N M os M' := by
  simpa using snoc (refl M) h

theorem trans (h : LedgerPath N M os M') (h' : LedgerPath N M' os' M'') :
    LedgerPath N M (os ++ os') M'' := by
  induction h' with
  | refl => simpa using h
  | snoc _ hs ih =>
    rw [← List.append_assoc]
    exact snoc ih hs

theorem checked (h : LedgerPath N M os M') (hM : Item.Checked M) :
    Item.Checked M' ∧ ∀ o ∈ os, o.cb.fits = true := by
  induction h with
  | refl => exact ⟨hM, by simp⟩
  | snoc _ hs ih =>
    obtain ⟨h1, h2⟩ := hs.checked ih.1
    exact ⟨h1, fun o ho => (List.mem_append.mp ho).elim (ih.2 o) (h2 o)⟩

end LedgerPath

namespace OrderBook

/-- Processing changes only the resting orders, the id and match counters, the fee totals and
the actions. -/
def Frame (s t : OrderBook) : Prop :=
  t = { s with
    toBook := t.toBook
    nextOrderId := t.nextOrderId
    totalMakerRebatesPaid := t.totalMakerRebatesPaid
    totalProtocolFees := t.totalProtocolFees
    matchSeq := t.matchSeq
    actions := t.actions }

namespace Frame

variable {s t u : OrderBook}

theorem refl (s : OrderBook) : Frame s s := rfl

theorem trans (h : Frame s t) (h' : Frame t u) : Frame s u := by
  unfold Frame at *
  rw [h] at h'
  exact h'

theorem toQueue (h : Frame s t) : t.toQueue = s.toQueue := by rw [h]
theorem numOutcomes (h : Frame s t) : t.numOutcomes = s.numOutcomes := by rw [h]
theorem subs (h : Frame s t) : t.subs = s.subs := by rw [h]
theorem batches (h : Frame s t) : t.batches = s.batches := by rw [h]
theorem shuttingDown (h : Frame s t) : t.shuttingDown = s.shuttingDown := by rw [h]
theorem shutdownCursor (h : Frame s t) : t.shutdownCursor = s.shutdownCursor := by rw [h]
theorem market (h : Frame s t) : t.market = s.market := by rw [h]

end Frame

/-- Between `s` and `t` the book moves its orders from `M` to `M'` and sends the matching
callbacks, all on account of call `c` and none of them an acknowledgement. -/
def Sends (c : Option ℕ) (M : Multiset Item) (s : OrderBook) (M' : Multiset Item) (t : OrderBook) :
    Prop :=
  ∃ os, t.outs = s.outs ++ os ∧ LedgerPath s.numOutcomes M os M' ∧
    (∀ o ∈ os, o.cause = c ∧ o.cb.isAck = false) ∧
    (t.feeTotal : ℤ) = s.feeTotal + (os.map fun o => o.cb.fee).sum

theorem Sends.trans {c : Option ℕ} {M M' M'' : Multiset Item} {s t u : OrderBook}
    (hN : t.numOutcomes = s.numOutcomes) (h : Sends c M s M' t) (h' : Sends c M' t M'' u) :
    Sends c M s M'' u := by
  obtain ⟨os, ho, hp, hc, hf⟩ := h
  obtain ⟨os', ho', hp', hc', hf'⟩ := h'
  refine ⟨os ++ os', ?_, hp.trans (hN ▸ hp'), ?_, ?_⟩
  · rw [ho', ho, List.append_assoc]
  · intro o hm
    rcases List.mem_append.mp hm with hm | hm
    exacts [hc o hm, hc' o hm]
  · rw [hf', hf, List.map_append, List.sum_append]
    ring

/-- Moves made while an entry is processed. -/
def Emits (c : Option ℕ) (M : Multiset Item) (s : OrderBook) (M' : Multiset Item) (t : OrderBook) :
    Prop :=
  Frame s t ∧ Sends c M s M' t

namespace Emits

variable {c : Option ℕ} {M M' M'' : Multiset Item} {s t u : OrderBook}

theorem refl (c : Option ℕ) (M : Multiset Item) (s : OrderBook) : Emits c M s M s :=
  ⟨.refl s, [], by simp, .refl M, by simp, by simp⟩

theorem trans (h : Emits c M s M' t) (h' : Emits c M' t M'' u) : Emits c M s M'' u :=
  ⟨h.1.trans h'.1, h.2.trans h.1.numOutcomes h'.2⟩

theorem silent (f : Frame s t) (ho : t.outs = s.outs)
    (hf : t.feeTotal = s.feeTotal) (c : Option ℕ) (M : Multiset Item) :
    Emits c M s M t :=
  ⟨f, [], by simp [ho], .refl M, by simp, by simp [hf]⟩

end Emits

end OrderBook

namespace Book

/-- Items of the resting orders. -/
def resting (b : Book) (n : ℕ) : Multiset Item :=
  ((Finset.range n).filter b.Stored).val.map fun i => Item.ofOrder i (b.core i)

/-- Items of the resting orders other than `id`. -/
def restingExcept (b : Book) (n id : ℕ) : Multiset Item :=
  (((Finset.range n).filter b.Stored).erase id).val.map fun i => Item.ofOrder i (b.core i)

variable {b c : Book} {n id : ℕ} {A : Index}

theorem resting_split (hs : b.Stored id) (hn : id < n) :
    b.resting n = Item.ofOrder id (b.core id) ::ₘ b.restingExcept n id := by
  have hm : id ∈ (Finset.range n).filter b.Stored := by simp [hs, hn]
  rw [resting, restingExcept, ← Multiset.map_cons (fun i => Item.ofOrder i (b.core i)),
    ← Finset.insert_val_of_notMem (Finset.notMem_erase _ _), Finset.insert_erase hm]

theorem restingExcept_of_not (hs : ¬ b.Stored id) : b.restingExcept n id = b.resting n := by
  rw [resting, restingExcept, Finset.erase_eq_of_notMem (by simp [hs])]

theorem restingExcept_congr (hst : ∀ i ≠ id, c.Stored i ↔ b.Stored i)
    (hc : ∀ i ≠ id, c.core i = b.core i) : c.restingExcept n id = b.restingExcept n id := by
  have e : ((Finset.range n).filter c.Stored).erase id =
      ((Finset.range n).filter b.Stored).erase id := by
    ext i
    simp only [Finset.mem_erase, Finset.mem_filter]
    refine and_congr_right fun hi => ?_
    rw [hst i hi]
  rw [restingExcept, restingExcept, e]
  refine Multiset.map_congr rfl fun i hi => ?_
  rw [hc i (Finset.ne_of_mem_erase (Finset.mem_def.mpr hi))]

theorem Rep.resting_mono (r : Rep b n A) {n' : ℕ} (h : n ≤ n') : b.resting n' = b.resting n := by
  have e : (Finset.range n').filter b.Stored = (Finset.range n).filter b.Stored := by
    ext i
    simp only [Finset.mem_filter, Finset.mem_range]
    exact ⟨fun hi => ⟨(r.bound i hi.2).2.1, hi.2⟩, fun hi => ⟨hi.1.trans_le h, hi.2⟩⟩
  rw [resting, e, resting]

theorem Rep.resting_remove (r : Rep b n A) (hs : b.Stored id) :
    b.resting n = Item.ofOrder id (b.core id) ::ₘ (b.removeFromBook id).resting n := by
  rw [resting_split hs (r.bound id hs).2.1]
  congr 1
  have hns : ¬ (b.removeFromBook id).Stored id := by simp [removeFromBook_stored r hs]
  rw [← restingExcept_of_not hns]
  refine (restingExcept_congr (fun i hi => ?_) fun i hi => ?_).symm
  · simp [removeFromBook_stored r hs, hi]
  · rw [removeFromBook_core r hs, if_neg hi]

theorem Rep.resting_insert (r : Rep b n A) (h q a f m sub : ℕ) (p : PlaceParams)
    (hid : ¬ b.Stored id) (hn : id < n) :
    (b.insertIntoBook id h p q a f m sub).resting n =
      ⟨sub, h, id, p.outcomeId, p.isBuy, p.flags, q, a, p.clientOrderId⟩ ::ₘ b.resting n := by
  have hs : (b.insertIntoBook id h p q a f m sub).Stored id :=
    (insertIntoBook_stored _ _ _ _ _ _ _ _ r id).mpr (.inl rfl)
  rw [resting_split hs hn, insertIntoBook_core, if_pos rfl]
  congr 1
  rw [← restingExcept_of_not hid]
  refine restingExcept_congr (fun i hi => ?_) fun i hi => ?_
  · simp [insertIntoBook_stored _ _ _ _ _ _ _ _ r, hi]
  · rw [insertIntoBook_core, if_neg hi]

theorem Rep.resting_consume (r : Rep b n A) {cur outcomeId : ℕ} (trade : ℕ) (hs : b.Stored cur)
    (ho : (b.order cur).outcomeId = outcomeId) :
    (b.consume outcomeId cur trade).resting n =
      (Item.ofOrder cur (b.core cur)).after trade + b.restingExcept n cur := by
  have hagree : (b.consume outcomeId cur trade).restingExcept n cur = b.restingExcept n cur := by
    refine restingExcept_congr (fun i hi => ?_) fun i hi => ?_
    · simp [consume_stored r hs ho, hi]
    · rw [consume_core _ r hs ho, if_neg hi]
  have hamt : (Item.ofOrder cur (b.core cur)).amount = (b.order cur).amount := rfl
  rw [← hagree]
  by_cases h : (b.order cur).amount = trade
  · have hns : ¬ (b.consume outcomeId cur trade).Stored cur := by
      simp [consume_stored r hs ho, h]
    rw [restingExcept_of_not hns, Item.after, if_pos (hamt.trans h), zero_add]
  · have hs' : (b.consume outcomeId cur trade).Stored cur := by
      simp [consume_stored r hs ho, h, hs]
    rw [resting_split hs' (r.bound cur hs).2.1, consume_core _ r hs ho, if_pos rfl, Item.after,
      if_neg (hamt ▸ h), Multiset.singleton_add, filledCore, if_neg h]
    rfl

end Book

end Dexdo
