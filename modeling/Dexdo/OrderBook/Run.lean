import Dexdo.OrderBook.Submit
import Dexdo.Lib.Run

namespace Dexdo

/-- External entry points of the book. -/
inductive Call
  | executeBatch (sender : Addr) (now depositIdentifierHash : ℕ) (orders : List PlaceParams)
      (cancelIds : List ℕ) (opNonce : ℕ)
  | cancelAllOrders (sender : Addr) (now depositIdentifierHash opNonce : ℕ)
  | processHead
  | setResultStart (sender : Addr) (now resultStart : ℕ)
  | shutdown (sender : Addr)

namespace Call

/-- Orders a call submits, numbered from `sub` on. -/
def submitted (sub : ℕ) : Call → Multiset Item
  | executeBatch _ _ h orders _ _ => submission h sub orders
  | _ => 0

def submittedCount : Call → ℕ
  | executeBatch _ _ _ orders _ _ => orders.length
  | _ => 0

/-- Note and nonce of a call that is acknowledged once it is accepted. -/
def accepted? : Call → Option (ℕ × ℕ)
  | executeBatch _ _ h _ _ opNonce => some (h, opNonce)
  | cancelAllOrders _ _ h opNonce => some (h, opNonce)
  | _ => none

end Call

namespace OrderBook

/-- The book has finished its drain and destroyed itself. -/
def destroyed (s : OrderBook) : Bool :=
  s.shuttingDown && decide (s.nextOrderId ≤ s.shutdownCursor)

/-- Storage at the start of a transaction. -/
def begin (s : OrderBook) : OrderBook := { s with actions := [] }

/-- The code of a call on a live book, with a fresh action list. -/
def body (s : OrderBook) (c : Call) : Option OrderBook :=
  if s.destroyed then none
  else
    let s := s.begin
    match c with
    | .executeBatch sender now h orders cancelIds opNonce =>
      s.executeBatch sender now h orders cancelIds opNonce
    | .cancelAllOrders sender now h opNonce => s.cancelAllOrders sender now h opNonce
    | .processHead => some s.processHead
    | .setResultStart sender now resultStart => s.setResultStart sender now resultStart
    | .shutdown sender => s.shutdown sender

/-- One transaction: undone where the sum of a lock it reports has thrown. -/
def step (s : OrderBook) (c : Call) : Option OrderBook :=
  (s.body c).filter fun t => t.outs.all fun o => o.cb.fits

theorem step_iff {s t : OrderBook} {c : Call} :
    s.step c = some t ↔ s.body c = some t ∧ ∀ o ∈ t.outs, o.cb.fits = true := by
  rw [step, Option.filter_eq_some_iff, List.all_eq_true]

theorem step_body {s t : OrderBook} {c : Call} (h : s.step c = some t) : s.body c = some t :=
  (step_iff.mp h).1

/-- The book when a call reaches its pass over the head of the queue. -/
def atHead (s : OrderBook) : Call → Option OrderBook
  | .executeBatch _ _ h orders cancelIds opNonce =>
    some (marked (s.begin.enqueueBatch h orders cancelIds opNonce))
  | .cancelAllOrders _ _ h opNonce => some (marked (s.begin.enqueuedCancelAll h opNonce))
  | .processHead => some s.begin
  | _ => none

variable {s t u v : OrderBook}

/-- What one transaction does to the orders and the fees of the book. -/
structure Moves (X : Multiset Item) (k : ℕ) (s t : OrderBook) : Prop where
  ok : t.Ok
  market : t.market = s.market
  numOutcomes : t.numOutcomes = s.numOutcomes
  subs : t.subs = s.subs + k
  path : LedgerPath s.numOutcomes (X + s.items) t.outs t.items
  fees : (t.feeTotal : ℤ) = s.totalProtocolFees + (t.outs.map fun o => o.cb.fee).sum

theorem SameStore.items_eq (h : SameStore s t) : t.items = s.items := by
  rw [h]
  rfl

theorem ack_path {N : ℕ} {M : Multiset Item} (b : Prop) [Decidable b] (o : Out)
    (h : ∃ d n, o = ⟨d, .onBatchComplete n, 0, o.cause⟩) :
    LedgerPath N M (if b then [o] else []) M := by
  split_ifs
  · obtain ⟨d, n, ho⟩ := h
    rw [ho]
    exact .single (.ack M d n _)
  · exact .refl M

theorem HeadPass.moves {e : QueueEntry} {rest : List QueueEntry} {stay : Option QueueEntry}
    {os : List Out} (h : HeadPass s t e rest stay os) :
    ∃ os', t.outs = s.outs ++ os' ∧ LedgerPath s.numOutcomes s.items os' t.items ∧
      (t.feeTotal : ℤ) = s.feeTotal + (os'.map fun o => o.cb.fee).sum := by
  refine ⟨_, by rw [h.outs, List.append_assoc], h.path.trans (ack_path _ _ ⟨_, _, rfl⟩), ?_⟩
  rw [h.fees, List.map_append, List.sum_append]
  split_ifs <;> simp [ackOut, Callback.fee]

theorem pass_moves (h : SameStore u v ∧ v.outs = u.outs ∧ v.feeTotal = u.feeTotal ∨
      ∃ e rest stay os, HeadPass u v e rest stay os) :
    ∃ os, v.outs = u.outs ++ os ∧ LedgerPath u.numOutcomes u.items os v.items ∧
      (v.feeTotal : ℤ) = u.feeTotal + (os.map fun o => o.cb.fee).sum := by
  rcases h with ⟨h1, h2, h3⟩ | ⟨e, rest, stay, os, h⟩
  · exact ⟨[], by simp [h2], h1.items_eq ▸ .refl _, by simp [h3]⟩
  · exact h.moves

theorem Accepts.moves {h o k : ℕ} {X : Multiset Item} {es : List QueueEntry}
    (ha : Accepts h o X k s es u v t) (h0 : s.actions = []) : Moves X k s t := by
  obtain ⟨hsub, -, hN, hM⟩ := ha.counts
  obtain ⟨os, ho, hp, -, hf⟩ := ha.sends
  obtain ⟨os', ho', hp', hf'⟩ := pass_moves ha.pass
  have hs0 : s.outs = [] := by simp [OrderBook.outs, h0]
  have hf0 : s.feeTotal = s.totalProtocolFees := by simp [feeTotal, h0]
  have hk := ha.kept.trans ha.same.kept
  have hto : t.outs = os ++ os' ++ (if es = [] then
      [⟨h, .onBatchComplete o, 0, some s.batches⟩] else []) := by
    rw [ha.outs, ho', ho, hs0, List.nil_append]
  refine ⟨ha.ok.2.2, hk.market.trans hM, hk.numOutcomes.trans hN, hk.subs.trans hsub, ?_, ?_⟩
  · rw [hto, ha.same.items_eq]
    exact (hp.trans (hN ▸ hp')).trans (ack_path _ _ ⟨_, _, rfl⟩)
  · rw [hto, ha.fees, hf', hf, hf0]
    have hack : (((if es = [] then [⟨h, .onBatchComplete o, 0, some s.batches⟩] else []) :
        List Out).map fun o => o.cb.fee).sum = 0 := by
      split_ifs <;> rfl
    rw [List.map_append, List.map_append, List.sum_append, List.sum_append, hack]
    ring

theorem scan_filter (hs : s.Ok) :
    (s.shutdownScan.filter fun i => decide (0 < (s.order i).amount)) =
      s.shutdownScan.filter fun i => decide (s.Stored i) := by
  obtain ⟨A, r⟩ := hs.book.rep
  refine List.filter_congr fun i _ => decide_eq_decide.mpr ⟨fun h => ?_, fun h => (r.bound i h).2.2⟩
  by_contra hn
  rw [not_stored_order hn] at h
  exact absurd h (lt_irrefl 0)

/-- Storage at the start of a drain pass, before any order is cancelled. -/
def drainOpen (s : OrderBook) : OrderBook :=
  { s with
    shuttingDown := true
    shutdownPending := false
    shutdownCursor := s.shutdownStart + s.shutdownScan.length }

/-- The cancelling part of a drain pass. -/
def drainCancel (s : OrderBook) : OrderBook :=
  (s.shutdownScan.filter fun i => decide (0 < (s.order i).amount)).foldl
    (fun s oid => s.cancelResting (s.order oid).depositHash oid 0 none) s.drainOpen

/-- The end of a drain pass: another self-call, or the final report. -/
def drainClose (s : OrderBook) : OrderBook :=
  if s.shutdownCursor < s.nextOrderId then s.act .shutdown
  else
    (if 0 < s.totalProtocolFees then
      { s.act (.collectProtocolFee s.totalProtocolFees) with totalProtocolFees := 0 }
    else s).act .onOrderBookShutdownComplete

theorem drainPass_eq : s.drainPass = s.drainCancel.drainClose := rfl

theorem drainCancel_spec (hs : s.Ok) : Cancels none 0 s.drainOpen s.drainCancel ∧
    ∀ i, s.drainCancel.Stored i → s.shutdownStart + s.shutdownScan.length ≤ i := by
  have hnd : (s.shutdownScan.filter fun i => decide (0 < (s.order i).amount)).Nodup :=
    (List.nodup_range' ..).filter _
  have hst : ∀ i ∈ s.shutdownScan.filter fun i => decide (0 < (s.order i).amount),
      s.drainOpen.Stored i := by
    intro i hi
    rw [scan_filter hs] at hi
    exact of_decide_eq_true (List.mem_filter.mp hi).2
  obtain ⟨h1, h2⟩ := drain_spec (s := s.drainOpen) (K := 0) _ (hs.book.of_toBook rfl le_rfl) hnd hst
  refine ⟨h1, fun i hi => ?_⟩
  have hsi : s.Stored i := h1.stored i hi
  have hni := ((h2 i).mp hi).2
  rw [scan_filter hs, List.mem_filter, not_and_or] at hni
  have hscan := hni.resolve_right (by simpa using hsi)
  have hstart : s.shutdownStart ≤ i := by
    obtain ⟨A, r⟩ := hs.book.rep
    have hpos := (r.bound i hsi).1
    unfold shutdownStart
    split_ifs with hc
    · exact hpos
    · cases hd : s.shuttingDown with
      | true => exact (hs.down hd).2 i hsi
      | false => exact absurd (hs.cursor hd) hc
  rw [shutdownScan, List.mem_range'_1, not_and_or] at hscan
  rw [shutdownScan, List.length_range']
  omega

theorem drainClose_fields : s.drainClose.toBook = s.toBook ∧ s.drainClose.toQueue = s.toQueue ∧
    s.drainClose.nextOrderId = s.nextOrderId ∧ s.drainClose.shuttingDown = s.shuttingDown ∧
    s.drainClose.shutdownCursor = s.shutdownCursor ∧ Kept s s.drainClose := by
  unfold drainClose
  split_ifs <;> exact ⟨rfl, rfl, rfl, rfl, rfl, rfl, rfl, rfl, rfl⟩

theorem drainClose_outs : s.drainClose.outs = s.outs := by
  unfold drainClose
  split_ifs
  · simp [act_outs, Action.out?]
  · simp [Action.out?, outs, act]
  · simp [act_outs, Action.out?]

theorem drainClose_feeTotal : s.drainClose.feeTotal = s.feeTotal := by
  unfold drainClose
  split_ifs
  · simp [act_feeTotal, Action.collected]
  · simp [Action.collected, feeTotal, act, Nat.add_comm]
  · simp [act_feeTotal, Action.collected]

/-- A transaction that leaves the queue alone and answers on account of no call. -/
structure Quiet (s t : OrderBook) : Prop where
  moves : Moves 0 0 s t
  queue : t.toQueue = s.toQueue
  batches : t.batches = s.batches
  cause : ∀ o ∈ t.outs, o.cause = none
  book : s.queueSize ≠ 0 → t.toBook = s.toBook ∧ t.nextOrderId = s.nextOrderId

theorem drainPass_quiet (hs : s.Ok) (hq : s.queueSize = 0) (h0 : s.actions = []) :
    Quiet s s.drainPass := by
  rw [drainPass_eq]
  obtain ⟨hc, hst⟩ := drainCancel_spec hs
  obtain ⟨hf, os, ho, hp, hcause, hfee⟩ := hc.emits
  obtain ⟨g1, g2, g3, g4, g5, g6⟩ := drainClose_fields (s := s.drainCancel)
  have hf0 : s.drainOpen.feeTotal = s.totalProtocolFees := by simp [feeTotal, drainOpen, h0]
  have hs0 : s.drainOpen.outs = [] := by simp [outs, drainOpen, h0]
  have hk := hf.kept.trans g6
  have hql : s.drainCancel.drainClose.toQueue = s.toQueue := g2.trans hf.toQueue
  have hnil : s.toQueue.list = [] := s.toQueue.list_eq_nil_iff.mpr hq
  have hout : s.drainCancel.drainClose.outs = os := by
    rw [drainClose_outs, ho, hs0, List.nil_append]
  refine ⟨⟨⟨hc.ok.of_toBook g1 g3.ge, ?_, ?_, ?_, ?_, ?_, ?_, ?_, ?_⟩, hk.market, hk.numOutcomes,
    hk.subs, ?_, ?_⟩, hql, hk.batches, fun o hm => (hcause o (hout ▸ hm)).1,
    fun hne => absurd hq hne⟩
  · rw [g3, hc.nextId]
    exact hs.pos
  · rw [hql]
    exact hs.queue
  · simp [hql, hnil]
  · simp [hql, hnil]
  · simp [hql, hnil]
  · simp [hql, hnil]
  · intro _
    refine ⟨by rw [show s.drainCancel.drainClose.queueSize = s.queueSize from
      congrArg Queue.queueSize hql, hq], fun i hi => ?_⟩
    rw [g1] at hi
    rw [g5, hf.shutdownCursor]
    exact hst i hi
  · intro hd
    rw [g4, hf.shuttingDown] at hd
    simp [drainOpen] at hd
  · rw [hout, zero_add]
    have e1 : s.items = s.resting s.nextOrderId + 0 := by
      rw [items, hnil]
      simp [placeItems]
    have e2 : s.drainCancel.drainClose.items =
        s.drainCancel.resting s.drainCancel.nextOrderId + 0 := by
      rw [items, hql, hnil, g1, g3]
      simp [placeItems]
    rw [e1, e2]
    exact hp
  · rw [drainClose_feeTotal, hout, hfee, hf0]

theorem begin_ok (hs : s.Ok) : s.begin.Ok := SameStore.ok (s := s) rfl hs

theorem setResultStart_quiet (hs : s.Ok) {sender : Addr} {now resultStart : ℕ}
    (h : s.begin.setResultStart sender now resultStart = some t) : Quiet s.begin t := by
  simp only [setResultStart, bind_iff, pure_iff] at h
  obtain ⟨-, -, -, -, -, -, rfl⟩ := h
  have hok := begin_ok hs
  refine ⟨⟨⟨hok.book.of_toBook rfl le_rfl, hok.pos, hok.queue, hok.typed, hok.amount, hok.waiting,
    hok.head, hok.down, hok.cursor⟩, rfl, rfl, rfl, ?_, ?_⟩, rfl, rfl, ?_, fun _ => ⟨rfl, rfl⟩⟩
  · exact (zero_add s.begin.items).symm ▸ LedgerPath.refl _
  · simp [feeTotal, outs, begin]
  · simp [outs, begin]

theorem shutdown_quiet (hs : s.Ok) {sender : Addr} (h : s.begin.shutdown sender = some t) :
    Quiet s.begin t := by
  simp only [shutdown, bind_iff, pure_iff] at h
  obtain ⟨-, -, rfl⟩ := h
  have hok := begin_ok hs
  by_cases hq : 0 < s.begin.queueSize ∧ ¬ s.begin.shuttingDown
  · rw [if_pos hq]
    refine ⟨⟨⟨hok.book.of_toBook rfl le_rfl, hok.pos, hok.queue, hok.typed, hok.amount,
      hok.waiting, hok.head, hok.down, hok.cursor⟩, rfl, rfl, rfl, ?_, ?_⟩, rfl, rfl, ?_,
      fun _ => ⟨rfl, rfl⟩⟩
    · exact (zero_add s.begin.items).symm ▸ LedgerPath.refl _
    · simp [feeTotal, outs, begin]
    · simp [outs, begin]
  · rw [if_neg hq]
    refine drainPass_quiet hok ?_ rfl
    cases hsd : s.begin.shuttingDown with
    | true => exact (hok.down hsd).1
    | false => simpa [hsd] using hq

theorem body_cases (hs : s.Ok) {c : Call} (h : s.body c = some t) :
    (∃ h o es u v, c.accepted? = some (h, o) ∧ s.atHead c = some u ∧
      Accepts h o (c.submitted s.subs) c.submittedCount s.begin es u v t) ∨
    (c = .processHead ∧ t = s.begin.processHeadCore) ∨
    ((c.accepted? = none ∧ s.atHead c = none) ∧ c.submittedCount = 0 ∧ c.submitted s.subs = 0 ∧
      Quiet s.begin t) := by
  unfold body at h
  split_ifs at h with hd
  have hok := begin_ok hs
  cases c with
  | executeBatch sender now hh orders ids o =>
    obtain ⟨-, -, -, es, v, ha⟩ := executeBatch_spec hok h
    exact .inl ⟨hh, o, es, _, v, rfl, rfl, ha⟩
  | cancelAllOrders sender now hh o =>
    obtain ⟨-, -, -, es, v, ha⟩ := cancelAllOrders_spec hok h
    exact .inl ⟨hh, o, es, _, v, rfl, rfl, ha⟩
  | processHead => exact .inr (.inl ⟨rfl, (Option.some.inj h).symm⟩)
  | setResultStart => exact .inr (.inr ⟨⟨rfl, rfl⟩, rfl, rfl, setResultStart_quiet hs h⟩)
  | shutdown => exact .inr (.inr ⟨⟨rfl, rfl⟩, rfl, rfl, shutdown_quiet hs h⟩)

theorem body_moves (hs : s.Ok) {c : Call} (h : s.body c = some t) :
    Moves (c.submitted s.subs) c.submittedCount s t := by
  suffices hm : Moves (c.submitted s.subs) c.submittedCount s.begin t from
    ⟨hm.ok, hm.market, hm.numOutcomes, hm.subs, hm.path, hm.fees⟩
  obtain ⟨hh, o, es, u, v, -, -, ha⟩ | ⟨rfl, rfl⟩ | ⟨-, h1, h2, hq⟩ := body_cases hs h
  · exact ha.moves rfl
  · obtain ⟨h1, h2, h3⟩ := processHeadCore_spec (begin_ok hs)
    obtain ⟨os, ho, hp, hf⟩ := pass_moves h3
    have hf0 : s.begin.feeTotal = s.begin.totalProtocolFees := by simp [feeTotal, begin]
    have ho' : s.begin.processHeadCore.outs = os := by
      rw [ho]
      simp [outs, begin]
    refine ⟨h1, h2.market, h2.numOutcomes, h2.subs, ?_, ?_⟩
    · rw [show Call.processHead.submitted s.subs = 0 from rfl, zero_add]
      exact ho' ▸ hp
    · rw [← hf0, ho']
      exact hf
  · rw [h1, h2]
    exact hq.moves

theorem step_cases (hs : s.Ok) {c : Call} (h : s.step c = some t) :
    (∃ h o es u v, c.accepted? = some (h, o) ∧ s.atHead c = some u ∧
      Accepts h o (c.submitted s.subs) c.submittedCount s.begin es u v t) ∨
    (c = .processHead ∧ t = s.begin.processHeadCore) ∨
    ((c.accepted? = none ∧ s.atHead c = none) ∧ c.submittedCount = 0 ∧ c.submitted s.subs = 0 ∧
      Quiet s.begin t) :=
  body_cases hs (step_body h)

theorem step_moves (hs : s.Ok) {c : Call} (h : s.step c = some t) :
    Moves (c.submitted s.subs) c.submittedCount s t :=
  body_moves hs (step_body h)

/-- Where every lock still to be reported fits its sum, a call that runs through is not undone. -/
theorem body_step (hs : s.Ok) {c : Call} (hM : Item.Checked (c.submitted s.subs + s.items))
    (h : s.body c = some t) : s.step c = some t ∧ Item.Checked t.items := by
  obtain ⟨h1, h2⟩ := (body_moves hs h).path.checked hM
  exact ⟨step_iff.mpr ⟨h, h2⟩, h1⟩

theorem init_items (market : MarketId) (resultStart numOutcomes : ℕ) :
    (OrderBook.init market resultStart numOutcomes).items = 0 := by
  rw [items, Book.resting, Finset.filter_false_of_mem fun i _ hi => by
    simp [OrderBook.init, Book.Stored, Book.empty] at hi]
  rfl

theorem run_ok {market : MarketId} {resultStart numOutcomes : ℕ} {tr : List (Call × OrderBook)}
    (h : Run step (OrderBook.init market resultStart numOutcomes) tr s) : s.Ok :=
  h.state_invariant Ok (.init _ _ _) fun _ _ _ hs h => (step_moves hs h).ok

/-- The representation invariant: in every reachable book both intrusive lists, the price levels
and the counters describe exactly the stored orders. -/
theorem reachable_book_represented {market : MarketId} {resultStart numOutcomes : ℕ}
    {tr : List (Call × OrderBook)}
    (h : Run step (OrderBook.init market resultStart numOutcomes) tr s) :
    ∃ A, s.toBook.Rep s.nextOrderId A :=
  (run_ok h).book.rep

/-- A market of USDC and two limit orders on it, used in concrete runs. -/
def sampleMarket : MarketId := ⟨1, 1, CURRENCIES_ID_USDC⟩

def sampleAsk : PlaceParams := ⟨0, false, 0, 5000, 4000000, 0, 0, 0⟩

def sampleBook : OrderBook := OrderBook.init sampleMarket 100 2

def sampleCall : Call := .executeBatch (.note 7) 1 7 [sampleAsk, sampleAsk] [] 1

theorem sampleCall_accepted : (sampleBook.step sampleCall).isSome := by decide

theorem sampleBook_represented : ∃ s : OrderBook, (s.orderCount = 1 ∧ s.queueSize = 1) ∧
    ∃ A, s.toBook.Rep s.nextOrderId A :=
  ⟨(sampleBook.step sampleCall).get sampleCall_accepted, by decide,
    reachable_book_represented (.snoc .nil (Option.some_get sampleCall_accepted).symm)⟩

end OrderBook

end Dexdo
