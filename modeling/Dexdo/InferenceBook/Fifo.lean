import Dexdo.InferenceBook.Reach
import Dexdo.OrderBook.Fifo

namespace Dexdo

namespace InferenceOrderBook

namespace Queue

/-- The ring holds the line `l`. -/
def Holds (q : Queue) (l : List QueueEntry) : Prop :=
  Ring.Holds QUEUE_CAPACITY default q.queue q.queueHead q.queueTail q.queueSize l

/-- The ring is a faithful picture of the line `l`. -/
def Line (q : Queue) (l : List QueueEntry) : Prop :=
  Ring.Line QUEUE_CAPACITY default q.queue q.queueHead q.queueTail q.queueSize l

end Queue

/-- Queue operations of the contract, each with the operation of the line it stands for. A place
or an expiry that finds the queue at its limit reverts. -/
inductive QueueMove (s : InferenceOrderBook) : Fifo.Op QueueEntry → InferenceOrderBook → Prop
  | place (owner : Addr) (buyerPubkey : ℕ) (isBuy : Bool) (flags : UInt8)
      (price amount escrow : ℕ) (tc : Addr) (deadline clientOrderId : ℕ) :
      s.queueSize < QUEUE_PLACE_LIMIT →
      QueueMove s (.enter QUEUE_PLACE_LIMIT (placeEntry owner buyerPubkey isBuy flags price amount
        escrow tc deadline clientOrderId))
        (s.enqueue (placeEntry owner buyerPubkey isBuy flags price amount escrow tc deadline
          clientOrderId))
  | cancel (owner : Addr) (targetOrderId : ℕ) : s.queueSize < QUEUE_CAPACITY →
      QueueMove s (.enter QUEUE_CAPACITY (requestEntry .cancel owner targetOrderId))
        (s.enqueue (requestEntry .cancel owner targetOrderId))
  | cancelAll (owner : Addr) : s.queueSize < QUEUE_CAPACITY →
      QueueMove s (.enter QUEUE_CAPACITY (requestEntry .cancelAll owner 0))
        (s.enqueue (requestEntry .cancelAll owner 0))
  | expire (targetOrderId : ℕ) : s.queueSize < QUEUE_PLACE_LIMIT →
      QueueMove s (.enter QUEUE_PLACE_LIMIT (requestEntry .expire noAddr targetOrderId))
        (s.enqueue (requestEntry .expire noAddr targetOrderId))
  | rewrite (head : QueueEntry) : s.queueSize ≠ 0 →
      QueueMove s (.rewrite head) { s with queue := Function.update s.queue s.queueHead head }
  | advance : s.queueSize ≠ 0 → QueueMove s .advance s.advanceHead

/-- A sequence of queue operations, with anything in between that leaves the queue alone. -/
abbrev QueueRun : InferenceOrderBook → List (Fifo.Op QueueEntry) → InferenceOrderBook → Prop :=
  Fifo.Works toQueue QueueMove

/-- The queue of the second book comes from that of the first by queue operations. -/
abbrev Operated : InferenceOrderBook → InferenceOrderBook → Prop := Fifo.Worked toQueue QueueMove

variable {s t u : InferenceOrderBook} {e : QueueEntry} {i : Input} {now modelHash : ℕ}
  {tr : List (Input × InferenceOrderBook)}

theorem QueueMove.line {q : Fifo QueueEntry} {op : Fifo.Op QueueEntry} (hm : QueueMove s op t)
    (h : s.toQueue.Holds q.waiting) : ∃ r, q.step op = some r ∧ t.toQueue.Holds r.waiting := by
  cases hm with
  | place _ _ _ _ _ _ _ _ _ _ hs => exact Fifo.ring_enter h (by decide) hs _
  | cancel _ _ hs => exact Fifo.ring_enter h le_rfl hs _
  | cancelAll _ hs => exact Fifo.ring_enter h le_rfl hs _
  | expire _ hs => exact Fifo.ring_enter h (by decide) hs _
  | rewrite head hs => exact Fifo.ring_rewrite h hs head
  | advance hs => exact Fifo.ring_advance h hs

theorem queueRun_line {ops : List (Fifo.Op QueueEntry)} (h0 : s.toQueue = Queue.empty)
    (hr : QueueRun s ops t) : ∃ q, Fifo.empty.run ops = some q ∧ t.toQueue.Line q.waiting := by
  have hs : s.toQueue.Holds Fifo.empty.waiting := by
    rw [h0]
    exact Ring.Holds.empty (by decide)
  obtain ⟨q, hq, ht⟩ := hr.picture (fun _ _ _ _ hm h => hm.line h) hs
  exact ⟨q, hq, ht.line⟩

theorem queueSize_of_queue (hq : t.toQueue = s.toQueue) (hs : s.queueSize ≠ 0) :
    t.queueSize ≠ 0 := by
  rw [show t.queueSize = s.queueSize from congrArg Queue.queueSize hq]
  exact hs

theorem afterHead_operated (hs : s.queueSize ≠ 0) (keep : Bool) :
    Operated s (afterHead (s, keep)) := by
  have hact (t : InferenceOrderBook) :
      (if 0 < t.queueSize then t.act .processHead else t).toQueue = t.toQueue := by
    split_ifs <;> rfl
  cases keep with
  | true => exact Fifo.Worked.of_eq (hact s)
  | false => exact (Fifo.Worked.one (QueueMove.advance hs)).other (hact s.advanceHead)

theorem rewriteHead_operated {r : InferenceOrderBook × Option QueueEntry}
    (hs : r.1.queueSize ≠ 0) : Operated r.1 (afterHead (rewriteHead r)) := by
  obtain ⟨v, x⟩ := r
  cases x with
  | none => exact afterHead_operated hs false
  | some e' =>
    have hm := QueueMove.rewrite (s := v) e' hs
    have hv := afterHead_operated
      (s := { v with queue := Function.update v.queue v.queueHead e' }) hs true
    exact (Fifo.Worked.one hm).trans hv

theorem Ready.operated (h : Ready s) (now : ℕ) : Operated s (s.processHeadCore now) := by
  by_cases hs : s.queueSize = 0
  · rw [show s.processHeadCore now = s from if_pos hs]
    exact .refl s
  · have hl := h.queue.list_cons hs
    rw [processHeadCore_eq hs]
    generalize s.queue s.queueHead = e at hl ⊢
    have he := (h.phase.runnable hl).1
    by_cases hk : e.entryType = .place
    · have hq := ((doPlaceHead_placed now s e).handled he hk h.ids h.clean).queue
      rw [runHead_place hk]
      exact (Fifo.Worked.of_eq hq).trans (rewriteHead_operated (queueSize_of_queue hq hs))
    · have hq := (runHead_shed now he.sound hk he.kind).quiet.queue
      exact (Fifo.Worked.of_eq hq).trans (afterHead_operated (queueSize_of_queue hq hs) _)

/-- What a call does before the head is run: it works the queue and queues at most one entry. -/
structure Enters (s u : InferenceOrderBook) : Prop where
  queues : Queues s u
  operated : Operated s u

theorem placeSellOffer_enters {sender : Addr} {p n pk nonce d : ℕ} {flags : UInt8} {note : Addr}
    (ht : s.placeSellOffer sender now p n flags pk nonce note d = some t) :
    (∃ u, Enters s u ∧ t = u.processHeadCore now) ∨ Spared s t := by
  simp only [placeSellOffer, bind_iff, pure_iff] at ht
  obtain ⟨hsender, ht⟩ := ht
  have htc : sender ≠ noAddr := by simp [hsender, noAddr]
  split_ifs at ht with hc
  · cases ht
    exact .inr (spared_act s _)
  · cases ht
    push Not at hc
    exact .inl ⟨_, ⟨.entry _ (fresh_sell hc.1 htc) (lt_capacity hc.2),
      .one (.place _ _ _ _ _ _ _ _ _ _ hc.2)⟩, rfl⟩

theorem placeBuyOrder_enters {sender : Addr} {c escrow p n d pk h : ℕ} {flags : UInt8}
    (hb : escrow < 2 ^ 128)
    (ht : s.placeBuyOrder sender now c escrow p n flags d pk h = some t) :
    ∃ u, Enters s u ∧ t = u.processHeadCore now := by
  obtain ⟨hq, ht'⟩ := placeBuyOrder_queues hb ht
  simp only [placeBuyOrder, bind_iff] at ht
  exact ⟨_, ⟨hq, .one (.place _ _ _ _ _ _ _ _ _ _ ht.2.2.2.2.2.2.2.2.2.2.1)⟩, ht'⟩

theorem exec_enters (hi : i.call.Typed) (ht : s.exec i = some t) :
    (∃ u, Enters s u ∧ t = u.processHeadCore i.now) ∨ t.toQueue = s.toQueue := by
  obtain ⟨sender, now, call⟩ := i
  cases call with
  | placeSellOffer =>
    rcases placeSellOffer_enters ht with h | h
    · exact .inl h
    · exact .inr h.queue
  | placeBuyOrder => exact .inl (placeBuyOrder_enters hi.2.1 ht)
  | cancelOrder id =>
    cases ht
    unfold cancelOrder
    split_ifs with hq
    · exact .inl ⟨_, ⟨.entry _ (fresh_request _ _ _ (by simp) (by simp)) hq,
        .one (.cancel sender id hq)⟩, rfl⟩
    · exact .inr rfl
  | cancelAllOrders =>
    cases ht
    unfold cancelAllOrders
    split_ifs with hq
    · exact .inl ⟨_, ⟨.entry _ (fresh_request _ _ _ (by simp) (by simp)) hq,
        .one (.cancelAll sender hq)⟩, rfl⟩
    · exact .inr rfl
  | expireOrder id =>
    simp only [exec, expireOrder, bind_iff, pure_iff] at ht
    obtain ⟨hq, rfl⟩ := ht
    exact .inl ⟨_, ⟨.entry _ (fresh_request _ _ _ (by simp) (by simp)) (lt_capacity hq),
      .one (.expire id hq)⟩, rfl⟩
  | processHead =>
    cases ht
    exact .inl ⟨s, ⟨.nothing, .refl s⟩, rfl⟩
  | bounced paid =>
    cases ht
    exact .inr (onBounce_spared paid).queue
  | onHandoverAccepted =>
    cases ht
    exact .inr rfl
  | reportFinalized =>
    cases ht
    exact .inr rfl
  | requestWeeklyMedian =>
    simp only [exec, requestWeeklyMedian, bind_iff, pure_iff] at ht
    obtain ⟨_, -, rfl⟩ := ht
    exact .inr rfl

theorem step_operated (hs : Ready s) (h : s.step i = some t) : Operated s t := by
  simp only [step, bind_iff] at h
  have hb : Operated s (s.begin i.now) := Fifo.Worked.of_eq rfl
  rcases exec_enters h.1 h.2.2 with ⟨u, hu, rfl⟩ | hq
  · have hr := hu.queues.ready (hs.begin i.now)
    exact (hb.trans hu.operated).trans (hr.operated i.now)
  · exact hb.other hq

theorem run_operated (hr : Run step (init modelHash) tr s) : Operated (init modelHash) s :=
  hr.invariant (fun _ s => Operated (init modelHash) s) (.refl _)
    fun _ _ _ _ ht hI hs => hI.trans (step_operated (run_ready ht) hs)

end InferenceOrderBook

/-- The queues of both books are first in, first out. Whatever queue operations run, the ring is a
faithful picture of the line, and the runs of a book work its queue by these operations alone; what
an accepted call of the dex book admits stands behind all the rest, its last entry marked. -/
theorem queues_are_lines :
    ((∀ (s t : OrderBook) (ops : List (Fifo.Op QueueEntry)), s.toQueue = Queue.empty →
        s.QueueRun ops t → ∃ q, Fifo.empty.run ops = some q ∧ t.toQueue.Line q.waiting) ∧
      (∀ (market : MarketId) (resultStart numOutcomes : ℕ) (tr : List (Call × OrderBook))
        (s : OrderBook), Run OrderBook.step (OrderBook.init market resultStart numOutcomes) tr s →
        (∃ ops, (OrderBook.init market resultStart numOutcomes).QueueRun ops s) ∧
        ∀ (c : Call) (h o : ℕ) (t : OrderBook), c.accepted? = some (h, o) → s.step c = some t →
          ∃ es u, s.atHead c = some u ∧
            u.toQueue.list = s.toQueue.list ++ OrderBook.closeLast es ∧
            (∀ e ∈ es, e.batch = s.batches ∧ e.isBatchEnd = false) ∧
            (∀ e ∈ s.toQueue.list, e.batch < s.batches) ∧
            (es ≠ [] → (u.queue u.lastSlot).isBatchEnd = true ∧
              (u.queue u.lastSlot).batch = s.batches))) ∧
    ((∀ (s t : InferenceOrderBook) (ops : List (Fifo.Op InferenceOrderBook.QueueEntry)),
        s.toQueue = InferenceOrderBook.Queue.empty → s.QueueRun ops t →
        ∃ q, Fifo.empty.run ops = some q ∧ t.toQueue.Line q.waiting) ∧
      ∀ (modelHash : ℕ) (tr : List (InferenceOrderBook.Input × InferenceOrderBook))
        (s : InferenceOrderBook),
        Run InferenceOrderBook.step (InferenceOrderBook.init modelHash) tr s →
        ∃ ops, (InferenceOrderBook.init modelHash).QueueRun ops s) := by
  refine ⟨⟨fun s t ops h0 h => OrderBook.queueRun_line h0 h, ?_⟩,
    fun s t ops h0 h => InferenceOrderBook.queueRun_line h0 h,
    fun modelHash tr s h => InferenceOrderBook.run_operated h⟩
  intro market resultStart numOutcomes tr s hr
  exact ⟨OrderBook.run_operated hr, fun c h o t hc hs => OrderBook.run_marks hr hc hs⟩

/-- A call of two offers leaves one of them in line. -/
theorem queues_are_lines_sample : ∃ (s : OrderBook) (ops : List (Fifo.Op QueueEntry))
    (q : Fifo QueueEntry), s.queueSize = 1 ∧ OrderBook.sampleBook.QueueRun ops s ∧
      Fifo.empty.run ops = some q ∧ s.toQueue.Line q.waiting := by
  have hr : Run OrderBook.step OrderBook.sampleBook _ _ :=
    .snoc .nil (Option.some_get OrderBook.sampleCall_accepted).symm
  obtain ⟨ops, hops⟩ := (queues_are_lines.1.2 _ _ _ _ _ hr).1
  obtain ⟨q, hq, hl⟩ := queues_are_lines.1.1 _ _ ops rfl hops
  exact ⟨_, ops, q, by decide, hops, hq, hl⟩

end Dexdo
