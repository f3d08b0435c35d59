import Dexdo.OrderBook.Progress

namespace Dexdo

namespace Queue

/-- The ring holds the line `l`. -/
def Holds (q : Queue) (l : List QueueEntry) : Prop :=
  Ring.Holds QUEUE_CAPACITY default q.queue q.queueHead q.queueTail q.queueSize l

/-- The ring is a faithful picture of the line `l`. -/
def Line (q : Queue) (l : List QueueEntry) : Prop :=
  Ring.Line QUEUE_CAPACITY default q.queue q.queueHead q.queueTail q.queueSize l

end Queue

namespace OrderBook

/-- Queue operations of the contract, each with the operation of the line it stands for. -/
inductive QueueMove (s : OrderBook) : Fifo.Op QueueEntry → OrderBook → Prop
  | place (depositHash : ℕ) (op : PlaceParams) (opNonce sub batch : ℕ) :
      QueueMove s (.enter QUEUE_PLACE_LIMIT
        { placeEntry depositHash op opNonce sub batch with queueId := s.nextQueueId })
        (s.enqueuePlace depositHash op opNonce sub batch).1
  | cancel (entryType : EntryType) (depositHash targetOrderId opNonce batch : ℕ) :
      QueueMove s (.enter QUEUE_CAPACITY { cancelEntry entryType depositHash targetOrderId opNonce
        batch with queueId := s.nextQueueId })
        (s.enqueueCancelEntry entryType depositHash targetOrderId opNonce batch).1
  | mark : s.queueSize ≠ 0 →
      QueueMove s (.amend fun e => { e with isBatchEnd := true }) (s.markBatchEnd s.lastSlot)
  | rewrite (head : QueueEntry) : s.queueSize ≠ 0 →
      QueueMove s (.rewrite head) { s with queue := Function.update s.queue s.queueHead head }
  | advance : s.queueSize ≠ 0 → QueueMove s .advance s.advanceHead

/-- A sequence of queue operations, with anything in between that leaves the queue alone. -/
abbrev QueueRun : OrderBook → List (Fifo.Op QueueEntry) → OrderBook → Prop :=
  Fifo.Works toQueue QueueMove

/-- The queue of the second book comes from that of the first by queue operations. -/
abbrev Operated : OrderBook → OrderBook → Prop := Fifo.Worked toQueue QueueMove

section Lines

variable {s t : OrderBook} {q : Fifo QueueEntry} {op : Fifo.Op QueueEntry}

theorem QueueMove.line (hm : QueueMove s op t) (h : s.toQueue.Holds q.waiting) :
    ∃ r, q.step op = some r ∧ t.toQueue.Holds r.waiting := by
  cases hm with
  | place =>
    unfold enqueuePlace
    split_ifs with hs
    · exact Fifo.ring_enter h (by decide) hs _
    · exact ⟨q, Fifo.ring_full h hs _, h⟩
  | cancel =>
    unfold enqueueCancelEntry
    split_ifs with hs
    · exact Fifo.ring_enter h le_rfl hs _
    · exact ⟨q, Fifo.ring_full h hs _, h⟩
  | mark hs => exact Fifo.ring_amend h hs rfl _
  | rewrite head hs => exact Fifo.ring_rewrite h hs head
  | advance hs => exact Fifo.ring_advance h hs

end Lines

section Runs

variable {s t u : OrderBook} {e : QueueEntry} {h o b : ℕ} {m : Option ℕ}

theorem leaveHead_operated (hq : t.toQueue = s.toQueue) (hs : s.queueSize ≠ 0)
    (y : Option QueueEntry) : Operated s (t.leaveHead e y).pokeNext := by
  have ht : t.queueSize ≠ 0 := by
    rw [show t.queueSize = s.queueSize from congrArg Queue.queueSize hq]
    exact hs
  have hpoke : (t.leaveHead e y).pokeNext.toQueue = (t.leaveHead e y).toQueue := by
    rw [pokeNext_same (s := t.leaveHead e y)]
  refine Fifo.Worked.other ?_ hpoke
  have hst : Operated s t := Fifo.Worked.of_eq hq
  cases y with
  | none =>
    refine (hst.trans (Fifo.Worked.one (QueueMove.advance ht))).other ?_
    rw [leaveHead, finishHead_same (s := t) e]
  | some e' => exact hst.trans (Fifo.Worked.one (QueueMove.rewrite e' ht))

theorem runHead_operated (hok : s.Ok) (hs : s.queueSize ≠ 0) :
    let e := s.queue s.queueHead
    let r := s.runHead e
    Operated s (if r.2 then r.1 else r.1.finishHead e).pokeNext := by
  intro e r
  have hl := hok.list_cons hs
  have hkeep {t : OrderBook} (hq : t.toQueue = s.toQueue) : Operated s t.pokeNext := by
    refine (Fifo.Worked.of_eq hq).other ?_
    rw [pokeNext_same (s := t)]
  cases ht : e.entryType with
  | none => exact absurd ht (hok.typed e (by rw [hl]; exact List.mem_cons_self))
  | cancel =>
    have hc := doCancel_spec (K := 0) hok.book e.depositHash e.targetOrderId e.opNonce e.batch
    have hr : r = (s.doCancel e.depositHash e.targetOrderId e.opNonce e.batch, false) := by
      simp [r, runHead, ht]
    rw [hr]
    exact leaveHead_operated hc.emits.1.toQueue hs none
  | cancelAll =>
    have hc := doCancelAll_spec (K := 0) hok.book e.depositHash e.opNonce e.batch
    have hr : r = ((s.doCancelAll e.depositHash e.opNonce e.batch).1, decide
        (MAX_CANCEL_ALL_PER_CALL ≤ (s.doCancelAll e.depositHash e.opNonce e.batch).2)) := by
      simp [r, runHead, ht]
    rw [hr]
    dsimp only
    split_ifs
    · exact hkeep hc.emits.1.toQueue
    · exact leaveHead_operated hc.emits.1.toQueue hs none
  | place =>
    have hp := doPlace_spec (K := 0) e hok.book hok.pos
      (hok.amount e (by rw [hl]; exact List.mem_cons_self) ht)
      (hok.head e (by rw [hl]; rfl) ht)
    have hr : (if r.2 then r.1 else r.1.finishHead e) =
        (s.doPlace e).1.leaveHead e (s.doPlace e).2 := by
      simp only [r, runHead, ht]
      rcases hdp : s.doPlace e with ⟨u, _ | e'⟩ <;> rfl
    rw [hr]
    exact leaveHead_operated hp.emits.1.toQueue hs _

theorem processHeadCore_operated (hok : s.Ok) : Operated s s.processHeadCore := by
  unfold processHeadCore
  dsimp only
  split_ifs with h1 h2 h3 h4 h5
  · exact .refl s
  · exact Fifo.Worked.of_eq rfl
  · exact .refl s
  · rw [refuseHead_eq]
    exact leaveHead_operated (refuse_emits (s := s) (e := s.queue s.queueHead) 0).1.toQueue h2 none
  · have := runHead_operated hok h2
    dsimp only at this
    rwa [if_pos h5] at this
  · have := runHead_operated hok h2
    dsimp only at this
    rwa [if_neg h5] at this

/-- Queueing the orders of a call: the mark is the slot written last. -/
structure Queued (s : OrderBook) (r : OrderBook × Option ℕ) : Prop where
  operated : Operated s r.1
  mark : ∀ slot, r.2 = some slot → slot = r.1.lastSlot ∧ r.1.queueSize ≠ 0

theorem Queued.start (s : OrderBook) : Queued s ({ s with batches := s.batches + 1 }, none) := by
  refine ⟨Fifo.Worked.of_eq rfl, ?_⟩
  intro slot hm
  cases hm

/-- An enqueue takes a slot, or leaves the queue as it is. -/
def Enqueued (s : OrderBook) (r : OrderBook × Bool) : Prop :=
  r.2 = true ∧ r.1.queueSize ≠ 0 ∨ r.2 = false ∧ r.1.toQueue = s.toQueue

theorem enqueuePlace_enqueued (s : OrderBook) (op : PlaceParams) (sub : ℕ) :
    Enqueued s (s.enqueuePlace h op o sub b) := by
  unfold enqueuePlace
  split_ifs
  · exact .inl ⟨rfl, Nat.succ_ne_zero _⟩
  · exact .inr ⟨rfl, rfl⟩

theorem enqueueCancelEntry_enqueued (s : OrderBook) (type : EntryType) (target : ℕ) :
    Enqueued s (s.enqueueCancelEntry type h target o b) := by
  unfold enqueueCancelEntry
  split_ifs
  · exact .inl ⟨rfl, Nat.succ_ne_zero _⟩
  · exact .inr ⟨rfl, rfl⟩

theorem Queued.of_queue (hq : Queued s (t, m)) (hu : u.toQueue = t.toQueue) :
    Queued s (u, m) := by
  refine ⟨hq.operated.other hu, fun slot hslot => ?_⟩
  have hl : u.lastSlot = t.lastSlot := by rw [lastSlot, lastSlot, hu]
  have hn : u.queueSize = t.queueSize := congrArg Queue.queueSize hu
  change slot = u.lastSlot ∧ u.queueSize ≠ 0
  rw [hl, hn]
  exact hq.mark slot hslot

theorem Queued.enqueue {r : OrderBook × Bool} (hq : Queued s (t, m)) (ho : Operated t r.1)
    (hr : Enqueued t r) : Queued s (r.1, if r.2 then some r.1.lastSlot else m) := by
  obtain ⟨u, ok⟩ := r
  rcases hr with ⟨hk, hn⟩ | ⟨hk, hu⟩
  · obtain rfl : ok = true := hk
    refine ⟨hq.operated.trans ho, fun slot hslot => ⟨?_, hn⟩⟩
    exact (Option.some.inj hslot).symm
  · obtain rfl : ok = false := hk
    exact hq.of_queue hu

theorem Queued.cancel (hq : Queued s (t, m)) (type : EntryType) (target : ℕ) :
    let r := t.enqueueCancelEntry type h target o b
    Queued s (r.1, if r.2 then some r.1.lastSlot else m) :=
  hq.enqueue (Fifo.Worked.one (QueueMove.cancel type h target o b))
    (enqueueCancelEntry_enqueued t type target)

theorem Queued.place (hq : Queued s (t, m)) (op : PlaceParams) :
    Queued s (batchPlace h o b (t, m) op) := by
  have hn : Queued s ({ t with subs := t.subs + 1 }, m) := hq.of_queue rfl
  unfold batchPlace
  dsimp only
  by_cases hv : op.valid t.market.tokenType = true
  · rw [if_pos hv]
    have hp := hn.enqueue (Fifo.Worked.one (QueueMove.place h op o t.subs b))
      (enqueuePlace_enqueued _ op t.subs)
    cases hk : ({ t with subs := t.subs + 1 }.enqueuePlace h op o t.subs b).2 with
    | true =>
      rw [hk] at hp
      exact hp
    | false =>
      rw [hk] at hp
      exact hp.of_queue rfl
  · rw [if_neg hv]
    exact hn.of_queue rfl

theorem Queued.cancels (hq : Queued s (t, m)) (ids : List ℕ) :
    Queued s (ids.foldl (batchCancel h o b) (t, m)) := by
  induction ids generalizing t m with
  | nil => exact hq
  | cons id ids ih => exact ih (hq.cancel .cancel id)

theorem Queued.places (hq : Queued s (t, m)) (orders : List PlaceParams) :
    Queued s (orders.foldl (batchPlace h o b) (t, m)) := by
  induction orders generalizing t m with
  | nil => exact hq
  | cons op orders ih => exact ih (hq.place op)

theorem Queued.marked {r : OrderBook × Option ℕ} (hq : Queued s r) : Operated s (marked r) := by
  obtain ⟨t, m⟩ := r
  cases m with
  | none => exact hq.operated
  | some slot =>
    obtain ⟨hslot, hs⟩ := hq.mark slot rfl
    change Operated s (t.markBatchEnd slot)
    rw [hslot]
    exact hq.operated.trans (Fifo.Worked.one (QueueMove.mark hs))

theorem Queued.close {r : OrderBook × Option ℕ} (hq : Queued s r) (hok : (OrderBook.marked r).Ok) :
    Operated s (closeBatch r h o b) := by
  have hp := hq.marked.trans (processHeadCore_operated hok)
  obtain ⟨t, m⟩ := r
  cases m with
  | none => exact hp.other rfl
  | some => exact hp

theorem step_operated (hok : s.Ok) {c : Call} (hs : s.step c = some t) : Operated s t := by
  have hb : Operated s s.begin := Fifo.Worked.of_eq rfl
  have hbok := begin_ok hok
  refine hb.trans ?_
  obtain ⟨hh, o, es, u, v, -, hu, ha⟩ | ⟨-, rfl⟩ | ⟨-, -, -, hq⟩ := step_cases hok hs
  · replace hs := step_body hs
    unfold body at hs
    split_ifs at hs with hd
    cases c with
    | executeBatch sender now hn orders ids =>
      simp only [executeBatch, bind_iff, pure_iff] at hs
      obtain ⟨-, -, -, -, -, -, -, -, -, -, rfl⟩ := hs
      cases hu
      exact Queued.close (((Queued.start s.begin).cancels ids).places orders) ha.ok.1
    | cancelAllOrders =>
      simp only [cancelAllOrders, bind_iff, pure_iff] at hs
      obtain ⟨-, -, -, -, -, -, rfl⟩ := hs
      cases hu
      exact Queued.close ((Queued.start s.begin).cancel .cancelAll 0) ha.ok.1
    | processHead =>
      cases hs
      exact processHeadCore_operated hbok
    | setResultStart => cases hu
    | shutdown => cases hu
  · exact processHeadCore_operated hbok
  · exact Fifo.Worked.of_eq hq.queue

variable {market : MarketId} {resultStart numOutcomes : ℕ} {tr : List (Call × OrderBook)}

theorem run_operated (hr : Run step (OrderBook.init market resultStart numOutcomes) tr s) :
    Operated (OrderBook.init market resultStart numOutcomes) s :=
  hr.invariant (fun _ s => Operated (OrderBook.init market resultStart numOutcomes) s) (.refl _)
    fun _ _ _ _ ht hI hs => hI.trans (step_operated (run_ok ht) hs)

theorem queueRun_line {ops : List (Fifo.Op QueueEntry)} (h0 : s.toQueue = Queue.empty)
    (hr : QueueRun s ops t) : ∃ q, Fifo.empty.run ops = some q ∧ t.toQueue.Line q.waiting := by
  have hs : s.toQueue.Holds Fifo.empty.waiting := by
    rw [h0]
    exact Ring.Holds.empty (by decide)
  obtain ⟨q, hq, ht⟩ := hr.picture (fun _ _ _ _ hm h => hm.line h) hs
  exact ⟨q, hq, ht.line⟩

theorem run_marks (hr : Run step (OrderBook.init market resultStart numOutcomes) tr s) {c : Call}
    (hc : c.accepted? = some (h, o)) (hs : s.step c = some t) :
    ∃ es u, s.atHead c = some u ∧ u.toQueue.list = s.toQueue.list ++ closeLast es ∧
      (∀ e ∈ es, e.batch = s.batches ∧ e.isBatchEnd = false) ∧
      (∀ e ∈ s.toQueue.list, e.batch < s.batches) ∧
      (es ≠ [] →
        (u.queue u.lastSlot).isBatchEnd = true ∧ (u.queue u.lastSlot).batch = s.batches) := by
  have hf := (run_tracked hr).2
  obtain ⟨hh, on, es, u, v, ha, hu, hacc⟩ | ⟨rfl, -⟩ | ⟨⟨ha, -⟩, -⟩ := step_cases (run_ok hr) hs
  · refine ⟨es, u, hu, hacc.list, fun e he => ?_, fun e he => ?_, fun hne => ?_⟩
    · have := hacc.entries e he
      exact ⟨this.batch, this.open_⟩
    · exact hf.count ▸ hf.queue.batch_lt he
    · obtain ⟨es, e, rfl⟩ := (List.eq_nil_or_concat' es).resolve_left hne
      have hl := hacc.list
      rw [closeLast_concat, ← List.append_assoc] at hl
      rw [(lastSlot_entry hacc.ok.1.queue hl).2.2]
      exact ⟨rfl, (hacc.entries e (by simp)).batch⟩
  · cases hc
  · rw [ha] at hc
    cases hc

end Runs

end OrderBook

end Dexdo
