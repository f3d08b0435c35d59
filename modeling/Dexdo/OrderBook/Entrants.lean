import Dexdo.OrderBook.Turn
import Dexdo.OrderBook.Answers

namespace Dexdo.OrderBook

/-- A PLACE entry as a call of note `h` with nonce `o` queues it: order number `i` of `ops`,
valid and not begun. -/
def Entrant (tokenType h o b sub : ℕ) (ops : List PlaceParams) (e : QueueEntry) : Prop :=
  ∃ i p, ops[i]? = some p ∧ p.valid tokenType = true ∧
    e = { placeEntry h p o (sub + i) b with queueId := e.queueId, isBatchEnd := e.isBatchEnd }

variable {s t u : OrderBook} {h o b : ℕ} {m : Option ℕ}

theorem batchPlace_list (hq : s.toQueue.Ok) (op : PlaceParams) :
    (batchPlace h o b (s, m) op).1.toQueue.list = s.toQueue.list ++
      if op.valid s.market.tokenType = true ∧ s.queueSize < QUEUE_PLACE_LIMIT then
        [{ placeEntry h op o s.subs b with queueId := s.nextQueueId }]
      else [] := by
  unfold batchPlace enqueuePlace
  dsimp only
  by_cases hv : op.valid s.market.tokenType
  · rw [if_pos hv]
    by_cases hs : s.queueSize < QUEUE_PLACE_LIMIT
    · simp only [hs, hv, if_true, and_self]
      exact (enqueue_list (s := { s with subs := s.subs + 1 }) hq (hs.trans (by decide)) _).2
    · simp only [hs, if_false, Bool.false_eq_true, and_false, List.append_nil]
      rfl
  · rw [if_neg hv, if_neg fun hc => hv hc.1, List.append_nil]
    rfl

theorem batchPlaces_list (hq : s.toQueue.Ok) (ops : List PlaceParams) :
    ∃ es, (ops.foldl (batchPlace h o b) (s, m)).1.toQueue.list = s.toQueue.list ++ es ∧
      ∀ e ∈ es, Entrant s.market.tokenType h o b s.subs ops e := by
  induction ops generalizing s m with
  | nil => exact ⟨[], by simp, by simp⟩
  | cons op ops ih =>
    obtain ⟨es0, hsub, -⟩ := batchPlace_spec (h := h) (o := o) (b := b) (m := m) hq op
    obtain ⟨es, hl, he⟩ := ih (m := (batchPlace h o b (s, m) op).2) hsub.queue
    have hmk : (batchPlace h o b (s, m) op).1.market = s.market := by rw [hsub.frame]
    rw [hmk, hsub.subs] at he
    refine ⟨_, by rw [List.foldl_cons, hl, batchPlace_list hq, List.append_assoc], ?_⟩
    intro e hm
    rcases List.mem_append.mp hm with hm | hm
    · split_ifs at hm with hc
      · rw [List.mem_singleton.mp hm]
        exact ⟨0, op, rfl, hc.1, rfl⟩
      · cases hm
    · obtain ⟨i, p, hp, hv, heq⟩ := he e hm
      refine ⟨i + 1, p, by simpa using hp, hv, ?_⟩
      rw [Nat.add_assoc, Nat.add_comm 1 i] at heq
      exact heq

theorem enqueueCancelEntry_list (hq : s.toQueue.Ok) (type : EntryType) (target : ℕ)
    (hp : type ≠ .place) :
    ∃ es, (s.enqueueCancelEntry type h target o b).1.toQueue.list = s.toQueue.list ++ es ∧
      ∀ e ∈ es, e.entryType ≠ .place := by
  unfold enqueueCancelEntry
  split_ifs with hs
  · refine ⟨_, (enqueue_list hq hs _).2, ?_⟩
    intro e he
    rw [List.mem_singleton.mp he]
    exact hp
  · exact ⟨[], (List.append_nil _).symm, by simp⟩

theorem batchCancels_list (hq : s.toQueue.Ok) (ids : List ℕ) :
    ∃ es, (ids.foldl (batchCancel h o b) (s, m)).1.toQueue.list = s.toQueue.list ++ es ∧
      ∀ e ∈ es, e.entryType ≠ .place := by
  induction ids generalizing s m with
  | nil => exact ⟨[], by simp, by simp⟩
  | cons id ids ih =>
    obtain ⟨es0, hsub, -⟩ := batchCancel_spec (h := h) (o := o) (b := b) (m := m) hq id
    obtain ⟨es1, h1, n1⟩ := enqueueCancelEntry_list (h := h) (o := o) (b := b) hq .cancel id
      (by simp)
    obtain ⟨es, hl, he⟩ := ih (m := (batchCancel h o b (s, m) id).2) hsub.queue
    refine ⟨es1 ++ es, ?_, ?_⟩
    · rw [List.foldl_cons, hl, ← List.append_assoc, ← h1]
      rfl
    · intro e hm
      rcases List.mem_append.mp hm with hm | hm
      · exact n1 e hm
      · exact he e hm

theorem enqueueBatch_list (hq : s.toQueue.Ok) (ops : List PlaceParams) (ids : List ℕ) :
    ∃ es, (s.enqueueBatch h ops ids o).1.toQueue.list = s.toQueue.list ++ es ∧
      ∀ e ∈ es, e.entryType = .place → Entrant s.market.tokenType h o s.batches s.subs ops e := by
  have hq' : ({ s with batches := s.batches + 1 } : OrderBook).toQueue.Ok := hq
  obtain ⟨es0, hc, -⟩ := batchCancels_spec (h := h) (o := o) (b := s.batches) (m := none) hq' ids
  obtain ⟨es1, h1, n1⟩ := batchCancels_list (h := h) (o := o) (b := s.batches) (m := none) hq' ids
  obtain ⟨es2, h2, n2⟩ := batchPlaces_list (h := h) (o := o) (b := s.batches)
    (m := (ids.foldl (batchCancel h o s.batches) ({ s with batches := s.batches + 1 }, none)).2)
    hc.queue ops
  have hmk : (ids.foldl (batchCancel h o s.batches)
      ({ s with batches := s.batches + 1 }, none)).1.market = s.market := by rw [hc.frame]
  rw [hmk, hc.subs] at n2
  refine ⟨es1 ++ es2, ?_, ?_⟩
  · rw [← List.append_assoc, ← h1]
    exact h2
  · intro e hm hp
    rcases List.mem_append.mp hm with hm | hm
    · exact absurd hp (n1 e hm)
    · exact n2 e hm

theorem marked_list {r : OrderBook × Option ℕ} {es : List QueueEntry} (hq : r.1.toQueue.Ok)
    (hl : r.1.toQueue.list = s.toQueue.list ++ es)
    (hm : r.2 = if es = [] then none else some r.1.lastSlot) :
    (marked r).toQueue.list = s.toQueue.list ++ closeLast es := by
  rcases List.eq_nil_or_concat' es with rfl | ⟨es, e, rfl⟩
  · unfold marked
    rw [hm]
    exact hl
  · have hm' : r.2 = some r.1.lastSlot := by simpa using hm
    rw [← List.append_assoc] at hl
    unfold marked
    rw [hm', closeLast_concat, ← List.append_assoc]
    exact (markBatchEnd_list hq hl).2

theorem Entrant.closeLast {tokenType sub : ℕ} {ops : List PlaceParams} {es : List QueueEntry}
    (he : ∀ e ∈ es, e.entryType = .place → Entrant tokenType h o b sub ops e) :
    ∀ e ∈ OrderBook.closeLast es, e.entryType = .place → Entrant tokenType h o b sub ops e := by
  rcases List.eq_nil_or_concat' es with rfl | ⟨es, e, rfl⟩
  · exact he
  · rw [closeLast_concat]
    intro x hx hp
    rcases List.mem_append.mp hx with hx | hx
    · exact he x (by simp [hx]) hp
    · rw [List.mem_singleton.mp hx] at hp ⊢
      obtain ⟨i, p, h1, h2, h3⟩ := he e (by simp) hp
      refine ⟨i, p, h1, h2, ?_⟩
      rw [h3]

/-- The PLACE entry of the order a call submits as number `i`. -/
def Queues (s : OrderBook) (c : Call) (e : QueueEntry) : Prop :=
  ∃ i p, c.orders[i]? = some (e.depositHash, p) ∧ p.valid s.market.tokenType = true ∧
    e = { placeEntry e.depositHash p e.opNonce (s.subs + i) e.batch with
      queueId := e.queueId, isBatchEnd := e.isBatchEnd }

/-- The orders a call queues enter behind the waiting entries, valid and not begun. -/
theorem atHead_entrants (hs : s.Ok) {c : Call} (ht : s.step c = some t) (hu : s.atHead c = some u) :
    ∃ es, u.toQueue.list = s.toQueue.list ++ es ∧ ∀ e ∈ es, e.entryType = .place → s.Queues c e := by
  have hok := begin_ok hs
  replace ht := step_body ht
  unfold body at ht
  split_ifs at ht with hd
  cases c with
  | executeBatch sender now hh orders ids o =>
    cases hu
    obtain ⟨es, hl, he⟩ := enqueueBatch_list (h := hh) (o := o) hok.queue orders ids
    obtain ⟨es0, hc, -⟩ := batchCancels_spec (h := hh) (o := o) (b := s.begin.batches) (m := none)
      (s := { s.begin with batches := s.begin.batches + 1 }) hok.queue ids
    obtain ⟨es1, hp, -⟩ := batchPlaces_spec (h := hh) (o := o) (b := s.begin.batches)
      (m := (ids.foldl (batchCancel hh o s.begin.batches)
        ({ s.begin with batches := s.begin.batches + 1 }, none)).2) hc.queue orders
    have hsub := hc.trans hp
    have hes : es = es0 ++ es1 := List.append_cancel_left (hl.symm.trans hsub.list)
    refine ⟨_, marked_list (s := s.begin) hsub.queue hl (hes ▸ hsub.mark), ?_⟩
    intro e hm hpl
    obtain ⟨i, p, h1, h2, h3⟩ := Entrant.closeLast he e hm hpl
    have hh1 : e.depositHash = hh := by rw [h3]; rfl
    have hh2 : e.opNonce = o := by rw [h3]; rfl
    have hh3 : e.batch = s.begin.batches := by rw [h3]; rfl
    refine ⟨i, p, ?_, h2, ?_⟩
    · simp [Call.orders, h1, hh1]
    · rw [hh1, hh2, hh3]
      exact h3
  | cancelAllOrders sender now hh o =>
    cases hu
    obtain ⟨es, hl, he⟩ := enqueueCancelEntry_list (h := hh) (o := o) (b := s.begin.batches)
      (s := { s.begin with batches := s.begin.batches + 1 }) hok.queue .cancelAll 0 (by simp)
    obtain ⟨es0, hsub, -⟩ := enqueueCancelEntry_spec (h := hh) (o := o) (b := s.begin.batches)
      (m := none) (s := { s.begin with batches := s.begin.batches + 1 }) hok.queue .cancelAll 0
      (by simp) (by simp)
    have hes : es = es0 := List.append_cancel_left (hl.symm.trans hsub.list)
    refine ⟨_, marked_list (r := s.begin.enqueuedCancelAll hh o) (s := s.begin) hsub.queue hl
      (hes ▸ hsub.mark), ?_⟩
    intro e hm hpl
    rcases List.eq_nil_or_concat' es with rfl | ⟨es, x, rfl⟩
    · cases hm
    · rw [closeLast_concat] at hm
      rcases List.mem_append.mp hm with hm | hm
      · exact absurd hpl (he e (by simp [hm]))
      · rw [List.mem_singleton.mp hm] at hpl
        exact absurd hpl (he x (by simp))
  | processHead =>
    cases hu
    exact ⟨[], (List.append_nil _).symm, by simp⟩
  | setResultStart => cases hu
  | shutdown => cases hu

end Dexdo.OrderBook
