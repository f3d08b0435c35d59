import Dexdo.OrderBook.Run

namespace Dexdo

/-- Actions that report a placement or a fill: the event and the callback beside it. -/
def Action.isTrade : Action → Bool
  | .event (.orderPlaced ..) => true
  | .event (.orderFilled ..) => true
  | .callback _ (.onOrderPlaced ..) _ _ => true
  | .callback _ (.onOrderFilled ..) _ _ => true
  | _ => false

/-- What `_emitOrderPlacedTo` reports about the order of entry `e`. -/
def placedActions (e : QueueEntry) (orderId : ℕ) : List Action :=
  let p := e.params
  let cost := if p.isBuy then OrderBook.placeCost p else 0
  let feeReserve := if p.isBuy then takerFeeOf cost else 0
  let lock := if p.isBuy then cost + feeReserve else 0
  [.event (.orderPlaced orderId p.outcomeId p.isBuy p.flags p.price p.amount p.clientOrderId
      e.depositHash e.opNonce),
    .callback e.depositHash (.onOrderPlaced orderId feeReserve lock p.clientOrderId p.outcomeId
      p.isBuy p.flags p.price p.amount e.opNonce) e.sub (some e.batch)]

/-- What one fill reports: event and callback of the resting order `cp`, then of the taker. -/
def fillActions (e : QueueEntry) (orderId : ℕ) (cp : Order) (f : OrderBook.Fill)
    (numOutcomes matchId : ℕ) : List Action :=
  let p := e.params
  let price := f.maker.price
  let takerFee := takerFeeOf (notionalOf f.trade price)
  [.event (.orderFilled f.maker.id f.trade price (makerRebateOf takerFee) false matchId
      cp.depositHash),
    .callback cp.depositHash (.onOrderFilled p.outcomeId f.trade price cp.isBuy
      (if p.isBuy then 0 else notionalOf f.trade (cp.price - price)) (makerRebateOf takerFee) true
      f.maker.id (decide (cp.amount = f.trade)) numOutcomes cp.clientOrderId) cp.sub (some e.batch),
    .event (.orderFilled orderId f.trade price takerFee true matchId e.depositHash),
    .callback e.depositHash (.onOrderFilled p.outcomeId f.trade price p.isBuy
      (if p.isBuy ∧ ¬ p.isMarket then notionalOf f.trade (p.storedPrice - price) else 0) takerFee
      false orderId (decide (OrderBook.takerSpent p f.trade price = f.remaining)) numOutcomes
      p.clientOrderId) e.sub (some e.batch)]

/-- What the fills of one pass report; matches are numbered from `matchSeq + 1` on. -/
def tradeActions (b : Book) (e : QueueEntry) (orderId numOutcomes : ℕ) :
    (matchSeq : ℕ) → List OrderBook.Fill → List Action
  | _, [] => []
  | matchSeq, f :: fills =>
    fillActions e orderId (b.core f.maker.id) f numOutcomes (matchSeq + 1) ++
      tradeActions b e orderId numOutcomes (matchSeq + 1) fills

namespace OrderBook

/-- Placements and fills the current transaction has reported, oldest first. -/
def history (s : OrderBook) : List Action := s.actions.filter Action.isTrade

variable {s t : OrderBook} {n : ℕ} {A : Book.Index}

theorem act_history (a : Action) :
    (s.act a).history = s.history ++ if a.isTrade then [a] else [] := by
  unfold history act
  rw [List.filter_append]
  congr 1
  cases h : a.isTrade <;> simp [h]

theorem act_history_silent {a : Action} (h : a.isTrade = false) : (s.act a).history = s.history := by
  rw [act_history, h]
  simp

theorem emit_history (ev : BookEvent) (h : Action.isTrade (.event ev) = false) :
    (s.emit ev).history = s.history := act_history_silent h

section Silent

variable (pnHash orderId outcomeId returnAmt clientOrderId opNonce sub : ℕ) (isBuy : Bool)
  (c : Option ℕ) (op : PlaceParams) (e : QueueEntry)

@[simp] theorem setBook_history (b : Book) : (s.setBook b).history = s.history := rfl

@[simp] theorem notifyCancelled_history :
    (s.notifyCancelled pnHash orderId outcomeId isBuy returnAmt clientOrderId opNonce sub c).history
      = s.history := by
  unfold notifyCancelled
  rw [act_history_silent rfl, emit_history _ rfl]

@[simp] theorem notifyRejectedPlace_history :
    (s.notifyRejectedPlace pnHash op opNonce sub c).history = s.history := act_history_silent rfl

@[simp] theorem notifyBatchAccepted_history (batch : ℕ) :
    (s.notifyBatchAccepted pnHash opNonce batch).history = s.history := act_history_silent rfl

@[simp] theorem cancelTaker_history :
    (s.cancelTaker e orderId returnAmt).history = s.history := notifyCancelled_history ..

@[simp] theorem cancelResting_history :
    (s.cancelResting pnHash orderId opNonce c).history = s.history := notifyCancelled_history ..

@[simp] theorem emitMakerFill_history (cur trade : ℕ) (cp : Order) :
    (s.emitMakerFill cur cp trade).history = s.history := by
  unfold emitMakerFill
  split_ifs <;> exact emit_history _ rfl

@[simp] theorem pokeNext_history : s.pokeNext.history = s.history := by
  unfold pokeNext
  split_ifs
  · exact act_history_silent rfl
  · exact act_history_silent rfl
  · rfl

@[simp] theorem finishHead_history : (s.finishHead e).history = s.history := by
  unfold finishHead
  dsimp only
  split_ifs
  · exact notifyBatchAccepted_history ..
  · rfl

@[simp] theorem leaveHead_history (y : Option QueueEntry) : (s.leaveHead e y).history = s.history := by
  cases y with
  | none => exact finishHead_history e
  | some => rfl

@[simp] theorem refuse_history : (s.refuse e).history = s.history := by
  unfold refuse
  split_ifs
  · exact notifyRejectedPlace_history ..
  · exact cancelTaker_history ..
  · rfl

theorem doCancel_history (batch : ℕ) :
    (s.doCancel pnHash orderId opNonce batch).history = s.history := by
  unfold doCancel
  dsimp only
  split_ifs
  · rfl
  · rfl
  · exact cancelResting_history ..

theorem cancelAllWalk_history (batch left cur : ℕ) :
    (cancelAllWalk pnHash opNonce batch left cur s).1.history = s.history := by
  induction left generalizing cur s with
  | zero => rfl
  | succ left ih =>
    unfold cancelAllWalk
    split_ifs
    · rfl
    · rw [ih, cancelResting_history]

theorem doCancelAll_history (batch : ℕ) :
    (s.doCancelAll pnHash opNonce batch).1.history = s.history := cancelAllWalk_history ..

theorem settleRest_history (m : MatchState) : (settleRest m e orderId).history = m.book.history := by
  unfold settleRest
  dsimp only
  split_ifs <;> simp

theorem settleTaker_history (m : MatchState) : (settleTaker m e orderId).history = m.book.history := by
  unfold settleTaker
  split_ifs
  · rw [emit_history _ rfl, settleRest_history]
  · rw [emit_history _ rfl, settleRest_history]
  · exact settleRest_history ..

end Silent

theorem emitOrderPlacedTo_history (e : QueueEntry) (orderId : ℕ) :
    (s.emitOrderPlacedTo e orderId).history = s.history ++ placedActions e orderId := by
  unfold emitOrderPlacedTo emit
  dsimp only
  rw [act_history, act_history, List.append_assoc]
  rfl

/-- What opening the order of entry `e` reports. -/
def openedActions (s : OrderBook) (e : QueueEntry) : List Action :=
  if e.targetOrderId = 0 then placedActions e s.nextOrderId else []

theorem openOrder_history (e : QueueEntry) :
    (s.openOrder e).1.history = s.history ++ s.openedActions e := by
  unfold openOrder openedActions
  split_ifs
  · exact emitOrderPlacedTo_history e s.nextOrderId
  · exact (List.append_nil _).symm

theorem processFillTo_history (pnHash orderId outcomeId filledAmount clearingPrice : ℕ)
    (isBuy : Bool) (buyerRefund : ℕ) (isTaker isFinal : Bool)
    (clientOrderId matchId sub : ℕ) (c : Option ℕ) :
    let fee := if isTaker then takerFeeOf (notionalOf filledAmount clearingPrice)
      else makerRebateOf (takerFeeOf (notionalOf filledAmount clearingPrice))
    (s.processFillTo pnHash orderId outcomeId filledAmount clearingPrice isBuy buyerRefund isTaker
      isFinal clientOrderId matchId sub c).history = s.history ++
      [.event (.orderFilled orderId filledAmount clearingPrice fee isTaker matchId pnHash),
        .callback pnHash (.onOrderFilled outcomeId filledAmount clearingPrice isBuy buyerRefund fee
          (!isTaker) orderId isFinal s.numOutcomes clientOrderId) sub c] := by
  unfold processFillTo emit
  dsimp only
  rw [act_history, act_history, List.append_assoc]
  cases isTaker <;> rfl

theorem fillMaker_history (e : QueueEntry) (orderId : ℕ) (f : Fill) :
    (s.fillMaker e orderId f.maker.id f.maker.price f.remaining f.trade).history = s.history ++
      fillActions e orderId (s.core f.maker.id) f s.numOutcomes (s.matchSeq + 1) := by
  unfold fillMaker
  dsimp only
  rw [setBook_history, emitMakerFill_history, processFillTo_history, processFillTo_history,
    List.append_assoc, (processFillTo_frame ..).numOutcomes]
  rfl

theorem fillMaker_matchSeq (e : QueueEntry) (orderId cur q remaining trade : ℕ) :
    (s.fillMaker e orderId cur q remaining trade).matchSeq = s.matchSeq + 1 := by
  unfold fillMaker processFillTo emitMakerFill
  dsimp only
  split_ifs <;> rfl

theorem tradeActions_congr {b c : Book} {e : QueueEntry} {orderId N seq : ℕ} {fills : List Fill}
    (h : ∀ f ∈ fills, c.core f.maker.id = b.core f.maker.id) :
    tradeActions c e orderId N seq fills = tradeActions b e orderId N seq fills := by
  induction fills generalizing seq with
  | nil => rfl
  | cons f fills ih =>
    rw [tradeActions, tradeActions, h f (by simp), ih fun g hg => h g (by simp [hg])]

theorem applyFills_history (e : QueueEntry) (orderId : ℕ) {fills : List Fill}
    (r : s.toBook.Rep n A) (hok : s.toBook.FillsOk e.params.outcomeId fills) :
    (applyFills e orderId s fills).history =
      s.history ++ tradeActions s.toBook e orderId s.numOutcomes s.matchSeq fills := by
  induction fills generalizing s A with
  | nil => exact (List.append_nil _).symm
  | cons f fills ih =>
    obtain ⟨hs, ho, ha⟩ := hok.stored f (by simp)
    have hle := hok.trade_le f (by simp)
    have r' := r.consume hs ho (ha ▸ hle : f.trade ≤ (s.core f.maker.id).amount)
    have hb := fillMaker_toBook s e orderId f.maker.id f.maker.price f.remaining f.trade
    have hnd := List.nodup_cons.mp hok.nodup
    have hcore : ∀ g ∈ fills, (s.fillMaker e orderId f.maker.id f.maker.price f.remaining
        f.trade).core g.maker.id = s.core g.maker.id := by
      intro g hg
      rw [hb, Book.consume_core _ r hs ho, if_neg]
      intro he
      exact hnd.1 (List.mem_map.mpr ⟨g, hg, he⟩)
    rw [applyFills_cons, ih (hb ▸ r') (hb ▸ hok.tail r), fillMaker_history, tradeActions_congr hcore,
      fillMaker_matchSeq, (fillMaker_frame ..).numOutcomes, List.append_assoc]
    rfl

section Queueing

@[simp] theorem enqueue_history (e : QueueEntry) : (s.enqueue e).history = s.history :=
  emit_history _ rfl

theorem enqueueCancelEntry_history (type : EntryType) (h target o b : ℕ) :
    (s.enqueueCancelEntry type h target o b).1.history = s.history := by
  unfold enqueueCancelEntry
  split_ifs
  · exact enqueue_history _
  · exact emit_history _ rfl

theorem batchCancel_history (h o b id : ℕ) (m : Option ℕ) :
    (batchCancel h o b (s, m) id).1.history = s.history := enqueueCancelEntry_history ..

theorem batchPlace_history (h o b : ℕ) (m : Option ℕ) (op : PlaceParams) :
    (batchPlace h o b (s, m) op).1.history = s.history := by
  unfold batchPlace enqueuePlace
  dsimp only
  by_cases hv : op.valid s.market.tokenType
  · rw [if_pos hv]
    by_cases hs : s.queueSize < QUEUE_PLACE_LIMIT
    · simp only [hs, if_true]
      exact enqueue_history _
    · simp only [hs, if_false, Bool.false_eq_true]
      rw [notifyRejectedPlace_history, emit_history _ rfl]
      rfl
  · rw [if_neg hv, notifyRejectedPlace_history, emit_history _ rfl]
    rfl

theorem foldl_history {α : Type} (f : OrderBook × Option ℕ → α → OrderBook × Option ℕ)
    (hf : ∀ s m x, (f (s, m) x).1.history = s.history) (xs : List α) (r : OrderBook × Option ℕ) :
    (xs.foldl f r).1.history = r.1.history := by
  induction xs generalizing r with
  | nil => rfl
  | cons x xs ih => exact (ih (f r x)).trans (hf r.1 r.2 x)

theorem marked_history (r : OrderBook × Option ℕ) : (marked r).history = r.1.history := by
  unfold marked
  cases r.2 <;> rfl

theorem enqueueBatch_history (h : ℕ) (orders : List PlaceParams) (ids : List ℕ) (o : ℕ) :
    (marked (s.enqueueBatch h orders ids o)).history = s.history := by
  rw [marked_history]
  unfold enqueueBatch
  dsimp only
  rw [foldl_history _ fun s m x => batchPlace_history h o _ m x,
    foldl_history _ fun s m x => batchCancel_history h o _ x m]
  rfl

theorem enqueuedCancelAll_history (h o : ℕ) :
    (marked (s.enqueuedCancelAll h o)).history = s.history := by
  rw [marked_history]
  exact enqueueCancelEntry_history ..

theorem closeBatch_history (r : OrderBook × Option ℕ) (h o b : ℕ) :
    (closeBatch r h o b).history = (marked r).processHeadCore.history := by
  unfold closeBatch marked
  cases r.2 with
  | none => exact notifyBatchAccepted_history ..
  | some => rfl

end Queueing

theorem drainCancel_history : s.drainCancel.history = s.history := by
  have h : ∀ (ids : List ℕ) (v : OrderBook), (ids.foldl (fun s oid =>
      s.cancelResting (s.order oid).depositHash oid 0 none) v).history = v.history := by
    intro ids
    induction ids with
    | nil => exact fun _ => rfl
    | cons i ids ih => exact fun v => (ih _).trans (cancelResting_history ..)
  exact h _ _

theorem drainClose_history : s.drainClose.history = s.history := by
  unfold drainClose
  split_ifs
  · exact act_history_silent rfl
  · rw [act_history_silent rfl]
    exact act_history_silent (s := s) rfl
  · exact act_history_silent rfl

end OrderBook

end Dexdo
