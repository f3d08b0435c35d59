import Dexdo.OrderBook.Answers
import Dexdo.OrderBook.Reports

namespace Dexdo

/-- What the book reports about one order: to its note as a callback, and to everyone as an
event. -/
inductive Report
  | placed (orderId : ℕ) (a : Announcement) (clientOrderId : ℕ)
  | filled (orderId amount price : ℕ) (isTaker : Bool)
  | cancelled (orderId : ℕ)
  deriving DecidableEq

def Report.orderId : Report → ℕ
  | .placed orderId _ _ => orderId
  | .filled orderId _ _ _ => orderId
  | .cancelled orderId => orderId

def BookEvent.report? : BookEvent → Option Report
  | .orderPlaced orderId outcomeId isBuy flags price amount clientOrderId _ _ =>
    some (.placed orderId ⟨outcomeId, isBuy, flags, price, amount⟩ clientOrderId)
  | .orderFilled orderId filledAmount clearingPrice _ isTaker _ _ =>
    some (.filled orderId filledAmount clearingPrice isTaker)
  | .orderCancelled orderId _ => some (.cancelled orderId)
  | _ => none

def Callback.report? : Callback → Option Report
  | .onOrderPlaced orderId _ _ clientOrderId outcomeId isBuy flags price amount _ =>
    some (.placed orderId ⟨outcomeId, isBuy, flags, price, amount⟩ clientOrderId)
  | .onOrderFilled _ filledAmount clearingPrice _ _ _ isRebate orderId _ _ _ =>
    some (.filled orderId filledAmount clearingPrice (!isRebate))
  | .onOrderCancelled orderId _ _ _ _ _ => some (.cancelled orderId)
  | _ => none

def Action.event? : Action → Option BookEvent
  | .event e => some e
  | _ => none

/-- Reports among the events of a list of actions. -/
def published (as : List Action) : List Report :=
  as.filterMap fun a => a.event?.bind BookEvent.report?

/-- Reports among callbacks. -/
def told (os : List Out) : List Report := os.filterMap fun o => o.cb.report?

theorem published_append (as as' : List Action) :
    published (as ++ as') = published as ++ published as' := List.filterMap_append

theorem told_append (os os' : List Out) : told (os ++ os') = told os ++ told os' :=
  List.filterMap_append

namespace OrderBook

/-- Whatever the transaction has told a note it has published, in the same order. -/
def Paired (s : OrderBook) : Prop := published s.actions = told s.outs

variable {s t : OrderBook}

theorem Paired.of_actions (h : s.Paired) (ha : t.actions = s.actions) : t.Paired := by
  unfold Paired outs at *
  rw [ha]
  exact h

theorem Paired.act (h : s.Paired) {a : Action} (he : a.event?.bind BookEvent.report? = none)
    (ho : a.out?.bind (fun o => o.cb.report?) = none) : (s.act a).Paired := by
  unfold Paired at *
  rw [act_outs, told_append, ← h]
  change published (s.actions ++ [a]) = _
  rw [published_append]
  congr 1
  cases hout : a.out? with
  | none => simp [published, told, he]
  | some =>
    rw [hout] at ho
    simp only [Option.bind_some] at ho
    simp [published, told, he, ho]

theorem Paired.report (h : s.Paired) {e : BookEvent} {dest sub : ℕ} {cb : Callback}
    {c : Option ℕ} (hr : e.report? = cb.report?) :
    ((s.emit e).act (.callback dest cb sub c)).Paired := by
  unfold Paired at *
  rw [act_outs, emit_outs, told_append, ← h]
  change published ((s.actions ++ [.event e]) ++ [.callback dest cb sub c]) = _
  rw [published_append, published_append, List.append_assoc]
  congr 1
  cases hcb : cb.report? with
  | none => simp [published, told, Action.event?, Action.out?, hr, hcb]
  | some => simp [published, told, Action.event?, Action.out?, hr, hcb]

section Engine

variable {e : QueueEntry} {orderId : ℕ}

theorem Paired.emitOrderPlacedTo (h : s.Paired) : (s.emitOrderPlacedTo e orderId).Paired :=
  h.report rfl

theorem Paired.openOrder (h : s.Paired) : (s.openOrder e).1.Paired := by
  unfold OrderBook.openOrder
  split_ifs
  · exact Paired.emitOrderPlacedTo (h.of_actions rfl)
  · exact h

theorem Paired.notifyCancelled (h : s.Paired) (pnHash outcomeId : ℕ) (isBuy : Bool)
    (returnAmt clientOrderId opNonce sub : ℕ) (c : Option ℕ) :
    (s.notifyCancelled pnHash orderId outcomeId isBuy returnAmt clientOrderId opNonce sub c).Paired :=
  h.report rfl

theorem Paired.notifyRejectedPlace (h : s.Paired) (depositHash : ℕ) (op : PlaceParams)
    (opNonce sub : ℕ) (c : Option ℕ) :
    (s.notifyRejectedPlace depositHash op opNonce sub c).Paired :=
  h.act rfl rfl

theorem Paired.notifyBatchAccepted (h : s.Paired) (depositHash opNonce batch : ℕ) :
    (s.notifyBatchAccepted depositHash opNonce batch).Paired :=
  h.act rfl rfl

theorem Paired.cancelTaker (h : s.Paired) (returnAmt : ℕ) :
    (s.cancelTaker e orderId returnAmt).Paired :=
  h.notifyCancelled ..

theorem Paired.cancelResting (h : s.Paired) (pnHash opNonce : ℕ) (c : Option ℕ) :
    (s.cancelResting pnHash orderId opNonce c).Paired :=
  (h.of_actions rfl).notifyCancelled ..

theorem Paired.processFillTo (h : s.Paired) (pnHash outcomeId filledAmount clearingPrice : ℕ)
    (isBuy : Bool) (buyerRefund : ℕ) (isTaker isFinal : Bool) (clientOrderId matchId sub : ℕ)
    (c : Option ℕ) : (s.processFillTo pnHash orderId outcomeId filledAmount clearingPrice isBuy
      buyerRefund isTaker isFinal clientOrderId matchId sub c).Paired := by
  unfold OrderBook.processFillTo
  dsimp only
  have hr : BookEvent.report? (.orderFilled orderId filledAmount clearingPrice
      (if isTaker then takerFeeOf (notionalOf filledAmount clearingPrice)
        else makerRebateOf (takerFeeOf (notionalOf filledAmount clearingPrice)))
      isTaker matchId pnHash) = some (.filled orderId filledAmount clearingPrice isTaker) := rfl
  apply Paired.report
  · split_ifs
    · exact h.of_actions rfl
    · exact h.of_actions rfl
  · simp [BookEvent.report?, Callback.report?]

theorem Paired.emitMakerFill (h : s.Paired) (cur : ℕ) (cp : Order) (trade : ℕ) :
    (s.emitMakerFill cur cp trade).Paired := by
  unfold OrderBook.emitMakerFill
  split_ifs
  · exact h.act rfl rfl
  · exact h.act rfl rfl

theorem Paired.fillMaker (h : s.Paired) (cur levelPrice remaining trade : ℕ) :
    (s.fillMaker e orderId cur levelPrice remaining trade).Paired := by
  unfold OrderBook.fillMaker
  dsimp only
  refine Paired.of_actions (Paired.emitMakerFill ?_ cur _ trade) rfl
  apply Paired.processFillTo
  apply Paired.processFillTo
  exact h.of_actions rfl

theorem Paired.matchLevel (h : s.Paired) (levelPrice left cur remaining filledAccum : ℕ) :
    (matchLevel e orderId levelPrice left cur s remaining filledAccum).book.Paired := by
  induction left generalizing cur s remaining filledAccum with
  | zero =>
    unfold OrderBook.matchLevel
    split_ifs
    · exact h
    · exact h
  | succ left ih =>
    unfold OrderBook.matchLevel
    dsimp only
    split_ifs
    · exact h
    · exact h
    · exact ih (h.fillMaker ..) ..

theorem Paired.matchLevels (fuel : ℕ) (level : Option (ℕ × PriceLevel)) {m : MatchState}
    (h : m.book.Paired) : (matchLevels e orderId fuel level m).book.Paired := by
  induction fuel generalizing level m with
  | zero => exact h
  | succ fuel ih =>
    cases level with
    | none => exact h
    | some =>
      unfold OrderBook.matchLevels
      dsimp only
      split_ifs
      · exact h
      · exact ih _ (h.matchLevel ..)
      · exact h.matchLevel ..

theorem Paired.settleTaker {m : MatchState} (h : m.book.Paired) :
    (settleTaker m e orderId).Paired := by
  have hrest : (settleRest m e orderId).Paired := by
    unfold settleRest
    dsimp only
    split_ifs
    · exact h.cancelTaker _
    · exact h.cancelTaker _
    · exact h.of_actions rfl
    · exact h
  unfold OrderBook.settleTaker
  split_ifs
  · exact hrest.act rfl rfl
  · exact hrest.act rfl rfl
  · exact hrest

theorem Paired.doPlace (h : s.Paired) : (s.doPlace e).1.Paired := by
  have hopen : (s.openOrder e).1.Paired := h.openOrder
  have hmatch : ((s.openOrder e).1.matchPhase e (s.openOrder e).2).1.Paired := by
    unfold matchPhase matchOrder
    dsimp only
    split_ifs
    · exact Paired.matchLevels _ _ hopen
    · exact Paired.settleTaker (Paired.matchLevels _ _ hopen)
  unfold OrderBook.doPlace placePhases
  dsimp only
  split_ifs
  · exact hopen.cancelTaker _
  · split
    · exact hopen.cancelTaker _
    · exact hopen
    · exact hmatch

theorem Paired.doCancel (h : s.Paired) (callerHash opNonce batch : ℕ) :
    (s.doCancel callerHash orderId opNonce batch).Paired := by
  unfold OrderBook.doCancel
  dsimp only
  split_ifs
  · exact h
  · exact h
  · exact h.cancelResting ..

theorem Paired.cancelAllWalk (h : s.Paired) (callerHash opNonce batch left cur : ℕ) :
    (cancelAllWalk callerHash opNonce batch left cur s).1.Paired := by
  induction left generalizing cur s with
  | zero => exact h
  | succ left ih =>
    unfold OrderBook.cancelAllWalk
    split_ifs
    · exact h
    · exact ih (h.cancelResting ..) _

end Engine

section Calls

variable {e : QueueEntry}

theorem Paired.pokeNext (h : s.Paired) : s.pokeNext.Paired := by
  unfold OrderBook.pokeNext
  split_ifs
  · exact h.act rfl rfl
  · exact h.act rfl rfl
  · exact h

theorem Paired.finishHead (h : s.Paired) : (s.finishHead e).Paired := by
  unfold OrderBook.finishHead
  dsimp only
  split_ifs
  · exact (h.of_actions rfl).notifyBatchAccepted ..
  · exact h.of_actions rfl

theorem Paired.refuseHead (h : s.Paired) : (s.refuseHead e).Paired := by
  unfold OrderBook.refuseHead
  dsimp only
  split_ifs
  · exact (h.notifyRejectedPlace ..).finishHead.pokeNext
  · exact (h.cancelTaker _).finishHead.pokeNext
  · exact h.finishHead.pokeNext

theorem Paired.runHead (h : s.Paired) : (s.runHead e).1.Paired := by
  unfold OrderBook.runHead
  split_ifs
  · exact h.doCancel ..
  · exact h.cancelAllWalk ..
  · have hp : (s.doPlace e).1.Paired := h.doPlace
    rcases hdp : s.doPlace e with ⟨v, _ | e'⟩
    · rw [hdp] at hp
      exact hp
    · rw [hdp] at hp
      exact hp.of_actions rfl

theorem Paired.processHeadCore (h : s.Paired) : s.processHeadCore.Paired := by
  unfold OrderBook.processHeadCore
  dsimp only
  split_ifs
  · exact h
  · exact h.act rfl rfl
  · exact h
  · exact h.refuseHead
  · exact h.runHead.pokeNext
  · exact h.runHead.finishHead.pokeNext

theorem Paired.enqueue (h : s.Paired) : (s.enqueue e).Paired :=
  (h.of_actions rfl : OrderBook.Paired { s with
    nextQueueId := s.nextQueueId + 1
    queueTail := (s.queueTail + 1) % QUEUE_CAPACITY
    queueSize := s.queueSize + 1
    queue := Function.update s.queue s.queueTail { e with queueId := s.nextQueueId } }).act rfl rfl

theorem Paired.enqueueCancelEntry (h : s.Paired) (type : EntryType) (hash target o b : ℕ) :
    (s.enqueueCancelEntry type hash target o b).1.Paired := by
  unfold OrderBook.enqueueCancelEntry
  split_ifs
  · exact h.enqueue
  · exact h.act rfl rfl

theorem Paired.batchPlace (h : s.Paired) (hash o b : ℕ) (m : Option ℕ) (op : PlaceParams) :
    (batchPlace hash o b (s, m) op).1.Paired := by
  have hsub : OrderBook.Paired { s with subs := s.subs + 1 } := h.of_actions rfl
  unfold OrderBook.batchPlace enqueuePlace
  dsimp only
  by_cases hv : op.valid s.market.tokenType
  · rw [if_pos hv]
    by_cases hs : s.queueSize < QUEUE_PLACE_LIMIT
    · simp only [hs, if_true]
      exact hsub.enqueue
    · simp only [hs, if_false, Bool.false_eq_true]
      exact Paired.notifyRejectedPlace (hsub.act rfl rfl) ..
  · rw [if_neg hv]
    exact Paired.notifyRejectedPlace (hsub.act rfl rfl) ..

theorem Paired.foldl {α : Type} {f : OrderBook × Option ℕ → α → OrderBook × Option ℕ}
    (hf : ∀ s m x, s.Paired → (f (s, m) x).1.Paired) (xs : List α) {r : OrderBook × Option ℕ}
    (h : r.1.Paired) : (xs.foldl f r).1.Paired := by
  induction xs generalizing r with
  | nil => exact h
  | cons x xs ih => exact ih (hf r.1 r.2 x h)

theorem Paired.closeBatch {r : OrderBook × Option ℕ} (h : r.1.Paired) (hash o b : ℕ) :
    (closeBatch r hash o b).Paired := by
  unfold OrderBook.closeBatch
  cases r.2 with
  | none => exact h.processHeadCore.notifyBatchAccepted ..
  | some => exact Paired.processHeadCore (h.of_actions rfl)

theorem Paired.drainPass (h : s.Paired) : s.drainPass.Paired := by
  have hcancels : ∀ (ids : List ℕ) (v : OrderBook), v.Paired → (ids.foldl (fun s oid =>
      s.cancelResting (s.order oid).depositHash oid 0 none) v).Paired := by
    intro ids
    induction ids with
    | nil => exact fun _ hv => hv
    | cons i ids ih => exact fun v hv => ih _ (hv.cancelResting ..)
  have hdrain : s.drainCancel.Paired := hcancels _ _ (h.of_actions rfl)
  rw [drainPass_eq]
  unfold drainClose
  split_ifs
  · exact hdrain.act rfl rfl
  · exact Paired.act (Paired.of_actions (hdrain.act rfl rfl) rfl) rfl rfl
  · exact hdrain.act rfl rfl

/-- In every transaction the events say what the callbacks say. -/
theorem step_paired {c : Call} (h : s.step c = some t) : t.Paired := by
  have hb : s.begin.Paired := rfl
  replace h := step_body h
  unfold body at h
  split_ifs at h
  cases c with
  | executeBatch =>
    simp only [executeBatch, bind_iff, pure_iff] at h
    obtain ⟨-, -, -, -, -, rfl⟩ := h
    apply Paired.closeBatch
    unfold enqueueBatch
    dsimp only
    apply Paired.foldl fun s m x hs => hs.batchPlace ..
    apply Paired.foldl fun s m x hs => hs.enqueueCancelEntry ..
    exact hb.of_actions rfl
  | cancelAllOrders =>
    simp only [cancelAllOrders, bind_iff, pure_iff] at h
    obtain ⟨-, -, -, rfl⟩ := h
    apply Paired.closeBatch
    have hadd : OrderBook.Paired { s.begin with batches := s.begin.batches + 1 } :=
      hb.of_actions rfl
    exact hadd.enqueueCancelEntry ..
  | processHead =>
    cases h
    exact hb.processHeadCore
  | setResultStart =>
    simp only [setResultStart, bind_iff, pure_iff] at h
    obtain ⟨-, -, -, rfl⟩ := h
    exact hb.of_actions rfl
  | shutdown =>
    simp only [shutdown, bind_iff, pure_iff] at h
    obtain ⟨-, rfl⟩ := h
    split_ifs
    · exact hb.of_actions rfl
    · exact hb.drainPass

end Calls

theorem run_paired {tr : List (Call × OrderBook)} (h : Run step s tr t) :
    published (traceActions tr) = told (traceOuts tr) := by
  induction h with
  | nil => rfl
  | snoc _ hs ih => rw [traceActions_snoc, traceOuts_snoc, published_append, told_append, ih,
      step_paired hs]

end OrderBook

end Dexdo
