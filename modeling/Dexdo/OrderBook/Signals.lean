import Dexdo.OrderBook.Progress

namespace Dexdo

/-- A self-call or a report to another contract, as against an event or a callback to a note. -/
def Action.isSignal : Action → Bool
  | .event _ => false
  | .callback _ _ _ _ => false
  | _ => true

/-- The shutdown latches of a book, and the signals of its current transaction. -/
structure Latch where
  shuttingDown : Bool
  shutdownPending : Bool
  shutdownCursor : ℕ
  signals : List Action
  deriving DecidableEq

namespace OrderBook

def latch (s : OrderBook) : Latch :=
  ⟨s.shuttingDown, s.shutdownPending, s.shutdownCursor, s.actions.filter Action.isSignal⟩

variable {s t u v : OrderBook} {e : QueueEntry}

theorem act_latch (a : Action) : (s.act a).latch =
    { s.latch with signals := s.latch.signals ++ if a.isSignal then [a] else [] } := by
  unfold latch act
  rw [List.filter_append]
  cases h : a.isSignal <;> simp [h]

theorem act_latch_quiet {a : Action} (h : a.isSignal = false) : (s.act a).latch = s.latch := by
  rw [act_latch, h]
  simp [latch]

@[simp] theorem emit_latch (ev : BookEvent) : (s.emit ev).latch = s.latch := act_latch_quiet rfl

@[simp] theorem setBook_latch (b : Book) : (s.setBook b).latch = s.latch := rfl

section Callbacks

variable (pnHash orderId outcomeId amount price clientOrderId opNonce sub : ℕ) (isBuy : Bool)
  (c : Option ℕ) (op : PlaceParams) (e : QueueEntry)

@[simp] theorem callback_latch (cb : Callback) : (s.act (.callback pnHash cb sub c)).latch = s.latch :=
  act_latch_quiet rfl

@[simp] theorem notifyCancelled_latch :
    (s.notifyCancelled pnHash orderId outcomeId isBuy amount clientOrderId opNonce sub c).latch =
      s.latch := by
  unfold notifyCancelled
  rw [callback_latch, emit_latch]

@[simp] theorem notifyRejectedPlace_latch :
    (s.notifyRejectedPlace pnHash op opNonce sub c).latch = s.latch := callback_latch ..

@[simp] theorem notifyBatchAccepted_latch (batch : ℕ) :
    (s.notifyBatchAccepted pnHash opNonce batch).latch = s.latch := callback_latch ..

@[simp] theorem cancelTaker_latch : (s.cancelTaker e orderId amount).latch = s.latch :=
  notifyCancelled_latch ..

@[simp] theorem cancelResting_latch :
    (s.cancelResting pnHash orderId opNonce c).latch = s.latch := notifyCancelled_latch ..

@[simp] theorem emitOrderPlacedTo_latch : (s.emitOrderPlacedTo e orderId).latch = s.latch := by
  unfold emitOrderPlacedTo
  dsimp only
  rw [callback_latch, emit_latch]

@[simp] theorem processFillTo_latch (isTaker isFinal : Bool) (refund matchId : ℕ) :
    (s.processFillTo pnHash orderId outcomeId amount price isBuy refund isTaker isFinal
      clientOrderId matchId sub c).latch = s.latch := by
  unfold processFillTo
  dsimp only
  rw [callback_latch, emit_latch]
  split_ifs <;> rfl

end Callbacks

section Matching

variable (e : QueueEntry) (orderId : ℕ)

@[simp] theorem emitMakerFill_latch (cur trade : ℕ) (cp : Order) :
    (s.emitMakerFill cur cp trade).latch = s.latch := by
  unfold emitMakerFill
  split_ifs <;> exact emit_latch _

@[simp] theorem fillMaker_latch (cur q remaining trade : ℕ) :
    (s.fillMaker e orderId cur q remaining trade).latch = s.latch := by
  unfold fillMaker
  dsimp only
  rw [setBook_latch, emitMakerFill_latch, processFillTo_latch, processFillTo_latch]
  rfl

theorem matchLevel_latch (q left cur remaining accum : ℕ) :
    (matchLevel e orderId q left cur s remaining accum).book.latch = s.latch := by
  induction left generalizing cur s remaining accum with
  | zero =>
    unfold matchLevel
    split_ifs <;> rfl
  | succ left ih =>
    unfold matchLevel
    dsimp only
    split_ifs
    · rfl
    · rfl
    · rw [ih, fillMaker_latch]

theorem matchLevels_latch (fuel : ℕ) (next : Option (ℕ × PriceLevel)) (m : MatchState) :
    (matchLevels e orderId fuel next m).book.latch = m.book.latch := by
  induction fuel generalizing next m with
  | zero => rfl
  | succ fuel ih =>
    rcases next with _ | ⟨q, l⟩
    · rfl
    · unfold matchLevels
      dsimp only
      split_ifs
      · rfl
      · rw [ih, matchLevel_latch]
      · exact matchLevel_latch ..

theorem matchOrder_latch : (s.matchOrder e orderId).book.latch = s.latch := matchLevels_latch ..

theorem settleRest_latch (m : MatchState) : (settleRest m e orderId).latch = m.book.latch := by
  unfold settleRest
  dsimp only
  split_ifs <;> simp

theorem settleTaker_latch (m : MatchState) : (settleTaker m e orderId).latch = m.book.latch := by
  unfold settleTaker
  split_ifs
  · rw [emit_latch, settleRest_latch]
  · rw [emit_latch, settleRest_latch]
  · exact settleRest_latch ..

theorem openOrder_latch : (s.openOrder e).1.latch = s.latch := by
  unfold openOrder
  split_ifs
  · exact emitOrderPlacedTo_latch ..
  · rfl

theorem matchPhase_latch : (s.matchPhase e orderId).1.latch = s.latch := by
  unfold matchPhase
  dsimp only
  split_ifs
  · exact matchOrder_latch ..
  · exact (settleTaker_latch ..).trans (matchOrder_latch ..)

theorem doPlace_latch : (s.doPlace e).1.latch = s.latch := by
  refine Eq.trans ?_ (openOrder_latch e)
  unfold doPlace placePhases
  dsimp only
  split_ifs
  · exact cancelTaker_latch ..
  · cases (s.openOrder e).1.precheck e with
    | notReached => exact cancelTaker_latch ..
    | outOfBudget => rfl
    | reached => exact matchPhase_latch ..

end Matching

section Head

theorem doCancel_latch (h id o b : ℕ) : (s.doCancel h id o b).latch = s.latch := by
  unfold doCancel
  dsimp only
  split_ifs
  · rfl
  · rfl
  · exact cancelResting_latch ..

theorem cancelAllWalk_latch (h o b left cur : ℕ) :
    (cancelAllWalk h o b left cur s).1.latch = s.latch := by
  induction left generalizing cur s with
  | zero => rfl
  | succ left ih =>
    unfold cancelAllWalk
    split_ifs
    · rfl
    · rw [ih, cancelResting_latch]

theorem runHead_latch (e : QueueEntry) : (s.runHead e).1.latch = s.latch := by
  unfold runHead
  split_ifs
  · exact doCancel_latch ..
  · exact cancelAllWalk_latch ..
  · have h := doPlace_latch (s := s) e
    rcases hp : s.doPlace e with ⟨u, _ | e'⟩
    · exact (congrArg (fun r => r.1.latch) hp).symm.trans h
    · exact (congrArg (fun r => r.1.latch) hp).symm.trans h

theorem finishHead_latch (e : QueueEntry) : (s.finishHead e).latch = s.latch := by
  unfold finishHead
  dsimp only
  split_ifs
  · exact notifyBatchAccepted_latch ..
  · rfl

theorem refuse_latch (e : QueueEntry) : (s.refuse e).latch = s.latch := by
  unfold refuse
  split_ifs
  · exact notifyRejectedPlace_latch ..
  · exact cancelTaker_latch ..
  · rfl

/-- The self-call a book sends at the end of a pass over its queue. -/
def follow (s : OrderBook) : List Action :=
  if 0 < s.queueSize then [.processHead] else if s.shutdownPending then [.shutdown] else []

theorem pokeNext_latch : s.pokeNext.latch =
    { s.latch with signals := s.latch.signals ++ s.pokeNext.follow } := by
  have hf : s.pokeNext.follow = s.follow := by
    rw [follow, pokeNext_same (s := s)]
    rfl
  rw [hf]
  unfold pokeNext follow
  split_ifs
  · exact act_latch _
  · exact act_latch _
  · simp [latch]

theorem processHeadCore_latch (hd : s.shuttingDown = false) : s.processHeadCore.latch =
    { s.latch with signals := s.latch.signals ++ s.processHeadCore.follow } := by
  unfold processHeadCore
  rw [if_neg (by simp [hd])]
  split_ifs with h2 h3
  · rw [act_latch, follow]
    simp [act, Action.isSignal, h2, h3]
  · simp [follow, latch, h2, h3]
  · dsimp only
    by_cases h4 : s.shutdownPending ∧ ¬ (s.queue s.queueHead).precheckDone
    · rw [if_pos h4, refuseHead_eq, pokeNext_latch, leaveHead, finishHead_latch, refuse_latch]
    · rw [if_neg h4, pokeNext_latch]
      split_ifs
      · rw [runHead_latch]
      · rw [finishHead_latch, runHead_latch]

end Head

section Queueing

@[simp] theorem enqueue_latch (e : QueueEntry) : (s.enqueue e).latch = s.latch := emit_latch _

theorem enqueueCancelEntry_latch (type : EntryType) (h target o b : ℕ) :
    (s.enqueueCancelEntry type h target o b).1.latch = s.latch := by
  unfold enqueueCancelEntry
  split_ifs
  · exact enqueue_latch _
  · exact emit_latch _

theorem batchPlace_latch (h o b : ℕ) (m : Option ℕ) (op : PlaceParams) :
    (batchPlace h o b (s, m) op).1.latch = s.latch := by
  unfold batchPlace enqueuePlace
  dsimp only
  by_cases hv : op.valid s.market.tokenType
  · rw [if_pos hv]
    by_cases hs : s.queueSize < QUEUE_PLACE_LIMIT
    · simp only [hs, if_true]
      exact enqueue_latch _
    · simp only [hs, if_false, Bool.false_eq_true]
      rw [notifyRejectedPlace_latch, emit_latch]
      rfl
  · rw [if_neg hv, notifyRejectedPlace_latch, emit_latch]
    rfl

theorem foldl_latch {α : Type} (f : OrderBook × Option ℕ → α → OrderBook × Option ℕ)
    (hf : ∀ s m x, (f (s, m) x).1.latch = s.latch) (xs : List α) (r : OrderBook × Option ℕ) :
    (xs.foldl f r).1.latch = r.1.latch := by
  induction xs generalizing r with
  | nil => rfl
  | cons x xs ih => exact (ih (f r x)).trans (hf r.1 r.2 x)

theorem marked_latch (r : OrderBook × Option ℕ) : (marked r).latch = r.1.latch := by
  unfold marked
  cases r.2 <;> rfl

theorem enqueueBatch_latch (h : ℕ) (orders : List PlaceParams) (ids : List ℕ) (o : ℕ) :
    (marked (s.enqueueBatch h orders ids o)).latch = s.latch := by
  rw [marked_latch]
  unfold enqueueBatch
  dsimp only
  rw [foldl_latch _ fun s m x => batchPlace_latch h o _ m x,
    foldl_latch _ fun s m x => enqueueCancelEntry_latch ..]
  rfl

theorem enqueuedCancelAll_latch (h o : ℕ) : (marked (s.enqueuedCancelAll h o)).latch = s.latch := by
  rw [marked_latch]
  exact enqueueCancelEntry_latch ..

theorem closeBatch_latch (r : OrderBook × Option ℕ) (h o b : ℕ)
    (hd : r.1.shuttingDown = false) : (closeBatch r h o b).latch =
      { r.1.latch with signals := r.1.latch.signals ++ (closeBatch r h o b).follow } := by
  have hm : (closeBatch r h o b).latch = (marked r).processHeadCore.latch ∧
      (closeBatch r h o b).follow = (marked r).processHeadCore.follow := by
    unfold closeBatch marked
    cases r.2 with
    | none => exact ⟨notifyBatchAccepted_latch .., rfl⟩
    | some => exact ⟨rfl, rfl⟩
  have hd' : (marked r).shuttingDown = false := by
    rw [← hd]
    exact congrArg Latch.shuttingDown (marked_latch r)
  rw [hm.1, hm.2, processHeadCore_latch hd', marked_latch]

end Queueing

end OrderBook

end Dexdo
