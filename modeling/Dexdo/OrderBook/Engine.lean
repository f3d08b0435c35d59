import Dexdo.OrderBook.Book

namespace Dexdo.OrderBook

/-- Collateral a buy locks before fees. -/
def placeCost (p : PlaceParams) : ℕ :=
  if p.isMarket then p.amount else notionalOf p.amount p.price

/-- `lock = cost + feeReserve` of an order, a checked sum. -/
def placeLock (p : PlaceParams) : Option ℕ :=
  if p.isBuy then add128 (placeCost p) (takerFeeOf (placeCost p)) else some 0

/-- Where the sum of the lock throws, the whole transaction is undone: `step` checks `fits`. -/
def emitOrderPlacedTo (s : OrderBook) (e : QueueEntry) (orderId : ℕ) : OrderBook :=
  let p := e.params
  let cost := if p.isBuy then placeCost p else 0
  let feeReserve := if p.isBuy then takerFeeOf cost else 0
  let lock := if p.isBuy then cost + feeReserve else 0
  (s.emit (.orderPlaced orderId p.outcomeId p.isBuy p.flags p.price p.amount p.clientOrderId
      e.depositHash e.opNonce)).act
    (.callback e.depositHash (.onOrderPlaced orderId feeReserve lock p.clientOrderId p.outcomeId
      p.isBuy p.flags p.price p.amount e.opNonce) e.sub (some e.batch))

/-- `_emitOrderCancelled` followed by `_notifyOrderCancelled`. -/
def notifyCancelled (s : OrderBook) (pnHash orderId outcomeId : ℕ) (isBuy : Bool)
    (returnAmt clientOrderId opNonce sub : ℕ) (cause : Option ℕ) : OrderBook :=
  (s.emit (.orderCancelled orderId clientOrderId)).act
    (.callback pnHash (.onOrderCancelled orderId outcomeId isBuy returnAmt clientOrderId opNonce)
      sub cause)

def notifyRejectedPlace (s : OrderBook) (depositHash : ℕ) (op : PlaceParams)
    (opNonce sub : ℕ) (cause : Option ℕ) : OrderBook :=
  s.act (.callback depositHash (.onOrderRejected op.outcomeId op.isBuy op.flags op.price op.amount
    s.numOutcomes op.clientOrderId opNonce) sub cause)

def notifyBatchAccepted (s : OrderBook) (depositHash opNonce batch : ℕ) : OrderBook :=
  s.act (.callback depositHash (.onBatchComplete opNonce) 0 (some batch))

/-- One leg of a match: fee split, event and callback. -/
def processFillTo (s : OrderBook) (pnHash orderId outcomeId filledAmount clearingPrice : ℕ)
    (isBuy : Bool) (buyerRefund : ℕ) (isTaker isFinal : Bool) (clientOrderId matchId sub : ℕ)
    (cause : Option ℕ) : OrderBook :=
  let notional := notionalOf filledAmount clearingPrice
  let takerFee := takerFeeOf notional
  let makerRebate := makerRebateOf takerFee
  let feeAmount := if isTaker then takerFee else makerRebate
  let s := if isTaker then
      { s with totalProtocolFees := s.totalProtocolFees + (takerFee - makerRebate) }
    else { s with totalMakerRebatesPaid := s.totalMakerRebatesPaid + makerRebate }
  (s.emit (.orderFilled orderId filledAmount clearingPrice feeAmount isTaker matchId pnHash)).act
    (.callback pnHash (.onOrderFilled outcomeId filledAmount clearingPrice isBuy buyerRefund
      feeAmount (!isTaker) orderId isFinal s.numOutcomes clientOrderId) sub cause)

/-- Base units traded against a resting amount; `remaining` is quote for a market buy. -/
def tradeSize (p : PlaceParams) (remaining cpAmount clearingPrice : ℕ) : ℕ :=
  if p.isBuy ∧ p.isMarket then
    let affordBase := if 0 < clearingPrice then remaining * FULL_PERCENT / clearingPrice else cpAmount
    if cpAmount < affordBase then cpAmount else affordBase
  else if remaining < cpAmount then remaining else cpAmount

/-- Units of `remaining` one fill uses up: quote for a market buy, base otherwise. -/
def takerSpent (p : PlaceParams) (trade clearingPrice : ℕ) : ℕ :=
  if p.isBuy ∧ p.isMarket then notionalOf trade clearingPrice else trade

/-- Aggregated fill event of the maker, emitted at the fill. -/
def emitMakerFill (s : OrderBook) (cur : ℕ) (cp : Order) (trade : ℕ) : OrderBook :=
  if cp.amount = trade then
    s.emit (.fullyFilled cur cp.clientOrderId ((s.order cur).filledAccum + trade))
  else s.emit (.partialFill cur cp.clientOrderId trade (cp.amount - trade))

/-- Body of the inner match loop after the trade size is known. -/
def fillMaker (s : OrderBook) (e : QueueEntry) (orderId cur levelPrice remaining trade : ℕ) :
    OrderBook :=
  let p := e.params
  let cp := s.order cur
  let spent := takerSpent p trade levelPrice
  let newBuyerRefund :=
    if p.isBuy ∧ ¬ p.isMarket then notionalOf trade (p.storedPrice - levelPrice) else 0
  let cpBuyerRefund := if p.isBuy then 0 else notionalOf trade (cp.price - levelPrice)
  let makerFinal := decide (cp.amount = trade)
  let takerFinal := decide (spent = remaining)
  let s := { s with matchSeq := s.matchSeq + 1 }
  let matchId := s.matchSeq
  let s := s.processFillTo cp.depositHash cur p.outcomeId trade levelPrice cp.isBuy cpBuyerRefund
    false makerFinal cp.clientOrderId matchId cp.sub (some e.batch)
  let s := s.processFillTo e.depositHash orderId p.outcomeId trade levelPrice p.isBuy
    newBuyerRefund true takerFinal p.clientOrderId matchId e.sub (some e.batch)
  let s := s.emitMakerFill cur cp trade
  s.setBook (s.toBook.consume p.outcomeId cur trade)

/-- Why a match loop stopped: nothing left to do, the match cap, or unaffordable quote. -/
inductive Halt
  | none
  | hitCapWithMore
  | marketBuyDust
  deriving DecidableEq

structure MatchState where
  book : OrderBook
  remaining : ℕ
  left : ℕ
  filledAccum : ℕ
  halt : Halt

/-- Inner match loop over one level; `left` is `MAX_MATCHES_PER_CALL - matchesDone`. -/
def matchLevel (e : QueueEntry) (orderId levelPrice : ℕ) :
    (left cur : ℕ) → OrderBook → (remaining filledAccum : ℕ) → MatchState
  | left, cur, s, remaining, filledAccum =>
    if cur = 0 ∨ remaining = 0 then ⟨s, remaining, left, filledAccum, .none⟩
    else match left with
      | 0 => ⟨s, remaining, 0, filledAccum, .hitCapWithMore⟩
      | left + 1 =>
        let cp := s.order cur
        let trade := tradeSize e.params remaining cp.amount levelPrice
        if (e.params.isBuy ∧ e.params.isMarket) ∧ trade = 0 then
          ⟨s, remaining, left + 1, filledAccum, .marketBuyDust⟩
        else
          matchLevel e orderId levelPrice left cp.nextAtPrice
            (s.fillMaker e orderId cur levelPrice remaining trade)
            (remaining - takerSpent e.params trade levelPrice) (filledAccum + trade)

/-- Outer match loop over the levels of the taker's epoch, best first. -/
def matchLevels (e : QueueEntry) (orderId : ℕ) :
    (fuel : ℕ) → Option (ℕ × PriceLevel) → MatchState → MatchState
  | 0, _, m => m
  | _ + 1, none, m => m
  | fuel + 1, some (levelPrice, lvl), m =>
    let p := e.params
    if m.remaining = 0 ∨ ¬ Book.pricesCross p.isBuy p.storedPrice p.isMarket levelPrice then m
    else
      let m := matchLevel e orderId levelPrice m.left lvl.firstOrderId m.book m.remaining m.filledAccum
      if m.halt = .none then
        matchLevels e orderId fuel
          (m.book.nextOpposite p.outcomeId p.isBuy p.epochId levelPrice) m
      else m

/-- The whole match; every level is entered at most once, so its count bounds the outer loop. -/
def matchOrder (s : OrderBook) (e : QueueEntry) (orderId : ℕ) : MatchState :=
  let p := e.params
  matchLevels e orderId ((s.levels ⟨p.outcomeId, !p.isBuy, p.epochId⟩).entries.length + 1)
    (s.bestOpposite p.outcomeId p.isBuy p.epochId)
    ⟨s, p.amount, MAX_MATCHES_PER_CALL, e.filledAccum, .none⟩

inductive Precheck
  | reached
  | notReached
  | outOfBudget (accum lastPrice : ℕ)
  deriving DecidableEq

/-- Level walk of the FOK / minAmount pre-check; the budget is
`MAX_PRECHECK_ITERATIONS - walked`. -/
def precheckWalk (s : OrderBook) (p : PlaceParams) (minFill : ℕ) :
    (budget : ℕ) → Option (ℕ × PriceLevel) → (accum : ℕ) → Precheck
  | 0, _, _ => .notReached
  | _ + 1, none, _ => .notReached
  | budget + 1, some (levelPrice, lvl), accum =>
    if ¬ Book.pricesCross p.isBuy p.storedPrice p.isMarket levelPrice then .notReached
    else
      let accum := accum + lvl.totalAmount
      if minFill ≤ accum then .reached
      else if budget = 0 then .outOfBudget accum levelPrice
      else precheckWalk s p minFill budget
        (s.nextOpposite p.outcomeId p.isBuy p.epochId levelPrice) accum

def minFill (p : PlaceParams) : ℕ := if p.isFok then p.amount else p.minAmount

def precheck (s : OrderBook) (e : QueueEntry) : Precheck :=
  let p := e.params
  if 0 < minFill p ∧ ¬ e.precheckDone then
    let iter := if e.precheckAccum = 0 then s.bestOpposite p.outcomeId p.isBuy p.epochId
      else s.nextOpposite p.outcomeId p.isBuy p.epochId e.precheckLastPrice
    s.precheckWalk p (minFill p) MAX_PRECHECK_ITERATIONS iter e.precheckAccum
  else .reached

/-- POST_ONLY test: the order would cross the best opposite level. -/
def postOnlyCrosses (s : OrderBook) (p : PlaceParams) : Bool :=
  p.isPostOnly && match s.bestOpposite p.outcomeId p.isBuy p.epochId with
    | none => false
    | some (bp, _) => Book.pricesCross p.isBuy p.storedPrice false bp

/-- `_cancelNoBookEntryTo` for the order of the entry being processed. -/
def cancelTaker (s : OrderBook) (e : QueueEntry) (orderId returnAmt : ℕ) : OrderBook :=
  s.notifyCancelled e.depositHash orderId e.params.outcomeId e.params.isBuy returnAmt
    e.params.clientOrderId e.opNonce e.sub (some e.batch)

/-- The leftover of a taker once matching is over: cancelled, or put to rest. -/
def settleRest (m : MatchState) (e : QueueEntry) (orderId : ℕ) : OrderBook :=
  let p := e.params
  if 0 < m.remaining then
    if p.isIoc ∨ p.isFok ∨ p.isMarket then
      m.book.cancelTaker e orderId (if p.isMarket ∧ p.isBuy then m.remaining
        else Book.collateralFor p.isBuy p.storedPrice m.remaining)
    else m.book.setBook (m.book.toBook.insertIntoBook orderId e.depositHash p p.storedPrice
      m.remaining m.filledAccum e.opNonce e.sub)
  else m.book

/-- Everything `_doPlace` does once matching for the order is over. -/
def settleTaker (m : MatchState) (e : QueueEntry) (orderId : ℕ) : OrderBook :=
  if 0 < m.filledAccum then
    if m.remaining = 0 then
      (settleRest m e orderId).emit (.fullyFilled orderId e.params.clientOrderId m.filledAccum)
    else (settleRest m e orderId).emit
      (.partialFill orderId e.params.clientOrderId m.filledAccum m.remaining)
  else settleRest m e orderId

/-- Order id of an entry: a new one, announced to the owner, or the one of its first pass. -/
def openOrder (s : OrderBook) (e : QueueEntry) : OrderBook × ℕ :=
  if e.targetOrderId = 0 then
    ({ s with nextOrderId := s.nextOrderId + 1 }.emitOrderPlacedTo e s.nextOrderId, s.nextOrderId)
  else (s, e.targetOrderId)

/-- The match phase of `_doPlace`; a capped match keeps the head for another pass. -/
def matchPhase (s : OrderBook) (e : QueueEntry) (orderId : ℕ) : OrderBook × Option QueueEntry :=
  let m := s.matchOrder e orderId
  if m.halt = .hitCapWithMore then
    (m.book, some { e with params := { e.params with amount := m.remaining },
                           targetOrderId := orderId, precheckDone := true,
                           precheckAccum := 0, precheckLastPrice := 0,
                           filledAccum := m.filledAccum })
  else (settleTaker m e orderId, none)

/-- `_doPlace` after the order id is known. -/
def placePhases (s : OrderBook) (e : QueueEntry) (orderId : ℕ) : OrderBook × Option QueueEntry :=
  let p := e.params
  if e.targetOrderId = 0 ∧ s.postOnlyCrosses p then
    (s.cancelTaker e orderId (Book.collateralFor p.isBuy p.storedPrice p.amount), none)
  else match s.precheck e with
    | .notReached =>
      (s.cancelTaker e orderId (Book.collateralFor p.isBuy p.storedPrice p.amount), none)
    | .outOfBudget accum lastPrice =>
      (s, some { e with targetOrderId := orderId, precheckDone := false,
                        precheckAccum := accum, precheckLastPrice := lastPrice })
    | .reached => s.matchPhase e orderId

/-- Place or resume the order of queue entry `e`. A returned entry is the rewritten
head of a continuation. -/
def doPlace (s : OrderBook) (e : QueueEntry) : OrderBook × Option QueueEntry :=
  let r := s.openOrder e
  r.1.placePhases e r.2

/-- Cancel one resting order and tell its owner. -/
def cancelResting (s : OrderBook) (pnHash orderId opNonce : ℕ) (cause : Option ℕ) : OrderBook :=
  let o := s.order orderId
  (s.setBook (s.toBook.removeFromBook orderId)).notifyCancelled pnHash orderId o.outcomeId o.isBuy
    (Book.collateralFor o.isBuy o.price o.amount) o.clientOrderId opNonce o.sub cause

def doCancel (s : OrderBook) (callerHash orderId opNonce batch : ℕ) : OrderBook :=
  let o := s.order orderId
  if o.amount = 0 ∧ o.depositHash = 0 then s
  else if o.depositHash ≠ callerHash then s
  else s.cancelResting callerHash orderId opNonce (some batch)

/-- Owner walk of CANCEL_ALL from `cur`, at most `left` more orders; returns the number left. -/
def cancelAllWalk (callerHash opNonce batch : ℕ) : (left cur : ℕ) → OrderBook → OrderBook × ℕ
  | 0, _, s => (s, 0)
  | left + 1, cur, s =>
    if cur = 0 then (s, left + 1)
    else cancelAllWalk callerHash opNonce batch left (s.order cur).nextInOwner
      (s.cancelResting callerHash cur opNonce (some batch))

/-- One CANCEL_ALL pass and the number of orders it cancelled. -/
def doCancelAll (s : OrderBook) (callerHash opNonce batch : ℕ) : OrderBook × ℕ :=
  let r := cancelAllWalk callerHash opNonce batch MAX_CANCEL_ALL_PER_CALL
    (s.ownerHead callerHash) s
  (r.1, MAX_CANCEL_ALL_PER_CALL - r.2)

end Dexdo.OrderBook
