import Dexdo.Lib.Dict
import Dexdo.Modifiers

namespace Dexdo

def FLAG_IOC : UInt8 := 0x01
def FLAG_FOK : UInt8 := 0x02
def FLAG_MARKET : UInt8 := 0x04
def FLAG_POST_ONLY : UInt8 := 0x08

def MAX_MATCHES_PER_CALL : ℕ := 30
def MAX_CANCEL_ALL_PER_CALL : ℕ := 30
def MAX_SHUTDOWN_BATCH : ℕ := 10
def QUEUE_CAPACITY : ℕ := 100
def QUEUE_PLACE_LIMIT : ℕ := 90
def MAX_PRECHECK_ITERATIONS : ℕ := 3000

/-- Parameters for placing a single order. -/
structure PlaceParams where
  outcomeId : ℕ
  isBuy : Bool
  flags : UInt8
  price : ℕ
  amount : ℕ
  minAmount : ℕ
  epochId : ℕ
  clientOrderId : ℕ
  deriving DecidableEq, Inhabited

namespace PlaceParams

def isIoc (p : PlaceParams) : Bool := p.flags &&& FLAG_IOC != 0
def isFok (p : PlaceParams) : Bool := p.flags &&& FLAG_FOK != 0
def isMarket (p : PlaceParams) : Bool := p.flags &&& FLAG_MARKET != 0
def isPostOnly (p : PlaceParams) : Bool := p.flags &&& FLAG_POST_ONLY != 0

/-- Price the order is matched and stored at. -/
def storedPrice (p : PlaceParams) : ℕ :=
  if p.isMarket then (if p.isBuy then 2 ^ 256 - 1 else 0) else p.price

/-- The validation `executeBatch` applies before an entry enters the queue. -/
def valid (p : PlaceParams) (tokenType : ℕ) : Bool :=
  if p.amount = 0 then false
  else if p.isPostOnly ∧ (p.isMarket ∨ p.isIoc ∨ p.isFok ∨ p.minAmount ≠ 0) then false
  else if p.isIoc ∧ p.isFok then false
  else if p.isMarket ∧ (p.isIoc ∨ p.isFok) then false
  else if p.isMarket then
    if p.minAmount ≠ 0 then false
    else if p.isBuy ∧ p.amount < minOrderNotional tokenType then false
    else true
  else if p.amount % lotSize tokenType ≠ 0 then false
  else if p.amount < p.minAmount then false
  else if p.price = 0 then false
  else if p.price % TICK_SIZE ≠ 0 then false
  else if (2 ^ 256 - 1) / p.price < p.amount then false
  else if 2 ^ 128 - 1 < notionalOf p.amount p.price then false
  else if notionalOf p.amount p.price < minOrderNotional tokenType then false
  else true

end PlaceParams

/-- Key of a price ladder: one outcome, one side, one epoch. -/
structure LevelKey where
  outcomeId : ℕ
  isBuy : Bool
  epochId : ℕ
  deriving DecidableEq, Inhabited

def PlaceParams.key (p : PlaceParams) : LevelKey := ⟨p.outcomeId, p.isBuy, p.epochId⟩

/-- Neighbours of a resting order in its price level and in its owner's list. -/
structure Links where
  nextAtPrice : ℕ
  prevAtPrice : ℕ
  nextInOwner : ℕ
  prevInOwner : ℕ
  deriving DecidableEq, Inhabited

/-- Resting order. `sub` is a history variable: the number of the submission that created it. -/
structure Order extends Links where
  depositHash : ℕ
  price : ℕ
  amount : ℕ
  minAmount : ℕ
  initialAmount : ℕ
  filledAccum : ℕ
  clientOrderId : ℕ
  epochId : ℕ
  opNonce : ℕ
  outcomeId : ℕ
  flags : UInt8
  isBuy : Bool
  sub : ℕ
  deriving DecidableEq, Inhabited

def Order.key (o : Order) : LevelKey := ⟨o.outcomeId, o.isBuy, o.epochId⟩

structure PriceLevel where
  firstOrderId : ℕ
  lastOrderId : ℕ
  totalAmount : ℕ
  deriving DecidableEq, Inhabited

inductive EntryType
  | none
  | place
  | cancel
  | cancelAll
  deriving DecidableEq, Inhabited

/-- Queue slot. `sub` and `batch` are history variables: the submission number of
a PLACE entry and the number of the accepted call that queued the entry. -/
structure QueueEntry where
  entryType : EntryType
  queueId : ℕ
  depositHash : ℕ
  params : PlaceParams
  targetOrderId : ℕ
  filledAccum : ℕ
  precheckDone : Bool
  precheckAccum : ℕ
  precheckLastPrice : ℕ
  isBatchEnd : Bool
  opNonce : ℕ
  sub : ℕ
  batch : ℕ
  deriving DecidableEq, Inhabited

/-- Callbacks of the book into a PrivateNote. -/
inductive Callback
  | onOrderPlaced (orderId feeReserve lock clientOrderId outcomeId : ℕ) (isBuy : Bool)
      (flags : UInt8) (price amount opNonce : ℕ)
  | onOrderRejected (outcomeId : ℕ) (isBuy : Bool) (flags : UInt8)
      (price amount numOutcomes clientOrderId opNonce : ℕ)
  | onOrderCancelled (orderId outcomeId : ℕ) (isBuy : Bool) (amount clientOrderId opNonce : ℕ)
  | onOrderFilled (outcomeId filledAmount clearingPrice : ℕ) (isBuy : Bool)
      (refundAmount feeAmount : ℕ) (isRebate : Bool) (orderId : ℕ) (isFinal : Bool)
      (numOutcomes clientOrderId : ℕ)
  | onBatchComplete (opNonce : ℕ)
  deriving DecidableEq

/-- External events of the book. -/
inductive BookEvent
  | orderPlaced (orderId outcomeId : ℕ) (isBuy : Bool) (flags : UInt8)
      (price amount clientOrderId depositHash opNonce : ℕ)
  | orderCancelled (orderId clientOrderId : ℕ)
  | orderFilled (orderId filledAmount clearingPrice feeAmount : ℕ) (isTaker : Bool)
      (matchId depositHash : ℕ)
  | partialFill (orderId clientOrderId filledAmount remainingAmount : ℕ)
  | fullyFilled (orderId clientOrderId filledAmount : ℕ)
  | queued (slot queueId : ℕ) (entryType : EntryType)
  | rejected (entryType : EntryType) (depositHash : ℕ)
  deriving DecidableEq

/-- Outgoing actions of a transaction. A callback carries two history variables:
the submission it answers and the accepted call whose entry was being processed. -/
inductive Action
  | event (e : BookEvent)
  | callback (dest : ℕ) (cb : Callback) (sub : ℕ) (cause : Option ℕ)
  | processHead
  | shutdown
  | collectProtocolFee (amount : ℕ)
  | onOrderBookShutdownComplete
  deriving DecidableEq

/-- The part of the storage that holds the resting orders. -/
structure Book where
  orders : ℕ → Option Order
  levels : LevelKey → Dict ℕ PriceLevel
  ownerHead : ℕ → ℕ
  ownerTail : ℕ → ℕ
  orderCount : ℕ

namespace Book

def empty : Book where
  orders := fun _ => none
  levels := fun _ => Dict.empty
  ownerHead := fun _ => 0
  ownerTail := fun _ => 0
  orderCount := 0

/-- A mapping read: a missing order reads as the zero record. -/
def order (b : Book) (id : ℕ) : Order := (b.orders id).getD default

/-- A mapping write `_orders[id] = o`. -/
def putOrder (b : Book) (id : ℕ) (o : Order) : Book :=
  { b with orders := Function.update b.orders id (some o) }

/-- A mapping write through a field of `_orders[id]`. -/
def modifyOrder (b : Book) (id : ℕ) (f : Order → Order) : Book :=
  b.putOrder id (f (b.order id))

/-- A mapping write through a link field of `_orders[id]`. -/
def modifyLinks (b : Book) (id : ℕ) (f : Links → Links) : Book :=
  b.modifyOrder id fun o => { o with toLinks := f o.toLinks }

def deleteOrder (b : Book) (id : ℕ) : Book :=
  { b with orders := Function.update b.orders id none }

def level (b : Book) (k : LevelKey) (price : ℕ) : PriceLevel :=
  ((b.levels k).get? price).getD default

def setLevel (b : Book) (k : LevelKey) (price : ℕ) (l : PriceLevel) : Book :=
  { b with levels := Function.update b.levels k ((b.levels k).insert price l) }

def deleteLevel (b : Book) (k : LevelKey) (price : ℕ) : Book :=
  { b with levels := Function.update b.levels k ((b.levels k).erase price) }

def setOwnerHead (b : Book) (owner id : ℕ) : Book :=
  { b with ownerHead := Function.update b.ownerHead owner id }

def setOwnerTail (b : Book) (owner id : ℕ) : Book :=
  { b with ownerTail := Function.update b.ownerTail owner id }

end Book

/-- The operation queue: a ring of `QUEUE_CAPACITY` slots. -/
structure Queue where
  queue : ℕ → QueueEntry
  queueHead : ℕ
  queueTail : ℕ
  queueSize : ℕ
  nextQueueId : ℕ

def Queue.empty : Queue where
  queue := fun _ => default
  queueHead := 0
  queueTail := 0
  queueSize := 0
  nextQueueId := 1

/-- Storage of one OrderBook and the action list of its current transaction.
`subs` and `batches` count submitted orders and accepted calls. -/
structure OrderBook extends Book, Queue where
  market : MarketId
  resultStart : ℕ
  numOutcomes : ℕ
  nextOrderId : ℕ
  shuttingDown : Bool
  shutdownPending : Bool
  shutdownCursor : ℕ
  totalMakerRebatesPaid : ℕ
  totalProtocolFees : ℕ
  matchSeq : ℕ
  actions : List Action
  subs : ℕ
  batches : ℕ

namespace OrderBook

/-- Storage after the constructor. -/
def init (market : MarketId) (resultStart numOutcomes : ℕ) : OrderBook where
  toBook := Book.empty
  toQueue := Queue.empty
  market := market
  resultStart := resultStart
  numOutcomes := numOutcomes
  nextOrderId := 1
  shuttingDown := false
  shutdownPending := false
  shutdownCursor := 0
  totalMakerRebatesPaid := 0
  totalProtocolFees := 0
  matchSeq := 0
  actions := []
  subs := 0
  batches := 0

def act (s : OrderBook) (a : Action) : OrderBook := { s with actions := s.actions ++ [a] }

def emit (s : OrderBook) (e : BookEvent) : OrderBook := s.act (.event e)

def setBook (s : OrderBook) (b : Book) : OrderBook := { s with toBook := b }

end OrderBook

end Dexdo
