import Dexdo.OrderBook.State
import Dexdo.Oracle.Network
import Dexdo.TokenContract.State

namespace Dexdo

namespace InferenceOrderBook

def FLAG_AON : UInt8 := 0x20
def FLAG_TEE : UInt8 := 0x10
def FLAG_SUBSCRIPTION : UInt8 := 0x40
def TAKER_FLAGS : UInt8 := 0x07
def DEAL_FLAGS_MASK : UInt8 := 0x50
def SUPPORTED_FLAGS : UInt8 := 0x7F

def MAX_CANCEL_PER_CALL : ℕ := 30
def MAX_PRECHECK_LEVELS : ℕ := 40
def MAX_SCAN_PER_CALL : ℕ := 100
def MAX_PRECHECK_SCAN : ℕ := 400

def REMOVED_FILLED : ℕ := 1
def REMOVED_CANCELLED : ℕ := 2
def REMOVED_EXPIRED : ℕ := 3
def REMOVED_DUST : ℕ := 4
def REMOVED_REJECTED : ℕ := 5

def CANCEL_REJ_NOT_FOUND : ℕ := 0
def CANCEL_REJ_NOT_OWNER : ℕ := 1
def CANCEL_REJ_QUEUE_FULL : ℕ := 2

def PLACE_REJ_POST_ONLY : ℕ := 0
def PLACE_REJ_FOK : ℕ := 1
def PLACE_REJ_EXPIRED : ℕ := 2
def PLACE_END_TAKER : ℕ := 3

/-- `address(0)`, which is also the sender of an external message. -/
def noAddr : Addr := .ext 0

/-- `flags & mask != 0`. -/
def has (flags mask : UInt8) : Bool := flags &&& mask != 0

/-- Resting order. -/
structure Order extends Links where
  note : Addr
  buyerPubkey : ℕ
  tokenContract : Addr
  price : ℕ
  amount : ℕ
  initialAmount : ℕ
  filledAccum : ℕ
  escrow : ℕ
  deadline : ℕ
  clientOrderId : ℕ
  ts : ℕ
  flags : UInt8
  isBuy : Bool
  deriving DecidableEq

instance : Inhabited Order where
  default := ⟨default, noAddr, 0, noAddr, 0, 0, 0, 0, 0, 0, 0, 0, 0, false⟩

structure PriceLevel where
  firstOrderId : ℕ
  lastOrderId : ℕ
  deriving DecidableEq, Inhabited

inductive EntryType
  | none
  | place
  | cancel
  | cancelAll
  | expire
  deriving DecidableEq, Inhabited

/-- Queue slot; the last four fields are the cursor of a match that goes on. -/
structure QueueEntry where
  entryType : EntryType
  owner : Addr
  buyerPubkey : ℕ
  isBuy : Bool
  flags : UInt8
  price : ℕ
  amount : ℕ
  escrow : ℕ
  tokenContract : Addr
  deadline : ℕ
  clientOrderId : ℕ
  targetOrderId : ℕ
  contOrderId : ℕ
  contRemaining : ℕ
  contLeftover : ℕ
  contScanOrder : ℕ
  deriving DecidableEq

instance : Inhabited QueueEntry where
  default := ⟨.none, noAddr, 0, false, 0, 0, 0, 0, noAddr, 0, 0, 0, 0, 0, 0, 0⟩

/-- External events of the book. -/
inductive BookEvent
  | orderPlaced (orderId : ℕ) (isBuy : Bool) (price ticks : ℕ) (note tokenContract : Addr)
      (deadline : ℕ) (flags : UInt8)
  | orderCancelled (orderId refunded : ℕ) (note : Addr)
  | orderCancelRejected (orderId reason : ℕ) (note : Addr)
  | filled (makerId takerId ticks clearingPrice : ℕ) (sellerTC buyerNote sellerNote : Addr)
  | executed (ticks clearingPrice cost : ℕ)
  | refunded (orderId : ℕ) (note : Addr) (amount : ℕ)
  | orderRejected (reason : ℕ) (note tokenContract : Addr) (refund : ℕ)
  | orderExpired (orderId : ℕ) (isBuy : Bool) (note tokenContract : Addr)
  deriving DecidableEq

/-- Calls of the book into a note; each also names the model of the book. -/
inductive NoteCall
  | onInferencePlaced (tokenContract : Addr) (orderId clientOrderId : ℕ) (isBuy : Bool)
      (price ticks : ℕ)
  | onInferenceOrderRemoved (orderId cause refunded : ℕ)
  | onInferenceFilled (tokenContract : Addr) (orderId clientOrderId ticks clearingPrice spent : ℕ)
      (isBuy : Bool)
  | onInferenceRejected (clientOrderId reason refunded : ℕ)
  | creditFromBook (amount : ℕ)
  deriving DecidableEq

/-- Calls of the book into a deal. -/
inductive DealCall
  | fundFromOrderBook (paid : ℕ) (buyerNote : Addr) (buyerPubkey : ℕ) (dealFlags : UInt8)
  | onSellClosed
  deriving DecidableEq

/-- Outgoing actions of a transaction. -/
inductive Action
  | event (e : BookEvent)
  | note (dest : Addr) (c : NoteCall)
  | deal (dest : Addr) (c : DealCall)
  | processHead
  | onWeeklyMedian (dest : Addr) (eventId oracleListHash tokenType price : ℕ)
  deriving DecidableEq

/-- What a match had in hand when it settled a fill. -/
structure Fill where
  makerId : ℕ
  maker : Order
  takerIsBuy : Bool
  remaining : ℕ
  budget : ℕ
  trade : ℕ
  clearing : ℕ
  debit : ℕ
  dealFlags : UInt8

/-- The part of the storage that holds the resting orders. -/
structure Book where
  orders : ℕ → Option Order
  levels : Bool → Dict ℕ PriceLevel
  ownerHead : Addr → ℕ
  ownerTail : Addr → ℕ
  orderCount : ℕ

namespace Book

def empty : Book where
  orders := fun _ => none
  levels := fun _ => Dict.empty
  ownerHead := fun _ => 0
  ownerTail := fun _ => 0
  orderCount := 0

/-- A mapping read: a missing order reads as the zero record. -/
def order (b : Book) (id : ℕ) : Order := (b.orders id).getD default

def putOrder (b : Book) (id : ℕ) (o : Order) : Book :=
  { b with orders := Function.update b.orders id (some o) }

def modifyOrder (b : Book) (id : ℕ) (f : Order → Order) : Book :=
  b.putOrder id (f (b.order id))

/-- A mapping write through a link field of `_orders[id]`. -/
def modifyLinks (b : Book) (id : ℕ) (f : Links → Links) : Book :=
  b.modifyOrder id fun o => { o with toLinks := f o.toLinks }

def deleteOrder (b : Book) (id : ℕ) : Book :=
  { b with orders := Function.update b.orders id none }

def level (b : Book) (isBuy : Bool) (price : ℕ) : PriceLevel :=
  ((b.levels isBuy).get? price).getD default

def setLevel (b : Book) (isBuy : Bool) (price : ℕ) (l : PriceLevel) : Book :=
  { b with levels := Function.update b.levels isBuy ((b.levels isBuy).insert price l) }

def deleteLevel (b : Book) (isBuy : Bool) (price : ℕ) : Book :=
  { b with levels := Function.update b.levels isBuy ((b.levels isBuy).erase price) }

def setOwnerHead (b : Book) (owner : Addr) (id : ℕ) : Book :=
  { b with ownerHead := Function.update b.ownerHead owner id }

def setOwnerTail (b : Book) (owner : Addr) (id : ℕ) : Book :=
  { b with ownerTail := Function.update b.ownerTail owner id }

end Book

/-- The operation queue: a ring of `QUEUE_CAPACITY` slots. -/
structure Queue where
  queue : ℕ → QueueEntry
  queueHead : ℕ
  queueTail : ℕ
  queueSize : ℕ

def Queue.empty : Queue := ⟨fun _ => default, 0, 0, 0⟩

end InferenceOrderBook

/-- Storage of one InferenceOrderBook and the action list of its current transaction. Three history
variables: the time of the last transaction, and the fills and the dust of the current one. -/
structure InferenceOrderBook extends InferenceOrderBook.Book, InferenceOrderBook.Queue where
  modelHash : ℕ
  nextOrderId : ℕ
  executedNotional : ℕ
  executedTicks : ℕ
  matchSeq : ℕ
  handoverBuyer : Mapping Addr Addr
  prices : ReferencePrice
  actions : List InferenceOrderBook.Action
  clock : ℕ
  fills : List InferenceOrderBook.Fill
  dust : List InferenceOrderBook.Order

namespace InferenceOrderBook

/-- Storage after the constructor. -/
def init (modelHash : ℕ) : InferenceOrderBook where
  toBook := Book.empty
  toQueue := Queue.empty
  modelHash := modelHash
  nextOrderId := 1
  executedNotional := 0
  executedTicks := 0
  matchSeq := 0
  handoverBuyer := ∅
  prices := .init
  actions := []
  clock := 0
  fills := []
  dust := []

def act (s : InferenceOrderBook) (a : Action) : InferenceOrderBook :=
  { s with actions := s.actions ++ [a] }

def emit (s : InferenceOrderBook) (e : BookEvent) : InferenceOrderBook := s.act (.event e)

def toNote (s : InferenceOrderBook) (dest : Addr) (c : NoteCall) : InferenceOrderBook :=
  s.act (.note dest c)

def toDeal (s : InferenceOrderBook) (dest : Addr) (c : DealCall) : InferenceOrderBook :=
  s.act (.deal dest c)

def setBook (s : InferenceOrderBook) (b : Book) : InferenceOrderBook := { s with toBook := b }

end InferenceOrderBook

end Dexdo
