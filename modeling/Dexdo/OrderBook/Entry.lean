import Dexdo.OrderBook.Engine

namespace Dexdo.OrderBook

/-- `_allocSlot` and the write of the new entry into the slot. -/
def enqueue (s : OrderBook) (e : QueueEntry) : OrderBook :=
  let slot := s.queueTail
  let queueId := s.nextQueueId
  ({ s with
      nextQueueId := s.nextQueueId + 1
      queueTail := (s.queueTail + 1) % QUEUE_CAPACITY
      queueSize := s.queueSize + 1
      queue := Function.update s.queue slot { e with queueId := queueId } }).emit
    (.queued slot queueId e.entryType)

def advanceHead (s : OrderBook) : OrderBook :=
  { s with queue := Function.update s.queue s.queueHead default
           queueHead := (s.queueHead + 1) % QUEUE_CAPACITY
           queueSize := s.queueSize - 1 }

/-- A PLACE entry as `_enqueuePlace` writes it. -/
def placeEntry (depositHash : ℕ) (op : PlaceParams) (opNonce sub batch : ℕ) : QueueEntry where
  entryType := .place
  queueId := 0
  depositHash := depositHash
  params := op
  targetOrderId := 0
  filledAccum := 0
  precheckDone := false
  precheckAccum := 0
  precheckLastPrice := 0
  isBatchEnd := false
  opNonce := opNonce
  sub := sub
  batch := batch

/-- A CANCEL or CANCEL_ALL entry; its place fields are zero. -/
def cancelEntry (entryType : EntryType) (depositHash targetOrderId opNonce batch : ℕ) :
    QueueEntry :=
  { placeEntry depositHash default opNonce 0 batch with
    entryType := entryType
    targetOrderId := targetOrderId }

/-- Queue a PLACE entry; false when the queue is at its place limit. -/
def enqueuePlace (s : OrderBook) (depositHash : ℕ) (op : PlaceParams) (opNonce sub batch : ℕ) :
    OrderBook × Bool :=
  if s.queueSize < QUEUE_PLACE_LIMIT then
    (s.enqueue (placeEntry depositHash op opNonce sub batch), true)
  else (s.emit (.rejected .place depositHash), false)

/-- Queue a CANCEL or CANCEL_ALL entry; false when the queue is full. -/
def enqueueCancelEntry (s : OrderBook) (entryType : EntryType)
    (depositHash targetOrderId opNonce batch : ℕ) : OrderBook × Bool :=
  if s.queueSize < QUEUE_CAPACITY then
    (s.enqueue (cancelEntry entryType depositHash targetOrderId opNonce batch), true)
  else (s.emit (.rejected entryType depositHash), false)

def enqueueCancel (s : OrderBook) (depositHash targetOrderId opNonce batch : ℕ) :
    OrderBook × Bool :=
  s.enqueueCancelEntry .cancel depositHash targetOrderId opNonce batch

def enqueueCancelAll (s : OrderBook) (depositHash opNonce batch : ℕ) : OrderBook × Bool :=
  s.enqueueCancelEntry .cancelAll depositHash 0 opNonce batch

/-- Tail of both head branches: poke the queue again, or promote a deferred shutdown. -/
def pokeNext (s : OrderBook) : OrderBook :=
  if 0 < s.queueSize then s.act .processHead
  else if s.shutdownPending then s.act .shutdown
  else s

/-- Drop the finished head and acknowledge the batch it closed. -/
def finishHead (s : OrderBook) (head : QueueEntry) : OrderBook :=
  let s := s.advanceHead
  if head.isBatchEnd then s.notifyBatchAccepted head.depositHash head.opNonce head.batch else s

/-- Shutdown-pending fast path: an untouched head is refused, a pre-checked one cancelled. -/
def refuseHead (s : OrderBook) (head : QueueEntry) : OrderBook :=
  let s := if head.entryType = .place then
      if head.targetOrderId = 0 then
        s.notifyRejectedPlace head.depositHash head.params head.opNonce head.sub (some head.batch)
      else s.cancelTaker head head.targetOrderId
        (Book.collateralFor head.params.isBuy head.params.price head.params.amount)
    else s
  (s.finishHead head).pokeNext

/-- Ordinary processing of the head; the result tells whether it stays. -/
def runHead (s : OrderBook) (head : QueueEntry) : OrderBook × Bool :=
  if head.entryType = .cancel then
    (s.doCancel head.depositHash head.targetOrderId head.opNonce head.batch, false)
  else if head.entryType = .cancelAll then
    let r := s.doCancelAll head.depositHash head.opNonce head.batch
    (r.1, decide (MAX_CANCEL_ALL_PER_CALL ≤ r.2))
  else match s.doPlace head with
    | (s, none) => (s, false)
    | (s, some head') => ({ s with queue := Function.update s.queue s.queueHead head' }, true)

def processHeadCore (s : OrderBook) : OrderBook :=
  if s.shuttingDown then s
  else if s.queueSize = 0 then (if s.shutdownPending then s.act .shutdown else s)
  else
    let head := s.queue s.queueHead
    if s.shutdownPending ∧ ¬ head.precheckDone then s.refuseHead head
    else
      let r := s.runHead head
      (if r.2 then r.1 else r.1.finishHead head).pokeNext

/-- Slot written by the last successful enqueue. -/
def lastSlot (s : OrderBook) : ℕ := if s.queueTail = 0 then QUEUE_CAPACITY - 1 else s.queueTail - 1

def markBatchEnd (s : OrderBook) (slot : ℕ) : OrderBook :=
  { s with queue := Function.update s.queue slot { s.queue slot with isBatchEnd := true } }

/-- One cancel of a batch; the mark is the slot queued last, if any. -/
def batchCancel (depositHash opNonce batch : ℕ) (r : OrderBook × Option ℕ) (id : ℕ) :
    OrderBook × Option ℕ :=
  let (s, ok) := r.1.enqueueCancel depositHash id opNonce batch
  (s, if ok then some s.lastSlot else r.2)

/-- One order of a batch: queued, or refused with a callback. -/
def batchPlace (depositHash opNonce batch : ℕ) (r : OrderBook × Option ℕ) (op : PlaceParams) :
    OrderBook × Option ℕ :=
  let sub := r.1.subs
  let s := { r.1 with subs := sub + 1 }
  if op.valid s.market.tokenType then
    let (s, ok) := s.enqueuePlace depositHash op opNonce sub batch
    if ok then (s, some s.lastSlot)
    else (s.notifyRejectedPlace depositHash op opNonce sub (some batch), r.2)
  else ((s.emit (.rejected .place depositHash)).notifyRejectedPlace depositHash op opNonce sub
    (some batch), r.2)

/-- The queueing half of `executeBatch`: cancels first, then placements. -/
def enqueueBatch (s : OrderBook) (depositHash : ℕ) (orders : List PlaceParams)
    (cancelIds : List ℕ) (opNonce : ℕ) : OrderBook × Option ℕ :=
  let batch := s.batches
  let r := cancelIds.foldl (batchCancel depositHash opNonce batch)
    ({ s with batches := batch + 1 }, none)
  orders.foldl (batchPlace depositHash opNonce batch) r

/-- Close a call: mark its last entry, process the head, and acknowledge at once
when nothing was queued. -/
def closeBatch (r : OrderBook × Option ℕ) (depositHash opNonce batch : ℕ) : OrderBook :=
  match r.2 with
  | some slot => (r.1.markBatchEnd slot).processHeadCore
  | none => r.1.processHeadCore.notifyBatchAccepted depositHash opNonce batch

def executeBatch (s : OrderBook) (sender : Addr) (now depositIdentifierHash : ℕ)
    (orders : List PlaceParams) (cancelIds : List ℕ) (opNonce : ℕ) : Option OrderBook := do
  guard (¬ s.shuttingDown)
  guard (now < s.resultStart)
  guard (sender = .note depositIdentifierHash)
  guard (orders.length ≤ MAX_BATCH_SIZE)
  guard (cancelIds.length ≤ MAX_BATCH_SIZE)
  return closeBatch (s.enqueueBatch depositIdentifierHash orders cancelIds opNonce)
    depositIdentifierHash opNonce s.batches

def cancelAllOrders (s : OrderBook) (sender : Addr) (now depositIdentifierHash opNonce : ℕ) :
    Option OrderBook := do
  guard (¬ s.shuttingDown)
  guard (now < s.resultStart)
  guard (sender = .note depositIdentifierHash)
  let r := { s with batches := s.batches + 1 }.enqueueCancelAll depositIdentifierHash opNonce
    s.batches
  return closeBatch (r.1, if r.2 then some r.1.lastSlot else none) depositIdentifierHash opNonce
    s.batches

/-- Public poke of the queue. -/
def processHead (s : OrderBook) : OrderBook := s.processHeadCore

def setResultStart (s : OrderBook) (sender : Addr) (now resultStart : ℕ) : Option OrderBook := do
  guard (sender = .pmp s.market)
  guard (now < s.resultStart)
  guard (now < resultStart)
  return { s with resultStart := resultStart }

/-- First cursor of a shutdown pass. -/
def shutdownStart (s : OrderBook) : ℕ := if s.shutdownCursor = 0 then 1 else s.shutdownCursor

/-- Ids a shutdown pass scans: at most `MAX_SHUTDOWN_BATCH`, below `_nextOrderId`. -/
def shutdownScan (s : OrderBook) : List ℕ :=
  List.range' s.shutdownStart (min MAX_SHUTDOWN_BATCH (s.nextOrderId - s.shutdownStart))

/-- One drain pass. -/
def drainPass (s : OrderBook) : OrderBook :=
  let s := { s with shuttingDown := true, shutdownPending := false }
  let toCancel := s.shutdownScan.filter fun i => decide (0 < (s.order i).amount)
  let s := { s with shutdownCursor := s.shutdownStart + s.shutdownScan.length }
  let s : OrderBook :=
    toCancel.foldl (fun s oid => s.cancelResting (s.order oid).depositHash oid 0 none) s
  if s.shutdownCursor < s.nextOrderId then s.act .shutdown
  else
    let s := if 0 < s.totalProtocolFees then
        { s.act (.collectProtocolFee s.totalProtocolFees) with totalProtocolFees := 0 }
      else s
    s.act .onOrderBookShutdownComplete

def shutdown (s : OrderBook) (sender : Addr) : Option OrderBook := do
  guard (sender = .pmp s.market ∨ sender = .orderBook s.market)
  return if 0 < s.queueSize ∧ ¬ s.shuttingDown then { s with shutdownPending := true }
    else s.drainPass

end Dexdo.OrderBook
