import Dexdo.PrivateNote.Market

namespace Dexdo

/-- Checks of one order before the note sends it. -/
def PlaceParams.accepted (p : PlaceParams) (tokenType : ℕ) : Bool :=
  if p.amount = 0 then false
  else if p.isMarket then
    decide (p.minAmount = 0) && (!p.isBuy || decide (minOrderNotional tokenType ≤ p.amount))
  else if p.amount % lotSize tokenType ≠ 0 then false
  else if p.price % TICK_SIZE ≠ 0 then false
  else if p.price ≠ 0 ∧ (2 ^ 256 - 1) / p.price < p.amount then false
  else if 2 ^ 128 - 1 < notionalOf p.amount p.price then false
  else decide (minOrderNotional tokenType ≤ notionalOf p.amount p.price)

/-- Quote value in `uint128`, computed in `uint256`. -/
def checkedNotional (amount price : ℕ) : Option ℕ := do
  guard (amount * price < 2 ^ 256)
  cast128 (notionalOf amount price)

/-- Cost of a buy order; a market order costs its whole amount. -/
def buyCost (flags : UInt8) (price amount : ℕ) : Option ℕ :=
  if flags &&& FLAG_MARKET != 0 then some amount else checkedNotional amount price

/-- Balance a buy order locks: its cost and the highest taker fee on it. -/
def buyLock (flags : UInt8) (price amount : ℕ) : Option ℕ := do
  let cost ← buyCost flags price amount
  add128 cost (← cast128 (takerFeeOf cost))

namespace PrivateNote

/-- Mark a client order id as sent but not yet numbered by the book. -/
def reserveClientOrder (s : PrivateNote) (clientOrderId : ℕ) : Option PrivateNote := do
  guard (s.clientOrderIds.has clientOrderId = false)
  return s.setPositions { s.toPositions with
    clientOrderIds := AList.insert clientOrderId (2 ^ 128 - 1) s.clientOrderIds }

/-- The client order id of a single order, zero when there is none. -/
def reservePlace (s : PrivateNote) (clientOrderId : ℕ) : Option PrivateNote :=
  if clientOrderId = 0 then some s
  else do
    let s ← s.reserveClientOrder clientOrderId
    return s.setPending { s.toPending with pendingPlaceClientOrderId := clientOrderId }

/-- Move `amount` from the balance under the lock of the orders. -/
def lockBalance (s : PrivateNote) (tokenType amount : ℕ) : Option PrivateNote := do
  let s ← s.debit tokenType amount
  let locked ← add128 (s.lockedInOrders.read tokenType) amount
  return s.setPositions { s.toPositions with
    lockedInOrders := AList.insert tokenType locked s.lockedInOrders }

/-- Latch on the order book and send it a batch. -/
def sendBatch (s : PrivateNote) (m : MarketId) (orders : List PlaceParams)
    (cancelIds : List ℕ) : Option PrivateNote := do
  let s ← (s.occupy (.orderBook m) m).nextOp
  return s.act (.executeBatch m s.depositIdentifierHash orders cancelIds s.opNonce)

/-- A buy locks its cost and its highest fee. -/
def placeBuy (s : PrivateNote) (m : MarketId) (p : PlaceParams) : Option PrivateNote := do
  let lock ← buyLock p.flags p.price p.amount
  let s ← s.lockBalance m.tokenType lock
  return s.setPending { s.toPending with
    pendingPlaceBuyLock := lock, pendingPlaceBuyTokenType := m.tokenType }

/-- A sell takes its shares out of the record. -/
def placeSell (s : PrivateNote) (m : MarketId) (p : PlaceParams) : Option PrivateNote := do
  guard (s.stakes.has m)
  let r := s.stakes.read m
  let amount ← subAt r.amount p.outcomeId p.amount
  return s.putStake (some m) { r with
    amount := amount
    candidateAmount := p.amount
    candidateOutcome := p.outcomeId
    candidateBetType := .obSell }

/-- Sends one order to the book and keeps the latch until it answers. -/
def placeOrder (s : PrivateNote) (m : MarketId) (p : PlaceParams) : Option PrivateNote := do
  guard (s.hasWithdrawn = false)
  guard s.busy.isNone
  guard (s.debt = 0)
  let s ← s.reservePlace p.clientOrderId
  guard (p.accepted m.tokenType)
  let s := s.emit (.orderSubmitted p.clientOrderId p.outcomeId p.isBuy p.price p.amount p.flags
    m.eventId m.tokenType)
  let s ← (if p.isBuy then s.placeBuy m p else s.placeSell m p)
  s.sendBatch m [p] []

/-- Client order id of an order the book answered. -/
def answerClientOrder (s : PrivateNote) (clientOrderId : ℕ) (orderId : Option ℕ) : PrivateNote :=
  if clientOrderId = 0 then s
  else
    let s := match orderId with
      | some orderId => s.setPositions { s.toPositions with
          clientOrderIds := AList.insert clientOrderId orderId s.clientOrderIds }
      | none => s.forgetClientOrder clientOrderId
    if s.pendingBatchActive = false ∧ s.pendingPlaceClientOrderId = clientOrderId then
      s.setPending { s.toPending with pendingPlaceClientOrderId := 0 }
    else s

/-- The callback answers the operation that holds the latch, and that is no batch. -/
def answers (s : PrivateNote) (opNonce : ℕ) : Prop :=
  s.pendingBatchActive = false ∧ opNonce = s.busyOpNonce

instance (s : PrivateNote) (opNonce : ℕ) : Decidable (s.answers opNonce) :=
  inferInstanceAs (Decidable (_ ∧ _))

def clearPlaceLock (s : PrivateNote) : PrivateNote :=
  s.setPending { s.toPending with pendingPlaceBuyLock := 0, pendingPlaceBuyTokenType := 0 }

/-- A sell of this market that was in flight has reached the book. -/
def settleSellCandidate (s : PrivateNote) (m : MarketId) : PrivateNote :=
  let r := s.stakes.read m
  if s.stakes.has m = true ∧ 0 < r.candidateAmount ∧ r.candidateBetType = .obSell then
    s.putStake (some m) { r with candidateAmount := 0 }
  else s

/-- Release the latch if the book of `m` holds it. -/
def freeFrom (s : PrivateNote) (m : MarketId) : PrivateNote :=
  if s.busy = some (.orderBook m) then s.freeOp else s

/-- Keep the fee reserve and the lock of a resting order. -/
def keepLocks (s : PrivateNote) (m : MarketId) (orderId feeReserve lock : ℕ) : PrivateNote :=
  let k := (Addr.orderBook m, orderId)
  s.setPositions { s.toPositions with
    orderFeeReserves := if 0 < feeReserve then AList.insert k feeReserve s.orderFeeReserves
      else s.orderFeeReserves
    orderLocks := if 0 < lock then AList.insert k lock s.orderLocks else s.orderLocks }

/-- One more open order. -/
def countOpen (s : PrivateNote) (m : MarketId) : Option PrivateNote := do
  guard (s.openOrderCount + 1 < 2 ^ 32)
  guard (s.openOrdersByEvent.read m + 1 < 2 ^ 32)
  return s.setPositions { s.toPositions with
    openOrderCount := s.openOrderCount + 1
    openOrdersByEvent := AList.insert m (s.openOrdersByEvent.read m + 1) s.openOrdersByEvent }

/-- One open order less, down to zero. -/
def countClosed (s : PrivateNote) (m : MarketId) : PrivateNote :=
  s.setPositions { s.toPositions with
    openOrderCount := s.openOrderCount - 1
    openOrdersByEvent := if 0 < s.openOrdersByEvent.read m then
        AList.insert m (s.openOrdersByEvent.read m - 1) s.openOrdersByEvent
      else s.openOrdersByEvent }

/-- The order rests: its lock becomes that of the resting order. -/
def onOrderPlaced (s : PrivateNote) (caller : Caller) (m : MarketId)
    (orderId feeReserve lock clientOrderId outcomeId : ℕ) (isBuy : Bool) (flags : UInt8)
    (price amount opNonce : ℕ) : Option PrivateNote := do
  guard (caller.isSender (.orderBook m))
  let s := s.answerClientOrder clientOrderId (some orderId)
  let s ← (s.keepLocks m orderId feeReserve lock).countOpen m
  let s := if s.answers opNonce then (s.clearPlaceLock.settleSellCandidate m).freeFrom m else s
  return s.emit (.orderPlacedConfirmed (.orderBook m) orderId clientOrderId outcomeId isBuy flags
    price amount)

/-- Return of the balance a refused or cancelled buy had locked. -/
def returnLock (s : PrivateNote) (tokenType amount : ℕ) : Option PrivateNote := do
  return (← s.credit tokenType amount).unlock tokenType amount

/-- Record of a market the note may not hold a stake in yet, with room for every outcome. -/
def stakeFor (s : PrivateNote) (m : MarketId) (numOutcomes : ℕ) : StakeInfo :=
  let r := if s.stakes.has m then s.stakes.read m
    else { StakeInfo.empty with oracleListHash := m.oracleListHash, tokenType := m.tokenType }
  r.padded numOutcomes

/-- The lock of a refused buy returns. -/
def rejectBuy (s : PrivateNote) (m : MarketId) (flags : UInt8) (price amount opNonce : ℕ) :
    Option PrivateNote := do
  let lock ← buyLock flags price amount
  let s ← s.returnLock m.tokenType lock
  return if s.answers opNonce then s.clearPlaceLock else s

/-- The shares of a refused sell return. -/
def rejectSell (s : PrivateNote) (m : MarketId) (outcomeId amount numOutcomes : ℕ) :
    Option PrivateNote := do
  let r := s.stakeFor m numOutcomes
  let amount ← addAt r.amount outcomeId amount
  let candidateAmount := if r.candidateBetType = .obSell then 0 else r.candidateAmount
  return s.putStake (some m) { r with amount := amount, candidateAmount := candidateAmount }

/-- The book refused an order. -/
def onOrderRejected (s : PrivateNote) (caller : Caller) (m : MarketId) (outcomeId : ℕ)
    (isBuy : Bool) (flags : UInt8) (price amount numOutcomes clientOrderId opNonce : ℕ) :
    Option PrivateNote := do
  guard (caller.isSender (.orderBook m))
  let s := s.answerClientOrder clientOrderId none
  let s ← (if isBuy then s.rejectBuy m flags price amount opNonce
    else s.rejectSell m outcomeId amount numOutcomes)
  return s.emit (.orderPlaceRejected (.orderBook m) m.eventId clientOrderId outcomeId isBuy flags
    price amount opNonce)

/-- Cancels one order, as a batch of its own. -/
def cancelOrder (s : PrivateNote) (m : MarketId) (orderId : ℕ) : Option PrivateNote := do
  guard s.busy.isNone
  s.sendBatch m [] [orderId]

/-- Cancel of an order by its client id. -/
def cancelOrderByClient (s : PrivateNote) (m : MarketId) (clientOrderId : ℕ) :
    Option PrivateNote := do
  guard s.busy.isNone
  guard (clientOrderId ≠ 0)
  let orderId ← s.clientOrderIds.lookup clientOrderId
  guard (orderId ≠ 2 ^ 128 - 1)
  s.sendBatch m [] [orderId]

/-- Drop the fee reserve and the lock of an order. -/
def dropLocks (s : PrivateNote) (m : MarketId) (orderId : ℕ) : PrivateNote :=
  let k := (Addr.orderBook m, orderId)
  s.setPositions { s.toPositions with
    orderFeeReserves := AList.erase k s.orderFeeReserves
    orderLocks := AList.erase k s.orderLocks }

/-- What a cancelled buy gets back: its lock, or what the book says when none is on record. -/
def returnedOf (s : PrivateNote) (m : MarketId) (orderId amount : ℕ) : Option ℕ :=
  let k := (Addr.orderBook m, orderId)
  let lock := s.orderLocks.read k
  if lock = 0 then add128 amount (s.orderFeeReserves.read k) else some lock

/-- The rest of a lock returns with its order. -/
def cancelBuy (s : PrivateNote) (m : MarketId) (orderId amount : ℕ) : Option PrivateNote := do
  let returned ← s.returnedOf m orderId amount
  let s ← s.returnLock m.tokenType returned
  return s.dropLocks m orderId

/-- Tokens of a cancelled sell go back to the record, if there is one with that outcome. -/
def cancelSell (s : PrivateNote) (m : MarketId) (outcomeId amount : ℕ) : Option PrivateNote :=
  let r := s.stakes.read m
  if s.stakes.has m = true ∧ outcomeId < r.amount.length then do
    let amount ← addAt r.amount outcomeId amount
    return s.putStake (some m) { r with amount := amount }
  else some s

/-- A resting order is off the book. -/
def onOrderCancelled (s : PrivateNote) (caller : Caller) (m : MarketId)
    (orderId outcomeId : ℕ) (isBuy : Bool) (amount clientOrderId opNonce : ℕ) :
    Option PrivateNote := do
  guard (caller.isSender (.orderBook m))
  let s := if clientOrderId ≠ 0 then s.forgetClientOrder clientOrderId else s
  let s := s.countClosed m
  let s ← (if isBuy then s.cancelBuy m orderId amount else s.cancelSell m outcomeId amount)
  let s := if s.answers opNonce then s.freeFrom m else s
  return s.emit (.orderCancelledConfirmed (.orderBook m) orderId outcomeId isBuy amount)

/-- Fee reserve left on a buy after a fill, and the part a final fill gives back. -/
def reserveAfter (reserve feeAmount : ℕ) (isRebate isFinal : Bool) : ℕ × ℕ :=
  let left := if isRebate then reserve else reserve - feeAmount
  if isFinal then (0, left) else (left, 0)

/-- Fee reserve of a resting order. -/
def setReserve (s : PrivateNote) (m : MarketId) (orderId reserve : ℕ) : PrivateNote :=
  let k := (Addr.orderBook m, orderId)
  s.setPositions { s.toPositions with
    orderFeeReserves := if reserve = 0 then AList.erase k s.orderFeeReserves
      else AList.insert k reserve s.orderFeeReserves }

/-- Decrease of the lock of a filled buy by what the fill consumed; a final fill releases the
rest. -/
def consumeLock (s : PrivateNote) (m : MarketId) (orderId consumed : ℕ) (isFinal : Bool) :
    Option PrivateNote := do
  let k := (Addr.orderBook m, orderId)
  let orderLock := s.orderLocks.read k
  let applyDec := min orderLock consumed
  if isFinal then
    let s ← s.credit m.tokenType (orderLock - applyDec)
    let locked ← sub128 (s.lockedInOrders.read m.tokenType) orderLock
    return s.setPositions { s.toPositions with
      lockedInOrders := AList.insert m.tokenType locked s.lockedInOrders
      orderLocks := AList.erase k s.orderLocks }
  else
    let locked ← sub128 (s.lockedInOrders.read m.tokenType) applyDec
    return s.setPositions { s.toPositions with
      lockedInOrders := AList.insert m.tokenType locked s.lockedInOrders
      orderLocks := AList.insert k (orderLock - applyDec) s.orderLocks }

/-- Bought shares come in, and the lock pays for them. -/
def fillBuy (s : PrivateNote) (m : MarketId)
    (outcomeId filledAmount clearingPrice refundAmount feeAmount : ℕ) (isRebate : Bool)
    (orderId : ℕ) (isFinal : Bool) (numOutcomes : ℕ) : Option PrivateNote := do
  let r := s.stakeFor m numOutcomes
  let amount ← addAt r.amount outcomeId filledAmount
  let s := s.putStake (some m) { r with amount := amount }
  let reserve := s.orderFeeReserves.read (Addr.orderBook m, orderId)
  let (newReserve, feeRefund) := reserveAfter reserve feeAmount isRebate isFinal
  let s := s.setReserve m orderId newReserve
  let gain ← sum128 [refundAmount, feeRefund, if isRebate then feeAmount else 0]
  let s ← s.credit m.tokenType gain
  let actualCost ← checkedNotional filledAmount clearingPrice
  let consumed ← sum128 [refundAmount, feeRefund, actualCost, if isRebate then 0 else feeAmount]
  s.consumeLock m orderId consumed isFinal

/-- Proceeds of a sale, less the fee or with the rebate. -/
def fillSell (s : PrivateNote) (m : MarketId) (filledAmount clearingPrice feeAmount : ℕ)
    (isRebate : Bool) : Option PrivateNote := do
  let proceeds ← checkedNotional filledAmount clearingPrice
  if isRebate then s.credit m.tokenType (← add128 proceeds feeAmount)
  else if feeAmount < proceeds then s.credit m.tokenType (proceeds - feeAmount)
  else return s

/-- A fill of an order of the note. -/
def onOrderFilled (s : PrivateNote) (caller : Caller) (m : MarketId)
    (outcomeId filledAmount clearingPrice : ℕ) (isBuy : Bool) (refundAmount feeAmount : ℕ)
    (isRebate : Bool) (orderId : ℕ) (isFinal : Bool) (numOutcomes clientOrderId : ℕ) :
    Option PrivateNote := do
  guard (caller.isSender (.orderBook m))
  let s := if isFinal = true ∧ clientOrderId ≠ 0 then s.forgetClientOrder clientOrderId else s
  let s ← (if isBuy then
      s.fillBuy m outcomeId filledAmount clearingPrice refundAmount feeAmount isRebate orderId
        isFinal numOutcomes
    else s.fillSell m filledAmount clearingPrice feeAmount isRebate)
  let s := if isFinal then s.countClosed m else s
  return s.emit (.orderFilledConfirmed (.orderBook m) orderId outcomeId filledAmount clearingPrice
    isBuy feeAmount isRebate isFinal)

/-- What a batch has gathered: the note, the stake record it sells from, and the locks. -/
structure BatchDraft where
  note : PrivateNote
  stake : StakeInfo
  totalBuyLock : ℕ

/-- A client order id of a batch. -/
def BatchDraft.reserve (d : BatchDraft) (clientOrderId : ℕ) : Option BatchDraft :=
  if clientOrderId = 0 then some d
  else do
    let s ← d.note.reserveClientOrder clientOrderId
    let ids := s.pendingBatchClientOrderIds ++ [clientOrderId]
    return { d with note := s.setPending { s.toPending with pendingBatchClientOrderIds := ids } }

/-- A sale of the batch takes the tokens it offers. -/
def BatchDraft.sell (d : BatchDraft) (m : MarketId) (p : PlaceParams) : Option BatchDraft := do
  guard (d.note.stakes.has m)
  let amount ← subAt d.stake.amount p.outcomeId p.amount
  let s := d.note
  let sells := s.pendingBatchSells ++ [⟨p.outcomeId, p.amount⟩]
  return { d with
    note := s.setPending { s.toPending with pendingBatchSells := sells }
    stake := { d.stake with amount := amount } }

/-- One order of a batch. -/
def BatchDraft.place (m : MarketId) (d : BatchDraft) (p : PlaceParams) : Option BatchDraft := do
  let d ← d.reserve p.clientOrderId
  guard (p.accepted m.tokenType)
  if p.isBuy then
    let lock ← buyLock p.flags p.price p.amount
    let total ← add128 d.totalBuyLock lock
    return { d with totalBuyLock := total }
  else d.sell m p

/-- Orders and cancels in one message. -/
def placeBatch (s : PrivateNote) (m : MarketId) (orders : List PlaceParams)
    (cancelIds : List ℕ) : Option PrivateNote := do
  guard s.busy.isNone
  guard (0 < orders.length + cancelIds.length)
  guard (orders.length ≤ MAX_BATCH_SIZE)
  guard (cancelIds.length ≤ MAX_BATCH_SIZE)
  guard (orders ≠ [] → s.hasWithdrawn = false ∧ s.debt = 0)
  let s := s.setPending { s.toPending with pendingBatchSells := [] }
  let d ← orders.foldlM (BatchDraft.place m) ⟨s, s.stakes.read m, 0⟩
  let s ← d.note.lockBalance m.tokenType d.totalBuyLock
  let s := if s.pendingBatchSells = [] then s else s.putStake (some m) d.stake
  let s := s.setPending { s.toPending with
    pendingBatchActive := true
    pendingBatchBuyLock := d.totalBuyLock
    pendingBatchTokenType := m.tokenType
    pendingBatchStakeHash := some m }
  s.sendBatch m orders cancelIds

/-- Cancels every order on one book. -/
def cancelAllOrders (s : PrivateNote) (m : MarketId) : Option PrivateNote := do
  guard s.busy.isNone
  let s := s.setPending { s.toPending with
    pendingBatchActive := true
    pendingBatchTokenType := m.tokenType
    busy := some (.orderBook m) }
  let s ← s.nextOp
  return s.act (.cancelAllOrders m s.depositIdentifierHash s.opNonce)

/-- Forget the batch in flight. -/
def clearBatch (s : PrivateNote) : PrivateNote :=
  s.setPending { s.toPending with
    pendingBatchActive := false
    pendingBatchBuyLock := 0
    pendingBatchTokenType := 0
    pendingBatchStakeHash := none
    pendingBatchSells := []
    pendingBatchClientOrderIds := [] }

/-- The book is through with the batch. -/
def onBatchComplete (s : PrivateNote) (caller : Caller) (m : MarketId) (opNonce : ℕ) :
    Option PrivateNote := do
  guard (caller.isSender (.orderBook m))
  return if opNonce = s.busyOpNonce then s.clearBatch.freeFrom m else s

/-- Callback of the order book of market `m`. -/
def fromOrderBook (s : PrivateNote) (caller : Caller) (m : MarketId) :
    Callback → Option PrivateNote
  | .onOrderPlaced i r l c k b f p a n => s.onOrderPlaced caller m i r l c k b f p a n
  | .onOrderRejected k b f p a o c n => s.onOrderRejected caller m k b f p a o c n
  | .onOrderCancelled i k b a c n => s.onOrderCancelled caller m i k b a c n
  | .onOrderFilled k a p b r f e i l o c => s.onOrderFilled caller m k a p b r f e i l o c
  | .onBatchComplete n => s.onBatchComplete caller m n

end PrivateNote

/-- What a transaction reads besides the storage: who sent the message, the block time, and the
physical currencies of the account. -/
structure NoteEnv where
  caller : Caller
  now : ℕ
  currencies : ℕ → ℕ

/-- Physical SHELL of the account. -/
def NoteEnv.held (e : NoteEnv) : Option ℕ := cast128 (e.currencies CURRENCIES_ID_SHELL)

/-- Gas attached to a call into a deal, when the account holds it. -/
def NoteEnv.gasFor (e : NoteEnv) (gas : ℕ) : Option ℕ :=
  e.held.map fun held => if gas ≤ held then gas else 0

def hasFlag (flags mask : ℕ) : Bool := flags &&& mask != 0

namespace PrivateNote

/-- An order for ticks rests. -/
def onInferencePlaced (s : PrivateNote) (e : NoteEnv) (modelHash : ℕ) (tokenContract : Addr)
    (orderId clientOrderId : ℕ) (isBuy : Bool) (price ticks : ℕ) : Option PrivateNote := do
  let book := s.inferenceBook modelHash
  guard (e.caller.isSender book)
  let s := s.setInference { s.toInference with
    restingInf := AList.insert (book, orderId) true s.restingInf
    pendingInf := AList.erase clientOrderId s.pendingInf }
  return s.emit (.inferenceOrderPlacedConfirmed book tokenContract orderId isBuy price ticks)

/-- Touches a live deal, once in `DEAL_TOUCH_INTERVAL`. -/
def touchDeal (s : PrivateNote) (e : NoteEnv) (deal : Addr) : Option PrivateNote := do
  guard (s.liveDeals.has deal)
  guard (s.lastDealTouch + DEAL_TOUCH_INTERVAL ≤ e.now)
  return (s.setInference { s.toInference with lastDealTouch := e.now }).act (.touchDeal deal)

/-- Forget a deal that told the note it is over. -/
def closeDeal (s : PrivateNote) (deal : Addr) : PrivateNote :=
  if s.liveDeals.has deal then
    (s.setInference { s.toInference with liveDeals := AList.erase deal s.liveDeals }).emit
      (.inferenceDealClosed deal)
  else s

/-- Accepted from anyone; only a live deal is forgotten. -/
def onDealClosed (s : PrivateNote) (e : NoteEnv) : PrivateNote :=
  match e.caller with
  | .internal sender => s.closeDeal sender
  | .external _ => s

/-- An order for ticks is off the book. -/
def onInferenceOrderRemoved (s : PrivateNote) (e : NoteEnv)
    (modelHash orderId cause refunded : ℕ) : Option PrivateNote := do
  let book := s.inferenceBook modelHash
  guard (e.caller.isSender book)
  let s := if cause ≠ REMOVED_REJECTED then
      s.setInference { s.toInference with restingInf := AList.erase (book, orderId) s.restingInf }
    else s
  return s.emit (.inferenceOrderRemoved book orderId cause refunded)

/-- Escrow of a buy order that a fill has spent. -/
def spendPending (s : PrivateNote) (clientOrderId spent : ℕ) : PrivateNote :=
  let outstanding := s.pendingInf.read clientOrderId
  if outstanding = 0 then s
  else s.setInference { s.toInference with
    pendingInf := if outstanding ≤ spent then AList.erase clientOrderId s.pendingInf
      else AList.insert clientOrderId (outstanding - spent) s.pendingInf }

/-- Figure and gas of a bond sent to a deal. -/
def sendBond (s : PrivateNote) (e : NoteEnv) (tokenContract : Addr) (bond : ℕ) :
    Option PrivateNote := do
  let s ← s.debit CURRENCIES_ID_SHELL bond
  let gas ← e.gasFor DEAL_GAS_FUND
  return s.act (.deal tokenContract (.fundBuyerBond bond) gas)

/-- The buyer's bond of a fill, posted when the balance covers it. -/
def postBond (s : PrivateNote) (e : NoteEnv) (tokenContract : Addr) (clearingPrice : ℕ) :
    Option PrivateNote := do
  let bond ← cast128 (2 * clearingPrice)
  let _ ← e.held
  if bond ≤ s.balance.read CURRENCIES_ID_SHELL then s.sendBond e tokenContract bond else return s

/-- A match of an order for ticks. -/
def onInferenceFilled (s : PrivateNote) (e : NoteEnv) (modelHash : ℕ) (tokenContract : Addr)
    (orderId clientOrderId ticks clearingPrice spent : ℕ) (isBuy : Bool) :
    Option PrivateNote := do
  let book := s.inferenceBook modelHash
  guard (e.caller.isSender book)
  let s := s.setInference { s.toInference with
    liveDeals := AList.insert tokenContract true s.liveDeals }
  let s := (s.spendPending clientOrderId spent).emit
    (.inferenceFilledConfirmed book tokenContract orderId ticks clearingPrice isBuy)
  if isBuy then s.postBond e tokenContract clearingPrice else return s

/-- A refusal gives back at most what the order had committed. -/
def onInferenceRejected (s : PrivateNote) (e : NoteEnv)
    (modelHash clientOrderId reason refunded : ℕ) : Option PrivateNote := do
  let book := s.inferenceBook modelHash
  guard (e.caller.isSender book)
  let credit := min refunded (s.pendingInf.read clientOrderId)
  let s ← s.creditPositive CURRENCIES_ID_SHELL credit
  let s := s.setInference { s.toInference with
    pendingInf := AList.erase clientOrderId s.pendingInf }
  return s.emit (.inferenceOrderRejectedMirror book clientOrderId reason credit)

/-- Deploy of an inference book. -/
def deployInferenceOrderBook (s : PrivateNote) (modelHash : ℕ) (modelName : String) :
    Option PrivateNote := do
  guard (s.hasWithdrawn = false)
  return s.act (.deployInferenceOrderBook modelHash s.depositIdentifierHash modelName)

/-- Has a deal of the note post its offer. -/
def postSellOffer (s : PrivateNote) (e : NoteEnv) (flags nonce ttl : ℕ) : Option PrivateNote := do
  guard (s.hasWithdrawn = false)
  guard (ttl ≠ 0 ∧ ttl ≤ MAX_SELL_TTL)
  guard (hasFlag flags FLAG_SUBSCRIPTION = false ∨ hasFlag flags FLAG_AON = true)
  return s.act (.deal (s.ownDeal nonce) (.postFromNote s.inferenceOrderBookCodeHash
    s.inferenceOrderBookCodeDepth s.depositIdentifierHash flags (e.now + ttl)) 0)

/-- Shape of a subscription order. -/
def subscriptionFits (maxPricePerTick ticks escrow flags : ℕ) : Bool :=
  hasFlag flags FLAG_AON && decide (ticks % SUB_WEEKS = 0) &&
    decide (ticks ≤ SUB_WEEKS * SUB_TICKS_PER_WEEK) && !hasFlag flags FLAG_MARKET.toNat &&
    decide (ticks * maxPricePerTick + 2 * maxPricePerTick ≤ escrow)

/-- The escrow of a new buy order is recorded under the next client number. -/
def openPending (s : PrivateNote) (escrow : ℕ) : Option PrivateNote := do
  guard (s.nextClientOrderId + 1 < 2 ^ 64)
  let clientOrderId := s.nextClientOrderId + 1
  return s.setInference { s.toInference with
    nextClientOrderId := clientOrderId
    pendingInf := AList.insert clientOrderId escrow s.pendingInf }

/-- A bid for ticks, with its escrow. -/
def placeInferenceBuy (s : PrivateNote) (e : NoteEnv)
    (modelHash maxPricePerTick ticks escrow flags deadline : ℕ) : Option PrivateNote := do
  guard (s.hasWithdrawn = false)
  guard (hasFlag flags FLAG_SUBSCRIPTION = true →
    subscriptionFits maxPricePerTick ticks escrow flags = true)
  let s ← s.debit CURRENCIES_ID_SHELL escrow
  let held ← e.held
  guard (BUY_ORDER_GAS ≤ held)
  let s ← s.openPending escrow
  return s.act (.placeBuyOrder (s.inferenceBook modelHash) s.nextClientOrderId escrow
    maxPricePerTick ticks flags deadline s.ephemeralPubkey s.depositIdentifierHash)

def cancelInferenceOrder (s : PrivateNote) (modelHash orderId : ℕ) : PrivateNote :=
  s.act (.cancelInferenceOrder (s.inferenceBook modelHash) orderId)

def cancelAllInferenceOrders (s : PrivateNote) (modelHash : ℕ) : PrivateNote :=
  s.act (.cancelAllInferenceOrders (s.inferenceBook modelHash))

/-- Posts the bond of the buyer. -/
def fundBuyerBondNow (s : PrivateNote) (e : NoteEnv) (tokenContract : Addr) (bond : ℕ) :
    Option PrivateNote := do
  guard (s.hasWithdrawn = false)
  guard (0 < bond)
  guard (s.liveDeals.has tokenContract)
  s.sendBond e tokenContract bond

/-- A call that ends a deal, with the gas it burns. -/
def streamCall (s : PrivateNote) (e : NoteEnv) (tokenContract : Addr) (call : DealCall) :
    Option PrivateNote := do
  let gas ← e.gasFor DEAL_GAS_TERMINAL
  return s.act (.deal tokenContract call gas)

def streamStop (s : PrivateNote) (e : NoteEnv) (tokenContract : Addr) : Option PrivateNote :=
  s.streamCall e tokenContract .stop

def streamDispute (s : PrivateNote) (e : NoteEnv) (tokenContract : Addr) : Option PrivateNote :=
  s.streamCall e tokenContract .dispute

def streamCleanup (s : PrivateNote) (e : NoteEnv) (tokenContract : Addr) : Option PrivateNote :=
  s.streamCall e tokenContract .cleanupUnopened

/-- Bond, endpoint and gas for a deal of the note. -/
def fundDeal (s : PrivateNote) (nonce gasShell amount : ℕ)
    (endpointCipher : Option (List ℕ)) : Option PrivateNote := do
  guard (s.hasWithdrawn = false)
  guard (0 < gasShell ∨ 0 < amount)
  let s ← s.debit CURRENCIES_ID_SHELL amount
  return s.act (.deal (s.ownDeal nonce) (.fundDeal amount endpointCipher) gasShell)

/-- Money a deal sends. -/
def creditFromDeal (s : PrivateNote) (e : NoteEnv) (amount sellerPubkey nonce : ℕ) :
    Option PrivateNote := do
  if amount = 0 then return s
  let deal := Addr.deal sellerPubkey nonce
  guard (e.caller.isSender deal)
  return (← s.credit CURRENCIES_ID_SHELL amount).emit (.dealCredited deal amount)

/-- Money an inference book sends back. -/
def creditFromBook (s : PrivateNote) (e : NoteEnv) (amount modelHash : ℕ) :
    Option PrivateNote := do
  if amount = 0 then return s
  let book := s.inferenceBook modelHash
  guard (e.caller.isSender book)
  return (← s.credit CURRENCIES_ID_SHELL amount).emit (.bookCredited book amount)

/-- SHELL for the gas of a deal. -/
def fundDeployShell (s : PrivateNote) (nonce tcShell : ℕ) : PrivateNote :=
  if 0 < tcShell then s.act (.transfer (s.ownDeal nonce) tcShell) else s

/-- Deploys a deal of the note as its seller. -/
def deployDeal (s : PrivateNote) (nonce : ℕ) (modelName : String)
    (modelHash pricePerTick maxTicks gasReserve : ℕ) : Option PrivateNote := do
  guard (s.hasWithdrawn = false)
  return s.act (.deployDeal (s.ownDeal nonce) modelName modelHash pricePerTick maxTicks
    (.note s.depositIdentifierHash) s.depositIdentifierHash gasReserve)

end PrivateNote

end Dexdo
