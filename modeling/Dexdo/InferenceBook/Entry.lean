import Dexdo.InferenceBook.Engine

namespace Dexdo.InferenceOrderBook

/-- State of the FOK simulation; `scans` is what is left of `MAX_SCAN_PER_CALL`. -/
structure FokState where
  remaining : ℕ
  leftEscrow : ℕ
  matched : ℕ
  scans : ℕ
  answer : Option Bool
  deriving DecidableEq

/-- Inner loop of `_fokFullyFillable` over one level. -/
def fokLevel (s : InferenceOrderBook) (now : ℕ) (e : QueueEntry) (lp : ℕ) :
    ℕ → ℕ → FokState → FokState
  | scans, cur, m =>
    if cur = 0 ∨ m.remaining = 0 then { m with scans := scans }
    else match scans with
      | 0 => { m with answer := some false }
      | scans + 1 =>
        if MAX_MATCHES_PER_CALL ≤ m.matched then { m with answer := some false }
        else
          let mk := s.order cur
          let nextOrd := mk.nextAtPrice
          if ¬ dealCompatible e.isBuy e.flags mk.flags then fokLevel s now e lp scans nextOrd m
          else if isExpired now mk.deadline then
            fokLevel s now e lp scans nextOrd { m with matched := m.matched + 1 }
          else
            let trade := tradeSize e mk lp m.remaining m.leftEscrow
            if breaksAon e.flags mk trade m.remaining then fokLevel s now e lp scans nextOrd m
            else if trade < 2 then
              if e.isBuy then { m with answer := some false }
              else fokLevel s now e lp scans nextOrd { m with matched := m.matched + 1 }
            else
              let m := { m with
                remaining := m.remaining - trade
                matched := m.matched + 1
                leftEscrow := if e.isBuy
                  then m.leftEscrow - toUint128 (trade * unit (clearingOf e lp)) else m.leftEscrow }
              -- a taker SELL is one deal: it is filled by this maker or not at all
              if ¬ e.isBuy then { m with answer := some (decide (m.remaining = 0)) }
              else fokLevel s now e lp scans nextOrd m

/-- Outer loop of `_fokFullyFillable`; the first argument is what is left of
`MAX_PRECHECK_LEVELS`. -/
def fokLevels (s : InferenceOrderBook) (now : ℕ) (e : QueueEntry) :
    ℕ → Option (ℕ × PriceLevel) → FokState → Bool
  | 0, _, _ => false
  | _ + 1, none, m => decide (m.remaining = 0)
  | left + 1, some (lp, _), m =>
    if m.remaining = 0 ∨ ¬ crosses e.isBuy e.price (has e.flags FLAG_MARKET) lp then
      decide (m.remaining = 0)
    else
      let m := fokLevel s now e lp m.scans (s.level (!e.isBuy) lp).firstOrderId m
      match m.answer with
      | some full => full
      | none => if left = 0 then false else fokLevels s now e left (s.nextOpposite e.isBuy lp) m

/-- Would the match fill the whole order at once? -/
def fokFullyFillable (s : InferenceOrderBook) (now : ℕ) (e : QueueEntry) : Bool :=
  fokLevels s now e MAX_PRECHECK_LEVELS (s.bestOpposite e.isBuy)
    ⟨e.amount, e.escrow, 0, MAX_SCAN_PER_CALL, none⟩

/-- A maker a POST_ONLY order must not meet. -/
def crossesMaker (now : ℕ) (e : QueueEntry) (mk : Order) : Bool :=
  dealCompatible e.isBuy e.flags mk.flags && !isExpired now mk.deadline &&
    !((has e.flags FLAG_AON && decide (mk.amount < e.amount)) ||
      (has mk.flags FLAG_AON && decide (e.amount < mk.amount))) && decide (2 ≤ mk.amount)

/-- Inner loop of `_executableCrosses` over one level; what is left of `MAX_PRECHECK_SCAN`, or
`none` for a cross or a spent budget. -/
def crossLevel (s : InferenceOrderBook) (now : ℕ) (e : QueueEntry) : ℕ → ℕ → Option ℕ
  | scans, cur =>
    if cur = 0 then some scans
    else match scans with
      | 0 => none
      | scans + 1 =>
        if scans = 0 then none
        else if crossesMaker now e (s.order cur) then none
        else crossLevel s now e scans (s.order cur).nextAtPrice

/-- Outer loop of `_executableCrosses`; the first argument is what is left of
`MAX_PRECHECK_LEVELS`. -/
def crossLevels (s : InferenceOrderBook) (now : ℕ) (e : QueueEntry) :
    ℕ → ℕ → Option (ℕ × PriceLevel) → Bool
  | 0, _, _ => true
  | _ + 1, _, none => false
  | left + 1, scans, some (lp, _) =>
    if ¬ crosses e.isBuy e.price false lp then false
    else match crossLevel s now e scans (s.level (!e.isBuy) lp).firstOrderId with
      | none => true
      | some scans =>
        if left = 0 then true else crossLevels s now e left scans (s.nextOpposite e.isBuy lp)

/-- Would a POST_ONLY order take liquidity? -/
def executableCrosses (s : InferenceOrderBook) (now : ℕ) (e : QueueEntry) : Bool :=
  crossLevels s now e MAX_PRECHECK_LEVELS MAX_PRECHECK_SCAN (s.bestOpposite e.isBuy)

/-- The callbacks of a submission that never becomes an order. -/
def refuse (s : InferenceOrderBook) (e : QueueEntry) (reason refund : ℕ) : InferenceOrderBook :=
  let s := if e.isBuy then s else s.closeSell e.tokenContract
  (s.emit (.orderRejected reason e.owner e.tokenContract refund)).toNote e.owner
    (.onInferenceRejected e.clientOrderId reason refund)

/-- The order of a continued match is closed by its deadline. -/
def expireTaker (s : InferenceOrderBook) (e : QueueEntry) (refund : ℕ) : InferenceOrderBook :=
  let s := if e.isBuy then s else s.closeSell e.tokenContract
  (s.emit (.refunded e.contOrderId e.owner refund)).toNote e.owner
    (.onInferenceRejected e.clientOrderId PLACE_REJ_EXPIRED refund)

def takerOnly (flags : UInt8) : Bool := has flags FLAG_MARKET || has flags (FLAG_IOC ||| FLAG_FOK)

/-- The record under which the rest of a taker enters the book. -/
def restingOrder (now : ℕ) (e : QueueEntry) (remaining leftover : ℕ) : Order where
  nextAtPrice := 0
  prevAtPrice := 0
  nextInOwner := 0
  prevInOwner := 0
  note := e.owner
  buyerPubkey := if e.isBuy then e.buyerPubkey else 0
  tokenContract := if e.isBuy then noAddr else e.tokenContract
  price := e.price
  amount := remaining
  initialAmount := e.amount
  filledAccum := e.amount - remaining
  escrow := if e.isBuy then leftover else 0
  deadline := e.deadline
  clientOrderId := e.clientOrderId
  ts := now
  flags := e.flags
  isBuy := e.isBuy

/-- The leftover of a taker once matching is over: put to rest, or given back. -/
def finalizeTaker (s : InferenceOrderBook) (now : ℕ) (e : QueueEntry)
    (orderId remaining leftover : ℕ) : InferenceOrderBook :=
  if e.isBuy then
    if remaining < 2 ∨ takerOnly e.flags then
      (s.emit (.refunded orderId e.owner leftover)).toNote e.owner
        (.onInferenceRejected e.clientOrderId PLACE_END_TAKER leftover)
    else s.insertIntoBook orderId (restingOrder now e remaining leftover)
  else if 0 < remaining ∧ ¬ takerOnly e.flags then
    s.insertIntoBook orderId (restingOrder now e remaining leftover)
  else if 0 < remaining ∧ e.tokenContract ≠ noAddr then
    (s.toDeal e.tokenContract .onSellClosed).emit (.refunded orderId e.owner 0)
  else s

/-- Match phase of `_doPlaceHead`; a capped match keeps the head for another pass. -/
def matchPhase (s : InferenceOrderBook) (now : ℕ) (e : QueueEntry)
    (orderId inAmount inEscrow resumeFrom : ℕ) : InferenceOrderBook × Option QueueEntry :=
  let m := s.matchOrder now e orderId inAmount inEscrow resumeFrom
  match m.halt with
  | .capped cur => (m.book, some { e with
      contOrderId := orderId
      contRemaining := m.remaining
      contLeftover := m.leftover
      contScanOrder := cur })
  | _ => (m.book.finalizeTaker now e orderId m.remaining m.leftover, none)

/-- Announce a new order under the next id. -/
def openOrder (s : InferenceOrderBook) (e : QueueEntry) : InferenceOrderBook :=
  { s with nextOrderId := s.nextOrderId + 1 }.emit
    (.orderPlaced s.nextOrderId e.isBuy e.price e.amount e.owner e.tokenContract e.deadline e.flags)

/-- First run of a PLACE entry that is still in time. -/
def placeFirst (s : InferenceOrderBook) (now : ℕ) (e : QueueEntry) :
    InferenceOrderBook × Option QueueEntry :=
  let back := if e.isBuy then e.escrow else 0
  if has e.flags FLAG_POST_ONLY && s.executableCrosses now e then
    (s.refuse e PLACE_REJ_POST_ONLY back, none)
  else if has e.flags FLAG_FOK && !s.fokFullyFillable now e then
    (s.refuse e PLACE_REJ_FOK back, none)
  else (s.openOrder e).matchPhase now e s.nextOrderId e.amount e.escrow 0

/-- Process or resume the PLACE entry at the head. A returned entry is the rewritten head of a
continuation. -/
def doPlaceHead (s : InferenceOrderBook) (now : ℕ) (e : QueueEntry) :
    InferenceOrderBook × Option QueueEntry :=
  if e.contOrderId = 0 then
    if isExpired now e.deadline then
      (s.refuse e PLACE_REJ_EXPIRED (if e.isBuy then e.escrow else 0), none)
    else s.placeFirst now e
  else if isExpired now e.deadline then
    (s.expireTaker e (if e.isBuy then e.contLeftover else 0), none)
  else s.matchPhase now e e.contOrderId e.contRemaining e.contLeftover e.contScanOrder

/-- `_doCancel`. Only a missing record reads as no amount of no note. -/
def doCancel (s : InferenceOrderBook) (owner : Addr) (orderId : ℕ) : InferenceOrderBook :=
  let o := s.order orderId
  if o.amount = 0 ∧ o.note = noAddr then
    (s.emit (.orderCancelRejected orderId CANCEL_REJ_NOT_FOUND owner)).toNote owner
      (.onInferenceOrderRemoved orderId REMOVED_REJECTED 0)
  else if o.note ≠ owner then
    (s.emit (.orderCancelRejected orderId CANCEL_REJ_NOT_OWNER owner)).toNote owner
      (.onInferenceOrderRemoved orderId REMOVED_REJECTED 0)
  else
    let refund := o.escrow
    let s := s.removeFromBook orderId REMOVED_CANCELLED refund
    let s := (s.emit (.orderCancelled orderId refund owner)).payShell owner refund
    if o.isBuy then s else s.closeSell o.tokenContract

/-- Owner walk of CANCEL_ALL from `cur`, at most `left` more orders; returns the number left. -/
def cancelAllWalk (owner : Addr) : (left cur : ℕ) → InferenceOrderBook → InferenceOrderBook × ℕ
  | 0, _, s => (s, 0)
  | left + 1, cur, s =>
    if cur = 0 then (s, left + 1)
    else
      let o := s.order cur
      let s := s.removeFromBook cur REMOVED_CANCELLED o.escrow
      let s := (s.emit (.orderCancelled cur o.escrow owner)).payShell owner o.escrow
      let s := if o.isBuy then s else s.closeSell o.tokenContract
      cancelAllWalk owner left o.nextInOwner s

/-- One CANCEL_ALL pass and the number of orders it cancelled. -/
def doCancelAll (s : InferenceOrderBook) (owner : Addr) : InferenceOrderBook × ℕ :=
  let r := cancelAllWalk owner MAX_CANCEL_PER_CALL (s.ownerHead owner) s
  (r.1, MAX_CANCEL_PER_CALL - r.2)

def doExpire (s : InferenceOrderBook) (now orderId : ℕ) : InferenceOrderBook :=
  let o := s.order orderId
  if o.amount = 0 ∧ o.note = noAddr then s
  else if ¬ isExpired now o.deadline then s
  else if o.isBuy then s.removeExpiredBid orderId else s.removeExpiredSell orderId

/-- `_allocSlot` and the write of the new entry into the slot. -/
def enqueue (s : InferenceOrderBook) (e : QueueEntry) : InferenceOrderBook :=
  { s with
    queue := Function.update s.queue s.queueTail e
    queueTail := (s.queueTail + 1) % QUEUE_CAPACITY
    queueSize := s.queueSize + 1 }

def advanceHead (s : InferenceOrderBook) : InferenceOrderBook :=
  { s with
    queue := Function.update s.queue s.queueHead default
    queueHead := (s.queueHead + 1) % QUEUE_CAPACITY
    queueSize := s.queueSize - 1 }

/-- An entry without a place part. -/
def requestEntry (entryType : EntryType) (owner : Addr) (targetOrderId : ℕ) : QueueEntry :=
  { (default : QueueEntry) with
    entryType := entryType
    owner := owner
    targetOrderId := targetOrderId }

/-- A PLACE entry as `_enqueuePlace` writes it. -/
def placeEntry (owner : Addr) (buyerPubkey : ℕ) (isBuy : Bool) (flags : UInt8)
    (price amount escrow : ℕ) (tc : Addr) (deadline clientOrderId : ℕ) : QueueEntry where
  entryType := .place
  owner := owner
  buyerPubkey := buyerPubkey
  isBuy := isBuy
  flags := flags
  price := price
  amount := amount
  escrow := escrow
  tokenContract := tc
  deadline := deadline
  clientOrderId := clientOrderId
  targetOrderId := 0
  contOrderId := 0
  contRemaining := 0
  contLeftover := 0
  contScanOrder := 0

/-- Run the head entry; the result tells whether it stays. -/
def runHead (s : InferenceOrderBook) (now : ℕ) (e : QueueEntry) : InferenceOrderBook × Bool :=
  match e.entryType with
  | .cancel => (s.doCancel e.owner e.targetOrderId, false)
  | .cancelAll =>
    let r := s.doCancelAll e.owner
    (r.1, decide (MAX_CANCEL_PER_CALL ≤ r.2))
  | .expire => (s.doExpire now e.targetOrderId, false)
  | .none | .place =>
    match s.doPlaceHead now e with
    | (s, none) => (s, false)
    | (s, some e) => ({ s with queue := Function.update s.queue s.queueHead e }, true)

def processHeadCore (s : InferenceOrderBook) (now : ℕ) : InferenceOrderBook :=
  if s.queueSize = 0 then s
  else
    let r := s.runHead now (s.queue s.queueHead)
    let s := if r.2 then r.1 else r.1.advanceHead
    if 0 < s.queueSize then s.act .processHead else s

/-- Why `placeSellOffer` turns an offer away. -/
def badSell (pricePerTick maxTicks : ℕ) (flags : UInt8) (deadline : ℕ) : Prop :=
  maxTicks < 2 ∨ pricePerTick = 0 ∨ pricePerTick % PRICE_STEP ≠ 0 ∨ has flags FLAG_MARKET ∨
    (has flags FLAG_POST_ONLY ∧ has flags TAKER_FLAGS) ∨ (has flags FLAG_IOC ∧ has flags FLAG_FOK) ∨
    has flags (~~~SUPPORTED_FLAGS) ∨ (has flags FLAG_SUBSCRIPTION ∧ ¬ has flags FLAG_AON) ∨
    2 ^ 128 - 1 < maxTicks * unit pricePerTick ∨ deadline = 0

instance (p n : ℕ) (f : UInt8) (d : ℕ) : Decidable (badSell p n f d) :=
  inferInstanceAs (Decidable (_ ∨ _ ∨ _ ∨ _ ∨ _ ∨ _ ∨ _ ∨ _ ∨ _ ∨ _))

def placeSellOffer (s : InferenceOrderBook) (sender : Addr) (now pricePerTick maxTicks : ℕ)
    (flags : UInt8) (sellerPubkey nonce : ℕ) (ownerNote : Addr) (deadline : ℕ) :
    Option InferenceOrderBook := do
  guard (sender = .deal sellerPubkey nonce)
  if badSell pricePerTick maxTicks flags deadline ∨ QUEUE_PLACE_LIMIT ≤ s.queueSize then
    return s.toDeal sender .onSellClosed
  return (s.enqueue (placeEntry ownerNote 0 false flags pricePerTick maxTicks 0 sender deadline 0)
    ).processHeadCore now

/-- What `placeBuyOrder` requires of a subscription. -/
def subscriptionOk (flags : UInt8) (ticks : ℕ) : Prop :=
  has flags FLAG_AON ∧ ticks % SUB_WEEKS = 0 ∧ ticks ≤ SUB_WEEKS * SUB_TICKS_PER_WEEK ∧
    ¬ has flags FLAG_MARKET

instance (f : UInt8) (n : ℕ) : Decidable (subscriptionOk f n) :=
  inferInstanceAs (Decidable (_ ∧ _ ∧ _ ∧ _))

/-- Bond of a bid at a limit price, when it is a subscription. -/
def bondAt (flags : UInt8) (price : ℕ) : ℕ := if has flags FLAG_SUBSCRIPTION then 2 * price else 0

def placeBuyOrder (s : InferenceOrderBook) (sender : Addr)
    (now clientOrderId escrow maxPricePerTick ticks : ℕ) (flags : UInt8)
    (deadline buyerPubkey depositHash : ℕ) : Option InferenceOrderBook := do
  guard (sender = .note depositHash)
  guard (2 ≤ ticks)
  guard (¬ (has flags FLAG_POST_ONLY ∧ has flags TAKER_FLAGS))
  guard (¬ (has flags FLAG_IOC ∧ has flags FLAG_FOK))
  guard (¬ has flags (~~~SUPPORTED_FLAGS))
  guard (has flags FLAG_SUBSCRIPTION → subscriptionOk flags ticks)
  guard (deadline = 0 ∨ now < deadline)
  guard (has flags FLAG_MARKET ∨ (0 < maxPricePerTick ∧ maxPricePerTick % PRICE_STEP = 0))
  guard (0 < escrow)
  guard (¬ has flags FLAG_MARKET →
    ticks * unit maxPricePerTick + bondAt flags maxPricePerTick ≤ escrow)
  guard (s.queueSize < QUEUE_PLACE_LIMIT)
  let price := if has flags FLAG_MARKET then 2 ^ 256 - 1 else maxPricePerTick
  return (s.enqueue (placeEntry sender buyerPubkey true flags price ticks escrow noAddr deadline
    clientOrderId)).processHeadCore now

def cancelOrder (s : InferenceOrderBook) (sender : Addr) (now orderId : ℕ) : InferenceOrderBook :=
  if s.queueSize < QUEUE_CAPACITY then
    (s.enqueue (requestEntry .cancel sender orderId)).processHeadCore now
  else s.emit (.orderCancelRejected orderId CANCEL_REJ_QUEUE_FULL sender)

def cancelAllOrders (s : InferenceOrderBook) (sender : Addr) (now : ℕ) : InferenceOrderBook :=
  if s.queueSize < QUEUE_CAPACITY then
    (s.enqueue (requestEntry .cancelAll sender 0)).processHeadCore now
  else s.emit (.orderCancelRejected 0 CANCEL_REJ_QUEUE_FULL sender)

def expireOrder (s : InferenceOrderBook) (now orderId : ℕ) : Option InferenceOrderBook := do
  guard (s.queueSize < QUEUE_PLACE_LIMIT)
  return (s.enqueue (requestEntry .expire noAddr orderId)).processHeadCore now

/-- `onBounce` of a handover: its buyer gets the figure back. -/
def onBounce (s : InferenceOrderBook) (sender : Addr) (paid : ℕ) : InferenceOrderBook :=
  let buyerNote := s.handoverBuyer.lookup sender
  let s := { s with handoverBuyer := AList.erase sender s.handoverBuyer }
  match buyerNote with
  | some note => if note = noAddr then s else s.payShell note paid
  | none => s

def onHandoverAccepted (s : InferenceOrderBook) (sender : Addr) : InferenceOrderBook :=
  { s with handoverBuyer := AList.erase sender s.handoverBuyer }

def requestWeeklyMedian (s : InferenceOrderBook) (sender : Addr)
    (now eventId oracleListHash tokenType : ℕ) : Option InferenceOrderBook := do
  return s.act (.onWeeklyMedian sender eventId oracleListHash tokenType
    (← s.prices.weeklyMedian now))

/-- Messages the book receives. -/
inductive Call
  | placeSellOffer (pricePerTick maxTicks : ℕ) (flags : UInt8) (sellerPubkey nonce : ℕ)
      (ownerNote : Addr) (deadline : ℕ)
  | placeBuyOrder (clientOrderId escrow maxPricePerTick ticks : ℕ) (flags : UInt8)
      (deadline buyerPubkey depositHash : ℕ)
  | cancelOrder (orderId : ℕ)
  | cancelAllOrders
  | expireOrder (orderId : ℕ)
  | processHead
  | bounced (paid : ℕ)
  | onHandoverAccepted
  | reportFinalized (sellerPubkey nonce pricePerTick cumulativeFinalized : ℕ)
  | requestWeeklyMedian (eventId oracleListHash tokenType : ℕ)
  deriving DecidableEq

/-- Figures fit their `uint128` and `uint64` parameters. -/
def Call.Typed : Call → Prop
  | .placeSellOffer p n _ _ nonce _ d => p < 2 ^ 128 ∧ n < 2 ^ 128 ∧ nonce < 2 ^ 64 ∧ d < 2 ^ 64
  | .placeBuyOrder c escrow p n _ d _ _ =>
    c < 2 ^ 64 ∧ escrow < 2 ^ 128 ∧ p < 2 ^ 128 ∧ n < 2 ^ 128 ∧ d < 2 ^ 64
  | .cancelOrder id | .expireOrder id => id < 2 ^ 128
  | .bounced paid => paid < 2 ^ 128
  | .reportFinalized _ nonce p n => nonce < 2 ^ 64 ∧ p < 2 ^ 128 ∧ n < 2 ^ 128
  | .cancelAllOrders | .processHead | .onHandoverAccepted | .requestWeeklyMedian .. => True

instance : DecidablePred Call.Typed := fun c => by
  cases c <;> unfold Call.Typed <;> infer_instance

/-- A message: its sender, the block time, and the call. -/
structure Input where
  sender : Addr
  now : ℕ
  call : Call
  deriving DecidableEq

/-- A transaction; `none` when the call is reverted. -/
def exec (s : InferenceOrderBook) (i : Input) : Option InferenceOrderBook :=
  match i.call with
  | .placeSellOffer p n f pk nonce note d => s.placeSellOffer i.sender i.now p n f pk nonce note d
  | .placeBuyOrder c escrow p n f d pk h => s.placeBuyOrder i.sender i.now c escrow p n f d pk h
  | .cancelOrder id => some (s.cancelOrder i.sender i.now id)
  | .cancelAllOrders => some (s.cancelAllOrders i.sender i.now)
  | .expireOrder id => s.expireOrder i.now id
  | .processHead => some (s.processHeadCore i.now)
  | .bounced paid => some (s.onBounce i.sender paid)
  | .onHandoverAccepted => some (s.onHandoverAccepted i.sender)
  | .reportFinalized pk nonce p n =>
    some { s with prices := s.prices.reportFinalized i.sender i.now pk nonce p n }
  | .requestWeeklyMedian ev l t => s.requestWeeklyMedian i.sender i.now ev l t

/-- A new transaction: nothing sent, settled or swept yet. -/
def begin (s : InferenceOrderBook) (now : ℕ) : InferenceOrderBook :=
  { s with actions := [], clock := now, fills := [], dust := [] }

/-- Step relation of the book; block time does not run backwards. -/
def step (s : InferenceOrderBook) (i : Input) : Option InferenceOrderBook := do
  guard (i.call.Typed)
  guard (s.clock ≤ i.now)
  (s.begin i.now).exec i

end Dexdo.InferenceOrderBook
