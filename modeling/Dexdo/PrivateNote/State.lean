import Dexdo.Lib.Mapping
import Dexdo.OrderBook.State
import Dexdo.PMP.Entry
import Dexdo.TokenContract.Entry

namespace Dexdo

/- Constants of `Modifiers` and `PrivateNote`. -/
def CURRENCIES_ID : ℕ := 1
def MIN_VALUE : ℕ := 10000000
def MIN_VALUE_SHELL : ℕ := 10000000
def MIN_VALUE_USDC : ℕ := 10000
def SHELL_COUPON_VALUE : ℕ := 100000000000
def NACKL_COUPON_VALUE : ℕ := 100000000000
def USDC_COUPON_VALUE : ℕ := 100000000
def NETWORK_FEE_AMOUNT : ℕ := 1000000000
def DEAL_GAS_FUND : ℕ := 10000000
def DEAL_GAS_TERMINAL : ℕ := 45000000
def BUY_ORDER_GAS : ℕ := 25000000
def MAX_SELL_TTL : ℕ := 3600
def DEAL_TOUCH_INTERVAL : ℕ := 60
def REMOVED_REJECTED : ℕ := 5
def FLAG_AON : ℕ := 0x20

/-- Least stake in a token. -/
def minStakeValue (tokenType : ℕ) : ℕ :=
  if tokenType = CURRENCIES_ID_SHELL then MIN_VALUE_SHELL
  else if tokenType = CURRENCIES_ID_USDC then MIN_VALUE_USDC
  else MIN_VALUE

/-- Nominal of a coupon in a token. -/
def getCouponValue (tokenType : ℕ) : ℕ :=
  if tokenType = CURRENCIES_ID_SHELL then SHELL_COUPON_VALUE
  else if tokenType = CURRENCIES_ID then NACKL_COUPON_VALUE
  else if tokenType = CURRENCIES_ID_USDC then USDC_COUPON_VALUE
  else 0

/-- Hash of the set of oracle names an event is bound to: an encoding of the names in order. -/
def oracleListHashOf (nameHashes : List ℕ) : ℕ :=
  Encodable.encode (nameHashes.insertionSort (· ≤ ·))

/-- Stake record of one market. -/
structure StakeInfo where
  amount : List ℕ
  debtAmount : List ℕ
  couponsAmount : List ℕ
  candidateAmount : ℕ
  candidateOutcome : ℕ
  candidateBetType : BetType
  oracleListHash : ℕ
  tokenType : ℕ
  deriving DecidableEq

namespace StakeInfo

/-- The zero record, which a missing key reads as. -/
def empty : StakeInfo := ⟨[], [], [], 0, 0, .clean, 0, 0⟩

instance : Inhabited StakeInfo := ⟨empty⟩

/-- A record without stakes that waits for `amount`. -/
def candidate (m : MarketId) (outcomes amount outcome : ℕ) (betType : BetType) : StakeInfo where
  amount := List.replicate outcomes 0
  debtAmount := List.replicate outcomes 0
  couponsAmount := List.replicate outcomes 0
  candidateAmount := amount
  candidateOutcome := outcome
  candidateBetType := betType
  oracleListHash := m.oracleListHash
  tokenType := m.tokenType

/-- Three fresh arrays, unless the record has its arrays already. -/
def sized (r : StakeInfo) (outcomes : ℕ) : StakeInfo :=
  if r.amount = [] then
    { r with
      amount := List.replicate outcomes 0
      debtAmount := List.replicate outcomes 0
      couponsAmount := List.replicate outcomes 0 }
  else r

/-- Zeros pushed on the three arrays until `amount` has `outcomes` entries. -/
def padded (r : StakeInfo) (outcomes : ℕ) : StakeInfo :=
  let zeros := List.replicate (outcomes - r.amount.length) 0
  { r with
    amount := r.amount ++ zeros
    debtAmount := r.debtAmount ++ zeros
    couponsAmount := r.couponsAmount ++ zeros }

/-- No stake of any kind is left. -/
def allEmpty (r : StakeInfo) : Bool :=
  r.amount.all (· = 0) && r.debtAmount.all (· = 0) && r.couponsAmount.all (· = 0)

end StakeInfo

/-- `l[i] += a`. -/
def addAt (l : List ℕ) (i a : ℕ) : Option (List ℕ) := do
  let x ← l[i]?
  return l.set i (← add128 x a)

/-- `l[i] -= a`. -/
def subAt (l : List ℕ) (i a : ℕ) : Option (List ℕ) := do
  let x ← l[i]?
  return l.set i (← sub128 x a)

/-- `l[i] += as[i]` for every entry of `as`. -/
def addEach : List ℕ → List ℕ → Option (List ℕ)
  | l, [] => some l
  | [], _ :: _ => none
  | x :: l, a :: as => do return (← add128 x a) :: (← addEach l as)

/-- `l[i] -= as[i]` for every entry of `as`. -/
def subEach : List ℕ → List ℕ → Option (List ℕ)
  | l, [] => some l
  | [], _ :: _ => none
  | x :: l, a :: as => do return (← sub128 x a) :: (← subEach l as)

/-- `l[i]` reduced by `as[i]`, at most to zero, over the indices both have. -/
def capEach : List ℕ → List ℕ → List ℕ
  | x :: l, a :: as => (x - a) :: capEach l as
  | l, _ => l

/-- Sell order of a batch in flight. -/
structure PendingBatchSell where
  outcomeId : ℕ
  amount : ℕ
  deriving DecidableEq

/-- External events of a note. -/
inductive NoteEvent
  | ownerChanged (oldPubkey newPubkey : ℕ)
  | stakeConfirmed (stakeController : Option Addr) (outcome amount : ℕ) (betType : BetType)
  | stakeCancelled (stakeController : Option Addr) (value : ℕ)
  | fullSetStakeConfirmed (stakeController : Option Addr) (amount : List ℕ)
  | fullSetStakeCancelled (stakeController : Option Addr) (value : ℕ)
  | claimAccepted (stakeController : Option Addr) (outcome : Option ℕ) (payout : ℕ)
  | pmpDeployed (eventId tokenType : ℕ) (pmp : Addr) (oracleEventLists : List Addr)
      (oracleFee : List ℕ)
  | orderSubmitted (clientOrderId outcomeId : ℕ) (isBuy : Bool) (price amount : ℕ)
      (flags : UInt8) (eventId tokenType : ℕ)
  | orderPlacedConfirmed (orderBook : Addr) (orderId clientOrderId outcomeId : ℕ) (isBuy : Bool)
      (flags : UInt8) (price amount : ℕ)
  | orderFilledConfirmed (orderBook : Addr) (orderId outcomeId filledAmount clearingPrice : ℕ)
      (isBuy : Bool) (feeAmount : ℕ) (isRebate isFinal : Bool)
  | orderCancelledConfirmed (orderBook : Addr) (orderId outcomeId : ℕ) (isBuy : Bool)
      (returnAmount : ℕ)
  | orderPlaceRejected (orderBook : Addr) (eventId clientOrderId outcomeId : ℕ) (isBuy : Bool)
      (flags : UInt8) (price amount opNonce : ℕ)
  | transferInitiated (dest : Addr) (tokenType amount : ℕ)
  | transferReceived (sender : Addr) (tokenType amount : ℕ)
  | dealCredited (deal : Addr) (amount : ℕ)
  | bookCredited (book : Addr) (amount : ℕ)
  | inferenceOrderPlacedConfirmed (orderBook tokenContract : Addr) (orderId : ℕ) (isBuy : Bool)
      (price ticks : ℕ)
  | inferenceOrderRemoved (book : Addr) (orderId cause refunded : ℕ)
  | inferenceOrderRejectedMirror (book : Addr) (clientOrderId reason refunded : ℕ)
  | stakeDroppedLocally (stake : Option MarketId) (tokenType : ℕ)
      (amount debtAmount couponsAmount : List ℕ)
  | stakeForfeitConfirmed (pmp : Option Addr) (stake : Option MarketId)
  | inferenceDealClosed (deal : Addr)
  | inferenceFilledConfirmed (orderBook tokenContract : Addr) (orderId ticks clearingPrice : ℕ)
      (isBuy : Bool)
  deriving DecidableEq

/-- Events and outgoing messages of a note transaction. `shell` is the SHELL attached. -/
inductive NoteAction
  | event (e : NoteEvent)
  | privateNoteDeployed (depositIdentifierHash tokenType value : ℕ)
  | withdrawTokens (amounts : List (ℕ × ℕ)) (destWalletAddr : Addr)
      (depositIdentifierHash dappId shell : ℕ)
  | transfer (dest : Addr) (shell : ℕ)
  | deployPMP (market : MarketId) (depositIdentifierHash : ℕ) (oracleEventLists : List Addr)
      (oracleFee initialStakes : List ℕ) (shell : ℕ)
  | pmp (market : MarketId) (call : PmpCall)
  | executeBatch (market : MarketId) (depositIdentifierHash : ℕ) (orders : List PlaceParams)
      (cancelIds : List ℕ) (opNonce : ℕ)
  | cancelAllOrders (market : MarketId) (depositIdentifierHash opNonce : ℕ)
  | offerTransfer (dest : Addr) (tokenType amount senderDepositHash ecc : ℕ)
  | onTransferAccepted (dest : Addr)
  | deployInferenceOrderBook (modelHash depositIdentifierHash : ℕ) (modelName : String)
  | placeBuyOrder (book : Addr) (clientOrderId escrow maxPricePerTick ticks flags deadline
      ephemeralPubkey depositIdentifierHash : ℕ)
  | cancelInferenceOrder (book : Addr) (orderId : ℕ)
  | cancelAllInferenceOrders (book : Addr)
  | deal (dest : Addr) (call : DealCall) (shell : ℕ)
  | touchDeal (dest : Addr)
  | deployDeal (dest : Addr) (modelName : String) (modelHash pricePerTick maxTicks : ℕ)
      (note : Addr) (depositIdentifierHash shell : ℕ)
  deriving DecidableEq

/-- Balance records, coupon and debt. -/
structure Funds where
  balance : Mapping ℕ ℕ
  debt : ℕ
  debtTokenType : ℕ
  couponsValue : ℕ
  couponsTokenType : ℕ
  hasWithdrawn : Bool
  hasTransferred : Bool

/-- The operation in flight. -/
structure Pending where
  busy : Option Addr
  lastHash : Option MarketId
  pendingTransferAmount : ℕ
  pendingTransferTokenType : ℕ
  pendingPlaceBuyLock : ℕ
  pendingPlaceBuyTokenType : ℕ
  pendingPlaceClientOrderId : ℕ
  pendingBatchActive : Bool
  pendingBatchBuyLock : ℕ
  pendingBatchTokenType : ℕ
  pendingBatchStakeHash : Option MarketId
  pendingBatchSells : List PendingBatchSell
  pendingBatchClientOrderIds : List ℕ
  pendingForfeit : Bool
  opNonce : ℕ
  busyOpNonce : ℕ

/-- Orders in the order books, by book and order id. -/
structure Positions where
  orderFeeReserves : Mapping (Addr × ℕ) ℕ
  orderLocks : Mapping (Addr × ℕ) ℕ
  lockedInOrders : Mapping ℕ ℕ
  openOrderCount : ℕ
  openOrdersByEvent : Mapping MarketId ℕ
  clientOrderIds : Mapping ℕ ℕ

/-- Orders in the inference books and the deals they led to. -/
structure Inference where
  restingInf : Mapping (Addr × ℕ) Bool
  pendingInf : Mapping ℕ ℕ
  nextClientOrderId : ℕ
  liveDeals : Mapping Addr Bool
  lastDealTouch : ℕ

/-- Storage of one note and the action list of its current transaction. -/
structure PrivateNote extends Funds, Pending, Positions, Inference where
  depositIdentifierHash : ℕ
  ephemeralPubkey : ℕ
  inferenceOrderBookCodeHash : ℕ
  inferenceOrderBookCodeDepth : ℕ
  stakes : Mapping MarketId StakeInfo
  actions : List NoteAction

def Funds.init (tokenType value : ℕ) : Funds where
  balance := AList.insert tokenType value Mapping.clear
  debt := 0
  debtTokenType := 0
  couponsValue := 0
  couponsTokenType := 0
  hasWithdrawn := false
  hasTransferred := false

def Pending.empty : Pending where
  busy := none
  lastHash := none
  pendingTransferAmount := 0
  pendingTransferTokenType := 0
  pendingPlaceBuyLock := 0
  pendingPlaceBuyTokenType := 0
  pendingPlaceClientOrderId := 0
  pendingBatchActive := false
  pendingBatchBuyLock := 0
  pendingBatchTokenType := 0
  pendingBatchStakeHash := none
  pendingBatchSells := []
  pendingBatchClientOrderIds := []
  pendingForfeit := false
  opNonce := 0
  busyOpNonce := 0

def Positions.empty : Positions where
  orderFeeReserves := .clear
  orderLocks := .clear
  lockedInOrders := .clear
  openOrderCount := 0
  openOrdersByEvent := .clear
  clientOrderIds := .clear

def Inference.empty : Inference where
  restingInf := .clear
  pendingInf := .clear
  nextClientOrderId := 0
  liveDeals := .clear
  lastDealTouch := 0

namespace PrivateNote

/-- Storage after the constructor, called by the root. -/
def init (depositIdentifierHash value ephemeralPubkey tokenType inferenceOrderBookCodeHash
    inferenceOrderBookCodeDepth : ℕ) : PrivateNote where
  toFunds := Funds.init tokenType value
  toPending := Pending.empty
  toPositions := Positions.empty
  toInference := Inference.empty
  depositIdentifierHash := depositIdentifierHash
  ephemeralPubkey := ephemeralPubkey
  inferenceOrderBookCodeHash := inferenceOrderBookCodeHash
  inferenceOrderBookCodeDepth := inferenceOrderBookCodeDepth
  stakes := .clear
  actions := [.privateNoteDeployed depositIdentifierHash tokenType value]

def act (s : PrivateNote) (a : NoteAction) : PrivateNote := { s with actions := s.actions ++ [a] }

def emit (s : PrivateNote) (e : NoteEvent) : PrivateNote := s.act (.event e)

def setFunds (s : PrivateNote) (f : Funds) : PrivateNote := { s with toFunds := f }

def setPending (s : PrivateNote) (p : Pending) : PrivateNote := { s with toPending := p }

def setPositions (s : PrivateNote) (p : Positions) : PrivateNote := { s with toPositions := p }

def setInference (s : PrivateNote) (p : Inference) : PrivateNote := { s with toInference := p }

/-- `_balance[tokenType] += amount`. -/
def credit (s : PrivateNote) (tokenType amount : ℕ) : Option PrivateNote := do
  let b ← add128 (s.balance.read tokenType) amount
  return s.setFunds { s.toFunds with balance := AList.insert tokenType b s.balance }

/-- Credit of a positive amount. -/
def creditPositive (s : PrivateNote) (tokenType amount : ℕ) : Option PrivateNote :=
  if 0 < amount then s.credit tokenType amount else some s

/-- `_balance[tokenType] -= amount` after its `require`. -/
def debit (s : PrivateNote) (tokenType amount : ℕ) : Option PrivateNote := do
  let b ← sub128 (s.balance.read tokenType) amount
  return s.setFunds { s.toFunds with balance := AList.insert tokenType b s.balance }

/-- Write of `_stakes`; the zero hash of a note that never had an operation is no market. -/
def putStake (s : PrivateNote) (m : Option MarketId) (r : StakeInfo) : PrivateNote :=
  match m with
  | some m => { s with stakes := AList.insert m r s.stakes }
  | none => s

/-- The record of a market is deleted. -/
def dropStake (s : PrivateNote) (m : Option MarketId) : PrivateNote :=
  match m with
  | some m => { s with stakes := AList.erase m s.stakes }
  | none => s

/-- The record of a market, empty where there is none. -/
def stakeAt (s : PrivateNote) (m : Option MarketId) : StakeInfo :=
  match m with
  | some m => s.stakes.read m
  | none => .empty

/-- `delete _busy`. -/
def free (s : PrivateNote) : PrivateNote := s.setPending { s.toPending with busy := none }

/-- `delete _busy; _busyOpNonce = 0`. -/
def freeOp (s : PrivateNote) : PrivateNote :=
  s.setPending { s.toPending with busy := none, busyOpNonce := 0 }

/-- Latch on `dest` for an operation on market `m`. -/
def occupy (s : PrivateNote) (dest : Addr) (m : MarketId) : PrivateNote :=
  s.setPending { s.toPending with busy := some dest, lastHash := some m }

/-- `_opNonce++; _busyOpNonce = _opNonce`. -/
def nextOp (s : PrivateNote) : Option PrivateNote := do
  guard (s.opNonce + 1 < 2 ^ 64)
  return s.setPending { s.toPending with opNonce := s.opNonce + 1, busyOpNonce := s.opNonce + 1 }

/-- Decrease of `_lockedInOrders`, at most to zero. -/
def unlock (s : PrivateNote) (tokenType amount : ℕ) : PrivateNote :=
  s.setPositions { s.toPositions with
    lockedInOrders :=
      AList.insert tokenType (s.lockedInOrders.read tokenType - amount) s.lockedInOrders }

/-- A client order id is free again. -/
def forgetClientOrder (s : PrivateNote) (clientOrderId : ℕ) : PrivateNote :=
  s.setPositions { s.toPositions with
    clientOrderIds := AList.erase clientOrderId s.clientOrderIds }

/-- `senderIs(_busy.get())`. -/
def latched (s : PrivateNote) (caller : Caller) : Bool := s.busy.any fun a => caller.isSender a

/-- Address of the inference book of `modelHash`, as this note derives it. -/
def inferenceBook (s : PrivateNote) (modelHash : ℕ) : Addr :=
  .inferenceBook s.inferenceOrderBookCodeHash s.inferenceOrderBookCodeDepth modelHash

/-- Address of the deal of this note's owner. -/
def ownDeal (s : PrivateNote) (nonce : ℕ) : Addr := .deal s.ephemeralPubkey nonce

end PrivateNote

end Dexdo
