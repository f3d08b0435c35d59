import Dexdo.PrivateNote.Trade

namespace Dexdo

namespace PrivateNote

/-- Rotation of the key of the owner. -/
def changeOwner (s : PrivateNote) (newPubkey : ℕ) : Option PrivateNote := do
  guard (newPubkey ≠ 0)
  return { s with ephemeralPubkey := newPubkey }.emit (.ownerChanged s.ephemeralPubkey newPubkey)

/-- No order and no inference position of this note is open anywhere. -/
def nothingOpen (s : PrivateNote) : Bool :=
  s.lockedInOrders.entries.all (fun e => e.2 = 0) && decide (s.pendingPlaceBuyLock = 0) &&
    decide (s.pendingBatchBuyLock = 0) && decide (s.openOrderCount = 0) &&
    s.restingInf.isEmpty && s.pendingInf.isEmpty && s.liveDeals.isEmpty

/-- A coupon for a note that holds nothing else, and 5% of it as debt. -/
def generateCoupon (s : PrivateNote) (tokenType : ℕ) : Option PrivateNote := do
  let nominal := getCouponValue tokenType
  guard (0 < nominal)
  guard (s.debt = 0)
  guard (s.hasWithdrawn = false)
  guard (s.hasTransferred = false)
  guard s.stakes.isEmpty
  guard (s.balance.entries.all fun e => e.2 < minStakeValue e.1)
  guard s.nothingOpen
  guard (s.couponsValue = 0)
  return s.setFunds { s.toFunds with
    couponsValue := nominal
    couponsTokenType := tokenType
    debt := nominal * 5 / 100
    debtTokenType := tokenType }

/-- An unspent coupon is given back, and its debt with it. -/
def discardCoupon (s : PrivateNote) : Option PrivateNote := do
  guard (0 < s.couponsValue)
  guard (s.couponsValue = getCouponValue s.couponsTokenType)
  let debt := s.debt - s.couponsValue * 5 / 100
  return s.setFunds { s.toFunds with
    debt := debt
    debtTokenType := if debt = 0 then 0 else s.debtTokenType
    couponsValue := 0
    couponsTokenType := 0 }

/-- Sends an amount to another note, which must accept it. -/
def initTransfer (s : PrivateNote) (e : NoteEnv) (destDepositHash tokenType amount eccAmount : ℕ) :
    Option PrivateNote := do
  guard (s.hasWithdrawn = false)
  guard s.busy.isNone
  guard s.stakes.isEmpty
  guard (minStakeValue tokenType ≤ amount)
  guard (s.debt = 0)
  guard (s.couponsValue = 0)
  guard (destDepositHash ≠ s.depositIdentifierHash)
  guard s.nothingOpen
  let dest := Addr.note destDepositHash
  let s ← s.debit tokenType amount
  let s := s.setFunds { s.toFunds with hasTransferred := true }
  let s := s.setPending { s.toPending with
    pendingTransferAmount := amount
    pendingTransferTokenType := tokenType
    busy := some dest }
  let s := s.emit (.transferInitiated dest tokenType amount)
  let held ← cast128 (e.currencies tokenType)
  guard (eccAmount ≤ held)
  return s.act (.offerTransfer dest tokenType amount s.depositIdentifierHash eccAmount)

/-- Another note offers an amount, which is taken at once. -/
def offerTransfer (s : PrivateNote) (e : NoteEnv) (tokenType amount senderDepositHash : ℕ) :
    Option PrivateNote := do
  guard (s.hasWithdrawn = false)
  let sender := Addr.note senderDepositHash
  guard (e.caller.isSender sender)
  let s ← s.credit tokenType amount
  return (s.emit (.transferReceived sender tokenType amount)).act (.onTransferAccepted sender)

/-- The note offered to has taken the amount. -/
def onTransferAccepted (s : PrivateNote) (e : NoteEnv) : Option PrivateNote := do
  guard (s.latched e.caller)
  return s.setPending { s.toPending with pendingTransferAmount := 0, busy := none }

/-- Hands the whole balance to a wallet through the root, for good. -/
def withdrawTokens (s : PrivateNote) (e : NoteEnv) (destWalletAddr : Addr) (dappId : ℕ) :
    Option PrivateNote := do
  guard (s.hasWithdrawn = false)
  guard s.busy.isNone
  guard s.stakes.isEmpty
  guard (s.debt = 0)
  guard s.nothingOpen
  let amounts := s.balance.entries.map fun e => (e.1, e.2)
  let held ← e.held
  let s := s.act (.withdrawTokens amounts destWalletAddr s.depositIdentifierHash dappId held)
  return s.setFunds { s.toFunds with balance := .clear, hasWithdrawn := true }

/-- Sends on what has come in behind the withdrawal. -/
def sweepShell (s : PrivateNote) (e : NoteEnv) (destWalletAddr : Addr) : Option PrivateNote := do
  guard (s.hasWithdrawn = true)
  let held ← e.held
  guard (0 < held)
  return s.act (.transfer destWalletAddr held)

/-- The root refused a withdrawal and sends the figures back. -/
def revertWithdraw (s : PrivateNote) (e : NoteEnv) (amounts : List (ℕ × ℕ)) :
    Option PrivateNote := do
  guard (e.caller.isSender .rootPN)
  let s ← amounts.foldlM (fun s a => s.credit a.1 a.2) s
  return s.setFunds { s.toFunds with hasWithdrawn := false }

end PrivateNote

/-- What a note reads of a message of its own that bounced. -/
inductive BouncedBody
  | placeBuyOrder (clientOrderId : ℕ)
  | touchDeal
  | fundDeal (amount : ℕ)
  | fundBuyerBond (amount : ℕ)
  | other
  deriving DecidableEq

namespace PrivateNote

/-- The lock of a batch that was not taken returns. -/
def restoreBatchLock (s : PrivateNote) : Option PrivateNote :=
  if 0 < s.pendingBatchBuyLock then
    s.returnLock s.pendingBatchTokenType s.pendingBatchBuyLock
  else some s

/-- So do the shares of its sells. -/
def restoreBatchSells (s : PrivateNote) : Option PrivateNote :=
  match s.pendingBatchStakeHash with
  | some m =>
    if s.pendingBatchSells ≠ [] ∧ s.stakes.has m = true then do
      let r := s.stakes.read m
      let amount ← s.pendingBatchSells.foldlM (fun l x => addAt l x.outcomeId x.amount) r.amount
      return s.putStake (some m) { r with amount := amount }
    else some s
  | none => some s

/-- Bounce of a batch: the locks and the sold tokens of all its orders come back. -/
def restoreBatch (s : PrivateNote) : Option PrivateNote := do
  let s ← s.restoreBatchLock
  let s ← s.restoreBatchSells
  let s := s.pendingBatchClientOrderIds.foldl forgetClientOrder s
  return s.clearBatch.freeOp

/-- The client id of an order that was not taken is free again. -/
def dropPlaceClientOrder (s : PrivateNote) : PrivateNote :=
  if s.pendingPlaceClientOrderId ≠ 0 then
    let s := s.forgetClientOrder s.pendingPlaceClientOrderId
    s.setPending { s.toPending with pendingPlaceClientOrderId := 0 }
  else s

/-- Bounce of a single buy order. -/
def restorePlaceBuy (s : PrivateNote) : Option PrivateNote := do
  let s ← s.returnLock s.pendingPlaceBuyTokenType s.pendingPlaceBuyLock
  return s.dropPlaceClientOrder.clearPlaceLock.freeOp

/-- Bounce of a transfer. -/
def restoreTransfer (s : PrivateNote) : Option PrivateNote := do
  let s ← s.credit s.pendingTransferTokenType s.pendingTransferAmount
  return s.setPending { s.toPending with pendingTransferAmount := 0, busy := none }

/-- The candidate amount of a stake or a sell goes back to where it came from. -/
def restoreCandidate (s : PrivateNote) (r : StakeInfo) : Option (PrivateNote × StakeInfo) :=
  match r.candidateBetType with
  | .coupon => do return (← s.returnCoupon r.tokenType r.candidateAmount, r)
  | .obSell => do
    let amount ← addAt r.amount r.candidateOutcome r.candidateAmount
    return (s.dropPlaceClientOrder, { r with amount := amount })
  | .merge => some (s, r)
  | _ => do return (← s.credit r.tokenType r.candidateAmount, r)

/-- Bounce of an operation on a market; a record without stakes is dropped. -/
def restoreStake (s : PrivateNote) : Option PrivateNote := do
  let (s, r) ← s.freeOp.restoreCandidate (s.stakeAt s.lastHash)
  return if r.allEmpty then s.dropStake s.lastHash
    else s.putStake s.lastHash { r with candidateAmount := 0 }

/-- The market of a forfeited stake is gone, and the note drops its record alone. -/
def dropForfeit (s : PrivateNote) : PrivateNote :=
  let r := s.stakeAt s.lastHash
  let s := s.emit (.stakeDroppedLocally s.lastHash r.tokenType r.amount r.debtAmount
    r.couponsAmount)
  ((s.dropStake s.lastHash).setPending { s.toPending with pendingForfeit := false }).freeOp

/-- Bounce of the message that holds the latch. -/
def bounceOp (s : PrivateNote) : Option PrivateNote :=
  if s.pendingForfeit then some s.dropForfeit
  else if s.pendingBatchActive then s.restoreBatch
  else if 0 < s.pendingPlaceBuyLock then s.restorePlaceBuy
  else if 0 < s.pendingTransferAmount then s.restoreTransfer
  else s.restoreStake

/-- A message of the note came back: what it had locked returns. -/
def onBounce (s : PrivateNote) (sender : Addr) : BouncedBody → Option PrivateNote
  | .placeBuyOrder clientOrderId => do
    let escrow := s.pendingInf.read clientOrderId
    let s := s.setInference { s.toInference with
      pendingInf := AList.erase clientOrderId s.pendingInf }
    s.credit CURRENCIES_ID_SHELL escrow
  | .touchDeal => some (s.closeDeal sender)
  | .fundDeal amount => s.credit CURRENCIES_ID_SHELL amount
  | .fundBuyerBond amount => s.credit CURRENCIES_ID_SHELL amount
  | .other => if s.busy = some sender then s.bounceOp else some s

/-- Only a message of the chain bounces. -/
def bounced (s : PrivateNote) (caller : Caller) (body : BouncedBody) : Option PrivateNote :=
  match caller with
  | .internal sender => s.onBounce sender body
  | .external _ => none

end PrivateNote

/-- Calls only the owner of a note may make. -/
inductive OwnerCall
  | changeOwner (newPubkey : ℕ)
  | touchDeal (deal : Addr)
  | deployInferenceOrderBook (modelHash : ℕ) (modelName : String)
  | postSellOffer (flags nonce ttl : ℕ)
  | placeInferenceBuy (modelHash maxPricePerTick ticks escrow flags deadline : ℕ)
  | cancelInferenceOrder (modelHash orderId : ℕ)
  | cancelAllInferenceOrders (modelHash : ℕ)
  | fundBuyerBondNow (tokenContract : Addr) (bond : ℕ)
  | streamStop (tokenContract : Addr)
  | streamDispute (tokenContract : Addr)
  | streamCleanup (tokenContract : Addr)
  | fundDeal (nonce gasShell amount : ℕ) (endpointCipher : Option (List ℕ))
  | fundDeployShell (nonce tcShell : ℕ)
  | deployDeal (nonce : ℕ) (modelName : String) (modelHash pricePerTick maxTicks gasReserve : ℕ)
  | deployPMP (eventId : ℕ) (oracleFee : List ℕ) (tokenType : ℕ)
      (names index initialStakes : List ℕ)
  | deleteStake (market : MarketId)
  | cancelStake (market : MarketId)
  | splitFullSet (market : MarketId) (collateral : ℕ)
  | mergeFullSet (market : MarketId) (amount : List ℕ)
  | setStake (market : MarketId) (outcome amount : ℕ) (useCoupon : Bool)
  | claim (market : MarketId)
  | generateCoupon (tokenType : ℕ)
  | discardCoupon
  | initTransfer (destDepositHash tokenType amount eccAmount : ℕ)
  | withdrawTokens (destWalletAddr : Addr) (dappId : ℕ)
  | sweepShell (destWalletAddr : Addr)
  | placeOrder (market : MarketId) (order : PlaceParams)
  | cancelOrder (market : MarketId) (orderId : ℕ)
  | cancelOrderByClient (market : MarketId) (clientOrderId : ℕ)
  | placeBatch (market : MarketId) (orders : List PlaceParams) (cancelIds : List ℕ)
  | cancelAllOrders (market : MarketId)
  deriving DecidableEq

/-- Messages a note processes. -/
inductive NoteCall
  | owner (call : OwnerCall)
  | pmp (market : MarketId) (call : PmpCallback)
  | orderBook (market : MarketId) (call : Callback)
  | onInferencePlaced (modelHash : ℕ) (tokenContract : Addr) (orderId clientOrderId : ℕ)
      (isBuy : Bool) (price ticks : ℕ)
  | onInferenceOrderRemoved (modelHash orderId cause refunded : ℕ)
  | onInferenceFilled (modelHash : ℕ) (tokenContract : Addr)
      (orderId clientOrderId ticks clearingPrice spent : ℕ) (isBuy : Bool)
  | onInferenceRejected (modelHash clientOrderId reason refunded : ℕ)
  | onDealClosed
  | creditFromDeal (amount sellerPubkey nonce : ℕ)
  | creditFromBook (amount modelHash : ℕ)
  | offerTransfer (tokenType amount senderDepositHash : ℕ)
  | onTransferAccepted
  | revertWithdraw (amounts : List (ℕ × ℕ))
  | receive
  | onBounce (body : BouncedBody)
  deriving DecidableEq

namespace PrivateNote

/-- The entry points of the owner. -/
def execOwner (s : PrivateNote) (e : NoteEnv) : OwnerCall → Option PrivateNote
  | .changeOwner k => s.changeOwner k
  | .touchDeal d => s.touchDeal e d
  | .deployInferenceOrderBook h n => s.deployInferenceOrderBook h n
  | .postSellOffer f n t => s.postSellOffer e f n t
  | .placeInferenceBuy h p t x f d => s.placeInferenceBuy e h p t x f d
  | .cancelInferenceOrder h i => some (s.cancelInferenceOrder h i)
  | .cancelAllInferenceOrders h => some (s.cancelAllInferenceOrders h)
  | .fundBuyerBondNow d b => s.fundBuyerBondNow e d b
  | .streamStop d => s.streamStop e d
  | .streamDispute d => s.streamDispute e d
  | .streamCleanup d => s.streamCleanup e d
  | .fundDeal n g a c => s.fundDeal n g a c
  | .fundDeployShell n a => some (s.fundDeployShell n a)
  | .deployDeal n name h p t g => s.deployDeal n name h p t g
  | .deployPMP i f t n x a => s.deployPMP i f t n x a
  | .deleteStake m => s.deleteStake m
  | .cancelStake m => s.cancelStake m
  | .splitFullSet m c => s.splitFullSet m c
  | .mergeFullSet m a => s.mergeFullSet m a
  | .setStake m k a c => s.setStake m k a c
  | .claim m => s.claim m
  | .generateCoupon t => s.generateCoupon t
  | .discardCoupon => s.discardCoupon
  | .initTransfer d t a x => s.initTransfer e d t a x
  | .withdrawTokens d i => s.withdrawTokens e d i
  | .sweepShell d => s.sweepShell e d
  | .placeOrder m p => s.placeOrder m p
  | .cancelOrder m i => s.cancelOrder m i
  | .cancelOrderByClient m c => s.cancelOrderByClient m c
  | .placeBatch m o c => s.placeBatch m o c
  | .cancelAllOrders m => s.cancelAllOrders m

/-- One transaction. An owner call is signed with the note's key. -/
def exec (s : PrivateNote) (e : NoteEnv) : NoteCall → Option PrivateNote
  | .owner call => do
    guard (e.caller.pubkey = s.ephemeralPubkey)
    s.execOwner e call
  | .pmp m cb => s.fromPMP e.caller m cb
  | .orderBook m cb => s.fromOrderBook e.caller m cb
  | .onInferencePlaced h d i c b p t => s.onInferencePlaced e h d i c b p t
  | .onInferenceOrderRemoved h i c r => s.onInferenceOrderRemoved e h i c r
  | .onInferenceFilled h d i c t p x b => s.onInferenceFilled e h d i c t p x b
  | .onInferenceRejected h c x r => s.onInferenceRejected e h c x r
  | .onDealClosed => some (s.onDealClosed e)
  | .creditFromDeal a k n => s.creditFromDeal e a k n
  | .creditFromBook a h => s.creditFromBook e a h
  | .offerTransfer t a h => s.offerTransfer e t a h
  | .onTransferAccepted => s.onTransferAccepted e
  | .revertWithdraw a => s.revertWithdraw e a
  | .receive => some s
  | .onBounce body => s.bounced e.caller body

/-- Storage at the start of a transaction. -/
def begin (s : PrivateNote) : PrivateNote := { s with actions := [] }

/-- Message a note processes, with what the transaction reads besides the storage. -/
structure Input extends NoteEnv where
  call : NoteCall

/-- A message to the note. -/
def step (s : PrivateNote) (i : Input) : Option PrivateNote := s.begin.exec i.toNoteEnv i.call

end PrivateNote

end Dexdo
