import Dexdo.TokenContract.Settle

namespace Dexdo

namespace Purse

/-- The probe tick leaves the escrow. -/
def takeProbe (p : Purse) (price : ℕ) : Purse :=
  { p with probeTick := price, deposit := p.deposit - price }

/-- An accepted probe is owed to the seller and its fee accrues. -/
def acceptProbe (p : Purse) (fee : ℕ) : Purse :=
  let fee := if p.deposit < fee then p.deposit else fee
  { p with
    finalizedOwed := p.finalizedOwed + p.probeTick
    feeAccrued := p.feeAccrued + fee
    deposit := p.deposit - fee
    probeTick := 0 }

/-- The probe and as much of the seller's bond leave, the rest of his bond is owed to him. -/
def burnProbe (p : Purse) : Purse :=
  { p.releaseBuyerBond with
    finalizedOwed := p.finalizedOwed + (p.sellerBond - min p.probeTick p.sellerBond)
    sellerBond := 0
    probeTick := 0
    deposit := 0 }

end Purse

namespace Meter

/-- Shape of a deal matched for `tokens` tokens. -/
def shape (m : Meter) (now dealFlags tokens : ℕ) : Meter :=
  let subWeeks := if dealFlags &&& FLAG_SUBSCRIPTION ≠ 0 then SUB_WEEKS else 0
  { m with
    subWeeks := subWeeks
    weekIndex := 0
    periodStart := now
    tokensPerWeek := if subWeeks = 0 then tokens else tokens / subWeeks
    fundedTokens := tokens
    lastClaimTime := now }

/-- The probe is one delivered tick, and the claims start from it. -/
def acceptProbe (m : Meter) (now : ℕ) : Meter :=
  { m with
    periodStart := now
    tokensPaid := DEAL_TICK_SIZE
    tokensFinal := DEAL_TICK_SIZE
    tokensPend := DEAL_TICK_SIZE
    weekBaseTokens := 0
    ticksFinalized := 1
    lastClaimTime := now }

/-- Highest cumulative claim there is room for. -/
def claimCap (m : Meter) : ℕ :=
  if m.subWeeks = 0 then m.fundedTokens
  else if m.subWeeks ≤ m.weekIndex then m.tokensPend
  else min (m.weekBaseTokens + m.tokensPerWeek) m.fundedTokens

/-- A new pending claim. -/
def pend (m : Meter) (now cumulativeTokens : ℕ) : Meter :=
  { m with tokensPend := cumulativeTokens, lastClaimTime := now }

/-- Room, interval and rate of a claim. -/
def admits (m : Meter) (now cumulativeTokens : ℕ) : Prop :=
  cumulativeTokens ≤ m.claimCap ∧
    m.lastClaimTime ≤ now ∧ MIN_CLAIM_INTERVAL ≤ now - m.lastClaimTime ∧
    cumulativeTokens - m.tokensPend ≤ MAX_CLAIM_DELTA ∧
    (cumulativeTokens - m.tokensPend) * MIN_SECONDS_PER_TICK ≤
      (now - m.lastClaimTime) * DEAL_TICK_SIZE

instance (m : Meter) (now n : ℕ) : Decidable (m.admits now n) :=
  inferInstanceAs (Decidable (_ ∧ _ ∧ _ ∧ _ ∧ _))

end Meter

namespace TokenContract

/-- The message comes from the buyer of the deal, once it has one. -/
def fromBuyer (s : TokenContract) (caller : Caller) : Bool :=
  match s.buyer with
  | some b => caller.isSender b
  | none => false

/-- The message comes from the book the offer was posted to. -/
def fromBook (s : TokenContract) (caller : Caller) : Bool :=
  decide (s.iobHash ≠ 0) && caller.isSender s.orderBook

def receive (s : TokenContract) (amount : ℕ) : Option TokenContract := do
  let balance ← add128 s.balance amount
  return s.setPurse { s.toPurse with balance := balance }

def recordFunding (s : TokenContract) (now : ℕ) (buyer : Addr) (buyerPubkey paid : ℕ) :
    TokenContract :=
  ((s.setPurse { s.toPurse with deposit := paid }).setStage
    { s.toStage with
      buyer := some buyer
      buyerPubkey := buyerPubkey
      funded := true
      offerPosted := false
      fundedTime := now }).emit (.streamFunded buyer paid)

def recordDealShape (s : TokenContract) (now dealFlags ticks : ℕ) : Option TokenContract := do
  guard (ticks * DEAL_TICK_SIZE < 2 ^ 128)
  return (s.setMeter (s.toMeter.shape now dealFlags (ticks * DEAL_TICK_SIZE))).setStage
    { s.toStage with dealFlags := dealFlags }

/-- Bond that a match of these flags brings along. -/
def matchBond (s : TokenContract) (dealFlags : ℕ) : ℕ :=
  if dealFlags &&& FLAG_SUBSCRIPTION ≠ 0 then s.bondAmount else 0

/-- The deal takes the match: it is free and the escrow buys at least two and at most
`maxTicks` ticks. -/
def takesMatch (s : TokenContract) (paid dealFlags : ℕ) : Prop :=
  s.funded = false ∧ s.matchBond dealFlags ≤ paid ∧
    2 * s.unit ≤ paid - s.matchBond dealFlags ∧
    paid - s.matchBond dealFlags ≤ s.maxTicks * s.unit

instance (s : TokenContract) (paid dealFlags : ℕ) : Decidable (s.takesMatch paid dealFlags) :=
  inferInstanceAs (Decidable (_ ∧ _ ∧ _ ∧ _))

/-- The match becomes the deal's funding. -/
def enterMatch (s : TokenContract) (now paid : ℕ) (buyerNote : Addr)
    (buyerPubkey dealFlags : ℕ) : Option TokenContract :=
  let bond := s.matchBond dealFlags
  let s := s.setPurse { s.toPurse with buyerBond := bond }
  let s := s.setStage { s.toStage with
    buyerBondFunded := if 0 < bond then true else s.buyerBondFunded }
  (s.recordFunding now buyerNote buyerPubkey (paid - bond)).recordDealShape now dealFlags
    ((paid - bond) / s.unit)

/-- A match. A message of another sender is ignored, and a match the deal cannot take is paid
back. -/
def fundFromOrderBook (s : TokenContract) (caller : Caller) (now paid : ℕ) (buyerNote : Addr)
    (buyerPubkey dealFlags : ℕ) : Option TokenContract :=
  if paid = 0 then some s
  else if s.iobHash = 0 then none
  else if caller.isSender s.orderBook = false then some s
  else do
    let s ← s.receive paid
    let s := s.act (.onHandoverAccepted s.orderBook)
    if s.takesMatch paid dealFlags then s.enterMatch now paid buyerNote buyerPubkey dealFlags
    else s.payShell .buyer buyerNote paid

def postFromNote (s : TokenContract) (caller : Caller)
    (iobHash iobDepth depositIdentifierHash flags deadline : ℕ) : Option TokenContract := do
  guard (caller.isSender s.sellerNote)
  guard (s.sellerNote = .note depositIdentifierHash)
  let s := s.setStage { s.toStage with
    noteAuthorized := true, iobHash := iobHash, iobDepth := iobDepth }
  if s.offerPosted ∨ s.funded then return s
  return (s.setStage { s.toStage with offerPosted := true }).act
    (.placeSellOffer s.orderBook s.pricePerTick s.maxTicks flags deadline)

/-- The book closed the offer. -/
def onSellClosed (s : TokenContract) (caller : Caller) : TokenContract :=
  if ¬ s.fromBook caller ∨ s.funded then s
  else s.setStage { s.toStage with offerPosted := false }

/-- Return the seller's bond. -/
def returnBond (s : TokenContract) : Option TokenContract :=
  let bondBack := s.sellerBond
  if bondBack = 0 then some s
  else ((s.setPurse { s.toPurse with sellerBond := 0 }).setStage
    { s.toStage with sellerBondFunded := false }).payShell .seller s.sellerNote bondBack

def sweepAndDie (s : TokenContract) : Option TokenContract := do
  let s ← s.sweep
  return s.die

def close (s : TokenContract) (caller : Caller) : Option TokenContract := do
  guard (caller.pubkey = s.sellerPubkey)
  guard (s.funded = false)
  guard (s.offerPosted = false)
  let s ← s.returnBond
  s.sweepAndDie

def fundDeal (s : TokenContract) (caller : Caller) (amount : ℕ)
    (endpointCipher : Option (List ℕ)) : Option TokenContract := do
  guard (caller.isSender s.sellerNote)
  guard (s.opened = false)
  guard (s.sellerBondFunded = false)
  guard (0 < amount)
  let s ← s.receive amount
  let need := s.bondAmount
  guard (need ≤ amount)
  let s := (s.setPurse { s.toPurse with sellerBond := need }).setStage
    { s.toStage with sellerBondFunded := true }
  let s ← s.payShell .seller s.sellerNote (amount - need)
  let s := s.emit (.sellerBondFunded need)
  return match endpointCipher with
    | some c => (s.setStage { s.toStage with endpointCipher := c }).emit (.endpointSet c)
    | none => s

def fundBuyerBond (s : TokenContract) (caller : Caller) (amount : ℕ) : Option TokenContract := do
  guard (s.fromBuyer caller)
  guard (s.opened = false)
  guard (s.buyerBondFunded = false)
  guard (0 < amount)
  let s ← s.receive amount
  let need := s.bondAmount
  guard (need ≤ amount)
  let s := (s.setPurse { s.toPurse with buyerBond := need }).setStage
    { s.toStage with buyerBondFunded := true }
  let s ← s.payShell .buyer s.buyerAddr (amount - need)
  return s.emit (.buyerBondFunded need)

/-- The source's `open`. -/
def openDeal (s : TokenContract) (caller : Caller) (now : ℕ) (endpointCipher : List ℕ) :
    Option TokenContract := do
  guard (caller.pubkey = s.sellerPubkey)
  guard (s.funded = true)
  guard (s.opened = false)
  guard (s.sellerBondFunded = true)
  guard (s.buyerBondFunded = true)
  guard (s.pricePerTick ≤ s.deposit)
  let cipher := if endpointCipher = [] then s.endpointCipher else endpointCipher
  let s := s.emit (.endpointSet cipher)
  let s := s.setPurse (s.toPurse.takeProbe s.pricePerTick)
  let s := s.setMeter { s.toMeter with lastClaimTime := now }
  let s := s.setStage { s.toStage with
    endpointCipher := cipher
    probeAccepted := false
    probeTime := now
    opened := true
    everOpened := true }
  return s.emit (.streamOpened s.buyerAddr s.pricePerTick)

def acceptProbe (s : TokenContract) (caller : Caller) (now : ℕ) : Option TokenContract := do
  guard (caller.pubkey = s.sellerPubkey)
  guard (s.opened = true)
  guard (s.disputed = false)
  guard (s.probeAccepted = false)
  guard (s.probeTime + PROBE_WINDOW ≤ now)
  let s := s.setPurse (s.toPurse.acceptProbe (feeOf s.pricePerTick))
  let s := s.setMeter (s.toMeter.acceptProbe now)
  let s := s.setStage { s.toStage with probeAccepted := true }
  return s.emit (.probeAccepted s.buyerAddr s.pricePerTick 0)

/-- Tail of `claimTokens`, once the week boundaries are crossed. -/
def pendClaim (s : TokenContract) (now cumulativeTokens : ℕ) : Option TokenContract := do
  guard (s.toMeter.admits now cumulativeTokens)
  let s := s.setMeter (s.toMeter.promoteDue now)
  guard (s.tokensPend = s.tokensFinal)
  let s := s.setMeter (s.toMeter.pend now cumulativeTokens)
  return s.emit (.ticksClaimed s.tokensFinal s.tokensPend)

def claimTokens (s : TokenContract) (caller : Caller) (now cumulativeTokens : ℕ) :
    Option TokenContract := do
  guard (caller.pubkey = s.sellerPubkey)
  guard (s.opened = true)
  guard (s.disputed = false)
  guard (s.probeAccepted = true)
  guard (s.tokensPend ≤ cumulativeTokens)
  if cumulativeTokens = s.tokensPend then return s
  let due ← s.weeksElapsedAt now
  (s.settleBoundaries due).pendClaim now cumulativeTokens

def finalize (s : TokenContract) (now : ℕ) : Option TokenContract := do
  guard (s.opened = true ∧ s.disputed = false)
  guard (s.tokensFinal < s.tokensPend ∧ s.lastClaimTime + CLAIM_PROMOTE_WINDOW ≤ now)
  let s := s.setMeter (s.toMeter.promoteDue now)
  if s.isSubscription = false ∧ s.fundedTokens ≤ s.tokensFinal then s.payFinalAndClose
  else return s

def settleWeek (s : TokenContract) (now : ℕ) : Option TokenContract := do
  guard (s.isSubscription = true)
  guard (s.opened = true ∧ s.disputed = false)
  guard (s.probeAccepted = true)
  let due ← s.weeksElapsedAt now
  guard (s.weekIndex < due ∨ s.subWeeks ≤ s.weekIndex)
  let s := s.settleBoundaries due
  if s.subWeeks ≤ s.weekIndex ∧ s.lastClaimTime + CLAIM_PROMOTE_WINDOW ≤ now then
    (s.setMeter (s.toMeter.promoteDue now)).payFinalAndClose
  else return s

/-- The buyer leaves before the probe is accepted: the probe burns, and as much of the seller's
bond. -/
def stopProbe (s : TokenContract) : Option TokenContract := do
  let bondBurn := min s.probeTick s.sellerBond
  let burned := s.probeTick + bondBurn
  let refund := s.deposit + s.buyerBond
  let s := s.setPurse s.toPurse.burnProbe
  let s := s.setStage { s.toStage with opened := false }
  let s ← s.burnShell burned
  let s ← s.payShell .buyer s.buyerAddr refund
  (s.emit (.probeBurned s.buyerAddr s.pricePerTick bondBurn refund)).payOwedAndDie

def stop (s : TokenContract) (caller : Caller) (now : ℕ) : Option TokenContract := do
  guard (s.opened = true)
  guard (s.fromBuyer caller)
  guard (s.disputed = false)
  if s.probeAccepted = false then s.stopProbe
  else
    let s := s.setMeter (s.toMeter.promoteDue now)
    let s ← if s.isSubscription then some s
      else (s.setMeter s.toMeter.promote).forfeitBonds s.pricePerTick 0
    let started ← s.weeksStartedAt now
    (s.chargeWeeksThrough started).payFinalAndClose

/-- What a seller who stops loses: a tick of his bond on an unaccepted probe, and on an ordinary
deal a tick of it and the claim still pending. -/
def sellerForfeit (s : TokenContract) (now : ℕ) : Option TokenContract := do
  let s ← if s.probeAccepted then some s else s.forfeitBonds 0 s.pricePerTick
  let s := s.setMeter (s.toMeter.promoteDue now)
  if s.probeAccepted = true ∧ s.isSubscription = false then
    (s.setMeter { s.toMeter with tokensPend := s.tokensFinal }).forfeitBonds 0 s.pricePerTick
  else return s

def sellerStop (s : TokenContract) (caller : Caller) (now : ℕ) : Option TokenContract := do
  guard (caller.pubkey = s.sellerPubkey)
  guard (s.opened = true)
  guard (s.disputed = false)
  let s ← s.sellerForfeit now
  let elapsed ← s.weeksElapsedAt now
  (s.chargeWeeksThrough elapsed).payFinalAndClose

def dispute (s : TokenContract) (caller : Caller) (now : ℕ) : Option TokenContract := do
  guard (s.opened = true)
  guard (s.fromBuyer caller)
  guard (s.disputed = false)
  let s := s.setStage { s.toStage with disputed := true, everDisputed := true, disputeTime := now }
  return s.emit (.streamDisputed s.buyerAddr now)

/-- The claims of a disputed deal are voided and the dispute flag falls. -/
def endDispute (s : TokenContract) : TokenContract :=
  (s.setMeter (s.toMeter.voidClaims s.disputeTime)).setStage { s.toStage with disputed := false }

def releaseDispute (s : TokenContract) (caller : Caller) : Option TokenContract := do
  guard (caller.pubkey = s.sellerPubkey)
  guard (s.disputed = true)
  let e ← s.weeksElapsedAt s.disputeTime
  let s := (s.chargeWeeksThrough e).endDispute
  if s.isSubscription then s.settleTrustedAndClose s.disputeStake 0
  else s.settleTrustedAndClose s.pricePerTick s.pricePerTick

/-- Value of the claims not yet trusted, within the escrow. -/
def pendingValue (s : TokenContract) : ℕ :=
  let tokens := s.tokensPend - s.tokensFinal
  min (s.payOf tokens + s.payFeeOf tokens) s.deposit

def resolveDisputeTimeout (s : TokenContract) (now : ℕ) : Option TokenContract := do
  guard (s.disputed = true)
  guard (s.disputeTime + DISPUTE_WINDOW ≤ now)
  let e ← s.weeksElapsedAt s.disputeTime
  let s := s.chargeWeeksThrough e
  if s.isSubscription then
    let d := s.disputeStake
    s.endDispute.settleTrustedAndClose d d
  else
    let burnPend := s.pendingValue
    let s := s.endDispute
    let s ← (s.setPurse { s.toPurse with deposit := s.deposit - burnPend }).burnShell burnPend
    s.settleTrustedAndClose (2 * s.pricePerTick) (2 * s.pricePerTick)

/-- End of a match that was never opened: both sides get everything back and the deal is free
again. -/
def cleanupUnopened (s : TokenContract) (caller : Caller) (now : ℕ) : Option TokenContract := do
  guard (s.funded = true)
  guard (s.opened = false)
  guard (s.everOpened = false)
  guard (s.fromBuyer caller ∨ s.fundedTime + MATCH_OPEN_TIMEOUT ≤ now)
  let refund := s.deposit + s.buyerBond
  let bondBack := s.sellerBond
  let s := s.setPurse { s.toPurse with deposit := 0, buyerBond := 0, sellerBond := 0 }
  let s := s.setStage { s.toStage with
    funded := false
    sellerBondFunded := false
    buyerBondFunded := false
    offerPosted := false
    endpointCipher := [] }
  let s ← s.payShell .buyer s.buyerAddr refund
  let s ← s.payShell .seller s.sellerNote bondBack
  let s ← s.burnShell s.balance
  return s.announceClose

def withdrawShell (s : TokenContract) (caller : Caller) (amount : ℕ) : Option TokenContract := do
  guard (caller.pubkey = s.sellerPubkey)
  guard (0 < amount)
  guard (amount ≤ s.finalizedOwed)
  let s := s.setPurse { s.toPurse with finalizedOwed := s.finalizedOwed - amount }
  let s ← s.payShell .seller s.sellerNote amount
  let s := s.emit (.shellWithdrawn s.sellerNote amount)
  if s.funded = true ∧ s.opened = false ∧ s.disputed = false ∧ s.finalizedOwed = 0 ∧
      s.offerPosted = false then s.sweepAndDie
  else return s

/-- Refund of the buyer of a deal that is destroyed before it is opened. -/
def refundUnopened (s : TokenContract) : Option TokenContract :=
  if s.funded = false then some s
  else
    let s := s.setPurse (s.toPurse.releaseProbe s.probeAccepted).releaseBuyerBond
    let refund := s.deposit
    ((s.setPurse { s.toPurse with deposit := 0 }).setStage
      { s.toStage with funded := false }).payShell .buyer s.buyerAddr refund

def destroy (s : TokenContract) (caller : Caller) : Option TokenContract := do
  guard (caller.pubkey = s.sellerPubkey)
  guard (s.opened = false)
  guard (s.disputed = false)
  guard (s.offerPosted = false)
  let s ← s.refundUnopened
  let s ← s.returnBond
  s.sweepAndDie

end TokenContract

/-- External entry points of a deal. -/
inductive DealCall
  | fundFromOrderBook (paid : ℕ) (buyerNote : Addr) (buyerPubkey dealFlags : ℕ)
  | postFromNote (iobHash iobDepth depositIdentifierHash flags deadline : ℕ)
  | onSellClosed
  | close
  | fundDeal (amount : ℕ) (endpointCipher : Option (List ℕ))
  | fundBuyerBond (amount : ℕ)
  | openDeal (endpointCipher : List ℕ)
  | acceptProbe
  | claimTokens (cumulativeTokens : ℕ)
  | finalize
  | settleWeek
  | stop
  | sellerStop
  | dispute
  | releaseDispute
  | resolveDisputeTimeout
  | cleanupUnopened
  | withdrawShell (amount : ℕ)
  | destroy
  deriving DecidableEq

namespace TokenContract

/-- Message a deal transaction processes. -/
structure Input where
  caller : Caller
  now : ℕ
  call : DealCall
  deriving DecidableEq

/-- Storage at the start of a transaction. -/
@[simps toTerms toPurse toMeter toStage actions]
def begin (s : TokenContract) : TokenContract := { s with actions := [] }

/-- One transaction on a live deal. -/
def exec (s : TokenContract) (caller : Caller) (now : ℕ) : DealCall → Option TokenContract
  | .fundFromOrderBook paid note pk flags => s.fundFromOrderBook caller now paid note pk flags
  | .postFromNote h d n f t => s.postFromNote caller h d n f t
  | .onSellClosed => some (s.onSellClosed caller)
  | .close => s.close caller
  | .fundDeal a c => s.fundDeal caller a c
  | .fundBuyerBond a => s.fundBuyerBond caller a
  | .openDeal c => s.openDeal caller now c
  | .acceptProbe => s.acceptProbe caller now
  | .claimTokens n => s.claimTokens caller now n
  | .finalize => s.finalize now
  | .settleWeek => s.settleWeek now
  | .stop => s.stop caller now
  | .sellerStop => s.sellerStop caller now
  | .dispute => s.dispute caller now
  | .releaseDispute => s.releaseDispute caller
  | .resolveDisputeTimeout => s.resolveDisputeTimeout now
  | .cleanupUnopened => s.cleanupUnopened caller now
  | .withdrawShell a => s.withdrawShell caller a
  | .destroy => s.destroy caller

def step (s : TokenContract) (i : Input) : Option TokenContract :=
  if s.destroyed then none else s.begin.exec i.caller i.now i.call

end TokenContract

end Dexdo
