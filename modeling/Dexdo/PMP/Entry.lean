import Dexdo.PMP.Pools

namespace Dexdo

/-- Record a vote. `none` means the oracle repeats the vote it already has. -/
def Tally.vote (v : Tally) (pubkey hash : ℕ) : Option Tally :=
  match v.oracleHash pubkey with
  | some old =>
    if old = hash then none
    else
      let count := Function.update v.hashCount old (v.hashCount old - 1)
      some ⟨Function.update v.oracleHash pubkey (some hash),
        Function.update count hash (count hash + 1)⟩
  | none => some ⟨Function.update v.oracleHash pubkey (some hash),
      Function.update v.hashCount hash (v.hashCount hash + 1)⟩

namespace Oracles

/-- The list has approved the event. -/
def confirm (o : Oracles) (sender : Addr) : Oracles :=
  { o with oracleEventsConfirmed := o.oracleEventsConfirmed.map fun e =>
      if e.1 = sender then (e.1, true) else e }

/-- The oracle of an approving list. -/
def register (o : Oracles) (oraclePubkey : ℕ) (trustAddr : Option Addr) : Oracles :=
  { o with
    oracleEventsPubkeys := oraclePubkey :: o.oracleEventsPubkeys
    oracleEventsAddress := fun a =>
      if some a = trustAddr then some oraclePubkey else o.oracleEventsAddress a
    approvedOracleEvents := o.approvedOracleEvents + 1 }

end Oracles

namespace PMP

/-- Idempotent trigger of the OrderBook shutdown. -/
def triggerOrderBookShutdown (s : PMP) (now : ℕ) : PMP :=
  if s.shutdownTriggered ∨ s.orderBookDone ∨ s.resultStart = 0 ∨ ¬ s.frozen ∨
      (now < s.resultStart ∧ ¬ s.isCancelled) then s
  else { s with shutdownTriggered := true }.act .shutdown

/-- The gas top-up has no effect on the ledger; the shutdown trigger rides on it. -/
def ensureBalance (s : PMP) (now : ℕ) : PMP := s.triggerOrderBookShutdown now

/-- Whether a list has approved, if it was asked. -/
def confirmed? (s : PMP) (a : Addr) : Option Bool :=
  (s.oracleEventsConfirmed.find? fun e => decide (e.1 = a)).map Prod.snd

/-- The lists that have approved. -/
def confirmedLists (s : PMP) : List Addr :=
  (s.oracleEventsConfirmed.filter fun e => e.2).map Prod.fst

/-- Those lists are told that the PMP is gone. -/
def cancelLists (s : PMP) : PMP :=
  { s with actions := s.actions ++ s.confirmedLists.map .cancelEvent }

/-- Tell every confirmed list that this event is over, once. -/
def releaseOracleCounts (s : PMP) : PMP :=
  if s.countReleased then s else { s with countReleased := true }.cancelLists

/-- The deployer gets the initial stakes back. -/
def refundInitialStakes (s : PMP) : PMP :=
  s.send s.deployer (.onInitialStakesFailed s.initialStakes.sum)

/-- End of a PMP that never opened: the initial stakes, if any, go back. -/
def giveUp (s : PMP) : PMP :=
  (if s.initialStakes = [] then s else s.refundInitialStakes).selfdestruct .rootPN

/-- A list asked for the event refuses it. -/
def rejectEvent (s : PMP) (sender : Addr) (now : ℕ) : Option PMP := do
  guard (s.confirmed? sender).isSome
  return ((s.ensureBalance now).emit .pmpRejected).releaseOracleCounts.giveUp

/-- First approval: the outcomes are fixed and the initial stakes enter the pools. `none` in the
result means that their number is wrong. -/
def openPools (s : PMP) (outcomeCount : ℕ) : Option (Option PMP) :=
  let s := s.setCore (s.toCore.setNumOutcomes outcomeCount)
  if s.initialStakes.length ≠ outcomeCount then some none
  else do
    guard (∀ x ∈ s.initialStakes, 0 < x)
    let p ← s.toPools.creditInitial s.initialStakes
    return some ((s.setPools p).send s.deployer (.onInitialStakesAccepted s.initialStakes))

/-- Tail of `approveEvent`, once the pools are open. -/
def recordApproval (s : PMP) (sender : Addr) (oraclePubkey : ℕ) (trustAddr : Option Addr) :
    Option PMP := do
  let s := s.setOracles (s.toOracles.confirm sender)
  if oraclePubkey ∈ s.oracleEventsPubkeys then
    return s.refundInitialStakes.cancelLists.selfdestruct .rootPN
  guard (∀ a ∈ trustAddr, s.oracleEventsAddress a = none)
  let s := s.setOracles (s.toOracles.register oraclePubkey trustAddr)
  return if s.approvedOracleEvents = s.numberOfOracleEvents then
      s.emit (.approvedByOracle sender oraclePubkey)
    else s

/-- Approval by an oracle list. Of the outcome names only their number matters here. -/
def approveEvent (s : PMP) (sender : Addr) (now oraclePubkey outcomeCount : ℕ)
    (trustAddr : Option Addr) : Option PMP := do
  let confirmed ← s.confirmed? sender
  guard (oraclePubkey ≠ 0)
  if confirmed then return s
  guard (¬ s.isCancelled)
  if s.numberOfOracleEvents ≤ s.approvedOracleEvents then return s
  let s := s.ensureBalance now
  if s.approvedOracleEvents = 0 then
    match ← s.openPools outcomeCount with
    | none =>
      let s := (s.setCore (s.toCore.setNumOutcomes outcomeCount)).refundInitialStakes
      return (s.act (.cancelEvent sender)).selfdestruct .rootPN
    | some s => s.recordApproval sender oraclePubkey trustAddr
  else s.recordApproval sender oraclePubkey trustAddr

/-- Stakes are taken for a tenth of the time up to the result. -/
def computeStakeEnd (s : PMP) : ℕ := s.stakeStart + (s.resultStart - s.stakeStart) / 10

/-- Step of the normalization: the least initial stake. -/
def minInitialStake (s : PMP) : Option ℕ := s.initialStakes.min?

/-- `_ensureFrozen` once its checks passed: normalize, build the basket, deploy the book. -/
def freeze (s : PMP) (g : ℕ) : Option PMP := do
  let base := s.totalPool
  let refunds := s.toPools.refundAmounts s.numOutcomes g
  let pending := s.normRefundPending || decide (0 < refunds.sum)
  let (p, paid) ← s.toPools.normalize s.numOutcomes g
  let frozenClean := fun k => if k < s.numOutcomes then p.typedOutcomePools k .clean else 0
  let s := s.setPools p
  let s := if 0 < refunds.sum then s.send s.deployer (.onPmpCleanRefund refunds paid) else s
  let s := s.setCore (s.toCore.setBasket (Basket.build frozenClean s.numOutcomes base pending))
  return (s.act (.deployOrderBook s.resultStart s.numOutcomes)).emit (.poolsFrozen base)

/-- Freezes the pools at the first use behind the end of the stakes. -/
def ensureFrozen (s : PMP) (now : ℕ) : Option PMP :=
  if s.frozen then some s
  else do
    guard s.approved
    guard (¬ s.isCancelled)
    guard (s.computeStakeEnd ≤ now)
    let g ← s.minInitialStake
    guard (0 < g)
    s.freeze g

/-- Freeze by anyone behind the end of the stakes. -/
def freezeNow (s : PMP) (now : ℕ) : Option PMP := do
  guard (¬ s.frozen)
  guard s.approved
  guard (¬ s.isCancelled)
  guard (s.computeStakeEnd ≤ now)
  (s.ensureBalance now).ensureFrozen now

/-- Auto-freeze of `setTimings`, when the new stake window is already over. -/
def freezeIfEnded (s : PMP) (now : ℕ) : Option PMP :=
  if s.computeStakeEnd ≤ now then s.ensureFrozen now else some s

/-- The carried motion of the oracles: the result time, and a first one opens the stakes. -/
def setTimings (s : PMP) (now resultStart : ℕ) : Option PMP := do
  guard s.resolvedOutcome.isNone
  guard (s.approvedOracleEvents = s.numberOfOracleEvents)
  guard (now < resultStart)
  guard (s.resultStart = 0 ∨ now < s.resultStart)
  guard (s.stakeStart = 0 → now + MIN_RESULT_GAP ≤ resultStart)
  let stakeStart := if s.stakeStart = 0 then now else s.stakeStart
  let s := if s.stakeStart = 0 then s.emit .networkFeeBurned else s
  let s := s.setCore (s.toCore.setTimings stakeStart resultStart)
  let s ← s.freezeIfEnded now
  let s := if s.frozen then s.act (.setResultStart s.resultStart) else s
  return (s.ensureBalance now).emit
    (.timingsSet s.stakeStart s.computeStakeEnd s.resultStart (s.resultStart + GRACE_PERIOD))

/-- The carried cancellation; the lists stop counting the PMP. -/
def cancelEvent (s : PMP) (now : ℕ) : Option PMP := do
  guard (s.approvedOracleEvents = s.numberOfOracleEvents)
  guard (¬ s.isCancelled)
  guard s.resolvedOutcome.isNone
  return ((s.setCore s.toCore.cancel).ensureBalance now).releaseOracleCounts.emit .eventCancelled

/-- Stake of a note before the freeze. -/
def acceptStake (s : PMP) (sender : Addr) (now outcomeId stakeAmount depositIdentifierHash : ℕ)
    (betType : BetType) : Option PMP := do
  guard s.approved
  guard (¬ s.isCancelled)
  guard s.resolvedOutcome.isNone
  guard (0 < s.numOutcomes)
  guard (outcomeId < s.numOutcomes)
  guard (¬ s.frozen)
  guard (s.stakeStart ≤ now)
  guard (now < s.computeStakeEnd)
  guard betType.isStake
  let wallet := Addr.note depositIdentifierHash
  guard (sender = wallet)
  guard (betType ≠ .clean ∨ wallet ≠ s.deployer ∨ s.creatorForfeitedClean outcomeId = 0)
  let s := s.ensureBalance now
  guard (betType = .coupon → s.toPools.couponsFit outcomeId stakeAmount)
  let p ← s.toPools.creditStake outcomeId betType stakeAmount
  return ((s.setPools p).send wallet (.onStakeAccepted s.numOutcomes betType)).emit
    (.stakeAccepted wallet outcomeId stakeAmount betType)

/-- Sweep the whole balance to the deployer and destroy the PMP. -/
def finalizeResidualClose (s : PMP) : PMP :=
  let residual := s.totalUnclaimedBalance
  let s := if 0 < residual then (s.setPools (s.toPools.payOut residual)).send s.deployer
      (.acceptFee residual) else s
  s.releaseOracleCounts.selfdestruct s.deployer

/-- Sweep the reward budgets that are left to the deployer and destroy the PMP. -/
def finalizeWinClose (s : PMP) : PMP :=
  let residual := s.toPools.clamp s.toRewards.residual
  let s := s.setRewards s.toRewards.drained
  let s := if 0 < residual then (s.setPools (s.toPools.payOut residual)).send s.deployer
      (.acceptFee residual) else s
  s.releaseOracleCounts.selfdestruct s.deployer

/-- Close of a market in which no winning stake is left that is not forfeited. -/
def closeWin (s : PMP) (outcomeId : ℕ) : PMP :=
  if s.totalWinPool ≤ s.toPools.forfeitedWinMass outcomeId then s.finalizeWinClose else s

/-- Close of a refund of debts of which only forfeited ones are left. -/
def closeDebtRefund (s : PMP) : PMP :=
  if s.debtRefundRemaining ≤ s.toPools.forfeitedDebtTotal s.numOutcomes then
    s.finalizeResidualClose
  else s

/-- Close of a cancelled market of which only forfeited stakes are left. -/
def closeCancelled (s : PMP) : PMP :=
  if s.toPools.poolsEqualForfeited s.numOutcomes then s.finalizeResidualClose else s

/-- The close that fits the state, once the order book is done. -/
def tryClose (s : PMP) : PMP :=
  match s.resolvedOutcome with
  | some outcomeId =>
    if ¬ s.orderBookDone then s
    else if s.debtRefundMode then s.closeDebtRefund else s.closeWin outcomeId
  | none =>
    if ¬ s.isCancelled then s
    else if s.frozen ∧ ¬ s.orderBookDone then s else s.closeCancelled

/-- Automatic cancellation once the result window has passed unused. -/
def autoCancel (s : PMP) (now : ℕ) : Option PMP :=
  if s.resultStart + GRACE_PERIOD < now ∧ s.resolvedOutcome.isNone ∧ ¬ s.isCancelled then
    s.cancelEvent now
  else some s

/-- Refund of the stakes of a note in a cancelled market. -/
def cancelStake (s : PMP) (sender : Addr) (now : ℕ)
    (stakeAmount debtAmount couponsAmount : List ℕ) (depositIdentifierHash : ℕ) : Option PMP := do
  let s ← s.autoCancel now
  guard s.isCancelled
  guard (¬ s.frozen ∨ s.orderBookDone)
  let wallet := Addr.note depositIdentifierHash
  guard (sender = wallet)
  guard (¬ s.normRefundPending ∨ wallet ≠ s.deployer)
  let s := s.ensureBalance now
  let p ← s.toPools.debitStakes stakeAmount debtAmount couponsAmount
  let paid := p.clamp (stakeAmount.sum + debtAmount.sum)
  return ((s.setPools (p.payOut paid)).send wallet
    (.onStakeCancelled paid couponsAmount.sum)).closeCancelled

/-- Whole baskets for collateral. -/
def splitFullSet (s : PMP) (sender : Addr) (now collateral depositIdentifierHash : ℕ) :
    Option PMP := do
  let s ← s.ensureFrozen now
  guard s.resolvedOutcome.isNone
  guard (¬ s.isCancelled)
  guard (now < s.resultStart)
  guard (0 < collateral)
  guard (¬ s.normRefundPending)
  guard (0 < s.baseTotalPool)
  let wallet := Addr.note depositIdentifierHash
  guard (sender = wallet)
  let s := s.ensureBalance now
  guard (0 < s.splitMergeQ)
  let t := collateral / s.splitMergeQ
  guard (0 < t)
  let used := t * s.splitMergeQ
  let amounts := s.toBasket.amounts s.numOutcomes t
  let p ← s.toPools.mintSets amounts used
  return ((s.setPools p).send wallet (.onSplitAccepted amounts used)).emit
    (.splitProcessed wallet used)

/-- Collateral for whole baskets. -/
def mergeFullSet (s : PMP) (sender : Addr) (now : ℕ) (amount : List ℕ)
    (depositIdentifierHash : ℕ) : Option PMP := do
  let s ← s.ensureFrozen now
  guard s.resolvedOutcome.isNone
  guard (¬ s.isCancelled)
  guard (now < s.resultStart)
  guard (amount.length = s.numOutcomes)
  guard (0 < s.baseTotalPool)
  guard (¬ s.normRefundPending)
  let wallet := Addr.note depositIdentifierHash
  guard (sender = wallet)
  let s := s.ensureBalance now
  guard (0 < s.splitMergeQ)
  guard (∀ k < s.numOutcomes, s.frozenCleanUnitsPerQ k = 0 → amount.getD k 0 = 0)
  let t := s.toBasket.wholeSets s.numOutcomes amount
  guard (0 < t ∧ t ≠ 2 ^ 128 - 1)
  let collateral := t * s.splitMergeQ
  guard (collateral ≤ s.totalPool)
  guard (collateral ≤ s.totalCleanPool)
  let actual := s.toBasket.amounts s.numOutcomes t
  guard (∀ k < s.numOutcomes, actual.getD k 0 ≤ s.typedOutcomePools k .clean)
  let (p, paid) ← s.toPools.burnSets actual collateral
  return ((s.setPools p).send wallet (.onMergeAccepted paid actual)).emit
    (.mergeProcessed wallet paid)

/-- Credit of the creator fee to the deployer. -/
def payCreatorFee (s : PMP) : PMP :=
  if 0 < s.creatorFee then
    ((s.setPools (s.toPools.payOut s.creatorFee)).send s.deployer (.acceptFee s.creatorFee)).emit
      (.creatorFeeCollected s.creatorFee)
  else s

/-- The carried motion on the outcome, in its window. -/
def resolve (s : PMP) (now outcomeId : ℕ) : Option PMP := do
  guard s.approved
  let s ← s.ensureFrozen now
  guard (¬ s.isCancelled)
  guard s.resolvedOutcome.isNone
  guard (outcomeId < s.numOutcomes)
  guard (s.resultStart ≤ now)
  guard (now ≤ s.resultStart + GRACE_PERIOD)
  guard (s.toPools.resolveFits outcomeId)
  let s := s.ensureBalance now
  return ((s.setRewards (s.toPools.rewards outcomeId)).payCreatorFee).emit (.resolved outcomeId)

/-- Claim in a market that resolved with no winning stake: debt stakes are refunded. -/
def claimDebtRefund (s : PMP) (wallet : Addr) (debtAmount : List ℕ) : PMP :=
  let owed := if s.debtRefundRemaining < debtAmount.sum then s.debtRefundRemaining
    else debtAmount.sum
  let paid := s.toPools.clamp owed
  let s := s.setRewards { s.toRewards with debtRefundRemaining := s.debtRefundRemaining - paid }
  let s := (s.setPools (s.toPools.payOut paid)).send wallet
    (.onClaimAccepted s.resolvedOutcome 0 paid 0 0)
  (s.emit (.claimProcessed wallet paid (decide (0 < paid)))).closeDebtRefund

/-- Claim against winning outcome `outcomeId`. -/
def claimWin (s : PMP) (wallet : Addr) (outcomeId stake debt coupon : ℕ) : PMP :=
  let q := s.toRewards.cap debt (s.toRewards.payout stake debt coupon)
  let s := s.setRewards (s.toRewards.spend q)
  let q := q.clamp s.totalUnclaimedBalance
  let win := decide ((0 < s.resolvedWinClean ∧ 0 < stake) ∨ 0 < debt ∨ 0 < coupon)
  let s := (s.setPools (s.toPools.payOut q.total)).send wallet
    (.onClaimAccepted s.resolvedOutcome q.clean q.debt q.coupon q.debtPaid)
  let s := s.emit (.claimProcessed wallet q.total win)
  (s.setRewards (s.toRewards.settle (stake + debt + coupon))).closeWin outcomeId

/-- No sum and no cast of the claim throws. -/
def claimFits (s : PMP) (stakeAmount debtAmount couponsAmount : List ℕ) : Bool :=
  match s.resolvedOutcome with
  | none => true
  | some outcomeId =>
    if s.debtRefundMode then decide (debtAmount.sum < 2 ^ 128)
    else s.toRewards.payoutFits (stakeAmount.getD outcomeId 0) (debtAmount.getD outcomeId 0)
      (couponsAmount.getD outcomeId 0)

/-- Claim of a note, which hands in all its stakes. -/
def claim (s : PMP) (sender : Addr) (now : ℕ) (stakeAmount debtAmount couponsAmount : List ℕ)
    (depositIdentifierHash : ℕ) : Option PMP := do
  guard s.approved
  guard s.orderBookDone
  guard (stakeAmount.length = s.numOutcomes)
  let wallet := Addr.note depositIdentifierHash
  guard (sender = wallet)
  guard (s.claimFits stakeAmount debtAmount couponsAmount)
  let s := s.ensureBalance now
  match s.resolvedOutcome with
  | none => return s.send wallet (.onClaimAccepted none 0 0 0 0)
  | some outcomeId =>
    return if s.debtRefundMode then s.claimDebtRefund wallet debtAmount
      else s.claimWin wallet outcomeId (stakeAmount.getD outcomeId 0)
        (debtAmount.getD outcomeId 0) (couponsAmount.getD outcomeId 0)

/-- A note gives up its stakes. -/
def forfeitStake (s : PMP) (sender : Addr) (now : ℕ)
    (stakeAmount debtAmount couponsAmount : List ℕ) (depositIdentifierHash : ℕ) : Option PMP := do
  let wallet := Addr.note depositIdentifierHash
  guard (sender = wallet)
  let s := s.ensureBalance now
  let byCreator := decide (wallet = s.deployer)
  let p := s.toPools.forfeit byCreator stakeAmount debtAmount couponsAmount
  let s := (s.setPools p).emit (.stakeForfeited wallet stakeAmount debtAmount couponsAmount)
  return (s.send wallet .onForfeitAccepted).tryClose

/-- Oracle public key bound to the caller. -/
def getOraclePubkey (s : PMP) : Caller → Option ℕ
  | .internal sender => s.oracleEventsAddress sender
  | .external pubkey => if pubkey ∈ s.oracleEventsPubkeys then some pubkey else none

/-- Votes that carry a motion: `THRESHOLD` of the oracles, rounded up. -/
def quorum (s : PMP) : ℕ := (s.numberOfOracleEvents * THRESHOLD + 9999) / 10000

/-- Vote of an oracle on the result time. -/
def submitSetTimings (s : PMP) (caller : Caller) (now resultStart : ℕ) : Option PMP := do
  let pubkey ← s.getOraclePubkey caller
  let s := s.ensureBalance now
  match s.timings.vote pubkey resultStart with
  | none => return s
  | some v =>
    if s.quorum ≤ v.hashCount resultStart then
      (s.setOracles { s.toOracles with timings := Tally.empty }).setTimings now resultStart
    else return s.setOracles { s.toOracles with timings := v }

/-- Vote of an oracle on the outcome. -/
def submitResolve (s : PMP) (caller : Caller) (now outcomeId : ℕ) : Option PMP := do
  let pubkey ← s.getOraclePubkey caller
  let s := s.ensureBalance now
  match s.resolves.vote pubkey outcomeId with
  | none => return s
  | some v =>
    if s.quorum ≤ v.hashCount outcomeId then
      (s.setOracles { s.toOracles with resolves := Tally.empty }).resolve now outcomeId
    else return s.setOracles { s.toOracles with resolves := v }

/-- Vote of an oracle for cancellation. -/
def submitCancelEvent (s : PMP) (caller : Caller) (now : ℕ) : Option PMP := do
  let pubkey ← s.getOraclePubkey caller
  let s := s.ensureBalance now
  if pubkey ∈ s.cancelOracleVoted then return s
  if s.quorum ≤ s.cancelVoteCount + 1 then
    (s.setOracles { s.toOracles with cancelOracleVoted := [], cancelVoteCount := 0 }).cancelEvent now
  else return s.setOracles { s.toOracles with
    cancelOracleVoted := pubkey :: s.cancelOracleVoted
    cancelVoteCount := s.cancelVoteCount + 1 }

/-- Bounce of a message to an oracle list. -/
def onBounce (s : PMP) (sender : Addr) (now : ℕ) : PMP :=
  if (s.confirmed? sender).isNone then s
  else if s.isCancelled then s.act (.cancelEvent sender)
  else (s.ensureBalance now).releaseOracleCounts.giveUp

/-- The deployer has booked the refund of the normalization. -/
def confirmRefundReceived (s : PMP) (sender : Addr) (now depositIdentifierHash : ℕ) :
    Option PMP := do
  guard (sender = .note depositIdentifierHash)
  guard (sender = s.deployer)
  let s := s.ensureBalance now
  return s.setCore s.toCore.clearRefund

/-- The order book has drained. -/
def onOrderBookShutdownComplete (s : PMP) (sender : Addr) (now : ℕ) : Option PMP := do
  guard (sender = .orderBook s.market)
  let s := s.ensureBalance now
  return (s.setCore s.toCore.setBookDone).tryClose

end PMP

/-- External entry points of a PMP. -/
inductive PmpCall
  | rejectEvent
  | approveEvent (oraclePubkey outcomeCount : ℕ) (trustAddr : Option Addr)
  | acceptStake (outcomeId stakeAmount depositIdentifierHash : ℕ) (betType : BetType)
  | cancelStake (stakeAmount debtAmount couponsAmount : List ℕ) (depositIdentifierHash : ℕ)
  | freezeNow
  | splitFullSet (collateral depositIdentifierHash : ℕ)
  | mergeFullSet (amount : List ℕ) (depositIdentifierHash : ℕ)
  | claim (stakeAmount debtAmount couponsAmount : List ℕ) (depositIdentifierHash : ℕ)
  | forfeitStake (stakeAmount debtAmount couponsAmount : List ℕ) (depositIdentifierHash : ℕ)
  | submitSetTimings (caller : Caller) (resultStart : ℕ)
  | submitResolve (caller : Caller) (outcomeId : ℕ)
  | submitCancelEvent (caller : Caller)
  | onBounce
  | confirmRefundReceived (depositIdentifierHash : ℕ)
  | onOrderBookShutdownComplete
  deriving DecidableEq

namespace PMP

/-- Storage at the start of a transaction. -/
def begin (s : PMP) : PMP := { s with actions := [] }

/-- One transaction: a call from `sender` at time `now` on a live PMP. -/
def exec (s : PMP) (sender : Addr) (now : ℕ) : PmpCall → Option PMP
  | .rejectEvent => s.rejectEvent sender now
  | .approveEvent pubkey n trust => s.approveEvent sender now pubkey n trust
  | .acceptStake k a h t => s.acceptStake sender now k a h t
  | .cancelStake a d c h => s.cancelStake sender now a d c h
  | .freezeNow => s.freezeNow now
  | .splitFullSet c h => s.splitFullSet sender now c h
  | .mergeFullSet a h => s.mergeFullSet sender now a h
  | .claim a d c h => s.claim sender now a d c h
  | .forfeitStake a d c h => s.forfeitStake sender now a d c h
  | .submitSetTimings caller r => s.submitSetTimings caller now r
  | .submitResolve caller k => s.submitResolve caller now k
  | .submitCancelEvent caller => s.submitCancelEvent caller now
  | .onBounce => some (s.onBounce sender now)
  | .confirmRefundReceived h => s.confirmRefundReceived sender now h
  | .onOrderBookShutdownComplete => s.onOrderBookShutdownComplete sender now

/-- Message a PMP transaction processes. -/
structure Input where
  sender : Addr
  now : ℕ
  call : PmpCall
  deriving DecidableEq

/-- A message to the PMP; none is processed once it is destroyed. -/
def step (s : PMP) (i : Input) : Option PMP :=
  if s.destroyed then none else s.begin.exec i.sender i.now i.call

end PMP

end Dexdo
