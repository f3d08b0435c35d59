import Dexdo.Modifiers
import Mathlib.Tactic

namespace Dexdo

/-- A mapping outcome => betType => amount. -/
abbrev TypedPools := ℕ → BetType → ℕ

/-- Write of one pool. -/
def TypedPools.set (f : TypedPools) (k : ℕ) (t : BetType) (a : ℕ) : TypedPools :=
  Function.update f k (Function.update (f k) t a)

/-- Calls of a PMP into a PrivateNote, less the market key they all carry. -/
inductive PmpCallback
  | onInitialStakesAccepted (amounts : List ℕ)
  | onInitialStakesFailed (refundTotal : ℕ)
  | onPmpCleanRefund (refundAmounts : List ℕ) (refundTotal : ℕ)
  | onForfeitAccepted
  | onStakeCancelled (value couponValue : ℕ)
  | onSplitAccepted (amounts : List ℕ) (collateralUsed : ℕ)
  | onMergeAccepted (collateral : ℕ) (amounts : List ℕ)
  | onStakeAccepted (outcomeCount : ℕ) (betType : BetType)
  | onClaimAccepted (outcome : Option ℕ) (payoutClean payoutDebt payoutCoupon debtPaid : ℕ)
  | acceptFee (fee : ℕ)
  deriving DecidableEq

/-- External events of a PMP. -/
inductive PmpEvent
  | stakeAccepted (note : Addr) (outcomeId amount : ℕ) (betType : BetType)
  | stakeForfeited (wallet : Addr) (stakeAmount debtAmount couponsAmount : List ℕ)
  | approvedByOracle (oracleEventList : Addr) (oraclePubkey : ℕ)
  | resolved (outcomeId : ℕ)
  | claimProcessed (note : Addr) (payout : ℕ) (win : Bool)
  | networkFeeBurned
  | timingsSet (stakeStart stakeEnd resultStart resultEnd : ℕ)
  | eventCancelled
  | pmpRejected
  | creatorFeeCollected (fee : ℕ)
  | poolsFrozen (baseTotalPool : ℕ)
  | splitProcessed (note : Addr) (collateral : ℕ)
  | mergeProcessed (note : Addr) (collateral : ℕ)
  deriving DecidableEq

/-- Outgoing actions of a PMP transaction. -/
inductive PmpAction
  | event (e : PmpEvent)
  | callback (dest : Addr) (cb : PmpCallback)
  | confirmEvent (oracleEventList : Addr)
  | cancelEvent (oracleEventList : Addr)
  | deployOrderBook (resultStart numOutcomes : ℕ)
  | setResultStart (resultStart : ℕ)
  | shutdown
  | selfdestruct (dest : Addr)
  deriving DecidableEq

/-- Stakes by outcome and bet type, with the totals kept beside them. -/
structure Pools where
  typedOutcomePools : TypedPools
  forfeited : TypedPools
  creatorForfeitedClean : ℕ → ℕ
  totalPool : ℕ
  totalCleanPool : ℕ
  totalDebtPool : ℕ
  totalCouponPool : ℕ
  totalUnclaimedBalance : ℕ

/-- Set at resolution and consumed by claims. -/
structure Rewards where
  resolvedOutcome : Option ℕ
  resolvedWinClean : ℕ
  totalWinPool : ℕ
  creatorFee : ℕ
  couponWinCoef : ℕ
  debtWinCoef : ℕ
  profitToClean : ℕ
  totalRewardsClean : ℕ
  totalRewardsDebt : ℕ
  totalRewardsCoupon : ℕ
  debtRefundMode : Bool
  debtRefundRemaining : ℕ

/-- Set at freeze: the clean pools and the split/merge basket made of them. -/
structure Basket where
  frozen : Bool
  normRefundPending : Bool
  baseTotalPool : ℕ
  frozenCleanPools : ℕ → ℕ
  splitMergeQ : ℕ
  frozenCleanUnitsPerQ : ℕ → ℕ

/-- Votes of one kind: what each oracle voted for, and how many voted for it. A vote is kept
under the hash of its parameter, so the parameter itself stands for it. -/
structure Tally where
  oracleHash : ℕ → Option ℕ
  hashCount : ℕ → ℕ

def Tally.empty : Tally := ⟨fun _ => none, fun _ => 0⟩

/-- Oracle confirmations and votes. -/
structure Oracles where
  oracleEventsConfirmed : List (Addr × Bool)
  oracleEventsPubkeys : List ℕ
  oracleEventsAddress : Addr → Option ℕ
  numberOfOracleEvents : ℕ
  approvedOracleEvents : ℕ
  countReleased : Bool
  timings : Tally
  resolves : Tally
  cancelOracleVoted : List ℕ
  cancelVoteCount : ℕ

/-- The part of the storage the stakes depend on. -/
structure Core extends Pools, Rewards, Basket where
  market : MarketId
  deployer : Addr
  initialStakes : List ℕ
  numOutcomes : ℕ
  approved : Bool
  stakeStart : ℕ
  resultStart : ℕ
  isCancelled : Bool
  orderBookDone : Bool
  destroyed : Bool

/-- Storage of one PMP and the action list of its current transaction. -/
structure PMP extends Core, Oracles where
  shutdownTriggered : Bool
  actions : List PmpAction

def Pools.empty : Pools where
  typedOutcomePools := fun _ _ => 0
  forfeited := fun _ _ => 0
  creatorForfeitedClean := fun _ => 0
  totalPool := 0
  totalCleanPool := 0
  totalDebtPool := 0
  totalCouponPool := 0
  totalUnclaimedBalance := 0

def Rewards.empty : Rewards where
  resolvedOutcome := none
  resolvedWinClean := 0
  totalWinPool := 0
  creatorFee := 0
  couponWinCoef := 0
  debtWinCoef := 0
  profitToClean := 0
  totalRewardsClean := 0
  totalRewardsDebt := 0
  totalRewardsCoupon := 0
  debtRefundMode := false
  debtRefundRemaining := 0

def Basket.empty : Basket where
  frozen := false
  normRefundPending := false
  baseTotalPool := 0
  frozenCleanPools := fun _ => 0
  splitMergeQ := 0
  frozenCleanUnitsPerQ := fun _ => 0

/-- No list has confirmed yet. -/
def Oracles.waiting (oracleEventLists : List Addr) : Oracles where
  oracleEventsConfirmed := oracleEventLists.dedup.map fun a => (a, false)
  oracleEventsPubkeys := []
  oracleEventsAddress := fun _ => none
  numberOfOracleEvents := oracleEventLists.length
  approvedOracleEvents := 0
  countReleased := false
  timings := Tally.empty
  resolves := Tally.empty
  cancelOracleVoted := []
  cancelVoteCount := 0

/-- Figures after the constructor. -/
def Core.init (market : MarketId) (depositIdentifierHash : ℕ) (initialStakes : List ℕ) : Core where
  toPools := Pools.empty
  toRewards := Rewards.empty
  toBasket := Basket.empty
  market := market
  deployer := .note depositIdentifierHash
  initialStakes := initialStakes
  numOutcomes := 0
  approved := false
  stakeStart := 0
  resultStart := 0
  isCancelled := false
  orderBookDone := false
  destroyed := false

namespace Core

@[simps toPools toRewards toBasket market deployer initialStakes numOutcomes approved stakeStart
  resultStart isCancelled orderBookDone destroyed]
def setPools (c : Core) (p : Pools) : Core := { c with toPools := p }

@[simps toPools toRewards toBasket market deployer initialStakes numOutcomes approved stakeStart
  resultStart isCancelled orderBookDone destroyed]
def setRewards (c : Core) (r : Rewards) : Core := { c with toRewards := r }

@[simps toPools toRewards toBasket market deployer initialStakes numOutcomes approved stakeStart
  resultStart isCancelled orderBookDone destroyed]
def setBasket (c : Core) (b : Basket) : Core := { c with toBasket := b }

@[simps toPools toRewards toBasket market deployer initialStakes numOutcomes approved stakeStart
  resultStart isCancelled orderBookDone destroyed]
def destroy (c : Core) : Core := { c with destroyed := true }

@[simps toPools toRewards toBasket market deployer initialStakes numOutcomes approved stakeStart
  resultStart isCancelled orderBookDone destroyed]
def setNumOutcomes (c : Core) (n : ℕ) : Core := { c with numOutcomes := n }

@[simps toPools toRewards toBasket market deployer initialStakes numOutcomes approved stakeStart
  resultStart isCancelled orderBookDone destroyed]
def setTimings (c : Core) (stakeStart resultStart : ℕ) : Core :=
  { c with stakeStart := stakeStart, resultStart := resultStart, approved := true }

@[simps toPools toRewards toBasket market deployer initialStakes numOutcomes approved stakeStart
  resultStart isCancelled orderBookDone destroyed]
def cancel (c : Core) : Core := { c with isCancelled := true }

@[simps toPools toRewards toBasket market deployer initialStakes numOutcomes approved stakeStart
  resultStart isCancelled orderBookDone destroyed]
def setBookDone (c : Core) : Core := { c with orderBookDone := true }

def clearRefund (c : Core) : Core := c.setBasket { c.toBasket with normRefundPending := false }

end Core

namespace PMP

/-- Storage after the constructor, called by the note of `depositIdentifierHash`. -/
def init (market : MarketId) (depositIdentifierHash : ℕ) (oracleEventLists : List Addr)
    (initialStakes : List ℕ) : PMP where
  toCore := Core.init market depositIdentifierHash initialStakes
  toOracles := Oracles.waiting oracleEventLists
  shutdownTriggered := false
  actions := oracleEventLists.map .confirmEvent

def act (s : PMP) (a : PmpAction) : PMP := { s with actions := s.actions ++ [a] }

def emit (s : PMP) (e : PmpEvent) : PMP := s.act (.event e)

def send (s : PMP) (dest : Addr) (cb : PmpCallback) : PMP := s.act (.callback dest cb)

def setCore (s : PMP) (c : Core) : PMP := { s with toCore := c }

def setOracles (s : PMP) (o : Oracles) : PMP := { s with toOracles := o }

def setPools (s : PMP) (p : Pools) : PMP := s.setCore (s.toCore.setPools p)

def setRewards (s : PMP) (r : Rewards) : PMP := s.setCore (s.toCore.setRewards r)

/-- `selfdestruct`, the last thing a transaction does. -/
def selfdestruct (s : PMP) (dest : Addr) : PMP :=
  (s.setCore s.toCore.destroy).act (.selfdestruct dest)

end PMP

end Dexdo
