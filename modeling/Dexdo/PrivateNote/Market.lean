import Dexdo.PrivateNote.State

namespace Dexdo.PrivateNote

/-- Owner call. `names` holds the hashes of the oracle names. -/
def deployPMP (s : PrivateNote) (eventId : ℕ) (oracleFee : List ℕ) (tokenType : ℕ)
    (names index initialStakes : List ℕ) : Option PrivateNote := do
  guard (s.hasWithdrawn = false)
  guard (0 < names.length ∧ names.length < 20)
  guard (names.length = oracleFee.length)
  guard (names.length = index.length)
  guard (0 < initialStakes.length ∧ initialStakes.length < 20)
  guard (s.debt = 0)
  guard (∀ x ∈ initialStakes, minStakeValue tokenType ≤ x)
  guard (∀ x ∈ initialStakes, x % lotSize tokenType = 0)
  let initialTotal ← sum128 initialStakes
  guard s.busy.isNone
  let sumFee ← sum128 oracleFee
  guard names.Nodup
  let fee ← add128 sumFee NETWORK_FEE_AMOUNT
  let m : MarketId := ⟨eventId, oracleListHashOf names, tokenType⟩
  guard (s.stakes.has m = false)
  let s ← s.debit tokenType initialTotal
  let r := StakeInfo.candidate m initialStakes.length initialTotal 0 .clean
  let s := (s.putStake (some m) r).occupy (.pmp m) m
  let lists := List.zipWith Addr.oracleEventList names index
  let s := s.emit (.pmpDeployed eventId tokenType (.pmp m) lists oracleFee)
  return s.act (.deployPMP m s.depositIdentifierHash lists oracleFee initialStakes fee)

/-- The PMP has opened with the stakes of its deployer. -/
def onInitialStakesAccepted (s : PrivateNote) (caller : Caller) (m : MarketId)
    (amounts : List ℕ) : Option PrivateNote := do
  guard (s.latched caller)
  let r := s.stakes.read m
  guard (amounts.length ≤ r.amount.length)
  let r := { r with amount := amounts ++ r.amount.drop amounts.length, candidateAmount := 0 }
  return (s.putStake (some m) r).free

/-- The initial stakes come back, once: with them the record goes. -/
def refundStake (s : PrivateNote) (m : MarketId) (refundTotal : ℕ) : Option PrivateNote :=
  if s.stakes.has m then (s.credit m.tokenType refundTotal).map (dropStake · (some m))
  else some s

/-- The PMP gave up: its deployer gets the stakes back. -/
def onInitialStakesFailed (s : PrivateNote) (caller : Caller) (m : MarketId) (refundTotal : ℕ) :
    Option PrivateNote := do
  guard (caller.isSender (.pmp m))
  let s ← s.refundStake m refundTotal
  return if s.busy = some (.pmp m) then s.free else s

/-- Part of the initial stakes comes back, as far as the record still holds it. -/
def cleanRefund (s : PrivateNote) (m : MarketId) (refundAmounts : List ℕ) (refundTotal : ℕ) :
    Option PrivateNote :=
  if s.stakes.has m then do
    let r := s.stakes.read m
    let applied ← sum128 (List.zipWith min r.amount refundAmounts)
    let s := s.putStake (some m) { r with amount := capEach r.amount refundAmounts }
    s.credit m.tokenType (min applied refundTotal)
  else some s

/-- The refund of the normalization. -/
def onPmpCleanRefund (s : PrivateNote) (caller : Caller) (m : MarketId) (refundAmounts : List ℕ)
    (refundTotal : ℕ) : Option PrivateNote := do
  guard (caller.isSender (.pmp m))
  let s ← s.cleanRefund m refundAmounts refundTotal
  return s.act (.pmp m (.confirmRefundReceived s.depositIdentifierHash))

/-- Has the PMP forfeit a record. -/
def deleteStake (s : PrivateNote) (m : MarketId) : Option PrivateNote := do
  guard s.busy.isNone
  guard (s.stakes.has m)
  guard (s.openOrdersByEvent.read m = 0)
  let r := s.stakes.read m
  let dest : MarketId := { m with oracleListHash := r.oracleListHash }
  let s := s.occupy (.pmp dest) m
  let s := s.setPending { s.toPending with pendingForfeit := true }
  return s.act (.pmp dest
    (.forfeitStake r.amount r.debtAmount r.couponsAmount s.depositIdentifierHash))

/-- The PMP has taken note: the record goes. -/
def onForfeitAccepted (s : PrivateNote) (caller : Caller) : Option PrivateNote := do
  guard (s.latched caller)
  let s := (s.emit (.stakeForfeitConfirmed s.busy s.lastHash)).dropStake s.lastHash
  return (s.setPending { s.toPending with pendingForfeit := false }).freeOp

/-- Asks a cancelled market for the stakes. -/
def cancelStake (s : PrivateNote) (m : MarketId) : Option PrivateNote := do
  guard (s.hasWithdrawn = false)
  guard s.busy.isNone
  guard (s.stakes.has m)
  guard (s.openOrdersByEvent.read m = 0)
  let r := s.stakes.read m
  let dest : MarketId := { m with oracleListHash := r.oracleListHash }
  let s := s.occupy (.pmp dest) m
  return s.act (.pmp dest
    (.cancelStake r.amount r.debtAmount r.couponsAmount s.depositIdentifierHash))

/-- Coupon value that comes back from a stake. -/
def returnCoupon (s : PrivateNote) (tokenType couponValue : ℕ) : Option PrivateNote :=
  if 0 < couponValue then do
    let v ← add128 s.couponsValue couponValue
    return s.setFunds { s.toFunds with
      couponsTokenType := if s.couponsValue = 0 then tokenType else s.couponsTokenType
      couponsValue := v }
  else some s

/-- The refund of a cancelled market. -/
def onStakeCancelled (s : PrivateNote) (caller : Caller) (m : MarketId)
    (value couponValue : ℕ) : Option PrivateNote := do
  guard (s.latched caller)
  let s ← (s.dropStake (some m)).credit m.tokenType value
  let s ← s.returnCoupon m.tokenType couponValue
  return (s.emit (.stakeCancelled s.busy value)).free

/-- Asks for baskets. -/
def splitFullSet (s : PrivateNote) (m : MarketId) (collateral : ℕ) : Option PrivateNote := do
  guard s.busy.isNone
  guard (s.hasWithdrawn = false)
  guard (0 < collateral)
  guard (s.debt = 0)
  let s ← s.debit m.tokenType collateral
  let s := s.occupy (.pmp m) m
  let s := s.putStake (some m) { s.stakes.read m with
    candidateAmount := collateral
    candidateBetType := .clean
    oracleListHash := m.oracleListHash
    tokenType := m.tokenType }
  return s.act (.pmp m (.splitFullSet collateral s.depositIdentifierHash))

/-- The baskets are in, and what they did not use returns. -/
def onSplitAccepted (s : PrivateNote) (caller : Caller) (m : MarketId) (amounts : List ℕ)
    (collateralUsed : ℕ) : Option PrivateNote := do
  guard (s.latched caller)
  let r := (s.stakes.read m).sized amounts.length
  let amount ← addEach r.amount amounts
  let s ← s.creditPositive m.tokenType (r.candidateAmount - collateralUsed)
  let s := s.putStake (some m) { r with amount := amount, candidateAmount := 0 }
  return (s.emit (.fullSetStakeConfirmed s.busy amounts)).free

/-- Hands baskets in. -/
def mergeFullSet (s : PrivateNote) (m : MarketId) (amount : List ℕ) : Option PrivateNote := do
  guard s.busy.isNone
  guard (s.hasWithdrawn = false)
  guard (0 < amount.length)
  guard (s.debt = 0)
  guard (s.stakes.has m)
  let r := s.stakes.read m
  guard (amount.length = r.amount.length)
  let _ ← subEach r.amount amount
  let total ← sum128 amount
  let s := s.putStake (some m) { r with candidateAmount := total, candidateBetType := .merge }
  let s := s.occupy (.pmp m) m
  return s.act (.pmp m (.mergeFullSet amount s.depositIdentifierHash))

/-- After a merge the record stays while it holds a stake or the market has open orders. -/
def onMergeAccepted (s : PrivateNote) (caller : Caller) (m : MarketId) (collateral : ℕ)
    (amounts : List ℕ) : Option PrivateNote := do
  guard (s.latched caller)
  let r := s.stakes.read m
  let amount ← subEach r.amount amounts
  let isEmpty := (List.range amounts.length).all fun i =>
    amount.getD i 0 = 0 ∧ r.debtAmount.getD i 0 = 0 ∧ r.couponsAmount.getD i 0 = 0
  let s := if isEmpty = true ∧ s.openOrdersByEvent.read m = 0 then s.dropStake (some m)
    else s.putStake (some m) { r with amount := amount, candidateAmount := 0 }
  let s ← s.credit m.tokenType collateral
  return (s.emit (.fullSetStakeCancelled s.busy collateral)).free

/-- Bet type of a new stake. -/
def betTypeOf (s : PrivateNote) (tokenType : ℕ) (useCoupon : Bool) : BetType :=
  if useCoupon then .coupon
  else if 0 < s.debt ∧ s.debtTokenType = tokenType then .debt
  else .clean

/-- The record a stake waits in. -/
def stakeCandidate (s : PrivateNote) (m : MarketId) (outcome amount : ℕ) (betType : BetType) :
    Option StakeInfo :=
  if s.stakes.has m then do
    let r := s.stakes.read m
    guard (r.candidateAmount = 0)
    return { r with
      candidateAmount := amount, candidateOutcome := outcome, candidateBetType := betType }
  else some (.candidate m 0 amount outcome betType)

/-- A stake is paid from the coupon or from the balance. -/
def payStake (s : PrivateNote) (tokenType amount : ℕ) (useCoupon : Bool) : Option PrivateNote :=
  if useCoupon then do
    guard (tokenType = s.couponsTokenType)
    let v ← sub128 s.couponsValue amount
    return s.setFunds { s.toFunds with couponsValue := v }
  else s.debit tokenType amount

/-- Stakes on an outcome, from the balance or with the coupon. -/
def setStake (s : PrivateNote) (m : MarketId) (outcome amount : ℕ) (useCoupon : Bool) :
    Option PrivateNote := do
  guard (s.hasWithdrawn = false)
  guard (minStakeValue m.tokenType ≤ amount)
  guard (amount % lotSize m.tokenType = 0)
  guard s.busy.isNone
  let betType := s.betTypeOf m.tokenType useCoupon
  let r ← s.stakeCandidate m outcome amount betType
  let s ← s.payStake m.tokenType amount useCoupon
  let s := (s.putStake (some m) r).occupy (.pmp m) m
  return s.act (.pmp m (.acceptStake outcome amount s.depositIdentifierHash betType))

/-- The candidate amount moves into the array of its bet type. -/
def confirmStake (r : StakeInfo) (betType : BetType) : Option StakeInfo :=
  match betType with
  | .coupon => do
    return { r with
      couponsAmount := ← addAt r.couponsAmount r.candidateOutcome r.candidateAmount }
  | .debt => do
    return { r with debtAmount := ← addAt r.debtAmount r.candidateOutcome r.candidateAmount }
  | _ => do return { r with amount := ← addAt r.amount r.candidateOutcome r.candidateAmount }

/-- The candidate is booked under the kind of stake the PMP says. -/
def onStakeAccepted (s : PrivateNote) (caller : Caller) (m : MarketId) (outcomeCount : ℕ)
    (betType : BetType) : Option PrivateNote := do
  guard (s.latched caller)
  let r := (s.stakes.read m).sized outcomeCount
  let r' ← confirmStake r betType
  let s := s.putStake (some m) { r' with candidateAmount := 0 }
  return (s.emit (.stakeConfirmed s.busy r.candidateOutcome r.candidateAmount betType)).free

/-- Hands in the record of a market. -/
def claim (s : PrivateNote) (m : MarketId) : Option PrivateNote := do
  guard (s.stakes.has m)
  let r := s.stakes.read m
  guard (s.hasWithdrawn = false)
  guard s.busy.isNone
  guard (r.candidateAmount = 0)
  guard (s.openOrdersByEvent.read m = 0)
  let dest : MarketId := ⟨m.eventId, r.oracleListHash, r.tokenType⟩
  let s := s.occupy (.pmp dest) m
  return s.act (.pmp dest (.claim r.amount r.debtAmount r.couponsAmount s.depositIdentifierHash))

/-- The payout; the debt moves by what coupons won and debt stakes repaid. -/
def onClaimAccepted (s : PrivateNote) (caller : Caller) (m : MarketId) (outcome : Option ℕ)
    (payoutClean payoutDebt payoutCoupon debtPaid : ℕ) : Option PrivateNote := do
  guard (s.latched caller)
  if outcome.isNone then return s.free
  let payout ← sum128 [payoutClean, payoutDebt, payoutCoupon]
  let s ← s.credit m.tokenType payout
  let debt ← add128 s.debt payoutCoupon
  let s := s.setFunds { s.toFunds with debt := debt - debtPaid }
  return ((s.emit (.claimAccepted s.busy outcome payout)).dropStake (some m)).free

/-- What the PMP sends its deployer. -/
def acceptFee (s : PrivateNote) (caller : Caller) (m : MarketId) (fee : ℕ) :
    Option PrivateNote := do
  guard (caller.isSender (.pmp m))
  if s.hasWithdrawn then return s
  s.credit m.tokenType fee

/-- Callback of the PMP of market `m`. -/
def fromPMP (s : PrivateNote) (caller : Caller) (m : MarketId) : PmpCallback → Option PrivateNote
  | .onInitialStakesAccepted amounts => s.onInitialStakesAccepted caller m amounts
  | .onInitialStakesFailed total => s.onInitialStakesFailed caller m total
  | .onPmpCleanRefund amounts total => s.onPmpCleanRefund caller m amounts total
  | .onForfeitAccepted => s.onForfeitAccepted caller
  | .onStakeCancelled value coupon => s.onStakeCancelled caller m value coupon
  | .onSplitAccepted amounts used => s.onSplitAccepted caller m amounts used
  | .onMergeAccepted collateral amounts => s.onMergeAccepted caller m collateral amounts
  | .onStakeAccepted n betType => s.onStakeAccepted caller m n betType
  | .onClaimAccepted k a d c p => s.onClaimAccepted caller m k a d c p
  | .acceptFee fee => s.acceptFee caller m fee

end Dexdo.PrivateNote
