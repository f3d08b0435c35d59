import Dexdo.PMP.State

namespace Dexdo

namespace TypedPools

/-- Add one amount per outcome to the pools of a bet type. -/
def credit (f : TypedPools) (t : BetType) (xs : List ℕ) : TypedPools := fun k u =>
  if u = t then f k u + xs.getD k 0 else f k u

/-- Take one amount per outcome off the pools of a bet type; an underflow reverts. -/
def debit (f : TypedPools) (t : BetType) (xs : List ℕ) : Option TypedPools :=
  if ∀ k < xs.length, xs.getD k 0 ≤ f k t then
    some fun k u => if u = t then f k u - xs.getD k 0 else f k u
  else none

end TypedPools

namespace Pools

/-- Pool side of `approveEvent`: the deployer's initial stakes. -/
def creditInitial (p : Pools) (initialStakes : List ℕ) : Option Pools := do
  let initialTotal := initialStakes.sum
  let totalPool ← add128 p.totalPool initialTotal
  return { p with
    typedOutcomePools := p.typedOutcomePools.credit .clean initialStakes
    totalPool := totalPool
    totalCleanPool := p.totalCleanPool + initialTotal
    totalUnclaimedBalance := p.totalUnclaimedBalance + initialTotal }

/-- Totals an accepted stake counts in. Coupons move no collateral. -/
def creditTotals (p : Pools) (betType : BetType) (stakeAmount : ℕ) : Option Pools :=
  match betType with
  | .coupon => do
    let totalCouponPool ← add128 p.totalCouponPool stakeAmount
    return { p with totalCouponPool := totalCouponPool }
  | .clean => do
    let totalPool ← add128 p.totalPool stakeAmount
    return { p with
      totalCleanPool := p.totalCleanPool + stakeAmount
      totalPool := totalPool
      totalUnclaimedBalance := p.totalUnclaimedBalance + stakeAmount }
  | .debt => do
    let totalPool ← add128 p.totalPool stakeAmount
    return { p with
      totalDebtPool := p.totalDebtPool + stakeAmount
      totalPool := totalPool
      totalUnclaimedBalance := p.totalUnclaimedBalance + stakeAmount }
  | _ => return p

/-- Pool side of `acceptStake`. -/
def creditStake (p : Pools) (outcomeId : ℕ) (betType : BetType) (stakeAmount : ℕ) :
    Option Pools := do
  let p ← p.creditTotals betType stakeAmount
  let pool := p.typedOutcomePools outcomeId betType + stakeAmount
  return { p with typedOutcomePools := p.typedOutcomePools.set outcomeId betType pool }

/-- The coupon pool of an outcome stays within its share of the outcome. -/
def couponsFit (p : Pools) (outcomeId stakeAmount : ℕ) : Bool :=
  let f := p.typedOutcomePools outcomeId
  let newOutcomeTotal := f .coupon + f .debt + f .clean + stakeAmount
  decide (newOutcomeTotal < 2 ^ 128 ∧ f .coupon + stakeAmount ≤
    newOutcomeTotal * COUPON_POOL_LIMIT_PERCENT / FULL_PERCENT)

/-- Clamp of an outflow to what the PMP still holds. -/
def clamp (p : Pools) (amount : ℕ) : ℕ :=
  if p.totalUnclaimedBalance < amount then p.totalUnclaimedBalance else amount

/-- Collateral that leaves the PMP. -/
def payOut (p : Pools) (amount : ℕ) : Pools :=
  { p with totalUnclaimedBalance := p.totalUnclaimedBalance - amount }

/-- Pool decrements of `cancelStake`, one bet type at a time. -/
def debitStakes (p : Pools) (stakeAmount debtAmount couponsAmount : List ℕ) : Option Pools := do
  let f ← p.typedOutcomePools.debit .clean stakeAmount
  let f ← f.debit .debt debtAmount
  let f ← f.debit .coupon couponsAmount
  let totalPool ← sub128 p.totalPool (stakeAmount.sum + debtAmount.sum)
  let totalCleanPool ← sub128 p.totalCleanPool stakeAmount.sum
  let totalDebtPool ← sub128 p.totalDebtPool debtAmount.sum
  let totalCouponPool ← sub128 p.totalCouponPool couponsAmount.sum
  return { p with
    typedOutcomePools := f
    totalPool := totalPool
    totalCleanPool := totalCleanPool
    totalDebtPool := totalDebtPool
    totalCouponPool := totalCouponPool }

/-- Pool side of `forfeitStake`: pools stay, the abandoned amounts are recorded. -/
def forfeit (p : Pools) (byCreator : Bool) (stakeAmount debtAmount couponsAmount : List ℕ) :
    Pools :=
  { p with
    forfeited := ((p.forfeited.credit .clean stakeAmount).credit .debt debtAmount).credit .coupon
      couponsAmount
    creatorForfeitedClean := fun k =>
      p.creatorForfeitedClean k + if byCreator then stakeAmount.getD k 0 else 0 }

/-- What normalization takes off the clean pool of an outcome. -/
def remainder (p : Pools) (n g k : ℕ) : ℕ := if k < n then p.typedOutcomePools k .clean % g else 0

/-- What normalization refunds for each outcome. -/
def refundAmounts (p : Pools) (n g : ℕ) : List ℕ := (List.range n).map (p.remainder n g)

/-- Share of a remainder that comes off the creator's forfeited amount. -/
def cut (p : Pools) (n g k : ℕ) : ℕ :=
  if p.remainder n g k < p.creatorForfeitedClean k then p.remainder n g k
  else p.creatorForfeitedClean k

/-- Per-outcome loop of the normalization. -/
def trim (p : Pools) (n g : ℕ) : Pools :=
  { p with
    typedOutcomePools := fun k t =>
      if t = .clean then p.typedOutcomePools k t - p.remainder n g k else p.typedOutcomePools k t
    forfeited := fun k t =>
      if t = .clean then p.forfeited k t - p.cut n g k else p.forfeited k t
    creatorForfeitedClean := fun k => p.creatorForfeitedClean k - p.cut n g k }

/-- Normalization of the clean pools to multiples of `g`, with the refund it pays. -/
def normalize (p : Pools) (n g : ℕ) : Option (Pools × ℕ) := do
  let refundTotal := (p.refundAmounts n g).sum
  let p := p.trim n g
  if refundTotal = 0 then return (p, 0)
  let totalCleanPool ← sub128 p.totalCleanPool refundTotal
  let totalPool ← sub128 p.totalPool refundTotal
  let paid := p.clamp refundTotal
  return ({ p with totalCleanPool := totalCleanPool, totalPool := totalPool }.payOut paid, paid)

/-- Pool side of `splitFullSet`: `t` baskets of the given units are minted for `used`. -/
def mintSets (p : Pools) (amounts : List ℕ) (used : ℕ) : Option Pools := do
  let totalPool ← add128 p.totalPool used
  return { p with
    typedOutcomePools := p.typedOutcomePools.credit .clean amounts
    totalPool := totalPool
    totalCleanPool := p.totalCleanPool + amounts.sum
    totalUnclaimedBalance := p.totalUnclaimedBalance + used }

/-- Pool side of `mergeFullSet`, with the collateral it pays. -/
def burnSets (p : Pools) (actual : List ℕ) (collateral : ℕ) : Option (Pools × ℕ) := do
  let f ← p.typedOutcomePools.debit .clean actual
  let totalPool ← sub128 p.totalPool collateral
  let totalCleanPool ← sub128 p.totalCleanPool actual.sum
  let paid := p.clamp collateral
  return ({ p with
    typedOutcomePools := f
    totalPool := totalPool
    totalCleanPool := totalCleanPool }.payOut paid, paid)

/-- Forfeited stakes of the winning outcome. -/
def forfeitedWinMass (p : Pools) (outcomeId : ℕ) : ℕ :=
  p.forfeited outcomeId .clean + p.forfeited outcomeId .debt + p.forfeited outcomeId .coupon

/-- Debts given up on any outcome. -/
def forfeitedDebtTotal (p : Pools) (n : ℕ) : ℕ :=
  ((List.range n).map fun i => p.forfeited i .debt).sum

/-- Every stake that is not forfeited has been refunded. -/
def poolsEqualForfeited (p : Pools) (n : ℕ) : Bool :=
  (List.range n).all fun i => decide (p.typedOutcomePools i .clean ≤ p.forfeited i .clean ∧
    p.typedOutcomePools i .debt ≤ p.forfeited i .debt ∧
    p.typedOutcomePools i .coupon ≤ p.forfeited i .coupon)

end Pools

namespace Basket

/-- Gcd of the positive frozen pools. The inner loop is Euclid's algorithm. -/
def gcdOf (frozenCleanPools : ℕ → ℕ) (n : ℕ) : ℕ :=
  (List.range n).foldl (fun g k =>
    if frozenCleanPools k = 0 then g
    else if g = 0 then frozenCleanPools k else Nat.gcd g (frozenCleanPools k)) 0

/-- Shares of an outcome in one basket. -/
def unitsOf (frozenCleanPools : ℕ → ℕ) (n k : ℕ) : ℕ :=
  if k < n then frozenCleanPools k / gcdOf frozenCleanPools n else 0

/-- The basket built at freeze. -/
def build (frozenCleanPools : ℕ → ℕ) (n baseTotalPool : ℕ) (normRefundPending : Bool) : Basket where
  frozen := true
  normRefundPending := normRefundPending
  baseTotalPool := baseTotalPool
  frozenCleanPools := frozenCleanPools
  splitMergeQ := ((List.range n).map (unitsOf frozenCleanPools n)).sum
  frozenCleanUnitsPerQ := unitsOf frozenCleanPools n

/-- Amounts of `t` baskets, one for each outcome. -/
def amounts (b : Basket) (n t : ℕ) : List ℕ :=
  (List.range n).map fun k => t * b.frozenCleanUnitsPerQ k

/-- Whole baskets in `amount`; the greatest `uint128` when no outcome bounds their number. -/
def wholeSets (b : Basket) (n : ℕ) (amount : List ℕ) : ℕ :=
  (List.range n).foldl (fun t k =>
    let units := b.frozenCleanUnitsPerQ k
    if units = 0 then t
    else if amount.getD k 0 / units < t then amount.getD k 0 / units else t) (2 ^ 128 - 1)

end Basket

namespace Pools

variable (p : Pools) (outcomeId : ℕ)

def winClean : ℕ := p.typedOutcomePools outcomeId .clean
def winDebt : ℕ := p.typedOutcomePools outcomeId .debt
def winCoupon : ℕ := p.typedOutcomePools outcomeId .coupon
/-- Winning stakes that brought in collateral. -/
def realWinMass : ℕ := p.winClean outcomeId + p.winDebt outcomeId
/-- Stakes on the winning outcome. -/
def totalWinMass : ℕ := p.winClean outcomeId + p.winDebt outcomeId + p.winCoupon outcomeId

/-- Pool less the principal owed to clean and debt winners. -/
def profitBudget : ℕ :=
  if p.realWinMass outcomeId < p.totalPool then
    p.totalPool - p.winClean outcomeId - p.winDebt outcomeId
  else 0

/-- `FEE_PERCENT` of the pool, at most the profit there is. -/
def creatorFee : ℕ :=
  let fee := toUint128 (p.totalPool * FEE_PERCENT / FULL_PERCENT)
  if p.profitBudget outcomeId < fee then p.profitBudget outcomeId else fee

/-- Budget left for winners once the creator is paid. -/
def netBudget : ℕ := p.profitBudget outcomeId - p.creatorFee outcomeId

/-- Only coupons won, so their payout is not capped. -/
def onlyCouponWins : Bool :=
  decide (p.winClean outcomeId = 0 ∧ p.winDebt outcomeId = 0 ∧ 0 < p.winCoupon outcomeId)

/-- Payout of a coupon unit in percent, capped beside other winners. -/
def couponCoef : ℕ :=
  let profitPerUnit := toUint128 (p.netBudget outcomeId * FULL_PERCENT / p.totalWinMass outcomeId)
  if ¬ p.onlyCouponWins outcomeId ∧ COUPON_MAX_PAYOUT_MULTIPLIER < profitPerUnit then
    COUPON_MAX_PAYOUT_MULTIPLIER
  else profitPerUnit

/-- What all the winning coupons are paid. -/
def couponPaid : ℕ :=
  let paid := toUint128 (p.winCoupon outcomeId * p.couponCoef outcomeId / FULL_PERCENT)
  if p.netBudget outcomeId < paid then p.netBudget outcomeId else paid

/-- Budget left for clean and debt winners. -/
def realBudget : ℕ := p.netBudget outcomeId - p.couponPaid outcomeId

/-- Profit of a unit staked under debt, of which clean winners get a part. -/
def debtCoef : ℕ :=
  if 0 < p.realWinMass outcomeId then
    let baseRealPPU := toUint128 (p.realBudget outcomeId * FULL_PERCENT / p.realWinMass outcomeId)
    if 0 < p.winClean outcomeId then
      toUint128 (baseRealPPU * (FULL_PERCENT - DEBT_REDISTRIBUTION_PERCENT) / FULL_PERCENT)
    else baseRealPPU
  else 0

/-- Profit of all the winning debt stakes. -/
def debtProfit : ℕ :=
  if 0 < p.realWinMass outcomeId then
    let profit := toUint128 (p.winDebt outcomeId * p.debtCoef outcomeId / FULL_PERCENT)
    if p.realBudget outcomeId < profit then p.realBudget outcomeId else profit
  else 0

/-- The profit left for clean winners. -/
def profitToClean : ℕ := p.realBudget outcomeId - p.debtProfit outcomeId

/-- The sum and the casts of `resolve` that are not bounded by the pool do not throw. -/
def resolveFits : Bool :=
  decide (p.totalWinMass outcomeId < 2 ^ 128 ∧
    p.netBudget outcomeId * FULL_PERCENT / p.totalWinMass outcomeId < 2 ^ 128 ∧
    p.realBudget outcomeId * FULL_PERCENT / p.realWinMass outcomeId < 2 ^ 128)

/-- Figures of `resolve`. -/
def rewards : Rewards :=
  if p.totalWinMass outcomeId = 0 then
    { Rewards.empty with
      resolvedOutcome := some outcomeId
      debtRefundMode := decide (0 < p.totalDebtPool)
      debtRefundRemaining := p.totalDebtPool }
  else
    { Rewards.empty with
      resolvedOutcome := some outcomeId
      resolvedWinClean := p.winClean outcomeId
      totalWinPool := p.totalWinMass outcomeId
      creatorFee := p.clamp (p.creatorFee outcomeId)
      couponWinCoef := p.couponCoef outcomeId
      debtWinCoef := p.debtCoef outcomeId
      profitToClean := p.profitToClean outcomeId
      totalRewardsClean := p.winClean outcomeId + p.profitToClean outcomeId
      totalRewardsDebt := p.winDebt outcomeId + p.debtProfit outcomeId
      totalRewardsCoupon := p.couponPaid outcomeId }

end Pools

/-- What one claim pays. -/
structure Payout where
  clean : ℕ
  debt : ℕ
  coupon : ℕ
  debtPaid : ℕ
  deriving DecidableEq

namespace Payout

/-- What a claim is paid. -/
def total (q : Payout) : ℕ := q.clean + q.debt + q.coupon

/-- Clamp to the unclaimed balance: coupons are cut first, clean stakes last. -/
def clamp (q : Payout) (balance : ℕ) : Payout :=
  if balance < q.total then
    let deficit := q.total - balance
    let cutCoupon := if q.coupon < deficit then q.coupon else deficit
    let cutDebt := if q.debt < deficit - cutCoupon then q.debt else deficit - cutCoupon
    let left := deficit - cutCoupon - cutDebt
    let cutClean := if q.clean < left then q.clean else left
    ⟨q.clean - cutClean, q.debt - cutDebt, q.coupon - cutCoupon, q.debtPaid⟩
  else q

end Payout

namespace Rewards

variable (r : Rewards)

/-- A clean stake and its share of the profit. -/
def cleanPayout (stake : ℕ) : ℕ :=
  if 0 < r.resolvedWinClean ∧ 0 < stake then
    stake + toUint128 (stake * r.profitToClean / r.resolvedWinClean)
  else 0

/-- Profit on a debt stake. -/
def debtProfitOf (debt : ℕ) : ℕ := toUint128 (debt * r.debtWinCoef / FULL_PERCENT)

/-- A debt stake and its profit. -/
def debtPayout (debt : ℕ) : ℕ := if 0 < debt then debt + r.debtProfitOf debt else 0

/-- Implied repayment of a note's debt out of `profit`. -/
def debtPaidOf (profit : ℕ) : ℕ :=
  if 0 < r.resolvedWinClean then
    toUint128 (profit * DEBT_REDISTRIBUTION_PERCENT / (FULL_PERCENT - DEBT_REDISTRIBUTION_PERCENT))
  else 0

/-- Payment for a coupon stake. -/
def couponPayout (coupon : ℕ) : ℕ :=
  if 0 < coupon then toUint128 (coupon * r.couponWinCoef / FULL_PERCENT) else 0

/-- Payout by the formulas alone. -/
def payout (stake debt coupon : ℕ) : Payout :=
  ⟨r.cleanPayout stake, r.debtPayout debt, r.couponPayout coupon,
    if 0 < debt then r.debtPaidOf (r.debtProfitOf debt) else 0⟩

/-- The sums and the casts of a claim do not throw. -/
def payoutFits (stake debt coupon : ℕ) : Bool :=
  decide ((stake * r.profitToClean / r.resolvedWinClean < 2 ^ 128 ∧
      debt * r.debtWinCoef / FULL_PERCENT < 2 ^ 128 ∧
      coupon * r.couponWinCoef / FULL_PERCENT < 2 ^ 128) ∧
    (r.cleanPayout stake < 2 ^ 128 ∧ r.debtPayout debt < 2 ^ 128) ∧
    (0 < r.totalWinPool → stake + debt + coupon < 2 ^ 128))

/-- Caps of the three reward budgets. -/
def cap (debt : ℕ) (q : Payout) : Payout where
  clean := if r.totalRewardsClean < q.clean then r.totalRewardsClean else q.clean
  debt := if r.totalRewardsDebt < q.debt then r.totalRewardsDebt else q.debt
  coupon := if r.totalRewardsCoupon < q.coupon then r.totalRewardsCoupon else q.coupon
  debtPaid := if r.totalRewardsDebt < q.debt then
      r.debtPaidOf (if debt < r.totalRewardsDebt then r.totalRewardsDebt - debt else 0)
    else q.debtPaid

/-- Take a capped payout off the reward budgets. -/
def spend (q : Payout) : Rewards :=
  { r with
    totalRewardsClean := r.totalRewardsClean - q.clean
    totalRewardsDebt := r.totalRewardsDebt - q.debt
    totalRewardsCoupon := r.totalRewardsCoupon - q.coupon }

/-- Winning stakes a claim settles. -/
def settle (mass : ℕ) : Rewards :=
  { r with totalWinPool := if mass ≤ r.totalWinPool then r.totalWinPool - mass else 0 }

/-- What no claim has taken of the budgets. -/
def residual : ℕ := r.totalRewardsClean + r.totalRewardsDebt + r.totalRewardsCoupon

def drained : Rewards :=
  { r with totalRewardsClean := 0, totalRewardsDebt := 0, totalRewardsCoupon := 0 }

end Rewards

end Dexdo
