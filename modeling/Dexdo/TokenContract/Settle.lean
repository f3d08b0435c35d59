import Dexdo.TokenContract.State

namespace Dexdo

namespace Purse

/-- `pay + fee` clamped to the deposit as one sum. -/
def clampPay (p : Purse) (pay fee : ℕ) : ℕ × ℕ :=
  if p.deposit < pay + fee then
    let fee := if p.deposit < fee then p.deposit else fee
    (p.deposit - fee, fee)
  else (pay, fee)

/-- Charge the escrow for service: `pay` is owed to the seller, `fee` accrues. -/
def charge (p : Purse) (pay fee : ℕ) : Purse :=
  let c := p.clampPay pay fee
  { p with
    deposit := p.deposit - (c.1 + c.2)
    finalizedOwed := p.finalizedOwed + c.1
    feeAccrued := p.feeAccrued + c.2 }

/-- An unaccepted probe returns to the escrow. -/
def releaseProbe (p : Purse) (probeAccepted : Bool) : Purse :=
  if probeAccepted then p else { p with deposit := p.deposit + p.probeTick, probeTick := 0 }

def releaseBuyerBond (p : Purse) : Purse :=
  { p with deposit := p.deposit + p.buyerBond, buyerBond := 0 }

/-- Take the given parts off the two bonds, as far as they reach. -/
def dropBonds (p : Purse) (fromBuyer fromSeller : ℕ) : Purse :=
  { p with
    buyerBond := p.buyerBond - min fromBuyer p.buyerBond
    sellerBond := p.sellerBond - min fromSeller p.sellerBond }

/-- What is left of the seller's bond becomes owed to him. -/
def oweBond (p : Purse) : Purse :=
  { p with finalizedOwed := p.finalizedOwed + p.sellerBond, sellerBond := 0 }

end Purse

namespace Meter

/-- The pending claim becomes final. -/
def promote (m : Meter) : Meter :=
  if m.tokensFinal < m.tokensPend then { m with tokensFinal := m.tokensPend } else m

/-- Promotion of a claim that has outlived its window at `time`. -/
def promoteDue (m : Meter) (time : ℕ) : Meter :=
  if m.lastClaimTime + CLAIM_PROMOTE_WINDOW ≤ time then m.promote else m

/-- Claims as a dispute raised at `disputeTime` leaves them. -/
def voidClaims (m : Meter) (disputeTime : ℕ) : Meter :=
  let m := if m.tokensFinal < m.tokensPend ∧
      m.lastClaimTime + CLAIM_PROMOTE_WINDOW ≤ disputeTime then
    { m with tokensFinal := m.tokensPend } else m
  { m with tokensPend := m.tokensFinal }

/-- Delivered volume in ticks. -/
def recordDelivered (m : Meter) (probeAccepted : Bool) : Meter :=
  let delivered := if probeAccepted ∧ m.tokensFinal < DEAL_TICK_SIZE then DEAL_TICK_SIZE
    else m.tokensFinal
  { m with ticksFinalized := delivered / DEAL_TICK_SIZE }

/-- Weeks of the term elapsed at `time`. -/
def weeksElapsedAt (m : Meter) (time : ℕ) : Option ℕ := do
  guard (m.periodStart ≤ time)
  return min ((time - m.periodStart) / SUB_WEEK_LEN) m.subWeeks

/-- Weeks begun at `time`. -/
def weeksStartedAt (m : Meter) (time : ℕ) : Option ℕ := do
  let e ← m.weeksElapsedAt time
  return if e < m.subWeeks then e + 1 else e

/-- Tokens owed for the next week: up to the term's total after it. -/
def weekDue (m : Meter) : ℕ := (m.weekIndex + 1) * m.tokensPerWeek - m.tokensPaid

def nextWeek (m : Meter) : Meter :=
  { m with
    tokensPaid := (m.weekIndex + 1) * m.tokensPerWeek
    weekIndex := m.weekIndex + 1
    weekBaseTokens := max m.tokensFinal m.tokensPend }

/-- Base the claims of a disputed week are measured from. -/
def claimBase (m : Meter) : ℕ :=
  if m.subWeeks ≠ 0 ∧ 0 < m.weekIndex then m.weekBaseTokens else m.tokensPaid

end Meter

namespace TokenContract

/-- Take `amount` off the balance and credit it to a note. -/
def payShell (s : TokenContract) (payee : Payee) (dest : Addr) (amount : ℕ) :
    Option TokenContract :=
  if amount = 0 then some s
  else do
    let balance ← sub128 s.balance amount
    return (s.setPurse { s.toPurse with balance := balance }).act
      (.creditFromDeal payee dest amount)

/-- Take `amount` off the balance for good and report it to RootPN. -/
def burnShell (s : TokenContract) (amount : ℕ) : Option TokenContract :=
  if amount = 0 then some s
  else do
    let balance ← sub128 s.balance amount
    return (s.setPurse { s.toPurse with balance := balance }).act (.reportDealWriteOff amount)

/-- Whatever is left on the balance follows the destruct. -/
def sweep (s : TokenContract) : Option TokenContract :=
  s.payShell .residual s.sellerNote s.balance

def announceClose (s : TokenContract) : TokenContract :=
  (match s.buyer with
    | some b => s.act (.onDealClosed b)
    | none => s).act (.onDealClosed s.sellerNote)

def die (s : TokenContract) : TokenContract :=
  ((s.announceClose.emit .contractDestroyed).act (.selfdestruct s.sellerNote)).setStage
    { s.toStage with destroyed := true }

def payOwedAndDie (s : TokenContract) : Option TokenContract := do
  let owed := s.finalizedOwed
  let s ← (s.setPurse { s.toPurse with finalizedOwed := 0 }).payShell .seller s.sellerNote owed
  let s ← s.sweep
  return s.die

def reportFinalized (s : TokenContract) : TokenContract :=
  if s.ticksFinalized = 0 ∨ s.iobHash = 0 then s
  else s.act (.reportFinalized s.orderBook s.pricePerTick s.ticksFinalized)

/-- Rebate of a close. -/
def rebateDue (s : TokenContract) (clean : Bool) : ℕ :=
  if clean ∧ ¬ s.everDisputed then min (s.rebate s.ticksFinalized) s.feeAccrued else 0

def settleFees (s : TokenContract) (clean : Bool) : Option TokenContract := do
  let rebate := s.rebateDue clean
  let netBurn := s.feeAccrued - rebate
  let s ← (s.setPurse { s.toPurse with
    finalizedOwed := s.finalizedOwed + rebate }).burnShell netBurn
  return (s.setPurse { s.toPurse with feeAccrued := 0 }).reportFinalized

/-- One week at the full quota. -/
def chargeWeek (s : TokenContract) : TokenContract :=
  (s.setPurse (s.toPurse.charge (s.payOf s.weekDue) (s.payFeeOf s.weekDue))).setMeter
    s.toMeter.nextWeek

def chargeWeeks : ℕ → TokenContract → TokenContract
  | 0, s => s
  | n + 1, s => chargeWeeks n s.chargeWeek

/-- Charge every unsettled week up to `target`. -/
def chargeWeeksThrough (s : TokenContract) (target : ℕ) : TokenContract :=
  if ¬ s.isSubscription ∨ ¬ s.probeAccepted then s
  else chargeWeeks (target - s.weekIndex) s

/-- Cross every week boundary up to `due`. -/
def settleBoundaries (s : TokenContract) (due : ℕ) : TokenContract :=
  if due ≤ s.weekIndex then s
  else
    let s := s.chargeWeeksThrough due
    let s := s.emit (.tickFinalized s.finalizedOwed s.deposit)
    (s.setMeter (s.toMeter.recordDelivered s.probeAccepted)).reportFinalized

/-- End of a deal no dispute was resolved in. -/
def closeClean (s : TokenContract) : Option TokenContract := do
  let s := s.setPurse (s.toPurse.releaseProbe s.probeAccepted).releaseBuyerBond
  let s := s.setMeter (s.toMeter.recordDelivered s.probeAccepted)
  let refund := s.deposit
  let s := s.setPurse { s.toPurse.oweBond with deposit := 0 }
  let s := s.setStage { s.toStage with opened := false }
  let s ← s.settleFees true
  let s ← s.payShell .buyer s.buyerAddr refund
  (s.emit (.streamStopped s.buyerAddr s.finalizedOwed refund)).payOwedAndDie

/-- Final tokens an ordinary deal still owes at its end. -/
def finalOwed (s : TokenContract) : ℕ :=
  if ¬ s.isSubscription then s.tokensFinal - s.tokensPaid else 0

/-- Credit everything final and unpaid, then close. -/
def payFinalAndClose (s : TokenContract) : Option TokenContract :=
  let owed := s.finalOwed
  let s := s.setPurse (s.toPurse.charge (s.payOf owed) (s.payFeeOf owed))
  let s := if 0 < owed then s.setMeter { s.toMeter with tokensPaid := s.tokensFinal } else s
  s.closeClean

/-- Value of everything claimed and not yet paid for. -/
def claimedUnpaidValue (s : TokenContract) : ℕ :=
  let tokens := s.tokensPend - s.claimBase
  s.payOf tokens + s.payFeeOf tokens

/-- Stake of a dispute. -/
def disputeStake (s : TokenContract) : ℕ :=
  let d := s.claimedUnpaidValue
  let d := if d < s.pricePerTick then s.pricePerTick else d
  let d := if s.bondAmount < d then s.bondAmount else d
  let mine := if s.isSubscription then s.buyerBond else s.deposit
  let d := if mine < d then mine else d
  if s.sellerBond < d then s.sellerBond else d

/-- Burn the given parts of the two bonds. -/
def forfeitBonds (s : TokenContract) (fromBuyer fromSeller : ℕ) : Option TokenContract :=
  let b := min fromBuyer s.buyerBond
  let x := min fromSeller s.sellerBond
  (s.setPurse (s.toPurse.dropBonds fromBuyer fromSeller)).burnShell (b + x)

/-- Escrow that returns when a disputed deal ends: on a subscription the weeks not begun. -/
def disputeRefund (s : TokenContract) : Option ℕ :=
  if s.isSubscription ∧ s.probeAccepted then do
    let started ← s.weeksStartedAt s.disputeTime
    let tokens := (s.subWeeks - started) * s.tokensPerWeek
    return min s.deposit (s.payOf tokens + s.payFeeOf tokens)
  else some s.deposit

/-- End of a disputed deal: pay what the claims prove, take the stakes, return the rest. -/
def settleTrustedAndClose (s : TokenContract) (buyerStake sellerStake : ℕ) :
    Option TokenContract := do
  let s := s.setPurse (s.toPurse.releaseProbe s.probeAccepted)
  let e ← s.weeksElapsedAt s.disputeTime
  let s := s.chargeWeeksThrough e
  let owed := s.tokensFinal - s.claimBase
  let s := s.setPurse (s.toPurse.charge (s.payOf owed) (s.payFeeOf owed))
  let s := s.setMeter { s.toMeter.recordDelivered s.probeAccepted with
    tokensPaid := max s.tokensPaid s.tokensFinal }
  let s ← s.forfeitBonds buyerStake sellerStake
  let kept ← s.disputeRefund
  let s ← s.burnShell (s.deposit - kept)
  let refund := kept + s.buyerBond
  let s := s.setPurse { s.toPurse.oweBond with deposit := 0, buyerBond := 0 }
  let s := s.setStage { s.toStage with opened := false }
  let s ← s.settleFees false
  let s ← s.payShell .buyer s.buyerAddr refund
  (s.emit (.disputeResolved s.finalizedOwed refund (decide (sellerStake = 0)))).payOwedAndDie

end TokenContract

end Dexdo
