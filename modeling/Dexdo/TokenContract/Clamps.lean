import Dexdo.TokenContract.ExitCost

namespace Dexdo

namespace Purse

variable {p : Purse} {pay fee : ℕ}

/-- `charge` with nothing clamped: what the escrow does not cover fails. -/
def chargeFully (p : Purse) (pay fee : ℕ) : Option Purse := do
  let deposit ← sub128 p.deposit (pay + fee)
  return { p with
    deposit := deposit
    finalizedOwed := p.finalizedOwed + pay
    feeAccrued := p.feeAccrued + fee }

theorem chargeFully_eq (h : pay + fee ≤ p.deposit) :
    p.chargeFully pay fee = some (p.charge pay fee) := by
  unfold chargeFully sub128 charge clampPay
  rw [if_pos h, if_neg (Nat.not_lt_of_le h)]
  rfl

theorem charge_covered (h : pay + fee ≤ p.deposit) :
    (p.charge pay fee).deposit + (pay + fee) = p.deposit ∧
      (p.charge pay fee).feeAccrued = p.feeAccrued + fee := by
  unfold charge clampPay
  rw [if_neg (Nat.not_lt_of_le h)]
  exact ⟨Nat.sub_add_cancel h, rfl⟩

end Purse

namespace TokenContract

/-- Rebate of a close before it is clamped to the fees. -/
def rebateAsked (s : TokenContract) (clean : Bool) : ℕ :=
  if clean ∧ ¬ s.everDisputed then s.rebate s.ticksFinalized else 0

/-- A rebate leaves part of the fees to burn, wherever a tick was finalized. -/
def NetPositive (s : TokenContract) (clean : Bool) : Prop :=
  s.ticksFinalized = 0 ∨ s.rebateAsked clean < s.feeAccrued

instance (s : TokenContract) (clean : Bool) : Decidable (s.NetPositive clean) :=
  inferInstanceAs (Decidable (_ ∨ _))

/-- `settleFees` with nothing clamped: a rebate that leaves nothing to burn fails. -/
def netFees (s : TokenContract) (clean : Bool) : Option TokenContract := do
  guard (s.NetPositive clean)
  let rebate := s.rebateAsked clean
  let netBurn ← sub128 s.feeAccrued rebate
  let s ← (s.setPurse { s.toPurse with
    finalizedOwed := s.finalizedOwed + rebate }).burnShell netBurn
  return (s.setPurse { s.toPurse with feeAccrued := 0 }).reportFinalized

/- The entries that settle, with the clamps of the two charges left out and the fees settled by
`fees`. The charge of a resolved dispute keeps its own clamp. -/
namespace Unclamped

def chargeWeek (s : TokenContract) : Option TokenContract := do
  let p ← s.toPurse.chargeFully (s.payOf s.weekDue) (s.payFeeOf s.weekDue)
  return (s.setPurse p).setMeter s.toMeter.nextWeek

def chargeWeeks : ℕ → TokenContract → Option TokenContract
  | 0, s => some s
  | n + 1, s => do chargeWeeks n (← chargeWeek s)

def chargeWeeksThrough (s : TokenContract) (target : ℕ) : Option TokenContract :=
  if ¬ s.isSubscription ∨ ¬ s.probeAccepted then some s
  else chargeWeeks (target - s.weekIndex) s

def settleBoundaries (s : TokenContract) (due : ℕ) : Option TokenContract :=
  if due ≤ s.weekIndex then some s
  else do
    let s ← chargeWeeksThrough s due
    let s := s.emit (.tickFinalized s.finalizedOwed s.deposit)
    return (s.setMeter (s.toMeter.recordDelivered s.probeAccepted)).reportFinalized

def claimTokens (s : TokenContract) (caller : Caller) (now cumulativeTokens : ℕ) :
    Option TokenContract := do
  guard (caller.pubkey = s.sellerPubkey)
  guard (s.opened = true)
  guard (s.disputed = false)
  guard (s.probeAccepted = true)
  guard (s.tokensPend ≤ cumulativeTokens)
  if cumulativeTokens = s.tokensPend then return s
  let due ← s.weeksElapsedAt now
  (← settleBoundaries s due).pendClaim now cumulativeTokens

section

variable (fees : TokenContract → Bool → Option TokenContract)

def closeClean (s : TokenContract) : Option TokenContract := do
  let s := s.setPurse (s.toPurse.releaseProbe s.probeAccepted).releaseBuyerBond
  let s := s.setMeter (s.toMeter.recordDelivered s.probeAccepted)
  let refund := s.deposit
  let s := s.setPurse { s.toPurse.oweBond with deposit := 0 }
  let s := s.setStage { s.toStage with opened := false }
  let s ← fees s true
  let s ← s.payShell .buyer s.buyerAddr refund
  (s.emit (.streamStopped s.buyerAddr s.finalizedOwed refund)).payOwedAndDie

def payFinalAndClose (s : TokenContract) : Option TokenContract := do
  let owed := s.finalOwed
  let p ← s.toPurse.chargeFully (s.payOf owed) (s.payFeeOf owed)
  let s := s.setPurse p
  let s := if 0 < owed then s.setMeter { s.toMeter with tokensPaid := s.tokensFinal } else s
  closeClean fees s

def settleTrustedAndClose (s : TokenContract) (buyerStake sellerStake : ℕ) :
    Option TokenContract := do
  let s := s.setPurse (s.toPurse.releaseProbe s.probeAccepted)
  let e ← s.weeksElapsedAt s.disputeTime
  let s ← chargeWeeksThrough s e
  let owed := s.tokensFinal - s.claimBase
  let s := s.setPurse (s.toPurse.charge (s.payOf owed) (s.payFeeOf owed))
  let s := s.setMeter { s.toMeter.recordDelivered s.probeAccepted with
    tokensPaid := max s.tokensPaid s.tokensFinal }
  let s ← s.forfeitBonds buyerStake sellerStake
  let kept ← s.disputeRefund
  let s ← s.burnShell (s.deposit - kept)
  let refund := kept + s.buyerBond
  let s := s.setPurse { s.toPurse.oweBond with deposit := 0, buyerBond := 0 }
  let s := s.setStage { s.toStage with opened := false }
  let s ← fees s false
  let s ← s.payShell .buyer s.buyerAddr refund
  (s.emit (.disputeResolved s.finalizedOwed refund (decide (sellerStake = 0)))).payOwedAndDie

def finalize (s : TokenContract) (now : ℕ) : Option TokenContract := do
  guard (s.opened = true ∧ s.disputed = false)
  guard (s.tokensFinal < s.tokensPend ∧ s.lastClaimTime + CLAIM_PROMOTE_WINDOW ≤ now)
  let s := s.setMeter (s.toMeter.promoteDue now)
  if s.isSubscription = false ∧ s.fundedTokens ≤ s.tokensFinal then payFinalAndClose fees s
  else return s

def settleWeek (s : TokenContract) (now : ℕ) : Option TokenContract := do
  guard (s.isSubscription = true)
  guard (s.opened = true ∧ s.disputed = false)
  guard (s.probeAccepted = true)
  let due ← s.weeksElapsedAt now
  guard (s.weekIndex < due ∨ s.subWeeks ≤ s.weekIndex)
  let s ← settleBoundaries s due
  if s.subWeeks ≤ s.weekIndex ∧ s.lastClaimTime + CLAIM_PROMOTE_WINDOW ≤ now then
    payFinalAndClose fees (s.setMeter (s.toMeter.promoteDue now))
  else return s

def stop (s : TokenContract) (caller : Caller) (now : ℕ) : Option TokenContract := do
  guard (s.opened = true)
  guard (s.fromBuyer caller)
  guard (s.disputed = false)
  if s.probeAccepted = false then s.stopProbe
  else
    let s := s.setMeter (s.toMeter.promoteDue now)
    let s ← if s.isSubscription then some s
      else (s.setMeter s.toMeter.promote).forfeitBonds s.pricePerTick 0
    let started ← s.weeksStartedAt now
    payFinalAndClose fees (← chargeWeeksThrough s started)

def sellerStop (s : TokenContract) (caller : Caller) (now : ℕ) : Option TokenContract := do
  guard (caller.pubkey = s.sellerPubkey)
  guard (s.opened = true)
  guard (s.disputed = false)
  let s ← s.sellerForfeit now
  let elapsed ← s.weeksElapsedAt now
  payFinalAndClose fees (← chargeWeeksThrough s elapsed)

def releaseDispute (s : TokenContract) (caller : Caller) : Option TokenContract := do
  guard (caller.pubkey = s.sellerPubkey)
  guard (s.disputed = true)
  let e ← s.weeksElapsedAt s.disputeTime
  let s := (← chargeWeeksThrough s e).endDispute
  if s.isSubscription then settleTrustedAndClose fees s s.disputeStake 0
  else settleTrustedAndClose fees s s.pricePerTick s.pricePerTick

def resolveDisputeTimeout (s : TokenContract) (now : ℕ) : Option TokenContract := do
  guard (s.disputed = true)
  guard (s.disputeTime + DISPUTE_WINDOW ≤ now)
  let e ← s.weeksElapsedAt s.disputeTime
  let s ← chargeWeeksThrough s e
  if s.isSubscription then
    let d := s.disputeStake
    settleTrustedAndClose fees s.endDispute d d
  else
    let burnPend := s.pendingValue
    let s := s.endDispute
    let s ← (s.setPurse { s.toPurse with deposit := s.deposit - burnPend }).burnShell burnPend
    settleTrustedAndClose fees s (2 * s.pricePerTick) (2 * s.pricePerTick)

def exec (s : TokenContract) (caller : Caller) (now : ℕ) : DealCall → Option TokenContract
  | .claimTokens n => claimTokens s caller now n
  | .finalize => finalize fees s now
  | .settleWeek => settleWeek fees s now
  | .stop => stop fees s caller now
  | .sellerStop => sellerStop fees s caller now
  | .releaseDispute => releaseDispute fees s caller
  | .resolveDisputeTimeout => resolveDisputeTimeout fees s now
  | call => s.exec caller now call

def step (s : TokenContract) (i : Input) : Option TokenContract :=
  if s.destroyed then none else exec fees s.begin i.caller i.now i.call

end

end Unclamped

variable {s v w : TokenContract} {fees : TokenContract → Bool → Option TokenContract} {e : ℕ}

theorem rebateDue_eq {clean : Bool} (h : s.NetPositive clean) :
    s.rebateAsked clean ≤ s.feeAccrued ∧ s.rebateDue clean = s.rebateAsked clean := by
  have hle : s.rebateAsked clean ≤ s.feeAccrued := by
    rcases h with h | h
    · unfold rebateAsked
      rw [h]
      split_ifs
      · unfold Terms.rebate
        simp [toUint128]
      · exact Nat.zero_le _
    · exact h.le
  refine ⟨hle, ?_⟩
  unfold rebateAsked at hle
  unfold rebateDue rebateAsked
  split_ifs at hle ⊢
  · exact Nat.min_eq_left hle
  · rfl

theorem netFees_eq {clean : Bool} (h : s.NetPositive clean) :
    s.netFees clean = s.settleFees clean := by
  obtain ⟨hle, heq⟩ := rebateDue_eq h
  have hsub : sub128 s.feeAccrued (s.rebateAsked clean) =
      some (s.feeAccrued - s.rebateAsked clean) := if_pos hle
  unfold netFees settleFees
  dsimp only
  rw [heq, hsub]
  simp [h]

theorem netFees_none {clean : Bool} (h : ¬ s.NetPositive clean) : s.netFees clean = none := by
  unfold netFees
  simp [h]

/-- The deal as a clean close settles its fees. -/
def closing (s : TokenContract) : TokenContract :=
  let s := s.setPurse (s.toPurse.releaseProbe s.probeAccepted).releaseBuyerBond
  let s := s.setMeter (s.toMeter.recordDelivered s.probeAccepted)
  let s := s.setPurse { s.toPurse.oweBond with deposit := 0 }
  s.setStage { s.toStage with opened := false }

theorem closing_feeAccrued (s : TokenContract) : s.closing.feeAccrued = s.feeAccrued := by
  change (s.toPurse.releaseProbe s.probeAccepted).feeAccrued = _
  exact Purse.releaseProbe_feeAccrued _ _

theorem closeClean_agrees (h : fees s.closing true = s.closing.settleFees true) :
    Unclamped.closeClean fees s = s.closeClean := by
  change (fees s.closing true).bind _ = (s.closing.settleFees true).bind _
  rw [h]

theorem closeClean_none (h : fees s.closing true = none) :
    Unclamped.closeClean fees s = none := by
  change (fees s.closing true).bind _ = none
  rw [h]
  rfl

/-- The deal as a clean end closes it, everything final paid for. -/
def finalPaid (s : TokenContract) : TokenContract :=
  (s.setPurse s.finalPurse).setMeter
    { s.toMeter with tokensPaid := if 0 < s.finalOwed then s.tokensFinal else s.tokensPaid }

theorem payFinalAndClose_finalPaid (s : TokenContract) :
    s.payFinalAndClose = s.finalPaid.closeClean := by
  unfold payFinalAndClose finalPaid
  dsimp only
  split_ifs <;> rfl

theorem unclamped_finalPaid (h : s.valueOf s.finalOwed ≤ s.deposit) :
    Unclamped.payFinalAndClose fees s = Unclamped.closeClean fees s.finalPaid := by
  unfold Unclamped.payFinalAndClose
  dsimp only
  rw [Purse.chargeFully_eq h]
  change Unclamped.closeClean fees _ = _
  unfold finalPaid
  split_ifs <;> rfl

end TokenContract

end Dexdo
