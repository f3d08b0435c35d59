import Dexdo.PMP.Entry
import Dexdo.Lib.Run

namespace Dexdo

/-- Callbacks with their destinations, oldest first. -/
abbrev Mail := List (Addr × PmpCallback)

/-- The callback among the actions of a PMP. -/
def PmpAction.callback? : PmpAction → Option (Addr × PmpCallback)
  | .callback dest cb => some (dest, cb)
  | _ => none

namespace PMP

/-- Callbacks of the current transaction. -/
def sent (s : PMP) : Mail := s.actions.filterMap PmpAction.callback?

variable (s : PMP)

@[simp] theorem act_core (a : PmpAction) : (s.act a).toCore = s.toCore := rfl
@[simp] theorem act_sent (a : PmpAction) : (s.act a).sent = s.sent ++ a.callback?.toList := by
  cases h : a.callback? <;> simp [sent, act, h]
@[simp] theorem emit_core (e : PmpEvent) : (s.emit e).toCore = s.toCore := rfl
@[simp] theorem emit_sent (e : PmpEvent) : (s.emit e).sent = s.sent := by
  simp [emit, PmpAction.callback?]
@[simp] theorem send_core (a : Addr) (cb : PmpCallback) : (s.send a cb).toCore = s.toCore := rfl
@[simp] theorem send_sent (a : Addr) (cb : PmpCallback) :
    (s.send a cb).sent = s.sent ++ [(a, cb)] := by
  simp [send, PmpAction.callback?]
@[simp] theorem setCore_core (c : Core) : (s.setCore c).toCore = c := rfl
@[simp] theorem setCore_sent (c : Core) : (s.setCore c).sent = s.sent := rfl
@[simp] theorem setOracles_core (o : Oracles) : (s.setOracles o).toCore = s.toCore := rfl
@[simp] theorem setOracles_sent (o : Oracles) : (s.setOracles o).sent = s.sent := rfl
@[simp] theorem setPools_core (p : Pools) :
    (s.setPools p).toCore = s.toCore.setPools p := rfl
@[simp] theorem setPools_sent (p : Pools) : (s.setPools p).sent = s.sent := rfl
@[simp] theorem setRewards_core (r : Rewards) :
    (s.setRewards r).toCore = s.toCore.setRewards r := rfl
@[simp] theorem setRewards_sent (r : Rewards) : (s.setRewards r).sent = s.sent := rfl
@[simp] theorem selfdestruct_core (a : Addr) :
    (s.selfdestruct a).toCore = s.toCore.destroy := rfl
@[simp] theorem selfdestruct_sent (a : Addr) : (s.selfdestruct a).sent = s.sent := by
  simp [selfdestruct, PmpAction.callback?]
@[simp] theorem cancelLists_core : s.cancelLists.toCore = s.toCore := rfl
@[simp] theorem cancelLists_sent : s.cancelLists.sent = s.sent := by
  have h : (s.confirmedLists.map PmpAction.cancelEvent).filterMap PmpAction.callback? = [] := by
    simp [List.filterMap_map, Function.comp_def, PmpAction.callback?]
  simp [sent, cancelLists, List.filterMap_append, h]
@[simp] theorem begin_core : s.begin.toCore = s.toCore := rfl
@[simp] theorem begin_sent : s.begin.sent = [] := rfl

@[simp] theorem ensureBalance_core (now : ℕ) : (s.ensureBalance now).toCore = s.toCore := by
  unfold ensureBalance triggerOrderBookShutdown
  split_ifs <;> rfl

@[simp] theorem ensureBalance_sent (now : ℕ) : (s.ensureBalance now).sent = s.sent := by
  unfold ensureBalance triggerOrderBookShutdown
  split_ifs
  · rfl
  · simp [PmpAction.callback?]
    rfl

@[simp] theorem releaseOracleCounts_core : s.releaseOracleCounts.toCore = s.toCore := by
  unfold releaseOracleCounts
  split_ifs <;> rfl

@[simp] theorem releaseOracleCounts_sent : s.releaseOracleCounts.sent = s.sent := by
  unfold releaseOracleCounts
  split_ifs
  · rfl
  · simp
    rfl

@[simp] theorem refundInitialStakes_core : s.refundInitialStakes.toCore = s.toCore := rfl
@[simp] theorem refundInitialStakes_sent : s.refundInitialStakes.sent =
    s.sent ++ [(s.deployer, .onInitialStakesFailed s.initialStakes.sum)] := by
  simp [refundInitialStakes]

end PMP

namespace Core

/-- Sweep of the whole balance at a close. -/
def residualClose (c : Core) : Core × Mail :=
  if 0 < c.totalUnclaimedBalance then
    ((c.setPools (c.toPools.payOut c.totalUnclaimedBalance)).destroy,
      [(c.deployer, .acceptFee c.totalUnclaimedBalance)])
  else (c.destroy, [])

/-- Sweep of the reward budgets at a close. -/
def winClose (c : Core) : Core × Mail :=
  let residual := c.toPools.clamp c.toRewards.residual
  let d := c.setRewards c.toRewards.drained
  if 0 < residual then
    ((d.setPools (c.toPools.payOut residual)).destroy, [(c.deployer, .acceptFee residual)])
  else (d.destroy, [])

/-- The last claim closes the market. -/
def closeWin (c : Core) (outcomeId : ℕ) : Core × Mail :=
  if c.totalWinPool ≤ c.toPools.forfeitedWinMass outcomeId then c.winClose else (c, [])

/-- The last refund of debts closes the market. -/
def closeDebtRefund (c : Core) : Core × Mail :=
  if c.debtRefundRemaining ≤ c.toPools.forfeitedDebtTotal c.numOutcomes then c.residualClose
  else (c, [])

/-- The last refund of a cancelled market closes it. -/
def closeCancelled (c : Core) : Core × Mail :=
  if c.toPools.poolsEqualForfeited c.numOutcomes then c.residualClose else (c, [])

/-- The close of the state the market is in. -/
def tryClose (c : Core) : Core × Mail :=
  match c.resolvedOutcome with
  | some outcomeId =>
    if ¬ c.orderBookDone then (c, [])
    else if c.debtRefundMode then c.closeDebtRefund else c.closeWin outcomeId
  | none =>
    if ¬ c.isCancelled then (c, [])
    else if c.frozen ∧ ¬ c.orderBookDone then (c, []) else c.closeCancelled

end Core

namespace PMP

variable (s : PMP)

/-- A function on the storage acts on the stakes as `f` does, and sends what `f` sends. -/
def Tracks (s t : PMP) (r : Core × Mail) : Prop := t.toCore = r.1 ∧ t.sent = s.sent ++ r.2

theorem finalizeResidualClose_tracks : Tracks s s.finalizeResidualClose s.toCore.residualClose := by
  unfold finalizeResidualClose Core.residualClose Tracks
  by_cases h : 0 < s.totalUnclaimedBalance <;> simp [h]

theorem finalizeWinClose_tracks : Tracks s s.finalizeWinClose s.toCore.winClose := by
  unfold finalizeWinClose Core.winClose Tracks
  by_cases h : 0 < s.toPools.clamp s.toRewards.residual <;> simp [h]

theorem closeWin_tracks (k : ℕ) : Tracks s (s.closeWin k) (s.toCore.closeWin k) := by
  unfold closeWin Core.closeWin
  split_ifs
  · exact s.finalizeWinClose_tracks
  · simp [Tracks]

theorem closeDebtRefund_tracks : Tracks s s.closeDebtRefund s.toCore.closeDebtRefund := by
  unfold closeDebtRefund Core.closeDebtRefund
  split_ifs
  · exact s.finalizeResidualClose_tracks
  · simp [Tracks]

theorem closeCancelled_tracks : Tracks s s.closeCancelled s.toCore.closeCancelled := by
  unfold closeCancelled Core.closeCancelled
  split_ifs
  · exact s.finalizeResidualClose_tracks
  · simp [Tracks]

theorem tryClose_tracks : Tracks s s.tryClose s.toCore.tryClose := by
  unfold tryClose Core.tryClose
  cases h : s.resolvedOutcome with
  | some k =>
    dsimp only
    split_ifs
    · exact s.closeDebtRefund_tracks
    · exact s.closeWin_tracks k
    · simp [Tracks]
  | none =>
    dsimp only
    split_ifs
    · simp [Tracks]
    · exact s.closeCancelled_tracks
    · simp [Tracks]

end PMP

namespace Core

/-- The first approval opens the pools. -/
def openWith (c : Core) (p : Pools) : Core := (c.setNumOutcomes c.initialStakes.length).setPools p

/-- Refund of a normalization, if there is any. -/
def refundMail (c : Core) (g paid : ℕ) : Mail :=
  if 0 < (c.toPools.refundAmounts c.numOutcomes g).sum then
    [(c.deployer, .onPmpCleanRefund (c.toPools.refundAmounts c.numOutcomes g) paid)]
  else []

/-- Baskets of the pools as the freeze finds them. -/
def frozenBasket (c : Core) (g : ℕ) (p : Pools) : Basket :=
  Basket.build (fun k => if k < c.numOutcomes then p.typedOutcomePools k .clean else 0)
    c.numOutcomes c.totalPool
    (c.normRefundPending || decide (0 < (c.toPools.refundAmounts c.numOutcomes g).sum))

/-- Stakes after the freeze. -/
def freeze (c : Core) (g : ℕ) (p : Pools) : Core := (c.setPools p).setBasket (c.frozenBasket g p)

/-- The fee of the deployer, where there is one. -/
def feeMail (c : Core) : Mail :=
  if 0 < c.creatorFee then [(c.deployer, .acceptFee c.creatorFee)] else []

/-- Stakes after a resolution. -/
def resolve (c : Core) (k : ℕ) : Core :=
  let d := c.setRewards (c.toPools.rewards k)
  if 0 < d.creatorFee then d.setPools (c.toPools.payOut d.creatorFee) else d

/-- Debt a claim gets back when no stake has won. -/
def debtOwed (c : Core) (debtAmount : List ℕ) : ℕ :=
  c.toPools.clamp (if c.debtRefundRemaining < debtAmount.sum then c.debtRefundRemaining
    else debtAmount.sum)

/-- A debt is refunded out of what is set aside. -/
def refundDebt (c : Core) (paid : ℕ) : Core :=
  (c.setRewards { c.toRewards with debtRefundRemaining := c.debtRefundRemaining - paid }).setPools
    (c.toPools.payOut paid)

/-- Payout of a claim after the budget caps. -/
def capped (c : Core) (stake debt coupon : ℕ) : Payout :=
  c.toRewards.cap debt (c.toRewards.payout stake debt coupon)

/-- What a winning claim is paid. -/
def paid (c : Core) (stake debt coupon : ℕ) : Payout :=
  (c.capped stake debt coupon).clamp c.totalUnclaimedBalance

/-- Stakes after a winning claim is paid, before the close test. -/
def payWin (c : Core) (stake debt coupon : ℕ) : Core :=
  (c.setRewards ((c.toRewards.spend (c.capped stake debt coupon)).settle
    (stake + debt + coupon))).setPools (c.toPools.payOut (c.paid stake debt coupon).total)

end Core

/-- `_ensureFrozen` on the stakes: nothing, or the freeze. -/
inductive MaybeFreeze (c : Core) : Mail → Core → Prop
  | skip : MaybeFreeze c [] c
  | freeze (g paid : ℕ) (p : Pools) (h0 : c.frozen = false) (ha : c.approved = true)
      (hc : c.isCancelled = false) (hg : c.initialStakes.min? = some g) (hpos : 0 < g)
      (hp : c.toPools.normalize c.numOutcomes g = some (p, paid)) :
      MaybeFreeze c (c.refundMail g paid) (c.freeze g p)

/-- Calls that can end a PMP before its market has started. -/
def PmpCall.aborts : PmpCall → Bool
  | .rejectEvent | .approveEvent .. | .onBounce => true
  | _ => false

/-- What an accepted transaction does to the stakes, with the callbacks it sends. -/
inductive Effect (c : Core) (i : PMP.Input) : Mail → Core → Prop
  | idle : Effect c i [] c
  | abort (n : ℕ) (os : Mail) (hcall : i.call.aborts = true)
      (ho : os = [] ∨ os = [(c.deployer, .onInitialStakesFailed c.initialStakes.sum)]) :
      Effect c i os (c.setNumOutcomes n).destroy
  | opened (p : Pools) (ha : c.approved = false) (hpos : ∀ x ∈ c.initialStakes, 0 < x)
      (hp : c.toPools.creditInitial c.initialStakes = some p) :
      Effect c i [(c.deployer, .onInitialStakesAccepted c.initialStakes)]
        (c.openWith p)
  | openedAbort (p : Pools) (hcall : i.call.aborts = true)
      (hp : c.toPools.creditInitial c.initialStakes = some p) :
      Effect c i [(c.deployer, .onInitialStakesAccepted c.initialStakes),
        (c.deployer, .onInitialStakesFailed c.initialStakes.sum)]
        (c.openWith p).destroy
  | timings (st rs : ℕ) (os : Mail) (d : Core) (hu : c.resolvedOutcome = none)
      (hf : MaybeFreeze (c.setTimings st rs) os d) : Effect c i os d
  | cancelled (hu : c.resolvedOutcome = none) (hc : c.isCancelled = false) : Effect c i [] c.cancel
  | stake (k a h : ℕ) (t : BetType) (p : Pools) (hcall : i.call = .acceptStake k a h t)
      (hs : i.sender = .note h) (ha : c.approved = true) (hc : c.isCancelled = false)
      (hu : c.resolvedOutcome = none) (hk : k < c.numOutcomes) (hf : c.frozen = false)
      (ht : t.isStake = true)
      (hcr : t ≠ .clean ∨ Addr.note h ≠ c.deployer ∨ c.creatorForfeitedClean k = 0)
      (hp : c.toPools.creditStake k t a = some p) :
      Effect c i [(.note h, .onStakeAccepted c.numOutcomes t)] (c.setPools p)
  | refund (a d b : List ℕ) (h : ℕ) (e : Core) (p : Pools) (hcall : i.call = .cancelStake a d b h)
      (hs : i.sender = .note h)
      (he : e = c ∨ (c.resolvedOutcome = none ∧ c.isCancelled = false ∧ e = c.cancel))
      (hc : e.isCancelled = true) (hb : e.frozen = false ∨ e.orderBookDone = true)
      (hn : e.normRefundPending = false ∨ Addr.note h ≠ e.deployer)
      (hp : e.toPools.debitStakes a d b = some p) :
      Effect c i ((.note h, .onStakeCancelled (p.clamp (a.sum + d.sum)) b.sum) ::
          (e.setPools (p.payOut (p.clamp (a.sum + d.sum)))).closeCancelled.2)
        (e.setPools (p.payOut (p.clamp (a.sum + d.sum)))).closeCancelled.1
  | frozenNow (os : Mail) (d : Core) (hf : MaybeFreeze c os d) : Effect c i os d
  | split (f h : ℕ) (os : Mail) (e : Core) (p : Pools) (hcall : i.call = .splitFullSet f h)
      (hs : i.sender = .note h) (hf : MaybeFreeze c os e) (hfr : e.frozen = true)
      (hu : e.resolvedOutcome = none) (hc : e.isCancelled = false)
      (hn : e.normRefundPending = false) (hq : 0 < e.splitMergeQ)
      (hp : e.toPools.mintSets (e.toBasket.amounts e.numOutcomes (f / e.splitMergeQ))
        (f / e.splitMergeQ * e.splitMergeQ) = some p) :
      Effect c i (os ++ [(.note h, .onSplitAccepted
        (e.toBasket.amounts e.numOutcomes (f / e.splitMergeQ))
        (f / e.splitMergeQ * e.splitMergeQ))]) (e.setPools p)
  | merge (a : List ℕ) (h n paid : ℕ) (os : Mail) (e : Core) (p : Pools)
      (hcall : i.call = .mergeFullSet a h) (hs : i.sender = .note h) (hf : MaybeFreeze c os e)
      (hfr : e.frozen = true) (hu : e.resolvedOutcome = none) (hc : e.isCancelled = false)
      (hn : e.normRefundPending = false) (hl : a.length = e.numOutcomes)
      (hz : ∀ k < e.numOutcomes, e.frozenCleanUnitsPerQ k = 0 → a.getD k 0 = 0)
      (ht : n = e.toBasket.wholeSets e.numOutcomes a)
      (hp : e.toPools.burnSets (e.toBasket.amounts e.numOutcomes n) (n * e.splitMergeQ) =
        some (p, paid)) :
      Effect c i (os ++ [(.note h, .onMergeAccepted paid (e.toBasket.amounts e.numOutcomes n))])
        (e.setPools p)
  | resolved (k : ℕ) (os : Mail) (e : Core) (hf : MaybeFreeze c os e) (hfr : e.frozen = true)
      (hu : e.resolvedOutcome = none) (hc : e.isCancelled = false) (hk : k < e.numOutcomes)
      (hfit : e.toPools.resolveFits k = true) :
      Effect c i (os ++ (e.resolve k).feeMail) (e.resolve k)
  | claimNone (a d b : List ℕ) (h : ℕ) (hcall : i.call = .claim a d b h) (hs : i.sender = .note h)
      (hu : c.resolvedOutcome = none) :
      Effect c i [(.note h, .onClaimAccepted none 0 0 0 0)] c
  | claimRefund (a d b : List ℕ) (h : ℕ) (hcall : i.call = .claim a d b h)
      (hs : i.sender = .note h) (hd : c.orderBookDone = true) (hm : c.debtRefundMode = true)
      (hr : c.resolvedOutcome.isSome = true) :
      Effect c i ((.note h, .onClaimAccepted c.resolvedOutcome 0 (c.debtOwed d) 0 0) ::
        (c.refundDebt (c.debtOwed d)).closeDebtRefund.2)
        (c.refundDebt (c.debtOwed d)).closeDebtRefund.1
  | claimWin (a d b : List ℕ) (h k : ℕ) (q : Payout) (hcall : i.call = .claim a d b h)
      (hs : i.sender = .note h) (hd : c.orderBookDone = true) (hm : c.debtRefundMode = false)
      (hr : c.resolvedOutcome = some k)
      (hq : q = c.paid (a.getD k 0) (d.getD k 0) (b.getD k 0)) :
      Effect c i ((.note h, .onClaimAccepted (some k) q.clean q.debt q.coupon q.debtPaid) ::
        ((c.payWin (a.getD k 0) (d.getD k 0) (b.getD k 0)).closeWin k).2)
        ((c.payWin (a.getD k 0) (d.getD k 0) (b.getD k 0)).closeWin k).1
  | forfeit (a d b : List ℕ) (h : ℕ) (e : Core) (hcall : i.call = .forfeitStake a d b h)
      (hs : i.sender = .note h)
      (he : e = c.setPools (c.toPools.forfeit (decide (Addr.note h = c.deployer)) a d b)) :
      Effect c i ((.note h, .onForfeitAccepted) :: e.tryClose.2) e.tryClose.1
  | refundReceived (h : ℕ) (hcall : i.call = .confirmRefundReceived h) (hs : i.sender = .note h)
      (hd : c.deployer = .note h) : Effect c i [] (c.clearRefund)
  | bookDone (hcall : i.call = .onOrderBookShutdownComplete) (hs : i.sender = .orderBook c.market) :
      Effect c i c.setBookDone.tryClose.2 c.setBookDone.tryClose.1

theorem Effect.of_eq {c d d' : Core} {i : PMP.Input} {os os' : Mail} (h : Effect c i os d)
    (ho : os' = os) (hd : d' = d) : Effect c i os' d' := by
  rw [ho, hd]
  exact h

namespace PMP

variable {s t : PMP}

theorem freeze_spec {g : ℕ} (h : s.freeze g = some t) :
    ∃ p paid, s.toPools.normalize s.numOutcomes g = some (p, paid) ∧
      t.toCore = s.toCore.freeze g p ∧ t.sent = s.sent ++ s.toCore.refundMail g paid := by
  simp only [freeze, bind_iff, pure_iff] at h
  obtain ⟨⟨p, paid⟩, hp, rfl⟩ := h
  refine ⟨p, paid, hp, ?_, ?_⟩
  · by_cases hr : 0 < (s.toPools.refundAmounts s.numOutcomes g).sum <;>
      simp [hr, Core.freeze, Core.frozenBasket]
  · by_cases hr : 0 < (s.toPools.refundAmounts s.numOutcomes g).sum <;>
      simp [hr, Core.refundMail, PmpAction.callback?]

/-- A late first use freezes the pools; a later one does nothing. -/
theorem ensureFrozen_spec {now : ℕ} (h : s.ensureFrozen now = some t) :
    ∃ os, MaybeFreeze s.toCore os t.toCore ∧ t.sent = s.sent ++ os ∧ t.frozen = true := by
  unfold ensureFrozen at h
  split_ifs at h with hf
  · cases h
    exact ⟨[], .skip, by simp, hf⟩
  · simp only [bind_iff] at h
    obtain ⟨ha, hc, -, g, hg, hpos, hz⟩ := h
    obtain ⟨p, paid, hp, hcore, hsent⟩ := freeze_spec hz
    refine ⟨_, hcore ▸ .freeze g paid p (by simpa using hf) ha (by simpa using hc) hg hpos hp,
      hsent, ?_⟩
    rw [hcore]
    rfl

end PMP

end Dexdo
