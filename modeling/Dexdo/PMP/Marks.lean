import Dexdo.PMP.Ballot

namespace Dexdo

/-- The events of a PMP that tell of a change in its lifecycle. -/
def PmpEvent.isMark : PmpEvent → Bool
  | .timingsSet .. | .poolsFrozen _ | .resolved _ | .eventCancelled | .pmpRejected => true
  | _ => false

def PmpAction.event? : PmpAction → Option PmpEvent
  | .event e => some e
  | _ => none

/-- The milestone among the actions of a PMP. -/
def PmpAction.mark? (a : PmpAction) : Option PmpEvent := a.event?.filter PmpEvent.isMark

/-- The lifecycle of a PMP and what its transaction has told of it so far. -/
structure Marks where
  approved : Bool
  isCancelled : Bool
  frozen : Bool
  stakeStart : ℕ
  resultStart : ℕ
  resolvedOutcome : Option ℕ
  events : List PmpEvent

namespace Marks

def stakeEnd (m : Marks) : ℕ := m.stakeStart + (m.resultStart - m.stakeStart) / 10

def tell (m : Marks) (e : PmpEvent) : Marks := { m with events := m.events ++ [e] }

def time (m : Marks) (stakeStart resultStart : ℕ) : Marks :=
  { m with approved := true, stakeStart := stakeStart, resultStart := resultStart }

/-- The announcement of the timings. -/
def told (m : Marks) : PmpEvent :=
  .timingsSet m.stakeStart m.stakeEnd m.resultStart (m.resultStart + GRACE_PERIOD)

def freeze (m : Marks) (base : ℕ) : Marks := { m with frozen := true }.tell (.poolsFrozen base)

def cancel (m : Marks) : Marks := { m with isCancelled := true }.tell .eventCancelled

def resolve (m : Marks) (outcomeId : ℕ) : Marks :=
  { m with resolvedOutcome := some outcomeId }.tell (.resolved outcomeId)

/-- Each change of the lifecycle comes with its event; freezing, cancelling and resolving happen
once. -/
inductive Goes (m : Marks) : Marks → Prop
  | refl : Goes m m
  | time {n : Marks} (a r : ℕ) (h : Goes m n) : Goes m ((n.time a r).tell (n.time a r).told)
  | freeze {n : Marks} (base : ℕ) (h : Goes m n) (hf : n.frozen = false) : Goes m (n.freeze base)
  | cancel {n : Marks} (h : Goes m n) (hc : n.isCancelled = false) : Goes m n.cancel
  | resolve {n : Marks} (k : ℕ) (h : Goes m n) (hr : n.resolvedOutcome = none) :
      Goes m (n.resolve k)

end Marks

namespace PMP

/-- The milestones of a PMP. -/
def marks (s : PMP) : Marks where
  approved := s.approved
  isCancelled := s.isCancelled
  frozen := s.frozen
  stakeStart := s.stakeStart
  resultStart := s.resultStart
  resolvedOutcome := s.resolvedOutcome
  events := s.actions.filterMap PmpAction.mark?

variable {s t : PMP}

theorem act_marks (s : PMP) {a : PmpAction} (h : a.mark? = none) : (s.act a).marks = s.marks := by
  simp [marks, act, h]

theorem emit_mark (s : PMP) {e : PmpEvent} (h : e.isMark = true) :
    (s.emit e).marks = s.marks.tell e := by
  simp [marks, emit, act, Marks.tell, PmpAction.mark?, PmpAction.event?, h, Option.filter]

theorem emit_marks (s : PMP) {e : PmpEvent} (h : e.isMark = false) :
    (s.emit e).marks = s.marks := by
  apply s.act_marks
  simp [PmpAction.mark?, PmpAction.event?, h, Option.filter]

@[simp] theorem send_marks (a : Addr) (cb : PmpCallback) : (s.send a cb).marks = s.marks :=
  s.act_marks rfl

@[simp] theorem setPools_marks (p : Pools) : (s.setPools p).marks = s.marks := rfl

@[simp] theorem setNumOutcomes_marks (n : ℕ) :
    (s.setCore (s.toCore.setNumOutcomes n)).marks = s.marks := rfl

@[simp] theorem clearRefund_marks : (s.setCore s.toCore.clearRefund).marks = s.marks := rfl

@[simp] theorem setBookDone_marks : (s.setCore s.toCore.setBookDone).marks = s.marks := rfl

@[simp] theorem setOracles_marks (o : Oracles) : (s.setOracles o).marks = s.marks := rfl

theorem setRewards_marks {r : Rewards} (h : r.resolvedOutcome = s.resolvedOutcome) :
    (s.setRewards r).marks = s.marks := by
  simp [marks, setRewards, setCore, h]

@[simp] theorem selfdestruct_marks (a : Addr) : (s.selfdestruct a).marks = s.marks :=
  act_marks _ rfl

@[simp] theorem cancelLists_marks : s.cancelLists.marks = s.marks := by
  have h : (s.confirmedLists.map PmpAction.cancelEvent).filterMap PmpAction.mark? = [] := by
    simp [List.filterMap_map, Function.comp_def, PmpAction.mark?, PmpAction.event?]
  simp [marks, cancelLists, List.filterMap_append, h]

@[simp] theorem ensureBalance_marks (now : ℕ) : (s.ensureBalance now).marks = s.marks := by
  unfold ensureBalance triggerOrderBookShutdown
  split_ifs
  · rfl
  · exact act_marks _ rfl

@[simp] theorem releaseOracleCounts_marks : s.releaseOracleCounts.marks = s.marks := by
  unfold releaseOracleCounts
  split_ifs
  · rfl
  · exact cancelLists_marks

@[simp] theorem refundInitialStakes_marks : s.refundInitialStakes.marks = s.marks :=
  send_marks _ _

@[simp] theorem finalizeResidualClose_marks : s.finalizeResidualClose.marks = s.marks := by
  unfold finalizeResidualClose
  dsimp only
  split_ifs <;> simp

@[simp] theorem finalizeWinClose_marks : s.finalizeWinClose.marks = s.marks := by
  have h : (s.setRewards s.toRewards.drained).marks = s.marks := setRewards_marks rfl
  unfold finalizeWinClose
  dsimp only
  split_ifs <;> simp [h]

@[simp] theorem closeWin_marks (k : ℕ) : (s.closeWin k).marks = s.marks := by
  unfold closeWin
  split_ifs <;> simp

@[simp] theorem closeDebtRefund_marks : s.closeDebtRefund.marks = s.marks := by
  unfold closeDebtRefund
  split_ifs <;> simp

@[simp] theorem closeCancelled_marks : s.closeCancelled.marks = s.marks := by
  unfold closeCancelled
  split_ifs <;> simp

@[simp] theorem tryClose_marks : s.tryClose.marks = s.marks := by
  unfold tryClose
  split <;> split_ifs <;> simp

@[simp] theorem payCreatorFee_marks : s.payCreatorFee.marks = s.marks := by
  unfold payCreatorFee
  split_ifs
  · rw [emit_marks _ rfl]
    simp
  · rfl

/-- A freeze is a milestone. -/
theorem freeze_marks {g : ℕ} (h : s.freeze g = some t) : t.marks = s.marks.freeze s.totalPool := by
  simp only [freeze, bind_iff, pure_iff] at h
  obtain ⟨⟨p, paid⟩, -, rfl⟩ := h
  rw [emit_mark _ rfl]
  refine congrArg (Marks.tell · _) ((act_marks _ rfl).trans ?_)
  have hb : ∀ u : PMP, u.marks = s.marks → (u.setCore (u.toCore.setBasket (Basket.build
      (fun k => if k < s.numOutcomes then p.typedOutcomePools k .clean else 0) s.numOutcomes
      s.totalPool (s.normRefundPending ||
        decide (0 < (s.toPools.refundAmounts s.numOutcomes g).sum))))).marks =
      { s.marks with frozen := true } := by
    intro u hu
    rw [← hu]
    rfl
  apply hb
  split_ifs
  · exact send_marks _ _
  · exact setPools_marks _

theorem ensureFrozen_marks {now : ℕ} (h : s.ensureFrozen now = some t) :
    t.marks = s.marks ∨ s.frozen = false ∧ ∃ base, t.marks = s.marks.freeze base := by
  unfold ensureFrozen at h
  split_ifs at h with hf
  · left
    rw [← Option.some.inj h]
  · right
    simp only [bind_iff] at h
    obtain ⟨-, -, -, g, -, -, h⟩ := h
    exact ⟨by simpa using hf, _, freeze_marks h⟩

theorem ensureFrozen_goes {now : ℕ} (h : s.ensureFrozen now = some t) :
    s.marks.Goes t.marks := by
  rcases ensureFrozen_marks h with ht | ⟨hf, base, ht⟩
  · rw [ht]
    exact .refl
  · rw [ht]
    exact .freeze base .refl hf

theorem cancelEvent_marks {now : ℕ} (h : s.cancelEvent now = some t) :
    s.marks.Goes t.marks := by
  simp only [cancelEvent, bind_iff, pure_iff] at h
  obtain ⟨-, hc, -, rfl⟩ := h
  rw [emit_mark _ rfl, releaseOracleCounts_marks, ensureBalance_marks]
  have hc' : s.isCancelled = false := by simpa using hc
  exact .cancel .refl hc'

theorem autoCancel_marks {now : ℕ} (h : s.autoCancel now = some t) : s.marks.Goes t.marks := by
  unfold autoCancel at h
  split_ifs at h
  · exact cancelEvent_marks h
  · cases h
    exact .refl

/-- So is a resolution. -/
theorem resolve_marks {now k : ℕ} (h : s.resolve now k = some t) : s.marks.Goes t.marks := by
  simp only [resolve, bind_iff, pure_iff] at h
  obtain ⟨-, u, hz, -, hr, -, -, -, -, rfl⟩ := h
  rw [emit_mark _ rfl, payCreatorFee_marks]
  have hk : ((u.ensureBalance now).toPools.rewards k).resolvedOutcome = some k := by
    unfold Pools.rewards
    split_ifs <;> rfl
  have hw : ((u.ensureBalance now).setRewards ((u.ensureBalance now).toPools.rewards k)).marks =
      { u.marks with resolvedOutcome := some k } := by
    rw [← u.ensureBalance_marks now, ← hk]
    rfl
  have hr' : u.resolvedOutcome = none := by simpa using hr
  rw [hw]
  exact (ensureFrozen_goes hz).resolve k hr'

/-- The freeze that may come with new timings does not depend on them. -/
theorem setTimings_marks {now r : ℕ} (h : s.setTimings now r = some t) :
    s.marks.Goes t.marks := by
  simp only [setTimings, bind_iff, pure_iff] at h
  obtain ⟨-, -, -, -, -, u, hz, rfl⟩ := h
  generalize hst : (if s.stakeStart = 0 then now else s.stakeStart) = st at hz
  have hv : (if s.stakeStart = 0 then s.emit .networkFeeBurned else s).marks = s.marks := by
    split_ifs
    · exact emit_marks _ rfl
    · rfl
  generalize (if s.stakeStart = 0 then s.emit .networkFeeBurned else s) = v at hz hv
  have hf : ∃ n : Marks, s.marks.Goes n ∧ u.marks = n.time st r := by
    have hset : (v.setCore (v.toCore.setTimings st r)).marks = s.marks.time st r := by
      rw [← hv]
      rfl
    unfold freezeIfEnded at hz
    split_ifs at hz
    · rcases ensureFrozen_marks hz with hu | ⟨hfz, base, hu⟩
      · exact ⟨s.marks, .refl, hu.trans hset⟩
      · rw [hset] at hu
        have hs : s.marks.frozen = false := by
          rw [← hv]
          exact hfz
        exact ⟨s.marks.freeze base, .freeze base .refl hs, hu⟩
    · cases hz
      exact ⟨s.marks, .refl, hset⟩
  obtain ⟨n, hn, hu⟩ := hf
  have hw : (if u.frozen = true then u.act (.setResultStart u.resultStart) else u).marks =
      u.marks := by
    split_ifs
    · exact act_marks _ rfl
    · rfl
  have hm : ∀ w : PMP, w.marks = n.time st r →
      ((w.ensureBalance now).emit (.timingsSet w.stakeStart w.computeStakeEnd w.resultStart
        (w.resultStart + GRACE_PERIOD))).marks = (n.time st r).tell (n.time st r).told := by
    intro w hw
    rw [emit_mark _ rfl, ensureBalance_marks, hw, ← hw]
    rfl
  have key := hm _ (hw.trans hu)
  rw [key]
  exact hn.time st r

theorem openPools_marks {n : ℕ} (h : s.openPools n = some (some t)) : t.marks = s.marks := by
  obtain ⟨-, -, p, -, rfl⟩ := openPools_cases h
  rw [send_marks, setPools_marks, setNumOutcomes_marks]

theorem recordApproval_marks {a : Addr} {k : ℕ} {tr : Option Addr}
    (h : s.recordApproval a k tr = some t) : t.marks = s.marks := by
  obtain rfl | ⟨-, rfl | rfl⟩ := recordApproval_cases h
  · simp
  · rw [emit_marks _ rfl]
    simp
  · simp

theorem approveEvent_marks {a : Addr} {now k n : ℕ} {tr : Option Addr}
    (h : s.approveEvent a now k n tr = some t) : t.marks = s.marks := by
  obtain rfl | ⟨-, -, -, h⟩ := approveEvent_cases h
  · rfl
  rw [← s.ensureBalance_marks now]
  generalize s.ensureBalance now = u at h
  obtain rfl | ⟨-, v, hv, h⟩ | ⟨-, h⟩ := h
  · rw [selfdestruct_marks, act_marks _ rfl, refundInitialStakes_marks, setNumOutcomes_marks]
  · rw [recordApproval_marks h, openPools_marks hv]
  · exact recordApproval_marks h

theorem claimDebtRefund_marks (w : Addr) (d : List ℕ) :
    (s.claimDebtRefund w d).marks = s.marks := by
  unfold claimDebtRefund
  dsimp only
  rw [closeDebtRefund_marks, emit_marks _ rfl, send_marks, setPools_marks]
  exact setRewards_marks rfl

theorem claimWin_marks (w : Addr) (k x d b : ℕ) : (s.claimWin w k x d b).marks = s.marks := by
  unfold claimWin
  dsimp only
  refine (closeWin_marks k).trans ((setRewards_marks rfl).trans ((emit_marks _ rfl).trans
    ((send_marks _ _).trans ?_)))
  exact setRewards_marks rfl

theorem submitSetTimings_marks {c : Caller} {now r : ℕ}
    (h : s.submitSetTimings c now r = some t) : s.marks.Goes t.marks := by
  simp only [submitSetTimings, bind_iff, pure_iff] at h
  obtain ⟨p, -, h⟩ := h
  rw [← s.ensureBalance_marks now]
  split at h
  · cases h
    exact .refl
  · split_ifs at h
    · have hg := setTimings_marks h
      rwa [setOracles_marks] at hg
    · rw [← Option.some.inj h, setOracles_marks]
      exact .refl

theorem submitResolve_marks {c : Caller} {now k : ℕ}
    (h : s.submitResolve c now k = some t) : s.marks.Goes t.marks := by
  simp only [submitResolve, bind_iff, pure_iff] at h
  obtain ⟨p, -, h⟩ := h
  rw [← s.ensureBalance_marks now]
  split at h
  · cases h
    exact .refl
  · split_ifs at h
    · have hg := resolve_marks h
      rwa [setOracles_marks] at hg
    · rw [← Option.some.inj h, setOracles_marks]
      exact .refl

theorem submitCancelEvent_marks {c : Caller} {now : ℕ}
    (h : s.submitCancelEvent c now = some t) : s.marks.Goes t.marks := by
  simp only [submitCancelEvent, bind_iff, pure_iff] at h
  obtain ⟨p, -, h⟩ := h
  rw [← s.ensureBalance_marks now]
  split_ifs at h
  · cases h
    exact .refl
  · have hg := cancelEvent_marks h
    rwa [setOracles_marks] at hg
  · rw [← Option.some.inj h, setOracles_marks]
    exact .refl

theorem cancelStake_marks {a : Addr} {now h' : ℕ} {x d b : List ℕ}
    (h : s.cancelStake a now x d b h' = some t) : s.marks.Goes t.marks := by
  simp only [cancelStake, bind_iff, pure_iff] at h
  obtain ⟨u, hu, -, -, -, -, p, -, rfl⟩ := h
  rw [closeCancelled_marks, send_marks, setPools_marks, ensureBalance_marks]
  exact autoCancel_marks hu

theorem acceptStake_marks {a : Addr} {now k n h' : ℕ} {b : BetType}
    (h : s.acceptStake a now k n h' b = some t) : t.marks = s.marks := by
  simp only [acceptStake, bind_iff, pure_iff] at h
  obtain ⟨-, -, -, -, -, -, -, -, -, -, -, -, p, -, rfl⟩ := h
  rw [emit_marks _ rfl, send_marks, setPools_marks, ensureBalance_marks]

theorem splitFullSet_marks {a : Addr} {now f h' : ℕ}
    (h : s.splitFullSet a now f h' = some t) : s.marks.Goes t.marks := by
  simp only [splitFullSet, bind_iff, pure_iff] at h
  obtain ⟨u, hz, -, -, -, -, -, -, -, -, -, p, -, rfl⟩ := h
  rw [emit_marks _ rfl, send_marks, setPools_marks, ensureBalance_marks]
  exact ensureFrozen_goes hz

theorem mergeFullSet_marks {a : Addr} {now h' : ℕ} {x : List ℕ}
    (h : s.mergeFullSet a now x h' = some t) : s.marks.Goes t.marks := by
  simp only [mergeFullSet, bind_iff, pure_iff] at h
  obtain ⟨u, hz, -, -, -, -, -, -, -, -, -, -, -, -, -, ⟨p, paid⟩, -, rfl⟩ := h
  rw [emit_marks _ rfl, send_marks, setPools_marks, ensureBalance_marks]
  exact ensureFrozen_goes hz

theorem freezeNow_marks {now : ℕ} (h : s.freezeNow now = some t) : s.marks.Goes t.marks := by
  simp only [freezeNow, bind_iff] at h
  obtain ⟨-, -, -, -, hz⟩ := h
  rw [← s.ensureBalance_marks now]
  exact ensureFrozen_goes hz

theorem claim_marks {a : Addr} {now h' : ℕ} {x d b : List ℕ}
    (h : s.claim a now x d b h' = some t) : t.marks = s.marks := by
  simp only [claim, bind_iff, pure_iff] at h
  obtain ⟨-, -, -, -, -, h⟩ := h
  rw [← s.ensureBalance_marks now]
  generalize s.ensureBalance now = u at h
  cases hr : u.resolvedOutcome with
  | none =>
    simp only [hr, Option.some.injEq] at h
    rw [← h, send_marks]
  | some =>
    simp only [hr, Option.some.injEq] at h
    rw [← h]
    split_ifs
    · exact claimDebtRefund_marks _ _
    · exact claimWin_marks _ _ _ _ _

theorem forfeitStake_marks {a : Addr} {now h' : ℕ} {x d b : List ℕ}
    (h : s.forfeitStake a now x d b h' = some t) : t.marks = s.marks := by
  simp only [forfeitStake, bind_iff, pure_iff] at h
  obtain ⟨-, rfl⟩ := h
  rw [tryClose_marks, send_marks, emit_marks _ rfl, setPools_marks, ensureBalance_marks]

@[simp] theorem giveUp_marks : s.giveUp.marks = s.marks := by
  unfold giveUp
  split_ifs <;> simp

theorem giveUp_destroyed : s.giveUp.destroyed = true := rfl

theorem onBounce_marks (a : Addr) (now : ℕ) : (s.onBounce a now).marks = s.marks := by
  unfold onBounce
  split_ifs
  · rfl
  · exact act_marks _ rfl
  · simp

variable {i : Input}

/-- A transaction that leaves the PMP standing tells every change of its lifecycle. -/
theorem exec_marks (h : s.exec i.sender i.now i.call = some t) :
    t.destroyed = true ∨ s.marks.Goes t.marks := by
  have hkeep : t.marks = s.marks → s.marks.Goes t.marks := by
    intro ht
    rw [ht]
    exact .refl
  cases hi : i.call with
  | rejectEvent =>
    rw [hi] at h
    simp only [exec, rejectEvent, bind_iff, pure_iff] at h
    obtain ⟨-, rfl⟩ := h
    exact .inl giveUp_destroyed
  | approveEvent =>
    rw [hi] at h
    exact .inr (hkeep (approveEvent_marks h))
  | acceptStake =>
    rw [hi] at h
    exact .inr (hkeep (acceptStake_marks h))
  | cancelStake =>
    rw [hi] at h
    exact .inr (cancelStake_marks h)
  | freezeNow =>
    rw [hi] at h
    exact .inr (freezeNow_marks h)
  | splitFullSet =>
    rw [hi] at h
    exact .inr (splitFullSet_marks h)
  | mergeFullSet =>
    rw [hi] at h
    exact .inr (mergeFullSet_marks h)
  | claim =>
    rw [hi] at h
    exact .inr (hkeep (claim_marks h))
  | forfeitStake =>
    rw [hi] at h
    exact .inr (hkeep (forfeitStake_marks h))
  | submitSetTimings =>
    rw [hi] at h
    exact .inr (submitSetTimings_marks h)
  | submitResolve =>
    rw [hi] at h
    exact .inr (submitResolve_marks h)
  | submitCancelEvent =>
    rw [hi] at h
    exact .inr (submitCancelEvent_marks h)
  | onBounce =>
    rw [hi] at h
    cases h
    right
    rw [onBounce_marks]
    exact .refl
  | confirmRefundReceived =>
    rw [hi] at h
    simp only [exec, confirmRefundReceived, bind_iff, pure_iff] at h
    obtain ⟨-, -, rfl⟩ := h
    exact .inr (hkeep (clearRefund_marks.trans (ensureBalance_marks i.now)))
  | onOrderBookShutdownComplete =>
    rw [hi] at h
    simp only [exec, onOrderBookShutdownComplete, bind_iff, pure_iff] at h
    obtain ⟨-, rfl⟩ := h
    refine .inr (hkeep ?_)
    rw [tryClose_marks, setBookDone_marks, ensureBalance_marks]

theorem step_marks (h : s.step i = some t) :
    t.destroyed = true ∨ Marks.Goes { s.marks with events := [] } t.marks := by
  unfold step at h
  split_ifs at h
  exact exec_marks h

end PMP

end Dexdo
