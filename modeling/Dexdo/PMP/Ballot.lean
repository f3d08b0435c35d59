import Dexdo.Lib.Votes
import Dexdo.PMP.Cases

namespace Dexdo

/-- What oracles vote on. -/
inductive Motion
  | timings
  | resolve
  | cancel
  deriving DecidableEq

/-- The vote a call casts, with its parameter. A cancellation has none, and 0 stands there. -/
def PmpCall.vote? : PmpCall → Option (Caller × Motion × ℕ)
  | .submitSetTimings caller r => some (caller, .timings, r)
  | .submitResolve caller k => some (caller, .resolve, k)
  | .submitCancelEvent caller => some (caller, .cancel, 0)
  | _ => none

/-- The motion an event reports as carried out. -/
def PmpAction.carries? : PmpAction → Option (Motion × ℕ)
  | .event (.timingsSet _ _ r _) => some (.timings, r)
  | .event (.resolved k) => some (.resolve, k)
  | .event .eventCancelled => some (.cancel, 0)
  | _ => none

/-- What the votes of the oracles rest on and decide. -/
structure Ballot where
  oracleEventsPubkeys : List ℕ
  oracleEventsAddress : Addr → Option ℕ
  numberOfOracleEvents : ℕ
  tally : Motion → Tally
  approved : Bool
  stakeStart : ℕ
  resultStart : ℕ
  isCancelled : Bool
  resolvedOutcome : Option ℕ
  carried : List (Motion × ℕ)

/-- The votes for a cancellation, kept as a set and a counter, in the form of the other two. -/
def Oracles.cancelTally (o : Oracles) : Tally where
  oracleHash := fun pubkey => if pubkey ∈ o.cancelOracleVoted then some 0 else none
  hashCount := fun x => if x = 0 then o.cancelVoteCount else 0

def Oracles.tally (o : Oracles) : Motion → Tally
  | .timings => o.timings
  | .resolve => o.resolves
  | .cancel => o.cancelTally

namespace PMP

/-- Motions carried out in the current transaction. -/
def carried (s : PMP) : List (Motion × ℕ) := s.actions.filterMap PmpAction.carries?

def ballot (s : PMP) : Ballot where
  oracleEventsPubkeys := s.oracleEventsPubkeys
  oracleEventsAddress := s.oracleEventsAddress
  numberOfOracleEvents := s.numberOfOracleEvents
  tally := s.tally
  approved := s.approved
  stakeStart := s.stakeStart
  resultStart := s.resultStart
  isCancelled := s.isCancelled
  resolvedOutcome := s.resolvedOutcome
  carried := s.carried

variable {s t : PMP}

theorem act_ballot (s : PMP) {a : PmpAction} (h : a.carries? = none) :
    (s.act a).ballot = s.ballot := by
  simp [ballot, carried, act, h]

theorem act_ballot_of_some (s : PMP) {a : PmpAction} {m : Motion × ℕ} (h : a.carries? = some m) :
    (s.act a).ballot = { s.ballot with carried := s.ballot.carried ++ [m] } := by
  simp [ballot, carried, act, h]

@[simp] theorem send_ballot (a : Addr) (cb : PmpCallback) : (s.send a cb).ballot = s.ballot :=
  s.act_ballot rfl

@[simp] theorem setPools_ballot (p : Pools) : (s.setPools p).ballot = s.ballot := rfl

@[simp] theorem selfdestruct_ballot (a : Addr) : (s.selfdestruct a).ballot = s.ballot :=
  act_ballot _ rfl

theorem setRewards_ballot' (r : Rewards) :
    (s.setRewards r).ballot = { s.ballot with resolvedOutcome := r.resolvedOutcome } := rfl

theorem setRewards_ballot {r : Rewards} (h : r.resolvedOutcome = s.resolvedOutcome) :
    (s.setRewards r).ballot = s.ballot := by
  rw [setRewards_ballot', h]
  rfl

@[simp] theorem setNumOutcomes_ballot (n : ℕ) :
    (s.setCore (s.toCore.setNumOutcomes n)).ballot = s.ballot := rfl

@[simp] theorem clearRefund_ballot :
    (s.setCore s.toCore.clearRefund).ballot = s.ballot := rfl

@[simp] theorem setBookDone_ballot :
    (s.setCore s.toCore.setBookDone).ballot = s.ballot := rfl

@[simp] theorem confirm_ballot (a : Addr) :
    (s.setOracles (s.toOracles.confirm a)).ballot = s.ballot := rfl

@[simp] theorem cancelLists_ballot : s.cancelLists.ballot = s.ballot := by
  have h : (s.confirmedLists.map PmpAction.cancelEvent).filterMap PmpAction.carries? = [] := by
    simp [List.filterMap_map, Function.comp_def, PmpAction.carries?]
  simp [ballot, carried, cancelLists, List.filterMap_append, h]

@[simp] theorem ensureBalance_ballot (now : ℕ) : (s.ensureBalance now).ballot = s.ballot := by
  unfold ensureBalance triggerOrderBookShutdown
  split_ifs
  · rfl
  · exact act_ballot _ rfl

@[simp] theorem releaseOracleCounts_ballot : s.releaseOracleCounts.ballot = s.ballot := by
  unfold releaseOracleCounts
  split_ifs
  · rfl
  · exact cancelLists_ballot

@[simp] theorem refundInitialStakes_ballot : s.refundInitialStakes.ballot = s.ballot :=
  send_ballot _ _

@[simp] theorem giveUp_ballot : s.giveUp.ballot = s.ballot := by
  unfold giveUp
  split_ifs <;> simp

@[simp] theorem finalizeResidualClose_ballot : s.finalizeResidualClose.ballot = s.ballot := by
  unfold finalizeResidualClose
  dsimp only
  split_ifs <;> simp

@[simp] theorem finalizeWinClose_ballot : s.finalizeWinClose.ballot = s.ballot := by
  have h : (s.setRewards s.toRewards.drained).ballot = s.ballot := setRewards_ballot rfl
  unfold finalizeWinClose
  dsimp only
  split_ifs <;> simp [h]

@[simp] theorem closeWin_ballot (k : ℕ) : (s.closeWin k).ballot = s.ballot := by
  unfold closeWin
  split_ifs <;> simp

@[simp] theorem closeDebtRefund_ballot : s.closeDebtRefund.ballot = s.ballot := by
  unfold closeDebtRefund
  split_ifs <;> simp

@[simp] theorem closeCancelled_ballot : s.closeCancelled.ballot = s.ballot := by
  unfold closeCancelled
  split_ifs <;> simp

@[simp] theorem tryClose_ballot : s.tryClose.ballot = s.ballot := by
  unfold tryClose
  split <;> split_ifs <;> simp

@[simp] theorem payCreatorFee_ballot : s.payCreatorFee.ballot = s.ballot := by
  unfold payCreatorFee
  split_ifs
  · exact (act_ballot _ rfl).trans (send_ballot _ _)
  · rfl

theorem freeze_ballot {g : ℕ} (h : s.freeze g = some t) : t.ballot = s.ballot := by
  simp only [freeze, bind_iff, pure_iff] at h
  obtain ⟨⟨p, paid⟩, -, rfl⟩ := h
  refine (act_ballot _ rfl).trans ((act_ballot _ rfl).trans ?_)
  by_cases hr : 0 < (s.toPools.refundAmounts s.numOutcomes g).sum
  · rw [if_pos hr]
    exact send_ballot (s := s.setPools p) _ _
  · rw [if_neg hr]
    rfl

theorem ensureFrozen_ballot {now : ℕ} (h : s.ensureFrozen now = some t) :
    t.ballot = s.ballot := by
  unfold ensureFrozen at h
  split_ifs at h
  · rw [← Option.some.inj h]
  · simp only [bind_iff] at h
    obtain ⟨-, -, -, g, -, -, h⟩ := h
    exact freeze_ballot h

theorem cancelEvent_ballot {now : ℕ} (h : s.cancelEvent now = some t) :
    s.isCancelled = false ∧ s.resolvedOutcome = none ∧
      t.ballot = { s.ballot with
        isCancelled := true, carried := s.ballot.carried ++ [(.cancel, 0)] } := by
  simp only [cancelEvent, bind_iff, pure_iff] at h
  obtain ⟨-, hc, hu, rfl⟩ := h
  refine ⟨by simpa using hc, by simpa using hu, ?_⟩
  refine (act_ballot_of_some _ rfl).trans ?_
  rw [releaseOracleCounts_ballot, ensureBalance_ballot]
  rfl

/-- The carried outcome is written and recorded. -/
theorem resolve_ballot {now k : ℕ} (h : s.resolve now k = some t) :
    s.isCancelled = false ∧ s.resolvedOutcome = none ∧
      t.ballot = { s.ballot with
        resolvedOutcome := some k, carried := s.ballot.carried ++ [(.resolve, k)] } := by
  simp only [resolve, bind_iff, pure_iff] at h
  obtain ⟨-, u, hz, hc, hu, -, -, -, -, rfl⟩ := h
  have hb := ensureFrozen_ballot hz
  have h1 : u.isCancelled = s.isCancelled := congrArg Ballot.isCancelled hb
  have h2 : u.resolvedOutcome = s.resolvedOutcome := congrArg Ballot.resolvedOutcome hb
  refine ⟨by simpa [h1] using hc, by simpa [h2] using hu, ?_⟩
  refine (act_ballot_of_some _ rfl).trans ?_
  have hk : ((u.ensureBalance now).toPools.rewards k).resolvedOutcome = some k := by
    unfold Pools.rewards
    split_ifs <;> rfl
  rw [payCreatorFee_ballot, setRewards_ballot', hk, ensureBalance_ballot, hb]

/-- The carried timings are written and recorded. -/
theorem setTimings_ballot {now r : ℕ} (h : s.setTimings now r = some t) :
    s.resolvedOutcome = none ∧ ∃ st, t.ballot = { s.ballot with
      approved := true
      stakeStart := st
      resultStart := r
      carried := s.ballot.carried ++ [(.timings, r)] } := by
  simp only [setTimings, bind_iff, pure_iff] at h
  obtain ⟨hu, -, -, -, -, u, hz, rfl⟩ := h
  obtain ⟨st, hb⟩ : ∃ st, u.ballot =
      { s.ballot with approved := true, stakeStart := st, resultStart := r } := by
    have hf : ∀ v : PMP, freezeIfEnded v now = some u → u.ballot = v.ballot := by
      intro v hv
      unfold freezeIfEnded at hv
      split_ifs at hv
      · exact ensureFrozen_ballot hv
      · rw [← Option.some.inj hv]
    have hb := hf _ hz
    split_ifs at hb
    · exact ⟨now, hb.trans (congrArg (fun b : Ballot =>
        { b with approved := true, stakeStart := now, resultStart := r }) (act_ballot s rfl))⟩
    · exact ⟨s.stakeStart, hb⟩
  refine ⟨by simpa using hu, st, ?_⟩
  have hw : ∀ w : PMP, w.ballot = u.ballot → ((w.ensureBalance now).emit (.timingsSet w.stakeStart
      w.computeStakeEnd w.resultStart (w.resultStart + GRACE_PERIOD))).ballot =
        { u.ballot with carried := u.ballot.carried ++ [(.timings, r)] } := by
    intro w hw
    have h2 : w.resultStart = r := congrArg Ballot.resultStart (hw.trans hb)
    rw [← hw, ← w.ensureBalance_ballot now, h2]
    exact act_ballot_of_some _ rfl
  rw [hb] at hw
  split_ifs
  · exact hw _ ((act_ballot _ rfl).trans hb)
  · exact hw _ hb

theorem openPools_ballot {n : ℕ} (h : s.openPools n = some (some t)) : t.ballot = s.ballot := by
  obtain ⟨-, -, p, -, rfl⟩ := openPools_cases h
  exact send_ballot _ _

theorem recordApproval_ballot {a : Addr} {k : ℕ} {tr : Option Addr}
    (h : s.recordApproval a k tr = some t) :
    t.ballot = s.ballot ∨ (k ∉ s.oracleEventsPubkeys ∧ t.ballot = { s.ballot with
      oracleEventsPubkeys := k :: s.oracleEventsPubkeys
      oracleEventsAddress := fun a => if some a = tr then some k else s.oracleEventsAddress a }) := by
  obtain rfl | ⟨hd, rfl | rfl⟩ := recordApproval_cases h
  · left
    simp
  · exact .inr ⟨hd, act_ballot _ rfl⟩
  · exact .inr ⟨hd, rfl⟩

theorem approveEvent_ballot {a : Addr} {now k n : ℕ} {tr : Option Addr}
    (h : s.approveEvent a now k n tr = some t) :
    t.ballot = s.ballot ∨ (k ∉ s.oracleEventsPubkeys ∧ t.ballot = { s.ballot with
      oracleEventsPubkeys := k :: s.oracleEventsPubkeys
      oracleEventsAddress := fun a => if some a = tr then some k else s.oracleEventsAddress a }) := by
  obtain rfl | ⟨-, -, -, h⟩ := approveEvent_cases h
  · exact .inl rfl
  have hr : ∀ v : PMP, v.ballot = s.ballot → v.recordApproval a k tr = some t →
      t.ballot = s.ballot ∨ (k ∉ s.oracleEventsPubkeys ∧ t.ballot = { s.ballot with
        oracleEventsPubkeys := k :: s.oracleEventsPubkeys
        oracleEventsAddress := fun a => if some a = tr then some k else s.oracleEventsAddress a }) := by
    intro v hv hr
    have h1 : v.oracleEventsPubkeys = s.oracleEventsPubkeys :=
      congrArg Ballot.oracleEventsPubkeys hv
    have h2 : v.oracleEventsAddress = s.oracleEventsAddress :=
      congrArg Ballot.oracleEventsAddress hv
    have := recordApproval_ballot hr
    rwa [h1, h2, hv] at this
  have hu := s.ensureBalance_ballot now
  generalize s.ensureBalance now = u at h hu
  obtain rfl | ⟨-, v, hv, h⟩ | ⟨-, h⟩ := h
  · left
    refine (selfdestruct_ballot _).trans ((act_ballot _ rfl).trans ?_)
    simpa using hu
  · exact hr v ((openPools_ballot hv).trans hu) h
  · exact hr u hu h

theorem claimDebtRefund_ballot (w : Addr) (d : List ℕ) :
    (s.claimDebtRefund w d).ballot = s.ballot := by
  unfold claimDebtRefund
  dsimp only
  refine (closeDebtRefund_ballot).trans ((act_ballot _ rfl).trans ((send_ballot _ _).trans ?_))
  exact setRewards_ballot rfl

theorem claimWin_ballot (w : Addr) (k x d b : ℕ) : (s.claimWin w k x d b).ballot = s.ballot := by
  unfold claimWin
  dsimp only
  refine (closeWin_ballot k).trans ((setRewards_ballot rfl).trans ((act_ballot _ rfl).trans
    ((send_ballot _ _).trans ?_)))
  exact setRewards_ballot rfl

end PMP

end Dexdo
