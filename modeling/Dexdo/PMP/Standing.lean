import Dexdo.PMP.Ballot

namespace Dexdo

/-- The list a `cancelEvent` goes to. -/
def PmpAction.cancels? : PmpAction → Option Addr
  | .cancelEvent a => some a
  | _ => none

/-- Where a PMP stands with its oracle lists. -/
structure Standing where
  oracleEventsConfirmed : List (Addr × Bool)
  oracleEventsAddress : Addr → Option ℕ
  numOutcomes : ℕ
  countReleased : Bool
  isCancelled : Bool
  destroyed : Bool
  cancels : List Addr

namespace Standing

def confirmed? (b : Standing) (a : Addr) : Option Bool :=
  (b.oracleEventsConfirmed.find? fun e => decide (e.1 = a)).map Prod.snd

def confirmedLists (b : Standing) : List Addr :=
  (b.oracleEventsConfirmed.filter fun e => e.2).map Prod.fst

def confirm (b : Standing) (sender : Addr) : Standing :=
  { b with oracleEventsConfirmed := b.oracleEventsConfirmed.map fun e =>
      if e.1 = sender then (e.1, true) else e }

def cancelLists (b : Standing) : Standing := { b with cancels := b.cancels ++ b.confirmedLists }

/-- The lists are told once that the PMP is gone. -/
def release (b : Standing) : Standing :=
  if b.countReleased then b else { b with countReleased := true }.cancelLists

def cancel (b : Standing) : Standing := { b.release with isCancelled := true }

def finish (b : Standing) : Standing := { b.release with destroyed := true }

/-- A market is wound up by its cancellation and its end, which release the lists once. -/
inductive Winds (b : Standing) : Standing → Prop
  | refl : Winds b b
  | cancel {c : Standing} : Winds b c → Winds b c.cancel
  | finish {c : Standing} : Winds b c → Winds b c.finish

theorem Winds.trans {b c d : Standing} (h : b.Winds c) (h' : c.Winds d) : b.Winds d := by
  induction h' with
  | refl => exact h
  | cancel _ ih => exact ih.cancel
  | finish _ ih => exact ih.finish

/-- What an accepted transaction does to the standing. -/
inductive Step (b : Standing) (i : PMP.Input) : Standing → Prop
  | winds {c : Standing} (h : b.Winds c) : Step b i c
  | approved {k n m : ℕ} {tr : Option Addr} (hcall : i.call = .approveEvent k n tr)
      (hc : b.isCancelled = false) (hf : b.confirmed? i.sender = some false)
      (hm : m = b.numOutcomes ∨ m = n) : Step b i { b.confirm i.sender with
        numOutcomes := m
        oracleEventsAddress := fun a => if some a = tr then some k else b.oracleEventsAddress a }
  | mismatched {k n : ℕ} {tr : Option Addr} (hcall : i.call = .approveEvent k n tr)
      (hc : b.isCancelled = false) (hf : b.confirmed? i.sender = some false) : Step b i { b with
        numOutcomes := n
        cancels := b.cancels ++ [i.sender]
        destroyed := true }
  | duplicate {k n m : ℕ} {tr : Option Addr} (hcall : i.call = .approveEvent k n tr)
      (hc : b.isCancelled = false) (hf : b.confirmed? i.sender = some false)
      (hm : m = b.numOutcomes ∨ m = n) : Step b i
        { (b.confirm i.sender).cancelLists with numOutcomes := m, destroyed := true }
  | retried (hcall : i.call = .onBounce) (hc : b.isCancelled = true)
      (hs : (b.confirmed? i.sender).isSome = true) :
      Step b i { b with cancels := b.cancels ++ [i.sender] }

end Standing

namespace PMP

/-- How a PMP stands with its lists. -/
def standing (s : PMP) : Standing where
  oracleEventsConfirmed := s.oracleEventsConfirmed
  oracleEventsAddress := s.oracleEventsAddress
  numOutcomes := s.numOutcomes
  countReleased := s.countReleased
  isCancelled := s.isCancelled
  destroyed := s.destroyed
  cancels := s.actions.filterMap PmpAction.cancels?

variable {s t : PMP}

theorem act_standing (s : PMP) {a : PmpAction} (h : a.cancels? = none) :
    (s.act a).standing = s.standing := by
  simp [standing, act, h]

theorem act_cancelEvent_standing (s : PMP) (a : Addr) : (s.act (.cancelEvent a)).standing =
    { s.standing with cancels := s.standing.cancels ++ [a] } := by
  simp [standing, act, PmpAction.cancels?]

@[simp] theorem send_standing (a : Addr) (cb : PmpCallback) :
    (s.send a cb).standing = s.standing :=
  s.act_standing rfl

@[simp] theorem emit_standing (e : PmpEvent) : (s.emit e).standing = s.standing :=
  s.act_standing rfl

@[simp] theorem setPools_standing (p : Pools) : (s.setPools p).standing = s.standing := rfl

@[simp] theorem setRewards_standing (r : Rewards) : (s.setRewards r).standing = s.standing := rfl

@[simp] theorem setTimings_standing' (a b : ℕ) :
    (s.setCore (s.toCore.setTimings a b)).standing = s.standing := rfl

@[simp] theorem clearRefund_standing :
    (s.setCore s.toCore.clearRefund).standing = s.standing := rfl

@[simp] theorem setBookDone_standing :
    (s.setCore s.toCore.setBookDone).standing = s.standing := rfl

theorem setNumOutcomes_standing (n : ℕ) : (s.setCore (s.toCore.setNumOutcomes n)).standing =
    { s.standing with numOutcomes := n } := rfl

theorem confirm_standing (a : Addr) :
    (s.setOracles (s.toOracles.confirm a)).standing = s.standing.confirm a := rfl

theorem selfdestruct_standing (a : Addr) :
    (s.selfdestruct a).standing = { s.standing with destroyed := true } :=
  act_standing _ rfl

theorem cancelLists_standing : s.cancelLists.standing = s.standing.cancelLists := by
  have h : (s.confirmedLists.map PmpAction.cancelEvent).filterMap PmpAction.cancels? =
      s.standing.confirmedLists := by
    rw [List.filterMap_map]
    exact List.filterMap_some
  simp [standing, cancelLists, Standing.cancelLists, List.filterMap_append, h]

@[simp] theorem ensureBalance_standing (now : ℕ) :
    (s.ensureBalance now).standing = s.standing := by
  unfold ensureBalance triggerOrderBookShutdown
  split_ifs
  · rfl
  · exact act_standing _ rfl

theorem releaseOracleCounts_standing : s.releaseOracleCounts.standing = s.standing.release := by
  have h : s.standing.countReleased = s.countReleased := rfl
  unfold releaseOracleCounts Standing.release
  rw [h]
  split_ifs
  · rfl
  · exact cancelLists_standing

@[simp] theorem refundInitialStakes_standing : s.refundInitialStakes.standing = s.standing :=
  send_standing _ _

theorem giveUp_standing : s.giveUp.standing = { s.standing with destroyed := true } := by
  unfold giveUp
  rw [selfdestruct_standing]
  split_ifs <;> simp

theorem release_finish (a : Addr) :
    (s.releaseOracleCounts.selfdestruct a).standing = s.standing.finish := by
  rw [selfdestruct_standing, releaseOracleCounts_standing]
  rfl

theorem release_giveUp : s.releaseOracleCounts.giveUp.standing = s.standing.finish := by
  rw [giveUp_standing, releaseOracleCounts_standing]
  rfl

theorem finalizeResidualClose_standing :
    s.finalizeResidualClose.standing = s.standing.finish := by
  unfold finalizeResidualClose
  dsimp only
  rw [release_finish]
  split_ifs <;> simp

theorem finalizeWinClose_standing : s.finalizeWinClose.standing = s.standing.finish := by
  unfold finalizeWinClose
  dsimp only
  rw [release_finish]
  split_ifs <;> simp

theorem closeWin_standing (k : ℕ) : s.standing.Winds (s.closeWin k).standing := by
  unfold closeWin
  split_ifs
  · rw [finalizeWinClose_standing]
    exact .finish .refl
  · exact .refl

theorem closeDebtRefund_standing : s.standing.Winds s.closeDebtRefund.standing := by
  unfold closeDebtRefund
  split_ifs
  · rw [finalizeResidualClose_standing]
    exact .finish .refl
  · exact .refl

theorem closeCancelled_standing : s.standing.Winds s.closeCancelled.standing := by
  unfold closeCancelled
  split_ifs
  · rw [finalizeResidualClose_standing]
    exact .finish .refl
  · exact .refl

theorem tryClose_standing : s.standing.Winds s.tryClose.standing := by
  unfold tryClose
  split <;> split_ifs
  · exact closeDebtRefund_standing
  · exact closeWin_standing _
  · exact .refl
  · exact .refl
  · exact closeCancelled_standing
  · exact .refl

@[simp] theorem payCreatorFee_standing : s.payCreatorFee.standing = s.standing := by
  unfold payCreatorFee
  split_ifs
  · simp
  · rfl

theorem freeze_standing {g : ℕ} (h : s.freeze g = some t) : t.standing = s.standing := by
  simp only [freeze, bind_iff, pure_iff] at h
  obtain ⟨⟨p, paid⟩, -, rfl⟩ := h
  rw [emit_standing]
  refine (act_standing _ rfl).trans ?_
  by_cases hr : 0 < (s.toPools.refundAmounts s.numOutcomes g).sum
  · rw [if_pos hr]
    exact send_standing (s := s.setPools p) _ _
  · rw [if_neg hr]
    rfl

theorem ensureFrozen_standing {now : ℕ} (h : s.ensureFrozen now = some t) :
    t.standing = s.standing := by
  unfold ensureFrozen at h
  split_ifs at h
  · rw [← Option.some.inj h]
  · simp only [bind_iff] at h
    obtain ⟨-, -, -, g, -, -, h⟩ := h
    exact freeze_standing h

theorem cancelEvent_standing {now : ℕ} (h : s.cancelEvent now = some t) :
    t.standing = s.standing.cancel := by
  simp only [cancelEvent, bind_iff, pure_iff] at h
  obtain ⟨-, -, -, rfl⟩ := h
  have h1 : (s.setCore s.toCore.cancel).standing = { s.standing with isCancelled := true } := rfl
  rw [emit_standing, releaseOracleCounts_standing, ensureBalance_standing, h1]
  unfold Standing.cancel Standing.release
  dsimp only
  split_ifs <;> rfl

theorem autoCancel_standing {now : ℕ} (h : s.autoCancel now = some t) :
    s.standing.Winds t.standing := by
  unfold autoCancel at h
  split_ifs at h
  · rw [cancelEvent_standing h]
    exact .cancel .refl
  · cases h
    exact .refl

theorem resolve_standing {now k : ℕ} (h : s.resolve now k = some t) :
    t.standing = s.standing := by
  simp only [resolve, bind_iff, pure_iff] at h
  obtain ⟨-, u, hz, -, -, -, -, -, -, rfl⟩ := h
  rw [emit_standing, payCreatorFee_standing, setRewards_standing, ensureBalance_standing]
  exact ensureFrozen_standing hz

theorem setTimings_standing {now r : ℕ} (h : s.setTimings now r = some t) :
    t.standing = s.standing := by
  simp only [setTimings, bind_iff, pure_iff] at h
  obtain ⟨-, -, -, -, -, u, hz, rfl⟩ := h
  have hf : ∀ v : PMP, v.freezeIfEnded now = some u → u.standing = v.standing := by
    intro v hv
    unfold freezeIfEnded at hv
    split_ifs at hv
    · exact ensureFrozen_standing hv
    · rw [← Option.some.inj hv]
  have hu := hf _ hz
  rw [emit_standing, ensureBalance_standing]
  have hw : (if u.frozen = true then u.act (.setResultStart u.resultStart) else u).standing =
      u.standing := by
    split_ifs
    · exact act_standing _ rfl
    · rfl
  rw [hw, hu, setTimings_standing']
  split_ifs
  · exact emit_standing _
  · rfl

theorem openPools_standing {n : ℕ} (h : s.openPools n = some (some t)) :
    t.standing = { s.standing with numOutcomes := n } := by
  obtain ⟨-, -, p, -, rfl⟩ := openPools_cases h
  exact send_standing _ _

theorem recordApproval_standing {a : Addr} {k : ℕ} {tr : Option Addr}
    (h : s.recordApproval a k tr = some t) :
    t.standing = { s.standing.confirm a with
      oracleEventsAddress := fun a =>
        if some a = tr then some k else s.standing.oracleEventsAddress a } ∨
    t.standing = { (s.standing.confirm a).cancelLists with destroyed := true } := by
  obtain rfl | ⟨-, rfl | rfl⟩ := recordApproval_cases h
  · right
    rw [selfdestruct_standing, cancelLists_standing, refundInitialStakes_standing,
      confirm_standing]
  · exact .inl (emit_standing _)
  · exact .inl rfl

variable {i : Input}

theorem approveEvent_standing {k n : ℕ} {tr : Option Addr}
    (hcall : i.call = .approveEvent k n tr)
    (h : s.approveEvent i.sender i.now k n tr = some t) : s.standing.Step i t.standing := by
  obtain rfl | ⟨hf, hc, -, h⟩ := approveEvent_cases h
  · exact .winds .refl
  have hf : s.standing.confirmed? i.sender = some false := hf
  have hu := s.ensureBalance_standing i.now
  generalize s.ensureBalance i.now = u at h hu
  have hr : ∀ (v : PMP) (m : ℕ), (m = s.standing.numOutcomes ∨ m = n) →
      v.standing = { s.standing with numOutcomes := m } →
      v.recordApproval i.sender k tr = some t → s.standing.Step i t.standing := by
    intro v m hm hv hr
    rcases recordApproval_standing hr with ht | ht
    · rw [hv] at ht
      rw [ht]
      exact .approved hcall hc hf hm
    · rw [hv] at ht
      rw [ht]
      exact .duplicate hcall hc hf hm
  obtain rfl | ⟨-, v, hv, h⟩ | ⟨-, h⟩ := h
  · rw [selfdestruct_standing, act_cancelEvent_standing, refundInitialStakes_standing,
      setNumOutcomes_standing, hu]
    exact .mismatched hcall hc hf
  · refine hr v n (.inr rfl) ?_ h
    rw [openPools_standing hv, hu]
  · exact hr u s.standing.numOutcomes (.inl rfl) hu h

theorem claimDebtRefund_standing (w : Addr) (d : List ℕ) :
    s.standing.Winds (s.claimDebtRefund w d).standing := by
  unfold claimDebtRefund
  dsimp only
  refine Standing.Winds.trans ?_ closeDebtRefund_standing
  rw [emit_standing, send_standing, setPools_standing, setRewards_standing]
  exact .refl

theorem claimWin_standing (w : Addr) (k x d b : ℕ) :
    s.standing.Winds (s.claimWin w k x d b).standing := by
  unfold claimWin
  dsimp only
  refine Standing.Winds.trans ?_ (closeWin_standing k)
  rw [setRewards_standing, emit_standing, send_standing, setPools_standing, setRewards_standing]
  exact .refl

theorem submitSetTimings_standing {c : Caller} {now r : ℕ}
    (h : s.submitSetTimings c now r = some t) : t.standing = s.standing := by
  simp only [submitSetTimings, bind_iff, pure_iff] at h
  obtain ⟨p, -, h⟩ := h
  rw [← s.ensureBalance_standing now]
  split at h
  · rw [← Option.some.inj h]
  · split_ifs at h
    · exact (setTimings_standing h).trans rfl
    · rw [← Option.some.inj h]
      rfl

theorem submitResolve_standing {c : Caller} {now k : ℕ}
    (h : s.submitResolve c now k = some t) : t.standing = s.standing := by
  simp only [submitResolve, bind_iff, pure_iff] at h
  obtain ⟨p, -, h⟩ := h
  rw [← s.ensureBalance_standing now]
  split at h
  · rw [← Option.some.inj h]
  · split_ifs at h
    · exact (resolve_standing h).trans rfl
    · rw [← Option.some.inj h]
      rfl

theorem submitCancelEvent_standing {c : Caller} {now : ℕ}
    (h : s.submitCancelEvent c now = some t) : s.standing.Winds t.standing := by
  simp only [submitCancelEvent, bind_iff, pure_iff] at h
  obtain ⟨p, -, h⟩ := h
  rw [← s.ensureBalance_standing now]
  split_ifs at h
  · cases h
    exact .refl
  · rw [cancelEvent_standing h]
    exact .cancel .refl
  · cases h
    exact .refl

theorem cancelStake_standing {a : Addr} {now h' : ℕ} {x d b : List ℕ}
    (h : s.cancelStake a now x d b h' = some t) : s.standing.Winds t.standing := by
  simp only [cancelStake, bind_iff, pure_iff] at h
  obtain ⟨u, hu, -, -, -, -, p, -, rfl⟩ := h
  refine Standing.Winds.trans (autoCancel_standing hu) (Standing.Winds.trans ?_
    closeCancelled_standing)
  rw [send_standing, setPools_standing, ensureBalance_standing]
  exact .refl

theorem acceptStake_standing {a : Addr} {now k n h' : ℕ} {b : BetType}
    (h : s.acceptStake a now k n h' b = some t) : t.standing = s.standing := by
  simp only [acceptStake, bind_iff, pure_iff] at h
  obtain ⟨-, -, -, -, -, -, -, -, -, -, -, -, p, -, rfl⟩ := h
  rw [emit_standing, send_standing, setPools_standing, ensureBalance_standing]

theorem splitFullSet_standing {a : Addr} {now f h' : ℕ}
    (h : s.splitFullSet a now f h' = some t) : t.standing = s.standing := by
  simp only [splitFullSet, bind_iff, pure_iff] at h
  obtain ⟨u, hz, -, -, -, -, -, -, -, -, -, p, -, rfl⟩ := h
  rw [emit_standing, send_standing, setPools_standing, ensureBalance_standing]
  exact ensureFrozen_standing hz

theorem mergeFullSet_standing {a : Addr} {now h' : ℕ} {x : List ℕ}
    (h : s.mergeFullSet a now x h' = some t) : t.standing = s.standing := by
  simp only [mergeFullSet, bind_iff, pure_iff] at h
  obtain ⟨u, hz, -, -, -, -, -, -, -, -, -, -, -, -, -, ⟨p, paid⟩, -, rfl⟩ := h
  rw [emit_standing, send_standing, setPools_standing, ensureBalance_standing]
  exact ensureFrozen_standing hz

theorem freezeNow_standing {now : ℕ} (h : s.freezeNow now = some t) :
    t.standing = s.standing := by
  simp only [freezeNow, bind_iff] at h
  obtain ⟨-, -, -, -, hz⟩ := h
  exact (ensureFrozen_standing hz).trans (ensureBalance_standing now)

theorem claim_standing {a : Addr} {now h' : ℕ} {x d b : List ℕ}
    (h : s.claim a now x d b h' = some t) : s.standing.Winds t.standing := by
  simp only [claim, bind_iff, pure_iff] at h
  obtain ⟨-, -, -, -, -, h⟩ := h
  have hu := s.ensureBalance_standing now
  generalize s.ensureBalance now = u at h hu
  rw [← hu]
  cases hr : u.resolvedOutcome with
  | none =>
    simp only [hr, Option.some.injEq] at h
    rw [← h, send_standing]
    exact .refl
  | some =>
    simp only [hr, Option.some.injEq] at h
    rw [← h]
    split_ifs
    · exact claimDebtRefund_standing _ _
    · exact claimWin_standing _ _ _ _ _

theorem forfeitStake_standing {a : Addr} {now h' : ℕ} {x d b : List ℕ}
    (h : s.forfeitStake a now x d b h' = some t) : s.standing.Winds t.standing := by
  simp only [forfeitStake, bind_iff, pure_iff] at h
  obtain ⟨-, rfl⟩ := h
  refine Standing.Winds.trans ?_ tryClose_standing
  rw [send_standing, emit_standing, setPools_standing, ensureBalance_standing]
  exact .refl

theorem rejectEvent_standing {a : Addr} {now : ℕ} (h : s.rejectEvent a now = some t) :
    s.standing.Winds t.standing := by
  simp only [rejectEvent, bind_iff, pure_iff] at h
  obtain ⟨-, rfl⟩ := h
  rw [release_giveUp, emit_standing, ensureBalance_standing]
  exact .finish .refl

theorem onBounce_standing (hcall : i.call = .onBounce) :
    s.standing.Step i (s.onBounce i.sender i.now).standing := by
  unfold onBounce
  split_ifs with hs hc
  · exact .winds .refl
  · rw [act_cancelEvent_standing]
    have h1 : (s.confirmed? i.sender).isSome = true := by
      rw [Option.isSome_iff_ne_none]
      simpa using hs
    exact .retried hcall hc h1
  · rw [release_giveUp, ensureBalance_standing]
    exact .winds (.finish .refl)

theorem exec_standing (h : s.exec i.sender i.now i.call = some t) :
    s.standing.Step i t.standing := by
  have hkeep : t.standing = s.standing → s.standing.Step i t.standing := by
    intro ht
    rw [ht]
    exact .winds .refl
  cases hi : i.call with
  | rejectEvent =>
    rw [hi] at h
    exact .winds (rejectEvent_standing h)
  | approveEvent =>
    rw [hi] at h
    exact approveEvent_standing hi h
  | acceptStake =>
    rw [hi] at h
    exact hkeep (acceptStake_standing h)
  | cancelStake =>
    rw [hi] at h
    exact .winds (cancelStake_standing h)
  | freezeNow =>
    rw [hi] at h
    exact hkeep (freezeNow_standing h)
  | splitFullSet =>
    rw [hi] at h
    exact hkeep (splitFullSet_standing h)
  | mergeFullSet =>
    rw [hi] at h
    exact hkeep (mergeFullSet_standing h)
  | claim =>
    rw [hi] at h
    exact .winds (claim_standing h)
  | forfeitStake =>
    rw [hi] at h
    exact .winds (forfeitStake_standing h)
  | submitSetTimings =>
    rw [hi] at h
    exact hkeep (submitSetTimings_standing h)
  | submitResolve =>
    rw [hi] at h
    exact hkeep (submitResolve_standing h)
  | submitCancelEvent =>
    rw [hi] at h
    exact .winds (submitCancelEvent_standing h)
  | onBounce =>
    rw [hi] at h
    cases h
    exact onBounce_standing hi
  | confirmRefundReceived =>
    rw [hi] at h
    simp only [exec, confirmRefundReceived, bind_iff, pure_iff] at h
    obtain ⟨-, -, rfl⟩ := h
    exact hkeep (clearRefund_standing.trans (ensureBalance_standing i.now))
  | onOrderBookShutdownComplete =>
    rw [hi] at h
    simp only [exec, onOrderBookShutdownComplete, bind_iff, pure_iff] at h
    obtain ⟨-, rfl⟩ := h
    have hw := tryClose_standing (s := (s.ensureBalance i.now).setCore
      (s.ensureBalance i.now).toCore.setBookDone)
    rw [setBookDone_standing, ensureBalance_standing] at hw
    exact .winds hw

theorem step_standing (h : s.step i = some t) :
    s.destroyed = false ∧ Standing.Step { s.standing with cancels := [] } i t.standing := by
  unfold step at h
  split_ifs at h with hd
  exact ⟨by simpa using hd, exec_standing h⟩

end PMP

end Dexdo
