import Dexdo.PMP.Effect

namespace Dexdo.PMP

variable {s t : PMP} {i : Input}

/-- An approved PMP waits for no further oracle list. -/
def Ready (s : PMP) : Prop := s.approved = true → s.numberOfOracleEvents ≤ s.approvedOracleEvents

theorem giveUp_effect (h0 : s.sent = []) (hc : i.call.aborts = true) :
    Effect s.toCore i s.giveUp.sent s.giveUp.toCore := by
  refine .of_eq (.abort s.numOutcomes s.giveUp.sent hc ?_) rfl ?_
  · by_cases h : s.initialStakes = [] <;> simp [giveUp, h, h0]
  · by_cases h : s.initialStakes = [] <;> simp [giveUp, h] <;> rfl

theorem rejectEvent_effect {a : Addr} {now : ℕ} (h0 : s.sent = []) (hc : i.call.aborts = true)
    (h : s.rejectEvent a now = some t) : Effect s.toCore i t.sent t.toCore := by
  simp only [rejectEvent, bind_iff, pure_iff] at h
  obtain ⟨-, rfl⟩ := h
  have h1 := giveUp_effect (s := ((s.ensureBalance now).emit .pmpRejected).releaseOracleCounts)
    (i := i) (by simpa using h0) hc
  simpa using h1

theorem onBounce_effect (a : Addr) (now : ℕ) (h0 : s.sent = []) (hc : i.call.aborts = true) :
    Effect s.toCore i (s.onBounce a now).sent (s.onBounce a now).toCore := by
  unfold onBounce
  split_ifs
  · rw [h0]
    exact .idle
  · rw [act_sent, h0]
    exact .idle
  · have h1 := giveUp_effect (s := (s.ensureBalance now).releaseOracleCounts) (i := i)
      (by simpa using h0) hc
    simpa using h1

/-- The opening of the pools, when the number of outcomes is right. -/
theorem openPools_cases {n : ℕ} (h : s.openPools n = some (some t)) :
    s.initialStakes.length = n ∧ (∀ x ∈ s.initialStakes, 0 < x) ∧
      ∃ p, s.toPools.creditInitial s.initialStakes = some p ∧
        t = ((s.setCore (s.toCore.setNumOutcomes n)).setPools p).send s.deployer
          (.onInitialStakesAccepted s.initialStakes) := by
  unfold openPools at h
  dsimp only at h
  split_ifs at h with hl
  · cases h
  · simp only [bind_iff, pure_iff] at h
    obtain ⟨hpos, p, hp, h⟩ := h
    cases h
    exact ⟨not_not.mp hl, hpos, p, hp, rfl⟩

theorem openPools_spec {n : ℕ} (h : s.openPools n = some (some t)) :
    ∃ p, (∀ x ∈ s.initialStakes, 0 < x) ∧ s.toPools.creditInitial s.initialStakes = some p ∧
      t.toCore = s.toCore.openWith p ∧
      t.sent = s.sent ++ [(s.deployer, .onInitialStakesAccepted s.initialStakes)] := by
  obtain ⟨hn, hpos, p, hp, rfl⟩ := openPools_cases h
  exact ⟨p, hpos, hp, by simp [Core.openWith, hn], by simp⟩

/-- An approval under a known key ends the PMP; any other is registered, the last one announced. -/
theorem recordApproval_cases {a : Addr} {k : ℕ} {tr : Option Addr}
    (h : s.recordApproval a k tr = some t) :
    let u := s.setOracles (s.toOracles.confirm a)
    t = u.refundInitialStakes.cancelLists.selfdestruct .rootPN ∨ k ∉ s.oracleEventsPubkeys ∧
      (t = (u.setOracles (u.toOracles.register k tr)).emit (.approvedByOracle a k) ∨
        t = u.setOracles (u.toOracles.register k tr)) := by
  unfold recordApproval at h
  dsimp only at h ⊢
  by_cases hd : k ∈ (s.setOracles (s.toOracles.confirm a)).oracleEventsPubkeys
  · rw [if_pos hd] at h
    cases h
    exact .inl rfl
  · rw [if_neg hd] at h
    simp only [bind_iff, pure_iff] at h
    obtain ⟨-, rfl⟩ := h
    refine .inr ⟨hd, ?_⟩
    split_ifs
    · exact .inl rfl
    · exact .inr rfl

theorem recordApproval_spec {a : Addr} {k : ℕ} {tr : Option Addr}
    (h : s.recordApproval a k tr = some t) :
    t.toCore = s.toCore ∧ t.sent = s.sent ∨ t.toCore = s.toCore.destroy ∧
      t.sent = s.sent ++ [(s.deployer, .onInitialStakesFailed s.initialStakes.sum)] := by
  obtain rfl | ⟨-, rfl | rfl⟩ := recordApproval_cases h
  · exact .inr ⟨by simp, by simp⟩
  · exact .inl ⟨by simp, by simp⟩
  · exact .inl ⟨by simp, by simp⟩

/-- An approval that changes anything is the first of its list, and either ends the PMP, as the
first one with the wrong number of outcomes, or is recorded. -/
theorem approveEvent_cases {a : Addr} {now k n : ℕ} {tr : Option Addr}
    (h : s.approveEvent a now k n tr = some t) :
    t = s ∨ s.confirmed? a = some false ∧ s.isCancelled = false ∧
      s.approvedOracleEvents < s.numberOfOracleEvents ∧
      let u := s.ensureBalance now
      (t = ((u.setCore (u.toCore.setNumOutcomes n)).refundInitialStakes.act
          (.cancelEvent a)).selfdestruct .rootPN ∨
        (u.approvedOracleEvents = 0 ∧ ∃ v, u.openPools n = some (some v) ∧
          v.recordApproval a k tr = some t) ∨
        u.approvedOracleEvents ≠ 0 ∧ u.recordApproval a k tr = some t) := by
  simp only [approveEvent, bind_iff, pure_iff] at h
  obtain ⟨b, hf, -, h⟩ := h
  cases b with
  | true =>
    cases h
    exact .inl rfl
  | false =>
    rw [if_neg Bool.false_ne_true, Option.bind_eq_some_iff] at h
    obtain ⟨_, hg, h⟩ := h
    by_cases hall : s.numberOfOracleEvents ≤ s.approvedOracleEvents
    · rw [if_pos hall] at h
      cases h
      exact .inl rfl
    · rw [if_neg hall] at h
      refine .inr ⟨hf, by simpa using of_guard hg, not_le.mp hall, ?_⟩
      dsimp only
      split_ifs at h with h0
      · obtain ⟨r, hr, h⟩ := of_bind h
        cases r with
        | none =>
          cases h
          exact .inl rfl
        | some v => exact .inr (.inl ⟨h0, v, hr, h⟩)
      · exact .inr (.inr ⟨h0, h⟩)

/-- An approval is recorded, opens the pools or ends the PMP. -/
theorem approveEvent_effect {a : Addr} {now k n : ℕ} {tr : Option Addr} (h0 : s.sent = [])
    (hc : i.call.aborts = true) (hready : s.Ready) (h : s.approveEvent a now k n tr = some t) :
    Effect s.toCore i t.sent t.toCore := by
  obtain rfl | ⟨-, -, hlt, h⟩ := approveEvent_cases h
  · rw [h0]
    exact .idle
  have ha : s.approved = false := Bool.eq_false_iff.mpr fun h => absurd (hready h) (not_le.mpr hlt)
  have hcore := s.ensureBalance_core now
  have hsent := (s.ensureBalance_sent now).trans h0
  generalize s.ensureBalance now = u at h hcore hsent
  rw [← hcore] at ha ⊢
  obtain rfl | ⟨-, v, hv, h⟩ | ⟨-, h⟩ := h
  · exact .of_eq (.abort n _ hc (.inr rfl)) (by simp [hsent, PmpAction.callback?]) (by simp)
  · obtain ⟨p, hpos, hp, hvc, hvs⟩ := openPools_spec hv
    rw [hsent, List.nil_append] at hvs
    rcases recordApproval_spec h with ⟨h1, h2⟩ | ⟨h1, h2⟩
    · exact .of_eq (.opened p ha hpos hp) (h2.trans hvs) (h1.trans hvc)
    · refine .of_eq (.openedAbort p hc hp) ?_ (h1.trans (congrArg Core.destroy hvc))
      rw [h2, hvs, hvc]
      rfl
  · rcases recordApproval_spec h with ⟨h1, h2⟩ | ⟨h1, h2⟩
    · rw [h1, h2, hsent]
      exact .idle
    · exact .of_eq (.abort u.numOutcomes _ hc (.inr rfl)) (by simp [h2, hsent]) (h1.trans rfl)

theorem setTimings_effect {now r : ℕ} (h0 : s.sent = []) (h : s.setTimings now r = some t) :
    Effect s.toCore i t.sent t.toCore := by
  simp only [setTimings, bind_iff, pure_iff] at h
  obtain ⟨hu, -, -, -, -, u, hz, rfl⟩ := h
  have hc : (if s.stakeStart = 0 then s.emit .networkFeeBurned else s).toCore = s.toCore := by
    split_ifs <;> rfl
  have hs : (if s.stakeStart = 0 then s.emit .networkFeeBurned else s).sent = [] := by
    split_ifs <;> simp [h0]
  generalize (if s.stakeStart = 0 then s.emit .networkFeeBurned else s) = v at hz hc hs
  generalize (if s.stakeStart = 0 then now else s.stakeStart) = st at hz
  have hf : ∃ os, MaybeFreeze (v.toCore.setTimings st r) os u.toCore ∧ u.sent = os := by
    unfold freezeIfEnded at hz
    split_ifs at hz
    · obtain ⟨os, hm, hsent, -⟩ := ensureFrozen_spec hz
      exact ⟨os, hm, by simpa [hs] using hsent⟩
    · cases hz
      exact ⟨[], .skip, hs⟩
  obtain ⟨os, hm, hsent⟩ := hf
  rw [hc] at hm
  refine .of_eq (.timings _ _ os u.toCore (by simpa using hu) hm) ?_ ?_
  · by_cases hfr : u.frozen = true <;> simp [hfr, hsent, PmpAction.callback?]
  · by_cases hfr : u.frozen = true <;> simp [hfr]

theorem cancelEvent_spec {now : ℕ} (h : s.cancelEvent now = some t) :
    s.resolvedOutcome = none ∧ s.isCancelled = false ∧ t.toCore = s.toCore.cancel ∧
      t.sent = s.sent := by
  simp only [cancelEvent, bind_iff, pure_iff] at h
  obtain ⟨-, hc, hu, rfl⟩ := h
  exact ⟨by simpa using hu, by simpa using hc, by simp, by simp⟩

theorem acceptStake_effect {a : Addr} {now k n h' : ℕ} {b : BetType} (h0 : s.sent = [])
    (hc : i.call = .acceptStake k n h' b) (hs : i.sender = a)
    (h : s.acceptStake a now k n h' b = some t) : Effect s.toCore i t.sent t.toCore := by
  simp only [acceptStake, bind_iff, pure_iff] at h
  obtain ⟨ha, hcan, hu, -, hk, hf, -, -, hb, rfl, hcr, -, p, hp, rfl⟩ := h
  rw [ensureBalance_core] at hp
  exact .of_eq (.stake k n h' b p hc hs ha (by simpa using hcan) (by simpa using hu) hk
    (by simpa using hf) hb hcr hp) (by simp [h0]) (by simp)

theorem cancelStake_effect {a : Addr} {now h' : ℕ} {x d b : List ℕ} (h0 : s.sent = [])
    (hc : i.call = .cancelStake x d b h') (hs : i.sender = a)
    (h : s.cancelStake a now x d b h' = some t) : Effect s.toCore i t.sent t.toCore := by
  simp only [cancelStake, bind_iff, pure_iff] at h
  obtain ⟨u, hu, hcan, hb, rfl, hn, p, hp, rfl⟩ := h
  have he : u.sent = [] ∧ (u.toCore = s.toCore ∨
      (s.resolvedOutcome = none ∧ s.isCancelled = false ∧ u.toCore = s.toCore.cancel)) := by
    unfold autoCancel at hu
    split_ifs at hu
    · obtain ⟨h1, h2, h3, h4⟩ := cancelEvent_spec hu
      exact ⟨h4.trans h0, .inr ⟨h1, h2, h3⟩⟩
    · cases hu
      exact ⟨h0, .inl rfl⟩
  rw [ensureBalance_core] at hp
  obtain ⟨hcore, hsent⟩ := closeCancelled_tracks
    (((u.ensureBalance now).setPools (p.payOut (p.clamp (x.sum + d.sum)))).send (.note h')
      (.onStakeCancelled (p.clamp (x.sum + d.sum)) b.sum))
  refine .of_eq (.refund x d b h' u.toCore p hc hs he.2 hcan (by simpa using hb) (by simpa using hn)
    hp) ?_ ?_
  · rw [hsent]
    simp [he.1]
  · rw [hcore]
    simp

theorem freezeNow_effect {now : ℕ} (h0 : s.sent = []) (h : s.freezeNow now = some t) :
    Effect s.toCore i t.sent t.toCore := by
  simp only [freezeNow, bind_iff] at h
  obtain ⟨-, -, -, -, hz⟩ := h
  obtain ⟨os, hm, hs, -⟩ := ensureFrozen_spec hz
  rw [ensureBalance_core] at hm
  exact .of_eq (.frozenNow os _ hm) (by simp [hs, h0]) rfl

theorem splitFullSet_effect {a : Addr} {now f h' : ℕ} (h0 : s.sent = [])
    (hc : i.call = .splitFullSet f h') (hs : i.sender = a)
    (h : s.splitFullSet a now f h' = some t) : Effect s.toCore i t.sent t.toCore := by
  simp only [splitFullSet, bind_iff, pure_iff] at h
  obtain ⟨u, hz, hu, hcan, -, -, hn, -, rfl, hq, -, p, hp, rfl⟩ := h
  obtain ⟨os, hm, hsent, hf⟩ := ensureFrozen_spec hz
  simp only [ensureBalance_core] at hp hq
  exact .of_eq (.split f h' os u.toCore p hc hs hm hf (by simpa using hu) (by simpa using hcan)
    (by simpa using hn) hq hp) (by simp [hsent, h0]) (by simp)

theorem mergeFullSet_effect {a : Addr} {now h' : ℕ} {x : List ℕ} (h0 : s.sent = [])
    (hc : i.call = .mergeFullSet x h') (hs : i.sender = a)
    (h : s.mergeFullSet a now x h' = some t) : Effect s.toCore i t.sent t.toCore := by
  simp only [mergeFullSet, bind_iff, pure_iff] at h
  obtain ⟨u, hz, hu, hcan, -, hl, -, hn, rfl, -, hzero, -, -, -, -, ⟨p, paid⟩, hp, rfl⟩ := h
  obtain ⟨os, hm, hsent, hf⟩ := ensureFrozen_spec hz
  simp only [ensureBalance_core] at hp hzero
  exact .of_eq (.merge x h' _ paid os u.toCore p hc hs hm hf (by simpa using hu)
    (by simpa using hcan) (by simpa using hn) hl hzero rfl hp) (by simp [hsent, h0]) (by simp)

theorem resolve_effect {now k : ℕ} (h0 : s.sent = []) (h : s.resolve now k = some t) :
    Effect s.toCore i t.sent t.toCore := by
  simp only [resolve, bind_iff, pure_iff] at h
  obtain ⟨-, u, hz, hcan, hu, hk, -, -, hfit, rfl⟩ := h
  obtain ⟨os, hm, hsent, hf⟩ := ensureFrozen_spec hz
  refine .of_eq (.resolved k os u.toCore hm hf (by simpa using hu) (by simpa using hcan) hk hfit)
    ?_ ?_
  · by_cases hfee : 0 < (u.toPools.rewards k).creatorFee <;>
      simp [payCreatorFee, Core.resolve, Core.feeMail, hfee, hsent, h0]
  · by_cases hfee : 0 < (u.toPools.rewards k).creatorFee <;>
      simp [payCreatorFee, Core.resolve, hfee]

theorem claimDebtRefund_tracks (w : Addr) (d : List ℕ) :
    Tracks (s.send w (.onClaimAccepted s.resolvedOutcome 0 (s.toCore.debtOwed d) 0 0))
      (s.claimDebtRefund w d) (s.toCore.refundDebt (s.toCore.debtOwed d)).closeDebtRefund := by
  unfold claimDebtRefund
  dsimp only
  generalize hv : (((s.setRewards _).setPools _).send _ _).emit _ = v
  have hc : v.toCore = s.toCore.refundDebt (s.toCore.debtOwed d) := by rw [← hv]; rfl
  have hs : v.sent = (s.send w (.onClaimAccepted s.resolvedOutcome 0 (s.toCore.debtOwed d) 0
      0)).sent := by
    rw [← hv]
    simp [Core.debtOwed]
  rw [← hc]
  exact ⟨v.closeDebtRefund_tracks.1, hs ▸ v.closeDebtRefund_tracks.2⟩

theorem claimWin_tracks (w : Addr) (k x d b : ℕ) {q : Payout} (hq : q = s.toCore.paid x d b) :
    Tracks (s.send w (.onClaimAccepted s.resolvedOutcome q.clean q.debt q.coupon q.debtPaid))
      (s.claimWin w k x d b) ((s.toCore.payWin x d b).closeWin k) := by
  unfold claimWin
  dsimp only
  generalize hv : (((s.setRewards _).setPools _).send _ _).emit _ = v
  have hc : (v.setRewards (v.toRewards.settle (x + d + b))).toCore = s.toCore.payWin x d b := by
    rw [← hv]
    rfl
  have hs : (v.setRewards (v.toRewards.settle (x + d + b))).sent = (s.send w
      (.onClaimAccepted s.resolvedOutcome q.clean q.debt q.coupon q.debtPaid)).sent := by
    rw [← hv, hq]
    simp [Core.paid, Core.capped, Rewards.spend]
  generalize v.setRewards (v.toRewards.settle (x + d + b)) = u at hc hs
  rw [← hc]
  exact ⟨(u.closeWin_tracks k).1, hs ▸ (u.closeWin_tracks k).2⟩

/-- A claim is refunded, paid or gets nothing. -/
theorem claim_effect {a : Addr} {now h' : ℕ} {x d b : List ℕ} (h0 : s.sent = [])
    (hc : i.call = .claim x d b h') (hs : i.sender = a)
    (h : s.claim a now x d b h' = some t) : Effect s.toCore i t.sent t.toCore := by
  simp only [claim, bind_iff, pure_iff] at h
  obtain ⟨-, hdone, -, rfl, -, h⟩ := h
  have hcore := s.ensureBalance_core now
  have hsent := (s.ensureBalance_sent now).trans h0
  generalize s.ensureBalance now = u at h hcore hsent
  rw [← hcore] at hdone ⊢
  cases hr : u.resolvedOutcome with
  | none =>
    simp only [hr, Option.some.injEq] at h
    subst h
    exact .of_eq (.claimNone x d b h' hc hs hr) (by simp [hsent]) (by simp)
  | some k =>
    simp only [hr, Option.some.injEq] at h
    split_ifs at h with hm
    · subst h
      obtain ⟨h1, h2⟩ := claimDebtRefund_tracks (s := u) (.note h') d
      exact .of_eq (.claimRefund x d b h' hc hs hdone hm (by simp [hr])) (by simp [h2, hsent]) h1
    · subst h
      obtain ⟨h1, h2⟩ := claimWin_tracks (s := u) (.note h') k (x.getD k 0) (d.getD k 0)
        (b.getD k 0) rfl
      refine .of_eq (.claimWin x d b h' k _ hc hs hdone (by simpa using hm) hr rfl) ?_ h1
      rw [h2, send_sent, hsent, hr]
      rfl

theorem forfeitStake_effect {a : Addr} {now h' : ℕ} {x d b : List ℕ} (h0 : s.sent = [])
    (hc : i.call = .forfeitStake x d b h') (hs : i.sender = a)
    (h : s.forfeitStake a now x d b h' = some t) : Effect s.toCore i t.sent t.toCore := by
  simp only [forfeitStake, bind_iff, pure_iff] at h
  obtain ⟨rfl, rfl⟩ := h
  obtain ⟨h1, h2⟩ := tryClose_tracks ((((s.ensureBalance now).setPools
    ((s.ensureBalance now).toPools.forfeit (decide (Addr.note h' = (s.ensureBalance now).deployer))
      x d b)).emit (.stakeForfeited (.note h') x d b)).send (.note h') .onForfeitAccepted)
  refine .of_eq (.forfeit x d b h' _ hc hs rfl) ?_ ?_
  · rw [h2]
    simp [h0]
  · rw [h1]
    simp

theorem submitSetTimings_effect {c : Caller} {now r : ℕ} (h0 : s.sent = [])
    (h : s.submitSetTimings c now r = some t) : Effect s.toCore i t.sent t.toCore := by
  obtain ⟨k, -, h⟩ := of_bind h
  dsimp only at h
  rw [← s.ensureBalance_core now]
  have hsent := (s.ensureBalance_sent now).trans h0
  generalize s.ensureBalance now = u at h hsent
  cases hv : u.timings.vote k r with
  | none =>
    simp only [hv, Option.pure_def, Option.some.injEq] at h
    rw [← h, hsent]
    exact .idle
  | some =>
    simp only [hv] at h
    split_ifs at h
    · simpa using setTimings_effect (i := i) (by simpa using hsent) h
    · cases h
      exact .of_eq .idle (by simp [hsent]) (by simp)

theorem submitResolve_effect {c : Caller} {now k' : ℕ} (h0 : s.sent = [])
    (h : s.submitResolve c now k' = some t) : Effect s.toCore i t.sent t.toCore := by
  obtain ⟨k, -, h⟩ := of_bind h
  dsimp only at h
  rw [← s.ensureBalance_core now]
  have hsent := (s.ensureBalance_sent now).trans h0
  generalize s.ensureBalance now = u at h hsent
  cases hv : u.resolves.vote k k' with
  | none =>
    simp only [hv, Option.pure_def, Option.some.injEq] at h
    rw [← h, hsent]
    exact .idle
  | some =>
    simp only [hv] at h
    split_ifs at h
    · simpa using resolve_effect (i := i) (by simpa using hsent) h
    · cases h
      exact .of_eq .idle (by simp [hsent]) (by simp)

theorem submitCancelEvent_effect {c : Caller} {now : ℕ} (h0 : s.sent = [])
    (h : s.submitCancelEvent c now = some t) : Effect s.toCore i t.sent t.toCore := by
  obtain ⟨k, -, h⟩ := of_bind h
  dsimp only at h
  rw [← s.ensureBalance_core now]
  have hsent := (s.ensureBalance_sent now).trans h0
  generalize s.ensureBalance now = u at h hsent
  split_ifs at h
  · cases h
    rw [hsent]
    exact .idle
  · obtain ⟨h1, h2, h3, h4⟩ := cancelEvent_spec h
    exact .of_eq (.cancelled h1 h2) (h4.trans hsent) h3
  · cases h
    exact .of_eq .idle (by simp [hsent]) (by simp)

/-- An accepted transaction has one of the listed effects. -/
theorem step_effect (hr : s.Ready) (h : s.step i = some t) :
    Effect s.toCore i t.sent t.toCore := by
  unfold step at h
  split_ifs at h with hd
  have h0 := s.begin_sent
  replace hr : s.begin.Ready := hr
  rw [← s.begin_core]
  generalize s.begin = s at h h0 hr
  obtain ⟨a, now, c⟩ := i
  cases c with
  | rejectEvent => exact rejectEvent_effect h0 rfl h
  | approveEvent => exact approveEvent_effect h0 rfl hr h
  | acceptStake => exact acceptStake_effect h0 rfl rfl h
  | cancelStake => exact cancelStake_effect h0 rfl rfl h
  | freezeNow => exact freezeNow_effect h0 h
  | splitFullSet => exact splitFullSet_effect h0 rfl rfl h
  | mergeFullSet => exact mergeFullSet_effect h0 rfl rfl h
  | claim => exact claim_effect h0 rfl rfl h
  | forfeitStake => exact forfeitStake_effect h0 rfl rfl h
  | submitSetTimings => exact submitSetTimings_effect h0 h
  | submitResolve => exact submitResolve_effect h0 h
  | submitCancelEvent => exact submitCancelEvent_effect h0 h
  | onBounce =>
    cases h
    exact onBounce_effect a now h0 rfl
  | confirmRefundReceived h' =>
    simp only [exec, confirmRefundReceived, bind_iff, pure_iff] at h
    obtain ⟨rfl, hdep, rfl⟩ := h
    exact .of_eq (.refundReceived h' rfl rfl hdep.symm) (by simp [h0]) (by simp)
  | onOrderBookShutdownComplete =>
    simp only [exec, onOrderBookShutdownComplete, bind_iff, pure_iff] at h
    obtain ⟨hs, rfl⟩ := h
    obtain ⟨h1, h2⟩ := tryClose_tracks ((s.ensureBalance now).setCore
      (s.ensureBalance now).toCore.setBookDone)
    exact .of_eq (.bookDone rfl hs) (by simpa [h0] using h2) (by simpa using h1)

/-- What the approvals of the oracle lists build up. -/
structure Roster where
  approved : Bool
  numberOfOracleEvents : ℕ
  approvedOracleEvents : ℕ
  oracleEventsPubkeys : List ℕ
  initialStakes : List ℕ
  numOutcomes : ℕ

def roster (s : PMP) : Roster where
  approved := s.approved
  numberOfOracleEvents := s.numberOfOracleEvents
  approvedOracleEvents := s.approvedOracleEvents
  oracleEventsPubkeys := s.oracleEventsPubkeys
  initialStakes := s.initialStakes
  numOutcomes := s.numOutcomes

/-- What an accepted transaction does to the roster, and whether it may end the PMP. The first
approval fixes the outcomes. -/
inductive Roster.Step (r : Roster) (i : Input) : Bool → Roster → Prop
  | keep (d : Bool) : Step r i d r
  | timed (d : Bool) (h : r.numberOfOracleEvents ≤ r.approvedOracleEvents) :
      Step r i d { r with approved := true }
  | aborted (n : ℕ) : Step r i true { r with numOutcomes := n }
  | registered (d : Bool) (k n m : ℕ) (tr : Option Addr) (hcall : i.call = .approveEvent k n tr)
      (hm : (r.approvedOracleEvents = 0 ∧ n = r.initialStakes.length ∧ m = n) ∨
        (r.approvedOracleEvents ≠ 0 ∧ m = r.numOutcomes)) :
      Step r i d { r with
        approvedOracleEvents := r.approvedOracleEvents + 1
        oracleEventsPubkeys := k :: r.oracleEventsPubkeys
        numOutcomes := m }

theorem Roster.Step.of_eq {r r' r'' : Roster} {i : Input} {d d' : Bool} (h : r.Step i d r')
    (hd : d' = d) (hr : r'' = r') : r.Step i d' r'' := by
  rw [hd, hr]
  exact h

theorem Roster.Step.of_keep {d : Bool} (h : t.roster = s.roster) : s.roster.Step i d t.roster := by
  rw [h]
  exact .keep d

@[simp] theorem act_roster (a : PmpAction) : (s.act a).roster = s.roster := rfl
@[simp] theorem emit_roster (e : PmpEvent) : (s.emit e).roster = s.roster := rfl
@[simp] theorem send_roster (a : Addr) (cb : PmpCallback) : (s.send a cb).roster = s.roster := rfl
@[simp] theorem setPools_roster (p : Pools) : (s.setPools p).roster = s.roster := rfl
@[simp] theorem setRewards_roster (r : Rewards) : (s.setRewards r).roster = s.roster := rfl
@[simp] theorem selfdestruct_roster (a : Addr) : (s.selfdestruct a).roster = s.roster := rfl
@[simp] theorem ensureBalance_roster (now : ℕ) : (s.ensureBalance now).roster = s.roster := by
  unfold ensureBalance triggerOrderBookShutdown
  split_ifs <;> rfl

@[simp] theorem releaseOracleCounts_roster : s.releaseOracleCounts.roster = s.roster := by
  unfold releaseOracleCounts
  split_ifs <;> rfl

@[simp] theorem giveUp_roster : s.giveUp.roster = s.roster := by
  unfold giveUp
  split_ifs <;> rfl

@[simp] theorem finalizeResidualClose_roster : s.finalizeResidualClose.roster = s.roster := by
  unfold finalizeResidualClose
  dsimp only
  split_ifs <;> simp

@[simp] theorem finalizeWinClose_roster : s.finalizeWinClose.roster = s.roster := by
  unfold finalizeWinClose
  dsimp only
  split_ifs <;> simp

@[simp] theorem closeWin_roster (k : ℕ) : (s.closeWin k).roster = s.roster := by
  unfold closeWin
  split_ifs <;> simp

@[simp] theorem closeDebtRefund_roster : s.closeDebtRefund.roster = s.roster := by
  unfold closeDebtRefund
  split_ifs <;> simp

@[simp] theorem closeCancelled_roster : s.closeCancelled.roster = s.roster := by
  unfold closeCancelled
  split_ifs <;> simp

@[simp] theorem tryClose_roster : s.tryClose.roster = s.roster := by
  unfold tryClose
  split <;> split_ifs <;> simp

@[simp] theorem payCreatorFee_roster : s.payCreatorFee.roster = s.roster := by
  unfold payCreatorFee
  split_ifs <;> simp

theorem ensureFrozen_roster {now : ℕ} (h : s.ensureFrozen now = some t) : t.roster = s.roster := by
  unfold ensureFrozen at h
  split_ifs at h
  · rw [← Option.some.inj h]
  · simp only [freeze, bind_iff, pure_iff] at h
    obtain ⟨-, -, -, g, -, -, ⟨p, paid⟩, -, rfl⟩ := h
    by_cases hr : 0 < (s.toPools.refundAmounts s.numOutcomes g).sum
    · rw [if_pos hr]
      rfl
    · rw [if_neg hr]
      rfl

theorem cancelEvent_roster {now : ℕ} (h : s.cancelEvent now = some t) : t.roster = s.roster := by
  simp only [cancelEvent, bind_iff, pure_iff] at h
  obtain ⟨-, -, -, rfl⟩ := h
  simp
  rfl

theorem resolve_roster {now k : ℕ} (h : s.resolve now k = some t) : t.roster = s.roster := by
  simp only [resolve, bind_iff, pure_iff] at h
  obtain ⟨-, u, hz, -, -, -, -, -, -, rfl⟩ := h
  simpa using ensureFrozen_roster hz

theorem setTimings_roster {now r : ℕ} (d : Bool) (h : s.setTimings now r = some t) :
    s.roster.Step i d t.roster := by
  simp only [setTimings, bind_iff, pure_iff] at h
  obtain ⟨-, hn, -, -, -, u, hz, rfl⟩ := h
  have hu : u.roster = { s.roster with approved := true } := by
    unfold freezeIfEnded at hz
    split_ifs at hz
    · rw [ensureFrozen_roster hz]
      rfl
    · cases hz
      rfl
    · rw [ensureFrozen_roster hz]
      rfl
    · cases hz
      rfl
  have hn' : s.numberOfOracleEvents ≤ s.approvedOracleEvents := by omega
  refine (Roster.Step.timed d hn').of_eq rfl ?_
  rw [← hu]
  by_cases hf : u.frozen = true <;> simp [hf]

theorem openPools_roster {n : ℕ} (h : s.openPools n = some (some t)) :
    n = s.initialStakes.length ∧ t.roster = { s.roster with numOutcomes := n } := by
  obtain ⟨hn, -, p, -, rfl⟩ := openPools_cases h
  exact ⟨hn.symm, rfl⟩

theorem recordApproval_roster {a : Addr} {k : ℕ} {tr : Option Addr}
    (h : s.recordApproval a k tr = some t) :
    (t.destroyed = true ∧ t.roster = s.roster) ∨
      t.roster = { s.roster with
        approvedOracleEvents := s.approvedOracleEvents + 1
        oracleEventsPubkeys := k :: s.oracleEventsPubkeys } := by
  obtain rfl | ⟨-, rfl | rfl⟩ := recordApproval_cases h
  · exact .inl ⟨rfl, rfl⟩
  · exact .inr rfl
  · exact .inr rfl

theorem approveEvent_roster {a : Addr} {now k n : ℕ} {tr : Option Addr}
    (hc : i.call = .approveEvent k n tr) (h : s.approveEvent a now k n tr = some t) :
    s.roster.Step i t.destroyed t.roster := by
  obtain rfl | ⟨-, -, -, h⟩ := approveEvent_cases h
  · exact .of_keep rfl
  rw [← s.ensureBalance_roster now]
  generalize s.ensureBalance now = u at h
  obtain rfl | ⟨h0, v, hv, h⟩ | ⟨h0, h⟩ := h
  · exact .aborted n
  · obtain ⟨hn, hv⟩ := openPools_roster hv
    rcases recordApproval_roster h with ⟨hd, ht⟩ | ht
    · exact (Roster.Step.aborted n).of_eq hd (ht.trans hv)
    · have h1 : v.approvedOracleEvents = u.approvedOracleEvents :=
        congrArg Roster.approvedOracleEvents hv
      have h2 : v.oracleEventsPubkeys = u.oracleEventsPubkeys :=
        congrArg Roster.oracleEventsPubkeys hv
      refine (Roster.Step.registered t.destroyed k n n tr hc (.inl ⟨h0, hn, rfl⟩)).of_eq rfl ?_
      rw [ht, hv, h1, h2]
      rfl
  · rcases recordApproval_roster h with ⟨-, ht⟩ | ht
    · exact .of_keep ht
    · exact (Roster.Step.registered t.destroyed k n u.numOutcomes tr hc (.inr ⟨h0, rfl⟩)).of_eq rfl ht

theorem init_ready (m : MarketId) (h : ℕ) (ls : List Addr) (xs : List ℕ) :
    (PMP.init m h ls xs).Ready := by
  intro h
  cases h

/-- What a message does to the lists of the PMP. -/
theorem step_roster (h : s.step i = some t) : s.roster.Step i t.destroyed t.roster := by
  unfold step at h
  split_ifs at h
  change s.begin.roster.Step i t.destroyed t.roster
  generalize s.begin = s at h
  obtain ⟨a, now, c⟩ := i
  cases c with
  | rejectEvent =>
    simp only [exec, rejectEvent, bind_iff, pure_iff] at h
    obtain ⟨-, rfl⟩ := h
    exact .of_keep (by simp)
  | approveEvent => exact approveEvent_roster rfl h
  | acceptStake =>
    simp only [exec, acceptStake, bind_iff, pure_iff] at h
    obtain ⟨-, -, -, -, -, -, -, -, -, -, -, -, p, -, rfl⟩ := h
    exact .of_keep (by simp)
  | cancelStake =>
    simp only [exec, cancelStake, bind_iff, pure_iff] at h
    obtain ⟨u, hu, -, -, -, -, p, -, rfl⟩ := h
    have h1 : u.roster = s.roster := by
      unfold autoCancel at hu
      split_ifs at hu
      · exact cancelEvent_roster hu
      · rw [← Option.some.inj hu]
    exact .of_keep (by simp [h1])
  | freezeNow =>
    simp only [exec, freezeNow, bind_iff] at h
    obtain ⟨-, -, -, -, hz⟩ := h
    exact .of_keep (by simp [ensureFrozen_roster hz])
  | splitFullSet =>
    simp only [exec, splitFullSet, bind_iff, pure_iff] at h
    obtain ⟨u, hz, -, -, -, -, -, -, -, -, -, p, -, rfl⟩ := h
    exact .of_keep (by simp [ensureFrozen_roster hz])
  | mergeFullSet =>
    simp only [exec, mergeFullSet, bind_iff, pure_iff] at h
    obtain ⟨u, hz, -, -, -, -, -, -, -, -, -, -, -, -, -, ⟨p, paid⟩, -, rfl⟩ := h
    exact .of_keep (by simp [ensureFrozen_roster hz])
  | claim =>
    simp only [exec, claim, bind_iff, pure_iff] at h
    obtain ⟨-, -, -, -, -, h⟩ := h
    cases ho : (s.ensureBalance now).resolvedOutcome with
    | none =>
      simp only [ho, Option.some.injEq] at h
      subst h
      exact .of_keep (by simp)
    | some =>
      simp only [ho, Option.some.injEq] at h
      split_ifs at h <;> subst h
      · exact .of_keep (by simp [claimDebtRefund])
      · exact .of_keep (by simp [claimWin])
  | forfeitStake =>
    simp only [exec, forfeitStake, bind_iff, pure_iff] at h
    obtain ⟨-, rfl⟩ := h
    exact .of_keep (by simp)
  | submitSetTimings caller r =>
    obtain ⟨k, -, h⟩ := of_bind h
    dsimp only at h
    rw [← s.ensureBalance_roster now]
    generalize s.ensureBalance now = u at h
    cases hv : u.timings.vote k r with
    | none =>
      simp only [hv, Option.pure_def, Option.some.injEq] at h
      exact .of_keep (congrArg roster h.symm)
    | some =>
      simp only [hv] at h
      split_ifs at h
      · have hu : (u.setOracles { u.toOracles with timings := Tally.empty }).roster = u.roster := rfl
        rw [← hu]
        exact setTimings_roster t.destroyed h
      · rw [← Option.some.inj h]
        exact .keep _
  | submitResolve caller k' =>
    obtain ⟨k, -, h⟩ := of_bind h
    dsimp only at h
    rw [← s.ensureBalance_roster now]
    generalize s.ensureBalance now = u at h
    cases hv : u.resolves.vote k k' with
    | none =>
      simp only [hv, Option.pure_def, Option.some.injEq] at h
      exact .of_keep (congrArg roster h.symm)
    | some =>
      simp only [hv] at h
      split_ifs at h
      · exact .of_keep ((resolve_roster h).trans rfl)
      · rw [← Option.some.inj h]
        exact .keep _
  | submitCancelEvent =>
    obtain ⟨k, -, h⟩ := of_bind h
    dsimp only at h
    rw [← s.ensureBalance_roster now]
    generalize s.ensureBalance now = u at h
    split_ifs at h
    · rw [← Option.some.inj h]
      exact .keep _
    · exact .of_keep ((cancelEvent_roster h).trans rfl)
    · rw [← Option.some.inj h]
      exact .keep _
  | onBounce =>
    obtain rfl := Option.some.inj h
    refine .of_keep ?_
    unfold onBounce
    split_ifs
    · rfl
    · rfl
    · simp
  | confirmRefundReceived =>
    simp only [exec, confirmRefundReceived, bind_iff, pure_iff] at h
    obtain ⟨-, -, rfl⟩ := h
    exact .of_keep (s.ensureBalance_roster now)
  | onOrderBookShutdownComplete =>
    simp only [exec, onOrderBookShutdownComplete, bind_iff, pure_iff] at h
    obtain ⟨-, rfl⟩ := h
    exact .of_keep ((tryClose_roster).trans (s.ensureBalance_roster now))

/-- An approved PMP has heard from all its lists. -/
theorem step_ready (hr : s.Ready) (h : s.step i = some t) : t.Ready := by
  have hs := step_roster h
  change t.roster.approved = true → t.roster.numberOfOracleEvents ≤ t.roster.approvedOracleEvents
  replace hr : s.roster.approved = true →
      s.roster.numberOfOracleEvents ≤ s.roster.approvedOracleEvents := hr
  generalize s.roster = r at hs hr
  generalize t.roster = r' at hs
  generalize t.destroyed = d at hs
  cases hs with
  | keep => exact hr
  | timed d h => exact fun _ => h
  | aborted => exact hr
  | registered => exact fun h => (hr h).trans (Nat.le_succ _)

end Dexdo.PMP
