import Dexdo.PMP.Ballot

namespace Dexdo

theorem tally_timings (o : Oracles) (v : Tally) :
    ({ o with timings := v } : Oracles).tally = Function.update o.tally .timings v := by
  funext m
  cases m <;> rfl

theorem tally_resolves (o : Oracles) (v : Tally) :
    ({ o with resolves := v } : Oracles).tally = Function.update o.tally .resolve v := by
  funext m
  cases m <;> rfl

theorem tally_cancel {o u : Oracles} {v : Tally} (ht : u.timings = o.timings)
    (hr : u.resolves = o.resolves) (hv : u.cancelTally = v) :
    u.tally = Function.update o.tally .cancel v := by
  funext m
  cases m
  · exact ht
  · exact hr
  · exact hv

theorem cancelTally_vote_none {o : Oracles} {pubkey : ℕ} (h : pubkey ∈ o.cancelOracleVoted) :
    o.cancelTally.vote pubkey 0 = none := by
  simp [Tally.vote, Oracles.cancelTally, h]

theorem cancelTally_vote_some {o : Oracles} {pubkey : ℕ} (h : pubkey ∉ o.cancelOracleVoted) :
    o.cancelTally.vote pubkey 0 = some (Oracles.cancelTally { o with
      cancelOracleVoted := pubkey :: o.cancelOracleVoted
      cancelVoteCount := o.cancelVoteCount + 1 }) := by
  simp only [Tally.vote, Oracles.cancelTally, h, if_false, Option.some.injEq, Tally.mk.injEq]
  refine ⟨?_, ?_⟩
  · funext p
    by_cases hp : p = pubkey <;> simp [hp]
  · funext x
    by_cases hx : x = 0 <;> simp [hx]

theorem cancelTally_empty (o : Oracles) :
    Oracles.cancelTally { o with cancelOracleVoted := [], cancelVoteCount := 0 } = Tally.empty := by
  simp [Oracles.cancelTally, Tally.empty]

namespace Tally

/-- A tally agrees with the votes that stand. -/
structure Counts (t : Tally) (voters : List ℕ) (v : ℕ → Option ℕ) : Prop where
  hashes : t.oracleHash = v
  counts : ∀ x, t.hashCount x = Votes.count voters v x

variable {t u : Tally} {voters : List ℕ} {v : ℕ → Option ℕ} {p x : ℕ}

theorem Counts.empty (voters : List ℕ) : Tally.empty.Counts voters fun _ => none :=
  ⟨rfl, fun x => (Votes.count_none voters x).symm⟩

theorem Counts.register (h : t.Counts voters v) (hp : v p = none) : t.Counts (p :: voters) v := by
  refine ⟨h.hashes, fun x => ?_⟩
  rw [Votes.count_cons_of_ne (by simp [hp])]
  exact h.counts x

theorem Counts.vote_none (h : t.Counts voters v) (hv : t.vote p x = none) :
    Function.update v p (some x) = v := by
  unfold vote at hv
  rw [h.hashes] at hv
  split at hv
  case h_1 old ho =>
    split_ifs at hv with hx
    rw [← hx, ← ho]
    exact Function.update_eq_self p v
  case h_2 => cases hv

/-- A vote moves its oracle from the count of the old choice to that of the new one. -/
theorem Counts.vote (h : t.Counts voters v) (hn : voters.Nodup) (hp : p ∈ voters)
    (hv : t.vote p x = some u) : u.Counts voters (Function.update v p (some x)) := by
  have hc := Votes.count_update hn hp (some x) (v := v)
  unfold Tally.vote at hv
  rw [h.hashes] at hv
  split at hv
  case h_1 old ho =>
    split_ifs at hv with hx
    cases hv
    have hpos := Votes.count_pos hp ho
    refine ⟨rfl, fun y => ?_⟩
    have hy := hc y
    simp only [ho, Option.some.injEq] at hy
    have h1 := h.counts y
    have h2 := h.counts x
    have h3 := h.counts old
    dsimp only
    by_cases hyx : y = x
    · subst hyx
      rw [Function.update_self, Function.update_of_ne (Ne.symm hx)]
      simp only [hx, if_false, if_true] at hy
      omega
    · rw [Function.update_of_ne hyx]
      rw [if_neg (Ne.symm hyx)] at hy
      by_cases hyo : y = old
      · subst hyo
        rw [Function.update_self]
        rw [if_pos rfl] at hy
        omega
      · rw [Function.update_of_ne hyo]
        rw [if_neg (Ne.symm hyo)] at hy
        omega
  case h_2 ho =>
    cases hv
    refine ⟨rfl, fun y => ?_⟩
    have hy := hc y
    have h1 := h.counts y
    simp only [ho, reduceCtorEq, if_false, Option.some.injEq] at hy
    dsimp only
    by_cases hyx : y = x
    · subst hyx
      rw [Function.update_self]
      rw [if_pos rfl] at hy
      omega
    · rw [Function.update_of_ne hyx]
      rw [if_neg (Ne.symm hyx)] at hy
      omega

end Tally

namespace Ballot

def getOraclePubkey (b : Ballot) : Caller → Option ℕ
  | .internal sender => b.oracleEventsAddress sender
  | .external pubkey => if pubkey ∈ b.oracleEventsPubkeys then some pubkey else none

def quorum (b : Ballot) : ℕ := (b.numberOfOracleEvents * THRESHOLD + 9999) / 10000

def setTally (b : Ballot) (m : Motion) (v : Tally) : Ballot :=
  { b with tally := Function.update b.tally m v }

def carry (b : Ballot) (m : Motion) (x : ℕ) : Ballot := { b with carried := b.carried ++ [(m, x)] }

/-- What a motion changes. Only the timings keep a parameter of their own, `st`. -/
def enact (b : Ballot) (x st : ℕ) : Motion → Ballot
  | .timings => { b with approved := true, stakeStart := st, resultStart := x }
  | .resolve => { b with resolvedOutcome := some x }
  | .cancel => { b with isCancelled := true }

/-- What an accepted transaction does to the votes. -/
inductive Step (b : Ballot) (i : PMP.Input) : Ballot → Prop
  | keep (hv : i.call.vote? = none) : Step b i b
  | register (k : ℕ) (tr : Option Addr) (hv : i.call.vote? = none)
      (hk : k ∉ b.oracleEventsPubkeys) : Step b i { b with
        oracleEventsPubkeys := k :: b.oracleEventsPubkeys
        oracleEventsAddress := fun a => if some a = tr then some k else b.oracleEventsAddress a }
  | lapse (x d c : List ℕ) (h : ℕ) (hcall : i.call = .cancelStake x d c h)
      (hu : b.resolvedOutcome = none) (hc : b.isCancelled = false)
      (hnow : b.resultStart + GRACE_PERIOD < i.now) : Step b i ((b.enact 0 0 .cancel).carry .cancel 0)
  | repeated (caller : Caller) (m : Motion) (x p : ℕ) (hv : i.call.vote? = some (caller, m, x))
      (hp : b.getOraclePubkey caller = some p) (h : (b.tally m).vote p x = none) : Step b i b
  | counted (caller : Caller) (m : Motion) (x p : ℕ) (v : Tally)
      (hv : i.call.vote? = some (caller, m, x)) (hp : b.getOraclePubkey caller = some p)
      (h : (b.tally m).vote p x = some v) : Step b i (b.setTally m v)
  | decided (caller : Caller) (m : Motion) (x p st : ℕ) (v : Tally)
      (hv : i.call.vote? = some (caller, m, x)) (hp : b.getOraclePubkey caller = some p)
      (h : (b.tally m).vote p x = some v) (hq : b.quorum ≤ v.hashCount x)
      (hu : b.resolvedOutcome = none) (hc : m = .timings ∨ b.isCancelled = false) :
      Step b i (((b.setTally m Tally.empty).enact x st m).carry m x)

end Ballot

namespace PMP

variable {s t : PMP} {i : Input}

theorem getOraclePubkey_ballot (s : PMP) (c : Caller) :
    s.getOraclePubkey c = s.ballot.getOraclePubkey c := by
  cases c <;> rfl

theorem setOracles_ballot {o : Oracles} {m : Motion} {v : Tally}
    (h1 : o.oracleEventsPubkeys = s.oracleEventsPubkeys)
    (h2 : o.oracleEventsAddress = s.oracleEventsAddress)
    (h3 : o.numberOfOracleEvents = s.numberOfOracleEvents)
    (h4 : o.tally = Function.update s.tally m v) :
    (s.setOracles o).ballot = s.ballot.setTally m v := by
  have h : (s.setOracles o).ballot = { s.ballot with
      oracleEventsPubkeys := o.oracleEventsPubkeys
      oracleEventsAddress := o.oracleEventsAddress
      numberOfOracleEvents := o.numberOfOracleEvents
      tally := o.tally } := rfl
  rw [h, h1, h2, h3, h4]
  rfl

theorem setTimingsTally_ballot (s : PMP) (v : Tally) :
    (s.setOracles { s.toOracles with timings := v }).ballot = s.ballot.setTally .timings v :=
  setOracles_ballot rfl rfl rfl (tally_timings s.toOracles v)

theorem setResolveTally_ballot (s : PMP) (v : Tally) :
    (s.setOracles { s.toOracles with resolves := v }).ballot = s.ballot.setTally .resolve v :=
  setOracles_ballot rfl rfl rfl (tally_resolves s.toOracles v)

theorem setCancelTally_ballot (s : PMP) (voted : List ℕ) (n : ℕ) :
    (s.setOracles { s.toOracles with cancelOracleVoted := voted, cancelVoteCount := n }).ballot =
      s.ballot.setTally .cancel (Oracles.cancelTally
        { s.toOracles with cancelOracleVoted := voted, cancelVoteCount := n }) :=
  setOracles_ballot rfl rfl rfl (tally_cancel rfl rfl rfl)

theorem submitSetTimings_step {c : Caller} {now r : ℕ} (hi : i.call = .submitSetTimings c r)
    (h : s.submitSetTimings c now r = some t) : s.ballot.Step i t.ballot := by
  simp only [submitSetTimings, bind_iff, pure_iff] at h
  obtain ⟨p, hp, h⟩ := h
  rw [getOraclePubkey_ballot] at hp
  have hv : i.call.vote? = some (c, .timings, r) := by rw [hi]; rfl
  have hu := s.ensureBalance_ballot now
  generalize s.ensureBalance now = u at h hu
  rw [← hu] at hp ⊢
  cases ht : u.timings.vote p r with
  | none =>
    rw [ht] at h
    cases h
    exact .repeated c .timings r p hv hp ht
  | some v =>
    rw [ht] at h
    dsimp only at h
    split_ifs at h with hq
    · obtain ⟨h1, st, hb⟩ := setTimings_ballot h
      rw [hb, setTimingsTally_ballot]
      exact .decided c .timings r p st v hv hp ht hq h1 (.inl rfl)
    · rw [← Option.some.inj h, setTimingsTally_ballot]
      exact .counted c .timings r p v hv hp ht

theorem submitResolve_step {c : Caller} {now k : ℕ} (hi : i.call = .submitResolve c k)
    (h : s.submitResolve c now k = some t) : s.ballot.Step i t.ballot := by
  simp only [submitResolve, bind_iff, pure_iff] at h
  obtain ⟨p, hp, h⟩ := h
  rw [getOraclePubkey_ballot] at hp
  have hv : i.call.vote? = some (c, .resolve, k) := by rw [hi]; rfl
  have hu := s.ensureBalance_ballot now
  generalize s.ensureBalance now = u at h hu
  rw [← hu] at hp ⊢
  cases ht : u.resolves.vote p k with
  | none =>
    rw [ht] at h
    cases h
    exact .repeated c .resolve k p hv hp ht
  | some v =>
    rw [ht] at h
    dsimp only at h
    split_ifs at h with hq
    · obtain ⟨hc, h1, hb⟩ := resolve_ballot h
      rw [hb, setResolveTally_ballot]
      exact .decided c .resolve k p 0 v hv hp ht hq h1 (.inr hc)
    · rw [← Option.some.inj h, setResolveTally_ballot]
      exact .counted c .resolve k p v hv hp ht

theorem submitCancelEvent_step {c : Caller} {now : ℕ} (hi : i.call = .submitCancelEvent c)
    (h : s.submitCancelEvent c now = some t) : s.ballot.Step i t.ballot := by
  simp only [submitCancelEvent, bind_iff, pure_iff] at h
  obtain ⟨p, hp, h⟩ := h
  rw [getOraclePubkey_ballot] at hp
  have hv : i.call.vote? = some (c, .cancel, 0) := by rw [hi]; rfl
  have hu := s.ensureBalance_ballot now
  generalize s.ensureBalance now = u at h hu
  rw [← hu] at hp ⊢
  by_cases hm : p ∈ u.cancelOracleVoted
  · rw [if_pos hm] at h
    cases h
    exact .repeated c .cancel 0 p hv hp (cancelTally_vote_none hm)
  rw [if_neg hm] at h
  have ht := cancelTally_vote_some hm
  split_ifs at h with hq
  · obtain ⟨hc, h1, hb⟩ := cancelEvent_ballot h
    rw [hb, setCancelTally_ballot, cancelTally_empty]
    exact .decided c .cancel 0 p 0 _ hv hp ht hq h1 (.inr hc)
  · rw [← Option.some.inj h, setCancelTally_ballot]
    exact .counted c .cancel 0 p _ hv hp ht

theorem cancelStake_step {a : Addr} {x d b : List ℕ} {h' : ℕ} (hi : i.call = .cancelStake x d b h')
    (h : s.cancelStake a i.now x d b h' = some t) : s.ballot.Step i t.ballot := by
  have hv : i.call.vote? = none := by rw [hi]; rfl
  simp only [cancelStake, bind_iff, pure_iff] at h
  obtain ⟨u, hu, -, -, -, -, p, -, rfl⟩ := h
  rw [closeCancelled_ballot, send_ballot, setPools_ballot, ensureBalance_ballot]
  unfold autoCancel at hu
  split_ifs at hu with hc
  · obtain ⟨h1, h2, hb⟩ := cancelEvent_ballot hu
    rw [hb]
    exact .lapse x d b h' hi h2 h1 hc.1
  · cases hu
    exact .keep hv

theorem acceptStake_ballot {a : Addr} {now k n h' : ℕ} {b : BetType}
    (h : s.acceptStake a now k n h' b = some t) : t.ballot = s.ballot := by
  simp only [acceptStake, bind_iff, pure_iff] at h
  obtain ⟨-, -, -, -, -, -, -, -, -, -, -, -, p, -, rfl⟩ := h
  exact (act_ballot _ rfl).trans ((send_ballot _ _).trans (ensureBalance_ballot now))

theorem splitFullSet_ballot {a : Addr} {now f h' : ℕ}
    (h : s.splitFullSet a now f h' = some t) : t.ballot = s.ballot := by
  simp only [splitFullSet, bind_iff, pure_iff] at h
  obtain ⟨u, hz, -, -, -, -, -, -, -, -, -, p, -, rfl⟩ := h
  refine (act_ballot _ rfl).trans ((send_ballot _ _).trans ?_)
  exact (ensureBalance_ballot now).trans (ensureFrozen_ballot hz)

theorem mergeFullSet_ballot {a : Addr} {now h' : ℕ} {x : List ℕ}
    (h : s.mergeFullSet a now x h' = some t) : t.ballot = s.ballot := by
  simp only [mergeFullSet, bind_iff, pure_iff] at h
  obtain ⟨u, hz, -, -, -, -, -, -, -, -, -, -, -, -, -, ⟨p, paid⟩, -, rfl⟩ := h
  refine (act_ballot _ rfl).trans ((send_ballot _ _).trans ?_)
  exact (ensureBalance_ballot now).trans (ensureFrozen_ballot hz)

theorem freezeNow_ballot {now : ℕ} (h : s.freezeNow now = some t) : t.ballot = s.ballot := by
  simp only [freezeNow, bind_iff] at h
  obtain ⟨-, -, -, -, hz⟩ := h
  exact (ensureFrozen_ballot hz).trans (ensureBalance_ballot now)

theorem claim_ballot {a : Addr} {now h' : ℕ} {x d b : List ℕ}
    (h : s.claim a now x d b h' = some t) : t.ballot = s.ballot := by
  simp only [claim, bind_iff, pure_iff] at h
  obtain ⟨-, -, -, -, -, h⟩ := h
  have hu := s.ensureBalance_ballot now
  generalize s.ensureBalance now = u at h hu
  rw [← hu]
  cases hr : u.resolvedOutcome with
  | none =>
    simp only [hr, Option.some.injEq] at h
    rw [← h]
    exact send_ballot _ _
  | some =>
    simp only [hr, Option.some.injEq] at h
    rw [← h]
    split_ifs
    · exact claimDebtRefund_ballot _ _
    · exact claimWin_ballot _ _ _ _ _

theorem forfeitStake_ballot {a : Addr} {now h' : ℕ} {x d b : List ℕ}
    (h : s.forfeitStake a now x d b h' = some t) : t.ballot = s.ballot := by
  simp only [forfeitStake, bind_iff, pure_iff] at h
  obtain ⟨-, rfl⟩ := h
  refine tryClose_ballot.trans ((send_ballot _ _).trans ((act_ballot _ rfl).trans ?_))
  exact ensureBalance_ballot now

theorem rejectEvent_ballot {a : Addr} {now : ℕ} (h : s.rejectEvent a now = some t) :
    t.ballot = s.ballot := by
  simp only [rejectEvent, bind_iff, pure_iff] at h
  obtain ⟨-, rfl⟩ := h
  rw [giveUp_ballot, releaseOracleCounts_ballot]
  exact (act_ballot _ rfl).trans (ensureBalance_ballot now)

theorem onBounce_ballot (a : Addr) (now : ℕ) : (s.onBounce a now).ballot = s.ballot := by
  unfold onBounce
  split_ifs
  · rfl
  · exact act_ballot _ rfl
  · rw [giveUp_ballot, releaseOracleCounts_ballot, ensureBalance_ballot]

theorem approveEvent_step {a : Addr} {now k n : ℕ} {tr : Option Addr} (hv : i.call.vote? = none)
    (h : s.approveEvent a now k n tr = some t) : s.ballot.Step i t.ballot := by
  rcases approveEvent_ballot h with hb | ⟨hk, hb⟩
  · rw [hb]
    exact .keep hv
  · rw [hb]
    exact .register k tr hv hk

theorem exec_step (h : s.exec i.sender i.now i.call = some t) : s.ballot.Step i t.ballot := by
  have hkeep : i.call.vote? = none → t.ballot = s.ballot → s.ballot.Step i t.ballot := by
    intro hv hb
    rw [hb]
    exact .keep hv
  cases hi : i.call with
  | rejectEvent =>
    rw [hi] at h hkeep
    exact hkeep rfl (rejectEvent_ballot h)
  | approveEvent =>
    rw [hi] at h
    exact approveEvent_step (by rw [hi]; rfl) h
  | acceptStake =>
    rw [hi] at h hkeep
    exact hkeep rfl (acceptStake_ballot h)
  | cancelStake =>
    rw [hi] at h
    exact cancelStake_step hi h
  | freezeNow =>
    rw [hi] at h hkeep
    exact hkeep rfl (freezeNow_ballot h)
  | splitFullSet =>
    rw [hi] at h hkeep
    exact hkeep rfl (splitFullSet_ballot h)
  | mergeFullSet =>
    rw [hi] at h hkeep
    exact hkeep rfl (mergeFullSet_ballot h)
  | claim =>
    rw [hi] at h hkeep
    exact hkeep rfl (claim_ballot h)
  | forfeitStake =>
    rw [hi] at h hkeep
    exact hkeep rfl (forfeitStake_ballot h)
  | submitSetTimings =>
    rw [hi] at h
    exact submitSetTimings_step hi h
  | submitResolve =>
    rw [hi] at h
    exact submitResolve_step hi h
  | submitCancelEvent =>
    rw [hi] at h
    exact submitCancelEvent_step hi h
  | onBounce =>
    rw [hi] at h hkeep
    exact hkeep rfl (Option.some.inj h ▸ onBounce_ballot i.sender i.now)
  | confirmRefundReceived =>
    rw [hi] at h hkeep
    simp only [exec, confirmRefundReceived, bind_iff, pure_iff] at h
    obtain ⟨-, -, rfl⟩ := h
    exact hkeep rfl (clearRefund_ballot.trans (ensureBalance_ballot i.now))
  | onOrderBookShutdownComplete =>
    rw [hi] at h hkeep
    simp only [exec, onOrderBookShutdownComplete, bind_iff, pure_iff] at h
    obtain ⟨-, rfl⟩ := h
    exact hkeep rfl (tryClose_ballot.trans (setBookDone_ballot.trans (ensureBalance_ballot i.now)))

theorem step_ballot (h : s.step i = some t) :
    Ballot.Step { s.ballot with carried := [] } i t.ballot := by
  unfold step at h
  split_ifs at h
  exact exec_step h

end PMP

end Dexdo
