import Dexdo.PMP.Vote

namespace Dexdo

/-- Votes by motion and oracle. -/
abbrev LatestVotes := Motion → ℕ → Option ℕ

namespace Ballot

/-- The latest votes after a transaction. A motion that is carried clears the votes on it. -/
def record (b : Ballot) (i : PMP.Input) (b' : Ballot) (v : LatestVotes) : LatestVotes :=
  match i.call.vote? with
  | none => v
  | some (caller, m, x) =>
    match b.getOraclePubkey caller with
    | none => v
    | some p => Function.update v m
        (if b'.carried = [] then Function.update (v m) p (some x) else fun _ => none)

/-- Every tally agrees with the latest votes, which registered oracles cast. -/
structure Counted (b : Ballot) (v : LatestVotes) : Prop where
  distinct : b.oracleEventsPubkeys.Nodup
  bound : ∀ a p, b.oracleEventsAddress a = some p → p ∈ b.oracleEventsPubkeys
  voted : ∀ m p x, v m p = some x → p ∈ b.oracleEventsPubkeys
  tallies : ∀ m, (b.tally m).Counts b.oracleEventsPubkeys (v m)
  final : b.isCancelled = true → b.resolvedOutcome = none

/-- The vote of this transaction brings motion `m` with parameter `x` to the quorum. -/
def Backed (b : Ballot) (i : PMP.Input) (v : LatestVotes) (m : Motion) (x : ℕ) : Prop :=
  ∃ caller p, i.call.vote? = some (caller, m, x) ∧ b.getOraclePubkey caller = some p ∧
    p ∈ b.oracleEventsPubkeys ∧ 66 * b.numberOfOracleEvents ≤
      100 * Votes.count b.oracleEventsPubkeys (Function.update (v m) p (some x)) x

/-- A refund claimed after an unused result window. -/
def Lapsed (b : Ballot) (i : PMP.Input) : Prop :=
  (∃ x d c h, i.call = .cancelStake x d c h) ∧ b.resolvedOutcome = none ∧ b.isCancelled = false ∧
    b.resultStart + GRACE_PERIOD < i.now

/-- What a transaction decides, it carries as a motion. -/
structure Announced (b b' : Ballot) : Prop where
  timings : (∃ x, (.timings, x) ∈ b'.carried) ∨
    (b'.approved = b.approved ∧ b'.stakeStart = b.stakeStart ∧ b'.resultStart = b.resultStart)
  resolve : (∃ x, (.resolve, x) ∈ b'.carried ∧ b'.resolvedOutcome = some x) ∨
    b'.resolvedOutcome = b.resolvedOutcome
  cancel : (.cancel, 0) ∈ b'.carried ∨ b'.isCancelled = b.isCancelled

variable {b b' : Ballot} {i : PMP.Input} {v : LatestVotes}

theorem Counted.oracle (h : b.Counted v) {caller : Caller} {p : ℕ}
    (hp : b.getOraclePubkey caller = some p) : p ∈ b.oracleEventsPubkeys := by
  cases caller with
  | internal a => exact h.bound a p hp
  | external =>
    obtain ⟨hk, hkp⟩ := Option.ite_none_right_eq_some.mp hp
    rwa [← Option.some.inj hkp]

theorem Counted.setTally (h : b.Counted v) {m : Motion} {t : Tally} {w : ℕ → Option ℕ}
    (ht : t.Counts b.oracleEventsPubkeys w)
    (hw : ∀ p x, w p = some x → p ∈ b.oracleEventsPubkeys) :
    (b.setTally m t).Counted (Function.update v m w) where
  distinct := h.distinct
  bound := h.bound
  voted := by
    intro k p x hk
    by_cases hm : k = m
    · subst hm
      rw [Function.update_self] at hk
      exact hw p x hk
    · rw [Function.update_of_ne hm] at hk
      exact h.voted k p x hk
  tallies := by
    intro k
    by_cases hm : k = m
    · subst hm
      simpa [Ballot.setTally] using ht
    · simpa [Ballot.setTally, hm] using h.tallies k
  final := h.final

theorem Counted.enact (h : b.Counted v) {m : Motion} (x st : ℕ) (hu : b.resolvedOutcome = none)
    (hc : m = .timings ∨ b.isCancelled = false) : (b.enact x st m).Counted v := by
  cases m with
  | timings => exact ⟨h.distinct, h.bound, h.voted, h.tallies, h.final⟩
  | resolve =>
    refine ⟨h.distinct, h.bound, h.voted, h.tallies, fun hb => ?_⟩
    rcases hc with hc | hc
    · cases hc
    · have hb : b.isCancelled = true := hb
      rw [hc] at hb
      cases hb
  | cancel => exact ⟨h.distinct, h.bound, h.voted, h.tallies, fun _ => hu⟩

theorem Counted.carry (h : b.Counted v) (m : Motion) (x : ℕ) : (b.carry m x).Counted v :=
  ⟨h.distinct, h.bound, h.voted, h.tallies, h.final⟩

theorem Counted.register (h : b.Counted v) {k : ℕ} (tr : Option Addr)
    (hk : k ∉ b.oracleEventsPubkeys) : Counted { b with
      oracleEventsPubkeys := k :: b.oracleEventsPubkeys
      oracleEventsAddress := fun a => if some a = tr then some k else b.oracleEventsAddress a } v
    where
  distinct := List.nodup_cons.mpr ⟨hk, h.distinct⟩
  bound := by
    intro a p ha
    dsimp only at ha
    split_ifs at ha
    · cases ha
      exact List.mem_cons_self
    · exact List.mem_cons_of_mem k (h.bound a p ha)
  voted := fun m p x hv => List.mem_cons_of_mem k (h.voted m p x hv)
  tallies := by
    intro m
    apply (h.tallies m).register
    cases hv : v m k with
    | none => rfl
    | some x => exact absurd (h.voted m k x hv) hk
  final := h.final

theorem record_of_none (hv : i.call.vote? = none) : b.record i b' v = v := by
  simp [record, hv]

theorem record_of_vote {caller : Caller} {m : Motion} {x p : ℕ}
    (hv : i.call.vote? = some (caller, m, x)) (hp : b.getOraclePubkey caller = some p) :
    b.record i b' v = Function.update v m
      (if b'.carried = [] then Function.update (v m) p (some x) else fun _ => none) := by
  simp [record, hv, hp]

theorem Counted.vote_mem (h : b.Counted v) {m : Motion} {p x : ℕ}
    (hp : p ∈ b.oracleEventsPubkeys) (q y : ℕ)
    (hq : Function.update (v m) p (some x) q = some y) : q ∈ b.oracleEventsPubkeys := by
  by_cases hqp : q = p
  · rwa [hqp]
  · rw [Function.update_of_ne hqp] at hq
    exact h.voted m q y hq

theorem Step.record_counted (hs : b.Step i b') (h0 : b.carried = []) (h : b.Counted v) :
    b'.Counted (b.record i b' v) := by
  cases hs with
  | keep hv =>
    rw [record_of_none hv]
    exact h
  | register k tr hv hk =>
    rw [record_of_none hv]
    exact h.register tr hk
  | lapse x d c n hcall hu hc =>
    rw [record_of_none (by rw [hcall]; rfl)]
    exact (h.enact 0 0 hu (.inr hc)).carry .cancel 0
  | repeated caller m x p hv hp ht =>
    rw [record_of_vote hv hp, if_pos h0, (h.tallies m).vote_none ht, Function.update_eq_self]
    exact h
  | counted caller m x p t hv hp ht =>
    have hmem := h.oracle hp
    have hb : (b.setTally m t).carried = [] := h0
    rw [record_of_vote hv hp, if_pos hb]
    exact h.setTally ((h.tallies m).vote h.distinct hmem ht) (h.vote_mem hmem)
  | decided caller m x p st t hv hp ht hq hu hc =>
    rw [record_of_vote hv hp, if_neg (by simp [carry])]
    have h1 := h.setTally (m := m) (.empty b.oracleEventsPubkeys) (fun _ _ hw => by cases hw)
    exact (h1.enact x st hu hc).carry m x

theorem enact_carried (b : Ballot) (x st : ℕ) (m : Motion) :
    (b.enact x st m).carried = b.carried := by
  cases m <;> rfl

theorem Step.carried (hs : b.Step i b') (h0 : b.carried = []) (h : b.Counted v) {m : Motion}
    {x : ℕ} (hm : (m, x) ∈ b'.carried) : b.Backed i v m x ∨ (m = .cancel ∧ b.Lapsed i) := by
  cases hs with
  | keep => simp [h0] at hm
  | register => simp [h0] at hm
  | lapse a d c n hcall hu hc hnow =>
    have hm : (m, x) ∈ b.carried ++ [(Motion.cancel, 0)] := hm
    rw [h0] at hm
    obtain ⟨rfl, rfl⟩ := Prod.mk.inj (List.mem_singleton.mp hm)
    exact .inr ⟨rfl, ⟨a, d, c, n, hcall⟩, hu, hc, hnow⟩
  | repeated => simp [h0] at hm
  | counted =>
    have hm : (m, x) ∈ b.carried := hm
    simp [h0] at hm
  | decided caller k y p st t hv hp ht hq hu hc =>
    have hm : (m, x) ∈ ((b.setTally k Tally.empty).enact y st k).carried ++ [(k, y)] := hm
    rw [enact_carried] at hm
    have hm : (m, x) ∈ b.carried ++ [(k, y)] := hm
    rw [h0] at hm
    obtain ⟨rfl, rfl⟩ := Prod.mk.inj (List.mem_singleton.mp hm)
    refine .inl ⟨caller, p, hv, hp, h.oracle hp, ?_⟩
    have hcount := ((h.tallies m).vote h.distinct (h.oracle hp) ht).counts x
    rw [← hcount]
    simp only [quorum, THRESHOLD] at hq
    omega

theorem Step.announced (hs : b.Step i b') : b.Announced b' := by
  cases hs with
  | keep => exact ⟨.inr ⟨rfl, rfl, rfl⟩, .inr rfl, .inr rfl⟩
  | register => exact ⟨.inr ⟨rfl, rfl, rfl⟩, .inr rfl, .inr rfl⟩
  | repeated => exact ⟨.inr ⟨rfl, rfl, rfl⟩, .inr rfl, .inr rfl⟩
  | counted => exact ⟨.inr ⟨rfl, rfl, rfl⟩, .inr rfl, .inr rfl⟩
  | lapse => exact ⟨.inr ⟨rfl, rfl, rfl⟩, .inr rfl, .inl (List.mem_append_right _ (by simp))⟩
  | decided caller m x p st t hv =>
    have hlast : ∀ l : List (Motion × ℕ), (m, x) ∈ l ++ [(m, x)] := fun l =>
      List.mem_append_right l List.mem_cons_self
    cases m with
    | timings => exact ⟨.inl ⟨x, hlast _⟩, .inr rfl, .inr rfl⟩
    | resolve => exact ⟨.inr ⟨rfl, rfl, rfl⟩, .inl ⟨x, hlast _, rfl⟩, .inr rfl⟩
    | cancel =>
      have hx : x = 0 := by
        cases hi : i.call <;> simp [PmpCall.vote?, hi] at hv
        exact hv.2.symm
      subst hx
      exact ⟨.inr ⟨rfl, rfl, rfl⟩, .inr rfl, .inl (hlast _)⟩

theorem Step.number (hs : b.Step i b') : b'.numberOfOracleEvents = b.numberOfOracleEvents := by
  cases hs with
  | decided caller m => cases m <;> rfl
  | _ => rfl

end Ballot

namespace PMP

variable {s t : PMP} {tr : List (Input × PMP)} {market : MarketId} {depositIdentifierHash : ℕ}
  {oracleEventLists : List Addr} {initialStakes : List ℕ}

/-- Latest votes on every motion since it was last carried. -/
def latestVotes (s : PMP) (tr : List (Input × PMP)) : LatestVotes :=
  Run.ghost (fun s i t => s.ballot.record i t.ballot) s tr fun _ _ => none

theorem init_counted (market : MarketId) (depositIdentifierHash : ℕ) (oracleEventLists : List Addr)
    (initialStakes : List ℕ) :
    (init market depositIdentifierHash oracleEventLists initialStakes).ballot.Counted
      fun _ _ => none where
  distinct := List.nodup_nil
  bound := fun _ _ h => by cases h
  voted := fun _ _ _ h => by cases h
  tallies := by
    intro m
    cases m with
    | timings => exact .empty _
    | resolve => exact .empty _
    | cancel =>
      have h : (init market depositIdentifierHash oracleEventLists initialStakes).ballot.tally
          .cancel = Tally.empty :=
        cancelTally_empty (Oracles.waiting oracleEventLists)
      rw [h]
      exact .empty _
  final := fun h => by cases h

theorem run_counted
    (h : Run step (init market depositIdentifierHash oracleEventLists initialStakes) tr s) :
    s.ballot.Counted
        (latestVotes (init market depositIdentifierHash oracleEventLists initialStakes) tr) ∧
      s.numberOfOracleEvents = oracleEventLists.length := by
  refine h.invariant (fun tr s => s.ballot.Counted (latestVotes (init market depositIdentifierHash
    oracleEventLists initialStakes) tr) ∧ s.numberOfOracleEvents = oracleEventLists.length)
    ⟨init_counted .., rfl⟩ ?_
  intro tr s i t hr ⟨hc, hn⟩ hi
  have hb := step_ballot hi
  refine ⟨?_, ?_⟩
  · rw [latestVotes, Run.ghost_concat, hr.last_eq]
    have h1 : Ballot.Counted { s.ballot with carried := [] } (latestVotes (init market
        depositIdentifierHash oracleEventLists initialStakes) tr) :=
      ⟨hc.distinct, hc.bound, hc.voted, hc.tallies, hc.final⟩
    exact hb.record_counted rfl h1
  · exact hb.number.trans hn

/-- The oracles decide by their latest votes: the stored counts are those votes counted, a motion
is carried when two thirds of the oracles agree on it, and a market is not both resolved and
cancelled. Only a cancellation needs no vote once the result window has lapsed. -/
theorem oracles_decide
    (h : Run step (init market depositIdentifierHash oracleEventLists initialStakes) tr s) :
    (∀ m x, (s.tally m).hashCount x = Votes.count s.oracleEventsPubkeys
        (latestVotes (init market depositIdentifierHash oracleEventLists initialStakes) tr m) x) ∧
      s.oracleEventsPubkeys.Nodup ∧ s.numberOfOracleEvents = oracleEventLists.length ∧
      ¬ (s.isCancelled = true ∧ s.resolvedOutcome.isSome = true) ∧
      ∀ i t, s.step i = some t → s.ballot.Announced t.ballot ∧
        ∀ m x, (m, x) ∈ t.carried → s.ballot.Backed i (latestVotes (init market
          depositIdentifierHash oracleEventLists initialStakes) tr) m x ∨
            (m = .cancel ∧ s.ballot.Lapsed i) := by
  obtain ⟨hc, hn⟩ := run_counted h
  refine ⟨fun m => (hc.tallies m).counts, hc.distinct, hn, ?_, ?_⟩
  · rintro ⟨h1, h2⟩
    have h3 : s.resolvedOutcome = none := hc.final h1
    rw [h3] at h2
    cases h2
  · intro i t hi
    have hb := step_ballot hi
    have h1 : Ballot.Counted { s.ballot with carried := [] } (latestVotes (init market
        depositIdentifierHash oracleEventLists initialStakes) tr) :=
      ⟨hc.distinct, hc.bound, hc.voted, hc.tallies, hc.final⟩
    exact ⟨⟨hb.announced.timings, hb.announced.resolve, hb.announced.cancel⟩,
      fun m x hm => hb.carried rfl h1 hm⟩

/-- Two oracles, of whom the second changes its vote on the timings. -/
def votingStart : PMP := init ⟨1, 2, 3⟩ 7 [.ext 1, .ext 2] [30, 50]

def votingInputs : List Input :=
  [⟨.ext 1, 10, .approveEvent 5 2 none⟩,
    ⟨.ext 2, 10, .approveEvent 6 2 (some (.ext 2))⟩,
    ⟨.ext 0, 10, .submitSetTimings (.external 5) 1010⟩,
    ⟨.ext 2, 10, .submitSetTimings (.internal (.ext 2)) 2010⟩]

def votingTrace : List (Input × PMP) := Run.trace step votingStart votingInputs

def votingEnd : PMP := Run.last votingStart votingTrace

theorem voting_run : Run step (init ⟨1, 2, 3⟩ 7 [.ext 1, .ext 2] [30, 50]) votingTrace votingEnd :=
  Run.trace_run step votingStart votingInputs

/-- The second oracle agrees with the first. -/
def secondVote : Input := ⟨.ext 2, 10, .submitSetTimings (.internal (.ext 2)) 1010⟩

theorem secondVote_accepted : (votingEnd.step secondVote).isSome = true := by decide +kernel

theorem oracles_decide_sample :
    ((votingEnd.step secondVote).get secondVote_accepted).carried = [(.timings, 1010)] ∧
      (votingEnd.ballot.Backed secondVote (latestVotes (init ⟨1, 2, 3⟩ 7 [.ext 1, .ext 2] [30, 50])
        votingTrace) .timings 1010 ∨ (Motion.timings = .cancel ∧ votingEnd.ballot.Lapsed secondVote)) :=
  have hc : ((votingEnd.step secondVote).get secondVote_accepted).carried = [(.timings, 1010)] := by
    decide +kernel
  ⟨hc, ((oracles_decide voting_run).2.2.2.2 _ _ (Option.some_get secondVote_accepted).symm).2 _ _
    (by rw [hc]; exact List.mem_singleton_self _)⟩

/-- A stake is withdrawn after the result window. -/
def lateRefund : Input := ⟨.note 7, 2000000, .cancelStake [30, 50] [0, 0] [0, 0] 7⟩

/-- Carried timings leave no count behind, and a lapsed window cancels the market without a vote. -/
theorem oracles_decide_lapse :
    ((votingEnd.step secondVote).get secondVote_accepted).timings.hashCount 1010 = 0 ∧
      (((votingEnd.step secondVote).bind fun s => s.step lateRefund).map fun s =>
        (s.isCancelled, s.carried)) = some (true, [(.cancel, 0)]) ∧
      ∀ i ∈ votingInputs ++ [secondVote, lateRefund], ∀ v ∈ i.call.vote?, v.2.1 ≠ .cancel :=
  ⟨by decide +kernel, by decide +kernel, by decide⟩

end PMP

end Dexdo
