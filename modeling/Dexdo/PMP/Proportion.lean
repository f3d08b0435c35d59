import Dexdo.PMP.Close
import Dexdo.PMP.Quorum
import Mathlib.Algebra.GCDMonoid.Finset
import Mathlib.Algebra.GCDMonoid.Nat

namespace Dexdo

open Finset

theorem gcdOf_eq (f : ℕ → ℕ) (n : ℕ) : Basket.gcdOf f n = (range n).gcd f := by
  induction n with
  | zero => rfl
  | succ n ih =>
    rw [gcdOf_succ, range_add_one, gcd_insert, ← ih]
    change _ = Nat.gcd (f n) (Basket.gcdOf f n)
    split_ifs with h0 hg
    · rw [h0, Nat.gcd_zero_left]
    · rw [hg, Nat.gcd_zero_right]
    · exact Nat.gcd_comm _ _

/-- Every outcome is in the basket, and no smaller one has its proportions. -/
structure Basket.Primitive (b : Basket) (n : ℕ) : Prop where
  units : ∀ k < n, 1 ≤ b.frozenCleanUnitsPerQ k
  coprime : (range n).gcd b.frozenCleanUnitsPerQ = 1

theorem Basket.build_coprime {f : ℕ → ℕ} {n : ℕ} (base : ℕ) (pending : Bool) (hn : 0 < n)
    (h0 : 0 < f 0) : (range n).gcd (build f n base pending).frozenCleanUnitsPerQ = 1 := by
  have h1 : ∀ k ∈ range n, (build f n base pending).frozenCleanUnitsPerQ k =
      f k / (range n).gcd f := by
    intro k hk
    simp [build, unitsOf, mem_range.mp hk, gcdOf_eq]
  rw [gcd_congr rfl h1]
  exact gcd_div_eq_one (mem_range.mpr hn) h0.ne'

namespace Core

/-- The clean pools hold `m` baskets. -/
structure Baskets (c : Core) (m : ℕ) : Prop where
  pools : ∀ k < c.numOutcomes, c.typedOutcomePools k .clean = m * c.frozenCleanUnitsPerQ k
  total : c.totalCleanPool = m * ∑ k ∈ range c.numOutcomes, c.frozenCleanUnitsPerQ k

/-- A frozen basket was made of initial stakes, in lowest terms. -/
structure Lowest (c : Core) : Prop where
  staked : c.frozen = true → c.initialStakes ≠ []
  coprime : c.frozen = true → 0 < c.numOutcomes → (range c.numOutcomes).gcd c.frozenCleanUnitsPerQ = 1

variable {c d : Core}

theorem Lowest.of_thawed (h : c.frozen = false) : c.Lowest := by
  constructor <;>
  · intro hf
    cases h.symm.trans hf

theorem Lowest.congr (h : c.Lowest) (h1 : d.frozen = c.frozen)
    (h2 : d.frozenCleanUnitsPerQ = c.frozenCleanUnitsPerQ) (h3 : d.numOutcomes = c.numOutcomes)
    (h4 : d.initialStakes = c.initialStakes) : d.Lowest := by
  refine ⟨fun hf => ?_, fun hf hn => ?_⟩
  · rw [h4]
    exact h.staked (h1 ▸ hf)
  · rw [h2, h3]
    exact h.coprime (h1 ▸ hf) (h3 ▸ hn)

theorem Lowest.freeze (he : c.Even) {g paid : ℕ} {p : Pools} (hs : c.Sound)
    (h0 : c.frozen = false) (hc : c.isCancelled = false) (hg : c.initialStakes.min? = some g)
    (hpos : 0 < g) (hp : c.toPools.normalize c.numOutcomes g = some (p, paid)) :
    (c.freeze g p).Lowest := by
  refine ⟨fun _ h => ?_, fun _ hn => ?_⟩
  · have h1 : c.initialStakes = [] := h
    rw [h1] at hg
    cases hg
  · have hn' : 0 < c.numOutcomes := hn
    refine Basket.build_coprime (n := c.numOutcomes) _ _ hn' ?_
    rw [if_pos hn']
    exact he.pool_pos hs h0 hc hg hpos hp hn'

end Core

namespace MaybeFreeze

variable {c d : Core} {os : Mail}

theorem lowest (h : MaybeFreeze c os d) (hs : c.Sound) (he : c.Even) (hl : c.Lowest) : d.Lowest := by
  cases h with
  | skip => exact hl
  | freeze g paid p h0 ha hc hg hpos hp => exact .freeze he hs h0 hc hg hpos hp

theorem pools_eq (h : MaybeFreeze c os d) (hn : d.normRefundPending = false) :
    d.toPools = c.toPools := by
  cases h with
  | skip => rfl
  | freeze g paid p h0 ha hc hg hpos hp =>
    have h1 : (c.normRefundPending ||
        decide (0 < (c.toPools.refundAmounts c.numOutcomes g).sum)) = false := hn
    have h2 : (c.toPools.refundAmounts c.numOutcomes g).sum = 0 := by
      rw [Bool.or_eq_false_iff] at h1
      exact Nat.eq_zero_of_not_pos (of_decide_eq_false h1.2)
    have h3 : ∀ k, c.toPools.remainder c.numOutcomes g k = 0 := by
      intro k
      by_cases hk : k < c.numOutcomes
      · refine List.sum_eq_zero_iff.mp h2 _ ?_
        exact List.mem_map.mpr ⟨k, List.mem_range.mpr hk, rfl⟩
      · exact if_neg hk
    have h4 : ∀ k, c.toPools.cut c.numOutcomes g k = 0 := by
      intro k
      unfold Pools.cut
      rw [h3 k]
      split_ifs <;> omega
    have h5 : c.toPools.trim c.numOutcomes g = c.toPools := by
      simp [Pools.trim, h3, h4]
    unfold Pools.normalize at hp
    dsimp only at hp
    rw [if_pos h2, h5] at hp
    exact (Prod.mk.inj (Option.some.inj hp)).1.symm

end MaybeFreeze

namespace Effect

variable {c d : Core} {os : Mail} {i : PMP.Input}

theorem lowest (h : Effect c i os d) (hs : c.Sound) (he : c.Even) (hl : c.Lowest)
    (hd : d.destroyed = false) : d.Lowest := by
  cases h with
  | idle | claimNone => exact hl
  | abort => cases hd
  | opened p ha =>
    have hf : c.frozen = false := by
      by_contra h
      cases ha.symm.trans (hs.opened (by simpa using h))
    exact .of_thawed hf
  | openedAbort => cases hd
  | timings st rs os d hu hf =>
    exact hf.lowest (hs.setTimings st rs) (he.congr rfl rfl rfl (.inl rfl) id rfl rfl)
      (hl.congr rfl rfl rfl rfl)
  | cancelled => exact hl.congr rfl rfl rfl rfl
  | stake k a h t p hcall hsend ha hc hu hk hf => exact .of_thawed hf
  | refund a d b h e p hcall hsend he' =>
    rw [(Core.closeCancelled_closes _).live hd]
    rcases he' with rfl | ⟨-, -, rfl⟩ <;> exact hl.congr rfl rfl rfl rfl
  | frozenNow os d hf => exact hf.lowest hs he hl
  | split f h os e p hcall hsend hf =>
    exact (hf.lowest hs he hl).congr rfl rfl rfl rfl
  | merge a h n paid os e p hcall hsend hf =>
    exact (hf.lowest hs he hl).congr rfl rfl rfl rfl
  | resolved k os e hf =>
    have h1 := hf.lowest hs he hl
    unfold Core.resolve
    dsimp only
    split_ifs <;> exact h1.congr rfl rfl rfl rfl
  | claimRefund =>
    rw [(Core.closeDebtRefund_closes _).live hd]
    exact hl.congr rfl rfl rfl rfl
  | claimWin a d b h k =>
    rw [(Core.closeWin_closes _ k).live hd]
    exact hl.congr rfl rfl rfl rfl
  | forfeit a d b h e hcall hsend he' =>
    rw [(Core.tryClose_closes _).live hd, he']
    exact hl.congr rfl rfl rfl rfl
  | refundReceived => exact hl.congr rfl rfl rfl rfl
  | bookDone =>
    rw [(Core.tryClose_closes _).live hd]
    exact hl.congr rfl rfl rfl rfl

end Effect

namespace Pools

theorem burn_mint {p q : Pools} {xs : List ℕ} {used : ℕ} (h : p.mintSets xs used = some q) :
    q.burnSets xs used = some (p, used) := by
  obtain ⟨y, hy, h⟩ := of_bind h
  obtain ⟨rfl, -⟩ := add128_eq_some hy
  cases h
  have hdebit : (p.typedOutcomePools.credit .clean xs).debit .clean xs =
      some p.typedOutcomePools := by
    unfold TypedPools.debit
    rw [if_pos fun k _ => by simp [TypedPools.credit]]
    congr 1
    funext k u
    unfold TypedPools.credit
    split_ifs with hu
    · exact Nat.add_sub_cancel _ _
    · rfl
  have hclamp : ∀ r : Pools, r.totalUnclaimedBalance = p.totalUnclaimedBalance + used →
      r.clamp used = used := fun r hr => clamp_of_le (hr ▸ Nat.le_add_left _ _)
  simp only [burnSets, hdebit, Option.bind_eq_bind, Option.bind_some,
    sub128_of_le (Nat.le_add_left _ _), Nat.add_sub_cancel]
  rw [hclamp _ rfl]
  simp [payOut]

end Pools

namespace PMP

variable {s t : PMP} {i : Input}

/-- What an accepted split has checked and done. -/
structure Splits (s : PMP) (now collateral depositIdentifierHash : ℕ) (e t : PMP) : Prop where
  freeze : s.ensureFrozen now = some e
  unresolved : e.resolvedOutcome = none
  uncancelled : e.isCancelled = false
  early : now < e.resultStart
  settled : e.normRefundPending = false
  base : 0 < e.baseTotalPool
  quantum : 0 < e.splitMergeQ
  whole : 0 < collateral / e.splitMergeQ
  mint : ∃ p, e.toPools.mintSets (e.toBasket.amounts e.numOutcomes (collateral / e.splitMergeQ))
    (collateral / e.splitMergeQ * e.splitMergeQ) = some p ∧ t.toCore = e.toCore.setPools p
  mail : t.sent = e.sent ++ [(.note depositIdentifierHash, .onSplitAccepted
    (e.toBasket.amounts e.numOutcomes (collateral / e.splitMergeQ))
    (collateral / e.splitMergeQ * e.splitMergeQ))]

theorem splitFullSet_spec {a : Addr} {now f n : ℕ} (h : s.splitFullSet a now f n = some t) :
    a = .note n ∧ ∃ e, s.Splits now f n e t := by
  simp only [splitFullSet, bind_iff, pure_iff] at h
  obtain ⟨u, hz, hu, hcan, hnow, -, hn, hb, rfl, hq, hw, p, hp, rfl⟩ := h
  simp only [ensureBalance_core] at hp hq hw
  refine ⟨rfl, u, hz, by simpa using hu, by simpa using hcan, hnow, by simpa using hn, hb, hq, hw,
    ⟨p, hp, by simp⟩, by simp⟩

theorem mergeFullSet_spec {a : Addr} {now n : ℕ} {xs : List ℕ}
    (h : s.mergeFullSet a now xs n = some t) :
    ∃ e p paid, s.ensureFrozen now = some e ∧ e.resolvedOutcome = none ∧
      0 < e.toBasket.wholeSets e.numOutcomes xs ∧
      e.toPools.burnSets (e.toBasket.amounts e.numOutcomes (e.toBasket.wholeSets e.numOutcomes xs))
        (e.toBasket.wholeSets e.numOutcomes xs * e.splitMergeQ) = some (p, paid) ∧
      t.toCore = e.toCore.setPools p := by
  simp only [mergeFullSet, bind_iff, pure_iff] at h
  obtain ⟨u, hz, hu, -, -, -, -, -, rfl, -, -, ht, -, -, -, ⟨p, paid⟩, hp, rfl⟩ := h
  simp only [ensureBalance_core] at hp ht
  exact ⟨u, p, paid, hz, by simpa using hu, ht.1, hp, by simp⟩

/-- A merge of `m` whole baskets on a market that is frozen, neither resolved nor cancelled. -/
theorem mergeFullSet_whole {now n m paid : ℕ} {p : Pools} (hf : s.frozen = true)
    (hu : s.resolvedOutcome = none) (hc : s.isCancelled = false) (hnow : now < s.resultStart)
    (hb : 0 < s.baseTotalPool) (hr : s.normRefundPending = false) (hq : 0 < s.splitMergeQ)
    (hp : s.toBasket.Primitive s.numOutcomes) (hn : 0 < s.numOutcomes) (hm : 0 < m)
    (hlt : m < 2 ^ 128 - 1) (h1 : m * s.splitMergeQ ≤ s.totalPool)
    (h2 : m * s.splitMergeQ ≤ s.totalCleanPool)
    (h3 : ∀ k < s.numOutcomes, m * s.frozenCleanUnitsPerQ k ≤ s.typedOutcomePools k .clean)
    (hburn : s.toPools.burnSets (s.toBasket.amounts s.numOutcomes m) (m * s.splitMergeQ) =
      some (p, paid)) :
    ∃ t, s.mergeFullSet (.note n) now (s.toBasket.amounts s.numOutcomes m) n = some t ∧
      t.toCore = s.toCore.setPools p ∧
      t.sent = s.sent ++ [(.note n, .onMergeAccepted paid (s.toBasket.amounts s.numOutcomes m))] := by
  have hget : ∀ k < s.numOutcomes, (s.toBasket.amounts s.numOutcomes m).getD k 0 =
      m * s.frozenCleanUnitsPerQ k := by
    intro k hk
    rw [Basket.amounts, getD_map_range, if_pos hk]
  have hsets : s.toBasket.wholeSets s.numOutcomes (s.toBasket.amounts s.numOutcomes m) = m := by
    rw [Basket.wholeSets_eq s.toBasket (by omega) hp.units hget, if_neg hn.ne']
  have hzero : ∀ k < s.numOutcomes, s.frozenCleanUnitsPerQ k = 0 →
      (s.toBasket.amounts s.numOutcomes m).getD k 0 = 0 := by
    intro k hk h0
    rw [hget k hk, h0, Nat.mul_zero]
  have hle : ∀ k < s.numOutcomes, (s.toBasket.amounts s.numOutcomes m).getD k 0 ≤
      s.typedOutcomePools k .clean := by
    intro k hk
    rw [hget k hk]
    exact h3 k hk
  have hne : m ≠ 2 ^ 128 - 1 := hlt.ne
  refine ⟨((s.ensureBalance now).setPools p).send (.note n)
      (.onMergeAccepted paid (s.toBasket.amounts s.numOutcomes m)) |>.emit
      (.mergeProcessed (.note n) paid), ?_, by simp, by simp⟩
  simp only [mergeFullSet, ensureFrozen, hf, if_true, Option.bind_eq_bind, Option.bind_some, hu,
    hc, hr, hsets, ensureBalance_core, Basket.amounts_length, hburn]
  simp only [hnow, hb, hq, hm, hne, h1, h2, guard, if_true, Option.isNone_none, Option.bind_some,
    not_false_eq_true, Bool.false_eq_true, Option.pure_def, ne_eq, and_self]
  rw [if_pos hzero, if_pos hle]
  rfl

/-- A merge of the amounts a split has minted is accepted and undoes it. -/
theorem Splits.merged {e : PMP} {now now' f n : ℕ} (h : s.Splits now f n e t)
    (hs : e.toCore.Sound) (hp : e.toBasket.Primitive e.numOutcomes) (hn : 2 ≤ e.numOutcomes)
    (hl : e.destroyed = false) (hf : e.frozen = true) (hnow : now' < e.resultStart) :
    ∃ u, t.step ⟨.note n, now', .mergeFullSet
        (e.toBasket.amounts e.numOutcomes (f / e.splitMergeQ)) n⟩ = some u ∧
      u.toPools = e.toPools ∧ u.sent = [(.note n, .onMergeAccepted
        (f / e.splitMergeQ * e.splitMergeQ)
        (e.toBasket.amounts e.numOutcomes (f / e.splitMergeQ)))] := by
  obtain ⟨p, hmint, hcore⟩ := h.mint
  generalize hm : f / e.splitMergeQ = m at hmint ⊢
  have hsum : (e.toBasket.amounts e.numOutcomes m).sum = m * e.splitMergeQ :=
    Basket.amounts_sum hs.exact m
  obtain ⟨hsh, hfit, -, -⟩ := Core.mint_shifts hs hmint
  have hq : 2 ≤ e.splitMergeQ := by
    rw [hs.exact.quantum]
    calc 2 ≤ ∑ _k ∈ range e.numOutcomes, 1 := by simpa using hn
      _ ≤ _ := sum_le_sum fun k hk => hp.units k (mem_range.mp hk)
  have hlt : m < 2 ^ 128 - 1 := by
    have h1 := Nat.mul_le_mul_left m hq
    have h2 := hsh.total
    omega
  have hbegin : t.begin.toCore = e.toCore.setPools p := hcore
  have hd : t.destroyed = false := by
    rw [hcore]
    exact hl
  have hburn := Pools.burn_mint hmint
  have h0 : 0 < e.numOutcomes := by omega
  have hacc : ∃ u, t.begin.mergeFullSet (.note n) now'
      (t.begin.toBasket.amounts t.begin.numOutcomes m) n = some u ∧
      u.toCore = t.begin.toCore.setPools e.toPools ∧
      u.sent = t.begin.sent ++ [(.note n, .onMergeAccepted (m * e.splitMergeQ)
        (t.begin.toBasket.amounts t.begin.numOutcomes m))] := by
    apply mergeFullSet_whole <;> try rw [hbegin]
    · exact hf
    · exact h.unresolved
    · exact h.uncancelled
    · exact hnow
    · exact h.base
    · exact h.settled
    · exact h.quantum
    · exact hp
    · exact h0
    · exact hm ▸ h.whole
    · exact hlt
    · change m * e.splitMergeQ ≤ p.totalPool
      have h1 := hsh.total
      omega
    · change m * e.splitMergeQ ≤ p.totalCleanPool
      have h1 := hsh.clean
      omega
    · intro k hk
      change k < e.numOutcomes at hk
      change m * e.frozenCleanUnitsPerQ k ≤ p.typedOutcomePools k .clean
      have h1 := hsh.pools k .clean
      rw [Core.amounts_clean e.toBasket m hk] at h1
      omega
    · exact hburn
  rw [hbegin] at hacc
  obtain ⟨u, hu, hc, hsent⟩ := hacc
  refine ⟨u, ?_, ?_, ?_⟩
  · rw [step, if_neg (by simp [hd])]
    exact hu
  · rw [hc]
    rfl
  · exact hsent

end PMP

namespace Core

variable {c : Core} {m n paid : ℕ} {p : Pools}

theorem Baskets.mint (h : c.Baskets m) (hs : c.Sound)
    (hp : c.toPools.mintSets (c.toBasket.amounts c.numOutcomes n) (n * c.splitMergeQ) = some p) :
    (c.setPools p).Baskets (m + n) := by
  obtain ⟨hsh, -⟩ := mint_shifts hs hp
  refine ⟨fun k (hk : k < c.numOutcomes) => ?_, ?_⟩
  · have h1 := hsh.pools k .clean
    rw [amounts_clean c.toBasket n hk, h.pools k hk, ← Nat.add_mul] at h1
    exact h1
  · have h1 := hsh.clean
    rw [Basket.amounts_sum hs.exact n, h.total, hs.exact.quantum, ← Nat.add_mul] at h1
    exact h1

theorem Baskets.burn (h : c.Baskets m) (hs : c.Sound) (hu : c.resolvedOutcome = none)
    (hb : c.toBasket.Primitive c.numOutcomes) (h0 : 0 < c.numOutcomes)
    (hp : c.toPools.burnSets (c.toBasket.amounts c.numOutcomes n) (n * c.splitMergeQ) =
      some (p, paid)) : n ≤ m ∧ (c.setPools p).Baskets (m - n) := by
  obtain ⟨-, hsh, -, -⟩ := burn_shifts hs hu hp
  have hpool : ∀ k < c.numOutcomes, m * c.frozenCleanUnitsPerQ k =
      p.typedOutcomePools k .clean + n * c.frozenCleanUnitsPerQ k := by
    intro k hk
    have h1 := hsh.pools k .clean
    rwa [amounts_clean c.toBasket n hk, h.pools k hk] at h1
  refine ⟨?_, fun k (hk : k < c.numOutcomes) => ?_, ?_⟩
  · refine Nat.le_of_mul_le_mul_right ?_ (hb.units 0 h0)
    rw [hpool 0 h0]
    exact Nat.le_add_left _ _
  · change p.typedOutcomePools k .clean = (m - n) * c.frozenCleanUnitsPerQ k
    have h1 := hpool k hk
    rw [Nat.sub_mul]
    omega
  · change p.totalCleanPool = (m - n) * ∑ k ∈ range c.numOutcomes, c.frozenCleanUnitsPerQ k
    have h1 := hsh.clean
    rw [Basket.amounts_sum hs.exact n, h.total, hs.exact.quantum] at h1
    rw [Nat.sub_mul]
    omega

theorem Even.baskets (he : c.Even) (hs : c.Sound) (hf : c.frozen = true)
    (hc : c.isCancelled = false) (hu : c.resolvedOutcome = none) : ∃ m, c.Baskets m := by
  obtain ⟨m, hm⟩ := he.ratio hf hc hu
  refine ⟨m, fun k hk => (hm k hk).1, ?_⟩
  rw [(hs.balanced hu).clean, mul_sum]
  exact sum_congr rfl fun k hk => (hm k (mem_range.mp hk)).1

theorem Lowest.primitive (he : c.Even) (hl : c.Lowest) (hf : c.frozen = true)
    (hc : c.isCancelled = false) (hu : c.resolvedOutcome = none) (hn : 0 < c.numOutcomes) :
    c.toBasket.Primitive c.numOutcomes := by
  obtain ⟨m, hm⟩ := he.ratio hf hc hu
  exact ⟨fun k hk => (hm k hk).2, hl.coprime hf hn⟩

end Core

/-- Calls that split or merge full sets. -/
def PmpCall.fullSet : PmpCall → Bool
  | .splitFullSet .. | .mergeFullSet .. => true
  | _ => false

theorem Ballot.Step.approved {b b' : Ballot} {i : PMP.Input} {v : LatestVotes} (hs : b.Step i b')
    (hc : b.Counted v) (h : b.approved = true → b.oracleEventsPubkeys ≠ [])
    (ha : b'.approved = true) : b'.oracleEventsPubkeys ≠ [] := by
  cases hs with
  | keep | repeated | counted => exact h ha
  | register => exact List.cons_ne_nil _ _
  | lapse => exact h ha
  | decided caller m x p st t hv hp =>
    have h1 : b.oracleEventsPubkeys ≠ [] := List.ne_nil_of_mem (hc.oracle hp)
    cases m <;> exact h1

namespace PMP

variable {s t : PMP} {i : Input} {market : MarketId} {depositIdentifierHash : ℕ}
  {oracleEventLists : List Addr} {initialStakes : List ℕ} {tr : List (Input × PMP)}

/-- The outcomes of an approved market are those of an approval, one initial stake for each. -/
structure Opened (tr : List (Input × PMP)) (s : PMP) : Prop where
  count : s.destroyed = false → s.approvedOracleEvents = s.oracleEventsPubkeys.length
  outcomes : s.destroyed = false → s.oracleEventsPubkeys ≠ [] →
    s.numOutcomes = s.initialStakes.length ∧
      ∃ e ∈ tr, ∃ k a, e.1.call = .approveEvent k s.numOutcomes a
  voters : s.approved = true → s.oracleEventsPubkeys ≠ []

theorem Opened.step {v : LatestVotes} (h : Opened tr s) (hv : s.ballot.Counted v)
    (hi : s.step i = some t) : Opened (tr ++ [(i, t)]) t := by
  have hl := step_live hi
  have hcount : s.roster.approvedOracleEvents = s.roster.oracleEventsPubkeys.length := h.count hl
  have hout : s.roster.oracleEventsPubkeys ≠ [] →
      s.roster.numOutcomes = s.roster.initialStakes.length ∧
      ∃ e ∈ tr ++ [(i, t)], ∃ k a, e.1.call = .approveEvent k s.roster.numOutcomes a := by
    intro hne
    obtain ⟨h1, e, he, h2⟩ := h.outcomes hl hne
    exact ⟨h1, e, List.mem_append_left _ he, h2⟩
  have hr := step_roster hi
  have hv' : Ballot.Counted { s.ballot with carried := [] } v :=
    ⟨hv.distinct, hv.bound, hv.voted, hv.tallies, hv.final⟩
  have hvot : t.approved = true → t.oracleEventsPubkeys ≠ [] :=
    (step_ballot hi).approved hv' h.voters
  suffices hnew : t.destroyed = false →
      t.roster.approvedOracleEvents = t.roster.oracleEventsPubkeys.length ∧
      (t.roster.oracleEventsPubkeys ≠ [] →
        t.roster.numOutcomes = t.roster.initialStakes.length ∧
        ∃ e ∈ tr ++ [(i, t)], ∃ k a, e.1.call = .approveEvent k t.roster.numOutcomes a) from
    ⟨fun hd => (hnew hd).1, fun hd => (hnew hd).2, hvot⟩
  intro hd
  rw [hd] at hr
  have hmem : (i, t) ∈ tr ++ [(i, t)] := List.mem_append_right _ List.mem_cons_self
  generalize s.roster = r at hr hcount hout
  generalize t.roster = r' at hr ⊢
  cases hr with
  | keep => exact ⟨hcount, hout⟩
  | timed => exact ⟨hcount, hout⟩
  | registered d k n m a hcall hm =>
    refine ⟨by simp [hcount], fun _ => ?_⟩
    rcases hm with ⟨h0, hn, rfl⟩ | ⟨h0, rfl⟩
    · exact ⟨hn, (i, t), hmem, k, a, hcall⟩
    · refine hout fun h => h0 ?_
      rw [hcount, h]
      rfl

theorem run_opened
    (h : Run step (init market depositIdentifierHash oracleEventLists initialStakes) tr s) :
    Opened tr s := by
  refine h.invariant Opened ⟨fun _ => rfl, fun _ h => absurd rfl h, fun h => by cases h⟩ ?_
  intro tr s i t hr ho hi
  exact ho.step (run_counted hr).1 hi

theorem run_lowest
    (h : Run step (init market depositIdentifierHash oracleEventLists initialStakes) tr s) :
    s.Whole ∧ (s.destroyed = false → s.toCore.Lowest) := by
  refine h.state_invariant (fun s => s.Whole ∧ (s.destroyed = false → s.toCore.Lowest))
    ⟨init_whole .., fun _ => .of_thawed rfl⟩ ?_
  rintro s i t ⟨hw, hlow⟩ hi
  obtain ⟨h1, h2⟩ := hw.effect hi
  have hl := step_live hi
  exact ⟨hw.step hi, h2.lowest h1 (hw.even hl) (hlow hl)⟩

theorem run_outcomes
    (h : Run step (init market depositIdentifierHash oracleEventLists initialStakes) tr s)
    (hl : s.destroyed = false) (hf : s.frozen = true) : 0 < s.numOutcomes ∧
      ∃ e ∈ tr, ∃ k a, e.1.call = .approveEvent k s.numOutcomes a := by
  obtain ⟨hw, hlow⟩ := run_lowest h
  have ho := run_opened h
  obtain ⟨h1, h2⟩ := ho.outcomes hl (ho.voters ((hw.sound hl).opened hf))
  refine ⟨?_, h2⟩
  rw [h1]
  exact List.length_pos_of_ne_nil ((hlow hl).staked hf)

theorem fullSet_baskets {m : ℕ} (hs : s.toCore.Sound) (hf : s.frozen = true)
    (hb : s.toBasket.Primitive s.numOutcomes) (hn : 0 < s.numOutcomes) (hm : s.toCore.Baskets m)
    (hi : s.step i = some t) (hcall : i.call.fullSet = true) :
    t.toBasket = s.toBasket ∧ t.numOutcomes = s.numOutcomes ∧
      ∃ m', m' ≠ m ∧ t.toCore.Baskets m' := by
  have hfr : ∀ now, s.begin.ensureFrozen now = some s.begin := fun now => if_pos hf
  unfold step at hi
  split_ifs at hi
  cases hc : i.call with
  | splitFullSet f =>
    rw [hc] at hi
    obtain ⟨-, e, he⟩ := splitFullSet_spec hi
    cases (hfr i.now).symm.trans he.freeze
    obtain ⟨p, hp, hcore⟩ := he.mint
    rw [hcore]
    refine ⟨rfl, rfl, m + f / s.splitMergeQ, ?_, hm.mint hs hp⟩
    exact (Nat.lt_add_of_pos_right he.whole).ne'
  | mergeFullSet =>
    rw [hc] at hi
    obtain ⟨e, p, paid, he, hu, hpos, hp, hcore⟩ := mergeFullSet_spec hi
    cases (hfr i.now).symm.trans he
    obtain ⟨hle, hb'⟩ := hm.burn hs hu hb hn hp
    rw [hcore]
    refine ⟨rfl, rfl, _, ?_, hb'⟩
    exact (Nat.sub_lt (hpos.trans_le hle) hpos).ne
  | _ =>
    rw [hc] at hcall
    cases hcall

theorem split_undone {a : Addr} {now f n : ℕ} (hw : s.Whole)
    (hi : s.step ⟨a, now, .splitFullSet f n⟩ = some t) (ht : t.toCore.Lowest ∧ t.toCore.Even)
    (h2 : 2 ≤ t.numOutcomes) : ∃ amounts used,
      t.sent = [(.note n, .onSplitAccepted amounts used)] ∧
        ∀ now', now' < t.resultStart → ∃ u,
          t.step ⟨.note n, now', .mergeFullSet amounts n⟩ = some u ∧
            u.toPools = s.toPools ∧ u.sent = [(.note n, .onMergeAccepted used amounts)] := by
  have hl := step_live hi
  have hs := hw.sound hl
  unfold step at hi
  split_ifs at hi
  obtain ⟨-, e, he⟩ := splitFullSet_spec hi
  obtain ⟨os, hmay, hsent, hfr⟩ := ensureFrozen_spec he.freeze
  obtain ⟨p, -, hcore⟩ := he.mint
  obtain rfl := hmay.silent he.settled
  rw [hcore] at h2 ht
  have hprim := Core.Lowest.primitive (c := e.toCore.setPools p) ht.2 ht.1 hfr he.uncancelled
    he.unresolved (by omega)
  have hpools : e.toPools = s.toPools := hmay.pools_eq he.settled
  refine ⟨_, _, by rw [he.mail, hsent, begin_sent, List.nil_append, List.nil_append], ?_⟩
  intro now' hnow
  rw [hcore] at hnow
  obtain ⟨u, hu, hup, hus⟩ := he.merged (hmay.sound hs) hprim h2 (hmay.same.2.trans hl) hfr hnow
  exact ⟨u, hu, hup.trans hpools, hus⟩

theorem split_frozen {a : Addr} {now f n : ℕ} (hi : s.step ⟨a, now, .splitFullSet f n⟩ = some t) :
    t.destroyed = false ∧ t.frozen = true := by
  have hl := step_live hi
  unfold step at hi
  split_ifs at hi
  obtain ⟨-, e, he⟩ := splitFullSet_spec hi
  obtain ⟨os, hmay, -, hfr⟩ := ensureFrozen_spec he.freeze
  obtain ⟨p, -, hcore⟩ := he.mint
  rw [hcore]
  exact ⟨hmay.same.2.trans hl, hfr⟩

/-- Between freeze and resolution the clean pools are whole baskets of coprime units, splits and
merges change their number only, and a merge of what a split has minted undoes the split. The
oracle lists name two outcomes or more. -/
theorem basket_proportional
    (h : Run step (init market depositIdentifierHash oracleEventLists initialStakes) tr s) :
    (s.destroyed = false → s.frozen = true → s.isCancelled = false → s.resolvedOutcome = none →
      s.toBasket.Primitive s.numOutcomes ∧ ∃ m, s.toCore.Baskets m ∧
        ∀ i t, s.step i = some t → i.call.fullSet = true →
          t.toBasket = s.toBasket ∧ t.numOutcomes = s.numOutcomes ∧
            ∃ m', m' ≠ m ∧ t.toCore.Baskets m') ∧
      ((∀ e ∈ tr, ∀ k n a, e.1.call = .approveEvent k n a → 2 ≤ n) →
        ∀ a now f n t, s.step ⟨a, now, .splitFullSet f n⟩ = some t → ∃ amounts used,
          t.sent = [(.note n, .onSplitAccepted amounts used)] ∧
            ∀ now', now' < t.resultStart → ∃ u,
              t.step ⟨.note n, now', .mergeFullSet amounts n⟩ = some u ∧
                u.toPools = s.toPools ∧ u.sent = [(.note n, .onMergeAccepted used amounts)]) := by
  obtain ⟨hw, hlow⟩ := run_lowest h
  refine ⟨fun hl hf hc hu => ?_, fun h2 a now f n t hi => ?_⟩
  · have hs := hw.sound hl
    have hn := (run_outcomes h hl hf).1
    have hprim := Core.Lowest.primitive (hw.even hl) (hlow hl) hf hc hu hn
    obtain ⟨m, hm⟩ := (hw.even hl).baskets hs hf hc hu
    exact ⟨hprim, m, hm, fun i t hi hcall => fullSet_baskets hs hf hprim hn hm hi hcall⟩
  · have h' := h.snoc hi
    obtain ⟨hw', hlow'⟩ := run_lowest h'
    obtain ⟨hl, hf⟩ := split_frozen hi
    obtain ⟨-, e, he, k, b, hcall⟩ := run_outcomes h' hl hf
    have hn : 2 ≤ t.numOutcomes := by
      rcases List.mem_append.mp he with he | he
      · exact h2 e he k _ b hcall
      · obtain rfl := List.mem_singleton.mp he
        cases hcall
    exact split_undone hw hi ⟨hlow' hl, hw'.even hl⟩ hn

/-- A market with initial stakes in the ratio of one to two is frozen. -/
def basketInputs : List Input :=
  [⟨.ext 1, 10, .approveEvent 5 2 none⟩,
    ⟨.ext 0, 10, .submitSetTimings (.external 5) 1010⟩,
    ⟨.ext 0, 120, .freezeNow⟩]

def basketStart : PMP := init ⟨1, 2, 3⟩ 7 [.ext 1] [30, 60]

def basketTrace : List (Input × PMP) := Run.trace step basketStart basketInputs

def basketMarket : PMP := Run.last basketStart basketTrace

def splitInput : Input := ⟨.note 8, 130, .splitFullSet 10 8⟩

theorem splitInput_accepted : (basketMarket.step splitInput).isSome = true := by decide +kernel

def splitMarket : PMP := (basketMarket.step splitInput).get splitInput_accepted

theorem basket_proportional_sample :
    basketMarket.toBasket.Primitive 2 ∧ (∃ m, basketMarket.toCore.Baskets m) ∧
      ∃ u, splitMarket.step ⟨.note 8, 140, .mergeFullSet [3, 6] 8⟩ = some u ∧
        u.toPools = basketMarket.toPools ∧ u.sent = [(.note 8, .onMergeAccepted 9 [3, 6])] := by
  have h := basket_proportional (Run.trace_run step basketStart basketInputs)
  have hn : ∀ e ∈ basketTrace, ∀ k n a, e.1.call = .approveEvent k n a → 2 ≤ n := by
    intro e he k n a hcall
    have h1 : ∀ c ∈ basketTrace.map fun e => e.1.call,
        c = .approveEvent 5 2 none ∨ c = .submitSetTimings (.external 5) 1010 ∨ c = .freezeNow := by
      decide +kernel
    rcases h1 _ (List.mem_map_of_mem he) with h2 | h2 | h2 <;> rw [hcall] at h2
    · obtain ⟨-, rfl, -⟩ := PmpCall.approveEvent.inj h2
      exact le_refl _
    · cases h2
    · cases h2
  obtain ⟨hprim, m, hm, -⟩ := h.1 (by decide +kernel) (by decide +kernel) (by decide +kernel)
    (by decide +kernel)
  obtain ⟨amounts, used, hsent, hback⟩ := h.2 hn _ _ _ _ splitMarket
    (Option.some_get splitInput_accepted).symm
  have h1 : splitMarket.sent = [(.note 8, .onSplitAccepted [3, 6] 9)] := by decide +kernel
  obtain ⟨-, h2⟩ := Prod.mk.inj (List.head_eq_of_cons_eq (h1.symm.trans hsent))
  obtain ⟨rfl, rfl⟩ := PmpCallback.onSplitAccepted.inj h2
  exact ⟨hprim, ⟨m, hm⟩, hback 140 (by decide +kernel)⟩

end PMP

end Dexdo
