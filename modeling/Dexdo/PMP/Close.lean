import Dexdo.PMP.Flow

namespace Dexdo

open Finset

theorem gcdOf_succ (f : ℕ → ℕ) (n : ℕ) : Basket.gcdOf f (n + 1) =
    if f n = 0 then Basket.gcdOf f n
    else if Basket.gcdOf f n = 0 then f n else Nat.gcd (Basket.gcdOf f n) (f n) := by
  rw [Basket.gcdOf, List.range_succ, List.foldl_append]
  rfl

/-- The basket unit divides every pool. -/
theorem gcdOf_dvd (f : ℕ → ℕ) (n k : ℕ) (hk : k < n) : Basket.gcdOf f n ∣ f k := by
  induction n with
  | zero => cases hk
  | succ n ih =>
    rw [gcdOf_succ]
    by_cases hkn : k = n
    · subst hkn
      split_ifs with h0 hg
      · rw [h0]
        exact dvd_zero _
      · exact dvd_rfl
      · exact Nat.gcd_dvd_right _ _
    · have h1 := ih (by omega)
      split_ifs with h0 hg
      · exact h1
      · rw [hg] at h1
        rw [Nat.eq_zero_of_zero_dvd h1]
        exact dvd_zero _
      · exact (Nat.gcd_dvd_left _ _).trans h1

namespace Core

/-- The clean pools stand in the ratio of the basket, and none of them is missing in it. -/
def Ratio (c : Core) : Prop :=
  ∃ m, ∀ k < c.numOutcomes, c.typedOutcomePools k .clean = m * c.frozenCleanUnitsPerQ k ∧
    0 < c.frozenCleanUnitsPerQ k

/-- Until the freeze every clean pool holds an initial stake, and from then on the clean pools
keep their ratio. -/
structure Even (c : Core) : Prop where
  floor : c.frozen = false → c.isCancelled = false → ∀ g, c.initialStakes.min? = some g →
    ∀ k < c.numOutcomes, g ≤ c.typedOutcomePools k .clean
  ratio : c.frozen = true → c.isCancelled = false → c.resolvedOutcome = none → c.Ratio

variable {c d : Core}

theorem init_even (m : MarketId) (h : ℕ) (xs : List ℕ) : (Core.init m h xs).Even :=
  ⟨fun _ _ _ _ k hk => absurd hk (Nat.not_lt_zero k), fun h => by cases h⟩

theorem Even.congr (h : c.Even) (h1 : d.typedOutcomePools = c.typedOutcomePools)
    (h2 : d.frozen = c.frozen) (h3 : d.frozenCleanUnitsPerQ = c.frozenCleanUnitsPerQ)
    (h4 : d.isCancelled = c.isCancelled ∨ d.isCancelled = true)
    (h5 : d.resolvedOutcome = none → c.resolvedOutcome = none)
    (h6 : d.initialStakes = c.initialStakes) (h7 : d.numOutcomes = c.numOutcomes) : d.Even := by
  rcases h4 with h4 | h4
  · refine ⟨fun hf hc => ?_, fun hf hc hu => ?_⟩
    · rw [h1, h6, h7]
      exact h.floor (h2 ▸ hf) (h4 ▸ hc)
    · unfold Ratio
      rw [h1, h3, h7]
      exact h.ratio (h2 ▸ hf) (h4 ▸ hc) (h5 hu)
  · refine ⟨fun _ hc => ?_, fun _ hc => ?_⟩ <;>
    · rw [h4] at hc
      cases hc

theorem Even.of_resolved (hf : c.frozen = true) (h : c.resolvedOutcome ≠ none) : c.Even :=
  ⟨fun h0 => (by cases hf.symm.trans h0), fun _ _ hu => absurd hu h⟩

theorem Even.pool_pos (he : c.Even) {g paid : ℕ} {p : Pools} (hs : c.Sound) (h0 : c.frozen = false)
    (hc : c.isCancelled = false) (hg : c.initialStakes.min? = some g) (hpos : 0 < g)
    (hp : c.toPools.normalize c.numOutcomes g = some (p, paid)) {k : ℕ} (hk : k < c.numOutcomes) :
    0 < p.typedOutcomePools k .clean := by
  obtain ⟨-, hsh, -, -⟩ := Pools.normalize_shifts (hs.balanced (hs.unresolved h0)) hp
  have h1 := hsh.pools k .clean
  have h2 := he.floor h0 hc g hg k hk
  have h3 : c.toPools.trimmed c.numOutcomes g k .clean = c.typedOutcomePools k .clean % g := by
    simp [Pools.trimmed, Pools.remainder, hk]
  have h4 := Nat.mod_lt (c.typedOutcomePools k .clean) hpos
  omega

theorem Even.freeze (he : c.Even) {g paid : ℕ} {p : Pools} (hs : c.Sound) (h0 : c.frozen = false)
    (hc : c.isCancelled = false) (hg : c.initialStakes.min? = some g) (hpos : 0 < g)
    (hp : c.toPools.normalize c.numOutcomes g = some (p, paid)) : (c.freeze g p).Even := by
  have hfr : (c.freeze g p).frozen = true := rfl
  refine ⟨fun h => (by cases hfr.symm.trans h), fun _ _ _ => ?_⟩
  refine ⟨Basket.gcdOf (fun k => if k < c.numOutcomes then p.typedOutcomePools k .clean else 0)
    c.numOutcomes, fun k hk => ?_⟩
  have hk' : k < c.numOutcomes := hk
  have hdvd := gcdOf_dvd (fun k => if k < c.numOutcomes then p.typedOutcomePools k .clean else 0)
    c.numOutcomes k hk'
  have hu : (c.freeze g p).frozenCleanUnitsPerQ k = p.typedOutcomePools k .clean /
      Basket.gcdOf (fun k => if k < c.numOutcomes then p.typedOutcomePools k .clean else 0)
        c.numOutcomes := by
    simp [Core.freeze, Core.frozenBasket, Basket.build, Basket.unitsOf, hk']
  have hpool := he.pool_pos hs h0 hc hg hpos hp hk'
  rw [if_pos hk'] at hdvd
  rw [hu]
  refine ⟨(Nat.mul_div_cancel' hdvd).symm, Nat.div_pos (Nat.le_of_dvd hpool hdvd) ?_⟩
  exact Nat.pos_of_dvd_of_pos hdvd hpool

end Core

theorem MaybeFreeze.even {c d : Core} {os : Mail} (h : MaybeFreeze c os d) (hs : c.Sound)
    (he : c.Even) : d.Even := by
  cases h with
  | skip => exact he
  | freeze g paid p h0 ha hc hg hpos hp => exact he.freeze hs h0 hc hg hpos hp

namespace Core

variable {c : Core}

theorem amounts_clean (b : Basket) {n k : ℕ} (t : ℕ) (hk : k < n) :
    cleanOf (b.amounts n t) k .clean = t * b.frozenCleanUnitsPerQ k := by
  simp only [cleanOf, amountsOf, Basket.amounts, getD_map_range, if_pos hk]

theorem Ratio.mint (h : c.Ratio) (hs : c.Sound) {n : ℕ} {p : Pools}
    (hp : c.toPools.mintSets (c.toBasket.amounts c.numOutcomes n) (n * c.splitMergeQ) = some p) :
    (c.setPools p).Ratio := by
  obtain ⟨m, hm⟩ := h
  obtain ⟨hsh, -⟩ := mint_shifts hs hp
  refine ⟨m + n, fun k (hk : k < c.numOutcomes) => ⟨?_, (hm k hk).2⟩⟩
  have h1 := hsh.pools k .clean
  rw [amounts_clean c.toBasket n hk, (hm k hk).1, ← Nat.add_mul] at h1
  exact h1

theorem Ratio.burn (h : c.Ratio) (hs : c.Sound) (hu : c.resolvedOutcome = none) {n paid : ℕ}
    {p : Pools}
    (hp : c.toPools.burnSets (c.toBasket.amounts c.numOutcomes n) (n * c.splitMergeQ) =
      some (p, paid)) : (c.setPools p).Ratio := by
  obtain ⟨m, hm⟩ := h
  obtain ⟨-, hsh, -⟩ := burn_shifts hs hu hp
  refine ⟨m - n, fun k (hk : k < c.numOutcomes) => ⟨?_, (hm k hk).2⟩⟩
  have h1 := hsh.pools k .clean
  rw [amounts_clean c.toBasket n hk, (hm k hk).1] at h1
  change p.typedOutcomePools k .clean = (m - n) * c.frozenCleanUnitsPerQ k
  rw [Nat.sub_mul]
  omega

end Core

namespace Effect

variable {c d : Core} {os : Mail} {i : PMP.Input}

theorem even (h : Effect c i os d) (hs : c.Sound) (he : c.Even) (hd : d.destroyed = false) :
    d.Even := by
  cases h with
  | idle => exact he
  | abort => cases hd
  | opened p ha hpos hp =>
    have hf : c.frozen = false := by
      by_contra h
      cases ha.symm.trans (hs.opened (by simpa using h))
    obtain ⟨hsh, -⟩ := Pools.mintSets_shifts rfl hp
    refine ⟨fun _ _ g hg k hk => ?_, fun h => by cases hf.symm.trans h⟩
    have hk' : k < c.initialStakes.length := hk
    have h1 : g ≤ c.initialStakes.getD k 0 := by
      simpa [hk'] using (List.min?_eq_some_iff.mp hg).2 _ (List.getElem_mem hk')
    have h2 : (c.openWith p).typedOutcomePools k .clean = _ := hsh.pools k .clean
    have h3 : cleanOf c.initialStakes k .clean = c.initialStakes.getD k 0 := rfl
    omega
  | openedAbort => cases hd
  | timings st rs os d hu hf =>
    exact hf.even (hs.setTimings st rs) (he.congr rfl rfl rfl (.inl rfl) id rfl rfl)
  | cancelled => exact he.congr rfl rfl rfl (.inr rfl) id rfl rfl
  | stake k a h t p hcall hsend ha hc hu hk hf ht hcr hp =>
    obtain ⟨hsh, -⟩ := Pools.creditStake_shifts (hs.balanced hu) ht hp
    refine ⟨fun h0 hc g hg j hj => ?_, fun h => by cases hf.symm.trans h⟩
    have h1 := he.floor h0 hc g hg j hj
    have h2 := hsh.pools j .clean
    simp only [Core.setPools_toPools]
    omega
  | refund a d b h e p hcall hsend he' hc =>
    rw [(Core.closeCancelled_closes _).live hd]
    refine ⟨fun _ h1 => ?_, fun _ h1 => ?_⟩ <;>
    · rw [Core.setPools_isCancelled, hc] at h1
      cases h1
  | frozenNow os d hf => exact hf.even hs he
  | split f h os e p hcall hsend hf hfr hu hc hn hq hp =>
    refine ⟨fun h => (by cases hfr.symm.trans h), fun _ _ _ => ?_⟩
    exact ((hf.even hs he).ratio hfr hc hu).mint (hf.sound hs) hp
  | merge a h n paid os e p hcall hsend hf hfr hu hc hn hl hz ht hp =>
    refine ⟨fun h => (by cases hfr.symm.trans h), fun _ _ _ => ?_⟩
    exact ((hf.even hs he).ratio hfr hc hu).burn (hf.sound hs) hu hp
  | resolved k os e hf hfr =>
    refine .of_resolved ?_ (e.resolve_resolved k)
    unfold Core.resolve
    dsimp only
    split_ifs <;> exact hfr
  | claimNone => exact he
  | claimRefund a d b h hcall hsend hdone hm hr =>
    have hr' : c.resolvedOutcome ≠ none := Option.isSome_iff_ne_none.mp hr
    rw [(Core.closeDebtRefund_closes _).live hd]
    exact .of_resolved (hs.resolved hr').1 hr'
  | claimWin a d b h k q hcall hsend hdone hm hr =>
    have hr' : c.resolvedOutcome ≠ none := by simp [hr]
    rw [(Core.closeWin_closes _ k).live hd]
    exact .of_resolved (hs.resolved hr').1 hr'
  | forfeit a d b h e hcall hsend he' =>
    rw [(Core.tryClose_closes _).live hd, he']
    exact he.congr rfl rfl rfl (.inl rfl) id rfl rfl
  | refundReceived => exact he.congr rfl rfl rfl (.inl rfl) id rfl rfl
  | bookDone =>
    rw [(Core.tryClose_closes _).live hd]
    exact he.congr rfl rfl rfl (.inl rfl) id rfl rfl

end Effect

namespace Pools

variable {p : Pools} {n k : ℕ}

theorem Balanced.win_le (h : p.Balanced n) (hk : k < n) :
    p.winClean k ≤ p.totalCleanPool ∧ p.winDebt k ≤ p.totalDebtPool := by
  rw [h.clean, h.debt]
  have hk' := mem_range.mpr hk
  exact ⟨single_le_sum (f := fun k => p.typedOutcomePools k .clean) (fun _ _ => Nat.zero_le _) hk',
    single_le_sum (f := fun k => p.typedOutcomePools k .debt) (fun _ _ => Nat.zero_le _) hk'⟩

theorem creatorFee_le (p : Pools) (k : ℕ) : p.creatorFee k ≤ p.profitBudget k := by
  unfold creatorFee
  dsimp only
  split_ifs <;> omega

theorem couponPaid_le (p : Pools) (k : ℕ) : p.couponPaid k ≤ p.netBudget k := by
  unfold couponPaid
  dsimp only
  split_ifs <;> omega

theorem debtProfit_le (p : Pools) (k : ℕ) : p.debtProfit k ≤ p.realBudget k := by
  unfold debtProfit
  dsimp only
  split_ifs <;> omega

theorem Balanced.profitBudget_eq (h : p.Balanced n) (hk : k < n) :
    p.profitBudget k + p.winClean k + p.winDebt k = p.totalPool := by
  obtain ⟨h1, h2⟩ := h.win_le hk
  have h3 := h.total
  unfold profitBudget realWinMass
  split_ifs <;> omega

theorem Balanced.division (h : p.Balanced n) (hk : k < n) :
    p.totalPool = p.creatorFee k + (p.winClean k + p.profitToClean k) +
      (p.winDebt k + p.debtProfit k) + p.couponPaid k := by
  have h1 := h.profitBudget_eq hk
  have h2 := p.creatorFee_le k
  have h3 := p.couponPaid_le k
  have h4 := p.debtProfit_le k
  have h5 : p.netBudget k = p.profitBudget k - p.creatorFee k := rfl
  have h6 : p.realBudget k = p.netBudget k - p.couponPaid k := rfl
  have h7 : p.profitToClean k = p.realBudget k - p.debtProfit k := rfl
  omega

theorem Balanced.rewards_division (h : p.Balanced n) (hk : k < n) (hm : p.totalWinMass k ≠ 0) :
    (p.rewards k).creatorFee ≤ p.totalUnclaimedBalance ∧
      (p.rewards k).residual + (p.rewards k).creatorFee = p.totalPool := by
  have hrew : p.rewards k = _ := if_neg hm
  have hdiv := h.division hk
  have hun := h.unclaimed
  have hfee : p.clamp (p.creatorFee k) = p.creatorFee k := clamp_of_le (by omega)
  rw [hrew]
  simp only [Rewards.residual, hfee]
  omega

end Pools

namespace Core

/-- Outside the debt refund the reward budgets are all the PMP holds. -/
def Backed (c : Core) : Prop :=
  c.resolvedOutcome ≠ none → c.debtRefundMode = false →
    c.totalUnclaimedBalance = c.toRewards.residual

variable {c d : Core}

theorem Backed.of_unresolved (h : c.resolvedOutcome = none) : c.Backed := fun h' => absurd h h'

theorem resolve_empty (hs : c.Sound) (hr : c.Ratio) (hu : c.resolvedOutcome = none) {k : ℕ}
    (hk : k < c.numOutcomes) (hm : c.toPools.totalWinMass k = 0) (hd : c.totalDebtPool = 0) :
    c.totalUnclaimedBalance = 0 := by
  have hbal := hs.balanced hu
  obtain ⟨m, hm'⟩ := hr
  have h0 : c.typedOutcomePools k .clean = 0 := by
    unfold Pools.totalWinMass Pools.winClean at hm
    omega
  have hm0 : m = 0 := by
    rw [(hm' k hk).1] at h0
    rcases Nat.mul_eq_zero.mp h0 with h | h
    · exact h
    · have := (hm' k hk).2
      omega
  have hclean : c.totalCleanPool = 0 := by
    rw [hbal.clean]
    refine sum_eq_zero fun j hj => ?_
    rw [(hm' j (mem_range.mp hj)).1, hm0, Nat.zero_mul]
  rw [hbal.unclaimed, hbal.total, hclean, hd]

/-- At the resolution the rewards are backed by the pool. -/
theorem resolve_backed (hs : c.Sound) (hr : c.Ratio) (hu : c.resolvedOutcome = none) {k : ℕ}
    (hk : k < c.numOutcomes) : (c.resolve k).Backed := by
  have hbal := hs.balanced hu
  by_cases hm : c.toPools.totalWinMass k = 0
  · have hrew : c.toPools.rewards k = _ := if_pos hm
    have hres : c.resolve k = c.setRewards (c.toPools.rewards k) := by
      unfold resolve
      rw [hrew]
      rfl
    rw [hres, hrew]
    intro _ hd
    have hd0 : c.totalDebtPool = 0 := by simpa using hd
    have h0 := resolve_empty hs hr hu hk hm hd0
    exact h0
  · obtain ⟨hle, hres⟩ := hbal.rewards_division hk hm
    have hun := hbal.unclaimed
    intro _ _
    unfold resolve
    simp only [setRewards_toRewards]
    split_ifs with h
    · simp only [setPools_toPools, setPools_toRewards, setRewards_toRewards, Pools.payOut]
      omega
    · simp only [setRewards_toPools, setRewards_toRewards]
      omega

theorem capped_total_le (c : Core) (x y z : ℕ) : (c.capped x y z).total ≤ c.toRewards.residual := by
  simp only [capped, Rewards.cap, Payout.total, Rewards.residual]
  split_ifs <;> omega

theorem payWin_backed (hb : c.Backed) (hr : c.resolvedOutcome ≠ none)
    (hm : c.debtRefundMode = false) (x y z : ℕ) :
    (c.payWin x y z).totalUnclaimedBalance = (c.payWin x y z).toRewards.residual := by
  have h1 := hb hr hm
  have h2 := c.capped_total_le x y z
  have h3 : c.paid x y z = c.capped x y z := Payout.clamp_of_le (h1 ▸ h2)
  have h4 : (c.payWin x y z).totalUnclaimedBalance =
      c.totalUnclaimedBalance - (c.capped x y z).total := by
    rw [← h3]
    rfl
  have h5 : (c.payWin x y z).toRewards.residual = (c.totalRewardsClean - (c.capped x y z).clean) +
      (c.totalRewardsDebt - (c.capped x y z).debt) +
      (c.totalRewardsCoupon - (c.capped x y z).coupon) := rfl
  have h6 : (c.capped x y z).clean ≤ c.totalRewardsClean ∧
      (c.capped x y z).debt ≤ c.totalRewardsDebt ∧
      (c.capped x y z).coupon ≤ c.totalRewardsCoupon := by
    simp only [capped, Rewards.cap]
    split_ifs <;> omega
  simp only [Payout.total, Rewards.residual] at h1 h4
  omega

theorem residualClose_drains (c : Core) : c.residualClose.1.totalUnclaimedBalance = 0 := by
  unfold residualClose
  split_ifs with h
  · simp [Pools.payOut]
  · simpa using h

theorem winClose_drains (h : c.totalUnclaimedBalance = c.toRewards.residual) :
    c.winClose.1.totalUnclaimedBalance = 0 := by
  have h1 : c.toPools.clamp c.toRewards.residual = c.totalUnclaimedBalance := by
    rw [← h]
    exact Pools.clamp_of_le (le_refl _)
  unfold winClose
  dsimp only
  rw [h1]
  split_ifs with h2
  · simp [Pools.payOut]
  · simpa using h2

theorem closeWin_drains (h : c.totalUnclaimedBalance = c.toRewards.residual)
    (hl : c.destroyed = false) {k : ℕ} (hd : (c.closeWin k).1.destroyed = true) :
    (c.closeWin k).1.totalUnclaimedBalance = 0 := by
  unfold closeWin at hd ⊢
  split_ifs at hd ⊢
  · exact winClose_drains h
  · cases hl.symm.trans hd

theorem closeDebtRefund_drains (hl : c.destroyed = false)
    (hd : c.closeDebtRefund.1.destroyed = true) :
    c.closeDebtRefund.1.totalUnclaimedBalance = 0 := by
  unfold closeDebtRefund at hd ⊢
  split_ifs at hd ⊢
  · exact c.residualClose_drains
  · cases hl.symm.trans hd

theorem closeCancelled_drains (hl : c.destroyed = false)
    (hd : c.closeCancelled.1.destroyed = true) :
    c.closeCancelled.1.totalUnclaimedBalance = 0 := by
  unfold closeCancelled at hd ⊢
  split_ifs at hd ⊢
  · exact c.residualClose_drains
  · cases hl.symm.trans hd

/-- A close sweeps what is left. -/
theorem tryClose_drains (hb : c.Backed) (hl : c.destroyed = false)
    (hd : c.tryClose.1.destroyed = true) : c.tryClose.1.totalUnclaimedBalance = 0 := by
  unfold tryClose at hd ⊢
  cases hr : c.resolvedOutcome with
  | some =>
    simp only [hr] at hd ⊢
    split_ifs at hd ⊢ with h1 h2
    · exact closeDebtRefund_drains hl hd
    · exact closeWin_drains (hb (by simp [hr]) (by simpa using h2)) hl hd
    · cases hl.symm.trans hd
  | none =>
    simp only [hr] at hd ⊢
    split_ifs at hd ⊢
    · cases hl.symm.trans hd
    · exact closeCancelled_drains hl hd
    · cases hl.symm.trans hd

end Core

namespace Effect

variable {c d : Core} {os : Mail} {i : PMP.Input}

theorem backed (h : Effect c i os d) (hs : c.Sound) (he : c.Even) (hb : c.Backed)
    (hd : d.destroyed = false) : d.Backed := by
  cases h with
  | timings st rs os d hu hf =>
    refine .of_unresolved ?_
    rw [hf.same.1]
    exact hu
  | refund a d b h e p hcall hsend he' hc =>
    rw [(Core.closeCancelled_closes _).live hd]
    refine .of_unresolved ?_
    by_contra hr
    cases hc.symm.trans ((cancel_sound hs he').resolved hr).2
  | frozenNow os d hf =>
    cases hf with
    | skip => exact hb
    | freeze g paid p h0 => exact .of_unresolved (hs.unresolved h0)
  | split f h os e p hcall hsend hf hfr hu => exact .of_unresolved hu
  | merge a h n paid os e p hcall hsend hf hfr hu => exact .of_unresolved hu
  | resolved k os e hf hfr hu hc hk =>
    exact Core.resolve_backed (hf.sound hs) ((hf.even hs he).ratio hfr hc hu) hu hk
  | claimRefund a d b h hcall hsend hdone hm =>
    rw [(Core.closeDebtRefund_closes _).live hd]
    exact fun _ h => by cases hm.symm.trans h
  | claimWin a d b h k q hcall hsend hdone hm hr =>
    rw [(Core.closeWin_closes _ k).live hd]
    exact fun _ _ => Core.payWin_backed hb (by simp [hr]) hm _ _ _
  | forfeit a d b h e hcall hsend he' =>
    rw [(Core.tryClose_closes _).live hd, he']
    exact hb
  | bookDone =>
    rw [(Core.tryClose_closes _).live hd]
    exact hb
  | stake k a h t p hcall hsend ha hc hu => exact .of_unresolved hu
  | cancelled => exact hb
  | opened p ha =>
    refine .of_unresolved ?_
    by_contra hr
    cases ha.symm.trans (hs.opened (hs.resolved hr).1)
  | abort => cases hd
  | openedAbort => cases hd
  | idle | claimNone | refundReceived => exact hb

theorem drains (h : Effect c i os d) (hs : c.Sound) (hb : c.Backed) (hl : c.destroyed = false)
    (hab : i.call.aborts = false) (hd : d.destroyed = true) : d.totalUnclaimedBalance = 0 := by
  cases h with
  | abort n os hcall => cases hcall.symm.trans hab
  | openedAbort p hcall => cases hcall.symm.trans hab
  | timings st rs os d hu hf => cases hl.symm.trans (hf.same.2.symm.trans hd)
  | frozenNow os d hf => cases hl.symm.trans (hf.same.2.symm.trans hd)
  | split f h os e p hcall hsend hf =>
    cases hl.symm.trans (hf.same.2.symm.trans hd)
  | merge a h n paid os e p hcall hsend hf =>
    cases hl.symm.trans (hf.same.2.symm.trans hd)
  | resolved k os e hf =>
    have h1 : (e.resolve k).destroyed = e.destroyed := by
      unfold Core.resolve
      dsimp only
      split_ifs <;> rfl
    cases hl.symm.trans (hf.same.2.symm.trans (h1.symm.trans hd))
  | refund a d b h e p hcall hsend he' =>
    refine Core.closeCancelled_drains ?_ hd
    rcases he' with rfl | ⟨-, -, rfl⟩ <;> exact hl
  | claimRefund => exact Core.closeDebtRefund_drains hl hd
  | claimWin a d b h k q hcall hsend hdone hm hr =>
    exact Core.closeWin_drains (Core.payWin_backed hb (by simp [hr]) hm _ _ _) hl hd
  | forfeit a d b h e hcall hsend he' =>
    subst he'
    exact Core.tryClose_drains (c := c.setPools _) hb hl hd
  | bookDone => exact Core.tryClose_drains (c := c.setBookDone) hb hl hd
  | idle | cancelled | stake | opened | claimNone | refundReceived => cases hl.symm.trans hd

end Effect

namespace PMP

variable {s t : PMP} {i : Input}

/-- Collateral that entered and left in a run. -/
def entered (tr : List (Input × PMP)) : ℕ := (tr.map fun e => e.2.sent.entered e.1).sum

/-- Collateral that left the PMP in a run. -/
def left (tr : List (Input × PMP)) : ℕ := (tr.map fun e => e.2.sent.left).sum

/-- `Inv`, and what the collateral depends on. -/
structure Whole (s : PMP) : Prop extends s.Inv where
  even : s.destroyed = false → s.toCore.Even
  backed : s.destroyed = false → s.toCore.Backed

theorem init_whole (m : MarketId) (h : ℕ) (ls : List Addr) (xs : List ℕ) :
    (PMP.init m h ls xs).Whole :=
  ⟨init_inv m h ls xs, fun _ => Core.init_even m h xs, fun _ => .of_unresolved rfl⟩

theorem Whole.step (hs : s.Whole) (h : s.step i = some t) : t.Whole := by
  obtain ⟨h1, h2⟩ := hs.effect h
  have hl := step_live h
  exact ⟨hs.toInv.step h, h2.even h1 (hs.even hl), h2.backed h1 (hs.even hl) (hs.backed hl)⟩

variable {market : MarketId} {depositIdentifierHash : ℕ} {oracleEventLists : List Addr}
  {initialStakes : List ℕ} {tr : List (Input × PMP)}

theorem run_whole
    (h : Run step (init market depositIdentifierHash oracleEventLists initialStakes) tr s) :
    s.Whole :=
  h.state_invariant Whole (init_whole ..) fun _ _ _ => Whole.step

/-- Collateral taken in is held or was given out. -/
theorem run_conserves
    (h : Run step (init market depositIdentifierHash oracleEventLists initialStakes) tr s)
    (hl : s.destroyed = false) : s.totalUnclaimedBalance + left tr = entered tr := by
  induction h with
  | nil => rfl
  | snoc hr hi ih =>
    have h1 := ih (step_live hi)
    have h2 := (((run_whole hr).effect hi).2).conserves (.inr hl)
    simp only [left, entered, List.map_append, List.sum_append, List.map_cons, List.map_nil,
      List.sum_cons, List.sum_nil] at h1 ⊢
    omega

/-- A market that closes has sent out all the collateral that entered it. -/
theorem close_strands_nothing
    (h : Run step (init market depositIdentifierHash oracleEventLists initialStakes) tr s)
    (hi : s.step i = some t) (hab : i.call.aborts = false) (hd : t.destroyed = true) :
    t.totalUnclaimedBalance = 0 ∧ entered (tr ++ [(i, t)]) = left (tr ++ [(i, t)]) := by
  have hs := run_whole h
  have hl := step_live hi
  obtain ⟨h1, h2⟩ := hs.effect hi
  have h0 := h2.drains h1 (hs.backed hl) hl hab hd
  have h3 := run_conserves h hl
  have h4 := h2.conserves (.inl hab)
  refine ⟨h0, ?_⟩
  simp only [left, entered, List.map_append, List.sum_append, List.map_cons, List.map_nil,
    List.sum_cons, List.sum_nil] at h3 ⊢
  omega

/-- A market with two winners is resolved, its book shuts down and one winner claims. -/
def sampleInputs : List Input :=
  [⟨.ext 1, 10, .approveEvent 5 2 none⟩,
    ⟨.ext 0, 10, .submitSetTimings (.external 5) 1010⟩,
    ⟨.note 8, 20, .acceptStake 0 25 8 .clean⟩,
    ⟨.ext 0, 120, .freezeNow⟩,
    ⟨.ext 0, 1010, .submitResolve (.external 5) 0⟩,
    ⟨.orderBook ⟨1, 2, 3⟩, 1020, .onOrderBookShutdownComplete⟩,
    ⟨.note 8, 1030, .claim [25, 0] [0, 0] [0, 0] 8⟩]

def sampleStart : PMP := init ⟨1, 2, 3⟩ 7 [.ext 1] [30, 50]

def sampleTrace : List (Input × PMP) := Run.trace step sampleStart sampleInputs

def sampleEnd : PMP := Run.last sampleStart sampleTrace

theorem sample_run : Run step (init ⟨1, 2, 3⟩ 7 [.ext 1] [30, 50]) sampleTrace sampleEnd :=
  Run.trace_run step sampleStart sampleInputs

/-- The deployer claims last. -/
def lastClaim : Input := ⟨.note 7, 1040, .claim [5, 30] [0, 0] [0, 0] 7⟩

theorem lastClaim_accepted : (sampleEnd.step lastClaim).isSome = true := by decide +kernel

theorem close_strands_nothing_sample :
    left (sampleTrace ++ [(lastClaim, (sampleEnd.step lastClaim).get lastClaim_accepted)]) = 105 ∧
      entered (sampleTrace ++ [(lastClaim, (sampleEnd.step lastClaim).get lastClaim_accepted)]) =
        left (sampleTrace ++ [(lastClaim, (sampleEnd.step lastClaim).get lastClaim_accepted)]) :=
  ⟨by decide +kernel, (close_strands_nothing sample_run (Option.some_get lastClaim_accepted).symm rfl
    (by decide +kernel)).2⟩

end PMP

end Dexdo
