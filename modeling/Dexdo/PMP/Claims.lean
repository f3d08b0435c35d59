import Dexdo.PMP.Close

namespace Dexdo

theorem floor_add_le (a b m w : ℕ) : a * m / w + b * m / w ≤ (a + b) * m / w := by
  rw [Nat.add_mul]
  exact Nat.div_add_div_le_add_div

namespace Pools

variable {p : Pools} {n k : ℕ}

theorem toUint128_le (a : ℕ) : toUint128 a ≤ a := Nat.mod_le _ _

theorem toUint128_of_le {a b : ℕ} (h : a ≤ b) (hb : b < 2 ^ 128) : toUint128 a = a :=
  Nat.mod_eq_of_lt (h.trans_lt hb)

/-- A share of the budget by its rounded coefficient is within the budget. -/
theorem share_le {part mass coef budget : ℕ} (hp : part ≤ mass)
    (hc : coef ≤ budget * FULL_PERCENT / mass) : part * coef / FULL_PERCENT ≤ budget := by
  have h1 : part * coef ≤ budget * FULL_PERCENT := calc
    part * coef ≤ mass * (budget * FULL_PERCENT / mass) := Nat.mul_le_mul hp hc
    _ ≤ budget * FULL_PERCENT := Nat.mul_div_le _ _
  exact (Nat.div_le_div_right h1).trans (Nat.mul_div_cancel budget (by decide)).le

theorem couponCoef_le (p : Pools) (k : ℕ) :
    p.couponCoef k ≤ p.netBudget k * FULL_PERCENT / p.totalWinMass k := by
  have h := toUint128_le (p.netBudget k * FULL_PERCENT / p.totalWinMass k)
  unfold couponCoef
  dsimp only
  split_ifs with h1
  · omega
  · exact h

theorem debtCoef_le (p : Pools) (k : ℕ) :
    p.debtCoef k ≤ p.realBudget k * FULL_PERCENT / p.realWinMass k := by
  have h := toUint128_le (p.realBudget k * FULL_PERCENT / p.realWinMass k)
  unfold debtCoef
  dsimp only
  split_ifs with h1 h2
  · refine (toUint128_le _).trans ?_
    refine (Nat.div_le_div_right (Nat.mul_le_mul_left _ (Nat.sub_le _ _))).trans ?_
    rw [Nat.mul_div_cancel _ (by decide)]
    exact h
  · exact h
  · exact Nat.zero_le _

theorem netBudget_lt (h : p.Balanced n) (hk : k < n) : p.netBudget k < 2 ^ 128 := by
  have h1 := h.profitBudget_eq hk
  have h2 := h.fits
  have h3 : p.netBudget k = p.profitBudget k - p.creatorFee k := rfl
  omega

theorem coupons_reserved (h : p.Balanced n) (hk : k < n) :
    p.winCoupon k * p.couponCoef k / FULL_PERCENT = p.couponPaid k := by
  have h1 : p.winCoupon k * p.couponCoef k / FULL_PERCENT ≤ p.netBudget k :=
    share_le (Nat.le_add_left _ _) (p.couponCoef_le k)
  unfold couponPaid
  dsimp only
  rw [toUint128_of_le h1 (netBudget_lt h hk), if_neg (Nat.not_lt.mpr h1)]

theorem debts_reserved (h : p.Balanced n) (hk : k < n) :
    p.winDebt k * p.debtCoef k / FULL_PERCENT = p.debtProfit k := by
  have h1 : p.winDebt k * p.debtCoef k / FULL_PERCENT ≤ p.realBudget k :=
    share_le (Nat.le_add_left _ _) (p.debtCoef_le k)
  have h2 : p.realBudget k < 2 ^ 128 := (Nat.sub_le _ _).trans_lt (netBudget_lt h hk)
  unfold debtProfit
  dsimp only
  split_ifs with h3 h4
  · rw [toUint128_of_le h1 h2] at h4
    omega
  · rw [toUint128_of_le h1 h2]
  · have h5 : p.debtCoef k = 0 := if_neg h3
    simp [h5]

end Pools

/-- Winning stakes a callback settles. -/
def stakesClaimed (i : PMP.Input) (W : ℕ) (t : BetType) : PmpCallback → ℕ
  | .onClaimAccepted .. => match i.call with
    | .claim a d b _ => amountsOf a d b W t
    | _ => 0
  | _ => 0

/-- Stakes of a type that the claims of a transaction hand in. -/
def Mail.claimed (i : PMP.Input) (os : Mail) (W : ℕ) (t : BetType) : ℕ :=
  (os.map fun m => stakesClaimed i W t m.2).sum

/-- Stakes of the three kinds that can win. -/
def massOf (x : BetType → ℕ) : ℕ := x .clean + x .debt + x .coupon

/-- An oracle list rejects the event, or a message to it comes back. -/
def PmpCall.rejects : PmpCall → Bool
  | .rejectEvent | .onBounce => true
  | _ => false

theorem Mail.claimed_cons (i : PMP.Input) (m : Addr × PmpCallback) (os : Mail) (W : ℕ)
    (t : BetType) :
    Mail.claimed i (m :: os) W t = stakesClaimed i W t m.2 + os.claimed i W t := rfl

/-- The budgets still hold what the unclaimed winners of outcome `W` are owed; `x` has been claimed
since `u` was resolved. -/
structure Reserved (u : Core) (W : ℕ) (x : BetType → ℕ) (c : Core) : Prop where
  outcome : c.resolvedOutcome = some W
  mode : c.debtRefundMode = false
  winClean : c.resolvedWinClean = u.resolvedWinClean
  profit : c.profitToClean = u.profitToClean
  debtCoef : c.debtWinCoef = u.debtWinCoef
  couponCoef : c.couponWinCoef = u.couponWinCoef
  clean : ∀ r, x .clean + r ≤ u.typedOutcomePools W .clean →
    r + r * u.profitToClean / u.resolvedWinClean ≤ c.totalRewardsClean
  debt : ∀ r, x .debt + r ≤ u.typedOutcomePools W .debt →
    r + r * u.debtWinCoef / FULL_PERCENT ≤ c.totalRewardsDebt
  coupon : ∀ r, x .coupon + r ≤ u.typedOutcomePools W .coupon →
    r * u.couponWinCoef / FULL_PERCENT ≤ c.totalRewardsCoupon

/-- Figures set by a resolution with winning stakes. -/
structure Figures (u : Core) (W : ℕ) : Prop where
  winPool : u.totalWinPool = massOf (u.typedOutcomePools W)
  winClean : u.resolvedWinClean = u.typedOutcomePools W .clean
  mass : massOf (u.typedOutcomePools W) < 2 ^ 128
  profit : u.typedOutcomePools W .clean + u.profitToClean < 2 ^ 128
  debt : u.typedOutcomePools W .debt +
    u.typedOutcomePools W .debt * u.debtWinCoef / FULL_PERCENT < 2 ^ 128
  coupon : u.typedOutcomePools W .coupon * u.couponWinCoef / FULL_PERCENT < 2 ^ 128

theorem share_le_profit (r P w : ℕ) (h : r ≤ w) : r * P / w ≤ P :=
  Nat.div_le_of_le_mul (Nat.mul_le_mul_right P h)

namespace Core

variable {c : Core} {k : ℕ}

theorem resolve_typedOutcomePools (c : Core) (k : ℕ) :
    (c.resolve k).typedOutcomePools = c.typedOutcomePools := by
  unfold resolve
  dsimp only
  split_ifs <;> rfl

theorem resolve_toRewards (c : Core) (k : ℕ) : (c.resolve k).toRewards = c.toPools.rewards k := by
  unfold resolve
  dsimp only
  split_ifs <;> rfl

theorem resolve_destroyed (c : Core) (k : ℕ) : (c.resolve k).destroyed = c.destroyed := by
  unfold resolve
  dsimp only
  split_ifs <;> rfl

/-- The figures that the resolution writes. -/
theorem resolve_figures (hs : c.Sound) (hu : c.resolvedOutcome = none) (hk : k < c.numOutcomes)
    (hfit : c.toPools.resolveFits k = true) (hm : c.toPools.totalWinMass k ≠ 0) :
    Figures (c.resolve k) k := by
  have hbal := hs.balanced hu
  have hrew : c.toPools.rewards k = _ := if_neg hm
  have hdiv := hbal.division hk
  have hpool := hbal.fits
  refine ⟨?_, ?_, ?_, ?_, ?_, ?_⟩
  · rw [resolve_toRewards, resolve_typedOutcomePools, hrew]
    rfl
  · rw [resolve_toRewards, resolve_typedOutcomePools, hrew]
    rfl
  · rw [resolve_typedOutcomePools]
    exact (of_decide_eq_true hfit).1
  · rw [resolve_toRewards, resolve_typedOutcomePools, hrew]
    change c.toPools.winClean k + c.toPools.profitToClean k < _
    omega
  · rw [resolve_toRewards, resolve_typedOutcomePools, hrew]
    change c.toPools.winDebt k + c.toPools.winDebt k * c.toPools.debtCoef k / FULL_PERCENT < _
    rw [Pools.debts_reserved hbal hk]
    omega
  · rw [resolve_toRewards, resolve_typedOutcomePools, hrew]
    change c.toPools.winCoupon k * c.toPools.couponCoef k / FULL_PERCENT < _
    rw [Pools.coupons_reserved hbal hk]
    omega

/-- The resolution reserves what all claims can ask. -/
theorem resolve_reserved (hs : c.Sound) (hu : c.resolvedOutcome = none) (hk : k < c.numOutcomes)
    (hm : c.toPools.totalWinMass k ≠ 0) : Reserved (c.resolve k) k (fun _ => 0) (c.resolve k) := by
  have hbal := hs.balanced hu
  have hrew : c.toPools.rewards k = _ := if_neg hm
  refine ⟨?_, ?_, rfl, rfl, rfl, rfl, fun r hr => ?_, fun r hr => ?_, fun r hr => ?_⟩
  · rw [resolve_toRewards, hrew]
  · rw [resolve_toRewards, hrew]
    rfl
  · rw [resolve_typedOutcomePools, Nat.zero_add] at hr
    rw [resolve_toRewards, hrew]
    exact Nat.add_le_add hr (share_le_profit r _ _ hr)
  · rw [resolve_typedOutcomePools, Nat.zero_add] at hr
    rw [resolve_toRewards, hrew]
    refine Nat.add_le_add hr ?_
    rw [← Pools.debts_reserved hbal hk]
    exact Nat.div_le_div_right (Nat.mul_le_mul_right _ hr)
  · rw [resolve_typedOutcomePools, Nat.zero_add] at hr
    rw [resolve_toRewards, hrew]
    change _ ≤ c.toPools.couponPaid k
    rw [← Pools.coupons_reserved hbal hk]
    exact Nat.div_le_div_right (Nat.mul_le_mul_right _ hr)

end Core

namespace Reserved

variable {u c : Core} {W : ℕ} {x : BetType → ℕ} {s d b : ℕ}

/-- What a claim of the given winning stakes is due. -/
def due (u : Core) (s d b : ℕ) : Payout :=
  ⟨s + s * u.profitToClean / u.resolvedWinClean, d + d * u.debtWinCoef / FULL_PERCENT,
    b * u.couponWinCoef / FULL_PERCENT, (u.toRewards.payout s d b).debtPaid⟩

theorem payout_eq (h : Reserved u W x c) (hu : Figures u W)
    (hs : s ≤ u.typedOutcomePools W .clean) (hd : d ≤ u.typedOutcomePools W .debt)
    (hb : b ≤ u.typedOutcomePools W .coupon) : c.toRewards.payout s d b = due u s d b := by
  have hclean : c.toRewards.cleanPayout s = s + s * u.profitToClean / u.resolvedWinClean := by
    unfold Rewards.cleanPayout
    rw [h.winClean, h.profit]
    rw [← hu.winClean] at hs
    split_ifs with h0
    · rw [Pools.toUint128_of_le (share_le_profit s _ _ hs) (by have := hu.profit; omega)]
    · have h1 : s = 0 := by omega
      simp [h1]
  have hdebt : c.toRewards.debtPayout d = d + d * u.debtWinCoef / FULL_PERCENT := by
    unfold Rewards.debtPayout Rewards.debtProfitOf
    rw [h.debtCoef]
    split_ifs with h0
    · rw [Pools.toUint128_of_le (Nat.div_le_div_right (Nat.mul_le_mul_right _ hd))
        (by have := hu.debt; omega)]
    · have h1 : d = 0 := by omega
      simp [h1]
  have hcoupon : c.toRewards.couponPayout b = b * u.couponWinCoef / FULL_PERCENT := by
    unfold Rewards.couponPayout
    rw [h.couponCoef]
    split_ifs with h0
    · rw [Pools.toUint128_of_le (Nat.div_le_div_right (Nat.mul_le_mul_right _ hb)) hu.coupon]
    · have h1 : b = 0 := by omega
      simp [h1]
  unfold Rewards.payout due
  rw [hclean, hdebt, hcoupon]
  unfold Rewards.payout Rewards.debtPaidOf Rewards.debtProfitOf
  rw [h.winClean, h.debtCoef]

/-- No sum and no cast of a claim within the winning pools throws. -/
theorem payoutFits (h : Reserved u W x c) (hu : Figures u W)
    (hs : s ≤ u.typedOutcomePools W .clean) (hd : d ≤ u.typedOutcomePools W .debt)
    (hb : b ≤ u.typedOutcomePools W .coupon) : c.toRewards.payoutFits s d b = true := by
  have hpay := h.payout_eq hu hs hd hb
  have hclean : c.toRewards.cleanPayout s = _ := congrArg Payout.clean hpay
  have hdebt : c.toRewards.debtPayout d = _ := congrArg Payout.debt hpay
  simp only [due] at hclean hdebt
  have hmass := hu.mass
  have hprofit := hu.profit
  have hdebts := hu.debt
  have hcoupons := hu.coupon
  have h1 := share_le_profit s u.profitToClean u.resolvedWinClean (hu.winClean ▸ hs)
  have h2 : d * u.debtWinCoef / FULL_PERCENT ≤ _ :=
    Nat.div_le_div_right (Nat.mul_le_mul_right u.debtWinCoef hd)
  have h3 : b * u.couponWinCoef / FULL_PERCENT ≤ _ :=
    Nat.div_le_div_right (Nat.mul_le_mul_right u.couponWinCoef hb)
  unfold massOf at hmass
  rw [Rewards.payoutFits, hclean, hdebt, h.winClean, h.profit, h.debtCoef, h.couponCoef]
  exact decide_eq_true ⟨⟨by omega, by omega, by omega⟩, ⟨by omega, by omega⟩, fun _ => by omega⟩

theorem capped_eq (h : Reserved u W x c) (hu : Figures u W)
    (hs : x .clean + s ≤ u.typedOutcomePools W .clean)
    (hd : x .debt + d ≤ u.typedOutcomePools W .debt)
    (hb : x .coupon + b ≤ u.typedOutcomePools W .coupon) : c.capped s d b = due u s d b := by
  have h1 := h.clean s hs
  have h2 := h.debt d hd
  have h3 := h.coupon b hb
  unfold Core.capped
  rw [h.payout_eq hu (by omega) (by omega) (by omega)]
  unfold Rewards.cap due
  simp only [if_neg (Nat.not_lt.mpr h1), if_neg (Nat.not_lt.mpr h2), if_neg (Nat.not_lt.mpr h3)]

/-- A paid claim leaves the reserves of the others. -/
theorem payWin (h : Reserved u W x c) (hu : Figures u W)
    (hs : x .clean + s ≤ u.typedOutcomePools W .clean)
    (hd : x .debt + d ≤ u.typedOutcomePools W .debt)
    (hb : x .coupon + b ≤ u.typedOutcomePools W .coupon) {y : BetType → ℕ}
    (hy : y .clean = x .clean + s ∧ y .debt = x .debt + d ∧ y .coupon = x .coupon + b) :
    Reserved u W y (c.payWin s d b) := by
  have hcap := h.capped_eq hu hs hd hb
  obtain ⟨hy1, hy2, hy3⟩ := hy
  refine ⟨h.outcome, h.mode, h.winClean, h.profit, h.debtCoef, h.couponCoef, fun r hr => ?_,
    fun r hr => ?_, fun r hr => ?_⟩
  · have h1 := h.clean (s + r) (by omega)
    have h2 := floor_add_le s r u.profitToClean u.resolvedWinClean
    change _ ≤ c.totalRewardsClean - (c.capped s d b).clean
    rw [hcap]
    simp only [due]
    omega
  · have h1 := h.debt (d + r) (by omega)
    have h2 := floor_add_le d r u.debtWinCoef FULL_PERCENT
    change _ ≤ c.totalRewardsDebt - (c.capped s d b).debt
    rw [hcap]
    simp only [due]
    omega
  · have h1 := h.coupon (b + r) (by omega)
    have h2 := floor_add_le b r u.couponWinCoef FULL_PERCENT
    change _ ≤ c.totalRewardsCoupon - (c.capped s d b).coupon
    rw [hcap]
    simp only [due]
    omega

end Reserved

namespace Core

/-- Result of a close test of a resolved market: nothing, or the close once the claimed and the
forfeited stakes are all that have won. -/
def ClosesWin (c : Core) (W : ℕ) (r : Core × Mail) : Prop :=
  r = (c, []) ∨ c.totalWinPool ≤ c.toPools.forfeitedWinMass W ∧ r = c.winClose

variable {c : Core} {W : ℕ} {r : Core × Mail}

theorem closeWin_closesWin (c : Core) (W : ℕ) : c.ClosesWin W (c.closeWin W) := by
  unfold closeWin
  split_ifs with h
  · exact .inr ⟨h, rfl⟩
  · exact .inl rfl

theorem tryClose_closesWin (hr : c.resolvedOutcome = some W) (hm : c.debtRefundMode = false) :
    c.ClosesWin W c.tryClose := by
  simp only [tryClose, hr, hm, Bool.false_eq_true, if_false]
  split_ifs
  · exact c.closeWin_closesWin W
  · exact .inl rfl

theorem ClosesWin.closes (h : c.ClosesWin W r) : c.Closes r := by
  rcases h with rfl | ⟨-, rfl⟩
  · exact .inl rfl
  · exact c.winClose_closes

theorem winClose_forfeited (c : Core) : c.winClose.1.forfeited = c.forfeited := by
  unfold winClose
  dsimp only
  split_ifs <;> rfl

theorem ClosesWin.spent (h : c.ClosesWin W r) (hl : c.destroyed = false)
    (hd : r.1.destroyed = true) : c.totalWinPool ≤ r.1.toPools.forfeitedWinMass W := by
  rcases h with rfl | ⟨hle, rfl⟩
  · cases hl.symm.trans hd
  · unfold Pools.forfeitedWinMass at hle ⊢
    rwa [winClose_forfeited]

end Core

namespace Effect

variable {c d : Core} {os : Mail} {i : PMP.Input} {W : ℕ}

/-- After a resolution with winners a transaction pays a claim, or leaves the budgets alone and at
most closes the PMP. -/
theorem resolved_cases (h : Effect c i os d) (hs : c.Sound) (hr : c.resolvedOutcome = some W)
    (hm : c.debtRefundMode = false) (hab : i.call.aborts = false ∨ d.destroyed = false) :
    (∃ x y z n, i.call = .claim x y z n ∧ ∃ q : Payout, q = c.paid (x.getD W 0) (y.getD W 0)
        (z.getD W 0) ∧ os = (.note n, .onClaimAccepted (some W) q.clean q.debt q.coupon q.debtPaid) ::
          ((c.payWin (x.getD W 0) (y.getD W 0) (z.getD W 0)).closeWin W).2 ∧
        d = ((c.payWin (x.getD W 0) (y.getD W 0) (z.getD W 0)).closeWin W).1) ∨
      ∃ (e : Core) (r : Core × Mail), e.toRewards = c.toRewards ∧ e.destroyed = c.destroyed ∧
        e.ClosesWin W r ∧ d = r.1 ∧ (os = r.2 ∨ ∃ a, os = (a, .onForfeitAccepted) :: r.2) := by
  have hne : c.resolvedOutcome ≠ none := by simp [hr]
  obtain ⟨hfr, hnc⟩ := hs.resolved hne
  cases h with
  | idle => exact .inr ⟨c, (c, []), rfl, rfl, .inl rfl, rfl, .inl rfl⟩
  | abort n os hcall =>
    rw [hcall] at hab
    rcases hab with h | h <;> cases h
  | opened p ha => cases ha.symm.trans (hs.opened hfr)
  | openedAbort p hcall =>
    rw [hcall] at hab
    rcases hab with h | h <;> cases h
  | timings st rs os d hu => exact absurd hu hne
  | cancelled hu => exact absurd hu hne
  | stake k a h t p hcall hsend ha hc hu => exact absurd hu hne
  | refund a d b h e p hcall hsend he hc =>
    rcases he with rfl | ⟨hu, -, -⟩
    · cases hc.symm.trans hnc
    · exact absurd hu hne
  | frozenNow os d hf =>
    cases hf with
    | skip => exact .inr ⟨c, (c, []), rfl, rfl, .inl rfl, rfl, .inl rfl⟩
    | freeze g paid p h0 => cases hfr.symm.trans h0
  | split f h os e p hcall hsend hf hfr' hu =>
    exact absurd (congrArg Rewards.resolvedOutcome hf.same.1 ▸ hu) hne
  | merge a h n paid os e p hcall hsend hf hfr' hu =>
    exact absurd (congrArg Rewards.resolvedOutcome hf.same.1 ▸ hu) hne
  | resolved k os e hf hfr' hu =>
    exact absurd (congrArg Rewards.resolvedOutcome hf.same.1 ▸ hu) hne
  | claimNone a d b h hcall hsend hu => exact absurd hu hne
  | claimRefund a d b h hcall hsend hdone hm' => cases hm.symm.trans hm'
  | claimWin a d b h k q hcall hsend hdone hm' hr' hq =>
    obtain rfl : k = W := by simpa [hr'] using hr
    exact .inl ⟨a, d, b, h, hcall, q, hq, rfl, rfl⟩
  | forfeit a d b h e hcall hsend he =>
    subst he
    exact .inr ⟨c.setPools (c.toPools.forfeit (decide (Addr.note h = c.deployer)) a d b), _, rfl,
      rfl, Core.tryClose_closesWin hr hm, rfl, .inr ⟨_, rfl⟩⟩
  | refundReceived =>
    exact .inr ⟨c.clearRefund, (c.clearRefund, []), rfl, rfl, .inl rfl, rfl, .inl rfl⟩
  | bookDone =>
    exact .inr ⟨c.setBookDone, c.setBookDone.tryClose, rfl, rfl, Core.tryClose_closesWin hr hm, rfl,
      .inl rfl⟩

end Effect

namespace Core.Closes

variable {c : Core} {r : Core × Mail} (i : PMP.Input)

theorem mail (h : c.Closes r) : ∀ m ∈ r.2, ∃ x, m.2 = .acceptFee x := by
  rcases h with rfl | ⟨-, -, h⟩
  · simp
  · exact h

theorem no_claim (h : c.Closes r) (W : ℕ) (t : BetType) : r.2.claimed i W t = 0 := by
  unfold Mail.claimed
  refine List.sum_eq_zero fun n hn => ?_
  obtain ⟨m, hm, rfl⟩ := List.mem_map.mp hn
  obtain ⟨x, hx⟩ := h.mail m hm
  simp [hx, stakesClaimed]

theorem no_entry (h : c.Closes r) : r.2.entered i = 0 := by
  unfold Mail.entered
  refine List.sum_eq_zero fun n hn => ?_
  obtain ⟨m, hm, rfl⟩ := List.mem_map.mp hn
  obtain ⟨x, hx⟩ := h.mail m hm
  simp [hx, collateralIn]

end Core.Closes

namespace Effect

variable {c d u : Core} {os : Mail} {i : PMP.Input} {W : ℕ} {x : BetType → ℕ}

theorem claimed_of_claim {e : Core} {r : Core × Mail} {a y z : List ℕ} {n : ℕ} {t : BetType}
    {q : Payout} (hcall : i.call = .claim a y z n) (h : e.Closes r) :
    Mail.claimed i ((.note n, .onClaimAccepted (some W) q.clean q.debt q.coupon q.debtPaid) :: r.2)
      W t = amountsOf a y z W t := by
  rw [Mail.claimed_cons, h.no_claim i W t]
  simp [stakesClaimed, hcall]

theorem claimed_of_close {e : Core} {r : Core × Mail} {t : BetType} (h : e.Closes r)
    (hos : os = r.2 ∨ ∃ a, os = (a, .onForfeitAccepted) :: r.2) : os.claimed i W t = 0 := by
  have hnone := h.no_claim i W t
  rcases hos with rfl | ⟨a, rfl⟩
  · exact hnone
  · rw [Mail.claimed_cons, hnone]
    rfl

/-- The win pool loses what is claimed, and the market closes no earlier than claimed and forfeited
stakes fill it. -/
theorem mass (h : Effect c i os d) (hs : c.Sound) (hr : c.resolvedOutcome = some W)
    (hm : c.debtRefundMode = false) (hl : c.destroyed = false)
    (hab : i.call.aborts = false ∨ d.destroyed = false)
    (hle : massOf (os.claimed i W) ≤ c.totalWinPool) :
    (d.destroyed = false → d.totalWinPool + massOf (os.claimed i W) = c.totalWinPool) ∧
      (d.destroyed = true →
        c.totalWinPool ≤ massOf (os.claimed i W) + d.toPools.forfeitedWinMass W) := by
  rcases h.resolved_cases hs hr hm hab with
    ⟨a, y, z, n, hcall, q, -, rfl, rfl⟩ | ⟨e, r, her, hed, hcl, rfl, hos⟩
  · have hcl := (c.payWin (a.getD W 0) (y.getD W 0) (z.getD W 0)).closeWin_closesWin W
    have hclaim := fun t => claimed_of_claim (W := W) (q := q) (t := t) hcall hcl.closes
    simp only [massOf, hclaim] at hle ⊢
    -- the pool after the claim, before the close test
    have hpool : (c.payWin (a.getD W 0) (y.getD W 0) (z.getD W 0)).totalWinPool =
        c.totalWinPool - (a.getD W 0 + y.getD W 0 + z.getD W 0) := if_pos hle
    simp only [amountsOf] at hle ⊢
    constructor
    · intro hd
      rw [hcl.closes.live hd, hpool]
      omega
    · intro hd
      have hspent := hcl.spent hl hd
      rw [hpool] at hspent
      omega
  · have hclaim := fun t => claimed_of_close (i := i) (W := W) (t := t) hcl.closes hos
    simp only [massOf, hclaim, Nat.add_zero, Nat.zero_add] at hle ⊢
    rw [← her]
    constructor
    · intro hd
      rw [hcl.closes.live hd]
    · intro hd
      exact hcl.spent (hed.trans hl) hd

/-- The budgets cover the winners that have not claimed. -/
theorem reserved (h : Effect c i os d) (hs : c.Sound) (hu : Figures u W) (hr : Reserved u W x c)
    (hd : d.destroyed = false)
    (hx : ∀ t, x t + os.claimed i W t ≤ u.typedOutcomePools W t) :
    Reserved u W (fun t => x t + os.claimed i W t) d := by
  rcases h.resolved_cases hs hr.outcome hr.mode (.inr hd) with
    ⟨a, y, z, n, hcall, q, -, rfl, rfl⟩ | ⟨e, r, her, -, hcl, rfl, hos⟩
  · have hcl := Core.closeWin_closes (c.payWin (a.getD W 0) (y.getD W 0) (z.getD W 0)) W
    have hclaim := fun t => claimed_of_claim (W := W) (q := q) (t := t) hcall hcl
    simp only [hclaim] at hx ⊢
    rw [hcl.live hd]
    exact hr.payWin hu (hx .clean) (hx .debt) (hx .coupon) ⟨rfl, rfl, rfl⟩
  · have hclaim := fun t => claimed_of_close (i := i) (W := W) (t := t) hcl.closes hos
    rw [hcl.closes.live hd]
    simp only [hclaim, Nat.add_zero]
    refine ⟨?_, ?_, ?_, ?_, ?_, ?_, ?_, ?_, ?_⟩ <;> rw [her]
    · exact hr.outcome
    · exact hr.mode
    · exact hr.winClean
    · exact hr.profit
    · exact hr.debtCoef
    · exact hr.couponCoef
    · exact hr.clean
    · exact hr.debt
    · exact hr.coupon

theorem no_entry (h : Effect c i os d) (hs : c.Sound) (hr : c.resolvedOutcome = some W)
    (hm : c.debtRefundMode = false) (hab : i.call.aborts = false ∨ d.destroyed = false) :
    os.entered i = 0 := by
  rcases h.resolved_cases hs hr hm hab with
    ⟨a, y, z, n, -, q, -, rfl, -⟩ | ⟨e, r, -, -, hcl, -, rfl | ⟨b, rfl⟩⟩
  · simp [collateralIn, Core.Closes.no_entry i (Core.closeWin_closes _ W)]
  · exact hcl.closes.no_entry i
  · simp [collateralIn, hcl.closes.no_entry i]

end Effect

namespace PMP

variable {s t u : PMP} {i j : Input} {W : ℕ} {tr tr' : List (Input × PMP)}

/-- Winning stakes of outcome `W` claimed in a run. -/
def claimed (tr : List (Input × PMP)) (W : ℕ) (t : BetType) : ℕ :=
  (tr.map fun e => e.2.sent.claimed e.1 W t).sum

theorem claimed_concat (tr : List (Input × PMP)) (i : Input) (t : PMP) (W : ℕ) (b : BetType) :
    claimed (tr ++ [(i, t)]) W b = claimed tr W b + t.sent.claimed i W b := by
  simp [claimed]

theorem left_concat (tr : List (Input × PMP)) (i : Input) (t : PMP) :
    left (tr ++ [(i, t)]) = left tr + t.sent.left := by
  simp [left]

/-- What has been claimed is within the winning pools. -/
def WithinPools (u : PMP) (W : ℕ) (tr : List (Input × PMP)) : Prop :=
  ∀ b, claimed tr W b ≤ u.typedOutcomePools W b

/-- No list rejects the event in the run, and no message to a list comes back. -/
def Undisturbed (tr : List (Input × PMP)) : Prop := ∀ e ∈ tr, e.1.call.rejects = false

/-- State of a market some time after its resolution at `u`. -/
structure Since (u : PMP) (W : ℕ) (tr : List (Input × PMP)) (t : PMP) : Prop where
  whole : t.Whole
  reserved : t.destroyed = false → WithinPools u W tr →
    Reserved u.toCore W (claimed tr W) t.toCore
  mass : t.destroyed = false → WithinPools u W tr →
    t.totalWinPool + massOf (claimed tr W) = u.totalWinPool
  closed : Undisturbed tr → WithinPools u W tr → t.destroyed = true →
    u.totalWinPool ≤ massOf (claimed tr W) + t.toPools.forfeitedWinMass W
  outcome : t.destroyed = false → t.resolvedOutcome = some W ∧ t.debtRefundMode = false
  paid : t.destroyed = false → u.creatorFee + left tr + t.totalUnclaimedBalance = u.totalPool

theorem WithinPools.before (h : WithinPools u W (tr ++ [(i, s)])) : WithinPools u W tr := by
  intro b
  have hb := h b
  rw [claimed_concat] at hb
  omega

theorem massOf_concat (tr : List (Input × PMP)) (i : Input) (t : PMP) (W : ℕ) :
    massOf (claimed (tr ++ [(i, t)]) W) = massOf (claimed tr W) + massOf (t.sent.claimed i W) := by
  simp only [massOf, claimed_concat]
  omega

/-- An approval that comes after the last one changes nothing. -/
theorem approveEvent_late {k n now : ℕ} {a : Addr} {l : Option Addr} (hr : t.Ready)
    (ha : t.approved = true) (h : t.approveEvent a now k n l = some s) : s = t := by
  simp only [approveEvent, bind_iff] at h
  obtain ⟨confirmed, -, -, h⟩ := h
  by_cases hc : confirmed = true
  · rw [if_pos hc] at h
    exact (Option.some.inj h).symm
  · rw [if_neg hc, Option.bind_eq_some_iff] at h
    obtain ⟨-, -, h⟩ := h
    rw [if_pos (hr ha)] at h
    exact (Option.some.inj h).symm

/-- A step destroys an approved market in the ordinary way, or by a rejection. -/
theorem no_abort (hr : t.Ready) (ha : t.approved = true) (hi : t.step i = some s)
    (hrej : i.call.rejects = false) : i.call.aborts = false ∨ s.destroyed = false := by
  have hl := step_live hi
  obtain ⟨a, now, call⟩ := i
  cases call with
  | rejectEvent => cases hrej
  | onBounce => cases hrej
  | approveEvent =>
    simp only [PMP.step, hl, Bool.false_eq_true, if_false, exec] at hi
    have hs : s = t.begin := approveEvent_late hr ha hi
    exact .inr (hs ▸ hl)
  | _ => exact .inl rfl

theorem Since.step (h : Since u W tr t) (hu : Figures u.toCore W) (hi : t.step i = some s) :
    Since u W (tr ++ [(i, s)]) s := by
  have hl := step_live hi
  obtain ⟨h1, h2⟩ := h.whole.effect hi
  obtain ⟨ho, hm⟩ := h.outcome hl
  -- what the step claims is left in the pool
  have hroom : WithinPools u W (tr ++ [(i, s)]) →
      massOf (s.sent.claimed i W) ≤ t.totalWinPool := by
    intro hle
    have hmass := h.mass hl hle.before
    have hfig := hu.winPool
    have hc := hle .clean
    have hd := hle .debt
    have hb := hle .coupon
    simp only [massOf, claimed_concat] at hmass hfig hc hd hb ⊢
    omega
  refine ⟨h.whole.step hi, fun hd hle => ?_, fun hd hle => ?_, fun hun hle hd => ?_, fun hd => ?_,
    fun hd => ?_⟩
  · have h3 := h.reserved hl hle.before
    have h4 : claimed (tr ++ [(i, s)]) W = fun b => claimed tr W b + s.sent.claimed i W b :=
      funext fun b => claimed_concat ..
    rw [h4]
    rw [WithinPools, h4] at hle
    exact h2.reserved h1 hu h3 hd hle
  · have h3 := (h2.mass h1 ho hm hl (.inr hd) (hroom hle)).1 hd
    have h4 := h.mass hl hle.before
    rw [massOf_concat]
    omega
  · have happ := h1.opened (h1.resolved (by simp [ho])).1
    have hab := no_abort h.whole.ready happ hi (hun (i, s) (by simp))
    have h3 := (h2.mass h1 ho hm hl hab (hroom hle)).2 hd
    have h4 := h.mass hl hle.before
    rw [massOf_concat]
    omega
  · rcases h2.resolved_cases h1 ho hm (.inr hd) with
      ⟨x, y, z, n, -, q, -, -, hs⟩ | ⟨e, r, he, -, hcl, hs, -⟩
    · rw [hs] at hd ⊢
      rw [(Core.closeWin_closes _ W).live hd]
      exact ⟨ho, hm⟩
    · rw [hs] at hd ⊢
      rw [hcl.closes.live hd, he]
      exact ⟨ho, hm⟩
  · have h3 := h.paid hl
    have h4 := h2.conserves (.inr hd)
    rw [h2.no_entry h1 ho hm (.inr hd)] at h4
    rw [left_concat]
    omega

theorem run_since (hu : Figures u.toCore W) (h0 : Since u W [] u) (h : Run PMP.step u tr t) :
    Since u W tr t :=
  h.invariant (Since u W) h0 fun _ _ _ _ _ hs hi => hs.step hu hi

/-- A resolution with winning stakes sets the figures, and the budgets cover all winners. -/
theorem resolution (hs : s.Whole) (hj : s.step j = some u) (hn : s.resolvedOutcome = none)
    (hW : u.resolvedOutcome = some W) (hm : 0 < u.totalWinPool) :
    Figures u.toCore W ∧ Since u W [] u := by
  obtain ⟨h1, h2⟩ := hs.effect hj
  rcases h2.outcome with ho | ⟨k, os, e, hf, hfr, hu, hc, hk, hfit, -, hd⟩
  · cases (hn.symm.trans ho.symm).trans hW
  have hes := hf.sound h1
  have hmass : e.toPools.totalWinMass k ≠ 0 := by
    intro h0
    have h3 : e.toPools.rewards k = _ := if_pos h0
    rw [hd, Core.resolve_toRewards, h3] at hm
    cases hm
  have hrew : e.toPools.rewards k = _ := if_neg hmass
  obtain rfl : k = W := by
    rw [hd, Core.resolve_toRewards, hrew] at hW
    exact Option.some.inj hW
  have hw := hs.step hj
  have hres := Core.resolve_reserved hes hu hk hmass
  have hfig := Core.resolve_figures hes hu hk hfit hmass
  rw [← hd] at hres hfig
  have hlive : u.destroyed = false := by
    rw [hd, Core.resolve_destroyed]
    exact hf.same.2.trans (step_live hj)
  refine ⟨hfig, hw, fun _ _ => hres, fun _ _ => rfl, ?_, fun _ => ⟨hres.outcome, hres.mode⟩,
    fun hl => ?_⟩
  · intro _ _ hdead
    cases hlive.symm.trans hdead
  have h3 := hw.backed hl (by simp [hW]) hres.mode
  have h4 := ((hes.balanced hu).rewards_division hk hmass).2
  have h5 : u.toRewards = e.toPools.rewards k := by rw [hd, Core.resolve_toRewards]
  have h6 : u.totalPool = e.totalPool := by
    rw [hd]
    unfold Core.resolve
    dsimp only
    split_ifs <;> rfl
  have h7 : left [] = 0 := rfl
  rw [h5] at h3
  rw [h5, h6, h7]
  omega

/-- An open resolved market takes a claim. -/
theorem claim_accepted {x : List ℕ} (d b : List ℕ) (n now : ℕ) (hl : t.destroyed = false)
    (ha : t.approved = true) (hdone : t.orderBookDone = true) (hlen : x.length = t.numOutcomes)
    (hr : t.resolvedOutcome = some W) (hm : t.debtRefundMode = false)
    (hfit : t.toRewards.payoutFits (x.getD W 0) (d.getD W 0) (b.getD W 0) = true) :
    ∃ t', t.step ⟨.note n, now, .claim x d b n⟩ = some t' ∧
      ∃ q : Payout, q = t.toCore.paid (x.getD W 0) (d.getD W 0) (b.getD W 0) ∧
        t'.sent.head? = some (.note n, .onClaimAccepted (some W) q.clean q.debt q.coupon
          q.debtPaid) := by
  have hcore : (t.begin.ensureBalance now).toCore = t.toCore := ensureBalance_core _ _
  have hsent : (t.begin.ensureBalance now).sent = [] := ensureBalance_sent _ _
  have hstep : t.step ⟨.note n, now, .claim x d b n⟩ = some ((t.begin.ensureBalance now).claimWin
      (.note n) W (x.getD W 0) (d.getD W 0) (b.getD W 0)) := by
    have hclaim : t.claimFits x d b = true := by
      simp only [claimFits, hr, hm, Bool.false_eq_true, if_false]
      exact hfit
    have hbegin : t.begin.claimFits x d b = true := hclaim
    simp [step, exec, claim, hl, ha, hdone, hlen, hr, hm, hbegin]
  refine ⟨_, hstep, _, rfl, ?_⟩
  obtain ⟨-, h2⟩ := claimWin_tracks (s := t.begin.ensureBalance now) (.note n) W (x.getD W 0)
    (d.getD W 0) (b.getD W 0) rfl
  rw [h2, send_sent, hsent, hcore, hr]
  rfl

variable {market : MarketId} {depositIdentifierHash : ℕ} {oracleEventLists : List Addr}
  {initialStakes : List ℕ}

/-- A market with winners stays open, unless a list rejects it, for as long as there are winning
stakes neither claimed nor forfeited. -/
theorem stays_open (hfig : Figures u.toCore W) (h : Since u W tr t) (hun : Undisturbed tr)
    (hle : WithinPools u W tr)
    (hleft : massOf (claimed tr W) + t.toPools.forfeitedWinMass W <
      massOf (u.typedOutcomePools W)) : t.destroyed = false := by
  by_contra hdead
  have hclosed := h.closed hun hle (Bool.not_eq_false _ ▸ hdead)
  rw [hfig.winPool] at hclosed
  omega

/-- Claims are paid by the formulas alone, in whatever order they come. While the claims stay within
the winning pools, the win pool is what is still unclaimed, the market stays open while a winning
stake is neither claimed nor forfeited, and no cap and no clamp reduces a claim; at the close fee,
payouts and the residual add up to the pool. -/
theorem claims_paid_in_any_order
    (h : Run step (init market depositIdentifierHash oracleEventLists initialStakes) tr s)
    (hj : s.step j = some u) (hn : s.resolvedOutcome = none) (hW : u.resolvedOutcome = some W)
    (hm : 0 < u.totalWinPool) (h' : Run step u tr' t) :
    (WithinPools u W tr' →
      (t.destroyed = false →
        t.totalWinPool + massOf (claimed tr' W) = massOf (u.typedOutcomePools W)) ∧
      (Undisturbed tr' → massOf (claimed tr' W) + t.toPools.forfeitedWinMass W <
        massOf (u.typedOutcomePools W) → t.destroyed = false)) ∧
    (∀ x d b n now, (∀ y, claimed tr' W y + amountsOf x d b W y ≤ u.typedOutcomePools W y) →
      t.destroyed = false ∨ Undisturbed tr' ∧ massOf (claimed tr' W) +
        t.toPools.forfeitedWinMass W < massOf (u.typedOutcomePools W) →
      t.orderBookDone = true → x.length = t.numOutcomes →
      ∃ t', t.step ⟨.note n, now, .claim x d b n⟩ = some t' ∧
        t.toCore.capped (x.getD W 0) (d.getD W 0) (b.getD W 0) =
          t.toRewards.payout (x.getD W 0) (d.getD W 0) (b.getD W 0) ∧
        t.toCore.paid (x.getD W 0) (d.getD W 0) (b.getD W 0) =
          t.toCore.capped (x.getD W 0) (d.getD W 0) (b.getD W 0) ∧
        t'.sent.head? = some (.note n, .onClaimAccepted (some W)
          (x.getD W 0 + x.getD W 0 * u.profitToClean / u.resolvedWinClean)
          (d.getD W 0 + d.getD W 0 * u.debtWinCoef / 10000)
          (b.getD W 0 * u.couponWinCoef / 10000)
          (u.toRewards.payout (x.getD W 0) (d.getD W 0) (b.getD W 0)).debtPaid)) ∧
      ∀ i t', t.step i = some t' → i.call.aborts = false → t'.destroyed = true →
        u.creatorFee + left (tr' ++ [(i, t')]) = u.totalPool := by
  obtain ⟨hfig, h0⟩ := resolution (run_whole h) hj hn hW hm
  have hsince := run_since hfig h0 h'
  refine ⟨fun hle => ⟨fun hl => ?_, fun hun => stays_open hfig hsince hun hle⟩,
    fun x d b n now hle hopen hdone hlen => ?_, fun i t' hi hab hd => ?_⟩
  · rw [hsince.mass hl hle, hfig.winPool]
  · have hwithin : WithinPools u W tr' := fun y => (Nat.le_add_right _ _).trans (hle y)
    have hl : t.destroyed = false :=
      hopen.elim id fun ⟨hun, hleft⟩ => stays_open hfig hsince hun hwithin hleft
    obtain ⟨ho, hmode⟩ := hsince.outcome hl
    have hs := hsince.whole.sound hl
    have hres := hsince.reserved hl hwithin
    have hcap : t.toCore.capped (x.getD W 0) (d.getD W 0) (b.getD W 0) =
        Reserved.due u.toCore (x.getD W 0) (d.getD W 0) (b.getD W 0) :=
      hres.capped_eq hfig (hle .clean) (hle .debt) (hle .coupon)
    have hpay : t.toRewards.payout (x.getD W 0) (d.getD W 0) (b.getD W 0) =
        Reserved.due u.toCore (x.getD W 0) (d.getD W 0) (b.getD W 0) :=
      hres.payout_eq hfig ((Nat.le_add_left _ _).trans (hle .clean))
        ((Nat.le_add_left _ _).trans (hle .debt)) ((Nat.le_add_left _ _).trans (hle .coupon))
    have hpaid : t.toCore.paid (x.getD W 0) (d.getD W 0) (b.getD W 0) =
        t.toCore.capped (x.getD W 0) (d.getD W 0) (b.getD W 0) := by
      refine Payout.clamp_of_le ?_
      rw [hsince.whole.backed hl (by simp [ho]) hmode]
      exact Core.capped_total_le ..
    obtain ⟨t', hstep, q, hq, hsent⟩ := claim_accepted d b n now hl
      (hs.opened (hs.resolved (by simp [ho])).1) hdone hlen ho hmode
      (hres.payoutFits hfig ((Nat.le_add_left _ _).trans (hle .clean))
        ((Nat.le_add_left _ _).trans (hle .debt)) ((Nat.le_add_left _ _).trans (hle .coupon)))
    refine ⟨t', hstep, hcap.trans hpay.symm, hpaid, ?_⟩
    rw [hpaid, hcap] at hq
    rw [hsent, hq]
    rfl
  · have hl := step_live hi
    obtain ⟨h1, h2⟩ := hsince.whole.effect hi
    obtain ⟨ho, hmode⟩ := hsince.outcome hl
    have h3 := h2.conserves (.inl hab)
    rw [h2.no_entry h1 ho hmode (.inl hab), h2.drains h1 (hsince.whole.backed hl) hl hab hd] at h3
    have h4 := hsince.paid hl
    rw [left_concat]
    omega

/-- The market of `sampleInputs` before, at and after its resolution. -/
def openTrace : List (Input × PMP) := Run.trace step sampleStart (sampleInputs.take 4)

def openEnd : PMP := Run.last sampleStart openTrace

def resolveInput : Input := ⟨.ext 0, 1010, .submitResolve (.external 5) 0⟩

theorem resolveInput_accepted : (openEnd.step resolveInput).isSome = true := by decide +kernel

def resolvedMarket : PMP := (openEnd.step resolveInput).get resolveInput_accepted

def claimTrace : List (Input × PMP) := Run.trace step resolvedMarket (sampleInputs.drop 5)

def claimEnd : PMP := Run.last resolvedMarket claimTrace

theorem claims_paid_in_any_order_sample :
    claimTrace.length = 2 ∧ claimEnd.destroyed = false ∧
      (∃ t', claimEnd.step lastClaim = some t' ∧
        t'.sent.head? = some (.note 7, .onClaimAccepted (some 0) 10 0 0 0)) ∧
      ∀ t', claimEnd.step lastClaim = some t' → t'.destroyed = true →
        resolvedMarket.creatorFee + left (claimTrace ++ [(lastClaim, t')]) =
          resolvedMarket.totalPool := by
  have h := claims_paid_in_any_order (Run.trace_run step sampleStart (sampleInputs.take 4))
    (Option.some_get resolveInput_accepted).symm (by decide +kernel)
    (by decide +kernel : resolvedMarket.resolvedOutcome = some 0) (by decide +kernel)
    (Run.trace_run step resolvedMarket (sampleInputs.drop 5))
  have hun : ∀ e ∈ claimTrace, e.1.call.rejects = false := by decide +kernel
  have hle : WithinPools resolvedMarket 0 claimTrace := fun y => by cases y <;> decide +kernel
  have hleft : massOf (claimed claimTrace 0) + claimEnd.toPools.forfeitedWinMass 0 <
      massOf (resolvedMarket.typedOutcomePools 0) := by decide +kernel
  obtain ⟨t', h1, -, -, h2⟩ := h.2.1 [5, 30] [0, 0] [0, 0] 7 1040
    (fun y => by cases y <;> decide +kernel) (.inr ⟨hun, hleft⟩) (by decide +kernel)
    (by decide +kernel)
  exact ⟨by decide +kernel, (h.1 hle).2 hun hleft, ⟨t', h1, h2.trans (by decide +kernel)⟩,
    fun t' hi => h.2.2 lastClaim t' hi rfl⟩

end PMP

end Dexdo
