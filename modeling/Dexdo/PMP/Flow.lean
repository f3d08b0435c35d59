import Dexdo.PMP.Solvent

namespace Dexdo

open Finset

/-- Collateral a callback reports as entered. -/
def collateralIn (i : PMP.Input) : PmpCallback → ℕ
  | .onInitialStakesAccepted xs => xs.sum
  | .onStakeAccepted _ t => match i.call with
    | .acceptStake _ a _ _ => if t = .coupon then 0 else a
    | _ => 0
  | .onSplitAccepted _ used => used
  | _ => 0

/-- Collateral a callback carries to a note. -/
def collateralOut : PmpCallback → ℕ
  | .onPmpCleanRefund _ refundTotal => refundTotal
  | .onStakeCancelled value _ => value
  | .onMergeAccepted collateral _ => collateral
  | .onClaimAccepted _ clean debt coupon _ => clean + debt + coupon
  | .acceptFee fee => fee
  | _ => 0

/-- Collateral a transaction takes in. -/
def Mail.entered (i : PMP.Input) (os : Mail) : ℕ := (os.map fun m => collateralIn i m.2).sum

/-- Collateral a transaction gives out. -/
def Mail.left (os : Mail) : ℕ := (os.map fun m => collateralOut m.2).sum

namespace Mail

variable (i : PMP.Input) (os os' : Mail) (m : Addr × PmpCallback)

@[simp] theorem entered_nil : entered i [] = 0 := rfl
@[simp] theorem left_nil : left [] = 0 := rfl
@[simp] theorem entered_cons : entered i (m :: os) = collateralIn i m.2 + entered i os := rfl
@[simp] theorem left_cons : left (m :: os) = collateralOut m.2 + left os := rfl
@[simp] theorem entered_append : entered i (os ++ os') = entered i os + entered i os' := by
  simp [entered]
@[simp] theorem left_append : left (os ++ os') = left os + left os' := by
  simp [left]

end Mail

/-- `r` is `c` less what its mail carries out; nothing enters. -/
def Core.Pays (c : Core) (r : Core × Mail) : Prop :=
  r.1.totalUnclaimedBalance + r.2.left = c.totalUnclaimedBalance ∧ ∀ i, r.2.entered i = 0

namespace Pools

theorem clamp_le (p : Pools) (a : ℕ) : p.clamp a ≤ p.totalUnclaimedBalance := by
  unfold clamp
  split_ifs <;> omega

theorem payOut_add (p : Pools) {a : ℕ} (h : a ≤ p.totalUnclaimedBalance) :
    (p.payOut a).totalUnclaimedBalance + a = p.totalUnclaimedBalance := Nat.sub_add_cancel h

theorem normalize_unclaimed {p q : Pools} {n g paid : ℕ} (h : p.normalize n g = some (q, paid)) :
    q.totalUnclaimedBalance + paid = p.totalUnclaimedBalance ∧
      (¬ 0 < (p.refundAmounts n g).sum → paid = 0) := by
  unfold normalize at h
  dsimp only at h
  split_ifs at h with h0
  · cases h
    exact ⟨rfl, fun _ => rfl⟩
  · simp only [bind_iff, pure_iff, Prod.mk.injEq] at h
    obtain ⟨x, -, y, -, rfl, rfl⟩ := h
    exact ⟨Nat.sub_add_cancel ((p.trim n g).clamp_le _), fun hn => absurd (Nat.pos_of_ne_zero h0) hn⟩

theorem burnSets_unclaimed {p q : Pools} {xs : List ℕ} {x paid : ℕ}
    (h : p.burnSets xs x = some (q, paid)) :
    q.totalUnclaimedBalance + paid = p.totalUnclaimedBalance := by
  simp only [burnSets, bind_iff, pure_iff, Prod.mk.injEq] at h
  obtain ⟨f, -, y, -, z, -, rfl, rfl⟩ := h
  exact Nat.sub_add_cancel (p.clamp_le x)

theorem debitStakes_unclaimed {p q : Pools} {a d b : List ℕ} (h : p.debitStakes a d b = some q) :
    q.totalUnclaimedBalance = p.totalUnclaimedBalance := by
  simp only [debitStakes, bind_iff, pure_iff] at h
  obtain ⟨f, -, g, -, e, -, x, -, y, -, z, -, w, -, rfl⟩ := h
  rfl

theorem mintSets_unclaimed {p q : Pools} {xs : List ℕ} {x : ℕ} (h : p.mintSets xs x = some q) :
    q.totalUnclaimedBalance = p.totalUnclaimedBalance + x := by
  obtain ⟨y, -, h⟩ := of_bind h
  cases h
  rfl

theorem creditStake_unclaimed {p q : Pools} {k a : ℕ} {t : BetType} (ht : t.isStake = true)
    (h : p.creditStake k t a = some q) :
    q.totalUnclaimedBalance = p.totalUnclaimedBalance + if t = .coupon then 0 else a := by
  obtain ⟨r, hr, h⟩ := of_bind h
  cases h
  cases t with
  | clean | debt | coupon =>
    obtain ⟨y, -, hr⟩ := of_bind hr
    cases hr
    rfl
  | obSell | merge => cases ht

end Pools

/-- A clamped payment is within the balance. -/
theorem Payout.clamp_total_le (q : Payout) (b : ℕ) : (q.clamp b).total ≤ b := by
  unfold clamp
  split_ifs with h
  · dsimp only [total]
    unfold total at h
    generalize hD : q.clean + q.debt + q.coupon - b = D
    generalize hx : (if q.coupon < D then q.coupon else D) = x
    generalize hy : (if q.debt < D - x then q.debt else D - x) = y
    generalize hz : (if q.clean < D - x - y then q.clean else D - x - y) = z
    split_ifs at hx hy hz <;> omega
  · exact Nat.le_of_not_lt h

theorem Payout.clamp_of_le {q : Payout} {b : ℕ} (h : q.total ≤ b) : q.clamp b = q :=
  if_neg (Nat.not_lt.mpr h)

namespace Core

variable (c : Core)

theorem pays_self : c.Pays (c, []) := ⟨rfl, fun _ => rfl⟩

theorem residualClose_pays : c.Pays c.residualClose := by
  unfold residualClose Pays
  split_ifs with h
  · simp [Pools.payOut, collateralOut, collateralIn]
  · simp

theorem winClose_pays : c.Pays c.winClose := by
  have h1 := c.toPools.clamp_le c.toRewards.residual
  unfold winClose Pays
  dsimp only
  split_ifs with h
  · simp [Pools.payOut, collateralOut, collateralIn, h1]
  · simp

theorem closeWin_pays (k : ℕ) : c.Pays (c.closeWin k) := by
  unfold closeWin
  split_ifs
  · exact c.winClose_pays
  · exact c.pays_self

theorem closeDebtRefund_pays : c.Pays c.closeDebtRefund := by
  unfold closeDebtRefund
  split_ifs
  · exact c.residualClose_pays
  · exact c.pays_self

theorem closeCancelled_pays : c.Pays c.closeCancelled := by
  unfold closeCancelled
  split_ifs
  · exact c.residualClose_pays
  · exact c.pays_self

theorem tryClose_pays : c.Pays c.tryClose := by
  unfold tryClose
  cases c.resolvedOutcome with
  | some k =>
    dsimp only
    split_ifs
    · exact c.closeDebtRefund_pays
    · exact c.closeWin_pays k
    · exact c.pays_self
  | none =>
    dsimp only
    split_ifs
    · exact c.pays_self
    · exact c.closeCancelled_pays
    · exact c.pays_self

/-- The resolution pays the fee only. -/
theorem resolve_pays (k : ℕ) : c.Pays (c.resolve k, (c.resolve k).feeMail) := by
  have hle : (c.toPools.rewards k).creatorFee ≤ c.totalUnclaimedBalance := by
    unfold Pools.rewards
    split_ifs
    · exact Nat.zero_le _
    · exact c.toPools.clamp_le _
  have hfee : (c.resolve k).creatorFee = (c.toPools.rewards k).creatorFee := by
    unfold resolve
    dsimp only
    split_ifs <;> rfl
  unfold Pays feeMail
  rw [hfee]
  unfold resolve
  simp only [setRewards_toRewards]
  split_ifs with h
  · simp [Pools.payOut, collateralOut, collateralIn, hle]
  · simp

end Core

theorem MaybeFreeze.pays {c d : Core} {os : Mail} (h : MaybeFreeze c os d) : c.Pays (d, os) := by
  cases h with
  | skip => exact c.pays_self
  | freeze g paid p h0 ha hc hg hpos hp =>
    obtain ⟨h1, h2⟩ := Pools.normalize_unclaimed hp
    have h3 : (c.freeze g p).totalUnclaimedBalance = p.totalUnclaimedBalance := rfl
    unfold Core.Pays Core.refundMail
    dsimp only
    split_ifs with h
    · simp [collateralOut, collateralIn, h3, h1]
    · have h4 := h2 h
      simp [h3]
      omega

namespace Effect

variable {c d : Core} {os : Mail} {i : PMP.Input}

/-- Collateral is conserved: what the PMP holds afterwards and what it sent out is what it held
and what came in. -/
theorem conserves (h : Effect c i os d) (hab : i.call.aborts = false ∨ d.destroyed = false) :
    d.totalUnclaimedBalance + os.left = c.totalUnclaimedBalance + os.entered i := by
  cases h with
  | idle => simp
  | abort n os hcall =>
    rw [hcall] at hab
    rcases hab with h | h <;> cases h
  | opened p ha hpos hp =>
    have h1 : (c.openWith p).totalUnclaimedBalance = _ := Pools.mintSets_unclaimed hp
    simp [h1, collateralIn, collateralOut]
  | openedAbort p hcall =>
    rw [hcall] at hab
    rcases hab with h | h <;> cases h
  | timings st rs os d hu hf =>
    obtain ⟨h1, h2⟩ := hf.pays
    rw [h2 i]
    exact h1
  | cancelled => rfl
  | stake k a h t p hcall hsend ha hc hu hk hf ht hcr hp =>
    have h1 := Pools.creditStake_unclaimed ht hp
    simp [h1, collateralIn, collateralOut, hcall]
  | refund a d b h e p hcall hsend he hc hb hn hp =>
    obtain ⟨h1, h2⟩ :=
      (e.setPools (p.payOut (p.clamp (a.sum + d.sum)))).closeCancelled_pays
    have h3 := p.payOut_add (p.clamp_le (a.sum + d.sum))
    have h4 := Pools.debitStakes_unclaimed hp
    have h5 : e.totalUnclaimedBalance = c.totalUnclaimedBalance := by
      rcases he with rfl | ⟨-, -, rfl⟩ <;> rfl
    rw [Mail.left_cons, Mail.entered_cons, h2 i]
    simp only [collateralOut, collateralIn, Core.setPools_toPools] at h1 ⊢
    omega
  | frozenNow os d hf =>
    obtain ⟨h1, h2⟩ := hf.pays
    rw [h2 i]
    exact h1
  | split f h os e p hcall hsend hf hfr hu hc hn hq hp =>
    obtain ⟨h1, h2⟩ := hf.pays
    have h3 := Pools.mintSets_unclaimed hp
    simp only [Mail.left_append, Mail.entered_append, Mail.left_cons, Mail.entered_cons,
      Mail.left_nil, Mail.entered_nil, h2 i, collateralIn, collateralOut, Core.setPools_toPools, h3]
    dsimp only at h1
    omega
  | merge a h n paid os e p hcall hsend hf hfr hu hc hn hl hz ht hp =>
    obtain ⟨h1, h2⟩ := hf.pays
    have h3 := Pools.burnSets_unclaimed hp
    simp only [Mail.left_append, Mail.entered_append, Mail.left_cons, Mail.entered_cons,
      Mail.left_nil, Mail.entered_nil, h2 i, collateralIn, collateralOut, Core.setPools_toPools]
    dsimp only at h1
    omega
  | resolved k os e hf hfr hu hc hk hfit =>
    obtain ⟨h1, h2⟩ := hf.pays
    obtain ⟨h3, h4⟩ := e.resolve_pays k
    simp only [Mail.left_append, Mail.entered_append, h2 i]
    dsimp only at h1 h3 h4
    rw [h4 i]
    omega
  | claimNone => simp [collateralIn, collateralOut]
  | claimRefund a d b h hcall hsend hdone hm hr =>
    obtain ⟨h1, h2⟩ := (c.refundDebt (c.debtOwed d)).closeDebtRefund_pays
    have h3 := c.toPools.payOut_add (a := c.debtOwed d) (c.toPools.clamp_le _)
    have h4 : (c.refundDebt (c.debtOwed d)).totalUnclaimedBalance =
      (c.toPools.payOut (c.debtOwed d)).totalUnclaimedBalance := rfl
    rw [Mail.left_cons, Mail.entered_cons, h2 i]
    simp only [collateralOut, collateralIn]
    omega
  | claimWin a d b h k q hcall hsend hdone hm hr hq =>
    obtain ⟨h1, h2⟩ :=
      (c.payWin (a.getD k 0) (d.getD k 0) (b.getD k 0)).closeWin_pays k
    have h3 := c.toPools.payOut_add (a := (c.paid (a.getD k 0) (d.getD k 0) (b.getD k 0)).total)
      (Payout.clamp_total_le _ _)
    have h4 : (c.payWin (a.getD k 0) (d.getD k 0) (b.getD k 0)).totalUnclaimedBalance =
      (c.toPools.payOut (c.paid (a.getD k 0) (d.getD k 0) (b.getD k 0)).total).totalUnclaimedBalance :=
        rfl
    rw [← hq] at h3 h4
    have h5 : q.total = q.clean + q.debt + q.coupon := rfl
    rw [Mail.left_cons, Mail.entered_cons, h2 i]
    simp only [collateralOut, collateralIn]
    omega
  | forfeit a d b h e hcall hsend he =>
    obtain ⟨h1, h2⟩ := e.tryClose_pays
    have h3 : e.totalUnclaimedBalance = c.totalUnclaimedBalance := by rw [he]; rfl
    rw [Mail.left_cons, Mail.entered_cons, h2 i]
    simp only [collateralOut, collateralIn]
    omega
  | refundReceived => rfl
  | bookDone =>
    obtain ⟨h1, h2⟩ := c.setBookDone.tryClose_pays
    rw [h2 i]
    exact h1

end Effect

end Dexdo
