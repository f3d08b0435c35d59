import Dexdo.PMP.Balance

namespace Dexdo

namespace Core

/-- Result of a close test: nothing happens, or the PMP is destroyed and sweeps to the deployer. -/
def Closes (c : Core) (r : Core × Mail) : Prop :=
  r = (c, []) ∨ r.1.destroyed = true ∧ r.1.resolvedOutcome = c.resolvedOutcome ∧
    ∀ m ∈ r.2, ∃ x, m.2 = .acceptFee x

variable (c : Core)

theorem residualClose_closes : c.Closes c.residualClose := by
  refine .inr ?_
  unfold residualClose
  split_ifs <;> simp

theorem winClose_closes : c.Closes c.winClose := by
  refine .inr ?_
  unfold winClose
  dsimp only
  split_ifs <;> simp [Rewards.drained]

theorem closeWin_closes (k : ℕ) : c.Closes (c.closeWin k) := by
  unfold closeWin
  split_ifs
  · exact c.winClose_closes
  · exact .inl rfl

theorem closeDebtRefund_closes : c.Closes c.closeDebtRefund := by
  unfold closeDebtRefund
  split_ifs
  · exact c.residualClose_closes
  · exact .inl rfl

theorem closeCancelled_closes : c.Closes c.closeCancelled := by
  unfold closeCancelled
  split_ifs
  · exact c.residualClose_closes
  · exact .inl rfl

theorem tryClose_closes : c.Closes c.tryClose := by
  unfold tryClose
  cases c.resolvedOutcome with
  | some k =>
    dsimp only
    split_ifs
    · exact c.closeDebtRefund_closes
    · exact c.closeWin_closes k
    · exact .inl rfl
  | none =>
    dsimp only
    split_ifs
    · exact .inl rfl
    · exact c.closeCancelled_closes
    · exact .inl rfl

/-- What holds of a live PMP: before the resolution its totals agree with its pools. -/
structure Sound (c : Core) : Prop where
  balanced : c.resolvedOutcome = none → c.toPools.Balanced c.numOutcomes
  exact : c.toBasket.Exact c.numOutcomes
  count : c.numOutcomes ≤ c.initialStakes.length
  creator : ∀ k, c.creatorForfeitedClean k ≤ c.forfeited k .clean
  opened : c.frozen = true → c.approved = true
  resolved : c.resolvedOutcome ≠ none → c.frozen = true ∧ c.isCancelled = false

variable {c} {d : Core} {os : Mail}

theorem Sound.unresolved (hs : c.Sound) (h : c.frozen = false) : c.resolvedOutcome = none := by
  by_contra hr
  rw [(hs.resolved hr).1] at h
  cases h

theorem Closes.outcome {r : Core × Mail} (h : c.Closes r) :
    r.1.resolvedOutcome = c.resolvedOutcome := by
  rcases h with rfl | ⟨-, h, -⟩
  · rfl
  · exact h

theorem Closes.live {r : Core × Mail} (h : c.Closes r) (hd : r.1.destroyed = false) :
    r = (c, []) := by
  rcases h with h | ⟨h, -⟩
  · exact h
  · rw [h] at hd
    cases hd

theorem Closes.sound {r : Core × Mail} (h : c.Closes r) (hs : c.Sound) (hd : r.1.destroyed = false) :
    r.1.Sound := by
  rw [h.live hd]
  exact hs

theorem Sound.setPools {p : Pools} (hs : c.Sound)
    (hp : c.resolvedOutcome = none → p.Balanced c.numOutcomes)
    (hc : ∀ k, p.creatorForfeitedClean k ≤ p.forfeited k .clean) : (c.setPools p).Sound :=
  ⟨hp, hs.exact, hs.count, hc, hs.opened, hs.resolved⟩

theorem Sound.cancel (hs : c.Sound) (hu : c.resolvedOutcome = none) : c.cancel.Sound :=
  ⟨hs.balanced, hs.exact, hs.count, hs.creator, hs.opened, fun h => absurd hu h⟩

theorem Sound.setTimings (hs : c.Sound) (st rs : ℕ) : (c.setTimings st rs).Sound :=
  ⟨hs.balanced, hs.exact, hs.count, hs.creator, fun _ => rfl, hs.resolved⟩

theorem Sound.setBookDone (hs : c.Sound) : c.setBookDone.Sound :=
  ⟨hs.balanced, hs.exact, hs.count, hs.creator, hs.opened, hs.resolved⟩

theorem Sound.clearRefund (hs : c.Sound) : c.clearRefund.Sound :=
  ⟨hs.balanced, ⟨hs.exact.quantum, hs.exact.outside⟩, hs.count, hs.creator, hs.opened, hs.resolved⟩

theorem Sound.pay {r : Rewards} {p : Pools} (hs : c.Sound) (hr : r.resolvedOutcome ≠ none)
    (hf : c.frozen = true ∧ c.isCancelled = false) (h1 : p.forfeited = c.forfeited)
    (h2 : p.creatorForfeitedClean = c.creatorForfeitedClean) :
    ((c.setRewards r).setPools p).Sound :=
  ⟨fun h => absurd h hr, hs.exact, hs.count, fun k => by simpa [h1, h2] using hs.creator k,
    hs.opened, fun _ => hf⟩

theorem rewards_resolved (p : Pools) (k : ℕ) : (p.rewards k).resolvedOutcome ≠ none := by
  unfold Pools.rewards
  split_ifs <;> simp

theorem resolve_resolved (c : Core) (k : ℕ) : (c.resolve k).resolvedOutcome ≠ none := by
  unfold resolve
  dsimp only
  split_ifs
  · exact rewards_resolved _ k
  · exact rewards_resolved _ k

theorem Sound.resolve (hs : c.Sound) (hf : c.frozen = true ∧ c.isCancelled = false) (k : ℕ) :
    (c.resolve k).Sound := by
  have hr := rewards_resolved c.toPools k
  unfold Core.resolve
  dsimp only
  split_ifs
  · exact hs.pay hr hf rfl rfl
  · exact hs.pay (p := c.toPools) hr hf rfl rfl

theorem init_sound (m : MarketId) (h : ℕ) (xs : List ℕ) : (Core.init m h xs).Sound where
  balanced := fun _ => Pools.empty_balanced
  exact := Basket.empty_exact
  count := Nat.zero_le _
  creator := fun _ => le_refl _
  opened := fun h => by cases h
  resolved := fun h => absurd rfl h

end Core

/-- The payments the PMP guards with a clamp are made in full. -/
def Unclamped (i : PMP.Input) : PmpCallback → Prop
  | .onStakeCancelled v w =>
    ∃ a d b h, i.call = .cancelStake a d b h ∧ v = a.sum + d.sum ∧ w = b.sum
  | .onPmpCleanRefund xs r => r = xs.sum
  | .onMergeAccepted r xs => r = xs.sum
  | _ => True

namespace MaybeFreeze

variable {c d : Core} {os : Mail}

theorem same (h : MaybeFreeze c os d) : d.toRewards = c.toRewards ∧ d.destroyed = c.destroyed := by
  cases h <;> exact ⟨rfl, rfl⟩

theorem sound (h : MaybeFreeze c os d) (hs : c.Sound) : d.Sound := by
  cases h with
  | skip => exact hs
  | freeze g paid p h0 ha hc hg hpos hp =>
    have hbal := hs.balanced (hs.unresolved h0)
    obtain ⟨-, hsh, hforf, hcr⟩ := Pools.normalize_shifts hbal hp
    refine ⟨fun _ => ?_, Basket.build_exact _ _ _ _, hs.count, fun k => ?_, fun _ => ha,
      fun _ => ⟨rfl, hc⟩⟩
    · exact hsh.balanced_left (c.toPools.trimmed_sumsTo c.numOutcomes g) hbal
    · have h1 := hs.creator k
      have h2 : p.forfeited k .clean = c.forfeited k .clean - c.toPools.cut c.numOutcomes g k := by
        simpa using hforf k .clean
      have h3 := hcr k
      change p.creatorForfeitedClean k ≤ p.forfeited k .clean
      omega

theorem unclamped (h : MaybeFreeze c os d) (hs : c.Sound) (i : PMP.Input) :
    ∀ m ∈ os, Unclamped i m.2 := by
  cases h with
  | skip => simp
  | freeze g paid p h0 ha hc hg hpos hp =>
    obtain ⟨rfl, -, -, -⟩ := Pools.normalize_shifts (hs.balanced (hs.unresolved h0)) hp
    intro m hm
    unfold Core.refundMail at hm
    split_ifs at hm
    · obtain rfl := List.mem_singleton.mp hm
      rfl
    · cases hm

theorem silent (h : MaybeFreeze c os d) (hn : d.normRefundPending = false) : os = [] := by
  cases h with
  | skip => rfl
  | freeze g =>
    have h1 : (c.normRefundPending ||
        decide (0 < (c.toPools.refundAmounts c.numOutcomes g).sum)) = false := hn
    have h2 : ¬ 0 < (c.toPools.refundAmounts c.numOutcomes g).sum := by
      intro h
      simp [h] at h1
    exact if_neg h2

end MaybeFreeze

namespace Core

variable {c : Core}

theorem mint_shifts {n : ℕ} {p : Pools} (hs : c.Sound)
    (hp : c.toPools.mintSets (c.toBasket.amounts c.numOutcomes n) (n * c.splitMergeQ) = some p) :
    Pools.Shifts c.toPools p (cleanOf (c.toBasket.amounts c.numOutcomes n))
      (c.toBasket.amounts c.numOutcomes n).sum 0 0 ∧ p.totalPool < 2 ^ 128 ∧
      p.forfeited = c.forfeited ∧ p.creatorForfeitedClean = c.creatorForfeitedClean :=
  Pools.mintSets_shifts (Basket.amounts_sum hs.exact n).symm hp

theorem burn_shifts {n paid : ℕ} {p : Pools} (hs : c.Sound) (hu : c.resolvedOutcome = none)
    (hp : c.toPools.burnSets (c.toBasket.amounts c.numOutcomes n) (n * c.splitMergeQ) =
      some (p, paid)) :
    paid = (c.toBasket.amounts c.numOutcomes n).sum ∧
      Pools.Shifts p c.toPools (cleanOf (c.toBasket.amounts c.numOutcomes n))
        (c.toBasket.amounts c.numOutcomes n).sum 0 0 ∧
      p.forfeited = c.forfeited ∧ p.creatorForfeitedClean = c.creatorForfeitedClean := by
  rw [← Basket.amounts_sum hs.exact n] at hp
  exact Pools.burnSets_shifts (hs.balanced hu) hp

theorem Sound.forfeit (hs : c.Sound) (b : Bool) (x y z : List ℕ) :
    (c.setPools (c.toPools.forfeit b x y z)).Sound := by
  refine hs.setPools (fun hu => ?_) fun k => ?_
  · have h := hs.balanced hu
    exact ⟨h.clean, h.debt, h.coupon, h.total, h.unclaimed, h.outside, h.fits⟩
  · have h := hs.creator k
    simp only [Pools.forfeit, TypedPools.credit_apply]
    cases b <;> simp <;> omega

end Core

namespace Effect

variable {c d : Core} {os : Mail} {i : PMP.Input}

theorem cancel_sound {e : Core} (hs : c.Sound)
    (he : e = c ∨ (c.resolvedOutcome = none ∧ c.isCancelled = false ∧ e = c.cancel)) : e.Sound := by
  rcases he with rfl | ⟨hu, -, rfl⟩
  · exact hs
  · exact hs.cancel hu

/-- A transaction keeps the totals in agreement with the pools. -/
theorem sound (h : Effect c i os d) (hs : c.Sound) (hd : d.destroyed = false) : d.Sound := by
  cases h with
  | idle => exact hs
  | abort => cases hd
  | opened p ha hpos hp =>
    obtain ⟨hsh, hlt, h1, h2⟩ := Pools.mintSets_shifts rfl hp
    refine ⟨fun hu => ?_, hs.exact.mono hs.count, le_refl _, fun k => ?_, hs.opened, hs.resolved⟩
    · exact hsh.balanced (Pools.cleanOf_sumsTo (le_refl _)) ((hs.balanced hu).mono hs.count) hlt
    · simpa [Core.openWith, h1, h2] using hs.creator k
  | openedAbort => cases hd
  | timings st rs os d hu hf => exact hf.sound (hs.setTimings st rs)
  | cancelled hu => exact hs.cancel hu
  | stake k a h t p hcall hsend ha hc hu hk hf ht hcr hp =>
    obtain ⟨hsh, hlt, h1, h2⟩ := Pools.creditStake_shifts (hs.balanced hu) ht hp
    refine hs.setPools (fun _ => ?_) fun k => ?_
    · exact hsh.balanced (Pools.single_sumsTo hk) (hs.balanced hu) hlt
    · simpa [h1, h2] using hs.creator k
  | refund a d b h e p hcall hsend he hc hb hn hp =>
    have hes := cancel_sound hs he
    refine Core.Closes.sound (Core.closeCancelled_closes _) (hes.setPools (fun hu => ?_) ?_) hd
    · have hbal := hes.balanced hu
      obtain ⟨hcl, hsh⟩ := Pools.debitStakes_shifts hbal hp
      rw [hcl]
      refine hsh.balanced_left (Pools.amountsOf_sumsTo fun k t hk => ?_) hbal
      have h1 := hsh.pools k t
      rw [hbal.outside k t hk] at h1
      omega
    · obtain ⟨h1, h2⟩ := Pools.debitStakes_forfeited hp
      intro k
      simpa [Pools.payOut, h1, h2] using hes.creator k
  | frozenNow os d hf => exact hf.sound hs
  | split f h os e p hcall hsend hf hfr hu hc hn hq hp =>
    have hes := hf.sound hs
    obtain ⟨hsh, hlt, h1, h2⟩ := Core.mint_shifts hes hp
    refine hes.setPools (fun _ => ?_) fun k => ?_
    · exact hsh.balanced (Pools.cleanOf_sumsTo (Basket.amounts_length _ _ _).le) (hes.balanced hu) hlt
    · simpa [h1, h2] using hes.creator k
  | merge a h n paid os e p hcall hsend hf hfr hu hc hn hl hz ht hp =>
    have hes := hf.sound hs
    obtain ⟨-, hsh, h1, h2⟩ := Core.burn_shifts hes hu hp
    refine hes.setPools (fun _ => ?_) fun k => ?_
    · exact hsh.balanced_left (Pools.cleanOf_sumsTo (Basket.amounts_length _ _ _).le)
        (hes.balanced hu)
    · simpa [h1, h2] using hes.creator k
  | resolved k os e hf hfr hu hc => exact (hf.sound hs).resolve ⟨hfr, hc⟩ k
  | claimNone => exact hs
  | claimRefund a d b h hcall hsend hdone hm hr =>
    have hr' : c.resolvedOutcome ≠ none := Option.isSome_iff_ne_none.mp hr
    exact Core.Closes.sound (Core.closeDebtRefund_closes _)
      (hs.pay hr' (hs.resolved hr') rfl rfl) hd
  | claimWin a d b h k q hcall hsend hdone hm hr =>
    have hr' : c.resolvedOutcome ≠ none := by simp [hr]
    exact Core.Closes.sound (Core.closeWin_closes _ k) (hs.pay hr' (hs.resolved hr') rfl rfl) hd
  | forfeit a d b h e hcall hsend he =>
    subst he
    exact Core.Closes.sound (Core.tryClose_closes _) (hs.forfeit _ a d b) hd
  | refundReceived => exact hs.clearRefund
  | bookDone =>
    exact Core.Closes.sound (Core.tryClose_closes _) hs.setBookDone hd

theorem Closes.unclamped {r : Core × Mail} (h : c.Closes r) : ∀ m ∈ r.2, Unclamped i m.2 := by
  rcases h with rfl | ⟨-, -, h⟩
  · simp
  · intro m hm
    obtain ⟨x, hx⟩ := h m hm
    rw [hx]
    trivial

/-- Before the resolution no clamp reduces a payment. -/
theorem unclamped (h : Effect c i os d) (hs : c.Sound) (hu : c.resolvedOutcome = none) :
    ∀ m ∈ os, Unclamped i m.2 := by
  cases h with
  | idle => simp
  | abort n os hab ho =>
    rcases ho with rfl | rfl <;> simp [Unclamped]
  | opened => simp [Unclamped]
  | openedAbort => simp [Unclamped]
  | timings st rs os d hu hf => exact hf.unclamped (hs.setTimings st rs) i
  | cancelled => simp
  | stake => simp [Unclamped]
  | refund a d b h e p hcall hsend he hc hb hn hp =>
    have hes := cancel_sound hs he
    have hue : e.resolvedOutcome = none := by
      rcases he with rfl | ⟨-, -, rfl⟩ <;> exact hu
    intro m hm
    rcases List.mem_cons.mp hm with rfl | hm
    · exact ⟨a, d, b, h, hcall, (Pools.debitStakes_shifts (hes.balanced hue) hp).1, rfl⟩
    · exact Closes.unclamped (Core.closeCancelled_closes _) m hm
  | frozenNow os d hf => exact hf.unclamped hs i
  | split f h os e p hcall hsend hf =>
    intro m hm
    rcases List.mem_append.mp hm with hm | hm
    · exact hf.unclamped hs i m hm
    · obtain rfl := List.mem_singleton.mp hm
      trivial
  | merge a h n paid os e p hcall hsend hf hfr hu hc hn hl hz ht hp =>
    intro m hm
    rcases List.mem_append.mp hm with hm | hm
    · exact hf.unclamped hs i m hm
    · obtain rfl := List.mem_singleton.mp hm
      exact (Core.burn_shifts (hf.sound hs) hu hp).1
  | resolved k os e hf =>
    intro m hm
    rcases List.mem_append.mp hm with hm | hm
    · exact hf.unclamped hs i m hm
    · unfold Core.feeMail at hm
      split_ifs at hm
      · obtain rfl := List.mem_singleton.mp hm
        trivial
      · cases hm
  | claimNone => simp [Unclamped]
  | claimRefund a d b h hcall hsend hdone hm hr =>
    rw [hu] at hr
    cases hr
  | claimWin a d b h k q hcall hsend hdone hm hr =>
    rw [hu] at hr
    cases hr
  | forfeit =>
    intro m hm
    rcases List.mem_cons.mp hm with rfl | hm
    · trivial
    · exact Closes.unclamped (Core.tryClose_closes _) m hm
  | refundReceived => simp
  | bookDone => exact Closes.unclamped (Core.tryClose_closes _)

theorem outcome (h : Effect c i os d) : d.resolvedOutcome = c.resolvedOutcome ∨
    ∃ k os' e, MaybeFreeze c os' e ∧ e.frozen = true ∧ e.resolvedOutcome = none ∧
      e.isCancelled = false ∧ k < e.numOutcomes ∧ e.toPools.resolveFits k = true ∧
      os = os' ++ (e.resolve k).feeMail ∧ d = e.resolve k := by
  cases h with
  | timings st rs os d hu hf => exact .inl (congrArg Rewards.resolvedOutcome hf.same.1)
  | refund a d b h e p hcall hsend he =>
    refine .inl ((Core.closeCancelled_closes _).outcome.trans ?_)
    rcases he with rfl | ⟨-, -, rfl⟩ <;> rfl
  | frozenNow os d hf => exact .inl (congrArg Rewards.resolvedOutcome hf.same.1)
  | split f h os e p hcall hsend hf =>
    exact .inl (congrArg Rewards.resolvedOutcome hf.same.1)
  | merge a h n paid os e p hcall hsend hf =>
    exact .inl (congrArg Rewards.resolvedOutcome hf.same.1)
  | resolved k os e hf hfr hu hc hk hfit =>
    exact .inr ⟨k, os, e, hf, hfr, hu, hc, hk, hfit, rfl, rfl⟩
  | claimRefund =>
    exact .inl (Core.closeDebtRefund_closes _).outcome
  | claimWin a d b h k =>
    exact .inl (Core.closeWin_closes _ k).outcome
  | forfeit a d b h e hcall hsend he =>
    rw [he]
    exact .inl (Core.tryClose_closes _).outcome
  | bookDone => exact .inl (Core.tryClose_closes _).outcome
  | idle | abort | opened | openedAbort | cancelled | stake | claimNone | refundReceived =>
    exact .inl rfl

theorem unresolved (h : Effect c i os d) (hu : d.resolvedOutcome = none) :
    c.resolvedOutcome = none := by
  rcases h.outcome with h | ⟨k, os', e, -, -, -, -, -, -, -, rfl⟩
  · rw [← h]
    exact hu
  · exact absurd hu (e.resolve_resolved k)

end Effect

namespace PMP

variable {s t : PMP} {i : Input}

theorem step_live (h : s.step i = some t) : s.destroyed = false := by
  unfold step at h
  split_ifs at h with hd
  simpa using hd

/-- What every reachable storage satisfies. -/
structure Inv (s : PMP) : Prop where
  ready : s.Ready
  sound : s.destroyed = false → s.toCore.Sound

theorem init_inv (m : MarketId) (h : ℕ) (ls : List Addr) (xs : List ℕ) :
    (PMP.init m h ls xs).Inv :=
  ⟨init_ready m h ls xs, fun _ => Core.init_sound m h xs⟩

theorem Inv.effect (hs : s.Inv) (h : s.step i = some t) :
    s.toCore.Sound ∧ Effect s.toCore i t.sent t.toCore :=
  ⟨hs.sound (step_live h), step_effect hs.ready h⟩

theorem Inv.step (hs : s.Inv) (h : s.step i = some t) : t.Inv := by
  obtain ⟨h1, h2⟩ := hs.effect h
  exact ⟨step_ready hs.ready h, h2.sound h1⟩

end PMP

end Dexdo
