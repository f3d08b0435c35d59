import Dexdo.PMP.Cases

namespace Dexdo

open Finset

theorem sum_getD (xs : List ℕ) (n : ℕ) (h : ∀ k, n ≤ k → xs.getD k 0 = 0) :
    ∑ k ∈ range n, xs.getD k 0 = xs.sum := by
  induction xs generalizing n with
  | nil => simp
  | cons x xs ih =>
    cases n with
    | zero =>
      have h0 : x = 0 := by simpa using h 0 (le_refl 0)
      have hr := ih 0 fun k _ => by simpa using h (k + 1) (Nat.zero_le _)
      simpa [h0] using hr
    | succ n =>
      rw [sum_range_succ', List.sum_cons, add_comm x]
      congr 1
      exact ih n fun k hk => by simpa using h (k + 1) (Nat.succ_le_succ hk)

theorem sum_map_range (n : ℕ) (f : ℕ → ℕ) : ((List.range n).map f).sum = ∑ k ∈ range n, f k := by
  induction n with
  | zero => rfl
  | succ n ih => rw [List.range_succ, List.map_append, List.sum_append, ih, sum_range_succ]; simp

theorem getD_map_range (n : ℕ) (f : ℕ → ℕ) (k : ℕ) :
    ((List.range n).map f).getD k 0 = if k < n then f k else 0 := by
  by_cases h : k < n <;> simp [h]

/-- Amounts three arrays pass, by outcome and bet type. -/
def amountsOf (stakeAmount debtAmount couponsAmount : List ℕ) : TypedPools := fun k t =>
  match t with
  | .clean => stakeAmount.getD k 0
  | .debt => debtAmount.getD k 0
  | .coupon => couponsAmount.getD k 0
  | _ => 0

/-- Amounts of one array of clean stakes. -/
def cleanOf (stakeAmount : List ℕ) : TypedPools := amountsOf stakeAmount [] []

/-- A single amount. -/
def single (k : ℕ) (t : BetType) (a : ℕ) : TypedPools := fun i u => if i = k ∧ u = t then a else 0

namespace TypedPools

variable {f g : TypedPools} {t : BetType} {xs : List ℕ}

theorem credit_apply (f : TypedPools) (t u : BetType) (xs : List ℕ) (k : ℕ) :
    f.credit t xs k u = f k u + if u = t then xs.getD k 0 else 0 := by
  unfold credit
  split_ifs <;> rfl

theorem set_add (f : TypedPools) (k : ℕ) (t : BetType) (a i : ℕ) (u : BetType) :
    f.set k t (f k t + a) i u = f i u + single k t a i u := by
  unfold set single
  by_cases hi : i = k
  · subst hi
    by_cases hu : u = t
    · subst hu
      simp
    · simp [hu]
  · simp [hi]

theorem debit_eq_some (h : f.debit t xs = some g) :
    (∀ k, xs.getD k 0 ≤ f k t) ∧ ∀ k u, f k u = g k u + if u = t then xs.getD k 0 else 0 := by
  unfold debit at h
  split_ifs at h with hle
  cases h
  have hall : ∀ k, xs.getD k 0 ≤ f k t := by
    intro k
    by_cases hk : k < xs.length
    · exact hle k hk
    · simp [Nat.le_of_not_lt hk]
  refine ⟨hall, fun k u => ?_⟩
  dsimp only
  split_ifs with hu
  · subst hu
    exact (Nat.sub_add_cancel (hall k)).symm
  · rfl

theorem debit_isSome (h : ∀ k, xs.getD k 0 ≤ f k t) : ∃ g, f.debit t xs = some g := by
  unfold debit
  rw [if_pos fun k _ => h k]
  exact ⟨_, rfl⟩

end TypedPools

namespace Pools

/-- Total of one bet type over the outcomes. -/
def sumOf (p : Pools) (n : ℕ) (t : BetType) : ℕ := ∑ k ∈ range n, p.typedOutcomePools k t

/-- The totals agree with the pools and with the collateral held. -/
structure Balanced (p : Pools) (n : ℕ) : Prop where
  clean : p.totalCleanPool = p.sumOf n .clean
  debt : p.totalDebtPool = p.sumOf n .debt
  coupon : p.totalCouponPool = p.sumOf n .coupon
  total : p.totalPool = p.totalCleanPool + p.totalDebtPool
  unclaimed : p.totalUnclaimedBalance = p.totalPool
  outside : ∀ k t, n ≤ k → p.typedOutcomePools k t = 0
  fits : p.totalPool < 2 ^ 128

variable {p q : Pools} {n m : ℕ}

theorem sumOf_mono (h : ∀ k t, n ≤ k → p.typedOutcomePools k t = 0) (hm : n ≤ m) (t : BetType) :
    p.sumOf m t = p.sumOf n t := by
  refine (sum_subset (range_subset_range.mpr hm) fun k _ hk => ?_).symm
  exact h k t (by simpa using hk)

theorem Balanced.mono (h : Balanced p n) (hm : n ≤ m) : Balanced p m where
  clean := by rw [sumOf_mono h.outside hm, h.clean]
  debt := by rw [sumOf_mono h.outside hm, h.debt]
  coupon := by rw [sumOf_mono h.outside hm, h.coupon]
  total := h.total
  unclaimed := h.unclaimed
  outside := fun k t hk => h.outside k t (hm.trans hk)
  fits := h.fits

theorem empty_balanced : Balanced Pools.empty 0 := by
  constructor <;> simp [Pools.empty, sumOf]

/-- `q` has `d` more in its pools than `p`, and its totals have `x`, `y`, `z` more of the three
bet types. -/
structure Shifts (p q : Pools) (d : TypedPools) (x y z : ℕ) : Prop where
  pools : ∀ k t, q.typedOutcomePools k t = p.typedOutcomePools k t + d k t
  clean : q.totalCleanPool = p.totalCleanPool + x
  debt : q.totalDebtPool = p.totalDebtPool + y
  coupon : q.totalCouponPool = p.totalCouponPool + z
  total : q.totalPool = p.totalPool + (x + y)
  unclaimed : q.totalUnclaimedBalance = p.totalUnclaimedBalance + (x + y)

/-- The totals of `d` over the outcomes are `x`, `y` and `z`. -/
structure SumsTo (d : TypedPools) (n x y z : ℕ) : Prop where
  clean : ∑ k ∈ range n, d k .clean = x
  debt : ∑ k ∈ range n, d k .debt = y
  coupon : ∑ k ∈ range n, d k .coupon = z
  outside : ∀ k t, n ≤ k → d k t = 0

namespace Shifts

variable {d : TypedPools} {x y z : ℕ}

theorem sumOf_eq (h : Shifts p q d x y z) (t : BetType) :
    q.sumOf n t = p.sumOf n t + ∑ k ∈ range n, d k t := by
  unfold sumOf
  simp only [h.pools, sum_add_distrib]

/-- Pools stay balanced when stakes and collateral move together. -/
theorem balanced (h : Shifts p q d x y z) (hd : SumsTo d n x y z) (hp : Balanced p n)
    (hf : q.totalPool < 2 ^ 128) : Balanced q n where
  clean := by rw [h.clean, h.sumOf_eq, hd.clean, hp.clean]
  debt := by rw [h.debt, h.sumOf_eq, hd.debt, hp.debt]
  coupon := by rw [h.coupon, h.sumOf_eq, hd.coupon, hp.coupon]
  total := by rw [h.total, h.clean, h.debt, hp.total]; omega
  unclaimed := by rw [h.unclaimed, h.total, hp.unclaimed]
  outside := fun k t hk => by rw [h.pools, hp.outside k t hk, hd.outside k t hk]
  fits := hf

theorem balanced_left (h : Shifts p q d x y z) (hd : SumsTo d n x y z) (hq : Balanced q n) :
    Balanced p n where
  clean := by
    have h1 := h.sumOf_eq (n := n) .clean
    rw [hd.clean, ← hq.clean, h.clean] at h1
    omega
  debt := by
    have h1 := h.sumOf_eq (n := n) .debt
    rw [hd.debt, ← hq.debt, h.debt] at h1
    omega
  coupon := by
    have h1 := h.sumOf_eq (n := n) .coupon
    rw [hd.coupon, ← hq.coupon, h.coupon] at h1
    omega
  total := by
    have h1 := hq.total
    rw [h.total, h.clean, h.debt] at h1
    omega
  unclaimed := by
    have h1 := hq.unclaimed
    rw [h.total, h.unclaimed] at h1
    omega
  outside := fun k t hk => by
    have h1 := h.pools k t
    rw [hq.outside k t hk] at h1
    omega
  fits := by
    have h1 := hq.fits
    rw [h.total] at h1
    omega

end Shifts

theorem amountsOf_sumsTo {a d b : List ℕ} (h : ∀ k t, n ≤ k → amountsOf a d b k t = 0) :
    SumsTo (amountsOf a d b) n a.sum d.sum b.sum :=
  ⟨sum_getD a n fun k hk => h k .clean hk, sum_getD d n fun k hk => h k .debt hk,
    sum_getD b n fun k hk => h k .coupon hk, h⟩

theorem cleanOf_sumsTo {a : List ℕ} (h : a.length ≤ n) : SumsTo (cleanOf a) n a.sum 0 0 := by
  refine amountsOf_sumsTo fun k t hk => ?_
  cases t <;> simp [amountsOf, h.trans hk]

theorem single_sumsTo {k a : ℕ} {t : BetType} (hk : k < n) :
    SumsTo (single k t a) n (if t = .clean then a else 0) (if t = .debt then a else 0)
      (if t = .coupon then a else 0) := by
  have hs : ∀ u, ∑ i ∈ range n, single k t a i u = if t = u then a else 0 := by
    intro u
    by_cases hu : u = t
    · simp [single, hu, hk]
    · simp [single, hu, Ne.symm hu]
  refine ⟨hs .clean, hs .debt, hs .coupon, fun i u hi => ?_⟩
  have hne : i ≠ k := by omega
  simp [single, hne]

theorem add128_eq_some {a b c : ℕ} (h : add128 a b = some c) : c = a + b ∧ a + b < 2 ^ 128 := by
  unfold add128 at h
  split_ifs at h with hlt
  exact ⟨(Option.some.inj h).symm, hlt⟩

theorem sub128_eq_some {a b c : ℕ} (h : sub128 a b = some c) : a = c + b := by
  unfold sub128 at h
  split_ifs at h with hle
  cases h
  exact (Nat.sub_add_cancel hle).symm

theorem sub128_of_le {a b : ℕ} (h : b ≤ a) : sub128 a b = some (a - b) := if_pos h

theorem clamp_of_le {a : ℕ} (h : a ≤ p.totalUnclaimedBalance) : p.clamp a = a :=
  if_neg (Nat.not_lt.mpr h)

/-- Minted sets are clean stakes for as much collateral. -/
theorem mintSets_shifts {xs : List ℕ} {used : ℕ} (hu : used = xs.sum)
    (hq : p.mintSets xs used = some q) :
    Shifts p q (cleanOf xs) xs.sum 0 0 ∧ q.totalPool < 2 ^ 128 ∧ q.forfeited = p.forfeited ∧
      q.creatorForfeitedClean = p.creatorForfeitedClean := by
  obtain ⟨c, hc, hq⟩ := of_bind hq
  obtain ⟨rfl, hlt⟩ := add128_eq_some hc
  cases hq
  subst hu
  refine ⟨⟨fun k t => ?_, rfl, rfl, rfl, rfl, rfl⟩, hlt, rfl, rfl⟩
  dsimp only
  rw [TypedPools.credit_apply]
  cases t <;> simp [cleanOf, amountsOf]

/-- A stake enters its pool and the totals. -/
theorem creditStake_shifts {k a : ℕ} {t : BetType} (hp : Balanced p n) (ht : t.isStake = true)
    (hq : p.creditStake k t a = some q) :
    Shifts p q (single k t a) (if t = .clean then a else 0) (if t = .debt then a else 0)
      (if t = .coupon then a else 0) ∧ q.totalPool < 2 ^ 128 ∧ q.forfeited = p.forfeited ∧
      q.creatorForfeitedClean = p.creatorForfeitedClean := by
  obtain ⟨r, hr, hq⟩ := of_bind hq
  cases hq
  cases t with
  | clean =>
    obtain ⟨c, hc, hr⟩ := of_bind hr
    obtain ⟨rfl, hlt⟩ := add128_eq_some hc
    cases hr
    exact ⟨⟨TypedPools.set_add _ k .clean a, rfl, rfl, rfl, rfl, rfl⟩, hlt, rfl, rfl⟩
  | debt =>
    obtain ⟨c, hc, hr⟩ := of_bind hr
    obtain ⟨rfl, hlt⟩ := add128_eq_some hc
    cases hr
    refine ⟨⟨TypedPools.set_add _ k .debt a, rfl, rfl, rfl, ?_, ?_⟩, hlt, rfl, rfl⟩ <;> simp
  | coupon =>
    obtain ⟨c, hc, hr⟩ := of_bind hr
    obtain ⟨rfl, -⟩ := add128_eq_some hc
    cases hr
    exact ⟨⟨TypedPools.set_add _ k .coupon a, rfl, rfl, rfl, rfl, rfl⟩, hp.fits, rfl, rfl⟩
  | obSell => cases ht
  | merge => cases ht

/-- Refunded stakes leave their pools, and no clamp applies. -/
theorem debitStakes_shifts {a d b : List ℕ} (h : Balanced p n)
    (hq : p.debitStakes a d b = some q) :
    q.clamp (a.sum + d.sum) = a.sum + d.sum ∧
      Shifts (q.payOut (a.sum + d.sum)) p (amountsOf a d b) a.sum d.sum b.sum := by
  simp only [debitStakes, bind_iff, pure_iff] at hq
  obtain ⟨f, hf, g, hg, e, he, x, hx, y, hy, z, hz, w, hw, rfl⟩ := hq
  obtain ⟨-, hf⟩ := TypedPools.debit_eq_some hf
  obtain ⟨-, hg⟩ := TypedPools.debit_eq_some hg
  obtain ⟨-, he⟩ := TypedPools.debit_eq_some he
  have hle : a.sum + d.sum ≤ p.totalUnclaimedBalance := by
    rw [h.unclaimed, sub128_eq_some hx]
    exact Nat.le_add_left _ _
  refine ⟨clamp_of_le hle, ⟨fun k t => ?_, sub128_eq_some hy, sub128_eq_some hz, sub128_eq_some hw,
    sub128_eq_some hx, ?_⟩⟩
  · rw [hf, hg, he]
    cases t <;> simp [amountsOf, payOut]
  · exact (Nat.sub_add_cancel hle).symm

theorem debitStakes_forfeited {a d b : List ℕ} (hq : p.debitStakes a d b = some q) :
    q.forfeited = p.forfeited ∧ q.creatorForfeitedClean = p.creatorForfeitedClean := by
  simp only [debitStakes, bind_iff, pure_iff] at hq
  obtain ⟨f, -, g, -, e, -, x, -, y, -, z, -, w, -, rfl⟩ := hq
  exact ⟨rfl, rfl⟩

/-- What the pools hold can be refunded. -/
theorem debitStakes_isSome {a d b : List ℕ} (h : Balanced p n)
    (hle : ∀ k t, amountsOf a d b k t ≤ p.typedOutcomePools k t) :
    (p.debitStakes a d b).isSome = true := by
  obtain ⟨f, hf⟩ := TypedPools.debit_isSome fun k => hle k .clean
  have hf2 := (TypedPools.debit_eq_some hf).2
  have hd : ∀ k, d.getD k 0 ≤ f k .debt := fun k => by
    have h1 := hle k .debt
    rw [hf2] at h1
    simpa [amountsOf] using h1
  obtain ⟨g, hg⟩ := TypedPools.debit_isSome hd
  have hg2 := (TypedPools.debit_eq_some hg).2
  have hb : ∀ k, b.getD k 0 ≤ g k .coupon := fun k => by
    have h1 := hle k .coupon
    rw [hf2, hg2] at h1
    simpa [amountsOf] using h1
  obtain ⟨e, he⟩ := TypedPools.debit_isSome hb
  have hz : ∀ k t, n ≤ k → amountsOf a d b k t = 0 := fun k t hk => by
    have h1 := hle k t
    rw [h.outside k t hk] at h1
    omega
  have hs := amountsOf_sumsTo hz
  have hsum : ∀ t, ∑ k ∈ range n, amountsOf a d b k t ≤ p.sumOf n t := fun t =>
    sum_le_sum fun k _ => hle k t
  have h1 : a.sum ≤ p.totalCleanPool := h.clean ▸ hs.clean ▸ hsum .clean
  have h2 : d.sum ≤ p.totalDebtPool := h.debt ▸ hs.debt ▸ hsum .debt
  have h3 : b.sum ≤ p.totalCouponPool := h.coupon ▸ hs.coupon ▸ hsum .coupon
  have h4 : a.sum + d.sum ≤ p.totalPool := by
    rw [h.total]
    omega
  simp [debitStakes, hf, hg, he, sub128_of_le, h1, h2, h3, h4]

/-- Amounts the normalization takes off the pools. -/
def trimmed (p : Pools) (n g : ℕ) : TypedPools := fun k t =>
  if t = .clean then p.remainder n g k else 0

theorem remainder_le (p : Pools) (n g k : ℕ) : p.remainder n g k ≤ p.typedOutcomePools k .clean := by
  unfold remainder
  split_ifs
  · exact Nat.mod_le _ _
  · exact Nat.zero_le _

theorem trimmed_sumsTo (p : Pools) (n g : ℕ) :
    SumsTo (p.trimmed n g) n (p.refundAmounts n g).sum 0 0 := by
  refine ⟨?_, by simp [trimmed], by simp [trimmed], fun k t hk => ?_⟩
  · rw [refundAmounts, sum_map_range]
    rfl
  · simp [trimmed, remainder, Nat.not_lt.mpr hk]

theorem refund_le (h : Balanced p n) (g : ℕ) : (p.refundAmounts n g).sum ≤ p.totalCleanPool := by
  rw [h.clean, ← (p.trimmed_sumsTo n g).clean]
  exact sum_le_sum fun k _ => p.remainder_le n g k

theorem normalize_isSome (h : Balanced p n) (g : ℕ) : (p.normalize n g).isSome = true := by
  have h1 : (p.refundAmounts n g).sum ≤ (p.trim n g).totalCleanPool := refund_le h g
  have h2 : (p.refundAmounts n g).sum ≤ (p.trim n g).totalPool := h1.trans
    (h.total ▸ Nat.le_add_right _ _ : p.totalCleanPool ≤ p.totalPool)
  unfold normalize
  by_cases h0 : (p.refundAmounts n g).sum = 0
  · simp [h0]
  · simp [h0, sub128_of_le h1, sub128_of_le h2]

/-- The refund of the normalization is not clamped. -/
theorem normalize_shifts {g paid : ℕ} (h : Balanced p n) (hq : p.normalize n g = some (q, paid)) :
    paid = (p.refundAmounts n g).sum ∧
      Shifts q p (p.trimmed n g) (p.refundAmounts n g).sum 0 0 ∧
      (∀ k t, q.forfeited k t = p.forfeited k t - if t = .clean then p.cut n g k else 0) ∧
      ∀ k, q.creatorForfeitedClean k = p.creatorForfeitedClean k - p.cut n g k := by
  have hpools : ∀ k t, p.typedOutcomePools k t =
      (p.trim n g).typedOutcomePools k t + p.trimmed n g k t := by
    intro k t
    have h1 := p.remainder_le n g k
    simp only [trim, trimmed]
    split_ifs with ht
    · subst ht
      omega
    · rfl
  have hforf : ∀ k t, (p.trim n g).forfeited k t =
      p.forfeited k t - if t = .clean then p.cut n g k else 0 := by
    intro k t
    simp only [trim]
    split_ifs <;> rfl
  unfold normalize at hq
  dsimp only at hq
  split_ifs at hq with h0
  · cases hq
    rw [h0]
    exact ⟨rfl, ⟨hpools, rfl, rfl, rfl, rfl, rfl⟩, hforf, fun k => rfl⟩
  · simp only [bind_iff, pure_iff, Prod.mk.injEq] at hq
    obtain ⟨x, hx, y, hy, rfl, rfl⟩ := hq
    have hle : (p.refundAmounts n g).sum ≤ (p.trim n g).totalUnclaimedBalance := by
      have h1 : (p.trim n g).totalUnclaimedBalance = (p.trim n g).totalPool := h.unclaimed
      rw [h1, sub128_eq_some hy]
      exact Nat.le_add_left _ _
    rw [clamp_of_le hle]
    exact ⟨rfl, ⟨hpools, sub128_eq_some hx, rfl, rfl, sub128_eq_some hy,
      (Nat.sub_add_cancel hle).symm⟩, hforf, fun k => rfl⟩

/-- Burned sets are clean stakes for as much collateral. -/
theorem burnSets_shifts {xs : List ℕ} {paid : ℕ} (h : Balanced p n)
    (hq : p.burnSets xs xs.sum = some (q, paid)) :
    paid = xs.sum ∧ Shifts q p (cleanOf xs) xs.sum 0 0 ∧ q.forfeited = p.forfeited ∧
      q.creatorForfeitedClean = p.creatorForfeitedClean := by
  simp only [burnSets, bind_iff, pure_iff, Prod.mk.injEq] at hq
  obtain ⟨f, hf, x, hx, y, hy, rfl, rfl⟩ := hq
  obtain ⟨-, hf⟩ := TypedPools.debit_eq_some hf
  have hle : xs.sum ≤ p.totalUnclaimedBalance := by
    rw [h.unclaimed, sub128_eq_some hx]
    exact Nat.le_add_left _ _
  rw [clamp_of_le hle]
  refine ⟨rfl, ⟨fun k t => ?_, sub128_eq_some hy, rfl, rfl, sub128_eq_some hx,
    (Nat.sub_add_cancel hle).symm⟩, rfl, rfl⟩
  rw [hf]
  cases t <;> simp [cleanOf, amountsOf, payOut]

/-- Sets the pools hold can be burned. -/
theorem burnSets_isSome {xs : List ℕ} (h : Balanced p n)
    (h1 : ∀ k, xs.getD k 0 ≤ p.typedOutcomePools k .clean) :
    (p.burnSets xs xs.sum).isSome = true := by
  obtain ⟨f, hf⟩ := TypedPools.debit_isSome h1
  have h0 : ∀ k, n ≤ k → xs.getD k 0 = 0 := by
    intro k hk
    have h2 := h1 k
    rw [h.outside k .clean hk] at h2
    omega
  have h3 : xs.sum ≤ p.totalCleanPool := by
    rw [h.clean, ← sum_getD xs n h0]
    exact sum_le_sum fun k _ => h1 k
  have h2 : xs.sum ≤ p.totalPool := by
    rw [h.total]
    omega
  simp [burnSets, hf, sub128_of_le h2, sub128_of_le h3]

end Pools

namespace Basket

/-- The collateral of a basket is the sum of its units, and units exist for outcomes only. -/
structure Exact (b : Basket) (n : ℕ) : Prop where
  quantum : b.splitMergeQ = ∑ k ∈ range n, b.frozenCleanUnitsPerQ k
  outside : ∀ k, n ≤ k → b.frozenCleanUnitsPerQ k = 0

theorem empty_exact : Exact Basket.empty 0 := ⟨by simp [Basket.empty], fun _ _ => rfl⟩

theorem build_exact (f : ℕ → ℕ) (n base : ℕ) (pending : Bool) : Exact (build f n base pending) n := by
  refine ⟨?_, fun k hk => ?_⟩
  · exact sum_map_range n _
  · simp [build, unitsOf, Nat.not_lt.mpr hk]

theorem Exact.mono {b : Basket} {n m : ℕ} (h : Exact b n) (hm : n ≤ m) : Exact b m := by
  refine ⟨?_, fun k hk => h.outside k (hm.trans hk)⟩
  rw [h.quantum]
  refine sum_subset (range_subset_range.mpr hm) fun k _ hk => ?_
  exact h.outside k (by simpa using hk)

theorem amounts_sum {b : Basket} {n : ℕ} (h : Exact b n) (t : ℕ) :
    (b.amounts n t).sum = t * b.splitMergeQ := by
  rw [amounts, sum_map_range, h.quantum, mul_sum]

theorem amounts_length (b : Basket) (n t : ℕ) : (b.amounts n t).length = n := by simp [amounts]

theorem wholeSets_succ (b : Basket) (n : ℕ) (amount : List ℕ) : b.wholeSets (n + 1) amount =
    if b.frozenCleanUnitsPerQ n = 0 then b.wholeSets n amount
    else if amount.getD n 0 / b.frozenCleanUnitsPerQ n < b.wholeSets n amount then
      amount.getD n 0 / b.frozenCleanUnitsPerQ n
    else b.wholeSets n amount := by
  rw [wholeSets, List.range_succ, List.foldl_append]
  rfl

/-- A holder has the stakes of the sets that are counted. -/
theorem wholeSets_le (b : Basket) (n : ℕ) (amount : List ℕ) {k : ℕ} (hk : k < n) :
    b.wholeSets n amount * b.frozenCleanUnitsPerQ k ≤ amount.getD k 0 := by
  induction n with
  | zero => cases hk
  | succ n ih =>
    have hle : b.wholeSets (n + 1) amount ≤ b.wholeSets n amount := by
      rw [wholeSets_succ]
      split_ifs <;> omega
    by_cases hkn : k = n
    · subst hkn
      by_cases h0 : b.frozenCleanUnitsPerQ k = 0
      · rw [h0]
        exact Nat.zero_le _
      · have h1 : b.wholeSets (k + 1) amount ≤ amount.getD k 0 / b.frozenCleanUnitsPerQ k := by
          rw [wholeSets_succ, if_neg h0]
          split_ifs <;> omega
        exact (Nat.mul_le_mul_right _ h1).trans (Nat.div_mul_le_self _ _)
    · have hkn' : k < n := by omega
      exact (Nat.mul_le_mul_right _ hle).trans (ih hkn')

theorem wholeSets_eq (b : Basket) {n t : ℕ} {amount : List ℕ} (ht : t < 2 ^ 128)
    (hu : ∀ k < n, 0 < b.frozenCleanUnitsPerQ k)
    (ha : ∀ k < n, amount.getD k 0 = t * b.frozenCleanUnitsPerQ k) :
    b.wholeSets n amount = if n = 0 then 2 ^ 128 - 1 else t := by
  induction n with
  | zero => rfl
  | succ n ih =>
    have h1 := ih (fun k hk => hu k (Nat.lt_succ_of_lt hk)) fun k hk => ha k (Nat.lt_succ_of_lt hk)
    have h2 : amount.getD n 0 / b.frozenCleanUnitsPerQ n = t := by
      rw [ha n (Nat.lt_succ_self n)]
      exact Nat.mul_div_cancel t (hu n (Nat.lt_succ_self n))
    rw [wholeSets_succ, h1, h2, if_neg (hu n (Nat.lt_succ_self n)).ne', if_neg (Nat.succ_ne_zero n)]
    split_ifs <;> omega

end Basket

end Dexdo
