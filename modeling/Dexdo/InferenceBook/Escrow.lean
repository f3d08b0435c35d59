import Dexdo.InferenceBook.Moves
import Dexdo.Lib.Ladder

namespace Dexdo.InferenceOrderBook

section Loops

variable (now : ℕ) (e : QueueEntry) (takerId : ℕ)

/-- What one round of the inner loop makes of the resting order `cur`. -/
inductive Visit (lp cur : ℕ) (m : MatchState) : MatchState → Prop
  | skip : verdict now e (m.book.order cur) lp m.remaining m.leftover = .skip → Visit lp cur m m
  | expired : verdict now e (m.book.order cur) lp m.remaining m.leftover = .expired →
      Visit lp cur m (dropExpired e cur m)
  | dust : verdict now e (m.book.order cur) lp m.remaining m.leftover = .dust →
      Visit lp cur m (dropDust cur m)
  | fill (trade : ℕ) :
      verdict now e (m.book.order cur) lp m.remaining m.leftover = .fill trade →
      Visit lp cur m (fillMaker e takerId lp cur trade m)

/-- How the inner loop ends at order `cur` of level `lp`. -/
inductive LevelEnd (lp cur : ℕ) (r : MatchState) : Prop
  | done : r.halt = .none → cur = 0 ∨ r.remaining = 0 → LevelEnd lp cur r
  | capped : r.halt = .capped cur → cur ≠ 0 → r.remaining ≠ 0 → LevelEnd lp cur r
  | stopped : r.halt = .stopped → cur ≠ 0 → r.remaining ≠ 0 →
      verdict now e (r.book.order cur) lp r.remaining r.leftover = .stop → LevelEnd lp cur r

variable {now e takerId}

theorem Visit.halt {lp cur : ℕ} {m m' : MatchState} (h : Visit now e takerId lp cur m m') :
    m'.halt = m.halt := by
  cases h <;> rfl

/-- What every round preserves holds where the inner loop ends. -/
theorem matchLevel_rule {lp : ℕ} {I : ℕ → MatchState → Prop}
    (hext : ∀ cur m scans halt, I cur m → I cur { m with scans := scans, halt := halt })
    (hvisit : ∀ cur m m', cur ≠ 0 → m.remaining ≠ 0 → I cur m → Visit now e takerId lp cur m m' →
      I (m.book.order cur).nextAtPrice m')
    (scans cur : ℕ) (m : MatchState) (h : I cur m) (hm : m.halt = .none) :
    ∃ cur', I cur' (matchLevel now e takerId lp scans cur m) ∧
      LevelEnd now e lp cur' (matchLevel now e takerId lp scans cur m) := by
  have hstop (cur : ℕ) (m : MatchState) (h : I cur m) (hm : m.halt = .none)
      (hc : cur = 0 ∨ m.remaining = 0) (scans : ℕ) : ∃ cur', I cur' { m with scans := scans } ∧
        LevelEnd now e lp cur' { m with scans := scans } :=
    ⟨cur, hext cur m scans m.halt h, .done hm hc⟩
  induction scans generalizing cur m with
  | zero =>
    unfold matchLevel
    by_cases hc : cur = 0 ∨ m.remaining = 0
    · rw [if_pos hc]
      exact hstop cur m h hm hc 0
    · rw [if_neg hc]
      push Not at hc
      exact ⟨cur, hext cur m 0 (.capped cur) h, .capped rfl hc.1 hc.2⟩
  | succ scans ih =>
    unfold matchLevel
    by_cases hc : cur = 0 ∨ m.remaining = 0
    · rw [if_pos hc]
      exact hstop cur m h hm hc (scans + 1)
    · rw [if_neg hc]
      push Not at hc
      dsimp only
      split_ifs with hcap
      · exact ⟨cur, hext cur m _ (.capped cur) h, .capped rfl hc.1 hc.2⟩
      · have hgo (m' : MatchState) (hv : Visit now e takerId lp cur m m') :=
          ih (m.book.order cur).nextAtPrice m' (hvisit cur m m' hc.1 hc.2 h hv) (hv.halt.trans hm)
        split
        next hv => exact hgo m (.skip hv)
        next hv => exact hgo _ (.expired hv)
        next hv => exact ⟨cur, hext cur m _ .stopped h, .stopped rfl hc.1 hc.2 hv⟩
        next hv => exact hgo _ (.dust hv)
        next trade hv => exact hgo _ (.fill trade hv)

/-- The taker crosses level `lp`. -/
def reaches (e : QueueEntry) (lp : ℕ) : Prop :=
  crosses e.isBuy e.price (has e.flags FLAG_MARKET) lp = true

theorem nextOpposite_eq (b : Book) (cur : ℕ) :
    b.nextOpposite e.isBuy cur = (b.levels (!e.isBuy)).after? e.isBuy cur := by
  unfold Book.nextOpposite Dict.after?
  cases e.isBuy <;> rfl

theorem bestOpposite_eq (b : Book) :
    b.bestOpposite e.isBuy = (b.levels (!e.isBuy)).best? e.isBuy := by
  unfold Book.bestOpposite Dict.best?
  cases e.isBuy <;> rfl

/-- Levels the outer loop has still to visit after `lp`. -/
def levelsBehind (e : QueueEntry) (lp : ℕ) (m : MatchState) : ℕ :=
  (m.book.levels (!e.isBuy)).behind e.isBuy lp

/-- How the outer loop ends: an inner loop ended it, or no level is left that the taker crosses. -/
inductive WalkEnd (now : ℕ) (e : QueueEntry) (I : ℕ → ℕ → MatchState → Prop) (r : MatchState) :
    Prop
  | halted (lp cur : ℕ) : I lp cur r → r.halt ≠ .none → LevelEnd now e lp cur r → WalkEnd now e I r
  | filled (lp cur : ℕ) : I lp cur r → r.halt = .none → r.remaining = 0 → WalkEnd now e I r
  | swept (lp : ℕ) : I lp 0 r → r.halt = .none →
      (∀ x l, r.book.nextOpposite e.isBuy lp = some (x, l) → ¬ reaches e x) → WalkEnd now e I r

theorem matchLevels_stop (fuel start : ℕ) (it : Option (ℕ × PriceLevel)) (m : MatchState)
    (h : m.remaining = 0 ∨ ∀ x l, it = some (x, l) → ¬ reaches e x) :
    matchLevels now e takerId fuel start it m = m := by
  cases fuel with
  | zero => rfl
  | succ =>
    cases it with
    | none => rfl
    | some p =>
      unfold matchLevels
      exact if_pos (h.imp_right fun h => h p.1 p.2 rfl)

/-- What every round and every change of the level preserves holds where the match ends. -/
theorem matchLevels_rule {I : ℕ → ℕ → MatchState → Prop}
    (hext : ∀ lp cur m scans halt, I lp cur m → I lp cur { m with scans := scans, halt := halt })
    (hvisit : ∀ lp cur m m', cur ≠ 0 → m.remaining ≠ 0 → I lp cur m →
      Visit now e takerId lp cur m m' → I lp (m.book.order cur).nextAtPrice m' ∧
        levelsBehind e lp m' ≤ levelsBehind e lp m)
    (hnext : ∀ lp m x l, I lp 0 m → m.remaining ≠ 0 →
      m.book.nextOpposite e.isBuy lp = some (x, l) → reaches e x →
      I x (m.book.level (!e.isBuy) x).firstOrderId m)
    (fuel start lp : ℕ) (l : PriceLevel) (m : MatchState)
    (h : I lp (if start ≠ 0 then start else (m.book.level (!e.isBuy) lp).firstOrderId) m)
    (hm : m.halt = .none) (hfuel : levelsBehind e lp m < fuel) (hlp : reaches e lp) :
    WalkEnd now e I (matchLevels now e takerId fuel start (some (lp, l)) m) := by
  induction fuel generalizing start lp l m with
  | zero => exact absurd hfuel (Nat.not_lt_zero _)
  | succ fuel ih =>
    unfold matchLevels
    by_cases hr : m.remaining = 0
    · rw [if_pos (.inl hr)]
      exact .filled lp _ h hm hr
    · rw [if_neg (by rw [not_or, not_not]; exact ⟨hr, hlp⟩)]
      dsimp only
      have hround (cur : ℕ) (m' m'' : MatchState) (hc : cur ≠ 0) (hm' : m'.remaining ≠ 0)
          (h : I lp cur m' ∧ levelsBehind e lp m' ≤ levelsBehind e lp m)
          (hv : Visit now e takerId lp cur m' m'') :
          I lp (m'.book.order cur).nextAtPrice m'' ∧
            levelsBehind e lp m'' ≤ levelsBehind e lp m := by
        obtain ⟨h1, h2⟩ := hvisit lp cur m' m'' hc hm' h.1 hv
        exact ⟨h1, h2.trans h.2⟩
      obtain ⟨cur', ⟨hI, hle⟩, hend⟩ := matchLevel_rule
        (fun cur m' scans halt h => ⟨hext lp cur m' scans halt h.1, h.2⟩) hround
        m.scans _ m ⟨h, le_rfl⟩ hm
      generalize matchLevel now e takerId lp m.scans _ m = r at hI hle hend ⊢
      by_cases hh : r.halt = .none
      · rw [if_pos hh]
        by_cases hr' : r.remaining = 0
        · rw [matchLevels_stop _ _ _ _ (.inl hr')]
          exact .filled lp cur' hI hh hr'
        · have hcur : cur' = 0 := by
            cases hend with
            | done _ hc => exact hc.resolve_right hr'
            | capped hcap => rw [hh] at hcap; cases hcap
            | stopped hst => rw [hh] at hst; cases hst
          subst hcur
          by_cases hx : ∀ x l, r.book.nextOpposite e.isBuy lp = some (x, l) → ¬ reaches e x
          · rw [matchLevels_stop _ _ _ _ (.inr hx)]
            exact .swept lp hI hh hx
          · push Not at hx
            obtain ⟨x, l', hn, hx⟩ := hx
            rw [hn]
            refine ih 0 x l' r ?_ hh ?_ hx
            · simpa using hnext lp r x l' hI hr' hn hx
            · rw [nextOpposite_eq] at hn
              have hb : levelsBehind e x r < levelsBehind e lp r := Dict.behind_after hn
              omega
      · rw [if_neg hh]
        exact .halted lp cur' hI hh hend

end Loops

theorem unit_mono {p q : ℕ} (h : p ≤ q) : unit p ≤ unit q :=
  Nat.add_le_add h (Nat.div_le_div_right (Nat.mul_le_mul_right _ h))

theorem le_unit (p : ℕ) : p ≤ unit p := Nat.le_add_right _ _

theorem bondAt_mono (flags : UInt8) {p q : ℕ} (h : p ≤ q) : bondAt flags p ≤ bondAt flags q := by
  unfold bondAt
  split_ifs
  · exact Nat.mul_le_mul_left 2 h
  · exact le_rfl

theorem has_dealFlags (flags : UInt8) :
    has (flags &&& DEAL_FLAGS_MASK) FLAG_SUBSCRIPTION = has flags FLAG_SUBSCRIPTION := by
  unfold has
  rw [UInt8.and_assoc]
  rfl

theorem bondAt_dealFlags (flags : UInt8) (p : ℕ) :
    bondAt (flags &&& DEAL_FLAGS_MASK) p = bondAt flags p := by
  unfold bondAt
  rw [has_dealFlags]

theorem toUint128_of_lt {n : ℕ} (h : n < 2 ^ 128) : toUint128 n = n := Nat.mod_eq_of_lt h

/-- What holds of a resting order: an ask is worth a deal, a bid is paid for up to its limit, and
for whole weeks on a subscription. -/
structure Order.Covered (o : Order) : Prop where
  priced : 0 < o.price
  aon : has o.flags FLAG_SUBSCRIPTION = true → has o.flags FLAG_AON = true
  ask : o.isBuy = false → 2 ≤ o.amount ∧ o.escrow = 0
  bid : o.isBuy = true →
    o.amount * unit o.price + bondAt o.flags o.price ≤ o.escrow ∧ o.escrow < 2 ^ 128
  weeks : o.isBuy = true → has o.flags FLAG_SUBSCRIPTION = true → SUB_WEEKS ∣ o.amount

/-- What holds of a taker between two fills. -/
structure Backed (e : QueueEntry) (remaining leftover : ℕ) : Prop where
  priced : 0 < e.price
  aon : has e.flags FLAG_SUBSCRIPTION = true → has e.flags FLAG_AON = true
  limit : has e.flags FLAG_SUBSCRIPTION = true ∨ e.isBuy = false → has e.flags FLAG_MARKET = false
  ask : e.isBuy = false → remaining = 0 ∨ 2 ≤ remaining
  bounded : e.isBuy = true → leftover < 2 ^ 128
  bid : e.isBuy = true → has e.flags FLAG_MARKET = false → remaining ≠ 0 →
    remaining * unit e.price + bondAt e.flags e.price ≤ leftover
  weeks : e.isBuy = true → has e.flags FLAG_SUBSCRIPTION = true → SUB_WEEKS ∣ remaining

/-- A fill whose arithmetic is exact: the casts of its cost, bond and notional lose nothing, the
budget covers the debit, no subtraction underflows, a resting bid is never short of escrow, and a
subscription is of whole weeks. -/
structure Fill.Exact (f : Fill) : Prop where
  two_le : 2 ≤ f.trade
  remaining : f.trade ≤ f.remaining
  amount : f.trade ≤ f.maker.amount
  debit : f.debit = f.trade * unit f.clearing + bondAt f.dealFlags f.clearing
  budget : f.debit ≤ f.budget
  bounded : f.budget < 2 ^ 128
  notional : f.trade * f.clearing < 2 ^ 128
  bid : f.takerIsBuy = false →
    f.budget = f.maker.escrow ∧ f.trade = min f.remaining f.maker.amount
  weeks : has f.dealFlags FLAG_SUBSCRIPTION = true → SUB_WEEKS ∣ f.trade

/-- What the current transaction has settled is exact, and what it has swept as dust are bids of
less than two ticks. -/
structure Clean (s : InferenceOrderBook) : Prop where
  fills : ∀ f ∈ s.fills, f.Exact
  dust : ∀ o ∈ s.dust, o.isBuy = true ∧ o.amount < 2

theorem Clean.quiet {s t : InferenceOrderBook} (h : Clean s) (q : Quiet s t) : Clean t :=
  ⟨q.fills ▸ h.fills, q.dust ▸ h.dust⟩

section Trade

variable {now lp remaining leftover trade : ℕ} {e : QueueEntry} {mk : Order}

theorem verdict_fill (h : verdict now e mk lp remaining leftover = .fill trade) :
    dealCompatible e.isBuy e.flags mk.flags = true ∧ isExpired now mk.deadline = false ∧
      trade = tradeSize e mk lp remaining leftover ∧
      breaksAon e.flags mk trade remaining = false ∧ 2 ≤ trade := by
  unfold verdict at h
  dsimp only at h
  split_ifs at h with h1 h2 h3 h4
  cases h
  exact ⟨by simpa using h1, by simpa using h2, rfl, by simpa using h3, not_lt.mp h4⟩

theorem verdict_dust (h : verdict now e mk lp remaining leftover = .dust) :
    e.isBuy = false ∧ tradeSize e mk lp remaining leftover < 2 := by
  unfold verdict at h
  dsimp only at h
  split_ifs at h with h1 h2 h3 h4 h5
  exact ⟨by simpa using h5, h4⟩

theorem tradeSize_le : tradeSize e mk lp remaining leftover ≤ remaining ∧
    tradeSize e mk lp remaining leftover ≤ mk.amount := by
  unfold tradeSize
  dsimp only
  split_ifs <;> omega

theorem affordable_cost {budget price t : ℕ} (hb : budget < 2 ^ 128) (hp : 0 < price) :
    affordable budget price t * unit price ≤ budget := by
  have hu : 0 < unit price := hp.trans_le (le_unit price)
  rw [affordable, if_pos hu, toUint128_of_lt ((Nat.div_le_self _ _).trans_lt hb)]
  exact Nat.div_mul_le_self _ _

theorem le_affordable {budget price t t' : ℕ} (hb : budget < 2 ^ 128) (hp : 0 < price)
    (h : t * unit price ≤ budget) : t ≤ affordable budget price t' := by
  have hu : 0 < unit price := hp.trans_le (le_unit price)
  rw [affordable, if_pos hu, toUint128_of_lt ((Nat.div_le_self _ _).trans_lt hb)]
  exact (Nat.le_div_iff_mul_le hu).mpr h

theorem tradeSize_cost (remaining : ℕ) (hb : budgetOf e mk leftover < 2 ^ 128) (hp : 0 < clearingOf e lp) :
    tradeSize e mk lp remaining leftover * unit (clearingOf e lp) ≤ budgetOf e mk leftover := by
  unfold tradeSize
  dsimp only
  split_ifs with h1 h2 h2
  · exact affordable_cost hb hp
  · exact (Nat.mul_le_mul_right _ (not_lt.mp h2)).trans (affordable_cost hb hp)
  · exact affordable_cost hb hp
  · exact (Nat.mul_le_mul_right _ (not_lt.mp h2)).trans (affordable_cost hb hp)

theorem tradeSize_bid (hk : mk.Covered) (hmk : mk.isBuy = true) (he : e.isBuy = false)
    (hp : 0 < e.price) (hlp : e.price ≤ mk.price) :
    tradeSize e mk lp remaining leftover = min remaining mk.amount := by
  obtain ⟨h1, h2⟩ := hk.bid hmk
  have hcost (t : ℕ) (ht : t ≤ mk.amount) : t * unit e.price ≤ mk.escrow :=
    ((Nat.mul_le_mul ht (unit_mono hlp)).trans (Nat.le_add_right _ _)).trans h1
  unfold tradeSize
  simp only [budgetOf, clearingOf, he, Bool.false_eq_true, if_false]
  split_ifs with h3 h4 h4
  · exact absurd (le_affordable h2 hp (hcost _ h3.le)) (not_le.mpr h4)
  · exact (min_eq_left h3.le).symm
  · exact absurd (le_affordable h2 hp (hcost _ le_rfl)) (not_le.mpr h4)
  · exact (min_eq_right (not_lt.mp h3)).symm

/-- Flags of the buyer in a trade of the taker with `mk`. -/
def buyFlagsOf (e : QueueEntry) (mk : Order) : UInt8 := if e.isBuy then e.flags else mk.flags

/-- A fill: the backed taker meets a covered maker of a level it reaches. -/
structure Meets (now : ℕ) (e : QueueEntry) (mk : Order) (lp remaining leftover trade : ℕ) :
    Prop where
  covered : mk.Covered
  side : mk.isBuy = !e.isBuy
  level : mk.price = lp
  reaches : reaches e lp
  backed : Backed e remaining leftover
  unfilled : remaining ≠ 0
  verdict : verdict now e mk lp remaining leftover = .fill trade

namespace Meets

variable (h : Meets now e mk lp remaining leftover trade)

include h

theorem size : trade = tradeSize e mk lp remaining leftover ∧ trade ≤ remaining ∧
    trade ≤ mk.amount ∧ 2 ≤ trade := by
  obtain ⟨-, -, ht, -, h2⟩ := verdict_fill h.verdict
  have hle : tradeSize e mk lp remaining leftover ≤ remaining ∧ _ := tradeSize_le
  rw [← ht] at hle
  exact ⟨ht, hle.1, hle.2, h2⟩

theorem whole : (has e.flags FLAG_AON = true → trade = remaining) ∧
    (has mk.flags FLAG_AON = true → trade = mk.amount) := by
  obtain ⟨-, h1, h2, -⟩ := h.size
  obtain ⟨-, -, -, hA, -⟩ := verdict_fill h.verdict
  simp only [breaksAon, Bool.or_eq_false_iff, Bool.and_eq_false_imp, decide_eq_false_iff_not,
    not_lt] at hA
  exact ⟨fun ha => le_antisymm h1 (hA.1 ha), fun ha => le_antisymm h2 (hA.2 ha)⟩

theorem within (hm : has e.flags FLAG_MARKET = false) :
    if e.isBuy then lp ≤ e.price else e.price ≤ lp := by
  have hr := h.reaches
  unfold InferenceOrderBook.reaches crosses at hr
  rw [hm] at hr
  cases he : e.isBuy <;> simpa [he] using hr

theorem clearing_pos : 0 < clearingOf e lp := by
  unfold clearingOf
  split_ifs
  · exact h.level ▸ h.covered.priced
  · exact h.backed.priced

theorem budget_lt : budgetOf e mk leftover < 2 ^ 128 := by
  unfold budgetOf
  split_ifs with he
  · exact h.backed.bounded he
  · rw [Bool.not_eq_true] at he
    exact (h.covered.bid (by rw [h.side, he]; rfl)).2

theorem cost_le : trade * unit (clearingOf e lp) +
    bondAt (buyFlagsOf e mk) (clearingOf e lp) ≤ budgetOf e mk leftover := by
  obtain ⟨ht, h1, h2, -⟩ := h.size
  cases he : e.isBuy with
  | true =>
    have hcost := tradeSize_cost remaining h.budget_lt h.clearing_pos
    rw [← ht] at hcost
    simp only [clearingOf, budgetOf, buyFlagsOf, he, if_true] at hcost ⊢
    by_cases hs : has e.flags FLAG_SUBSCRIPTION = true
    · have hm := h.backed.limit (.inl hs)
      have hle := h.within hm
      simp only [he, if_true] at hle
      have hb := h.backed.bid he hm h.unfilled
      have hu : trade * unit lp ≤ remaining * unit e.price := Nat.mul_le_mul h1 (unit_mono hle)
      have hbond := bondAt_mono e.flags hle
      omega
    · rw [bondAt, if_neg hs]
      exact hcost
  | false =>
    have hle := h.within (h.backed.limit (.inr he))
    simp only [he, Bool.false_eq_true, if_false] at hle
    have hb := (h.covered.bid (by rw [h.side, he]; rfl)).1
    rw [h.level] at hb
    simp only [clearingOf, budgetOf, buyFlagsOf, he, Bool.false_eq_true, if_false]
    have hu : trade * unit e.price ≤ mk.amount * unit lp := Nat.mul_le_mul h2 (unit_mono hle)
    have hbond := bondAt_mono mk.flags hle
    omega

theorem debit_eq : toUint128 (trade * unit (clearingOf e lp)) +
    (if has (buyFlagsOf e mk &&& DEAL_FLAGS_MASK) FLAG_SUBSCRIPTION = true then
      toUint128 (2 * clearingOf e lp) else 0) =
    trade * unit (clearingOf e lp) + bondAt (buyFlagsOf e mk) (clearingOf e lp) := by
  have hc := h.cost_le
  have hlt := h.budget_lt
  rw [has_dealFlags, toUint128_of_lt (by omega)]
  unfold bondAt at hc ⊢
  split_ifs at hc ⊢
  · rw [toUint128_of_lt (by omega)]
  · rfl

/-- A subscription is all-or-none, and its buyer's amount is of whole weeks. -/
theorem weeks (hs : has (buyFlagsOf e mk) FLAG_SUBSCRIPTION = true) : SUB_WEEKS ∣ trade := by
  cases he : e.isBuy with
  | true =>
    simp only [buyFlagsOf, he, if_true] at hs
    rw [h.whole.1 (h.backed.aon hs)]
    exact h.backed.weeks he hs
  | false =>
    simp only [buyFlagsOf, he, Bool.false_eq_true, if_false] at hs
    rw [h.whole.2 (h.covered.aon hs)]
    exact h.covered.weeks (by rw [h.side, he]; rfl) hs

theorem exact (makerId : ℕ) : Fill.Exact ⟨makerId, mk, e.isBuy, remaining,
    budgetOf e mk leftover, trade, clearingOf e lp,
    trade * unit (clearingOf e lp) + bondAt (buyFlagsOf e mk) (clearingOf e lp),
    buyFlagsOf e mk &&& DEAL_FLAGS_MASK⟩ := by
  obtain ⟨ht, h1, h2, h3⟩ := h.size
  have hc := h.cost_le
  have hlt := h.budget_lt
  refine ⟨h3, h1, h2, by rw [bondAt_dealFlags], hc, hlt, ?_, fun he => ⟨?_, ?_⟩,
    fun hs => h.weeks (by rwa [has_dealFlags] at hs)⟩
  · have : trade * clearingOf e lp ≤ trade * unit (clearingOf e lp) :=
      Nat.mul_le_mul_left _ (le_unit _)
    exact (this.trans (Nat.le_add_right _ _)).trans_lt (hc.trans_lt hlt)
  · simp only at he
    rw [budgetOf, he]
    rfl
  · simp only at he
    have hle := h.within (h.backed.limit (.inr he))
    simp only [he, Bool.false_eq_true, if_false] at hle
    rw [ht]
    exact tradeSize_bid h.covered (by rw [h.side, he]; rfl) he h.backed.priced (h.level ▸ hle)

theorem taker_after : Backed e (if e.isBuy then remaining - trade else 0)
    (if e.isBuy then leftover - (trade * unit (clearingOf e lp) +
      bondAt (buyFlagsOf e mk) (clearingOf e lp)) else leftover) := by
  obtain ⟨-, h1, -, -⟩ := h.size
  refine ⟨h.backed.priced, h.backed.aon, h.backed.limit, fun he => .inl (by simp [he]),
    fun he => ?_, fun he hm hne => ?_, fun he hs => ?_⟩
  · rw [if_pos he]
    exact (Nat.sub_le _ _).trans_lt (h.backed.bounded he)
  · simp only [he, if_true, clearingOf, buyFlagsOf] at hne ⊢
    have hb := h.backed.bid he hm h.unfilled
    have hle := h.within hm
    simp only [he, if_true] at hle
    -- a subscription is all-or-none, and then nothing remains
    have hs : has e.flags FLAG_SUBSCRIPTION = false := by
      by_contra hs
      rw [Bool.not_eq_false] at hs
      exact hne (Nat.sub_eq_zero_of_le (h.whole.1 (h.backed.aon hs)).ge)
    simp only [bondAt, hs, Bool.false_eq_true, if_false, Nat.add_zero] at hb ⊢
    rw [Nat.sub_mul]
    have hu : trade * unit lp ≤ trade * unit e.price := Nat.mul_le_mul_left _ (unit_mono hle)
    omega
  · rw [if_pos he, h.whole.1 (h.backed.aon hs), Nat.sub_self]
    exact dvd_zero _

theorem maker_after (he : e.isBuy = false) (hne : mk.amount ≠ trade) (accum : ℕ) :
    Order.Covered { mk with
      filledAccum := accum
      amount := mk.amount - trade
      escrow := mk.escrow - (trade * unit (clearingOf e lp) +
        bondAt (buyFlagsOf e mk) (clearingOf e lp)) } := by
  obtain ⟨-, -, h2, -⟩ := h.size
  have hmk : mk.isBuy = true := by rw [h.side, he]; rfl
  obtain ⟨hb, hlt⟩ := h.covered.bid hmk
  have hs : has mk.flags FLAG_SUBSCRIPTION = false := by
    by_contra hs
    rw [Bool.not_eq_false] at hs
    exact hne (h.whole.2 (h.covered.aon hs)).symm
  refine ⟨h.covered.priced, h.covered.aon, fun hf => ?_, fun _ => ⟨?_, ?_⟩, fun _ h' => ?_⟩
  · rw [show mk.isBuy = false from hf] at hmk
    cases hmk
  · have hle := h.within (h.backed.limit (.inr he))
    simp only [he, Bool.false_eq_true, if_false] at hle
    simp only [bondAt, hs, Bool.false_eq_true, if_false, Nat.add_zero, clearingOf, buyFlagsOf,
      he] at hb ⊢
    rw [Nat.sub_mul]
    have hu : trade * unit e.price ≤ trade * unit mk.price :=
      Nat.mul_le_mul_left _ (unit_mono (h.level ▸ hle))
    omega
  · exact (Nat.sub_le _ _).trans_lt hlt
  · exact absurd (hs.symm.trans h') Bool.false_ne_true

end Meets

end Trade

end Dexdo.InferenceOrderBook
