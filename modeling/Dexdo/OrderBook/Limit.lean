import Dexdo.OrderBook.Priority

namespace Dexdo.OrderBook

/-- Every ask the quote pays for in a pass costs at least one unit, and at the first one it does
not pay in full nothing is left or the ladder is out of reach before the match cap. -/
def Steady : (left quote : ℕ) → List Maker → Prop
  | _, _, [] => True
  | 0, _, _ => True
  | left + 1, quote, m :: ms =>
    if m.amount ≤ affordBase quote m then
      0 < notionalOf m.amount m.price ∧ Steady left (quote - notionalOf m.amount m.price) ms
    else affordBase quote m = 0 ∨ 0 < notionalOf (affordBase quote m) m.price ∧
      (quote - notionalOf (affordBase quote m) m.price = 0 ∨ ∀ m' ∈ ms.head?, left ≠ 0 ∧
        affordBase (quote - notionalOf (affordBase quote m) m.price) m' = 0)

instance decidableSteady : (left quote : ℕ) → (ms : List Maker) → Decidable (Steady left quote ms)
  | 0, _, [] => .isTrue trivial
  | _ + 1, _, [] => .isTrue trivial
  | 0, _, _ :: _ => .isTrue trivial
  | left + 1, quote, m :: ms =>
    have := decidableSteady left (quote - notionalOf m.amount m.price) ms
    inferInstanceAs (Decidable (if m.amount ≤ affordBase quote m then _ else _ ∨ _ ∧ (_ ∨ _)))

variable {p : PlaceParams}

/-- In a steady walk every fill costs something, and a capped one takes every maker whole. -/
theorem walk_steady {left remaining : ℕ} {ms : List Maker} (hpos : ∀ m ∈ ms, 0 < m.amount)
    (h : p.isBuy ∧ p.isMarket → Steady left remaining ms) :
    (p.isBuy ∧ p.isMarket → ∀ f ∈ (walk p left remaining ms).fills,
      0 < notionalOf f.trade f.maker.price) ∧
    ((walk p left remaining ms).halt = .hitCapWithMore →
      ∀ f ∈ (walk p left remaining ms).fills, f.trade = f.maker.amount) := by
  induction ms generalizing left remaining with
  | nil => simp
  | cons m ms ih =>
    by_cases h0 : remaining = 0
    · simp [h0]
    cases left with
    | zero => simp [walk_cap _ _ _ _ h0]
    | succ left =>
      have hpos' : ∀ m' ∈ ms, 0 < m'.amount := fun m' hm' => hpos m' (by simp [hm'])
      rw [walk_succ _ _ _ _ _ h0]
      dsimp only
      split_ifs with hd
      · simp
      by_cases hfull : tradeSize p remaining m.amount m.price = m.amount
      · have hst : p.isBuy ∧ p.isMarket → 0 < notionalOf m.amount m.price ∧ Steady left
            (remaining - takerSpent p (tradeSize p remaining m.amount m.price) m.price) ms := by
          intro hp
          have hle : m.amount ≤ affordBase remaining m := by
            rw [tradeSize_market hp] at hfull
            split_ifs at hfull <;> omega
          have := h hp
          rw [Steady, if_pos hle] at this
          rwa [takerSpent_market hp, hfull]
        obtain ⟨ih1, ih2⟩ := ih hpos' fun hp => (hst hp).2
        refine ⟨fun hp f hf => ?_, fun hc f hf => ?_⟩
        · rcases List.mem_cons.mp hf with rfl | hf
          · rw [hfull]
            exact (hst hp).1
          · exact ih1 hp f hf
        · rcases List.mem_cons.mp hf with rfl | hf
          · exact hfull
          · exact ih2 hc f hf
      · -- the maker is not taken whole: the walk ends here, and not at the cap
        have hend : (walk p left
              (remaining - takerSpent p (tradeSize p remaining m.amount m.price) m.price)
              ms).fills = [] ∧
            (walk p left
              (remaining - takerSpent p (tradeSize p remaining m.amount m.price) m.price)
              ms).halt ≠ .hitCapWithMore ∧
            (p.isBuy ∧ p.isMarket →
              0 < notionalOf (tradeSize p remaining m.amount m.price) m.price) := by
          by_cases hp : p.isBuy ∧ p.isMarket
          · have hle : ¬ m.amount ≤ affordBase remaining m := fun hle =>
              hfull (by rw [tradeSize_market hp, if_pos hle])
            have htr : tradeSize p remaining m.amount m.price = affordBase remaining m := by
              rw [tradeSize_market hp, if_neg hle]
            have hne : affordBase remaining m ≠ 0 := fun ha => hd ⟨hp, htr.trans ha⟩
            have hst := h hp
            rw [Steady, if_neg hle] at hst
            obtain ⟨hcost, hst⟩ := hst.resolve_left hne
            rw [takerSpent_market hp, htr]
            rcases hst with hz | hst
            · rw [hz]
              simpa using fun _ _ => hcost
            · cases left with
              | zero =>
                cases ms with
                | nil => simpa using fun _ _ => hcost
                | cons m' => exact absurd rfl (hst m' rfl).1
              | succ left =>
                obtain ⟨g1, g2⟩ := walk_unaffordable hp left _ hpos' fun m' hm' => (hst m' hm').2
                exact ⟨g1, g2, fun _ => hcost⟩
          · rw [limit_partly_spent hp hfull]
            simpa using fun h1 h2 => absurd ⟨h1, h2⟩ hp
        rw [hend.1]
        refine ⟨fun hp f hf => ?_, fun hc => absurd hc hend.2.1⟩
        rw [List.mem_singleton.mp hf]
        exact hend.2.2 hp

variable {s t u : OrderBook} {e : QueueEntry} {A : Book.Index}

/-- Resting orders opposite to the entry at the head of a matching pass. -/
def facing (b : Book) (n : ℕ) (k : LevelKey) : ℕ :=
  ((Finset.range n).filter fun i => b.Stored i ∧ (b.order i).key = k).card

def facingAt (u : OrderBook) : ℕ :=
  match u.matchingEntry with
  | some e => facing u.toBook u.nextOrderId e.params.oppKey
  | none => 0

/-- A market buy of the pass spends on every fill and stops at the first ask it cannot pay. -/
def SteadyPass (u : OrderBook) (e : QueueEntry) : Prop :=
  e.params.isBuy ∧ e.params.isMarket →
    Steady MAX_MATCHES_PER_CALL e.params.amount (u.crossingMakers e.params)

/-- Fills that take their makers whole remove as many orders. -/
theorem removed_by_fills {b c : Book} {n n' outcomeId : ℕ} {fills : List Fill} (r : b.Rep n A)
    (hok : b.FillsOk outcomeId fills) (hC : b.Consumed c fills) (hn : n ≤ n')
    (hfull : ∀ f ∈ fills, f.trade = f.maker.amount) (K : LevelKey → Prop) [DecidablePred K]
    (hK : ∀ f ∈ fills, K (b.order f.maker.id).key) :
    ((Finset.range n').filter fun i => c.Stored i ∧ K (c.order i).key).card + fills.length =
      ((Finset.range n).filter fun i => b.Stored i ∧ K (b.order i).key).card := by
  set F := (fills.map fun f => f.maker.id).toFinset with hF
  have hmem (i : ℕ) : i ∈ F ↔ ∃ f ∈ fills, f.maker.id = i := by simp [hF]
  have hsub : F ⊆ (Finset.range n).filter fun i => b.Stored i ∧ K (b.order i).key := by
    intro i hi
    obtain ⟨f, hf, rfl⟩ := (hmem i).mp hi
    have hs := (hok.stored f hf).1
    rw [Finset.mem_filter, Finset.mem_range]
    exact ⟨(r.bound _ hs).2.1, hs, hK f hf⟩
  have heq : (Finset.range n').filter (fun i => c.Stored i ∧ K (c.order i).key) =
      ((Finset.range n).filter fun i => b.Stored i ∧ K (b.order i).key) \ F := by
    ext i
    rw [Finset.mem_sdiff, Finset.mem_filter, Finset.mem_filter, Finset.mem_range, Finset.mem_range,
      hmem]
    constructor
    · rintro ⟨-, hs, hk⟩
      obtain ⟨hbs, hnot⟩ := (hC.stored i).mp hs
      have hkey : (c.order i).key = (b.order i).key := (hC.key_price hok i hs).1
      refine ⟨⟨(r.bound i hbs).2.1, hbs, hkey ▸ hk⟩, ?_⟩
      rintro ⟨f, hf, hfi⟩
      exact hnot f hf ⟨hfi, hfull f hf⟩
    · rintro ⟨⟨hi, hbs, hk⟩, hnot⟩
      have hs : c.Stored i := (hC.stored i).mpr ⟨hbs, fun f hf hfi => hnot ⟨f, hf, hfi.1⟩⟩
      have hkey : (c.order i).key = (b.order i).key := (hC.key_price hok i hs).1
      exact ⟨hi.trans_le hn, hs, hkey.symm ▸ hk⟩
  have hcard : F.card = fills.length := by
    rw [hF, List.toFinset_card_of_nodup hok.nodup, List.length_map]
  rw [heq, ← hcard]
  exact Finset.card_sdiff_add_card_eq_card hsub

/-- Bounded matching over the match passes of one placement: a capped pass removes as many orders
as it may match, every fill of a market buy spends, and the passes are few. -/
def Bounded (us : List OrderBook) : Prop :=
  (∀ u ∈ us, ∃ e, u.matchingEntry = some e ∧
    (u.openOrder e).1.matchOrder e (u.openOrder e).2 = u.passMatch e ∧
    ((u.passMatch e).halt = .hitCapWithMore →
      u.processHeadCore.orderCount + MAX_MATCHES_PER_CALL = u.orderCount) ∧
    (e.params.isBuy ∧ e.params.isMarket → ∀ f ∈ u.passFills,
      f.remaining - takerSpent e.params f.trade f.maker.price < f.remaining)) ∧
  ∀ u ∈ us.head?, us.length ≤ u.facingAt / MAX_MATCHES_PER_CALL + 1

/-- Orders the passes of a placement have removed so far. -/
def RemovedAll (us : List OrderBook) (b : Book) (n : ℕ) (p : PlaceParams) : Prop :=
  ∀ u ∈ us.head?, MAX_MATCHES_PER_CALL * us.length + facing b n p.oppKey = u.facingAt

theorem capped_removes (hu : u.Ok) (hm : u.matchingEntry = some e)
    (hc : (u.passWalk e.params).halt = .hitCapWithMore)
    (hfull : ∀ f ∈ (u.passWalk e.params).fills, f.trade = f.maker.amount) :
    u.processHeadCore.orderCount + MAX_MATCHES_PER_CALL = u.orderCount ∧
      facing u.processHeadCore.toBook u.processHeadCore.nextOrderId e.params.oppKey +
        MAX_MATCHES_PER_CALL = facing u.toBook u.nextOrderId e.params.oppKey := by
  obtain ⟨A, r⟩ := hu.book.rep
  obtain ⟨A', r'⟩ := (processHeadCore_spec hu).1.book.rep
  obtain ⟨-, hb, hn⟩ := capped_pass hu hm hc
  obtain ⟨hok, -, hC⟩ := passWalk_consumed hu.book e.params
  rw [← hb] at hC
  have hlen : (u.passWalk e.params).fills.length = MAX_MATCHES_PER_CALL :=
    walk_capped_length _ _ _ _ hc
  have hkey : ∀ f ∈ (u.passWalk e.params).fills, (u.order f.maker.id).key = e.params.oppKey := by
    intro f hf
    have hmem : f.maker ∈ u.crossingMakers e.params :=
      (walk_makers_initial _ _ _ _).subset (List.mem_map_of_mem hf)
    exact ((mem_crossingMakers r _).mp hmem).1.2.1
  constructor
  · have := removed_by_fills r hok hC hn hfull (fun _ => True) fun _ _ => trivial
    simp only [and_true] at this
    rw [r.count, r'.count, ← hlen]
    exact this
  · have := removed_by_fills r hok hC hn hfull (fun k => k = e.params.oppKey) hkey
    rw [← hlen]
    exact this

theorem Bounded.step {us : List OrderBook} (hu : u.Ok) (hm : u.matchingEntry = some e)
    (hd : SteadyPass u e) (h : Bounded us)
    (hj : us ≠ [] → RemovedAll us u.toBook u.nextOrderId e.params) :
    Bounded (us ++ [u]) ∧ ((u.passWalk e.params).halt = .hitCapWithMore →
      RemovedAll (us ++ [u]) u.processHeadCore.toBook u.processHeadCore.nextOrderId
        { e.params with amount := (u.passWalk e.params).remaining }) := by
  obtain ⟨hcost, hfull⟩ := walk_steady (crossingMakers_pos hu.book) hd
  have hat : u.facingAt = facing u.toBook u.nextOrderId e.params.oppKey := by rw [facingAt, hm]
  have hpos : 0 < MAX_MATCHES_PER_CALL := by decide
  refine ⟨⟨fun v hv => ?_, fun v hv => ?_⟩, fun hc v hv => ?_⟩
  · rcases List.mem_append.mp hv with hv | hv
    · exact h.1 v hv
    · rw [List.mem_singleton.mp hv]
      refine ⟨e, hm, matchOrder_passMatch hu.book e,
        fun hc => (capped_removes hu hm hc (hfull hc)).1, fun hp f hf => ?_⟩
      rw [passFills_eq hm] at hf
      have h1 := hcost hp f hf
      have h2 := takerSpent_le e.params f.remaining f.maker.amount f.maker.price
      rw [← walk_trade _ _ _ _ f hf] at h2
      rw [takerSpent_market hp] at h2 ⊢
      omega
  · cases us with
    | nil => simp
    | cons w us =>
      obtain rfl : w = v := by simpa using hv
      have hrem := hj (by simp) w rfl
      rw [List.length_append, List.length_singleton]
      have : (w :: us).length ≤ w.facingAt / MAX_MATCHES_PER_CALL := by
        rw [Nat.le_div_iff_mul_le hpos, Nat.mul_comm]
        omega
      omega
  · have hrem := (capped_removes hu hm hc (hfull hc)).2
    change _ + facing u.processHeadCore.toBook u.processHeadCore.nextOrderId e.params.oppKey = _
    rw [List.length_append, List.length_singleton, Nat.mul_add, Nat.mul_one]
    cases us with
    | nil =>
      obtain rfl : u = v := by simpa using hv
      rw [hat, List.length_nil]
      omega
    | cons w us =>
      obtain rfl : w = v := by simpa using hv
      have hprev := hj (by simp) w rfl
      omega

/-- Bounded matching: a placement whose market buys are steady matches in at most one pass more
than its opposite orders fill, and each capped pass removes its share of them. -/
theorem placement_passes_bounded {market : MarketId} {resultStart numOutcomes : ℕ}
    {tr : List (Call × OrderBook)}
    (h : Run step (OrderBook.init market resultStart numOutcomes) tr s) (k : ℕ)
    (hd : ∀ u ∈ passStates k (OrderBook.init market resultStart numOutcomes) tr,
      ∀ e, u.matchingEntry = some e → SteadyPass u e) :
    Bounded (passStates k (OrderBook.init market resultStart numOutcomes) tr) :=
  passes_induction h SteadyPass Bounded RemovedAll ⟨by simp, by simp⟩
    (fun _ _ _ hu hm hd hI hj => hI.step hu hm hd hj) k hd

/-- The last fill of the dust run leaves the quote as it was. -/
theorem dust_breaks_bound :
    Run step sampleBook (Run.trace step sampleBook dustCalls)
      (Run.last sampleBook (Run.trace step sampleBook dustCalls)) ∧
    ¬ Bounded (passStates 2 sampleBook (Run.trace step sampleBook dustCalls)) := by
  refine ⟨Run.trace_run .., fun h => ?_⟩
  have hbuy : ((passStates 2 sampleBook (Run.trace step sampleBook dustCalls)).map fun u =>
      (u.passFills, u.matchingEntry.map QueueEntry.params)) =
      [([⟨⟨1, 3000, 3340000⟩, 1000001, 3333336⟩, ⟨⟨2, 3000, 3340000⟩, 1, 3⟩], some dustBuy)] := by
    decide +kernel
  obtain ⟨u, hu, hf⟩ := List.map_eq_singleton_iff.mp hbuy
  rw [Prod.mk.injEq, Option.map_eq_some_iff] at hf
  obtain ⟨hfills, e, he, hp⟩ := hf
  obtain ⟨e', he', -, -, hspend⟩ := h.1 u (by rw [hu]; simp)
  obtain rfl : e = e' := Option.some.inj (he.symm.trans he')
  rw [hp, hfills] at hspend
  have := hspend (by decide) ⟨⟨2, 3000, 3340000⟩, 1, 3⟩ (by simp)
  exact absurd this (by decide)

theorem exactBuy_bounded :
    (passStates 1 sampleBook (Run.trace step sampleBook exactCalls)).length = 1 ∧
    Bounded (passStates 1 sampleBook (Run.trace step sampleBook exactCalls)) := by
  obtain ⟨u, e, hu, he, hp, hms⟩ := exact_passes
  refine ⟨by rw [hu]; rfl, placement_passes_bounded (Run.trace_run ..) 1 fun v hv e' he' _ => ?_⟩
  rw [show OrderBook.init sampleMarket 100 2 = sampleBook from rfl, hu] at hv
  obtain rfl := List.mem_singleton.mp hv
  obtain rfl : e = e' := Option.some.inj (he.symm.trans he')
  rw [hp, hms]
  decide

variable {p : PlaceParams} {left remaining : ℕ} {ms : List Maker}

theorem tradeSize_limit (hp : ¬ (p.isBuy ∧ p.isMarket)) (remaining a q : ℕ) :
    tradeSize p remaining a q = min remaining a := by
  rw [tradeSize, if_neg hp]
  split_ifs <;> omega

theorem takerSpent_limit (hp : ¬ (p.isBuy ∧ p.isMarket)) (trade q : ℕ) :
    takerSpent p trade q = trade := by rw [takerSpent, if_neg hp]

theorem walk_limit_succ (hp : ¬ (p.isBuy ∧ p.isMarket)) (left : ℕ) (h : remaining ≠ 0) (m : Maker)
    (ms : List Maker) : walk p (left + 1) remaining (m :: ms) =
      let trade := min remaining m.amount
      let w := walk p left (remaining - trade) ms
      { w with fills := ⟨m, remaining, trade⟩ :: w.fills } := by
  rw [walk_succ _ _ _ _ _ h, if_neg fun hd => hp hd.1, tradeSize_limit hp]
  dsimp only
  rw [takerSpent_limit hp]

theorem walk_limit_sum (hp : ¬ (p.isBuy ∧ p.isMarket)) (left remaining : ℕ) (ms : List Maker) :
    (walk p left remaining ms).remaining + ((walk p left remaining ms).fills.map Fill.trade).sum =
      remaining := by
  induction ms generalizing left remaining with
  | nil => simp
  | cons m ms ih =>
    by_cases h0 : remaining = 0
    · simp [h0]
    cases left with
    | zero => simp [walk_cap _ _ _ _ h0]
    | succ left =>
      have hrec := ih left (remaining - min remaining m.amount)
      rw [walk_limit_succ hp left h0]
      simp only [List.map_cons, List.sum_cons]
      omega

theorem walk_limit_capped (hp : ¬ (p.isBuy ∧ p.isMarket)) :
    (walk p left remaining ms).halt = .hitCapWithMore ↔
      left < ms.length ∧ ((ms.take left).map Maker.amount).sum < remaining := by
  induction ms generalizing left remaining with
  | nil => simp
  | cons m ms ih =>
    by_cases h0 : remaining = 0
    · simp [h0]
    cases left with
    | zero => simp [walk_cap _ _ _ _ h0, Nat.pos_of_ne_zero h0]
    | succ left =>
      rw [walk_limit_succ hp left h0]
      dsimp only
      rw [ih, List.take_succ_cons, List.map_cons, List.sum_cons, List.length_cons]
      omega

theorem walk_limit_exhausted (hp : ¬ (p.isBuy ∧ p.isMarket))
    (hc : (walk p left remaining ms).halt ≠ .hitCapWithMore)
    (hr : 0 < (walk p left remaining ms).remaining) :
    (walk p left remaining ms).fills.map Fill.maker = ms ∧
      ∀ f ∈ (walk p left remaining ms).fills, f.trade = f.maker.amount := by
  induction ms generalizing left remaining with
  | nil => simp
  | cons m ms ih =>
    by_cases h0 : remaining = 0
    · simp [h0] at hr
    cases left with
    | zero => simp [walk_cap _ _ _ _ h0] at hc
    | succ left =>
      rw [walk_limit_succ hp left h0] at hc hr ⊢
      dsimp only at hc hr ⊢
      obtain ⟨h1, h2⟩ := ih hc hr
      have hle : m.amount ≤ remaining := by
        by_contra hlt
        rw [Nat.min_eq_left (by omega), Nat.sub_self, walk_zero] at hr
        exact absurd hr (lt_irrefl 0)
      refine ⟨?_, ?_⟩
      · rw [List.map_cons, h1]
      · intro f hf
        rcases List.mem_cons.mp hf with rfl | hf
        · exact Nat.min_eq_right hle
        · exact h2 f hf

theorem walk_limit_total (hp : ¬ (p.isBuy ∧ p.isMarket))
    (hc : (walk p left remaining ms).halt ≠ .hitCapWithMore) :
    ((walk p left remaining ms).fills.map Fill.trade).sum =
      min remaining (ms.map Maker.amount).sum := by
  have hsum := walk_limit_sum hp left remaining ms
  by_cases hr : 0 < (walk p left remaining ms).remaining
  · obtain ⟨h1, h2⟩ := walk_limit_exhausted hp hc hr
    have htr : (walk p left remaining ms).fills.map Fill.trade = ms.map Maker.amount := by
      have hmap := congrArg (List.map Maker.amount) h1
      rw [List.map_map] at hmap
      exact (List.map_congr_left h2).trans hmap
    rw [htr] at hsum ⊢
    omega
  · have hle : ((walk p left remaining ms).fills.map Fill.trade).sum ≤
        (ms.map Maker.amount).sum := by
      obtain ⟨rest, hms⟩ := walk_makers_initial p left remaining ms
      calc ((walk p left remaining ms).fills.map Fill.trade).sum
          ≤ ((walk p left remaining ms).fills.map fun f => f.maker.amount).sum := by
            apply List.sum_le_sum
            intro f hf
            rw [walk_trade p left remaining ms f hf]
            exact tradeSize_le ..
        _ ≤ (ms.map Maker.amount).sum := by
            have hmap := congrArg (fun l => (List.map Maker.amount l).sum) hms
            simp only [List.map_append, List.map_map, List.sum_append] at hmap
            exact hmap ▸ Nat.le_add_right _ _
    omega

theorem walk_trade_pos (hpos : ∀ m ∈ ms, 0 < m.amount) :
    ∀ f ∈ (walk p left remaining ms).fills, 0 < f.trade := by
  induction ms generalizing left remaining with
  | nil => simp
  | cons m ms ih =>
    by_cases h0 : remaining = 0
    · simp [h0]
    cases left with
    | zero => simp [walk_cap _ _ _ _ h0]
    | succ =>
      rw [walk_succ _ _ _ _ _ h0]
      split_ifs with hd
      · simp
      · intro f hf
        rcases List.mem_cons.mp hf with rfl | hf
        · exact tradeSize_pos p m.price h0 (hpos m (by simp)) hd
        · exact ih (fun m' hm' => hpos m' (by simp [hm'])) f hf

variable {u : OrderBook} {e : QueueEntry}

/-- More makers cross the order at the head than one pass may match, and those do not fill it. -/
def Exceeds (u : OrderBook) (e : QueueEntry) : Prop :=
  MAX_MATCHES_PER_CALL < (u.crossingMakers e.params).length ∧
    (((u.crossingMakers e.params).take MAX_MATCHES_PER_CALL).map Maker.amount).sum < e.params.amount

instance (u : OrderBook) (e : QueueEntry) : Decidable (u.Exceeds e) :=
  inferInstanceAs (Decidable (_ ∧ _))

/-- The order trades base: its remaining amount and its fills are in one unit. -/
def TradesBase (p : PlaceParams) : Prop := ¬ (p.isBuy ∧ p.isMarket)

theorem passWalk_sum (hp : TradesBase p) :
    (u.passWalk p).remaining + ((u.passWalk p).fills.map Fill.trade).sum = p.amount :=
  walk_limit_sum hp ..

theorem exceeds_iff (hp : ¬ (e.params.isBuy ∧ e.params.isMarket)) :
    (u.passWalk e.params).halt = .hitCapWithMore ↔ u.Exceeds e := walk_limit_capped hp

theorem capped_trades (h : u.BookOk) (hc : (u.passWalk e.params).halt = .hitCapWithMore) :
    0 < ((u.passWalk e.params).fills.map Fill.trade).sum := by
  have hlen : (u.passWalk e.params).fills.length = MAX_MATCHES_PER_CALL :=
    walk_capped_length _ _ _ _ hc
  obtain ⟨f, hf⟩ := List.exists_mem_of_length_pos (show 0 < (u.passWalk e.params).fills.length by
    rw [hlen]
    decide)
  have hpos : 0 < f.trade := walk_trade_pos (crossingMakers_pos h) f hf
  exact hpos.trans_le (List.single_le_sum (by simp) _ (List.mem_map_of_mem hf))

end Dexdo.OrderBook
