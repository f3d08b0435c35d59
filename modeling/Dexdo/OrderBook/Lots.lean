import Dexdo.OrderBook.Record

namespace Dexdo

/-- A whole number of lots at a multiple of the tick. -/
structure OnGrid (lot amount price : ℕ) : Prop where
  lots : lot ∣ amount
  ticks : TICK_SIZE ∣ price

instance (lot amount price : ℕ) : Decidable (OnGrid lot amount price) :=
  decidable_of_iff (lot ∣ amount ∧ TICK_SIZE ∣ price) ⟨fun h => ⟨h.1, h.2⟩, fun h => ⟨h.1, h.2⟩⟩

/-- Every order and every fill that is reported is on the grid. -/
structure LogOnGrid (lot : ℕ) (H : List Action) : Prop where
  placed : ∀ i, ∀ a ∈ announced i H, OnGrid lot a.amount a.price
  filled : ∀ l ∈ legs H, OnGrid lot l.amount l.price

namespace OrderBook

/-- A quote pays for each ask of the ladder in full, or for a whole number of lots of it. -/
def WholeLots (lot : ℕ) : (left quote : ℕ) → List Maker → Prop
  | _, _, [] => True
  | 0, _, _ => True
  | left + 1, quote, m :: ms =>
    if m.amount ≤ affordBase quote m then
      WholeLots lot left (quote - notionalOf m.amount m.price) ms
    else affordBase quote m = 0 ∨ (lot ∣ affordBase quote m ∧
      WholeLots lot left (quote - notionalOf (affordBase quote m) m.price) ms)

instance decidableWholeLots (lot : ℕ) :
    (left quote : ℕ) → (ms : List Maker) → Decidable (WholeLots lot left quote ms)
  | 0, _, [] => .isTrue trivial
  | _ + 1, _, [] => .isTrue trivial
  | 0, _, _ :: _ => .isTrue trivial
  | left + 1, quote, m :: ms =>
    have := decidableWholeLots lot left (quote - notionalOf m.amount m.price) ms
    have := decidableWholeLots lot left (quote - notionalOf (affordBase quote m) m.price) ms
    inferInstanceAs (Decidable (if m.amount ≤ affordBase quote m then _ else _ ∨ (_ ∧ _)))

/-- A market order whose pass comes up is on the grid when it is placed, and a market buy pays
for whole lots. -/
def MarketOnGrid (lot : ℕ) (u : OrderBook) : Prop :=
  ∀ e ∈ u.matchingEntry, e.params.isMarket = true →
    (e.targetOrderId = 0 → OnGrid lot e.params.amount e.params.price) ∧
    (e.params.isBuy = true →
      WholeLots lot MAX_MATCHES_PER_CALL e.params.amount (u.crossingMakers e.params))

instance (lot : ℕ) (u : OrderBook) : Decidable (MarketOnGrid lot u) :=
  inferInstanceAs (Decidable (∀ e ∈ u.matchingEntry, e.params.isMarket = true →
    (e.targetOrderId = 0 → _) ∧ (e.params.isBuy = true → _)))

/-- What a call makes of the market order whose pass it brings up. -/
def MarketCall (s : OrderBook) (c : Call) (_ : OrderBook) : Prop :=
  ∀ u ∈ s.atHead c, u.MarketOnGrid (lotSize s.market.tokenType)

instance (s : OrderBook) (c : Call) (t : OrderBook) : Decidable (MarketCall s c t) :=
  inferInstanceAs (Decidable (∀ u ∈ s.atHead c, u.MarketOnGrid (lotSize s.market.tokenType)))

variable {lot left quote remaining : ℕ} {p : PlaceParams} {ms : List Maker}
  {s t u : OrderBook} {e : QueueEntry} {rest : List QueueEntry} {H as : List Action}

section Walks

theorem WholeLots.zero (lot left : ℕ) (ms : List Maker) : WholeLots lot left 0 ms := by
  induction ms generalizing left with
  | nil => cases left <;> exact trivial
  | cons m ms ih =>
    cases left with
    | zero => exact trivial
    | succ left =>
      rw [WholeLots]
      split_ifs with h
      · rw [Nat.zero_sub]
        exact ih left
      · left
        by_cases hp : 0 < m.price
        · rw [affordBase, if_pos hp, Nat.zero_mul, Nat.zero_div]
        · rw [affordBase, if_neg hp] at h
          exact absurd le_rfl h

/-- The fills of a market buy are whole lots exactly where its quote pays for whole lots. -/
theorem walk_market_lots (hp : p.isBuy ∧ p.isMarket) (left quote : ℕ)
    (h : ∀ m ∈ ms, lot ∣ m.amount ∧ 0 < m.amount) :
    (∀ f ∈ (walk p left quote ms).fills, lot ∣ f.trade) ↔ WholeLots lot left quote ms := by
  induction ms generalizing left quote with
  | nil => cases left <;> simp [WholeLots]
  | cons m ms ih =>
    obtain ⟨⟨hlot, hpos⟩, hrest⟩ := List.forall_mem_cons.mp h
    by_cases h0 : quote = 0
    · subst h0
      rw [walk_zero]
      exact ⟨fun _ => .zero lot left _, fun _ f hf => absurd hf List.not_mem_nil⟩
    cases left with
    | zero =>
      rw [walk_cap _ _ _ _ h0]
      exact ⟨fun _ => trivial, fun _ f hf => absurd hf List.not_mem_nil⟩
    | succ =>
      rw [walk_succ _ _ _ _ _ h0, WholeLots]
      by_cases hfull : m.amount ≤ affordBase quote m
      · have htrade : tradeSize p quote m.amount m.price = m.amount := by
          rw [tradeSize_market hp, if_pos hfull]
        rw [if_pos hfull, if_neg fun hd => hpos.ne' (htrade ▸ hd.2), htrade]
        dsimp only
        rw [takerSpent_market hp, List.forall_mem_cons, ih _ _ hrest]
        exact and_iff_right hlot
      · have htrade : tradeSize p quote m.amount m.price = affordBase quote m := by
          rw [tradeSize_market hp, if_neg hfull]
        rw [if_neg hfull]
        by_cases hdust : affordBase quote m = 0
        · rw [if_pos ⟨hp, htrade.trans hdust⟩]
          exact ⟨fun _ => .inl hdust, fun _ f hf => absurd hf List.not_mem_nil⟩
        · rw [if_neg fun hd => hdust (htrade ▸ hd.2), htrade]
          dsimp only
          rw [takerSpent_market hp, List.forall_mem_cons, ih _ _ hrest]
          exact (or_iff_right hdust).symm

theorem walk_base_lots (hp : TradesBase p) (left : ℕ) (hr : lot ∣ remaining)
    (h : ∀ m ∈ ms, lot ∣ m.amount) : ∀ f ∈ (walk p left remaining ms).fills, lot ∣ f.trade := by
  induction ms generalizing left remaining with
  | nil => simp
  | cons m ms ih =>
    obtain ⟨hlot, hrest⟩ := List.forall_mem_cons.mp h
    by_cases h0 : remaining = 0
    · simp [h0]
    cases left with
    | zero => simp [walk_cap _ _ _ _ h0]
    | succ left =>
      have htrade : lot ∣ min remaining m.amount := by
        rcases le_total remaining m.amount with hm | hm
        · rw [Nat.min_eq_left hm]
          exact hr
        · rw [Nat.min_eq_right hm]
          exact hlot
      rw [walk_limit_succ hp left h0]
      dsimp only
      rw [List.forall_mem_cons]
      exact ⟨htrade, ih left (Nat.dvd_sub hr htrade) hrest⟩

end Walks

section Log

theorem logOnGrid_append : LogOnGrid lot (H ++ as) ↔ LogOnGrid lot H ∧ LogOnGrid lot as := by
  constructor
  · intro h
    refine ⟨⟨fun i a ha => h.placed i a ?_, fun l hl => h.filled l ?_⟩,
      ⟨fun i a ha => h.placed i a ?_, fun l hl => h.filled l ?_⟩⟩
    · rw [announced_append]
      exact List.mem_append_left _ ha
    · rw [legs_append]
      exact List.mem_append_left _ hl
    · rw [announced_append]
      exact List.mem_append_right _ ha
    · rw [legs_append]
      exact List.mem_append_right _ hl
  · rintro ⟨h1, h2⟩
    refine ⟨fun i a ha => ?_, fun l hl => ?_⟩
    · rw [announced_append] at ha
      rcases List.mem_append.mp ha with ha | ha
      · exact h1.placed i a ha
      · exact h2.placed i a ha
    · rw [legs_append] at hl
      rcases List.mem_append.mp hl with hl | hl
      · exact h1.filled l hl
      · exact h2.filled l hl

theorem logOnGrid_nil : LogOnGrid lot [] :=
  ⟨fun _ _ ha => absurd ha List.not_mem_nil, fun _ hl => absurd hl List.not_mem_nil⟩

theorem logOnGrid_history (t : OrderBook) : LogOnGrid lot t.actions ↔ LogOnGrid lot t.history := by
  constructor
  · intro h
    exact ⟨fun i a ha => h.placed i a (announced_actions i t ▸ ha),
      fun l hl => h.filled l (legs_actions t ▸ hl)⟩
  · intro h
    exact ⟨fun i a ha => h.placed i a (announced_actions i t ▸ ha),
      fun l hl => h.filled l (legs_actions t ▸ hl)⟩

theorem logOnGrid_opened : LogOnGrid lot (u.openedActions e) ↔
    (e.targetOrderId = 0 → OnGrid lot e.params.amount e.params.price) := by
  constructor
  · intro h h0
    refine h.placed u.nextOrderId e.params.announcement ?_
    rw [announced_openedActions, if_pos ⟨h0, rfl⟩]
    exact List.mem_singleton_self _
  · intro h
    refine ⟨fun i a ha => ?_, fun l hl => ?_⟩
    · rw [announced_openedActions] at ha
      split_ifs at ha with hi
      · rw [List.mem_singleton.mp ha]
        exact h hi.1
      · cases ha
    · rw [legs_openedActions] at hl
      cases hl

theorem logOnGrid_trades {b : Book} {orderId N seq : ℕ} {fills : List Fill} :
    LogOnGrid lot (tradeActions b e orderId N seq fills) ↔
      ∀ f ∈ fills, OnGrid lot f.trade f.maker.price := by
  have hlegs (seq : ℕ) : (∀ l ∈ (matchesOf orderId seq fills).flatMap Match.legs,
      OnGrid lot l.amount l.price) ↔ ∀ f ∈ fills, OnGrid lot f.trade f.maker.price := by
    induction fills generalizing seq with
    | nil => simp [matchesOf]
    | cons f fills ih =>
      rw [matchesOf, List.flatMap_cons, List.forall_mem_append, ih, List.forall_mem_cons]
      exact and_congr_left fun _ => by simp [Match.legs]
  rw [← hlegs seq, ← legs_tradeActions]
  constructor
  · exact fun h => h.filled
  · intro h
    refine ⟨fun i a ha => ?_, h⟩
    rw [announced_tradeActions] at ha
    cases ha

end Log

/-- A PLACE entry the book lets in: a limit order on the grid, or a market order that goes to its
match at once. Once it is begun, what it still asks for in base is whole lots. -/
structure EntryOnGrid (lot : ℕ) (e : QueueEntry) : Prop where
  limit : e.params.isMarket = false → OnGrid lot e.params.amount e.params.price
  market : e.params.isMarket = true →
    e.params.isPostOnly = false ∧ e.params.isFok = false ∧ e.params.minAmount = 0
  begun : TradesBase e.params → e.targetOrderId ≠ 0 → lot ∣ e.params.amount

/-- Resting orders and waiting entries are on the grid. -/
structure Gridded (lot : ℕ) (s : OrderBook) : Prop where
  resting : ∀ i, s.Stored i → OnGrid lot (s.core i).amount (s.core i).price
  waiting : ∀ e ∈ s.toQueue.list, e.entryType = .place → EntryOnGrid lot e

theorem Gridded.init (market : MarketId) (resultStart numOutcomes : ℕ) :
    Gridded lot (OrderBook.init market resultStart numOutcomes) := by
  refine ⟨fun i hi => ?_, ?_⟩
  · simp [Book.Stored, OrderBook.init, Book.empty] at hi
  · simp [OrderBook.init]

theorem valid_limit {tokenType : ℕ} (hv : p.valid tokenType = true) (hm : p.isMarket = false) :
    OnGrid (lotSize tokenType) p.amount p.price := by
  refine ⟨Nat.dvd_of_mod_eq_zero ?_, Nat.dvd_of_mod_eq_zero ?_⟩
  · by_contra hlot
    simp [PlaceParams.valid, hm, hlot] at hv
  · by_contra htick
    simp [PlaceParams.valid, hm, htick] at hv

theorem valid_market {tokenType : ℕ} (hv : p.valid tokenType = true) (hm : p.isMarket = true) :
    p.isPostOnly = false ∧ p.isFok = false ∧ p.minAmount = 0 := by
  refine ⟨?_, ?_, ?_⟩
  · by_contra hp
    simp [PlaceParams.valid, hm, hp] at hv
  · by_contra hf
    simp [PlaceParams.valid, hm, hf] at hv
  · by_contra hn
    simp [PlaceParams.valid, hm, hn] at hv

theorem valid_onGrid {tokenType : ℕ} (hv : e.params.valid tokenType = true)
    (h0 : e.targetOrderId = 0) : EntryOnGrid (lotSize tokenType) e :=
  ⟨valid_limit hv, valid_market hv, fun _ hn => absurd h0 hn⟩

theorem Gridded.enter (h : Gridded (lotSize s.market.tokenType) s) (hu : Enters s u)
    {es : List QueueEntry} (hl : u.toQueue.list = s.toQueue.list ++ es) {c : Call}
    (hes : ∀ e ∈ es, e.entryType = .place → s.Queues c e) :
    Gridded (lotSize s.market.tokenType) u := by
  refine ⟨hu.book ▸ h.resting, fun e he hp => ?_⟩
  rw [hl] at he
  rcases List.mem_append.mp he with he | he
  · exact h.waiting e he hp
  · obtain ⟨i, p, -, hv, heq⟩ := hes e he hp
    have hpar : e.params = p := by
      rw [heq]
      rfl
    have h0 : e.targetOrderId = 0 := by
      rw [heq]
      rfl
    exact valid_onGrid (hpar ▸ hv) h0

theorem Gridded.makers (h : Gridded lot u) (hu : u.Ok) (p : PlaceParams) :
    ∀ m ∈ u.crossingMakers p, OnGrid lot m.amount m.price ∧ 0 < m.amount := by
  obtain ⟨A, r⟩ := hu.book.rep
  intro m hm
  obtain ⟨⟨hs, -, he⟩, -⟩ := (mem_crossingMakers r m).mp hm
  refine ⟨?_, crossingMakers_pos hu.book m hm⟩
  rw [he]
  exact h.resting m.id hs

theorem Gridded.fills_iff (h : Gridded lot u) (hu : u.Ok) (p : PlaceParams) :
    (∀ f ∈ (u.passWalk p).fills, OnGrid lot f.trade f.maker.price) ↔
      ∀ f ∈ (u.passWalk p).fills, lot ∣ f.trade := by
  constructor
  · exact fun hf f hm => (hf f hm).lots
  · intro hf f hm
    have hmaker : f.maker ∈ u.crossingMakers p :=
      (walk_makers_initial p MAX_MATCHES_PER_CALL p.amount (u.crossingMakers p)).subset
        (List.mem_map_of_mem hm)
    exact ⟨hf f hm, (h.makers hu p f.maker hmaker).1.ticks⟩

theorem EntryOnGrid.lots (h : EntryOnGrid lot e) (hb : TradesBase e.params)
    (hopen : e.targetOrderId = 0 → OnGrid lot e.params.amount e.params.price) :
    lot ∣ e.params.amount := by
  by_cases h0 : e.targetOrderId = 0
  · exact (hopen h0).lots
  · exact h.begun hb h0

/-- What a matching pass reports is on the grid exactly where its market order is. -/
theorem Gridded.match_iff (h : Gridded lot u) (hu : u.Ok) (hl : u.toQueue.list = e :: rest)
    (hm : u.matchingEntry = some e) :
    LogOnGrid lot (u.matchActions e) ↔ u.MarketOnGrid lot := by
  have hp : e.entryType = .place := (matchingEntry_iff.mp hm).1.2.2.2.1
  have hentry := h.waiting e (by rw [hl]; exact List.mem_cons_self) hp
  have hmakers := h.makers hu e.params
  have hdef : u.MarketOnGrid lot ↔ (e.params.isMarket = true →
      (e.targetOrderId = 0 → OnGrid lot e.params.amount e.params.price) ∧
      (e.params.isBuy = true →
        WholeLots lot MAX_MATCHES_PER_CALL e.params.amount (u.crossingMakers e.params))) := by
    constructor
    · exact fun hg => hg e hm
    · intro hg x hx
      rw [hm] at hx
      cases hx
      exact hg
  rw [hdef, matchActions, logOnGrid_append, logOnGrid_opened, logOnGrid_trades, h.fills_iff hu]
  by_cases hb : TradesBase e.params
  · constructor
    · exact fun hg hmk => ⟨hg.1, fun hbuy => absurd ⟨hbuy, hmk⟩ hb⟩
    · intro hg
      have hopen : e.targetOrderId = 0 → OnGrid lot e.params.amount e.params.price := by
        by_cases hmk : e.params.isMarket = true
        · exact (hg hmk).1
        · exact fun _ => hentry.limit (Bool.eq_false_iff.mpr hmk)
      exact ⟨hopen, walk_base_lots hb _ (hentry.lots hb hopen) fun m hm => (hmakers m hm).1.lots⟩
  · have hmb : e.params.isBuy ∧ e.params.isMarket := not_not.mp hb
    have hwalk := walk_market_lots hmb MAX_MATCHES_PER_CALL e.params.amount
      fun m hm => ⟨(hmakers m hm).1.lots, (hmakers m hm).2⟩
    constructor
    · exact fun hg _ => ⟨hg.1, fun _ => hwalk.mp hg.2⟩
    · exact fun hg => ⟨(hg hmb.2).1, hwalk.mpr ((hg hmb.2).2 hmb.1)⟩

theorem Gridded.consumed (h : Gridded lot u) (hu : u.Ok)
    (hf : ∀ f ∈ (u.passWalk p).fills, lot ∣ f.trade) (i : ℕ)
    (hi : (u.toBook.consumeAll p.outcomeId (u.passWalk p).fills).Stored i) :
    OnGrid lot ((u.toBook.consumeAll p.outcomeId (u.passWalk p).fills).core i).amount
      ((u.toBook.consumeAll p.outcomeId (u.passWalk p).fills).core i).price := by
  obtain ⟨hok, -, hcons⟩ := passWalk_consumed hu.book p
  obtain ⟨hs, hnot⟩ := (hcons.stored i).mp hi
  have hgrid := h.resting i hs
  by_cases hmem : ∃ f ∈ (u.passWalk p).fills, f.maker.id = i
  · obtain ⟨f, hm, rfl⟩ := hmem
    have hamt := (hok.stored f hm).2.2
    have hne : (u.core f.maker.id).amount ≠ f.trade := fun he => hnot f hm ⟨rfl, he.symm.trans hamt⟩
    rw [hcons.touched f hm, Book.filledCore, if_neg hne]
    exact ⟨Nat.dvd_sub hgrid.lots (hf f hm), hgrid.ticks⟩
  · rw [hcons.untouched i fun f hm he => hmem ⟨f, hm, he⟩]
    exact hgrid

theorem passWalk_remaining_lots (hb : TradesBase p) (hp : lot ∣ p.amount)
    (hf : ∀ f ∈ (u.passWalk p).fills, lot ∣ f.trade) : lot ∣ (u.passWalk p).remaining := by
  have hsum : lot ∣ ((u.passWalk p).fills.map Fill.trade).sum := by
    apply List.dvd_sum
    intro x hx
    obtain ⟨f, hm, rfl⟩ := List.mem_map.mp hx
    exact hf f hm
  exact (Nat.dvd_add_left hsum).mp (passWalk_sum (u := u) hb ▸ hp)

theorem EntryOnGrid.unmatched (h : EntryOnGrid lot e)
    (hc : (e.targetOrderId = 0 ∧ u.postOnlyCrosses e.params = true) ∨ u.precheck e ≠ .reached) :
    OnGrid lot e.params.amount e.params.price := by
  apply h.limit
  rw [Bool.eq_false_iff]
  intro hmk
  obtain ⟨hpo, hfok, hmin⟩ := h.market hmk
  rcases hc with ⟨-, hc⟩ | hc
  · rw [postOnlyCrosses, hpo] at hc
    cases hc
  · apply hc
    rw [precheck, if_neg]
    rintro ⟨hpos, -⟩
    rw [minFill, hfok, hmin] at hpos
    exact absurd hpos (lt_irrefl 0)

theorem Gridded.thinned (h : Gridded lot u) (hb : u.Thins t.toBook)
    (hq : ∀ x ∈ t.toQueue.list, x.entryType = .place → EntryOnGrid lot x) : Gridded lot t := by
  refine ⟨fun i hi => ?_, hq⟩
  obtain ⟨hs, hcore⟩ := hb i hi
  rw [hcore]
  exact h.resting i hs

theorem Gridded.settled (h : Gridded lot u) (hu : u.Ok) (hl : u.toQueue.list = e :: rest)
    (hm : u.matchingEntry = some e) (hf : ∀ f ∈ (u.passWalk e.params).fills, lot ∣ f.trade) (i : ℕ)
    (hi : (u.settledBook e).Stored i) :
    OnGrid lot ((u.settledBook e).core i).amount ((u.settledBook e).core i).price := by
  have hp : e.entryType = .place := (matchingEntry_iff.mp hm).1.2.2.2.1
  have hentry := h.waiting e (by rw [hl]; exact List.mem_cons_self) hp
  obtain ⟨-, ⟨A', r'⟩, -⟩ := passWalk_consumed hu.book e.params
  unfold settledBook at hi ⊢
  dsimp only at hi ⊢
  split_ifs at hi ⊢ with hins
  · have hlim : e.params.isMarket = false :=
      Bool.eq_false_iff.mpr fun hmk => hins.2 (.inr (.inr hmk))
    have hbase : TradesBase e.params := fun hc => hins.2 (.inr (.inr hc.2))
    have hgrid := hentry.limit hlim
    rw [Book.insertIntoBook_stored _ _ _ _ _ _ _ _ r'] at hi
    rw [Book.insertIntoBook_core]
    split_ifs with hid
    · refine ⟨passWalk_remaining_lots hbase hgrid.lots hf, ?_⟩
      change TICK_SIZE ∣ e.params.storedPrice
      rw [storedPrice_limit (by simp [hlim])]
      exact hgrid.ticks
    · exact h.consumed hu hf i (hi.resolve_left hid)
  · exact h.consumed hu hf i hi

theorem EntryOnGrid.resumed (h : EntryOnGrid lot e)
    (hopen : e.targetOrderId = 0 → OnGrid lot e.params.amount e.params.price)
    (hf : ∀ f ∈ (u.passWalk e.params).fills, lot ∣ f.trade) (id : ℕ) :
    EntryOnGrid lot (OrderBook.resumed e id (u.passMatch e)) := by
  have hrest (hb : TradesBase e.params) : lot ∣ (u.passWalk e.params).remaining :=
    passWalk_remaining_lots hb (h.lots hb hopen) hf
  refine ⟨fun hm => ⟨hrest fun hc => ?_, (h.limit hm).ticks⟩, h.market, fun hb _ => hrest hb⟩
  have hlim : e.params.isMarket = false := hm
  rw [hlim] at hc
  exact absurd hc.2 Bool.false_ne_true

/-- A turn reports what is on the grid exactly where its market order is, and then keeps the
grid. -/
theorem Gridded.turn (h : Gridded lot u) (hu : u.Ok) (ht : Turn u t as) :
    (LogOnGrid lot as ↔ u.MarketOnGrid lot) ∧ (u.MarketOnGrid lot → Gridded lot t) := by
  have hnone (hm : u.matchingEntry = none) : u.MarketOnGrid lot := by
    intro x hx
    rw [hm] at hx
    cases hx
  cases ht with
  | idle hq hl hb =>
    have hm : u.matchingEntry = none := by
      rcases hq with hq | hq <;> simp [matchingEntry, hq]
    refine ⟨iff_of_true logOnGrid_nil (hnone hm), fun _ => ?_⟩
    exact h.thinned (.of_eq hb) (hl ▸ h.waiting)
  | thinned e rest stay hl he hl' hs hb =>
    have hm := no_match hu hl fun hm => he (matchingEntry_iff.mp hm).1.2.2.2.1
    refine ⟨iff_of_true logOnGrid_nil (hnone hm), fun _ => h.thinned hb fun x hx hp => ?_⟩
    rw [hl'] at hx
    rcases List.mem_append.mp hx with hx | hx
    · exact absurd (hs x hx ▸ hp) he
    · exact h.waiting x (hl ▸ List.mem_cons_of_mem _ hx) hp
  | refused e rest hl hd hl' hb =>
    have hm := no_match hu hl fun hm =>
      (matchingEntry_iff.mp hm).1.2.2.1 ⟨hd.1, by simp [hd.2]⟩
    refine ⟨iff_of_true logOnGrid_nil (hnone hm), fun _ => h.thinned (.of_eq hb) fun x hx hp => ?_⟩
    exact h.waiting x (hl ▸ List.mem_cons_of_mem _ (hl' ▸ hx)) hp
  | stopped e rest hl he hc hl' hb =>
    have hentry := h.waiting e (hl ▸ List.mem_cons_self) he
    have hreach : (e.targetOrderId = 0 ∧ u.postOnlyCrosses e.params = true) ∨
        u.precheck e ≠ .reached := hc.imp_right fun hc => by simp [hc]
    have hm := no_match hu hl fun hm => by
      obtain ⟨-, -, -, -, hpo, hpre⟩ := (matchingEntry_iff.mp hm).1
      exact hreach.elim hpo fun hr => hr hpre
    refine ⟨iff_of_true ?_ (hnone hm), fun _ => h.thinned (.of_eq hb) fun x hx hp => ?_⟩
    · exact logOnGrid_opened.mpr fun _ => hentry.unmatched hreach
    · exact h.waiting x (hl ▸ List.mem_cons_of_mem _ (hl' ▸ hx)) hp
  | deferred e rest accum lastPrice hl he hc hl' hb =>
    have hentry := h.waiting e (hl ▸ List.mem_cons_self) he
    have hreach : u.precheck e ≠ .reached := by simp [hc]
    have hgrid := hentry.unmatched (.inr hreach)
    have hm := no_match hu hl fun hm => hreach (matchingEntry_iff.mp hm).1.2.2.2.2.2
    refine ⟨iff_of_true (logOnGrid_opened.mpr fun _ => hgrid) (hnone hm), fun _ => ?_⟩
    apply h.thinned (.of_eq hb)
    intro x hx hp
    rw [hl'] at hx
    rcases List.mem_cons.mp hx with rfl | hx
    · exact ⟨hentry.limit, hentry.market, fun _ _ => hgrid.lots⟩
    · exact h.waiting x (hl ▸ List.mem_cons_of_mem _ hx) hp
  | capped e rest hl hm hc hl' hb =>
    have hiff := h.match_iff hu hl hm
    refine ⟨hiff, fun hg => ?_⟩
    obtain ⟨hopen, htrades⟩ := logOnGrid_append.mp (hiff.mpr hg)
    have hf := (h.fills_iff hu e.params).mp (logOnGrid_trades.mp htrades)
    have hp : e.entryType = .place := (matchingEntry_iff.mp hm).1.2.2.2.1
    refine ⟨hb ▸ h.consumed hu hf, fun x hx hpx => ?_⟩
    rw [hl'] at hx
    rcases List.mem_cons.mp hx with rfl | hx
    · exact (h.waiting e (hl ▸ List.mem_cons_self) hp).resumed (logOnGrid_opened.mp hopen) hf _
    · exact h.waiting x (hl ▸ List.mem_cons_of_mem _ hx) hpx
  | settled e rest hl hm hc hl' hb =>
    have hiff := h.match_iff hu hl hm
    refine ⟨hiff, fun hg => ?_⟩
    have htrades := (logOnGrid_append.mp (hiff.mpr hg)).2
    have hf := (h.fills_iff hu e.params).mp (logOnGrid_trades.mp htrades)
    refine ⟨hb ▸ h.settled hu hl hm hf, fun x hx hpx => ?_⟩
    exact h.waiting x (hl ▸ List.mem_cons_of_mem _ (hl' ▸ hx)) hpx

theorem Gridded.step (h : Gridded (lotSize s.market.tokenType) s) (hs : s.Ok) {c : Call}
    (hst : s.step c = some t) :
    (LogOnGrid (lotSize s.market.tokenType) t.actions ↔ MarketCall s c t) ∧
      (MarketCall s c t → Gridded (lotSize s.market.tokenType) t) := by
  rw [logOnGrid_history]
  obtain ⟨u, as, hu, hent, hturn, hh⟩ | ⟨hu, ha⟩ := step_turn hs hst
  · obtain ⟨es, hl, hes⟩ := atHead_entrants hs hst hu
    have hcall : MarketCall s c t ↔ u.MarketOnGrid (lotSize s.market.tokenType) := by
      rw [MarketCall, hu]
      simp
    rw [hcall, hh]
    exact (h.enter hent hl hes).turn hent.ok hturn
  · have hcall : MarketCall s c t := by
      intro u hmem
      rw [hu] at hmem
      cases hmem
    rw [ha.history]
    refine ⟨iff_of_true logOnGrid_nil hcall, fun _ => h.thinned ha.book ?_⟩
    rw [ha.queue]
    exact h.waiting

theorem run_gridded {market : MarketId} {resultStart numOutcomes : ℕ}
    {tr : List (Call × OrderBook)}
    (h : Run OrderBook.step (OrderBook.init market resultStart numOutcomes) tr s) :
    (LogOnGrid (lotSize market.tokenType) (traceActions tr) ↔
      Run.Each MarketCall (OrderBook.init market resultStart numOutcomes) tr) ∧
    (Run.Each MarketCall (OrderBook.init market resultStart numOutcomes) tr →
      Gridded (lotSize market.tokenType) s) := by
  suffices hrun : s.market = market ∧ _ from hrun.2
  refine h.invariant (fun tr s => s.market = market ∧
    ((LogOnGrid (lotSize market.tokenType) (traceActions tr) ↔
      Run.Each MarketCall (OrderBook.init market resultStart numOutcomes) tr) ∧
    (Run.Each MarketCall (OrderBook.init market resultStart numOutcomes) tr →
      Gridded (lotSize market.tokenType) s))) ?init ?step
  case init => exact ⟨rfl, iff_of_true logOnGrid_nil trivial, fun _ => .init market _ _⟩
  case step =>
    intro tr s c t hr ih hst
    obtain ⟨hmk, hiff, hgrid⟩ := ih
    have hok := run_ok hr
    have hmk' : t.market = market := (step_moves hok hst).market.trans hmk
    subst hmk
    refine ⟨hmk', ?_, fun hall => ?_⟩
    · rw [traceActions_snoc, logOnGrid_append, Run.each_concat, hr.last_eq, hiff]
      exact and_congr_right fun hall => ((hgrid hall).step hok hst).1
    · obtain ⟨h1, h2⟩ := Run.each_concat.mp hall
      rw [hr.last_eq] at h2
      exact ((hgrid h1).step hok hst).2 h2

theorem Gridded.levels (h : Gridded lot s) (hs : s.Ok) (k : LevelKey) (price : ℕ) :
    lot ∣ (s.level k price).totalAmount := by
  obtain ⟨A, r⟩ := hs.book.rep
  rw [r.total]
  apply List.dvd_sum
  intro x hx
  obtain ⟨i, hi, rfl⟩ := List.mem_map.mp hx
  exact (h.resting i ((r.mem_price k price i).mp hi).1).lots

end OrderBook

end Dexdo
