import Dexdo.OrderBook.Moves
import Mathlib.Data.List.TakeWhile

namespace Dexdo.OrderBook

/-- The resting orders are well represented and none of them is a market order. -/
structure BookOk (s : OrderBook) : Prop where
  rep : ∃ A, s.toBook.Rep s.nextOrderId A
  limit : ∀ i, s.Stored i → (s.makerItem i).isMarket = false

/-- `id` is an assigned order id above every resting one. -/
def Fresh (s : OrderBook) (id : ℕ) : Prop := 0 < id ∧ id < s.nextOrderId ∧ ∀ i, s.Stored i → i < id

variable {s : OrderBook} {M K : Multiset Item} {n : ℕ} {A : Book.Index}

theorem crossingMakers_ok (h : s.BookOk) (p : PlaceParams) :
    s.MakersOk p (s.crossingMakers p) := by
  have hmem (m) (hm : m ∈ s.crossingMakers p) : ∃ q,
      Book.pricesCross p.isBuy p.storedPrice p.isMarket q = true ∧
      m ∈ s.makersAt s.nextOrderId p q := by
    obtain ⟨q, hq, hm⟩ := List.mem_flatMap.mp hm
    exact ⟨q, List.mem_takeWhile_imp hq, hm⟩
  refine ⟨?_, fun m hm => ?_, fun m hm => ?_, fun m hm => ?_⟩
  · rw [crossingMakers, makers, List.map_flatMap]
    refine List.nodup_flatMap.mpr ⟨fun q _ => ?_, ?_⟩
    · rw [makersAt_ids]
      exact List.nodup_range.filter _
    · have hs := (s.oppPrices_sorted p.outcomeId p.isBuy p.epochId).sublist
        (List.takeWhile_sublist (Book.pricesCross p.isBuy p.storedPrice p.isMarket))
      refine hs.imp fun {x y} hxy => ?_
      simp only [Function.onFun, makersAt_ids]
      intro i hx hy
      have h1 := (List.mem_filter.mp hx).2
      have h2 := (List.mem_filter.mp hy).2
      simp only [decide_eq_true_eq] at h1 h2
      have : x = y := h1.2.2.symm.trans h2.2.2
      subst this
      unfold Book.worse at hxy
      split_ifs at hxy <;> simp at hxy
  · obtain ⟨q, -, hm⟩ := hmem m hm
    obtain ⟨h1, h2, h3, h4, h5⟩ := mem_makersAt p q m hm
    exact ⟨h1, h2, h3.trans h5.symm, h4⟩
  · obtain ⟨q, -, hm⟩ := hmem m hm
    exact h.limit _ (mem_makersAt p q m hm).1
  · obtain ⟨q, hq, hm⟩ := hmem m hm
    rwa [(mem_makersAt p q m hm).2.2.2.2]

section Fills

@[simp] theorem processFillTo_nextOrderId (pnHash orderId outcomeId filledAmount clearingPrice : ℕ)
    (isBuy : Bool) (buyerRefund : ℕ) (isTaker isFinal : Bool)
    (clientOrderId matchId sub : ℕ) (c : Option ℕ) :
    (s.processFillTo pnHash orderId outcomeId filledAmount clearingPrice isBuy buyerRefund
      isTaker isFinal clientOrderId matchId sub c).nextOrderId = s.nextOrderId := by
  unfold processFillTo
  cases isTaker <;> rfl

@[simp] theorem emitMakerFill_nextOrderId (cur : ℕ) (cp : Order) (trade : ℕ) :
    (s.emitMakerFill cur cp trade).nextOrderId = s.nextOrderId := by
  unfold emitMakerFill
  split_ifs <;> rfl

@[simp] theorem fillMaker_nextOrderId (e : QueueEntry) (orderId cur q remaining trade : ℕ) :
    (s.fillMaker e orderId cur q remaining trade).nextOrderId = s.nextOrderId := by
  unfold fillMaker
  simp only [setBook, emitMakerFill_nextOrderId, processFillTo_nextOrderId]

@[simp] theorem applyFills_nextOrderId (e : QueueEntry) (orderId : ℕ) (fills : List Fill) :
    (applyFills e orderId s fills).nextOrderId = s.nextOrderId := by
  induction fills generalizing s with
  | nil => rfl
  | cons f fills ih => rw [applyFills_cons, ih, fillMaker_nextOrderId]

theorem MakersOk.fillsOk {p : PlaceParams} {ms : List Maker} (h : s.MakersOk p ms)
    (left remaining : ℕ) : s.toBook.FillsOk p.outcomeId (walk p left remaining ms).fills := by
  have hpre := walk_makers_initial p left remaining ms
  have hmem (f) (hf : f ∈ (walk p left remaining ms).fills) : f.maker ∈ ms :=
    hpre.subset (List.mem_map_of_mem hf)
  refine ⟨?_, fun f hf => ?_, fun f hf => ?_⟩
  · have h1 : ((walk p left remaining ms).fills.map fun f => f.maker.id) =
        ((walk p left remaining ms).fills.map Fill.maker).map Maker.id := by simp
    rw [h1]
    exact (hpre.map Maker.id).sublist.nodup h.nodup
  · obtain ⟨h1, h2, -, h4⟩ := h.stored _ (hmem f hf)
    exact ⟨h1, congrArg LevelKey.outcomeId h2, h4⟩
  · rw [walk_trade p left remaining _ f hf]
    exact tradeSize_le _ _ _ _

theorem filledCore_flags {o : Order} {x : ℕ} (h : o.amount ≠ x) :
    (Book.filledCore o x).flags = o.flags := by
  rw [Book.filledCore, if_neg h]
  rfl

theorem applyFills_ok (h : s.BookOk) (e : QueueEntry) (orderId left remaining : ℕ)
    {ms : List Maker} (hm : s.MakersOk e.params ms) :
    let t := applyFills e orderId s (walk e.params left remaining ms).fills
    t.BookOk ∧ ∀ i, t.Stored i → s.Stored i := by
  intro t
  obtain ⟨A, r⟩ := h.rep
  have hok := hm.fillsOk left remaining
  obtain ⟨hA, hC⟩ := Book.consumeAll_spec r hok
  have htb : t.toBook = s.toBook.consumeAll e.params.outcomeId _ := applyFills_toBook _ _ _
  rw [← htb] at hA hC
  refine ⟨⟨?_, fun i hi => ?_⟩, fun i hi => ((hC.stored i).mp hi).1⟩
  · rw [show t.nextOrderId = s.nextOrderId from applyFills_nextOrderId _ _ _]
    exact hA
  · have hl := h.limit i ((hC.stored i).mp hi).1
    unfold makerItem at hl ⊢
    by_cases hf : ∃ f ∈ (walk e.params left remaining ms).fills, f.maker.id = i
    · obtain ⟨f, hf, rfl⟩ := hf
      have hne : (s.core f.maker.id).amount ≠ f.trade := fun he =>
        ((hC.stored _).mp hi).2 f hf ⟨rfl, he.symm.trans (hok.stored f hf).2.2⟩
      rw [hC.touched f hf]
      simpa only [Item.isMarket, Item.ofOrder, filledCore_flags hne] using hl
    · rw [hC.untouched i fun f hm e => hf ⟨f, hm, e⟩]
      exact hl

end Fills

theorem cancelTaker_emits (e : QueueEntry) (id amt ret : ℕ) (hid : id ≠ 0)
    (hr : e.params.isBuy = false → ret = amt) :
    Emits (some e.batch) (takerItem e id amt ::ₘ M) s M (s.cancelTaker e id ret) :=
  notifyCancelled_emits (takerItem e id amt) ret e.opNonce hid hr

theorem collateralFor_sell {isBuy : Bool} (price amount : ℕ) (h : isBuy = false) :
    Book.collateralFor isBuy price amount = amount := by simp [Book.collateralFor, h]

theorem BookOk.of_toBook {t : OrderBook} (h : s.BookOk) (hb : t.toBook = s.toBook)
    (hn : s.nextOrderId ≤ t.nextOrderId) : t.BookOk := by
  obtain ⟨A, r⟩ := h.rep
  refine ⟨⟨A, ?_⟩, fun i hi => ?_⟩
  · rw [hb]
    exact r.mono hn
  · unfold makerItem
    rw [hb] at hi ⊢
    exact h.limit i hi

theorem settleTaker_eq (m : MatchState) (e : QueueEntry) (orderId : ℕ) :
    ∃ evs : List BookEvent, settleTaker m e orderId = evs.foldl emit (settleRest m e orderId) := by
  unfold settleTaker
  split_ifs
  · exact ⟨[.fullyFilled orderId e.params.clientOrderId m.filledAccum], rfl⟩
  · exact ⟨[.partialFill orderId e.params.clientOrderId m.filledAccum m.remaining], rfl⟩
  · exact ⟨[], rfl⟩

theorem emits_emit_all (c : Option ℕ) (evs : List BookEvent) : Emits c M s M (evs.foldl emit s) := by
  induction evs generalizing s with
  | nil => exact .refl _ _ _
  | cons ev evs ih => exact (emit_emits ev c M).trans ih

theorem emit_all_toBook (evs : List BookEvent) :
    (evs.foldl emit s).toBook = s.toBook ∧ (evs.foldl emit s).nextOrderId = s.nextOrderId := by
  induction evs generalizing s with
  | nil => exact ⟨rfl, rfl⟩
  | cons ev evs ih => exact ih

theorem storedPrice_limit {p : PlaceParams} (h : ¬ p.isMarket) : p.storedPrice = p.price := by
  simp [PlaceParams.storedPrice, h]

/-- Settling ends the taker: it is used up, cancelled or put to rest. -/
theorem settleRest_spec (m : MatchState) (e : QueueEntry) (orderId : ℕ) (h : m.book.BookOk)
    (hf : m.book.Fresh orderId) :
    Emits (some e.batch)
        (takerLeft e orderId m.remaining + (m.book.resting m.book.nextOrderId + K)) m.book
        ((settleRest m e orderId).resting m.book.nextOrderId + K) (settleRest m e orderId) ∧
      (settleRest m e orderId).BookOk ∧
      (settleRest m e orderId).nextOrderId = m.book.nextOrderId := by
  obtain ⟨A, r⟩ := h.rep
  have hid : ¬ m.book.Stored orderId := fun hs => lt_irrefl _ (hf.2.2 _ hs)
  unfold settleRest takerLeft
  dsimp only
  by_cases h0 : m.remaining = 0
  · have hneg : ¬ 0 < m.remaining := by omega
    rw [if_neg hneg, if_pos h0, zero_add]
    exact ⟨.refl _ _ _, h, rfl⟩
  · have hpos : 0 < m.remaining := Nat.pos_of_ne_zero h0
    rw [if_pos hpos, if_neg h0, Multiset.singleton_add]
    by_cases hc : e.params.isIoc ∨ e.params.isFok ∨ e.params.isMarket
    · rw [if_pos hc]
      refine ⟨?_, h.of_toBook rfl le_rfl, rfl⟩
      refine cancelTaker_emits e orderId m.remaining _ hf.1.ne' fun hb => ?_
      simp [hb, collateralFor_sell]
    · rw [if_neg hc]
      have hmk : ¬ e.params.isMarket := fun hm => hc (.inr (.inr hm))
      rw [storedPrice_limit hmk]
      refine ⟨?_, ⟨⟨_, r.insert _ _ _ _ _ _ _ _ hf.1 hf.2.1 hpos hf.2.2⟩, fun i hi => ?_⟩, rfl⟩
      · have hr := r.resting_insert e.depositHash e.params.price m.remaining m.filledAccum e.opNonce
          e.sub e.params hid hf.2.1
        rw [setBook_toBook, hr, Multiset.cons_add]
        exact .silent (setBook_frame _ _) rfl rfl _ _
      · rw [makerItem, setBook_toBook, Book.insertIntoBook_core]
        split_ifs with hi'
        · exact Bool.eq_false_iff.mpr hmk
        · exact h.limit i (((Book.insertIntoBook_stored _ _ _ _ _ _ _ _ r i).mp hi).resolve_left hi')

theorem settleTaker_spec (m : MatchState) (e : QueueEntry) (orderId : ℕ) (h : m.book.BookOk)
    (hf : m.book.Fresh orderId) :
    Emits (some e.batch)
        (takerLeft e orderId m.remaining + (m.book.resting m.book.nextOrderId + K)) m.book
        ((settleTaker m e orderId).resting (settleTaker m e orderId).nextOrderId + K)
        (settleTaker m e orderId) ∧ (settleTaker m e orderId).BookOk ∧
      (settleTaker m e orderId).nextOrderId = m.book.nextOrderId := by
  obtain ⟨evs, hev⟩ := settleTaker_eq m e orderId
  obtain ⟨h1, h2, h3⟩ := settleRest_spec (K := K) m e orderId h hf
  obtain ⟨hb, hn⟩ := emit_all_toBook (s := settleRest m e orderId) evs
  rw [← hev] at hb hn
  refine ⟨?_, h2.of_toBook hb hn.ge, hn.trans h3⟩
  rw [hb, hn.trans h3]
  have := emits_emit_all (s := settleRest m e orderId)
    (M := (settleRest m e orderId).resting m.book.nextOrderId + K) (some e.batch) evs
  rw [← hev] at this
  exact h1.trans this

/-- `e'` is `e` kept at the head for another pass. -/
structure Continues (e e' : QueueEntry) : Prop where
  eq : e' = { e with
    params := { e.params with amount := e'.params.amount }
    targetOrderId := e'.targetOrderId
    filledAccum := e'.filledAccum
    precheckDone := e'.precheckDone
    precheckAccum := e'.precheckAccum
    precheckLastPrice := e'.precheckLastPrice }
  amount : 0 < e'.params.amount

/-- Result of processing a PLACE entry: its order is answered for, and what is left of it
rests or stays at the head. -/
structure Placed (K : Multiset Item) (e : QueueEntry) (M : Multiset Item) (s : OrderBook)
    (r : OrderBook × Option QueueEntry) : Prop where
  emits : Emits (some e.batch) (M + (s.resting s.nextOrderId + K)) s
    (↑(r.2.toList.map Item.ofEntry) + (r.1.resting r.1.nextOrderId + K)) r.1
  ok : r.1.BookOk
  nextId : s.nextOrderId ≤ r.1.nextOrderId
  cont : ∀ e', r.2 = some e' → Continues e e' ∧ r.1.Fresh e'.targetOrderId

theorem openOrder_spec (e : QueueEntry) (h : s.BookOk) (h1 : 0 < s.nextOrderId)
    (ha : 0 < e.params.amount) (ht : e.targetOrderId ≠ 0 → s.Fresh e.targetOrderId) :
    let r := s.openOrder e
    Emits (some e.batch) (Item.ofEntry e ::ₘ (s.resting s.nextOrderId + K)) s
        (takerItem e r.2 e.params.amount ::ₘ (r.1.resting r.1.nextOrderId + K)) r.1 ∧
      r.1.BookOk ∧ r.1.Fresh r.2 ∧ s.nextOrderId ≤ r.1.nextOrderId := by
  unfold openOrder
  by_cases h0 : e.targetOrderId = 0
  · rw [if_pos h0]
    obtain ⟨A, r⟩ := h.rep
    have hb : ({ s with nextOrderId := s.nextOrderId + 1 }.emitOrderPlacedTo e
      s.nextOrderId).toBook = s.toBook := rfl
    have hn : ({ s with nextOrderId := s.nextOrderId + 1 }.emitOrderPlacedTo e
      s.nextOrderId).nextOrderId = s.nextOrderId + 1 := rfl
    refine ⟨?_, h.of_toBook hb (hn ▸ Nat.le_succ _), ⟨h1, by simp [hn], fun i hi => ?_⟩, by simp [hn]⟩
    · rw [hb, hn, r.resting_mono (Nat.le_succ _)]
      exact (Emits.silent (t := { s with nextOrderId := s.nextOrderId + 1 }) rfl rfl rfl _ _).trans
        (emitOrderPlacedTo_emits e s.nextOrderId h0 h1.ne' ha)
    · exact (r.bound i hi).2.1
  · rw [if_neg h0]
    exact ⟨.refl _ _ _, h, ht h0, le_rfl⟩

theorem walk_capped_remaining (p : PlaceParams) (left remaining : ℕ) (ms : List Maker)
    (h : (walk p left remaining ms).halt = .hitCapWithMore) :
    0 < (walk p left remaining ms).remaining := by
  induction ms generalizing left remaining with
  | nil => simp at h
  | cons m ms ih =>
    by_cases h0 : remaining = 0
    · simp [h0] at h
    · cases left with
      | zero =>
        rw [walk_cap _ _ _ _ h0]
        exact Nat.pos_of_ne_zero h0
      | succ =>
        rw [walk_succ _ _ _ _ _ h0] at h ⊢
        split_ifs with hd
        · simp [hd] at h
        · rw [if_neg hd] at h
          exact ih _ _ h

theorem walk_capped_length (p : PlaceParams) (left remaining : ℕ) (ms : List Maker)
    (h : (walk p left remaining ms).halt = .hitCapWithMore) :
    (walk p left remaining ms).fills.length = left := by
  induction ms generalizing left remaining with
  | nil => simp at h
  | cons m ms ih =>
    by_cases h0 : remaining = 0
    · simp [h0] at h
    · cases left with
      | zero =>
        rw [walk_cap _ _ _ _ h0]
        rfl
      | succ =>
        rw [walk_succ _ _ _ _ _ h0] at h ⊢
        split_ifs with hd
        · simp [hd] at h
        · rw [if_neg hd] at h
          simpa using ih _ _ h

theorem matchPhase_spec (e : QueueEntry) (orderId : ℕ) (h : s.BookOk) (hf : s.Fresh orderId)
    (ha : 0 < e.params.amount) :
    Placed K e {takerItem e orderId e.params.amount} s (s.matchPhase e orderId) := by
  obtain ⟨A, r⟩ := h.rep
  have hm := crossingMakers_ok h e.params
  have hw := walk_emits (K := K) e orderId MAX_MATCHES_PER_CALL e.params.amount _ hf.1.ne' r hm
  obtain ⟨hok, hst⟩ := applyFills_ok h e orderId MAX_MATCHES_PER_CALL e.params.amount hm
  have hcap := walk_capped_remaining e.params MAX_MATCHES_PER_CALL e.params.amount
    (s.crossingMakers e.params)
  unfold matchPhase
  rw [matchOrder_eq e orderId r]
  dsimp only at hw hok hst ⊢
  rw [← passWalk] at hw hok hst hcap
  have hn : (applyFills e orderId s (s.passWalk e.params).fills).nextOrderId = s.nextOrderId :=
    applyFills_nextOrderId _ _ _
  have hf' : (applyFills e orderId s (s.passWalk e.params).fills).Fresh orderId :=
    ⟨hf.1, hn ▸ hf.2.1, fun i hi => hf.2.2 i (hst i hi)⟩
  have h0 : takerLeft e orderId e.params.amount = {takerItem e orderId e.params.amount} := by
    rw [takerLeft, if_neg ha.ne']
  rw [h0] at hw
  by_cases hh : (s.passWalk e.params).halt = .hitCapWithMore
  · rw [if_pos hh]
    have hr := hcap hh
    refine ⟨?_, hok, hn.ge, ?_⟩
    · rw [takerLeft, if_neg hr.ne'] at hw
      change Emits _ _ _ ({takerItem e orderId _} + (Book.resting _
        (applyFills e orderId s (s.passWalk e.params).fills).nextOrderId + K)) _
      rw [hn]
      exact hw
    · rintro e' ⟨⟩
      exact ⟨⟨rfl, hr⟩, hf'⟩
  · rw [if_neg hh]
    obtain ⟨h1, h2, h3⟩ := settleTaker_spec (K := K)
      ⟨applyFills e orderId s (s.passWalk e.params).fills, (s.passWalk e.params).remaining,
        (s.passWalk e.params).left,
        e.filledAccum + ((s.passWalk e.params).fills.map Fill.trade).sum,
        (s.passWalk e.params).halt⟩ e orderId hok hf'
    refine ⟨?_, h2, (h3.trans hn).ge, by simp⟩
    simp only [Option.toList_none, List.map_nil, Multiset.coe_nil, zero_add]
    rw [hn] at h1
    exact hw.trans h1

theorem placePhases_spec (e : QueueEntry) (orderId : ℕ) (h : s.BookOk) (hf : s.Fresh orderId)
    (ha : 0 < e.params.amount) :
    Placed K e {takerItem e orderId e.params.amount} s (s.placePhases e orderId) := by
  have hcancel : Placed K e {takerItem e orderId e.params.amount} s
      (s.cancelTaker e orderId (Book.collateralFor e.params.isBuy e.params.storedPrice
        e.params.amount), none) := by
    refine ⟨?_, h.of_toBook rfl le_rfl, le_rfl, by simp⟩
    simp only [Option.toList_none, List.map_nil, Multiset.coe_nil, zero_add,
      Multiset.singleton_add]
    exact cancelTaker_emits e orderId _ _ hf.1.ne' fun hb => collateralFor_sell _ _ hb
  unfold placePhases
  dsimp only
  split_ifs
  · exact hcancel
  · split
    · exact hcancel
    · refine ⟨.refl _ _ _, h, le_rfl, ?_⟩
      rintro e' ⟨⟩
      exact ⟨⟨rfl, ha⟩, hf⟩
    · exact matchPhase_spec e orderId h hf ha

theorem doPlace_spec (e : QueueEntry) (h : s.BookOk) (h1 : 0 < s.nextOrderId)
    (ha : 0 < e.params.amount) (ht : e.targetOrderId ≠ 0 → s.Fresh e.targetOrderId) :
    Placed K e {Item.ofEntry e} s (s.doPlace e) := by
  obtain ⟨he, hok, hf, hn⟩ := openOrder_spec (K := K) e h h1 ha ht
  have hp := placePhases_spec (K := K) e (s.openOrder e).2 hok hf ha
  refine ⟨?_, hp.ok, hn.trans hp.nextId, hp.cont⟩
  rw [Multiset.singleton_add]
  have := hp.emits
  rw [Multiset.singleton_add] at this
  exact he.trans this

end Dexdo.OrderBook
