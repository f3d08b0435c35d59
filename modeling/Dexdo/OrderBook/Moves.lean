import Dexdo.OrderBook.Ledger

namespace Dexdo.OrderBook

section Outs

variable (s : OrderBook)

theorem act_outs (a : Action) : (s.act a).outs = s.outs ++ a.out?.toList := by
  cases h : a.out? <;> simp [outs, act, List.filterMap_append, h]

@[simp] theorem emit_outs (e : BookEvent) : (s.emit e).outs = s.outs := by
  simp [emit, act_outs, Action.out?]

theorem act_feeTotal (a : Action) : (s.act a).feeTotal = s.feeTotal + a.collected := by
  simp [feeTotal, act, Nat.add_assoc]

@[simp] theorem emit_feeTotal (e : BookEvent) : (s.emit e).feeTotal = s.feeTotal :=
  act_feeTotal s _

theorem act_frame (a : Action) : Frame s (s.act a) := rfl
theorem emit_frame (e : BookEvent) : Frame s (s.emit e) := rfl
theorem setBook_frame (b : Book) : Frame s (s.setBook b) := rfl

@[simp] theorem setBook_outs (b : Book) : (s.setBook b).outs = s.outs := rfl
@[simp] theorem setBook_toBook (b : Book) : (s.setBook b).toBook = b := rfl
@[simp] theorem emit_toBook (e : BookEvent) : (s.emit e).toBook = s.toBook := rfl

end Outs

variable {s : OrderBook} {M M' K : Multiset Item} {c : Option ℕ} {n : ℕ} {A : Book.Index}

theorem callback_emits {dest sub : ℕ} {cb : Callback}
    (h : LedgerStep s.numOutcomes M [⟨dest, cb, sub, c⟩] M') (hf : cb.fee = 0)
    (ha : cb.isAck = false) : Emits c M s M' (s.act (.callback dest cb sub c)) := by
  refine ⟨act_frame s _, _, act_outs s _, .single h, ?_, ?_⟩
  · simp [Action.out?, ha]
  · simp [Action.out?, hf, act_feeTotal, Action.collected]

theorem emit_emits (e : BookEvent) (c : Option ℕ) (M : Multiset Item) :
    Emits c M s M (s.emit e) :=
  .silent (emit_frame s e) (emit_outs s e) (emit_feeTotal s e) c M

theorem notifyRejectedPlace_emits (owner sub opNonce : ℕ) (p : PlaceParams) (c : Option ℕ) :
    Emits c (Item.ofParams sub owner 0 p ::ₘ M) s M
      (s.notifyRejectedPlace owner p opNonce sub c) :=
  callback_emits (.reject (Item.ofParams sub owner 0 p) M opNonce c rfl) rfl rfl

theorem notifyCancelled_emits (x : Item) (returnAmt opNonce : ℕ) (hx : x.orderId ≠ 0)
    (hr : x.isBuy = false → returnAmt = x.amount) :
    Emits c (x ::ₘ M) s M (s.notifyCancelled x.owner x.orderId x.outcomeId x.isBuy returnAmt
      x.clientOrderId opNonce x.sub c) :=
  (emit_emits _ c _).trans (callback_emits (.cancel x M returnAmt opNonce c hx hr) rfl rfl)

theorem ofEntry_cost (e : QueueEntry) :
    (Item.ofEntry e).cost = if e.params.isBuy then placeCost e.params else 0 := rfl

theorem emitOrderPlacedTo_emits (e : QueueEntry) (id : ℕ) (h0 : e.targetOrderId = 0)
    (hid : id ≠ 0) (ha : 0 < e.params.amount) :
    Emits (some e.batch) (Item.ofEntry e ::ₘ M) s
      ({ Item.ofEntry e with orderId := id } ::ₘ M) (s.emitOrderPlacedTo e id) := by
  have hstep := LedgerStep.place (N := s.numOutcomes) (Item.ofEntry e) M id e.opNonce
    (some e.batch) h0 hid ha
  have hcb : (Item.ofEntry e).placed id e.opNonce = .onOrderPlaced id
      (if e.params.isBuy then takerFeeOf (if e.params.isBuy then placeCost e.params else 0) else 0)
      (if e.params.isBuy then (if e.params.isBuy then placeCost e.params else 0) +
        (if e.params.isBuy then takerFeeOf (if e.params.isBuy then placeCost e.params else 0) else 0)
        else 0)
      e.params.clientOrderId e.params.outcomeId e.params.isBuy e.params.flags e.params.price
      e.params.amount e.opNonce := by
    rw [Item.placed, ofEntry_cost]
    cases hb : e.params.isBuy <;> simp [hb, Item.ofEntry, Item.ofParams, takerFeeOf]
  rw [hcb] at hstep
  exact (emit_emits _ _ _).trans (callback_emits hstep rfl rfl)

section Fill

theorem processFillTo_frame (pnHash orderId outcomeId filledAmount clearingPrice : ℕ)
    (isBuy : Bool) (buyerRefund : ℕ) (isTaker isFinal : Bool)
    (clientOrderId matchId sub : ℕ) (c : Option ℕ) :
    Frame s (s.processFillTo pnHash orderId outcomeId filledAmount clearingPrice isBuy buyerRefund
      isTaker isFinal clientOrderId matchId sub c) := by
  unfold processFillTo
  cases isTaker <;> rfl

theorem processFillTo_outs (pnHash orderId outcomeId filledAmount clearingPrice : ℕ)
    (isBuy : Bool) (buyerRefund : ℕ) (isTaker isFinal : Bool)
    (clientOrderId matchId sub : ℕ) (c : Option ℕ) :
    (s.processFillTo pnHash orderId outcomeId filledAmount clearingPrice isBuy buyerRefund
      isTaker isFinal clientOrderId matchId sub c).outs = s.outs ++ [⟨pnHash,
        .onOrderFilled outcomeId filledAmount clearingPrice isBuy buyerRefund
          (if isTaker then takerFeeOf (notionalOf filledAmount clearingPrice)
            else makerRebateOf (takerFeeOf (notionalOf filledAmount clearingPrice)))
          (!isTaker) orderId isFinal s.numOutcomes clientOrderId, sub, c⟩] := by
  unfold processFillTo
  cases isTaker <;> simp [act_outs, emit, Action.out?] <;> rfl

theorem processFillTo_fees (pnHash orderId outcomeId filledAmount clearingPrice : ℕ)
    (isBuy : Bool) (buyerRefund : ℕ) (isTaker isFinal : Bool)
    (clientOrderId matchId sub : ℕ) (c : Option ℕ) :
    (s.processFillTo pnHash orderId outcomeId filledAmount clearingPrice isBuy buyerRefund
      isTaker isFinal clientOrderId matchId sub c).feeTotal = s.feeTotal +
        if isTaker then takerFeeOf (notionalOf filledAmount clearingPrice) -
          makerRebateOf (takerFeeOf (notionalOf filledAmount clearingPrice)) else 0 := by
  unfold processFillTo
  cases isTaker <;> simp [act_feeTotal, Action.collected] <;> simp [feeTotal]
  omega

theorem makerRebateOf_le (x : ℕ) : makerRebateOf x ≤ x := by
  unfold makerRebateOf MAKER_REBATE_NUM MAKER_REBATE_DEN
  omega

theorem emitMakerFill_frame (cur : ℕ) (cp : Order) (trade : ℕ) :
    Frame s (s.emitMakerFill cur cp trade) := by
  unfold emitMakerFill
  split_ifs <;> rfl

theorem emitMakerFill_outs (cur : ℕ) (cp : Order) (trade : ℕ) :
    (s.emitMakerFill cur cp trade).outs = s.outs := by
  unfold emitMakerFill
  split_ifs <;> simp

theorem emitMakerFill_fees (cur : ℕ) (cp : Order) (trade : ℕ) :
    (s.emitMakerFill cur cp trade).feeTotal = s.feeTotal := by
  unfold emitMakerFill
  split_ifs <;> simp

/-- The taker of an entry with `remaining` left. -/
def takerItem (e : QueueEntry) (orderId remaining : ℕ) : Item :=
  { Item.ofEntry e with orderId := orderId, amount := remaining }

/-- A resting order as an item. -/
def makerItem (s : OrderBook) (cur : ℕ) : Item := Item.ofOrder cur (s.core cur)

theorem fillMaker_frame (e : QueueEntry) (orderId cur q remaining trade : ℕ) :
    Frame s (s.fillMaker e orderId cur q remaining trade) := by
  unfold fillMaker
  dsimp only
  refine Frame.trans ?_ (setBook_frame _ _)
  refine Frame.trans ?_ (emitMakerFill_frame _ _ _)
  refine Frame.trans ?_ (processFillTo_frame _ _ _ _ _ _ _ _ _ _ _ _ _)
  refine Frame.trans ?_ (processFillTo_frame _ _ _ _ _ _ _ _ _ _ _ _ _)
  rfl

theorem fillMaker_outs (e : QueueEntry) (orderId cur q remaining trade : ℕ)
    (hq : (s.order cur).price = q) :
    (s.fillMaker e orderId cur q remaining trade).outs = s.outs ++
      [⟨(s.order cur).depositHash, .onOrderFilled e.params.outcomeId trade q (s.order cur).isBuy 0
          (makerRebateOf (takerFeeOf (notionalOf trade q))) true cur
          (decide ((s.order cur).amount = trade)) s.numOutcomes (s.order cur).clientOrderId,
          (s.order cur).sub, some e.batch⟩,
        ⟨e.depositHash, .onOrderFilled e.params.outcomeId trade q e.params.isBuy
          (if e.params.isBuy ∧ ¬ e.params.isMarket then
            notionalOf trade (e.params.storedPrice - q) else 0)
          (takerFeeOf (notionalOf trade q)) false orderId
          (decide (takerSpent e.params trade q = remaining)) s.numOutcomes e.params.clientOrderId,
          e.sub, some e.batch⟩] := by
  unfold fillMaker
  dsimp only
  rw [setBook_outs, emitMakerFill_outs, processFillTo_outs, processFillTo_outs]
  have hz : (if e.params.isBuy = true then 0 else notionalOf trade ((s.order cur).price - q)) =
      0 := by
    rw [hq]
    simp [notionalOf]
  rw [hz, (processFillTo_frame ..).numOutcomes]
  simp [outs]

theorem fillMaker_fees (e : QueueEntry) (orderId cur q remaining trade : ℕ) :
    (s.fillMaker e orderId cur q remaining trade).feeTotal = s.feeTotal +
      (takerFeeOf (notionalOf trade q) - makerRebateOf (takerFeeOf (notionalOf trade q))) := by
  unfold fillMaker
  dsimp only
  refine (emitMakerFill_fees ..).trans ?_
  rw [processFillTo_fees, processFillTo_fees]
  rfl

theorem after_taker (e : QueueEntry) (orderId remaining spent : ℕ) :
    (takerItem e orderId remaining).after spent =
      if remaining = spent then 0 else {takerItem e orderId (remaining - spent)} := rfl

/-- One iteration of the match loop is one fill of the ledger. -/
theorem fillMaker_emits (e : QueueEntry) (orderId cur q remaining trade : ℕ)
    (r : s.toBook.Rep n A) (hs : s.Stored cur) (hk : (s.core cur).key = e.params.oppKey)
    (hq : (s.core cur).price = q) (hl : (s.makerItem cur).isMarket = false) (hid : orderId ≠ 0)
    (hc : Book.pricesCross e.params.isBuy e.params.storedPrice e.params.isMarket q = true)
    (h0 : 0 < trade) (ht : trade ≤ (s.core cur).amount)
    (hspent : takerSpent e.params trade q ≤ remaining) :
    Emits (some e.batch) (takerItem e orderId remaining ::ₘ (s.resting n + K)) s
      ((takerItem e orderId remaining).after (takerSpent e.params trade q) +
        ((s.fillMaker e orderId cur q remaining trade).resting n + K))
      (s.fillMaker e orderId cur q remaining trade) := by
  have ho : (s.order cur).outcomeId = e.params.outcomeId := congrArg LevelKey.outcomeId hk
  have hside : (s.order cur).isBuy = !e.params.isBuy := congrArg LevelKey.isBuy hk
  have hprice : (s.order cur).price = q := hq
  have hmatch : (takerItem e orderId remaining).Matches (s.makerItem cur) := by
    refine ⟨ho.symm, ?_, hl, ?_, (r.bound cur hs).1.ne', hid⟩
    · change e.params.isBuy = !(s.order cur).isBuy
      rw [hside, Bool.not_not]
    · change Book.pricesCross e.params.isBuy e.params.price e.params.isMarket (s.core cur).price = _
      rw [hq, ← hc]
      unfold Book.pricesCross PlaceParams.storedPrice
      split_ifs <;> rfl
  have hsp : (takerItem e orderId remaining).spent trade (s.makerItem cur).price =
      takerSpent e.params trade q := by
    rw [show (s.makerItem cur).price = q from hq]
    rfl
  have hstep := LedgerStep.fill (N := s.numOutcomes) (takerItem e orderId remaining)
    (s.makerItem cur) (s.restingExcept n cur + K) trade (some e.batch) hmatch h0 ht
    (by rw [hsp]; exact hspent)
  have hmk : (s.makerItem cur).makerFilled trade s.numOutcomes =
      .onOrderFilled e.params.outcomeId trade q (s.order cur).isBuy 0
        (makerRebateOf (takerFeeOf (notionalOf trade q))) true cur
        (decide ((s.order cur).amount = trade)) s.numOutcomes (s.order cur).clientOrderId := by
    rw [Item.makerFilled, show (s.makerItem cur).price = q from hq,
      show (s.makerItem cur).outcomeId = e.params.outcomeId from ho]
    rfl
  have htk : (takerItem e orderId remaining).takerFilled trade (s.makerItem cur).price
      s.numOutcomes = .onOrderFilled e.params.outcomeId trade q e.params.isBuy
        (if e.params.isBuy ∧ ¬ e.params.isMarket then
          notionalOf trade (e.params.storedPrice - q) else 0)
        (takerFeeOf (notionalOf trade q)) false orderId
        (decide (takerSpent e.params trade q = remaining)) s.numOutcomes
        e.params.clientOrderId := by
    have hsto : (if e.params.isBuy = true ∧ ¬ e.params.isMarket = true then
        notionalOf trade (e.params.storedPrice - q) else 0) =
        if e.params.isBuy = true ∧ ¬ e.params.isMarket = true then
          notionalOf trade (e.params.price - q) else 0 := by
      unfold PlaceParams.storedPrice
      split_ifs <;> simp_all
    rw [Item.takerFilled, hsp, show (s.makerItem cur).price = q from hq, hsto,
      decide_eq_decide.mpr (eq_comm (a := takerSpent e.params trade q))]
    rfl
  rw [hsp, hmk, htk] at hstep
  refine ⟨fillMaker_frame e orderId cur q remaining trade, _,
    fillMaker_outs e orderId cur q remaining trade hprice, ?_, by simp [Callback.isAck], ?_⟩
  · rw [fillMaker_toBook, r.resting_consume trade hs ho,
      Book.resting_split hs (r.bound cur hs).2.1, Multiset.cons_add, add_assoc]
    exact LedgerPath.single hstep
  · rw [fillMaker_fees]
    have := makerRebateOf_le (takerFeeOf (notionalOf trade q))
    simp [Callback.fee]
    omega

/-- Makers the walk may touch: distinct resting limit orders that cross. -/
structure MakersOk (s : OrderBook) (p : PlaceParams) (ms : List Maker) : Prop where
  nodup : (ms.map Maker.id).Nodup
  stored : ∀ m ∈ ms, s.Stored m.id ∧ (s.core m.id).key = p.oppKey ∧
    (s.core m.id).price = m.price ∧ (s.core m.id).amount = m.amount
  limit : ∀ m ∈ ms, (s.makerItem m.id).isMarket = false
  cross : ∀ m ∈ ms, Book.pricesCross p.isBuy p.storedPrice p.isMarket m.price = true

theorem MakersOk.tail {e : QueueEntry} {m : Maker} {ms : List Maker} (r : s.toBook.Rep n A)
    (h : s.MakersOk e.params (m :: ms)) (orderId q remaining trade : ℕ) :
    (s.fillMaker e orderId m.id q remaining trade).MakersOk e.params ms := by
  obtain ⟨hs, hk, -, -⟩ := h.stored m (by simp)
  have ho : (s.order m.id).outcomeId = e.params.outcomeId := congrArg LevelKey.outcomeId hk
  have hnd := List.nodup_cons.mp h.nodup
  have hne (x) (hx : x ∈ ms) : x.id ≠ m.id := fun e => hnd.1 (List.mem_map.mpr ⟨x, hx, e⟩)
  have hcore (x) (hx : x ∈ ms) : (s.fillMaker e orderId m.id q remaining trade).core x.id =
      s.core x.id := by
    rw [fillMaker_toBook, Book.consume_core _ r hs ho, if_neg (hne x hx)]
  refine ⟨hnd.2, fun x hx => ?_, fun x hx => ?_, fun x hx => h.cross x (by simp [hx])⟩
  · rw [hcore x hx, fillMaker_toBook, Book.consume_stored r hs ho]
    exact ⟨⟨(h.stored x (by simp [hx])).1, fun hh => hne x hx hh.1⟩,
      (h.stored x (by simp [hx])).2⟩
  · rw [makerItem, hcore x hx]
    exact h.limit x (by simp [hx])

theorem takerSpent_le (p : PlaceParams) (remaining a q : ℕ) :
    takerSpent p (tradeSize p remaining a q) q ≤ remaining := by
  unfold takerSpent tradeSize notionalOf
  dsimp only
  split_ifs with h1 h2 h3 h3 h4
  · calc a * q / FULL_PERCENT ≤ (remaining * FULL_PERCENT / q) * q / FULL_PERCENT :=
        Nat.div_le_div_right (Nat.mul_le_mul_right q h3.le)
      _ ≤ remaining * FULL_PERCENT / FULL_PERCENT :=
        Nat.div_le_div_right (Nat.div_mul_le_self _ _)
      _ = remaining := Nat.mul_div_cancel _ (by decide)
  · calc (remaining * FULL_PERCENT / q) * q / FULL_PERCENT
        ≤ remaining * FULL_PERCENT / FULL_PERCENT :=
        Nat.div_le_div_right (Nat.div_mul_le_self _ _)
      _ = remaining := Nat.mul_div_cancel _ (by decide)
  · omega
  · have : q = 0 := by omega
    simp [this]
  · omega
  · omega

theorem tradeSize_pos (p : PlaceParams) {remaining a : ℕ} (q : ℕ) (hr : remaining ≠ 0)
    (ha : 0 < a) (h : ¬ ((p.isBuy ∧ p.isMarket) ∧ tradeSize p remaining a q = 0)) :
    0 < tradeSize p remaining a q := by
  by_cases hm : p.isBuy ∧ p.isMarket
  · exact Nat.pos_of_ne_zero fun h0 => h ⟨hm, h0⟩
  · unfold tradeSize
    rw [if_neg hm]
    split_ifs <;> omega

/-- The taker while it has something left. -/
def takerLeft (e : QueueEntry) (orderId remaining : ℕ) : Multiset Item :=
  if remaining = 0 then 0 else {takerItem e orderId remaining}

theorem applyFills_cons (e : QueueEntry) (orderId : ℕ) (f : Fill) (fills : List Fill) :
    applyFills e orderId s (f :: fills) = applyFills e orderId
      (s.fillMaker e orderId f.maker.id f.maker.price f.remaining f.trade) fills := rfl

/-- A whole walk is a sequence of ledger fills. -/
theorem walk_emits (e : QueueEntry) (orderId left remaining : ℕ) (ms : List Maker)
    (hid : orderId ≠ 0) (r : s.toBook.Rep n A) (hm : s.MakersOk e.params ms) :
    let w := walk e.params left remaining ms
    Emits (some e.batch) (takerLeft e orderId remaining + (s.resting n + K)) s
      (takerLeft e orderId w.remaining + ((applyFills e orderId s w.fills).resting n + K))
      (applyFills e orderId s w.fills) := by
  induction ms generalizing s A left remaining with
  | nil =>
    rw [walk_nil]
    exact .refl _ _ _
  | cons m ms ih =>
    by_cases h0 : remaining = 0
    · subst h0
      rw [walk_zero]
      exact .refl _ _ _
    cases left with
    | zero =>
      rw [walk_cap _ _ _ _ h0]
      exact .refl _ _ _
    | succ left =>
      rw [walk_succ _ _ _ _ _ h0]
      split_ifs with hd
      · exact .refl _ _ _
      obtain ⟨hs, hk, hq, ha⟩ := hm.stored m (by simp)
      have ho : (s.order m.id).outcomeId = e.params.outcomeId := congrArg LevelKey.outcomeId hk
      have hpos : 0 < m.amount := ha ▸ (r.bound _ hs).2.2
      have hle := tradeSize_le e.params remaining m.amount m.price
      set trade := tradeSize e.params remaining m.amount m.price with htr
      have hfill := fillMaker_emits (K := K) e orderId m.id m.price remaining trade r hs hk hq
        (hm.limit m (by simp)) hid (hm.cross m (by simp)) (tradeSize_pos _ _ h0 hpos hd)
        (ha ▸ hle) (takerSpent_le _ _ _ _)
      have r' := r.consume hs ho (ha ▸ hle : trade ≤ (s.core m.id).amount)
      rw [← fillMaker_toBook s e orderId m.id m.price remaining trade] at r'
      have hrest := ih left (remaining - takerSpent e.params trade m.price) r'
        (hm.tail r orderId m.price remaining trade)
      dsimp only at hrest ⊢
      rw [applyFills_cons]
      refine Emits.trans ?_ hrest
      have hsp := takerSpent_le e.params remaining m.amount m.price
      rw [← htr] at hsp
      have e1 : (takerItem e orderId remaining).after (takerSpent e.params trade m.price) =
          takerLeft e orderId (remaining - takerSpent e.params trade m.price) := by
        rw [after_taker, takerLeft]
        exact if_congr (by omega) rfl rfl
      rw [e1] at hfill
      rw [takerLeft, if_neg h0, Multiset.singleton_add]
      exact hfill

end Fill

end Dexdo.OrderBook
