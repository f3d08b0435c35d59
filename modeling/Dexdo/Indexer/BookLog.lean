import Dexdo.Indexer.LiveRows
import Dexdo.OrderBook.Lots

namespace Dexdo

open ReadModel

/-- The event of the book's log an action reports; `other` stands for a type that writes neither
table. -/
def Action.prediction? : Action → Option PredictionEvent
  | .event (.orderPlaced orderId outcomeId isBuy _ price amount clientOrderId _ _) =>
    some (.OrderPlaced orderId outcomeId isBuy price amount (some clientOrderId))
  | .event (.orderFilled orderId filledAmount clearingPrice _ isTaker _ _) =>
    some (.OrderFilled orderId filledAmount clearingPrice isTaker)
  | .event (.orderCancelled orderId _) => some (.OrderCancelled orderId)
  | .event _ => some .other
  | _ => none

/-- The log of a run, oldest first. -/
def bookLog (tr : List (Call × OrderBook)) : List PredictionEvent :=
  (traceActions tr).filterMap Action.prediction?

namespace ReadModel

variable {lot : ℕ} {db : LiveDb} {ob : Addr} {node : EventNode} {event : PredictionEvent}

/-- Price and amount of an event are on the grid. -/
def PredictionEvent.OnGrid (lot : ℕ) : PredictionEvent → Prop
  | .OrderPlaced _ _ _ price amount _ => Dexdo.OnGrid lot amount price
  | .OrderFilled _ filledAmount clearingPrice _ => Dexdo.OnGrid lot filledAmount clearingPrice
  | _ => True

/-- Price and amounts of a row are on the grid. -/
structure LiveOrder.OnGrid (lot : ℕ) (o : LiveOrder) : Prop where
  initial : Dexdo.OnGrid lot o.amountInitial o.price
  remaining : lot ∣ o.amountRemaining

/-- The rows of book `ob` are on the grid. -/
structure LiveDb.OnGrid (lot : ℕ) (ob : Addr) (db : LiveDb) : Prop where
  orders : ∀ id o, db.liveOrders ob id = some o → o.OnGrid lot
  trades : ∀ tradeId t, db.trades tradeId = some t → t.orderbookAddress = ob →
    Dexdo.OnGrid lot t.qty t.price

theorem log_onGrid {H : List Action} (h : LogOnGrid lot H) :
    ∀ event ∈ H.filterMap Action.prediction?, event.OnGrid lot := by
  intro event he
  obtain ⟨a, ha, hev⟩ := List.mem_filterMap.mp he
  cases a with
  | event e =>
    cases e with
    | orderPlaced orderId outcomeId isBuy flags price amount =>
      cases hev
      refine h.placed orderId ⟨outcomeId, isBuy, flags, price, amount⟩ ?_
      exact List.mem_filterMap.mpr ⟨_, ha, if_pos rfl⟩
    | orderFilled orderId filledAmount clearingPrice feeAmount isTaker matchId =>
      cases hev
      apply h.filled ⟨orderId, filledAmount, clearingPrice, isTaker, matchId⟩
      exact List.mem_filterMap.mpr ⟨_, ha, rfl⟩
    | _ =>
      cases hev
      exact trivial
  | _ => cases hev

theorem LiveOrder.OnGrid.filled {o : LiveOrder} (h : o.OnGrid lot) {filledAmount : ℕ}
    (hf : lot ∣ filledAmount) : (o.filled filledAmount node).OnGrid lot := by
  unfold LiveOrder.filled
  split_ifs
  · exact h
  all_goals exact ⟨h.initial, Nat.dvd_sub h.remaining hf⟩

theorem LiveOrder.OnGrid.cancelled {o : LiveOrder} (h : o.OnGrid lot) :
    (o.cancelled node).OnGrid lot := by
  unfold LiveOrder.cancelled
  split_ifs
  · exact h
  · exact ⟨h.initial, h.remaining⟩

/-- An event on the grid leaves its row on the grid. -/
theorem row_onGrid {id : ℕ} {r : Option LiveOrder} (hr : ∀ o, r = some o → o.OnGrid lot)
    (he : node.src = ob → event.OnGrid lot) :
    ∀ o, event.row node ob id r = some o → o.OnGrid lot := by
  intro o ho
  cases event with
  | OrderPlaced orderId outcomeId isBuy price amount =>
    simp only [PredictionEvent.row] at ho
    split_ifs at ho with hc
    · have hgrid : Dexdo.OnGrid lot amount price := he hc.1.1.symm
      cases r with
      | none =>
        cases ho
        exact ⟨hgrid, hgrid.lots⟩
      | some o₁ =>
        cases ho
        dsimp only [Option.map_some, Option.getD_some]
        unfold LiveOrder.replaced
        split_ifs
        · exact ⟨hgrid, hgrid.lots⟩
        · exact hr o₁ rfl
    · exact hr o ho
  | OrderPlacedConfirmed =>
    simp only [PredictionEvent.row] at ho
    split_ifs at ho with hc
    · obtain ⟨o₁, rfl, rfl⟩ := Option.map_eq_some_iff.mp ho
      exact ⟨(hr o₁ rfl).initial, (hr o₁ rfl).remaining⟩
    · exact hr o ho
  | OrderFilled orderId filledAmount clearingPrice =>
    simp only [PredictionEvent.row] at ho
    split_ifs at ho with hc
    · obtain ⟨o₁, rfl, rfl⟩ := Option.map_eq_some_iff.mp ho
      have hgrid : Dexdo.OnGrid lot filledAmount clearingPrice := he hc.1.symm
      exact (hr o₁ rfl).filled hgrid.lots
    · exact hr o ho
  | OrderCancelled =>
    simp only [PredictionEvent.row] at ho
    split_ifs at ho with hc
    · obtain ⟨o₁, rfl, rfl⟩ := Option.map_eq_some_iff.mp ho
      exact (hr o₁ rfl).cancelled
    · exact hr o ho
  | other => exact hr o ho

/-- Only a taker's fill writes the tape, and its row carries the fill. -/
theorem projected_trade {tradeId : ℕ} {t : Trade}
    (h : (projected db node event).trades tradeId = some t) :
    (∃ t₀, db.trades tradeId = some t₀ ∧ t.orderbookAddress = t₀.orderbookAddress ∧
      t.price = t₀.price ∧ t.qty = t₀.qty) ∨
    (t.orderbookAddress = node.src ∧ ∃ orderId, event = .OrderFilled orderId t.qty t.price true) := by
  have hsame (hdb : (projected db node event).trades = db.trades) : ∃ t₀,
      db.trades tradeId = some t₀ ∧ t.orderbookAddress = t₀.orderbookAddress ∧
        t.price = t₀.price ∧ t.qty = t₀.qty := ⟨t, hdb ▸ h, rfl, rfl, rfl⟩
  cases event with
  | OrderPlaced =>
    left
    apply hsame
    simp only [projected, projectPredictionEvent, applyOrderPlaced]
    split_ifs <;> rfl
  | OrderPlacedConfirmed =>
    left
    apply hsame
    simp only [projected, projectPredictionEvent, applyOrderPlacedConfirmed, Option.map_some,
      Option.getD_some]
    split <;> rfl
  | OrderFilled orderId filledAmount clearingPrice isTaker =>
    simp only [projected, projectPredictionEvent, applyOrderFilled, Option.map_some,
      Option.getD_some] at h hsame
    cases ho : db.liveOrders node.src orderId with
    | none =>
      rw [ho] at hsame
      exact .inl (hsame rfl)
    | some =>
      rw [ho] at h hsame
      cases isTaker with
      | false => exact .inl (hsame rfl)
      | true =>
        simp only [if_true, insertTrade, LiveDb.setTrade, LiveDb.trades_setOrder] at h
        by_cases hk : tradeId = node.chainOrder
        · subst hk
          rw [Function.update_self] at h
          cases ht : db.trades node.chainOrder with
          | none =>
            rw [ht] at h
            cases h
            exact .inr ⟨rfl, orderId, rfl⟩
          | some t₀ =>
            rw [ht] at h
            cases h
            left
            refine ⟨t₀, rfl, ?_⟩
            dsimp only
            unfold Trade.rewritten
            split_ifs <;> exact ⟨rfl, rfl, rfl⟩
        · rw [Function.update_of_ne hk] at h
          exact .inl ⟨t, h, rfl, rfl, rfl⟩
  | OrderCancelled =>
    left
    apply hsame
    simp only [projected, projectPredictionEvent, applyOrderCancelled, Option.map_some,
      Option.getD_some]
    split <;> rfl
  | other => exact .inl (hsame rfl)

theorem projected_onGrid (h : db.OnGrid lot ob) (he : node.src = ob → event.OnGrid lot) :
    (projected db node event).OnGrid lot ob := by
  refine ⟨fun id o ho => ?_, fun tradeId t ht hob => ?_⟩
  · rw [projected_row] at ho
    exact row_onGrid (h.orders id) he o ho
  · rcases projected_trade ht with ⟨t₀, ht₀, ha, hp, hq⟩ | ⟨ha, orderId, rfl⟩
    · rw [hp, hq]
      exact h.trades tradeId t₀ ht₀ (ha.symm.trans hob)
    · exact he (ha.symm.trans hob)

theorem projectAll_onGrid {log : List (EventNode × PredictionEvent)}
    (h : ∀ x ∈ log, x.1.src = ob → x.2.OnGrid lot) : (projectAll log).OnGrid lot ob := by
  induction log using List.reverseRecOn with
  | nil =>
    refine ⟨fun id o ho => ?_, fun tradeId t ht => ?_⟩
    · cases ho
    · cases ht
  | append_singleton log x ih =>
    have hx : x.1.src = ob → x.2.OnGrid lot := h x (List.mem_append_right _ List.mem_cons_self)
    have hlog := ih fun y hy => h y (List.mem_append_left _ hy)
    rw [projectAll, List.foldl_append, List.foldl_cons, List.foldl_nil]
    exact projected_onGrid hlog hx

end ReadModel

end Dexdo
