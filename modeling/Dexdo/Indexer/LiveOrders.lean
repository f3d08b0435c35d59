import Dexdo.Indexer.Tables

namespace Dexdo

namespace ReadModel

/-- Largest value of a Rust `i32`, the type an outcome id is parsed into. -/
def I32_MAX : ℕ := 2 ^ 31 - 1

inductive LiveStatus
  | OPEN
  | FILLED
  | CANCELLED
  | REJECTED
  deriving DecidableEq

/-- Row of `live_orders`. -/
structure LiveOrder where
  outcomeId : ℕ
  isBuy : Bool
  price : ℕ
  amountInitial : ℕ
  amountRemaining : ℕ
  clientOrderId : Option ℕ
  status : LiveStatus
  lastChainOrder : ℕ
  ownerPnAddress : Option Addr
  chainCreatedAt : Option ℕ
  chainUpdatedAt : Option ℕ
  placedChainOrder : ℕ
  deriving DecidableEq

/-- Row of `trades`, whose key `trade_id` is the chain order of its event. -/
structure Trade where
  orderbookAddress : Addr
  outcomeId : ℕ
  price : ℕ
  qty : ℕ
  isBuyerMaker : Bool
  chainTime : Option ℕ
  deriving DecidableEq

/-- The prediction tables by their keys. -/
structure LiveDb where
  liveOrders : Addr → ℕ → Option LiveOrder
  trades : ℕ → Option Trade

/-- Decoded events of a prediction book and of the notes that place on it; `other` stands for a
type that writes neither table. -/
inductive PredictionEvent
  | OrderPlaced (orderId outcomeId : ℕ) (isBuy : Bool) (price amount : ℕ)
      (clientOrderId : Option ℕ)
  | OrderPlacedConfirmed (orderBook : Addr) (orderId : ℕ)
  | OrderFilled (orderId filledAmount clearingPrice : ℕ) (isTaker : Bool)
  | OrderCancelled (orderId : ℕ)
  | other
  deriving DecidableEq

namespace LiveOrder

/-- The values a placement inserts. -/
def placed (outcomeId : ℕ) (isBuy : Bool) (price amount : ℕ) (clientOrderId : Option ℕ)
    (node : EventNode) : LiveOrder where
  outcomeId := outcomeId
  isBuy := isBuy
  price := price
  amountInitial := amount
  amountRemaining := amount
  clientOrderId := clientOrderId
  status := .OPEN
  lastChainOrder := node.chainOrder
  ownerPnAddress := none
  chainCreatedAt := node.createdAt
  chainUpdatedAt := node.createdAt
  placedChainOrder := node.chainOrder

variable (o excluded : LiveOrder)

/-- `status in ('FILLED', 'CANCELLED', 'REJECTED')`. -/
def isTerminal : Prop := o.status = .FILLED ∨ o.status = .CANCELLED ∨ o.status = .REJECTED

instance : Decidable o.isTerminal := inferInstanceAs (Decidable (_ ∨ _ ∨ _))

/-- The `where` of the placement's conflict arm: only an unmutated row is overwritten. -/
def takesPlacement : Prop := ¬ o.isTerminal ∧ o.amountRemaining = o.amountInitial

instance : Decidable o.takesPlacement := inferInstanceAs (Decidable (_ ∧ _))

def replaced : LiveOrder :=
  if o.takesPlacement then
    { o with
      outcomeId := excluded.outcomeId
      isBuy := excluded.isBuy
      price := excluded.price
      amountInitial := excluded.amountInitial
      amountRemaining := excluded.amountRemaining
      clientOrderId := excluded.clientOrderId
      status := .OPEN
      lastChainOrder := max o.lastChainOrder excluded.lastChainOrder
      chainCreatedAt := o.chainCreatedAt.or excluded.chainCreatedAt
      chainUpdatedAt := greatest o.chainUpdatedAt excluded.chainUpdatedAt }
  else o

/-- The first owner a note confirms stays. -/
def confirmed (ownerPnAddress : Addr) : LiveOrder :=
  { o with ownerPnAddress := o.ownerPnAddress.or (some ownerPnAddress) }

/-- A fill lowers the row and closes it at zero. A terminal row is left as it is, and an open row
with nothing left is not closed. -/
def filled (filledAmount : ℕ) (node : EventNode) : LiveOrder :=
  if o.isTerminal then o
  else
    { o with
      amountRemaining := o.amountRemaining - filledAmount
      status :=
        if o.amountRemaining = 0 then o.status
        else if o.amountRemaining - filledAmount = 0 then .FILLED
        else o.status
      lastChainOrder := max o.lastChainOrder node.chainOrder
      chainUpdatedAt := greatest o.chainUpdatedAt node.createdAt }

def cancelled (node : EventNode) : LiveOrder :=
  if o.isTerminal then o
  else
    { o with
      status := .CANCELLED
      lastChainOrder := max o.lastChainOrder node.chainOrder
      chainUpdatedAt := greatest o.chainUpdatedAt node.createdAt }

end LiveOrder

/-- What `apply_order_filled` reads back from the row it updated. -/
structure FilledOrderPrior where
  status : LiveStatus
  overshoot : Bool
  sentinel : Bool
  outcomeId : ℕ
  isBuy : Bool
  deriving DecidableEq

def LiveOrder.prior (o : LiveOrder) (filledAmount : ℕ) : FilledOrderPrior where
  status := o.status
  overshoot := decide (¬ o.isTerminal ∧ 0 < o.amountRemaining ∧ o.amountRemaining < filledAmount)
  sentinel := decide (o.status = .OPEN ∧ o.amountRemaining = 0)
  outcomeId := o.outcomeId
  isBuy := o.isBuy

/-- A row of the tape after another write of the same key. -/
def Trade.rewritten (t excluded : Trade) : Trade :=
  if t.orderbookAddress = excluded.orderbookAddress ∧ t.outcomeId = excluded.outcomeId ∧
      t.price = excluded.price ∧ t.qty = excluded.qty ∧ t.isBuyerMaker = excluded.isBuyerMaker then
    { t with chainTime := t.chainTime.or excluded.chainTime }
  else t

namespace LiveDb

def empty : LiveDb := ⟨fun _ _ => none, fun _ => none⟩

variable (db : LiveDb)

def setOrder (ob : Addr) (id : ℕ) (row : LiveOrder) : LiveDb :=
  { db with
    liveOrders := Function.update db.liveOrders ob
      (Function.update (db.liveOrders ob) id (some row)) }

def setTrade (tradeId : ℕ) (row : Trade) : LiveDb :=
  { db with trades := Function.update db.trades tradeId (some row) }

theorem liveOrders_setOrder (ob : Addr) (id : ℕ) (row : LiveOrder) (ob' : Addr) (id' : ℕ) :
    (db.setOrder ob id row).liveOrders ob' id' =
      if ob' = ob ∧ id' = id then some row else db.liveOrders ob' id' := by
  by_cases hob : ob' = ob
  · subst hob
    by_cases hid : id' = id
    · subst hid
      simp [setOrder]
    · simp [setOrder, hid]
  · simp [setOrder, hob]

@[simp]
theorem trades_setOrder (ob : Addr) (id : ℕ) (row : LiveOrder) :
    (db.setOrder ob id row).trades = db.trades := rfl

end LiveDb

section Handlers

variable (db : LiveDb) (node : EventNode)

/-- An outcome id past `i32` does not parse, and the projection fails. -/
def applyOrderPlaced (orderId outcomeId : ℕ) (isBuy : Bool) (price amount : ℕ)
    (clientOrderId : Option ℕ) : Option (LiveDb × ProjectionOutcome) :=
  if outcomeId ≤ I32_MAX then
    let excluded := LiveOrder.placed outcomeId isBuy price amount clientOrderId node
    some (db.setOrder node.src orderId (match db.liveOrders node.src orderId with
      | none => excluded
      | some o => o.replaced excluded), .Applied)
  else none

def applyOrderPlacedConfirmed (orderBook : Addr) (orderId : ℕ) : LiveDb × ProjectionOutcome :=
  match db.liveOrders orderBook orderId with
  | none => (db, .Deferred)
  | some o => (db.setOrder orderBook orderId (o.confirmed node.src), .Applied)

/-- The row of the tape a taker's fill inserts. -/
def insertTrade (prior : FilledOrderPrior) (filledAmount clearingPrice : ℕ) : LiveDb :=
  let excluded : Trade :=
    ⟨node.src, prior.outcomeId, clearingPrice, filledAmount, !prior.isBuy, node.createdAt⟩
  db.setTrade node.chainOrder (match db.trades node.chainOrder with
    | none => excluded
    | some t => t.rewritten excluded)

def applyOrderFilled (orderId filledAmount clearingPrice : ℕ) (isTaker : Bool) :
    LiveDb × ProjectionOutcome :=
  match db.liveOrders node.src orderId with
  | none => (db, .Deferred)
  | some o =>
    let updated := db.setOrder node.src orderId (o.filled filledAmount node)
    if isTaker then
      (insertTrade updated node (o.prior filledAmount) filledAmount clearingPrice, .Applied)
    else (updated, .Applied)

def applyOrderCancelled (orderId : ℕ) : LiveDb × ProjectionOutcome :=
  match db.liveOrders node.src orderId with
  | none => (db, .Deferred)
  | some o => (db.setOrder node.src orderId (o.cancelled node), .Applied)

/-- `none` is a projection that failed. -/
def projectPredictionEvent : PredictionEvent → Option (LiveDb × ProjectionOutcome)
  | .OrderPlaced orderId outcomeId isBuy price amount clientOrderId =>
    applyOrderPlaced db node orderId outcomeId isBuy price amount clientOrderId
  | .OrderPlacedConfirmed orderBook orderId =>
    some (applyOrderPlacedConfirmed db node orderBook orderId)
  | .OrderFilled orderId filledAmount clearingPrice isTaker =>
    some (applyOrderFilled db node orderId filledAmount clearingPrice isTaker)
  | .OrderCancelled orderId => some (applyOrderCancelled db node orderId)
  | .other => some (db, .Applied)

/-- The tables once an event was tried: a failed projection leaves them alone. -/
def projected (event : PredictionEvent) : LiveDb :=
  ((projectPredictionEvent db node event).map Prod.fst).getD db

end Handlers

/-- What an event does to the row `id` of book `ob`. -/
def PredictionEvent.row (event : PredictionEvent) (node : EventNode) (ob : Addr) (id : ℕ)
    (r : Option LiveOrder) : Option LiveOrder :=
  match event with
  | .OrderPlaced orderId outcomeId isBuy price amount clientOrderId =>
    if (ob = node.src ∧ id = orderId) ∧ outcomeId ≤ I32_MAX then
      let excluded := LiveOrder.placed outcomeId isBuy price amount clientOrderId node
      some ((r.map (·.replaced excluded)).getD excluded)
    else r
  | .OrderPlacedConfirmed orderBook orderId =>
    if ob = orderBook ∧ id = orderId then r.map (·.confirmed node.src) else r
  | .OrderFilled orderId filledAmount _ _ =>
    if ob = node.src ∧ id = orderId then r.map (·.filled filledAmount node) else r
  | .OrderCancelled orderId =>
    if ob = node.src ∧ id = orderId then r.map (·.cancelled node) else r
  | .other => r

section Rows

variable {db : LiveDb} {node : EventNode} {ob : Addr} {id : ℕ}

theorem updated_row {r : LiveDb × ProjectionOutcome} {ob' : Addr} {orderId : ℕ}
    {g : LiveOrder → LiveOrder} (hnone : db.liveOrders ob' orderId = none → r.1 = db)
    (hsome : ∀ o, db.liveOrders ob' orderId = some o →
      r.1.liveOrders = (db.setOrder ob' orderId (g o)).liveOrders) :
    r.1.liveOrders ob id =
      if ob = ob' ∧ id = orderId then (db.liveOrders ob id).map g else db.liveOrders ob id := by
  cases ho : db.liveOrders ob' orderId with
  | none =>
    rw [hnone ho]
    split
    · rename_i h
      obtain ⟨rfl, rfl⟩ := h
      rw [ho]
      rfl
    · rfl
  | some o =>
    rw [hsome o ho, LiveDb.liveOrders_setOrder]
    split
    · rename_i h
      obtain ⟨rfl, rfl⟩ := h
      rw [ho]
      rfl
    · rfl

/-- The row of an order after an event was tried. -/
theorem projected_row (event : PredictionEvent) :
    (projected db node event).liveOrders ob id =
      event.row node ob id (db.liveOrders ob id) := by
  cases event with
  | OrderPlaced orderId outcomeId isBuy price amount clientOrderId =>
    simp only [projected, projectPredictionEvent, applyOrderPlaced, PredictionEvent.row]
    by_cases hid : outcomeId ≤ I32_MAX
    · simp only [hid, if_true, and_true, Option.map_some, Option.getD_some]
      rw [LiveDb.liveOrders_setOrder]
      split
      · rename_i h
        obtain ⟨rfl, rfl⟩ := h
        cases db.liveOrders node.src id <;> rfl
      · rfl
    · simp only [hid, if_false, and_false, Option.map_none, Option.getD_none]
  | OrderPlacedConfirmed orderBook orderId =>
    apply updated_row (r := applyOrderPlacedConfirmed db node orderBook orderId)
    · intro h
      rw [applyOrderPlacedConfirmed, h]
    · intro o h
      rw [applyOrderPlacedConfirmed, h]
  | OrderFilled orderId filledAmount clearingPrice isTaker =>
    apply updated_row (r := applyOrderFilled db node orderId filledAmount clearingPrice isTaker)
    · intro h
      rw [applyOrderFilled, h]
    · intro o h
      rw [applyOrderFilled, h]
      dsimp only
      split <;> rfl
  | OrderCancelled orderId =>
    apply updated_row (r := applyOrderCancelled db node orderId)
    · intro h
      rw [applyOrderCancelled, h]
    · intro o h
      rw [applyOrderCancelled, h]
  | other => rfl

end Rows

/-- The projector takes the event as it is: no row in the way of a placement, none missing for
another event, none of them terminal, and no fill larger than what remains. -/
def PredictionEvent.Smooth (event : PredictionEvent) (node : EventNode) (db : LiveDb) : Prop :=
  match event with
  | .OrderPlaced orderId outcomeId _ _ _ _ =>
    db.liveOrders node.src orderId = none ∧ outcomeId ≤ I32_MAX
  | .OrderPlacedConfirmed orderBook orderId => (db.liveOrders orderBook orderId).isSome
  | .OrderFilled orderId filledAmount _ _ => ∃ o, db.liveOrders node.src orderId = some o ∧
      ¬ o.isTerminal ∧ (o.prior filledAmount).overshoot = false ∧
      (o.prior filledAmount).sentinel = false
  | .OrderCancelled orderId => ∃ o, db.liveOrders node.src orderId = some o ∧ ¬ o.isTerminal
  | .other => True

end ReadModel

end Dexdo
