import Dexdo.OrderBook.State
import Dexdo.Lib.Linked

namespace Dexdo.Book

/-- Best price level opposite to a taker: lowest ask for a buy, highest bid for a sell. -/
def bestOpposite (b : Book) (outcomeId : ℕ) (newIsBuy : Bool) (epochId : ℕ) :
    Option (ℕ × PriceLevel) :=
  if newIsBuy then (b.levels ⟨outcomeId, false, epochId⟩).min?
  else (b.levels ⟨outcomeId, true, epochId⟩).max?

/-- Next level opposite to a taker after `currentPrice`, in the worse direction. -/
def nextOpposite (b : Book) (outcomeId : ℕ) (newIsBuy : Bool) (epochId currentPrice : ℕ) :
    Option (ℕ × PriceLevel) :=
  if newIsBuy then (b.levels ⟨outcomeId, false, epochId⟩).next? currentPrice
  else (b.levels ⟨outcomeId, true, epochId⟩).prev? currentPrice

def pricesCross (newIsBuy : Bool) (newPrice : ℕ) (newIsMarket : Bool) (cpPrice : ℕ) : Bool :=
  if newIsMarket then true
  else if newIsBuy then decide (cpPrice ≤ newPrice)
  else decide (newPrice ≤ cpPrice)

def collateralFor (isBuy : Bool) (price amount : ℕ) : ℕ :=
  if isBuy then notionalOf amount price else amount

/-- The record `_insertIntoBook` writes: last in its level and last of its owner. -/
def newOrder (b : Book) (callerHash : ℕ) (p : PlaceParams)
    (storedPrice amount priorFilledAccum opNonce sub : ℕ) : Order where
  depositHash := callerHash
  price := storedPrice
  amount := amount
  minAmount := 0
  initialAmount := p.amount
  filledAccum := priorFilledAccum
  clientOrderId := p.clientOrderId
  epochId := p.epochId
  opNonce := opNonce
  outcomeId := p.outcomeId
  flags := p.flags
  isBuy := p.isBuy
  nextAtPrice := 0
  prevAtPrice := (b.level p.key storedPrice).lastOrderId
  nextInOwner := 0
  prevInOwner := b.ownerTail callerHash
  sub := sub

/-- The price-level half of `_insertIntoBook`. -/
def appendAtPrice (b : Book) (key : LevelKey) (price orderId amount : ℕ) : Book :=
  let level := b.level key price
  let priceTail := level.lastOrderId
  if priceTail = 0 then b.setLevel key price ⟨orderId, orderId, amount⟩
  else (b.modifyLinks priceTail ({ · with nextAtPrice := orderId })).setLevel key price
    { level with lastOrderId := orderId, totalAmount := level.totalAmount + amount }

/-- The owner half of `_insertIntoBook`. -/
def appendInOwner (b : Book) (callerHash orderId : ℕ) : Book :=
  let oTail := b.ownerTail callerHash
  let b := if oTail = 0 then b.setOwnerHead callerHash orderId
    else b.modifyLinks oTail ({ · with nextInOwner := orderId })
  b.setOwnerTail callerHash orderId

def insertIntoBook (b : Book) (orderId callerHash : ℕ) (p : PlaceParams)
    (storedPrice amount priorFilledAccum opNonce sub : ℕ) : Book :=
  let b := b.putOrder orderId
    (b.newOrder callerHash p storedPrice amount priorFilledAccum opNonce sub)
  let b := b.appendAtPrice p.key storedPrice orderId amount
  let b := b.appendInOwner callerHash orderId
  { b with orderCount := b.orderCount + 1 }

/-- The level record `_removeFromBook` computes for the level of `o`. -/
def unlinkedLevel (level : PriceLevel) (o : Order) : PriceLevel where
  firstOrderId := if o.prevAtPrice = 0 then o.nextAtPrice else level.firstOrderId
  lastOrderId := if o.nextAtPrice = 0 then o.prevAtPrice else level.lastOrderId
  totalAmount := if o.amount ≤ level.totalAmount then level.totalAmount - o.amount else 0

/-- The price-level half of `_removeFromBook`: relink the neighbours and rewrite the level. -/
def unlinkAtPrice (b : Book) (o : Order) : Book :=
  let level := unlinkedLevel (b.level o.key o.price) o
  let b := if o.prevAtPrice = 0 then b
    else b.modifyLinks o.prevAtPrice ({ · with nextAtPrice := o.nextAtPrice })
  let b := if o.nextAtPrice = 0 then b
    else b.modifyLinks o.nextAtPrice ({ · with prevAtPrice := o.prevAtPrice })
  if level.firstOrderId = 0 then b.deleteLevel o.key o.price
  else b.setLevel o.key o.price level

/-- The owner half of `_removeFromBook`. -/
def unlinkInOwner (b : Book) (o : Order) : Book :=
  let b := if o.prevInOwner = 0 then b.setOwnerHead o.depositHash o.nextInOwner
    else b.modifyLinks o.prevInOwner ({ · with nextInOwner := o.nextInOwner })
  if o.nextInOwner = 0 then b.setOwnerTail o.depositHash o.prevInOwner
  else b.modifyLinks o.nextInOwner ({ · with prevInOwner := o.prevInOwner })

def removeFromBook (b : Book) (orderId : ℕ) : Book :=
  let o := b.order orderId
  -- an already removed slot reads as zero; removing it twice would skew `_orderCount`
  if o.depositHash = 0 ∧ o.amount = 0 then b
  else
    let b := ((b.unlinkAtPrice o).unlinkInOwner o).deleteOrder orderId
    { b with orderCount := b.orderCount - 1 }

/-- The writes of one fill to its maker: a consumed order leaves the book, a partly filled one
and its level shrink in place. -/
def consume (b : Book) (outcomeId cur trade : ℕ) : Book :=
  let cp := b.order cur
  let b := b.modifyOrder cur fun o => { o with filledAccum := o.filledAccum + trade }
  if cp.amount = trade then b.removeFromBook cur
  else
    let b := b.modifyOrder cur fun o => { o with amount := cp.amount - trade }
    let key : LevelKey := ⟨outcomeId, cp.isBuy, cp.epochId⟩
    let lvl := b.level key cp.price
    b.setLevel key cp.price { lvl with totalAmount := lvl.totalAmount - trade }

end Dexdo.Book

namespace Dexdo

/-- The record with its links cleared. -/
def Order.unlinked (o : Order) : Order :=
  { o with toLinks := default }

namespace Book

/-- `_orders` has a record under `id`. -/
def Stored (b : Book) (id : ℕ) : Prop := (b.orders id).isSome

instance (b : Book) (id : ℕ) : Decidable (b.Stored id) :=
  inferInstanceAs (Decidable ((b.orders id).isSome = true))

/-- The order under `id` without its links. -/
def core (b : Book) (id : ℕ) : Order := (b.order id).unlinked

section Updates

variable (b : Book) (i j : ℕ) (f : Order → Order) (o : Order) (k : LevelKey) (q : ℕ)
  (l : PriceLevel) (h v : ℕ)

@[simp] theorem putOrder_order : (b.putOrder i o).order j = if j = i then o else b.order j := by
  by_cases h : j = i
  · subst h; simp [putOrder, order]
  · simp [putOrder, order, h]

@[simp] theorem putOrder_stored : (b.putOrder i o).Stored j ↔ j = i ∨ b.Stored j := by
  by_cases h : j = i
  · subst h; simp [putOrder, Stored]
  · simp [putOrder, Stored, h]

@[simp] theorem putOrder_level : (b.putOrder i o).level k q = b.level k q := rfl
@[simp] theorem putOrder_ownerHead : (b.putOrder i o).ownerHead = b.ownerHead := rfl
@[simp] theorem putOrder_ownerTail : (b.putOrder i o).ownerTail = b.ownerTail := rfl

@[simp] theorem deleteOrder_order :
    (b.deleteOrder i).order j = if j = i then default else b.order j := by
  by_cases h : j = i
  · subst h; simp [deleteOrder, order]
  · simp [deleteOrder, order, h]

@[simp] theorem deleteOrder_stored : (b.deleteOrder i).Stored j ↔ j ≠ i ∧ b.Stored j := by
  by_cases h : j = i
  · subst h; simp [deleteOrder, Stored]
  · simp [deleteOrder, Stored, h]

@[simp] theorem deleteOrder_levels : (b.deleteOrder i).levels = b.levels := rfl
@[simp] theorem deleteOrder_ownerHead : (b.deleteOrder i).ownerHead = b.ownerHead := rfl
@[simp] theorem deleteOrder_ownerTail : (b.deleteOrder i).ownerTail = b.ownerTail := rfl

@[simp] theorem modifyOrder_order :
    (b.modifyOrder i f).order j = if j = i then f (b.order i) else b.order j :=
  putOrder_order _ _ _ _

@[simp] theorem modifyOrder_stored : (b.modifyOrder i f).Stored j ↔ j = i ∨ b.Stored j :=
  putOrder_stored _ _ _ _

theorem modifyOrder_proj {α : Type} (π : Order → α) (h : ∀ o, π (f o) = π o) :
    π ((b.modifyOrder i f).order j) = π (b.order j) := by
  rw [modifyOrder_order]
  split_ifs with hj
  · rw [hj, h]
  · rfl

theorem setLevel_get? (k' : LevelKey) (q' : ℕ) :
    ((b.setLevel k q l).levels k').get? q' =
      if k' = k ∧ q' = q then some l else (b.levels k').get? q' := by
  by_cases hk : k' = k
  · subst hk
    by_cases hq : q' = q
    · subst hq; simp [setLevel]
    · simp [setLevel, hq]
  · simp [setLevel, hk]

theorem deleteLevel_get? (k' : LevelKey) (q' : ℕ) :
    ((b.deleteLevel k q).levels k').get? q' =
      if k' = k ∧ q' = q then none else (b.levels k').get? q' := by
  by_cases hk : k' = k
  · subst hk
    by_cases hq : q' = q
    · subst hq; simp [deleteLevel]
    · simp [deleteLevel, hq]
  · simp [deleteLevel, hk]

@[simp] theorem setLevel_level (k' : LevelKey) (q' : ℕ) :
    (b.setLevel k q l).level k' q' = if k' = k ∧ q' = q then l else b.level k' q' := by
  unfold level
  rw [setLevel_get?]
  split_ifs <;> rfl

@[simp] theorem setLevel_ownerHead : (b.setLevel k q l).ownerHead = b.ownerHead := rfl
@[simp] theorem setLevel_ownerTail : (b.setLevel k q l).ownerTail = b.ownerTail := rfl
@[simp] theorem setLevel_orderCount : (b.setLevel k q l).orderCount = b.orderCount := rfl
@[simp] theorem setLevel_order : (b.setLevel k q l).order i = b.order i := rfl
@[simp] theorem setLevel_core : (b.setLevel k q l).core i = b.core i := rfl
@[simp] theorem setLevel_stored : (b.setLevel k q l).Stored i ↔ b.Stored i := Iff.rfl

@[simp] theorem deleteLevel_ownerHead : (b.deleteLevel k q).ownerHead = b.ownerHead := rfl
@[simp] theorem deleteLevel_ownerTail : (b.deleteLevel k q).ownerTail = b.ownerTail := rfl
@[simp] theorem deleteLevel_orderCount : (b.deleteLevel k q).orderCount = b.orderCount := rfl
@[simp] theorem deleteLevel_core : (b.deleteLevel k q).core i = b.core i := rfl
@[simp] theorem deleteLevel_stored : (b.deleteLevel k q).Stored i ↔ b.Stored i := Iff.rfl

@[simp] theorem setOwnerHead_ownerHead (h' : ℕ) :
    (b.setOwnerHead h v).ownerHead h' = if h' = h then v else b.ownerHead h' := Function.update_apply ..

@[simp] theorem setOwnerHead_ownerTail : (b.setOwnerHead h v).ownerTail = b.ownerTail := rfl
@[simp] theorem setOwnerHead_orderCount : (b.setOwnerHead h v).orderCount = b.orderCount := rfl
@[simp] theorem setOwnerHead_levels : (b.setOwnerHead h v).levels = b.levels := rfl
@[simp] theorem setOwnerHead_order : (b.setOwnerHead h v).order i = b.order i := rfl
@[simp] theorem setOwnerHead_core : (b.setOwnerHead h v).core i = b.core i := rfl
@[simp] theorem setOwnerHead_stored : (b.setOwnerHead h v).Stored i ↔ b.Stored i := Iff.rfl

@[simp] theorem setOwnerTail_ownerTail (h' : ℕ) :
    (b.setOwnerTail h v).ownerTail h' = if h' = h then v else b.ownerTail h' := Function.update_apply ..

@[simp] theorem setOwnerTail_ownerHead : (b.setOwnerTail h v).ownerHead = b.ownerHead := rfl
@[simp] theorem setOwnerTail_orderCount : (b.setOwnerTail h v).orderCount = b.orderCount := rfl
@[simp] theorem setOwnerTail_levels : (b.setOwnerTail h v).levels = b.levels := rfl
@[simp] theorem setOwnerTail_order : (b.setOwnerTail h v).order i = b.order i := rfl
@[simp] theorem setOwnerTail_core : (b.setOwnerTail h v).core i = b.core i := rfl
@[simp] theorem setOwnerTail_stored : (b.setOwnerTail h v).Stored i ↔ b.Stored i := Iff.rfl

end Updates

section Links

variable (b : Book) (i j : ℕ) (f : Links → Links) (k : LevelKey) (q : ℕ)

@[simp] theorem modifyLinks_toLinks : ((b.modifyLinks j f).order i).toLinks =
    if i = j then f (b.order j).toLinks else (b.order i).toLinks := by
  rw [modifyLinks, modifyOrder_order]; split_ifs <;> rfl

@[simp] theorem modifyLinks_core : (b.modifyLinks j f).core i = b.core i :=
  modifyOrder_proj b j i _ Order.unlinked fun _ => rfl

@[simp] theorem modifyLinks_stored : (b.modifyLinks j f).Stored i ↔ i = j ∨ b.Stored i :=
  modifyOrder_stored _ _ _ _

@[simp] theorem modifyLinks_levels : (b.modifyLinks j f).levels = b.levels := rfl
@[simp] theorem modifyLinks_ownerHead : (b.modifyLinks j f).ownerHead = b.ownerHead := rfl
@[simp] theorem modifyLinks_ownerTail : (b.modifyLinks j f).ownerTail = b.ownerTail := rfl
@[simp] theorem modifyLinks_orderCount : (b.modifyLinks j f).orderCount = b.orderCount := rfl

end Links

end Book

end Dexdo
