import Dexdo.InferenceBook.State
import Dexdo.Lib.Chains

namespace Dexdo.InferenceOrderBook

def tickFee (p : ℕ) : ℕ := p * PLATFORM_FEE_BPS / BPS_DENOMINATOR

/-- Escrow of one tick at price `p`. -/
def unit (p : ℕ) : ℕ := p + tickFee p

def dealCompatible (takerIsBuy : Bool) (takerFlags makerFlags : UInt8) : Bool :=
  let buyFlags := if takerIsBuy then takerFlags else makerFlags
  let sellFlags := if takerIsBuy then makerFlags else takerFlags
  if has buyFlags FLAG_TEE && !has sellFlags FLAG_TEE then false
  else buyFlags &&& FLAG_SUBSCRIPTION == sellFlags &&& FLAG_SUBSCRIPTION

def crosses (takerIsBuy : Bool) (takerPrice : ℕ) (isMarket : Bool) (makerPrice : ℕ) : Bool :=
  if isMarket then true
  else if takerIsBuy then decide (makerPrice ≤ takerPrice)
  else decide (takerPrice ≤ makerPrice)

def isExpired (now deadline : ℕ) : Bool := decide (deadline ≠ 0) && decide (deadline ≤ now)

namespace Book

def bestOpposite (b : Book) (takerIsBuy : Bool) : Option (ℕ × PriceLevel) :=
  if takerIsBuy then (b.levels false).min? else (b.levels true).max?

def nextOpposite (b : Book) (takerIsBuy : Bool) (cur : ℕ) : Option (ℕ × PriceLevel) :=
  if takerIsBuy then (b.levels false).next? cur else (b.levels true).prev? cur

/-- The price-level half of `_insertIntoBook`. -/
def appendAtPrice (b : Book) (isBuy : Bool) (price orderId : ℕ) : Book :=
  let level := b.level isBuy price
  let priceTail := level.lastOrderId
  if priceTail = 0 then b.setLevel isBuy price ⟨orderId, orderId⟩
  else (b.modifyLinks priceTail ({ · with nextAtPrice := orderId })).setLevel isBuy price
    { level with lastOrderId := orderId }

/-- The owner half of `_insertIntoBook`. -/
def appendInOwner (b : Book) (note : Addr) (orderId : ℕ) : Book :=
  let oTail := b.ownerTail note
  let b := if oTail = 0 then b.setOwnerHead note orderId
    else b.modifyLinks oTail ({ · with nextInOwner := orderId })
  b.setOwnerTail note orderId

/-- The record `_insertIntoBook` writes: last in its level and last of its owner. -/
def linkedLast (b : Book) (o : Order) : Order :=
  { o with
    nextAtPrice := 0
    prevAtPrice := (b.level o.isBuy o.price).lastOrderId
    nextInOwner := 0
    prevInOwner := b.ownerTail o.note }

/-- The storage half of `_insertIntoBook`. -/
def insertOrder (b : Book) (orderId : ℕ) (o : Order) : Book :=
  let b := b.putOrder orderId (b.linkedLast o)
  let b := b.appendAtPrice o.isBuy o.price orderId
  let b := b.appendInOwner o.note orderId
  { b with orderCount := b.orderCount + 1 }

/-- The level record `_removeFromBook` computes for the level of `o`. -/
def unlinkedLevel (level : PriceLevel) (o : Order) : PriceLevel where
  firstOrderId := if o.prevAtPrice = 0 then o.nextAtPrice else level.firstOrderId
  lastOrderId := if o.nextAtPrice = 0 then o.prevAtPrice else level.lastOrderId

/-- The price-level half of `_removeFromBook`: relink the neighbours and rewrite the level. -/
def unlinkAtPrice (b : Book) (o : Order) : Book :=
  let level := unlinkedLevel (b.level o.isBuy o.price) o
  let b := if o.prevAtPrice = 0 then b
    else b.modifyLinks o.prevAtPrice ({ · with nextAtPrice := o.nextAtPrice })
  let b := if o.nextAtPrice = 0 then b
    else b.modifyLinks o.nextAtPrice ({ · with prevAtPrice := o.prevAtPrice })
  if level.firstOrderId = 0 then b.deleteLevel o.isBuy o.price
  else b.setLevel o.isBuy o.price level

/-- The owner half of `_removeFromBook`. -/
def unlinkInOwner (b : Book) (o : Order) : Book :=
  let b := if o.prevInOwner = 0 then b.setOwnerHead o.note o.nextInOwner
    else b.modifyLinks o.prevInOwner ({ · with nextInOwner := o.nextInOwner })
  if o.nextInOwner = 0 then b.setOwnerTail o.note o.prevInOwner
  else b.modifyLinks o.nextInOwner ({ · with prevInOwner := o.prevInOwner })

/-- The storage half of `_removeFromBook`. -/
def removeOrder (b : Book) (orderId : ℕ) : Book :=
  let o := b.order orderId
  let b := ((b.unlinkAtPrice o).unlinkInOwner o).deleteOrder orderId
  { b with orderCount := b.orderCount - 1 }

end Book

def insertIntoBook (s : InferenceOrderBook) (orderId : ℕ) (o : Order) : InferenceOrderBook :=
  (s.setBook (s.toBook.insertOrder orderId o)).toNote o.note
    (.onInferencePlaced o.tokenContract orderId o.clientOrderId o.isBuy o.price o.amount)

def removeFromBook (s : InferenceOrderBook) (orderId cause refunded : ℕ) : InferenceOrderBook :=
  let o := s.order orderId
  -- an empty slot reads as zero; removing it again would skew `_orderCount`
  if o.amount = 0 then s
  else (s.setBook (s.toBook.removeOrder orderId)).toNote o.note
    (.onInferenceOrderRemoved orderId cause refunded)

def payShell (s : InferenceOrderBook) (dest : Addr) (amount : ℕ) : InferenceOrderBook :=
  if amount = 0 then s else s.toNote dest (.creditFromBook amount)

def refundAndRemove (s : InferenceOrderBook) (orderId cause : ℕ) : InferenceOrderBook :=
  let o := s.order orderId
  let refund := o.escrow
  let s := s.removeFromBook orderId cause refund
  if 0 < refund then (s.payShell o.note refund).emit (.refunded orderId o.note refund) else s

def removeExpiredBid (s : InferenceOrderBook) (orderId : ℕ) : InferenceOrderBook :=
  let note := (s.order orderId).note
  (s.refundAndRemove orderId REMOVED_EXPIRED).emit (.orderExpired orderId true note noAddr)

/-- Release the offer latch of a deal. -/
def closeSell (s : InferenceOrderBook) (tc : Addr) : InferenceOrderBook :=
  if tc = noAddr then s else s.toDeal tc .onSellClosed

def removeExpiredSell (s : InferenceOrderBook) (orderId : ℕ) : InferenceOrderBook :=
  let o := s.order orderId
  let tc := o.tokenContract
  ((s.removeFromBook orderId REMOVED_EXPIRED 0).closeSell tc).emit
    (.orderExpired orderId false o.note tc)

namespace Book

/-- `_orders` has a record under `id`. -/
def Stored (b : Book) (id : ℕ) : Prop := (b.orders id).isSome

instance (b : Book) (id : ℕ) : Decidable (b.Stored id) :=
  inferInstanceAs (Decidable ((b.orders id).isSome = true))

/-- The FIFO lists of the price levels. -/
def atPrice (b : Book) : Chains (Bool × ℕ) where
  first k := (b.level k.1 k.2).firstOrderId
  last k := (b.level k.1 k.2).lastOrderId
  next i := (b.order i).nextAtPrice
  prev i := (b.order i).prevAtPrice

/-- The lists of the owners. -/
def ofOwner (b : Book) : Chains Addr where
  first := b.ownerHead
  last := b.ownerTail
  next i := (b.order i).nextInOwner
  prev i := (b.order i).prevInOwner

/-- The order under `id` without its links. -/
def core (b : Book) (id : ℕ) : Order := { b.order id with toLinks := default }

/-- Level of an order. -/
def key (b : Book) (id : ℕ) : Bool × ℕ := ((b.core id).isBuy, (b.core id).price)

section Updates

variable (b : Book) (i j : ℕ) (f : Order → Order) (g : Links → Links) (o : Order) (k : Bool)
  (q : ℕ) (l : PriceLevel) (a : Addr) (v : ℕ)

@[simp] theorem putOrder_order : (b.putOrder i o).order j = if j = i then o else b.order j := by
  by_cases h : j = i
  · subst h; simp [putOrder, order]
  · simp [putOrder, order, h]

@[simp] theorem putOrder_stored : (b.putOrder i o).Stored j ↔ j = i ∨ b.Stored j := by
  by_cases h : j = i
  · subst h; simp [putOrder, Stored]
  · simp [putOrder, Stored, h]

@[simp] theorem putOrder_level : (b.putOrder i o).level k q = b.level k q := rfl
@[simp] theorem putOrder_ownerHead : (b.putOrder i o).ownerHead = b.ownerHead := rfl
@[simp] theorem putOrder_ownerTail : (b.putOrder i o).ownerTail = b.ownerTail := rfl
@[simp] theorem putOrder_orderCount : (b.putOrder i o).orderCount = b.orderCount := rfl

@[simp] theorem deleteOrder_order :
    (b.deleteOrder i).order j = if j = i then default else b.order j := by
  by_cases h : j = i
  · subst h; simp [deleteOrder, order]
  · simp [deleteOrder, order, h]

@[simp] theorem deleteOrder_stored : (b.deleteOrder i).Stored j ↔ j ≠ i ∧ b.Stored j := by
  by_cases h : j = i
  · subst h; simp [deleteOrder, Stored]
  · simp [deleteOrder, Stored, h]

@[simp] theorem deleteOrder_levels : (b.deleteOrder i).levels = b.levels := rfl
@[simp] theorem deleteOrder_ownerHead : (b.deleteOrder i).ownerHead = b.ownerHead := rfl
@[simp] theorem deleteOrder_ownerTail : (b.deleteOrder i).ownerTail = b.ownerTail := rfl
@[simp] theorem deleteOrder_orderCount : (b.deleteOrder i).orderCount = b.orderCount := rfl

@[simp] theorem modifyOrder_order :
    (b.modifyOrder i f).order j = if j = i then f (b.order i) else b.order j :=
  putOrder_order _ _ _ _

@[simp] theorem modifyOrder_stored : (b.modifyOrder i f).Stored j ↔ j = i ∨ b.Stored j :=
  putOrder_stored _ _ _ _

@[simp] theorem modifyLinks_order : (b.modifyLinks i g).order j =
    if j = i then { b.order i with toLinks := g (b.order i).toLinks } else b.order j :=
  modifyOrder_order _ _ _ _

@[simp] theorem modifyLinks_stored : (b.modifyLinks i g).Stored j ↔ j = i ∨ b.Stored j :=
  modifyOrder_stored _ _ _ _

@[simp] theorem modifyLinks_levels : (b.modifyLinks i g).levels = b.levels := rfl
@[simp] theorem modifyLinks_ownerHead : (b.modifyLinks i g).ownerHead = b.ownerHead := rfl
@[simp] theorem modifyLinks_ownerTail : (b.modifyLinks i g).ownerTail = b.ownerTail := rfl
@[simp] theorem modifyLinks_orderCount : (b.modifyLinks i g).orderCount = b.orderCount := rfl

theorem setLevel_get? (k' : Bool) (q' : ℕ) : ((b.setLevel k q l).levels k').get? q' =
    if k' = k ∧ q' = q then some l else (b.levels k').get? q' := by
  by_cases hk : k' = k
  · subst hk
    by_cases hq : q' = q
    · subst hq; simp [setLevel]
    · simp [setLevel, hq]
  · simp [setLevel, hk]

theorem deleteLevel_get? (k' : Bool) (q' : ℕ) : ((b.deleteLevel k q).levels k').get? q' =
    if k' = k ∧ q' = q then none else (b.levels k').get? q' := by
  by_cases hk : k' = k
  · subst hk
    by_cases hq : q' = q
    · subst hq; simp [deleteLevel]
    · simp [deleteLevel, hq]
  · simp [deleteLevel, hk]

@[simp] theorem setLevel_ownerHead : (b.setLevel k q l).ownerHead = b.ownerHead := rfl
@[simp] theorem setLevel_ownerTail : (b.setLevel k q l).ownerTail = b.ownerTail := rfl
@[simp] theorem setLevel_orderCount : (b.setLevel k q l).orderCount = b.orderCount := rfl
@[simp] theorem setLevel_order : (b.setLevel k q l).order i = b.order i := rfl
@[simp] theorem setLevel_stored : (b.setLevel k q l).Stored i ↔ b.Stored i := Iff.rfl

@[simp] theorem deleteLevel_ownerHead : (b.deleteLevel k q).ownerHead = b.ownerHead := rfl
@[simp] theorem deleteLevel_ownerTail : (b.deleteLevel k q).ownerTail = b.ownerTail := rfl
@[simp] theorem deleteLevel_orderCount : (b.deleteLevel k q).orderCount = b.orderCount := rfl
@[simp] theorem deleteLevel_order : (b.deleteLevel k q).order i = b.order i := rfl
@[simp] theorem deleteLevel_stored : (b.deleteLevel k q).Stored i ↔ b.Stored i := Iff.rfl

@[simp] theorem setOwnerHead_ownerHead :
    (b.setOwnerHead a v).ownerHead = Function.update b.ownerHead a v := rfl
@[simp] theorem setOwnerHead_ownerTail : (b.setOwnerHead a v).ownerTail = b.ownerTail := rfl
@[simp] theorem setOwnerHead_orderCount : (b.setOwnerHead a v).orderCount = b.orderCount := rfl
@[simp] theorem setOwnerHead_levels : (b.setOwnerHead a v).levels = b.levels := rfl
@[simp] theorem setOwnerHead_order : (b.setOwnerHead a v).order i = b.order i := rfl
@[simp] theorem setOwnerHead_stored : (b.setOwnerHead a v).Stored i ↔ b.Stored i := Iff.rfl

@[simp] theorem setOwnerTail_ownerTail :
    (b.setOwnerTail a v).ownerTail = Function.update b.ownerTail a v := rfl
@[simp] theorem setOwnerTail_ownerHead : (b.setOwnerTail a v).ownerHead = b.ownerHead := rfl
@[simp] theorem setOwnerTail_orderCount : (b.setOwnerTail a v).orderCount = b.orderCount := rfl
@[simp] theorem setOwnerTail_levels : (b.setOwnerTail a v).levels = b.levels := rfl
@[simp] theorem setOwnerTail_order : (b.setOwnerTail a v).order i = b.order i := rfl
@[simp] theorem setOwnerTail_stored : (b.setOwnerTail a v).Stored i ↔ b.Stored i := Iff.rfl

end Updates

section Insert

variable (b : Book) (id i : ℕ) (k : Bool) (q : ℕ) (a : Addr)

theorem appendAtPrice_order : (b.appendAtPrice k q id).order i =
    if (b.level k q).lastOrderId ≠ 0 ∧ i = (b.level k q).lastOrderId then
      { b.order i with nextAtPrice := id } else b.order i := by
  unfold appendAtPrice
  dsimp only
  by_cases h0 : (b.level k q).lastOrderId = 0
  · simp [h0]
  · by_cases hi : i = (b.level k q).lastOrderId
    · subst hi; simp [h0]
    · simp [h0, hi]

theorem appendInOwner_order : (b.appendInOwner a id).order i =
    if b.ownerTail a ≠ 0 ∧ i = b.ownerTail a then { b.order i with nextInOwner := id }
    else b.order i := by
  unfold appendInOwner
  dsimp only
  by_cases h0 : b.ownerTail a = 0
  · simp [h0]
  · by_cases hi : i = b.ownerTail a
    · subst hi; simp [h0]
    · simp [h0, hi]

theorem appendAtPrice_stored
    (ht : (b.level k q).lastOrderId ≠ 0 → b.Stored (b.level k q).lastOrderId) :
    (b.appendAtPrice k q id).Stored i ↔ b.Stored i := by
  unfold appendAtPrice
  dsimp only
  split_ifs with h0
  · simp
  · simp only [setLevel_stored, modifyLinks_stored, or_iff_right_iff_imp]
    rintro rfl
    exact ht h0

theorem appendInOwner_stored (ht : b.ownerTail a ≠ 0 → b.Stored (b.ownerTail a)) :
    (b.appendInOwner a id).Stored i ↔ b.Stored i := by
  unfold appendInOwner
  dsimp only
  split_ifs with h0
  · simp
  · simp only [setOwnerTail_stored, modifyLinks_stored, or_iff_right_iff_imp]
    rintro rfl
    exact ht h0

theorem appendAtPrice_get? (k' : Bool) (q' : ℕ) : ((b.appendAtPrice k q id).levels k').get? q' =
    if k' = k ∧ q' = q then some ⟨if (b.level k q).lastOrderId = 0 then id
      else (b.level k q).firstOrderId, id⟩
    else (b.levels k').get? q' := by
  unfold appendAtPrice
  dsimp only
  by_cases h0 : (b.level k q).lastOrderId = 0
  · simp [h0, setLevel_get?]
  · simp [h0, setLevel_get?]

@[simp] theorem appendAtPrice_ownerHead : (b.appendAtPrice k q id).ownerHead = b.ownerHead := by
  unfold appendAtPrice
  dsimp only
  split_ifs <;> simp

@[simp] theorem appendAtPrice_ownerTail : (b.appendAtPrice k q id).ownerTail = b.ownerTail := by
  unfold appendAtPrice
  dsimp only
  split_ifs <;> simp

@[simp] theorem appendAtPrice_orderCount :
    (b.appendAtPrice k q id).orderCount = b.orderCount := by
  unfold appendAtPrice
  dsimp only
  split_ifs <;> simp

@[simp] theorem appendInOwner_levels : (b.appendInOwner a id).levels = b.levels := by
  unfold appendInOwner
  dsimp only
  split_ifs <;> simp

@[simp] theorem appendInOwner_orderCount :
    (b.appendInOwner a id).orderCount = b.orderCount := by
  unfold appendInOwner
  dsimp only
  split_ifs <;> simp

@[simp] theorem appendInOwner_ownerTail :
    (b.appendInOwner a id).ownerTail = Function.update b.ownerTail a id := by
  unfold appendInOwner
  dsimp only
  split_ifs <;> simp

theorem appendInOwner_ownerHead : (b.appendInOwner a id).ownerHead =
    if b.ownerTail a = 0 then Function.update b.ownerHead a id else b.ownerHead := by
  unfold appendInOwner
  dsimp only
  split_ifs <;> simp

end Insert

end Book

end Dexdo.InferenceOrderBook
