import Dexdo.Indexer.Deals
import Mathlib.Data.List.Dedup

namespace Dexdo

namespace ReadModel

/-- Decoded `InferenceOrderBook` events; `other` stands for a type without an arm. -/
inductive InferenceEvent
  | InferenceOrderPlaced (orderId : ℕ) (isBuy : Bool) (price ticks : ℕ) (note tokenContract : Addr)
      (deadline : ℕ)
  | InferenceSubscriptionPlaced (orderId maxPrice ticks : ℕ) (buyerNote : Addr)
  | InferenceOrderCancelled (orderId : ℕ)
  | InferenceOrderExpired (orderId : ℕ)
  | InferenceFilled (makerId takerId ticks clearingPrice : ℕ) (sellerTC buyerNote : Option Addr)
  | InferenceExecuted
  | InferenceRefunded
  | InferenceOrderCancelRejected
  | InferenceOrderRejected
  | InferenceOrderBookDeployed
  | other
  deriving DecidableEq

namespace InferenceOrder

/-- The values a placement inserts. -/
def resting (isBuy : Bool) (price ticks : ℕ) (isSubscription : Bool) (note : Addr)
    (tokenContract : Option Addr) (deadline : Option ℕ) (node : EventNode) : InferenceOrder where
  isBuy := isBuy
  price := price
  amountInitial := ticks
  amountRemaining := ticks
  isSubscription := isSubscription
  status := .OPEN
  sweptAt := none
  noteAddress := some note
  tokenContract := tokenContract
  deadline := deadline
  lastChainOrder := node.chainOrder
  chainCreatedAt := node.createdAt
  chainUpdatedAt := node.createdAt

variable (o excluded : InferenceOrder)

/-- The `where` of the placement's conflict arm: only a still fresh row is overwritten. -/
def takesPlacement : Prop :=
  o.status ≠ .FILLED ∧ o.status ≠ .CANCELLED ∧ o.amountRemaining = o.amountInitial

instance : Decidable o.takesPlacement :=
  inferInstanceAs (Decidable (_ ∧ _ ∧ _))

def replaced : InferenceOrder :=
  if o.takesPlacement then
    { o with
      isBuy := excluded.isBuy
      price := excluded.price
      amountInitial := excluded.amountInitial
      amountRemaining := excluded.amountRemaining
      isSubscription := excluded.isSubscription
      noteAddress := excluded.noteAddress
      tokenContract := excluded.tokenContract.or o.tokenContract
      deadline := excluded.deadline.or o.deadline
      status := .OPEN
      lastChainOrder := max o.lastChainOrder excluded.lastChainOrder
      chainCreatedAt := o.chainCreatedAt.or excluded.chainCreatedAt
      chainUpdatedAt := greatest o.chainUpdatedAt excluded.chainUpdatedAt }
  else o

/-- `status = 'CANCELLED' and swept_at is null`: a cancel by event. -/
def isReallyCancelled : Prop := o.status = .CANCELLED ∧ o.sweptAt = none

instance : Decidable o.isReallyCancelled := inferInstanceAs (Decidable (_ ∧ _))

/-- A provisional cancel by the sweep. -/
def isSweepCancelled : Prop := o.status = .CANCELLED ∧ o.sweptAt.isSome

instance : Decidable o.isSweepCancelled := inferInstanceAs (Decidable (_ ∧ _))

/-- A fill lowers the row by its ticks and closes an offer at once. A row that is filled or
cancelled by an event is left as it is. -/
def filled (ticks : ℕ) (chainOrder : ℕ) (chainSeconds : Option ℕ) : InferenceOrder :=
  if o.status = .FILLED ∨ o.isReallyCancelled then o
  else
    { o with
      amountRemaining := o.amountRemaining - ticks
      status :=
        if o.isBuy = false then .FILLED
        else if o.amountRemaining - ticks = 0 then .FILLED
        else .OPEN
      sweptAt := none
      lastChainOrder := max o.lastChainOrder chainOrder
      chainUpdatedAt := greatest o.chainUpdatedAt chainSeconds }

def takesExpiry : Prop := o.status = .OPEN ∨ o.isSweepCancelled

instance : Decidable o.takesExpiry := inferInstanceAs (Decidable (_ ∨ _))

def expired (node : EventNode) : InferenceOrder :=
  if o.takesExpiry then
    { o with
      status := .EXPIRED
      sweptAt := none
      lastChainOrder := max o.lastChainOrder node.chainOrder
      chainUpdatedAt := greatest o.chainUpdatedAt node.createdAt }
  else o

def cancelled (node : EventNode) : InferenceOrder :=
  if o.status = .FILLED then o
  else
    { o with
      status := .CANCELLED
      sweptAt := none
      lastChainOrder := max o.lastChainOrder node.chainOrder
      chainUpdatedAt := greatest o.chainUpdatedAt node.createdAt }

/-- `provisional_cancel`: the sweep did not find the order in the book. -/
def sweepCancelled (now : ℕ) : InferenceOrder :=
  if o.status = .OPEN then { o with status := .CANCELLED, sweptAt := some now } else o

/-- `repair_order_fields`: fills in what the row lacks from the book's getter. -/
def repaired (tokenContract : Option Addr) (deadline : Option ℕ) : InferenceOrder :=
  if o.status = .OPEN then
    { o with
      tokenContract := o.tokenContract.or tokenContract
      deadline := o.deadline.or deadline }
  else o

end InferenceOrder

/-- `Filled` fields; `ids` are the rows the decrement touches. -/
structure FilledFields where
  ob : Addr
  makerId : ℕ
  takerId : ℕ
  ticks : ℕ
  clearingPrice : ℕ
  chainOrder : ℕ
  chainSeconds : Option ℕ
  sellerTc : Option Addr
  buyerNote : Option Addr
  deriving DecidableEq

def FilledFields.ids (f : FilledFields) : List ℕ := [f.makerId, f.takerId]

structure LockedOrder where
  orderId : ℕ
  isSweepCancel : Bool
  isBuy : Bool
  deriving DecidableEq

variable (db : Db) (node : EventNode) (f : FilledFields)

def seedMarketSkeleton : Db :=
  match db.inferenceMarkets node.src with
  | none => db.setMarket node.src (some ⟨node.createdAt, none, none, 0, none, none⟩)
  | some _ => db

def upsertRestingOrder (ob : Addr) (orderId : ℕ) (excluded : InferenceOrder) : Db :=
  db.setOrder ob orderId (some (match db.inferenceOrders ob orderId with
    | none => excluded
    | some o => o.replaced excluded))

/-- A fresh offer on a deal proves that its funding is over. -/
def applyInferenceOrderPlaced (orderId : ℕ) (isBuy : Bool) (price ticks : ℕ)
    (note tokenContract : Addr) (deadline : ℕ) : Db × ProjectionOutcome :=
  let db := upsertRestingOrder db node.src orderId
    (.resting isBuy price ticks false note (nonZeroAddress tokenContract) (nonZeroUint deadline)
      node)
  match isBuy, nonZeroAddress tokenContract with
  | false, some tc => (endFundingCycle db tc node.chainOrder, .Applied)
  | _, _ => (db, .Applied)

def applyInferenceSubscriptionPlaced (orderId maxPrice ticks : ℕ) (buyerNote : Addr) :
    Db × ProjectionOutcome :=
  (upsertRestingOrder db node.src orderId
    (.resting true maxPrice ticks true buyerNote none none node), .Applied)

/-- The named rows that exist. -/
def lockFilledRows : List LockedOrder :=
  f.ids.dedup.filterMap fun id =>
    (db.inferenceOrders f.ob id).map fun o => ⟨id, o.sweptAt.isSome, o.isBuy⟩

/-- An override of a sweep cancel restarts the sweep of a book that is still hidden. -/
def resetSweep (m : InferenceMarket) : InferenceMarket :=
  if m.lastReconciledAt = none then
    { m with sweepCursor := none, sweepOverrideSeq := m.sweepOverrideSeq + 1 }
  else m

def applyFilledDecrement (locked : List LockedOrder) : Db :=
  let updated := db.updateOrders f.ob f.ids fun o => o.filled f.ticks f.chainOrder f.chainSeconds
  if locked.any (·.isSweepCancel) then
    updated.setMarket f.ob ((updated.inferenceMarkets f.ob).map resetSweep)
  else updated

/-- The row of a deal once a fill names it: the buyer of the newest fill wins. -/
def InferenceDeal.linked (d : InferenceDeal) (sellerNote : Option Addr) : InferenceDeal :=
  { d with
    orderbookAddress := d.orderbookAddress.or (some f.ob)
    sellerNote := d.sellerNote.or sellerNote
    buyerNote :=
      if d.isNews f.chainOrder then f.buyerNote.or d.buyerNote else d.buyerNote.or f.buyerNote
    lastChainOrder := greatest d.lastChainOrder (some f.chainOrder) }

/-- The note on the selling leg of the match. -/
def sellerNote : Option Addr :=
  ((f.ids.filterMap (db.inferenceOrders f.ob)).find? (!·.isBuy)).bind (·.noteAddress)

def linkDealFromFilled : Db :=
  match f.sellerTc with
  | none => db
  | some sellerTc =>
    db.setDeal sellerTc (some (((db.inferenceDeals sellerTc).getD .skeleton).linked f
      (sellerNote db f)))

/-- The side of the maker, from whichever leg is known. -/
def resolveIsBuyerMaker (locked : List LockedOrder) : Option Bool :=
  match locked.find? (·.orderId = f.makerId) with
  | some maker => some maker.isBuy
  | none => (locked.find? (·.orderId = f.takerId)).map (!·.isBuy)

/-- A row of the tape after another write of the same key. -/
def InferenceTrade.rewritten (t excluded : InferenceTrade) : InferenceTrade :=
  if t.orderbookAddress = excluded.orderbookAddress ∧ t.price = excluded.price ∧
      t.qty = excluded.qty ∧ t.isBuyerMaker = excluded.isBuyerMaker then
    { t with chainTime := t.chainTime.or excluded.chainTime }
  else t

def appendInferenceTrade (isBuyerMaker : Bool) : Db :=
  let excluded : InferenceTrade := ⟨f.ob, f.clearingPrice, f.ticks, isBuyerMaker, f.chainSeconds⟩
  db.setTrade f.chainOrder (some (match db.inferenceTrades f.chainOrder with
    | none => excluded
    | some t => t.rewritten excluded))

/-- The match goes on the tape when its direction is known. -/
def recordTrade (locked : List LockedOrder) : Db :=
  match resolveIsBuyerMaker f locked with
  | some isBuyerMaker => appendInferenceTrade db f isBuyerMaker
  | none => db

/-- Nothing is written before both legs are there. -/
def applyInferenceFilled : Db × ProjectionOutcome :=
  let locked := lockFilledRows db f
  if (∃ r ∈ locked, r.orderId = f.makerId) ∧ ∃ r ∈ locked, r.orderId = f.takerId then
    (recordTrade (linkDealFromFilled (applyFilledDecrement db f locked) f) f locked, .Applied)
  else (db, .Deferred)

/-- `repair_expired_inference_orphan` of a fill: the legs there are lowered. -/
def repairFilled : Db :=
  let locked := lockFilledRows db f
  let lowered := if locked.isEmpty then db else applyFilledDecrement db f locked
  linkDealFromFilled (recordTrade lowered f locked) f

def applyInferenceOrderExpired (orderId : ℕ) : Db × ProjectionOutcome :=
  match db.inferenceOrders node.src orderId with
  | none => (db, .Deferred)
  | some o => (db.setOrder node.src orderId (some (o.expired node)), .Applied)

def applyInferenceOrderCancelled (orderId : ℕ) : Db × ProjectionOutcome :=
  match db.inferenceOrders node.src orderId with
  | none => (db, .Deferred)
  | some o => (db.setOrder node.src orderId (some (o.cancelled node)), .Applied)

def FilledFields.parse (makerId takerId ticks clearingPrice : ℕ)
    (sellerTC buyerNote : Option Addr) : FilledFields :=
  ⟨node.src, makerId, takerId, ticks, clearingPrice, node.chainOrder, node.createdAt, sellerTC,
    buyerNote⟩

def projectInferenceEvent (event : InferenceEvent) : Db × ProjectionOutcome :=
  let db := seedMarketSkeleton db node
  match event with
  | .InferenceOrderPlaced orderId isBuy price ticks note tokenContract deadline =>
    applyInferenceOrderPlaced db node orderId isBuy price ticks note tokenContract deadline
  | .InferenceSubscriptionPlaced orderId maxPrice ticks buyerNote =>
    applyInferenceSubscriptionPlaced db node orderId maxPrice ticks buyerNote
  | .InferenceOrderCancelled orderId => applyInferenceOrderCancelled db node orderId
  | .InferenceOrderExpired orderId => applyInferenceOrderExpired db node orderId
  | .InferenceFilled makerId takerId ticks clearingPrice sellerTC buyerNote =>
    applyInferenceFilled db
      (.parse node makerId takerId ticks clearingPrice sellerTC buyerNote)
  | .InferenceExecuted | .InferenceRefunded | .InferenceOrderCancelRejected
  | .InferenceOrderRejected | .InferenceOrderBookDeployed => (db, .Applied)
  | .other => (db, .Unknown)

/-- Dead-letter repair of an event that stayed deferred past the cutoff. -/
def repairExpiredInferenceOrphan (event : InferenceEvent) : Db :=
  match event with
  | .InferenceFilled makerId takerId ticks clearingPrice sellerTC buyerNote =>
    repairFilled db (.parse node makerId takerId ticks clearingPrice sellerTC buyerNote)
  | _ => db

def provisionalCancel (ob : Addr) (ids : List ℕ) (now : ℕ) : Db :=
  db.updateOrders ob ids fun o => o.sweepCancelled now

def repairOrderFields (ob : Addr) (orderId : ℕ) (tokenContract : Option Addr)
    (deadline : Option ℕ) : Db :=
  db.updateOrders ob [orderId] fun o => o.repaired tokenContract deadline

end ReadModel

end Dexdo
