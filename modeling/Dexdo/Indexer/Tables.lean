import Dexdo.Modifiers
import Mathlib.Logic.Function.Basic

namespace Dexdo

namespace ReadModel

/-- The zero address an ABI decodes for an unset `address` field. -/
def ZERO_ADDRESS : Addr := .ext 0

def nonZeroAddress (raw : Addr) : Option Addr := if raw = ZERO_ADDRESS then none else some raw

def nonZeroUint (raw : ℕ) : Option ℕ := if raw = 0 then none else some raw

/-- SQL `greatest`, which passes over nulls. -/
def greatest : Option ℕ → Option ℕ → Option ℕ
  | none, y => y
  | some x, none => some x
  | some x, some y => some (max x y)

/-- What an event message carries besides its decoded body. A `chainOrder` is the gateway's
`msg_chain_order`, `createdAt` the chain time when it could be parsed. -/
structure EventNode where
  src : Addr
  chainOrder : ℕ
  createdAt : Option ℕ
  deriving DecidableEq

inductive ProjectionOutcome
  | Applied
  | Deferred
  | Unknown
  deriving DecidableEq

inductive OrderStatus
  | OPEN
  | FILLED
  | CANCELLED
  | EXPIRED
  deriving DecidableEq

/-- Row of `inference_orders`. -/
structure InferenceOrder where
  isBuy : Bool
  price : ℕ
  amountInitial : ℕ
  amountRemaining : ℕ
  isSubscription : Bool
  status : OrderStatus
  sweptAt : Option ℕ
  noteAddress : Option Addr
  tokenContract : Option Addr
  deadline : Option ℕ
  lastChainOrder : ℕ
  chainCreatedAt : Option ℕ
  chainUpdatedAt : Option ℕ
  deriving DecidableEq

/-- Row of `inference_markets`: its seed and the state of its sweep. -/
structure InferenceMarket where
  createdAtChain : Option ℕ
  sweepCursor : Option ℕ
  sweepCycleMax : Option ℕ
  sweepOverrideSeq : ℕ
  lastReconciledAt : Option ℕ
  supersededAt : Option ℕ
  deriving DecidableEq

/-- Row of `inference_trades`, whose key `trade_id` is the chain order of its event. -/
structure InferenceTrade where
  orderbookAddress : Addr
  price : ℕ
  qty : ℕ
  isBuyerMaker : Bool
  chainTime : Option ℕ
  deriving DecidableEq

inductive CloseKind
  | STOPPED
  | DISPUTE_RESOLVED
  | RECLAIMED
  | DESTROYED
  | PROBE_BURNED
  deriving DecidableEq

/-- Row of `inference_deals`. -/
structure InferenceDeal where
  orderbookAddress : Option Addr
  sellerNote : Option Addr
  buyerNote : Option Addr
  deposit : Option ℕ
  pricePerTick : Option ℕ
  finalizedTicks : ℕ
  trustedTicks : Option ℕ
  claimedTicks : Option ℕ
  fundedAtChain : Option ℕ
  openedAtChain : Option ℕ
  settledAtChain : Option ℕ
  closeKind : Option CloseKind
  cleanSettlement : Option Bool
  disputedAtChain : Option ℕ
  lastChainOrder : Option ℕ
  deriving DecidableEq

/-- Row of `inference_ticks`, unique by deal and chain order. -/
structure InferenceTick where
  chainOrder : ℕ
  finalizedOwed : ℕ
  deposit : ℕ
  chainAt : Option ℕ
  deriving DecidableEq

/-- The inference tables by their keys. -/
structure Db where
  inferenceMarkets : Addr → Option InferenceMarket
  inferenceOrders : Addr → ℕ → Option InferenceOrder
  inferenceTrades : ℕ → Option InferenceTrade
  inferenceDeals : Addr → Option InferenceDeal
  inferenceTicks : Addr → List InferenceTick

namespace Db

def empty : Db where
  inferenceMarkets := fun _ => none
  inferenceOrders := fun _ _ => none
  inferenceTrades := fun _ => none
  inferenceDeals := fun _ => none
  inferenceTicks := fun _ => []

variable (db : Db)

def setMarket (ob : Addr) (row : Option InferenceMarket) : Db :=
  { db with inferenceMarkets := Function.update db.inferenceMarkets ob row }

def setOrder (ob : Addr) (id : ℕ) (row : Option InferenceOrder) : Db :=
  { db with
    inferenceOrders := Function.update db.inferenceOrders ob
      (Function.update (db.inferenceOrders ob) id row) }

def setTrade (tradeId : ℕ) (row : Option InferenceTrade) : Db :=
  { db with inferenceTrades := Function.update db.inferenceTrades tradeId row }

def setDeal (tc : Addr) (row : Option InferenceDeal) : Db :=
  { db with inferenceDeals := Function.update db.inferenceDeals tc row }

def setTicks (tc : Addr) (rows : List InferenceTick) : Db :=
  { db with inferenceTicks := Function.update db.inferenceTicks tc rows }

/-- An `update` on the rows of one book with the given ids. -/
def updateOrders (ob : Addr) (ids : List ℕ) (f : InferenceOrder → InferenceOrder) : Db :=
  { db with
    inferenceOrders := fun ob' id =>
      if ob' = ob ∧ id ∈ ids then (db.inferenceOrders ob' id).map f
      else db.inferenceOrders ob' id }

section Orders

variable (ob : Addr)

@[simp]
theorem inferenceOrders_setMarket (row : Option InferenceMarket) :
    (db.setMarket ob row).inferenceOrders = db.inferenceOrders := rfl

@[simp]
theorem inferenceOrders_setTrade (tradeId : ℕ) (row : Option InferenceTrade) :
    (db.setTrade tradeId row).inferenceOrders = db.inferenceOrders := rfl

@[simp]
theorem inferenceOrders_setDeal (tc : Addr) (row : Option InferenceDeal) :
    (db.setDeal tc row).inferenceOrders = db.inferenceOrders := rfl

@[simp]
theorem inferenceOrders_setTicks (tc : Addr) (rows : List InferenceTick) :
    (db.setTicks tc rows).inferenceOrders = db.inferenceOrders := rfl

theorem inferenceOrders_setOrder (id : ℕ) (row : Option InferenceOrder) (ob' : Addr) (id' : ℕ) :
    (db.setOrder ob id row).inferenceOrders ob' id' =
      if ob' = ob ∧ id' = id then row else db.inferenceOrders ob' id' := by
  by_cases hob : ob' = ob
  · subst hob
    by_cases hid : id' = id
    · subst hid
      simp [setOrder]
    · simp [setOrder, hid]
  · simp [setOrder, hob]

theorem inferenceOrders_updateOrders (ids : List ℕ) (f : InferenceOrder → InferenceOrder)
    (ob' : Addr) (id' : ℕ) :
    (db.updateOrders ob ids f).inferenceOrders ob' id' =
      if ob' = ob ∧ id' ∈ ids then (db.inferenceOrders ob' id').map f
      else db.inferenceOrders ob' id' := rfl

end Orders

end Db

end ReadModel

end Dexdo
