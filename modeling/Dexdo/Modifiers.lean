import Dexdo.Lib.Ensures
import Mathlib.Algebra.Group.Nat.Defs
import Mathlib.Data.Nat.Basic

namespace Dexdo

/-- Static key of a market; the PMP and OrderBook addresses are derived from it. -/
structure MarketId where
  eventId : ℕ
  oracleListHash : ℕ
  tokenType : ℕ
  deriving DecidableEq, Inhabited

/-- Contract addresses. DexLib derives each from its arguments by a code hash,
so equal addresses have equal arguments. -/
inductive Addr
  | note (depositIdentifierHash : ℕ)
  | pmp (market : MarketId)
  | orderBook (market : MarketId)
  | deal (sellerPubkey nonce : ℕ)
  | inferenceBook (codeHash codeDepth modelHash : ℕ)
  | oracleEventList (nameHash index : ℕ)
  | rootPN
  | ext (id : ℕ)
  deriving DecidableEq, Inhabited

/-- Who sent a message: a contract, or the signer of an external message. -/
inductive Caller
  | internal (sender : Addr)
  | external (pubkey : ℕ)
  deriving DecidableEq

namespace Caller

/-- `msg.pubkey()`, which is zero in an internal message. -/
def pubkey : Caller → ℕ
  | internal _ => 0
  | external pubkey => pubkey

/-- The message comes from the given contract. -/
def isSender (a : Addr) : Caller → Bool
  | internal sender => decide (sender = a)
  | external _ => false

end Caller

/-- Bet types. The last two mark pending operations of a note and have no pool. -/
inductive BetType
  | clean
  | debt
  | coupon
  | obSell
  | merge
  deriving DecidableEq, Inhabited

/-- Bet types a stake may have, those up to `BET_TYPE_COUPON`. -/
def BetType.isStake : BetType → Bool
  | clean | debt | coupon => true
  | obSell | merge => false

/- Constants of `Modifiers`. Token amounts, prices and ids are natural numbers. A sum that leaves the
width of its field and a cast that does not fit are errors: `none`, and the message is refused. -/
def CURRENCIES_ID_SHELL : ℕ := 2
def CURRENCIES_ID_USDC : ℕ := 3

def MIN_ORDER_NOTIONAL_NACKL : ℕ := 10000000000
def MIN_ORDER_NOTIONAL_SHELL : ℕ := 100000000000
def MIN_ORDER_NOTIONAL_USDC : ℕ := 1000000

def LOT_SIZE_NACKL : ℕ := 10000000
def LOT_SIZE_SHELL : ℕ := 10000000
def LOT_SIZE_USDC : ℕ := 10000

def TICK_SIZE : ℕ := 10
def MAX_BATCH_SIZE : ℕ := 10
def FULL_PERCENT : ℕ := 10000
def THRESHOLD : ℕ := 6600
def GRACE_PERIOD : ℕ := 86400
def MIN_RESULT_GAP : ℕ := 120
def FEE_PERCENT : ℕ := 1
def COUPON_POOL_LIMIT_PERCENT : ℕ := 500
def COUPON_MAX_PAYOUT_MULTIPLIER : ℕ := 20000
def DEBT_REDISTRIBUTION_PERCENT : ℕ := 500

def FEE_DENOMINATOR : ℕ := 100000
def TAKER_FEE_RATE : ℕ := 45
def MAKER_REBATE_NUM : ℕ := 3
def MAKER_REBATE_DEN : ℕ := 4

/-- A cast to `uint128`, which throws where the value does not fit. -/
def cast128 (n : ℕ) : Option ℕ := if n < 2 ^ 128 then some n else none

theorem cast128_eq_some {n k : ℕ} : cast128 n = some k ↔ n < 2 ^ 128 ∧ n = k :=
  Option.ite_none_right_eq_some.trans (and_congr_right fun _ => Option.some_inj)

/-- The value of a cast that is shown to fit. -/
def toUint128 (n : ℕ) : ℕ := n % 2 ^ 128

/-- A checked `uint128` addition. -/
def add128 (a b : ℕ) : Option ℕ := if a + b < 2 ^ 128 then some (a + b) else none

/-- A checked sum of `uint128` figures. -/
def sum128 (l : List ℕ) : Option ℕ := l.foldlM add128 0

/-- A checked subtraction. -/
def sub128 (a b : ℕ) : Option ℕ := if b ≤ a then some (a - b) else none

def minOrderNotional (tokenType : ℕ) : ℕ :=
  if tokenType = CURRENCIES_ID_SHELL then MIN_ORDER_NOTIONAL_SHELL
  else if tokenType = CURRENCIES_ID_USDC then MIN_ORDER_NOTIONAL_USDC
  else MIN_ORDER_NOTIONAL_NACKL

def lotSize (tokenType : ℕ) : ℕ :=
  if tokenType = CURRENCIES_ID_SHELL then LOT_SIZE_SHELL
  else if tokenType = CURRENCIES_ID_USDC then LOT_SIZE_USDC
  else LOT_SIZE_NACKL

/-- Quote value of `amount` base units at `price` basis points. -/
def notionalOf (amount price : ℕ) : ℕ := amount * price / FULL_PERCENT

def takerFeeOf (notional : ℕ) : ℕ := notional * TAKER_FEE_RATE / FEE_DENOMINATOR

def makerRebateOf (takerFee : ℕ) : ℕ := takerFee * MAKER_REBATE_NUM / MAKER_REBATE_DEN

end Dexdo
