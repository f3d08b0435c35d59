import Dexdo.Api.Decimal
import Dexdo.OrderBook.State

namespace Dexdo.Api

inductive OrderSide
  | buy
  | sell
  deriving DecidableEq, Repr

def OrderSide.isBuy : OrderSide → Bool
  | .buy => true
  | .sell => false

inductive OrderType
  | limit
  | market
  deriving DecidableEq, Repr

inductive TimeInForce
  | gtc
  | ioc
  | fok
  | postOnly
  deriving DecidableEq, Repr

def FLAG_IOC : UInt8 := 0x01
def FLAG_FOK : UInt8 := 0x02
def FLAG_MARKET : UInt8 := 0x04
def FLAG_POST_ONLY : UInt8 := 0x08

/-- On-chain flags of an order type and its time in force. -/
def encodeOrderFlags (orderType : OrderType) (timeInForce : Option TimeInForce) :
    Except DomainError UInt8 :=
  match orderType with
  | .limit =>
    match timeInForce.getD .gtc with
    | .gtc => .ok 0
    | .ioc => .ok FLAG_IOC
    | .fok => .ok FLAG_FOK
    | .postOnly => .ok FLAG_POST_ONLY
  | .market =>
    match timeInForce with
    | none => .ok FLAG_MARKET
    | some .ioc => .ok FLAG_MARKET
    | some _ => .error .invalidParameter

/-- Trading parameters of an outcome as the API keeps them. -/
structure Outcome where
  outcomeId : ℕ
  pricePrecision : ℕ
  quantityPrecision : ℕ
  tickSize : List Char
  stepSize : List Char
  minNotional : List Char

structure BatchOrderPayloadItem where
  outcomeId : ℕ
  isBuy : Bool
  priceRaw : List Char
  amountRaw : List Char
  flags : UInt8
  clientOrderId : List Char
  deriving DecidableEq

/-- `parse` to an unsigned type of `bits` bits: one optional plus sign, then digits. -/
def parseUint (bits : ℕ) (raw : List Char) : Option ℕ :=
  let digits := if raw.head? = some '+' then raw.tail else raw
  if digits ≠ [] ∧ digits.all Char.isDigit ∧ Nat.ofDigitChars 10 digits 0 < 2 ^ bits then
    some (Nat.ofDigitChars 10 digits 0)
  else none

/-- A price is required for LIMIT and refused for MARKET. -/
def priceInput (orderType : OrderType) (price : Option (List Char)) :
    Except DomainError (Option (List Char)) :=
  match orderType, price with
  | .limit, some p => .ok (some p)
  | .limit, none => .error .missingParameter
  | .market, none => .ok none
  | .market, some _ => .error .invalidParameter

def encodePrice (outcome : Outcome) (price : Option (List Char)) :
    Except DomainError (List Char) :=
  match price with
  | some p => do
    precisionWithin p outcome.pricePrecision
    let onTick ← isMultipleOf p outcome.tickSize
    if ¬ onTick then .error .precisionExceeded
    else
      -- basis points, not the display precision
      let raw ← liftDecimal p PRICE_BPS_DECIMALS
      return Nat.toDigits 10 raw
  | none => return ['0']

/-- The amount in token atoms, positive and at most `u64::MAX`. -/
def encodeAmount (outcome : Outcome) (quoteDecimals : ℕ) (quantity : List Char) :
    Except DomainError (List Char) := do
  precisionWithin quantity outcome.quantityPrecision
  let onStep ← isMultipleOf quantity outcome.stepSize
  if ¬ onStep then .error .precisionExceeded
  else
    let amountLifted ← liftDecimal quantity quoteDecimals
    if amountLifted = 0 then .error .orderValidationFailed
    else if 2 ^ 64 - 1 < amountLifted then .error .orderValidationFailed
    else return Nat.toDigits 10 amountLifted

def checkNotional (outcome : Outcome) (orderType : OrderType) (side : OrderSide)
    (price : Option (List Char)) (quantity : List Char) : Except DomainError Unit :=
  match orderType, side, price with
  | .limit, _, some p => do
    let meets ← notionalMeetsMinimum p quantity outcome.minNotional
    if meets then return () else .error .orderValidationFailed
  | .market, .buy, _ => do
    -- `quantity` is the quote-asset spend amount
    let meets ← notionalMeetsMinimum ['1'] quantity outcome.minNotional
    if meets then return () else .error .orderValidationFailed
  | .market, .sell, _ => return ()
  | .limit, _, none => .error .unexpected

/-- The caller's id if it is a `u64`, else a generated one. -/
def encodeClientOrderId (fresh : UInt64) (clientOrderId : Option (List Char)) :
    Except DomainError (List Char) :=
  match clientOrderId with
  | some raw => if (parseUint 64 raw).isSome then .ok raw else .error .invalidParameter
  | none => .ok (Nat.toDigits 10 fresh.toNat)

def validateAndEncodeOrderItem (fresh : UInt64) (side : OrderSide) (quantity : List Char)
    (price : Option (List Char)) (orderType : OrderType) (timeInForce : Option TimeInForce)
    (clientOrderId : Option (List Char)) (outcome : Outcome) (quoteDecimals : ℕ) :
    Except DomainError BatchOrderPayloadItem := do
  let flags ← encodeOrderFlags orderType timeInForce
  let input ← priceInput orderType price
  let priceRaw ← encodePrice outcome input
  let amountRaw ← encodeAmount outcome quoteDecimals quantity
  checkNotional outcome orderType side input quantity
  let clientOrderId ← encodeClientOrderId fresh clientOrderId
  return ⟨outcome.outcomeId, side.isBuy, priceRaw, amountRaw, flags, clientOrderId⟩

/-- An order as it is handed to the chain client. -/
structure OrderBookOrder where
  outcomeId : ℕ
  isBuy : Bool
  flags : UInt8
  price : List Char
  amount : ℕ
  minAmount : ℕ
  epochId : ℕ
  clientOrderId : ℕ
  deriving DecidableEq

def encodeBatchItem (item : BatchOrderPayloadItem) : Except DomainError OrderBookOrder :=
  match parseUint 128 item.amountRaw, parseUint 128 item.clientOrderId with
  | some amount, some clientOrderId =>
    .ok ⟨item.outcomeId, item.isBuy, item.flags, item.priceRaw, amount, 0, 0, clientOrderId⟩
  | _, _ => .error .unexpected

/-- The order as the contract receives it: the price is a `uint256`. -/
def OrderBookOrder.params (o : OrderBookOrder) : Option PlaceParams :=
  (parseUint 256 o.price).map fun price =>
    ⟨o.outcomeId, o.isBuy, o.flags, price, o.amount, o.minAmount, o.epochId, o.clientOrderId⟩

/-- How the read path shows a chain integer of scale `decimals` at a display precision. -/
def showDecimal (raw : List Char) (decimals precision : ℕ) : Except DomainError (List Char) := do
  if decimals < precision then .error .marketInconsistent
  else
    let grid ← descalePow10 raw (decimals - precision)
    return scaleUintToDecimal grid precision

section Specs

variable {value raw : List Char} {bits n p t x y : ℕ}

theorem parseUint_toDigits {m : ℕ} :
    parseUint bits (Nat.toDigits 10 n) = some m ↔ n < 2 ^ bits ∧ n = m := by
  have hne : (Nat.toDigits 10 n).head? ≠ some '+' := by
    intro hp
    have := Nat.isDigit_of_mem_toDigits (by decide) (by decide) (List.mem_of_mem_head? hp)
    exact absurd this (by decide)
  simp only [parseUint, if_neg hne, Nat.ofDigitChars_ten_toDigits]
  constructor
  · intro h
    split_ifs at h with hd
    exact ⟨hd.2.2, Option.some.inj h⟩
  · rintro ⟨hn, rfl⟩
    rw [if_pos ⟨Nat.toDigits_ne_nil, toDigits_all n, hn⟩]

theorem parseUint_mono {b : ℕ} (h : parseUint bits raw = some n) (hb : bits ≤ b) :
    parseUint b raw = some n := by
  simp only [parseUint] at h ⊢
  generalize (if raw.head? = some '+' then raw.tail else raw) = digits at h ⊢
  split_ifs at h with hd
  have hle : 2 ^ bits ≤ 2 ^ b := Nat.pow_le_pow_right (by decide) hb
  rw [if_pos ⟨hd.1, hd.2.1, hd.2.2.trans_le hle⟩]
  exact h

theorem show_of_lift (h : precisionWithin value p = .ok ()) (hx : liftDecimal value t = .ok x)
    (hp : p ≤ t) : ∃ s, showDecimal (Nat.toDigits 10 x) t p = .ok s ∧
      normalizeDecimal value p = .ok s := by
  obtain ⟨y, hy⟩ := lift_of_precision h
  have hl := lift_mono hy hp
  rw [hx] at hl
  obtain rfl := Except.ok.inj hl
  refine ⟨_, ?_, normalize_of_lift hy⟩
  rw [showDecimal, if_neg (by omega), descale_toDigits]
  exact congrArg _ (scaleUint_toDigits y p)

end Specs

end Dexdo.Api
