import Dexdo.Api.Order
import Dexdo.OrderBook.Entry
import Mathlib.Algebra.Order.Floor.Semifield

namespace Dexdo.Api

/-- Trading parameters that come from the book's constants. -/
structure Outcome.FromChain (o : Outcome) (tokenType decimals : ℕ) : Prop where
  price : o.pricePrecision ≤ PRICE_BPS_DECIMALS
  tick : ∃ q, Worth o.tickSize q ∧ ∃ j : ℕ, q * 10 ^ PRICE_BPS_DECIMALS = j * TICK_SIZE
  step : ∃ q, Worth o.stepSize q ∧ ∃ j : ℕ, q * 10 ^ decimals = j * lotSize tokenType
  notional : ∃ q, Worth o.minNotional q ∧ minOrderNotional tokenType ≤ q * 10 ^ decimals

/-- Price times quantity, for a buy with the taker fee on it, fits the contract's `uint128`; nothing
to ask without a price. -/
def NotionalFits (side : OrderSide) (price : Option (List Char)) (quantity : List Char)
    (decimals : ℕ) : Prop :=
  ∀ p ∈ price, ∀ q r, Worth p q → Worth quantity r →
    let cost := ⌊q * r * 10 ^ decimals⌋₊
    cost + (if side.isBuy then takerFeeOf cost else 0) < 2 ^ 128

/-- The book queues the order of a batch unless its queue is full; and the sum of its lock, which the
note makes before it sends the order and the book when it announces it, does not throw. -/
def Queued (op : PlaceParams) (tokenType : ℕ) : Prop :=
  op.valid tokenType = true ∧ (OrderBook.placeLock op).isSome = true ∧
    ∀ (s : OrderBook) (depositHash opNonce batch : ℕ) (slot : Option ℕ),
      s.market.tokenType = tokenType → s.queueSize < QUEUE_PLACE_LIMIT →
      let t := { s with subs := s.subs + 1 }.enqueue
        (OrderBook.placeEntry depositHash op opNonce s.subs batch)
      OrderBook.batchPlace depositHash opNonce batch (s, slot) op = (t, some t.lastSlot)

section Steps

variable {outcome : Outcome} {orderType : OrderType} {side : OrderSide}
  {timeInForce : Option TimeInForce} {price input : Option (List Char)} {flags : UInt8}
  {quantity p raw amountRaw priceRaw : List Char} {decimals tokenType n : ℕ} {fresh : UInt64}
  {clientOrderId : Option (List Char)} {item : BatchOrderPayloadItem}

theorem priceInput_limit (h : priceInput .limit price = .ok input) :
    ∃ p, price = some p ∧ input = some p := by
  cases price with
  | none => cases h
  | some p => exact ⟨p, rfl, (Except.ok.inj h).symm⟩

theorem priceInput_market (h : priceInput .market price = .ok input) :
    price = none ∧ input = none := by
  cases price with
  | none => exact ⟨rfl, (Except.ok.inj h).symm⟩
  | some => cases h

theorem encodePrice_spec (h : encodePrice outcome (some p) = .ok raw) :
    ∃ n, raw = Nat.toDigits 10 n ∧ liftDecimal p PRICE_BPS_DECIMALS = .ok n ∧
      precisionWithin p outcome.pricePrecision = .ok () ∧
      isMultipleOf p outcome.tickSize = .ok true := by
  obtain ⟨u, hprec, h⟩ := bind_eq_ok.mp h
  obtain ⟨b, htick, h⟩ := bind_eq_ok.mp h
  split_ifs at h with hb
  obtain ⟨n, hn, h⟩ := bind_eq_ok.mp h
  have hb : b = true := by simpa using hb
  rw [hb] at htick
  exact ⟨n, (Except.ok.inj h).symm, hn, hprec, htick⟩

theorem encodeAmount_spec (h : encodeAmount outcome decimals quantity = .ok raw) :
    ∃ n, raw = Nat.toDigits 10 n ∧ liftDecimal quantity decimals = .ok n ∧ 0 < n ∧ n < 2 ^ 64 ∧
      precisionWithin quantity outcome.quantityPrecision = .ok () ∧
      isMultipleOf quantity outcome.stepSize = .ok true := by
  obtain ⟨u, hprec, h⟩ := bind_eq_ok.mp h
  obtain ⟨b, hstep, h⟩ := bind_eq_ok.mp h
  split_ifs at h with hb
  obtain ⟨n, hn, h⟩ := bind_eq_ok.mp h
  split_ifs at h with h0 hmax
  have hb : b = true := by simpa using hb
  rw [hb] at hstep
  exact ⟨n, (Except.ok.inj h).symm, hn, Nat.pos_of_ne_zero h0, by omega, hprec, hstep⟩

theorem checkNotional_limit (h : checkNotional outcome .limit side (some p) quantity = .ok ()) :
    notionalMeetsMinimum p quantity outcome.minNotional = .ok true := by
  obtain ⟨b, hb, h⟩ := bind_eq_ok.mp h
  split_ifs at h with ht
  rw [hb, ht]

theorem checkNotional_marketBuy
    (h : checkNotional outcome .market .buy input quantity = .ok ()) :
    notionalMeetsMinimum ['1'] quantity outcome.minNotional = .ok true := by
  obtain ⟨b, hb, h⟩ := bind_eq_ok.mp h
  split_ifs at h with ht
  rw [hb, ht]

theorem encodeClientOrderId_spec (h : encodeClientOrderId fresh clientOrderId = .ok raw) :
    (∃ n, parseUint 64 raw = some n) ∧ ∀ id ∈ clientOrderId, raw = id := by
  cases clientOrderId with
  | none =>
    cases h
    exact ⟨⟨_, parseUint_toDigits.mpr ⟨fresh.toNat_lt, rfl⟩⟩, by simp⟩
  | some =>
    simp only [encodeClientOrderId] at h
    split_ifs at h with hs
    cases h
    exact ⟨Option.isSome_iff_exists.mp hs, by simp⟩

theorem limit_flags (h : encodeOrderFlags .limit timeInForce = .ok flags) :
    flags &&& Dexdo.FLAG_MARKET = 0 ∧
      (flags &&& Dexdo.FLAG_POST_ONLY = 0 ∨
        flags &&& Dexdo.FLAG_IOC = 0 ∧ flags &&& Dexdo.FLAG_FOK = 0) ∧
      (flags &&& Dexdo.FLAG_IOC = 0 ∨ flags &&& Dexdo.FLAG_FOK = 0) := by
  rcases timeInForce with _ | tif
  · cases h
    decide
  · cases tif <;> cases h <;> decide

theorem market_flags (h : encodeOrderFlags .market timeInForce = .ok flags) :
    flags = FLAG_MARKET := by
  rcases timeInForce with _ | tif
  · cases h
    rfl
  · cases tif <;> cases h
    rfl

end Steps

section Validity

variable {op : PlaceParams} {tokenType : ℕ}

/-- On the grid, only an overflowing notional invalidates a limit order. -/
theorem valid_limit_iff (hm : op.flags &&& Dexdo.FLAG_MARKET = 0)
    (hpost : op.flags &&& Dexdo.FLAG_POST_ONLY = 0 ∨
      op.flags &&& Dexdo.FLAG_IOC = 0 ∧ op.flags &&& Dexdo.FLAG_FOK = 0)
    (hioc : op.flags &&& Dexdo.FLAG_IOC = 0 ∨ op.flags &&& Dexdo.FLAG_FOK = 0)
    (h0 : op.minAmount = 0) (ha : 0 < op.amount) (hlot : lotSize tokenType ∣ op.amount)
    (hp : 0 < op.price) (htick : TICK_SIZE ∣ op.price)
    (hmin : minOrderNotional tokenType ≤ notionalOf op.amount op.price) :
    op.valid tokenType = true ↔ notionalOf op.amount op.price < 2 ^ 128 := by
  have hmarket : op.isMarket = false := by simp [PlaceParams.isMarket, hm]
  have h1 : ¬ (op.isPostOnly = true ∧
      (op.isMarket = true ∨ op.isIoc = true ∨ op.isFok = true ∨ op.minAmount ≠ 0)) := by
    rintro ⟨hpo, hany⟩
    rcases hpost with hz | ⟨hi, hf⟩
    · simp [PlaceParams.isPostOnly, hz] at hpo
    · simp [hmarket, h0, PlaceParams.isIoc, PlaceParams.isFok, hi, hf] at hany
  have h2 : ¬ (op.isIoc = true ∧ op.isFok = true) := by
    rintro ⟨hi, hf⟩
    rcases hioc with hz | hz
    · simp [PlaceParams.isIoc, hz] at hi
    · simp [PlaceParams.isFok, hz] at hf
  rw [PlaceParams.valid, if_neg ha.ne', if_neg h1, if_neg h2, if_neg (by simp [hmarket]),
    if_neg (by simp [hmarket]), if_neg (not_not.mpr (Nat.mod_eq_zero_of_dvd hlot)),
    if_neg (by omega), if_neg hp.ne', if_neg (not_not.mpr (Nat.mod_eq_zero_of_dvd htick))]
  have hcap : notionalOf op.amount op.price < 2 ^ 128 → op.amount ≤ (2 ^ 256 - 1) / op.price := by
    intro hn
    rw [Nat.le_div_iff_mul_le hp]
    have := Nat.lt_mul_of_div_lt hn (by decide : 0 < FULL_PERCENT)
    exact (Nat.le_of_lt_succ (this.trans (by decide : 2 ^ 128 * FULL_PERCENT < 2 ^ 256)))
  constructor
  · intro h
    split_ifs at h with hb hc
    omega
  · intro h
    rw [if_neg (Nat.not_lt.mpr (hcap h)), if_neg (by omega), if_neg (Nat.not_lt.mpr hmin)]

theorem valid_market (hm : op.flags = FLAG_MARKET) (h0 : op.minAmount = 0) (ha : 0 < op.amount)
    (hmin : op.isBuy = true → minOrderNotional tokenType ≤ op.amount) :
    op.valid tokenType = true := by
  have hmarket : op.isMarket = true := by
    rw [PlaceParams.isMarket, hm]
    decide
  have hrest : op.isPostOnly = false ∧ op.isIoc = false ∧ op.isFok = false := by
    rw [PlaceParams.isPostOnly, PlaceParams.isIoc, PlaceParams.isFok, hm]
    decide
  obtain ⟨hpo, hi, hf⟩ := hrest
  rw [PlaceParams.valid, if_neg ha.ne', if_neg (by simp [hpo]), if_neg (by simp [hi]),
    if_neg (by simp [hi, hf]), if_pos hmarket, if_neg (not_not.mpr h0)]
  rw [if_neg]
  rintro ⟨hb, hlt⟩
  exact absurd (hmin hb) (by omega)

theorem placeLock_isSome : (OrderBook.placeLock op).isSome = true ↔
    (op.isBuy = true → OrderBook.placeCost op + takerFeeOf (OrderBook.placeCost op) < 2 ^ 128) := by
  unfold OrderBook.placeLock add128
  split_ifs <;> simp_all

theorem market_lock (hm : op.flags = FLAG_MARKET) (ha : op.amount < 2 ^ 64) :
    (OrderBook.placeLock op).isSome = true := by
  have hmarket : op.isMarket = true := by
    rw [PlaceParams.isMarket, hm]
    decide
  rw [placeLock_isSome, OrderBook.placeCost, if_pos hmarket]
  simp only [takerFeeOf, TAKER_FEE_RATE, FEE_DENOMINATOR]
  omega

theorem queued_of_valid (h : op.valid tokenType = true)
    (hl : (OrderBook.placeLock op).isSome = true) : Queued op tokenType := by
  refine ⟨h, hl, ?_⟩
  intro s depositHash opNonce batch slot ht hroom
  have hv : op.valid s.market.tokenType = true := by rw [ht, h]
  simp only [OrderBook.batchPlace, if_pos hv, OrderBook.enqueuePlace, if_pos hroom, if_true]

end Validity

section Grid

variable {value step price quantity minNotional : List Char} {t a n g m d : ℕ}

theorem dvd_of_cast {x y : ℕ} {q : ℚ} {j : ℕ} (h : (x : ℚ) = q) (hq : q = j * y) : y ∣ x := by
  refine ⟨j, ?_⟩
  rw [hq] at h
  have : x = j * y := by exact_mod_cast h
  rw [this, mul_comm]

theorem grid_dvd (hs : ∃ q, Worth step q ∧ ∃ j : ℕ, q * 10 ^ t = j * g)
    (hn : liftDecimal value t = .ok n) (h : isMultipleOf value step = .ok true) : g ∣ n := by
  obtain ⟨r, hr, j, hj⟩ := hs
  obtain ⟨q, hq⟩ := worth_of_lift hn
  obtain ⟨m, hm⟩ := hq.multiple hr h
  apply dvd_of_cast (j := m * j) (hq.lift hn)
  rw [hm, mul_assoc, hj]
  push_cast
  ring

theorem minimum_le (hs : ∃ q, Worth minNotional q ∧ (m : ℚ) ≤ q * 10 ^ d)
    (hn : liftDecimal price PRICE_BPS_DECIMALS = .ok n) (ha : liftDecimal quantity d = .ok a)
    (h : notionalMeetsMinimum price quantity minNotional = .ok true) : m ≤ notionalOf a n := by
  obtain ⟨w, hw, hm⟩ := hs
  obtain ⟨q, hq⟩ := worth_of_lift hn
  obtain ⟨r, hr⟩ := worth_of_lift ha
  have hle := hq.minimum hr hw h
  rw [notionalOf, Nat.le_div_iff_mul_le (by decide)]
  have hcast : (m : ℚ) * 10 ^ PRICE_BPS_DECIMALS ≤ a * n := by
    calc (m : ℚ) * 10 ^ PRICE_BPS_DECIMALS
        ≤ w * 10 ^ d * 10 ^ PRICE_BPS_DECIMALS := by gcongr
      _ ≤ q * r * 10 ^ d * 10 ^ PRICE_BPS_DECIMALS := by gcongr
      _ = a * n := by rw [hr.lift ha, hq.lift hn]; ring
  exact_mod_cast hcast

theorem worth_one : Worth ['1'] 1 := ⟨1, 0, by decide, by norm_num⟩

theorem minimum_le_amount (hs : ∃ q, Worth minNotional q ∧ (m : ℚ) ≤ q * 10 ^ d)
    (ha : liftDecimal quantity d = .ok a)
    (h : notionalMeetsMinimum ['1'] quantity minNotional = .ok true) : m ≤ a := by
  obtain ⟨w, hw, hm⟩ := hs
  obtain ⟨r, hr⟩ := worth_of_lift ha
  have hle := worth_one.minimum hr hw h
  rw [one_mul] at hle
  have hcast : (m : ℚ) ≤ a := by
    calc (m : ℚ) ≤ w * 10 ^ d := hm
      _ ≤ r * 10 ^ d := by gcongr
      _ = a := (hr.lift ha).symm
  exact_mod_cast hcast

theorem notionalFits_iff {side : OrderSide} (hn : liftDecimal price PRICE_BPS_DECIMALS = .ok n)
    (ha : liftDecimal quantity d = .ok a) :
    NotionalFits side (some price) quantity d ↔
      notionalOf a n + (if side.isBuy then takerFeeOf (notionalOf a n) else 0) < 2 ^ 128 := by
  obtain ⟨q, hq⟩ := worth_of_lift hn
  obtain ⟨r, hr⟩ := worth_of_lift ha
  have hval : (a * n : ℚ) = q * r * 10 ^ d * 10 ^ PRICE_BPS_DECIMALS := by
    rw [hr.lift ha, hq.lift hn]
    ring
  have hcost : ⌊q * r * 10 ^ d⌋₊ = notionalOf a n := by
    rw [notionalOf, ← Nat.floor_div_eq_div (K := ℚ) (a * n) FULL_PERCENT]
    congr 1
    rw [eq_div_iff (by norm_num [FULL_PERCENT]), Nat.cast_mul, hval]
    norm_num [FULL_PERCENT, PRICE_BPS_DECIMALS]
  rw [← hcost]
  constructor
  · exact fun h => h price rfl q r hq hr
  · intro h p hp q' r' hq' hr'
    obtain rfl : price = p := Option.some.inj hp
    rwa [hq.unique hq', hr.unique hr'] at h

end Grid

/-- What an order shows for itself is what was sent for it. -/
structure Echoed (outcome : Outcome) (decimals : ℕ) (price clientOrderId : Option (List Char))
    (quantity : List Char) (item : BatchOrderPayloadItem) (order : OrderBookOrder) : Prop where
  price : order.price = item.priceRaw ∧ ∀ p ∈ price, ∃ s,
    showDecimal item.priceRaw PRICE_BPS_DECIMALS outcome.pricePrecision = .ok s ∧
      normalizeDecimal p outcome.pricePrecision = .ok s
  quantity : Nat.toDigits 10 order.amount = item.amountRaw ∧
    (outcome.quantityPrecision ≤ decimals → ∃ s,
      showDecimal item.amountRaw decimals outcome.quantityPrecision = .ok s ∧
        normalizeDecimal quantity outcome.quantityPrecision = .ok s)
  clientOrderId : parseUint 128 item.clientOrderId = some order.clientOrderId ∧
    ∀ id ∈ clientOrderId, item.clientOrderId = id

section Admission

variable {outcome : Outcome} {decimals tokenType n a : ℕ} {fresh : UInt64} {side : OrderSide}
  {quantity p amountRaw priceRaw : List Char} {price input clientOrderId : Option (List Char)}
  {orderType : OrderType} {timeInForce : Option TimeInForce} {flags : UInt8}
  {item : BatchOrderPayloadItem} {order : OrderBookOrder}

theorem encodeBatchItem_spec (ha : a < 2 ^ 64) (hraw : item.amountRaw = Nat.toDigits 10 a)
    (hid : parseUint 64 item.clientOrderId = some n) :
    encodeBatchItem item = .ok
      ⟨item.outcomeId, item.isBuy, item.flags, item.priceRaw, a, 0, 0, n⟩ := by
  have h1 : parseUint 128 item.amountRaw = some a := by
    rw [hraw]
    exact parseUint_toDigits.mpr ⟨ha.trans (by decide), rfl⟩
  rw [encodeBatchItem, h1, parseUint_mono hid (by decide)]

/-- A limit order is queued exactly if its notional and the fee on it fit. -/
theorem limit_queued (hm : outcome.FromChain tokenType decimals)
    (hf : encodeOrderFlags .limit timeInForce = .ok order.flags)
    (hprice : order.price = Nat.toDigits 10 n) (hn : liftDecimal p PRICE_BPS_DECIMALS = .ok n)
    (htick : isMultipleOf p outcome.tickSize = .ok true)
    (ha : liftDecimal quantity decimals = .ok order.amount) (hpos : 0 < order.amount)
    (hstep : isMultipleOf quantity outcome.stepSize = .ok true)
    (hmin : notionalMeetsMinimum p quantity outcome.minNotional = .ok true)
    (h0 : order.minAmount = 0) (hside : order.isBuy = side.isBuy) :
    NotionalFits side (some p) quantity decimals ↔
      ∃ op, order.params = some op ∧ Queued op tokenType := by
  have hlow := minimum_le hm.notional hn ha hmin
  have hn0 : 0 < n := by
    by_contra hz
    obtain rfl : n = 0 := by omega
    have : 0 < minOrderNotional tokenType := by
      unfold minOrderNotional
      split_ifs <;> decide
    simp [notionalOf] at hlow
    omega
  obtain ⟨hmk, hpost, hioc⟩ := limit_flags hf
  have hvalid : (PlaceParams.mk order.outcomeId order.isBuy order.flags n order.amount
      order.minAmount order.epochId order.clientOrderId).valid tokenType = true ↔
      notionalOf order.amount n < 2 ^ 128 :=
    valid_limit_iff hmk hpost hioc h0 hpos (grid_dvd hm.step ha hstep) hn0
      (grid_dvd hm.tick hn htick) hlow
  have hlock : (OrderBook.placeLock (PlaceParams.mk order.outcomeId order.isBuy order.flags n
      order.amount order.minAmount order.epochId order.clientOrderId)).isSome = true ↔
      (side.isBuy = true → notionalOf order.amount n + takerFeeOf (notionalOf order.amount n) <
        2 ^ 128) := by
    rw [placeLock_isSome, OrderBook.placeCost, if_neg (by simp [PlaceParams.isMarket, hmk]), hside]
  rw [notionalFits_iff hn ha]
  constructor
  · intro hsum
    have hfit : notionalOf order.amount n < 2 ^ 128 := by omega
    have hbound : n < 2 ^ 256 := by
      have h1 := Nat.lt_mul_of_div_lt hfit (by decide : 0 < FULL_PERCENT)
      have h2 : n ≤ order.amount * n := Nat.le_mul_of_pos_left n hpos
      exact (h2.trans_lt h1).trans (by decide)
    refine ⟨_, ?_, queued_of_valid (hvalid.mpr hfit) (hlock.mpr fun hb => ?_)⟩
    rotate_right
    · rwa [if_pos hb] at hsum
    rw [OrderBookOrder.params, hprice, parseUint_toDigits.mpr ⟨hbound, rfl⟩]
    rfl
  · rintro ⟨op, hop, hq, hl, -⟩
    rw [OrderBookOrder.params, hprice] at hop
    obtain ⟨price, hparse, rfl⟩ := Option.map_eq_some_iff.mp hop
    obtain rfl : n = price := (parseUint_toDigits.mp hparse).2
    split_ifs with hb
    · exact hlock.mp hl hb
    · exact hvalid.mp hq

theorem market_queued (hm : outcome.FromChain tokenType decimals)
    (hf : encodeOrderFlags .market timeInForce = .ok order.flags) (hprice : order.price = ['0'])
    (ha : liftDecimal quantity decimals = .ok order.amount) (hpos : 0 < order.amount)
    (hlt : order.amount < 2 ^ 64) (hside : order.isBuy = side.isBuy)
    (hc : checkNotional outcome .market side input quantity = .ok ())
    (h0 : order.minAmount = 0) : ∃ op, order.params = some op ∧ Queued op tokenType := by
  refine ⟨_, by rw [OrderBookOrder.params, hprice]; rfl, queued_of_valid ?_
    (market_lock (market_flags hf) hlt)⟩
  apply valid_market (market_flags hf) h0 hpos
  intro hb
  cases side with
  | buy => exact minimum_le_amount hm.notional ha (checkNotional_marketBuy hc)
  | sell => cases hside.symm.trans hb

/-- Every item the API accepts is handed to the chain, the book queues it exactly if its notional
and the fee on it fit, and what is shown for it is what was sent. -/
theorem admission (hm : outcome.FromChain tokenType decimals)
    (h : validateAndEncodeOrderItem fresh side quantity price orderType timeInForce clientOrderId
      outcome decimals = .ok item) :
    ∃ order, encodeBatchItem item = .ok order ∧
      (NotionalFits side price quantity decimals ↔
        ∃ op, order.params = some op ∧ Queued op tokenType) ∧
      Echoed outcome decimals price clientOrderId quantity item order := by
  obtain ⟨flags, hf, h⟩ := bind_eq_ok.mp h
  obtain ⟨input, hin, h⟩ := bind_eq_ok.mp h
  obtain ⟨priceRaw, hpr, h⟩ := bind_eq_ok.mp h
  obtain ⟨amountRaw, har, h⟩ := bind_eq_ok.mp h
  obtain ⟨u, hc, h⟩ := bind_eq_ok.mp h
  obtain ⟨id, hid, h⟩ := bind_eq_ok.mp h
  obtain ⟨a, rfl, ha, hpos, hlt, hprec, hstep⟩ := encodeAmount_spec har
  obtain ⟨⟨k, hk⟩, hsame⟩ := encodeClientOrderId_spec hid
  cases h
  have hamount : Nat.toDigits 10 a = Nat.toDigits 10 a ∧ (outcome.quantityPrecision ≤ decimals →
      ∃ s, showDecimal (Nat.toDigits 10 a) decimals outcome.quantityPrecision = .ok s ∧
        normalizeDecimal quantity outcome.quantityPrecision = .ok s) :=
    ⟨rfl, show_of_lift hprec ha⟩
  refine ⟨_, encodeBatchItem_spec hlt rfl hk, ?_, ?_⟩
  · cases orderType with
    | limit =>
      obtain ⟨p, rfl, rfl⟩ := priceInput_limit hin
      obtain ⟨n, rfl, hn, -, htick⟩ := encodePrice_spec hpr
      exact limit_queued hm hf rfl hn htick ha hpos hstep (checkNotional_limit hc) rfl rfl
    | market =>
      obtain ⟨rfl, rfl⟩ := priceInput_market hin
      have hraw : priceRaw = ['0'] := (Except.ok.inj hpr).symm
      refine ⟨fun _ => market_queued hm hf hraw ha hpos hlt rfl hc rfl, ?_⟩
      intro _ p hp
      cases hp
  · refine ⟨⟨rfl, ?_⟩, hamount, parseUint_mono hk (by decide), hsame⟩
    intro p hp
    cases orderType with
    | limit =>
      obtain ⟨p', hp', rfl⟩ := priceInput_limit hin
      obtain rfl : p' = p := Option.some.inj (hp'.symm.trans hp)
      obtain ⟨n, rfl, hn, hpp, -⟩ := encodePrice_spec hpr
      exact show_of_lift hpp hn hm.price
    | market =>
      obtain ⟨rfl, -⟩ := priceInput_market hin
      cases hp

end Admission

section Samples

/-- A USDC outcome with three decimals of price and cents of quantity. -/
def sampleOutcome : Outcome :=
  ⟨1, 3, 2, "0.001".toList, "0.01".toList, "1.000000".toList⟩

theorem sampleOutcome_fromChain : sampleOutcome.FromChain CURRENCIES_ID_USDC 6 := by
  refine ⟨by decide, ⟨1 / 10 ^ 3, ⟨1, 3, by decide, by norm_num⟩, 1, ?_⟩,
    ⟨1 / 10 ^ 2, ⟨1, 2, by decide, by norm_num⟩, 1, ?_⟩,
    ⟨1000000 / 10 ^ 6, ⟨1000000, 6, by decide, by norm_num⟩, ?_⟩⟩
  · norm_num [PRICE_BPS_DECIMALS, TICK_SIZE]
  · norm_num [lotSize, CURRENCIES_ID_USDC, CURRENCIES_ID_SHELL, LOT_SIZE_USDC]
  · norm_num [minOrderNotional, CURRENCIES_ID_USDC, CURRENCIES_ID_SHELL, MIN_ORDER_NOTIONAL_USDC]

theorem admission_sample :
    ∃ order, encodeBatchItem ⟨1, true, "4880".toList, "2500000".toList, 8, "+007".toList⟩ =
        .ok order ∧
      (NotionalFits .buy (some " 0.488 ".toList) "2.5".toList 6 ↔
        ∃ op, order.params = some op ∧ Queued op CURRENCIES_ID_USDC) ∧
      Echoed sampleOutcome 6 (some " 0.488 ".toList) (some "+007".toList) "2.5".toList
        ⟨1, true, "4880".toList, "2500000".toList, 8, "+007".toList⟩ order :=
  admission sampleOutcome_fromChain (show validateAndEncodeOrderItem 0 .buy "2.5".toList
    (some " 0.488 ".toList) .limit (some .postOnly) (some "+007".toList) sampleOutcome 6 = .ok _
    from rfl)

/-- A bid for far too high a price passes the API and is refused by the book. -/
theorem admission_overflow : ¬ ∀ (fresh : UInt64) (side : OrderSide) (quantity : List Char)
    (price : Option (List Char)) (orderType : OrderType) (timeInForce : Option TimeInForce)
    (clientOrderId : Option (List Char)) (outcome : Outcome) (decimals tokenType : ℕ)
    (item : BatchOrderPayloadItem), outcome.FromChain tokenType decimals →
    validateAndEncodeOrderItem fresh side quantity price orderType timeInForce clientOrderId
      outcome decimals = .ok item →
    ∃ order, encodeBatchItem item = .ok order ∧
      ∃ op, order.params = some op ∧ op.valid tokenType = true := by
  intro h
  obtain ⟨order, ho, op, hop, hv⟩ := h 0 .buy "18000000000000".toList
    (some "20000000000000000000".toList) .limit none (some ['7']) sampleOutcome 6
    CURRENCIES_ID_USDC
    ⟨1, true, "200000000000000000000000".toList, "18000000000000000000".toList, 0, ['7']⟩
    sampleOutcome_fromChain rfl
  have ho' : order = ⟨1, true, 0, "200000000000000000000000".toList, 18000000000000000000, 0, 0, 7⟩ :=
    (Except.ok.inj ho).symm
  subst ho'
  have hop' : op = ⟨1, true, 0, 200000000000000000000000, 18000000000000000000, 0, 0, 7⟩ :=
    (Option.some.inj hop).symm
  subst hop'
  exact absurd hv (by decide)

end Samples

end Dexdo.Api
