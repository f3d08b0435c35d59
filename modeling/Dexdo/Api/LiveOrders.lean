import Dexdo.Api.Exact
import Dexdo.Api.Order
import Dexdo.Indexer.Markets

namespace Dexdo.Api

inductive OrderStatus
  | pendingNew
  | new
  | partiallyFilled
  | pendingCancel
  | filled
  | canceled
  | rejected
  deriving DecidableEq, Repr

/-- The statuses a request may ask for. -/
inductive QueryableOrderStatus
  | new
  | partiallyFilled
  | filled
  | canceled
  | rejected
  deriving DecidableEq, Repr

def QueryableOrderStatus.asPublicStatus : QueryableOrderStatus → OrderStatus
  | .new => .new
  | .partiallyFilled => .partiallyFilled
  | .filled => .filled
  | .canceled => .canceled
  | .rejected => .rejected

structure NonEmptyStatusSet where
  statuses : List QueryableOrderStatus
  nonempty : statuses ≠ []

inductive OrderStatusFilter
  | all
  | only (statuses : NonEmptyStatusSet)

inductive OrderIdentity
  | chain (orderId : List Char)
  | rejected

/-- The public order. -/
structure Order where
  marketAddress : List Char
  symbol : List Char
  orderId : List Char
  clientOrderId : List Char
  price : List Char
  origQty : List Char
  executedQty : List Char
  status : OrderStatus
  timeInForce : TimeInForce
  orderType : OrderType
  side : OrderSide
  time : ℤ
  updateTime : ℤ

/-- The order id of a public order: a chain id, or none for a refused one. -/
def orderIdOf (status : OrderStatus) (identity : OrderIdentity) (executedQty : List Char) :
    Except DomainError (List Char) :=
  match status, identity with
  | .rejected, .rejected => do
    if ¬ (← decimalStringIsZero executedQty) then .error .marketInconsistent else return []
  | .rejected, .chain _ => .error .marketInconsistent
  | _, .rejected => .error .marketInconsistent
  | _, .chain orderId => if trim orderId = [] then .error .marketInconsistent else .ok orderId

/-- Whether the quantities fit the status. -/
def quantitiesFit (status : OrderStatus) (executedQty origQty : List Char)
    (executedIsZero : Bool) : Except DomainError Bool :=
  match status with
  | .pendingNew | .pendingCancel => .ok false
  | .new => .ok executedIsZero
  | .partiallyFilled =>
    if executedIsZero then .ok false else decimalStringLt executedQty origQty
  | .filled =>
    if executedIsZero then .ok false else do
      return !(← decimalStringLt executedQty origQty)
  | _ => .ok true

/-- `Order::new`, which refuses what a sound row cannot show. -/
def Order.new (marketAddress symbol : List Char) (identity : OrderIdentity)
    (clientOrderId price origQty executedQty : List Char) (status : OrderStatus)
    (timeInForce : TimeInForce) (orderType : OrderType) (side : OrderSide) (time updateTime : ℤ) :
    Except DomainError Order := do
  let orderId ← orderIdOf status identity executedQty
  decimalStringValidate price
  if ← decimalStringIsZero origQty then .error .marketInconsistent
  else
    let executedIsZero ← decimalStringIsZero executedQty
    if ¬ (← decimalStringLte executedQty origQty) then .error .marketInconsistent
    else if ¬ (← quantitiesFit status executedQty origQty executedIsZero) then
      .error .marketInconsistent
    else return {
      marketAddress := marketAddress
      symbol := symbol
      orderId := orderId
      clientOrderId := clientOrderId
      price := price
      origQty := origQty
      executedQty := executedQty
      status := status
      timeInForce := timeInForce
      orderType := orderType
      side := side
      time := time
      updateTime := updateTime }

/-- The columns of `live_orders` that the listing reads. -/
structure LiveOrderRow where
  orderId : ℤ
  isBuy : Bool
  price : ℤ
  amountInitial : ℤ
  amountRemaining : ℤ
  clientOrderId : Option (List Char)
  status : String
  chainCreatedAtUs : ℤ
  chainUpdatedAtUs : ℤ
  placedChainOrder : List Char

/-- The columns joined to an order: its market, its outcome and its token. -/
structure MarketColumns where
  marketAddress : List Char
  symbol : List Char
  pricePrecision : ℤ
  quantityPrecision : ℤ
  decimals : ℤ

/-- Row of the listing query. -/
structure OrderRow where
  decimals : ℤ
  marketAddress : List Char
  symbol : List Char
  orderId : List Char
  clientOrderId : List Char
  price : List Char
  origQty : List Char
  executedQty : List Char
  fullyFilled : Bool
  corruptRemainder : Bool
  isBuy : Bool
  chainCreatedAtUs : ℤ
  chainUpdatedAtUs : ℤ
  placedChainOrder : List Char
  pricePrecision : ℤ
  quantityPrecision : ℤ
  rawStatus : String

/-- `numeric::text`. -/
def numericText (n : ℤ) : List Char :=
  if n < 0 then '-' :: Nat.toDigits 10 n.natAbs else Nat.toDigits 10 n.natAbs

/-- The select list of `list_orders`. -/
def LiveOrderRow.select (lo : LiveOrderRow) (m : MarketColumns) : OrderRow where
  decimals := m.decimals
  marketAddress := m.marketAddress
  symbol := m.symbol
  orderId := numericText lo.orderId
  clientOrderId := lo.clientOrderId.getD []
  price := numericText lo.price
  origQty := numericText lo.amountInitial
  executedQty := numericText (max (lo.amountInitial - lo.amountRemaining) 0)
  fullyFilled := decide (lo.amountRemaining = 0)
  corruptRemainder := decide (lo.amountInitial < lo.amountRemaining)
  isBuy := lo.isBuy
  chainCreatedAtUs := lo.chainCreatedAtUs
  chainUpdatedAtUs := lo.chainUpdatedAtUs
  placedChainOrder := lo.placedChainOrder
  pricePrecision := m.pricePrecision
  quantityPrecision := m.quantityPrecision
  rawStatus := lo.status

def MAX_DECIMAL_PRECISION : ℕ := 38

/-- A scale column, refused below zero and above the bound. -/
def precisionToScale (raw : ℤ) : Option ℕ :=
  if raw < 0 ∨ (MAX_DECIMAL_PRECISION : ℤ) < raw then none else some raw.toNat

/-- `usize::try_from` of a difference of scales. -/
def scaleDrop (scale precision : ℤ) : Option ℕ :=
  if scale < precision then none else some (scale - precision).toNat

def descale (raw : List Char) (k : ℕ) : Option (List Char) := (descalePow10 raw k).toOption

/-- The public status of a row; none when the row is dropped. -/
def statusFromRow (row : OrderRow) : Option OrderStatus :=
  if row.rawStatus = "OPEN" then
    if row.fullyFilled then none
    else match decimalStringIsZero row.executedQty with
      | .error _ => none
      | .ok true => some .new
      | .ok false => some .partiallyFilled
  else if row.rawStatus = "FILLED" then some .filled
  else if row.rawStatus = "CANCELLED" then some .canceled
  else if row.rawStatus = "REJECTED" then
    if row.orderId ≠ ['0'] then none else some .rejected
  else none

/-- A row as a public order; none when the row is dropped. -/
def orderFromRow (row : OrderRow) : Option Order :=
  if row.corruptRemainder then none
  else do
    let priceScale ← precisionToScale row.pricePrecision
    let quantityScale ← precisionToScale row.quantityPrecision
    let priceDrop ← scaleDrop PRICE_BPS_DECIMALS row.pricePrecision
    let amountDrop ← scaleDrop row.decimals row.quantityPrecision
    let priceGrid ← descale row.price priceDrop
    let origQtyGrid ← descale row.origQty amountDrop
    let executedQtyGrid ← descale row.executedQty amountDrop
    let status ← statusFromRow row
    let identity := if status = .rejected then .rejected else .chain row.orderId
    (Order.new row.marketAddress row.symbol identity row.clientOrderId
      (scaleUintToDecimal priceGrid priceScale) (scaleUintToDecimal origQtyGrid quantityScale)
      (scaleUintToDecimal executedQtyGrid quantityScale) status .gtc .limit
      (if row.isBuy then .buy else .sell) (row.chainCreatedAtUs.tdiv 1000)
      (row.chainUpdatedAtUs.tdiv 1000)).toOption

/-- The SQL condition a requested status stands for. -/
def QueryableOrderStatus.holds (lo : LiveOrderRow) : QueryableOrderStatus → Bool
  | .new => lo.status == "OPEN" && decide (lo.amountRemaining = lo.amountInitial)
  | .partiallyFilled => lo.status == "OPEN" && decide (lo.amountRemaining < lo.amountInitial) &&
      decide (0 < lo.amountRemaining)
  | .filled => lo.status == "FILLED"
  | .canceled => lo.status == "CANCELLED"
  | .rejected => lo.status == "REJECTED"

/-- The status condition of the query, none when every status is let through. -/
def buildStatusPredicate : OrderStatusFilter → Option (LiveOrderRow → Bool)
  | .all => none
  | .only statuses => some fun lo => statuses.statuses.any (·.holds lo)

section Rendering

variable {lo : LiveOrderRow} {m : MarketColumns} {order : Order} {st : OrderStatus}
  {a b n k p : ℕ} {z : ℤ} {g raw : List Char}

theorem numericText_nat (n : ℕ) : numericText n = Nat.toDigits 10 n :=
  if_neg (not_lt.mpr (Int.natCast_nonneg n))

/-- What descales is a whole number of grid units, and reads so. -/
theorem descale_numeric (h : descale (numericText z) k = some g) :
    ∃ n : ℕ, z = (n * 10 ^ k : ℕ) ∧ g = Nat.toDigits 10 n := by
  have hs : descalePow10 (numericText z) k = .ok g := by
    unfold descale at h
    cases hd : descalePow10 (numericText z) k with
    | error =>
      rw [hd] at h
      cases h
    | ok =>
      rw [hd] at h
      cases h
      rfl
  obtain ⟨n, hn, hdvd⟩ := descalePow10_iff.mp ⟨g, hs⟩
  have hz : 0 ≤ z := by
    by_contra hz
    have htext : numericText z = '-' :: Nat.toDigits 10 z.natAbs := if_pos (not_le.mp hz)
    have htrim : trim (numericText z) = numericText z := by
      rw [htext]
      refine trim_eq_self fun c hc => ?_
      rcases List.mem_cons.mp hc with rfl | hc
      · decide
      · exact isWhite_of_isDigit (List.all_eq_true.mp (toDigits_all _) c hc)
    have hminus := hn.2.1 '-' (by rw [htrim, htext]; exact List.mem_cons_self)
    exact absurd hminus (by decide)
  obtain ⟨x, rfl⟩ := Int.eq_ofNat_of_zero_le hz
  have hnx : n = x := by
    rw [hn.2.2, numericText_nat, trim_toDigits, Nat.ofDigitChars_ten_toDigits]
  obtain ⟨y, hy⟩ := hdvd
  refine ⟨y, ?_, ?_⟩
  · rw [← hnx, hy, Nat.mul_comm]
  · rw [numericText_nat, ← hnx, hy, Nat.mul_comm, descale_toDigits] at hs
    exact (Except.ok.inj hs).symm

theorem new_status {market symbol client price origQty executedQty : List Char}
    {identity : OrderIdentity} {tif : TimeInForce} {type : OrderType} {side : OrderSide}
    {time update : ℤ} (h : Order.new market symbol identity client price origQty executedQty st tif
      type side time update = .ok order) :
    order.status = st ∧ decimalStringLte executedQty origQty = .ok true := by
  obtain ⟨orderId, -, h⟩ := bind_eq_ok.mp h
  obtain ⟨-, -, h⟩ := bind_eq_ok.mp h
  obtain ⟨zero, -, h⟩ := bind_eq_ok.mp h
  split_ifs at h
  obtain ⟨executedIsZero, -, h⟩ := bind_eq_ok.mp h
  obtain ⟨lte, hlte, h⟩ := bind_eq_ok.mp h
  split_ifs at h with hl
  obtain ⟨fits, -, h⟩ := bind_eq_ok.mp h
  split_ifs at h
  cases h
  exact ⟨rfl, hl ▸ hlte⟩

theorem lte_fixed (p a b : ℕ) :
    decimalStringLte (Decimal.fixed p a) (Decimal.fixed p b) = .ok (decide (a ≤ b)) := by
  rw [decimalStringLte, cmp_fixed]
  refine congrArg Except.ok (Bool.eq_iff_iff.mpr ?_)
  rw [bne_iff_ne, decide_eq_true_eq]
  rw [Ne, compare_gt_iff_gt, not_lt]

/-- What a rendered row says about its amounts. -/
theorem rendered_amounts (h : orderFromRow (lo.select m) = some order) :
    lo.amountRemaining ≤ lo.amountInitial ∧ 0 ≤ lo.amountRemaining ∧
      statusFromRow (lo.select m) = some order.status := by
  have hc : ¬ (lo.select m).corruptRemainder = true := by
    intro hc
    rw [orderFromRow, if_pos hc] at h
    cases h
  rw [orderFromRow, if_neg hc] at h
  have hle : lo.amountRemaining ≤ lo.amountInitial := by
    have : ¬ lo.amountInitial < lo.amountRemaining := by simpa [LiveOrderRow.select] using hc
    exact not_lt.mp this
  simp only [bind_iff] at h
  obtain ⟨priceScale, -, quantityScale, -, priceDrop, -, amountDrop, -, priceGrid, -, origQtyGrid,
    ho, executedQtyGrid, he, status, hs, h⟩ := h
  obtain ⟨orig, hoz, rfl⟩ := descale_numeric ho
  obtain ⟨executed, hez, rfl⟩ := descale_numeric he
  rw [scaleUint_toDigits, scaleUint_toDigits] at h
  have hok : ∀ {o : Except DomainError Order}, o.toOption = some order → o = .ok order := by
    intro o ho
    cases o with
    | error => cases ho
    | ok => exact congrArg Except.ok (Option.some.inj ho)
  obtain ⟨hst, hlte⟩ := new_status (hok h)
  rw [lte_fixed, Except.ok.injEq, decide_eq_true_eq] at hlte
  have hamount : executed * 10 ^ amountDrop ≤ orig * 10 ^ amountDrop :=
    Nat.mul_le_mul_right _ hlte
  have hsub : lo.amountInitial - lo.amountRemaining ≤ lo.amountInitial := by
    refine (le_max_left _ 0).trans ?_
    rw [hez, hoz]
    exact_mod_cast hamount
  refine ⟨hle, by omega, ?_⟩
  rw [hst]
  exact hs

/-- The rows a request gets and the statuses they show agree: a row that is shown meets the
condition of exactly one status, the one it shows. -/
theorem shown_status (h : orderFromRow (lo.select m) = some order) :
    ∃ q : QueryableOrderStatus, q.asPublicStatus = order.status ∧
      ∀ q' : QueryableOrderStatus, q'.holds lo = true ↔ q' = q := by
  obtain ⟨hle, hpos, hs⟩ := rendered_amounts h
  have hone (q : QueryableOrderStatus) (hq : q.holds lo = true)
      (hn : ∀ q', q' ≠ q → q'.holds lo = false) (q' : QueryableOrderStatus) :
      q'.holds lo = true ↔ q' = q := by
    constructor
    · intro hq'
      by_contra hne
      rw [hn q' hne] at hq'
      cases hq'
    · rintro rfl
      exact hq
  unfold statusFromRow at hs
  rw [show (lo.select m).rawStatus = lo.status from rfl] at hs
  split_ifs at hs with h1 h2 h3 h4 h5 h6
  · have hne : lo.amountRemaining ≠ 0 := by simpa [LiveOrderRow.select] using h2
    have hex : (lo.select m).executedQty =
        Nat.toDigits 10 (lo.amountInitial - lo.amountRemaining).toNat := by
      rw [← numericText_nat, Int.toNat_of_nonneg (by omega)]
      exact congrArg numericText (max_eq_left (by omega))
    rw [hex, isZero_toDigits] at hs
    by_cases hz : lo.amountInitial = lo.amountRemaining
    · have h0 : ((lo.amountInitial - lo.amountRemaining).toNat == 0) = true := by simp [hz]
      rw [h0] at hs
      refine ⟨.new, Option.some.inj hs, hone _ ?_ ?_⟩
      · simp [QueryableOrderStatus.holds, h1, hz]
      · intro q' hq'
        cases q' <;> simp_all [QueryableOrderStatus.holds]
    · have hlt : lo.amountRemaining < lo.amountInitial := by omega
      have h0 : ((lo.amountInitial - lo.amountRemaining).toNat == 0) = false := by
        rw [beq_eq_false_iff_ne]
        omega
      rw [h0] at hs
      refine ⟨.partiallyFilled, Option.some.inj hs, hone _ ?_ ?_⟩
      · simp only [QueryableOrderStatus.holds, h1, hlt, decide_true, BEq.rfl, Bool.true_and,
          decide_eq_true_eq]
        omega
      · intro q' hq'
        cases q' <;> simp_all [QueryableOrderStatus.holds]
        omega
  · refine ⟨.filled, Option.some.inj hs, hone _ ?_ ?_⟩
    · simp [QueryableOrderStatus.holds, h3]
    · intro q' hq'
      cases q' <;> simp_all [QueryableOrderStatus.holds]
  · refine ⟨.canceled, Option.some.inj hs, hone _ ?_ ?_⟩
    · simp [QueryableOrderStatus.holds, h4]
    · intro q' hq'
      cases q' <;> simp_all [QueryableOrderStatus.holds]
  · refine ⟨.rejected, Option.some.inj hs, hone _ ?_ ?_⟩
    · simp [QueryableOrderStatus.holds, h5]
    · intro q' hq'
      cases q' <;> simp_all [QueryableOrderStatus.holds]

theorem predicate_iff (h : orderFromRow (lo.select m) = some order) (statuses : NonEmptyStatusSet) :
    ∃ p, buildStatusPredicate (.only statuses) = some p ∧
      (p lo = true ↔ ∃ q ∈ statuses.statuses, q.asPublicStatus = order.status) := by
  refine ⟨_, rfl, ?_⟩
  obtain ⟨q, hq, honly⟩ := shown_status h
  have hinj (q' : QueryableOrderStatus) (hq' : q'.asPublicStatus = order.status) : q' = q := by
    rw [← hq] at hq'
    cases q' <;> cases q <;> first | rfl | cases hq'
  rw [List.any_eq_true]
  constructor
  · rintro ⟨q', hm, hh⟩
    exact ⟨q, (honly q').mp hh ▸ hm, hq⟩
  · rintro ⟨q', hm, hq'⟩
    exact ⟨q', hm, (honly q').mpr (hinj q' hq')⟩

end Rendering

/-- The status filters of the listings and the statuses of the responses agree. -/
theorem status_filters_agree :
    (∀ (m : ReadModel.StatusColumns) (now : ℤ), m.Together →
      m.STATUS_CASE now = (m.computeStatus now).asStr ∧
      ∀ statuses, statuses ≠ [] →
        (m.matchesStatuses now statuses = some true ↔ m.computeStatus now ∈ statuses)) ∧
    (∀ (l : ReadModel.Lifecycle) (now : ℕ), l.columns.Together ∧
      l.columns.computeStatus now = ReadModel.computeStatus l now) ∧
    ∀ (lo : LiveOrderRow) (m : MarketColumns) (order : Order),
      orderFromRow (lo.select m) = some order →
      (∃ q : QueryableOrderStatus, q.asPublicStatus = order.status ∧
        ∀ q' : QueryableOrderStatus, q'.holds lo = true ↔ q' = q) ∧
      ∀ statuses, ∃ p, buildStatusPredicate (.only statuses) = some p ∧
        (p lo = true ↔ ∃ q ∈ statuses.statuses, q.asPublicStatus = order.status) :=
  ⟨fun _ now h => ⟨ReadModel.StatusColumns.statusCase_eq h now,
      fun _ hne => ReadModel.StatusColumns.matchesStatuses_iff h now hne⟩,
    fun l now => ⟨l.together, l.computeStatus_columns now⟩,
    fun _ _ _ h => ⟨shown_status h, predicate_iff h⟩⟩

/-- An order for ten units of which six are traded, on a book of six decimals. -/
def sampleRow : LiveOrderRow where
  orderId := 7
  isBuy := true
  price := 5000
  amountInitial := 10000000
  amountRemaining := 4000000
  clientOrderId := none
  status := "OPEN"
  chainCreatedAtUs := 1700000000000000
  chainUpdatedAtUs := 1700000000000000
  placedChainOrder := ['1']

def sampleColumns : MarketColumns := ⟨['m'], ['s'], 3, 2, 6⟩

theorem sampleRow_shown : (orderFromRow (sampleRow.select sampleColumns)).isSome = true := by
  decide +kernel

/-- A market that takes stakes at 15. -/
def sampleStaking : ReadModel.StatusColumns :=
  ⟨none, false, none, some 10, some 20, some 30, some 40, none⟩

/-- The status filters of the sample market, of a fresh row and of the sample order. -/
theorem status_filters_agree_sample :
    sampleStaking.STATUS_CASE 15 = (sampleStaking.computeStatus 15).asStr ∧
    sampleStaking.matchesStatuses 15 [.Staking] = some true ∧
    sampleStaking.matchesStatuses 15 [.Pending] ≠ some true ∧
    ReadModel.Lifecycle.blank.columns.computeStatus 15 =
      ReadModel.computeStatus ReadModel.Lifecycle.blank 15 ∧
    ∃ order, orderFromRow (sampleRow.select sampleColumns) = some order ∧
      (∃ q : QueryableOrderStatus, q.asPublicStatus = order.status ∧ q.holds sampleRow = true) ∧
      ∃ p, buildStatusPredicate (.only ⟨[.new, .filled], by decide⟩) = some p ∧
        (p sampleRow = true ↔
          ∃ q ∈ [QueryableOrderStatus.new, .filled], q.asPublicStatus = order.status) := by
  obtain ⟨hmarket, hrow, horder⟩ := status_filters_agree
  obtain ⟨hcase, hmatch⟩ := hmarket sampleStaking 15 (.inr ⟨rfl, rfl, rfl, rfl⟩)
  refine ⟨hcase, (hmatch _ (by decide)).mpr (by decide), fun h => ?_, (hrow _ 15).2, ?_⟩
  · exact absurd ((hmatch _ (by decide)).mp h) (by decide)
  · obtain ⟨order, ho⟩ := Option.isSome_iff_exists.mp sampleRow_shown
    obtain ⟨⟨q, hq, hall⟩, hfilter⟩ := horder sampleRow sampleColumns order ho
    exact ⟨order, ho, ⟨q, hq, (hall q).mpr rfl⟩, hfilter ⟨[.new, .filled], by decide⟩⟩

end Dexdo.Api
