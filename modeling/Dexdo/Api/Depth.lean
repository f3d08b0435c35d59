import Dexdo.Api.Orders

namespace Dexdo.Api.Read

/-- Row of `live_orders` with the chain order of the last event that touched it. -/
structure BookRow extends LiveOrdersRow where
  lastChainOrder : List Char

/-- Row of `trades`. -/
structure TradesRow where
  tradeId : List Char
  orderbookAddress : List Char
  outcomeId : ℤ
  price : ℤ
  qty : ℤ
  isBuyerMaker : Bool
  chainTimeUs : Option ℤ

structure PriceLevel where
  price : List Char
  quantity : List Char
  deriving DecidableEq

structure DepthSnapshot where
  marketAddress : List Char
  symbol : List Char
  lastUpdateId : List Char
  bids : List PriceLevel
  asks : List PriceLevel
  deriving DecidableEq

/-- One public trade. -/
structure Trade where
  tradeId : List Char
  price : List Char
  qty : List Char
  quoteQty : List Char
  time : ℤ
  isBuyerMaker : Bool
  deriving DecidableEq

def TRADES_MAX_LIMIT : ℕ := 1000

structure TradesLimit where
  get : ℕ
  pos : 1 ≤ get
  le_max : get ≤ TRADES_MAX_LIMIT

/-- The columns a market and symbol resolve to, beside the book. -/
structure BookColumns where
  outcomeId : ℤ
  pricePrecision : ℤ
  quantityPrecision : ℤ
  decimals : ℤ

/-- The book and outcome of a market and symbol. -/
def resolveBook (t : Tables) (marketAddress symbol : List Char) :
    Except ReadError (List Char × BookColumns) :=
  let found := t.markets.flatMap fun m =>
    (t.outcomes.filter fun mo => mo.marketIdFk == m.id && m.pmpAddress == marketAddress &&
      mo.symbol == symbol && m.reconciled).flatMap fun mo =>
    (t.refTokens.filter fun rt => rt.tokenType == m.tokenType).map fun rt =>
      (m.orderbookAddress,
        (⟨mo.outcomeId, mo.pricePrecision, mo.quantityPrecision, rt.decimals⟩ : BookColumns))
  match found.head? with
  | none => .error .invalidMarketOrSymbol
  | some (orderbookAddress, columns) =>
    match orderbookAddress.bind filterOrderbook with
    | none => .error (.domain .marketInconsistent)
    | some orderbookAddress => .ok (orderbookAddress, columns)

/-- What is missing or out of range is an inconsistent market. -/
def orInconsistent {α : Type} : Option α → Except ReadError α
  | none => .error (.domain .marketInconsistent)
  | some a => .ok a

/-- The scales values are shown at, and the digits they drop for it. -/
structure Scales where
  priceScale : ℕ
  quantityScale : ℕ
  priceDrop : ℕ
  amountDrop : ℕ

def BookColumns.scales (c : BookColumns) : Option Scales := do
  let priceScale ← precisionToScale c.pricePrecision
  let quantityScale ← precisionToScale c.quantityPrecision
  let priceDrop ← scaleDrop PRICE_BPS_DECIMALS c.pricePrecision
  let amountDrop ← scaleDrop c.decimals c.quantityPrecision
  return ⟨priceScale, quantityScale, priceDrop, amountDrop⟩

/-- Row of the depth query. -/
structure DepthLevelRow where
  isBuy : Bool
  price : List Char
  quantity : List Char

/-- The open orders of one side of an outcome. -/
def openOrders (rows : List BookRow) (book : List Char) (outcomeId : ℤ) (isBuy : Bool) :
    List BookRow :=
  rows.filter fun lo => lo.orderbookAddress == book && lo.outcomeId == outcomeId &&
    lo.status == "OPEN" && decide (0 < lo.amountRemaining) && lo.isBuy == isBuy

/-- One side of the depth query: the best prices with their total. -/
def depthSide (rows : List BookRow) (book : List Char) (outcomeId : ℤ) (isBuy : Bool)
    (limit : ℕ) : List DepthLevelRow :=
  let found := openOrders rows book outcomeId isBuy
  let prices := (found.map fun lo => lo.price).dedup
  let best := if isBuy then Keyset.orderByDesc id prices else Keyset.orderBy id prices
  (best.take limit).map fun price =>
    ⟨isBuy, numericText price,
      numericText ((found.filter fun lo => lo.price == price).map fun lo => lo.amountRemaining).sum⟩

/-- A level at its display scales. -/
def Scales.level (scales : Scales) (level : DepthLevelRow) : Except ReadError PriceLevel := do
  let priceGrid ← liftDomain (descalePow10 level.price scales.priceDrop)
  let qtyGrid ← liftDomain (descalePow10 level.quantity scales.amountDrop)
  return ⟨scaleUintToDecimal priceGrid scales.priceScale,
    scaleUintToDecimal qtyGrid scales.quantityScale⟩

/-- A trade at its display scales. -/
def Scales.trade (scales : Scales) (quoteScale : ℕ) (row : TradesRow × ℤ) :
    Except ReadError Trade := do
  let price ← orInconsistent (parseBytes (numericText row.1.price))
  let qty ← orInconsistent (parseBytes (numericText row.1.qty))
  let notional := price * qty / 10 ^ PRICE_BPS_DECIMALS
  let priceGrid ← liftDomain (descalePow10 (numericText row.1.price) scales.priceDrop)
  let qtyGrid ← liftDomain (descalePow10 (numericText row.1.qty) scales.amountDrop)
  return {
    tradeId := row.1.tradeId
    price := scaleUintToDecimal priceGrid scales.priceScale
    qty := scaleUintToDecimal qtyGrid scales.quantityScale
    quoteQty := scaleUintToDecimal (Nat.toDigits 10 notional) quoteScale
    time := row.2.tdiv 1000
    isBuyerMaker := row.1.isBuyerMaker }

section Reads

variable {κ : Type} [LinearOrder κ] (collate : Collation κ)

/-- The highest chain order that touched an outcome, blank if there is none. -/
def lastUpdateId (rows : List BookRow) (book : List Char) (outcomeId : ℤ) : List Char :=
  let touched := (rows.filter fun lo => lo.orderbookAddress == book &&
    lo.outcomeId == outcomeId).map fun lo => lo.lastChainOrder
  (Keyset.orderByDesc collate.key touched).head?.getD []

def getDepth (t : Tables) (rows : List BookRow) (marketAddress symbol : List Char) (limit : ℕ) :
    Except ReadError DepthSnapshot := do
  let (book, columns) ← resolveBook t marketAddress symbol
  let limit := max limit 1
  let found := depthSide rows book columns.outcomeId true limit ++
    depthSide rows book columns.outcomeId false limit
  let keyed ← found.mapM fun level => do
    let key ← orInconsistent (parseBytes level.price)
    return (key, level)
  let bids := (Keyset.orderByDesc Prod.fst (keyed.filter fun x => x.2.isBuy)).map Prod.snd
  let asks := (Keyset.orderBy Prod.fst (keyed.filter fun x => !x.2.isBuy)).map Prod.snd
  let scales ← orInconsistent columns.scales
  let bids ← bids.mapM scales.level
  let asks ← asks.mapM scales.level
  return {
    marketAddress := marketAddress
    symbol := symbol
    lastUpdateId := lastUpdateId collate rows book columns.outcomeId
    bids := bids
    asks := asks }

/-- The trades of an outcome with a chain time, the latest first. -/
def tape (rows : List TradesRow) (book : List Char) (outcomeId : ℤ) : List (TradesRow × ℤ) :=
  Keyset.orderByDesc (fun r => collate.key r.1.tradeId) (rows.filterMap fun r => do
    let chainTimeUs ← r.chainTimeUs
    if r.orderbookAddress == book && r.outcomeId == outcomeId then return (r, chainTimeUs)
    else none)

def getTrades (t : Tables) (rows : List TradesRow) (marketAddress symbol : List Char)
    (limit : TradesLimit) : Except ReadError (List Trade) := do
  let (book, columns) ← resolveBook t marketAddress symbol
  let scales ← orInconsistent columns.scales
  let quoteScale ← orInconsistent (precisionToScale columns.decimals)
  ((tape collate rows book columns.outcomeId).take limit.get).mapM (scales.trade quoteScale)

end Reads

section Grid

/-- A whole number of units of `10 ^ k`. -/
def Whole (k : ℕ) (z : ℤ) : Prop := ∃ n : ℕ, z = (n * 10 ^ k : ℕ)

variable {k n : ℕ} {z : ℤ} {scales : Scales}

theorem whole_of_dvd (h : 10 ^ k ∣ n) : Whole k n := by
  obtain ⟨m, rfl⟩ := h
  exact ⟨m, by rw [Nat.mul_comm]⟩

theorem whole_sum {l : List ℤ} (h : ∀ z ∈ l, Whole k z) : Whole k l.sum := by
  induction l with
  | nil => exact ⟨0, by simp⟩
  | cons z l ih =>
    obtain ⟨hz, hl⟩ := List.forall_mem_cons.mp h
    obtain ⟨n, rfl⟩ := hz
    obtain ⟨m, hm⟩ := ih hl
    refine ⟨n + m, ?_⟩
    rw [List.sum_cons, hm, Nat.add_mul]
    exact (Nat.cast_add _ _).symm

theorem descale_whole : (∃ grid, descalePow10 (numericText z) k = .ok grid) ↔ Whole k z := by
  constructor
  · rintro ⟨grid, hgrid⟩
    have hd : descale (numericText z) k = some grid := by
      rw [descale, hgrid]
      rfl
    obtain ⟨n, hn, -⟩ := descale_numeric hd
    exact ⟨n, hn⟩
  · rintro ⟨n, rfl⟩
    refine ⟨Nat.toDigits 10 n, ?_⟩
    rw [numericText_nat]
    exact descale_toDigits n k

theorem parse_whole (h : Whole k z) : ∃ n, parseBytes (numericText z) = some n := by
  obtain ⟨n, rfl⟩ := h
  rw [numericText_nat]
  exact ⟨_, parseBytes_eq.mpr ⟨⟨Nat.toDigits_ne_nil, toDigits_all _⟩, rfl⟩⟩

theorem mapM_exists {α β ε : Type} {f : α → Except ε β} {l : List α}
    (h : ∀ a ∈ l, ∃ b, f a = .ok b) : ∃ bs, l.mapM f = .ok bs := by
  induction l with
  | nil => exact ⟨[], rfl⟩
  | cons a l ih =>
    obtain ⟨⟨b, hb⟩, hl⟩ := List.forall_mem_cons.mp h
    obtain ⟨bs, hbs⟩ := ih hl
    rw [List.mapM_cons]
    exact ⟨b :: bs, bind_eq_ok.mpr ⟨b, hb, bind_eq_ok.mpr ⟨bs, hbs, rfl⟩⟩⟩

/-- What a level's row holds when price and total are whole. -/
def DepthLevelRow.Whole (scales : Scales) (level : DepthLevelRow) : Prop :=
  ∃ price quantity, level.price = numericText price ∧ level.quantity = numericText quantity ∧
    Read.Whole scales.priceDrop price ∧ Read.Whole scales.amountDrop quantity

theorem depthSide_whole {rows : List BookRow} {book : List Char} {outcomeId : ℤ} {isBuy : Bool}
    {limit : ℕ} (h : ∀ lo ∈ rows, lo.orderbookAddress = book →
      Whole scales.priceDrop lo.price ∧ Whole scales.amountDrop lo.amountRemaining) :
    ∀ level ∈ depthSide rows book outcomeId isBuy limit, level.Whole scales := by
  have hopen (lo : BookRow) (hlo : lo ∈ openOrders rows book outcomeId isBuy) :
      Whole scales.priceDrop lo.price ∧ Whole scales.amountDrop lo.amountRemaining := by
    obtain ⟨hin, hb⟩ := List.mem_filter.mp hlo
    simp only [Bool.and_eq_true, beq_iff_eq] at hb
    exact h lo hin hb.1.1.1.1
  intro level hl
  obtain ⟨price, hprice, rfl⟩ := List.mem_map.mp hl
  have hmem : price ∈ (openOrders rows book outcomeId isBuy).map fun lo => lo.price := by
    have hbest := List.mem_of_mem_take hprice
    split_ifs at hbest
    · exact List.mem_dedup.mp ((Keyset.orderByDesc_perm id _).mem_iff.mp hbest)
    · exact List.mem_dedup.mp ((Keyset.orderBy_perm id _).mem_iff.mp hbest)
  obtain ⟨lo, hlo, rfl⟩ := List.mem_map.mp hmem
  refine ⟨_, _, rfl, rfl, (hopen lo hlo).1, whole_sum fun z hz => ?_⟩
  obtain ⟨lo', hlo', rfl⟩ := List.mem_map.mp hz
  exact (hopen lo' (List.mem_of_mem_filter hlo')).2

theorem level_ok {level : DepthLevelRow} (h : level.Whole scales) :
    ∃ shown, scales.level level = .ok shown := by
  obtain ⟨price, quantity, hp, hq, hprice, hquantity⟩ := h
  obtain ⟨priceGrid, hpg⟩ := descale_whole.mpr hprice
  obtain ⟨qtyGrid, hqg⟩ := descale_whole.mpr hquantity
  refine ⟨_, bind_eq_ok.mpr ⟨priceGrid, ?_, bind_eq_ok.mpr ⟨qtyGrid, ?_, rfl⟩⟩⟩
  · rw [hp, hpg]
    rfl
  · rw [hq, hqg]
    rfl

end Grid

section Served

variable {κ : Type} [LinearOrder κ] {collate : Collation κ} {t : Tables} {scales : Scales}
  {marketAddress symbol book : List Char} {columns : BookColumns}

theorem keyed_ok {found : List DepthLevelRow} (h : ∀ level ∈ found, level.Whole scales) :
    ∃ keyed, found.mapM (fun level => do
        let key ← orInconsistent (parseBytes level.price)
        return (key, level)) = .ok keyed ∧ ∀ x ∈ keyed, x.2.Whole scales := by
  refine ⟨found.map fun level => ((parseBytes level.price).getD 0, level), ?_, ?_⟩
  · apply mapM_ok
    intro level hl
    obtain ⟨price, -, hp, -, hprice, -⟩ := h level hl
    obtain ⟨n, hn⟩ := parse_whole hprice
    rw [hp, hn]
    rfl
  · intro x hx
    obtain ⟨level, hl, rfl⟩ := List.mem_map.mp hx
    exact h level hl

theorem levels_ok {keyed : List (ℕ × DepthLevelRow)} (h : ∀ x ∈ keyed, x.2.Whole scales) :
    ∃ levels, (keyed.map Prod.snd).mapM scales.level = .ok levels := by
  apply mapM_exists
  intro level hm
  obtain ⟨x, hx, rfl⟩ := List.mem_map.mp hm
  exact level_ok (h x hx)

theorem getDepth_ok {rows : List BookRow} (limit : ℕ)
    (hbook : resolveBook t marketAddress symbol = .ok (book, columns))
    (hscales : columns.scales = some scales)
    (h : ∀ lo ∈ rows, lo.orderbookAddress = book →
      Whole scales.priceDrop lo.price ∧ Whole scales.amountDrop lo.amountRemaining) :
    ∃ snapshot, getDepth collate t rows marketAddress symbol limit = .ok snapshot := by
  have hfound : ∀ level ∈ depthSide rows book columns.outcomeId true (max limit 1) ++
      depthSide rows book columns.outcomeId false (max limit 1), level.Whole scales := by
    intro level hl
    rcases List.mem_append.mp hl with hl | hl
    · exact depthSide_whole h level hl
    · exact depthSide_whole h level hl
  obtain ⟨keyed, hkeyed, hwhole⟩ := keyed_ok hfound
  obtain ⟨bids, hbids⟩ := levels_ok fun x hx =>
    hwhole x (List.mem_of_mem_filter ((Keyset.orderByDesc_perm Prod.fst _).mem_iff.mp hx))
  obtain ⟨asks, hasks⟩ := levels_ok fun x hx =>
    hwhole x (List.mem_of_mem_filter ((Keyset.orderBy_perm Prod.fst _).mem_iff.mp hx))
  refine ⟨_, bind_eq_ok.mpr ⟨_, hbook, bind_eq_ok.mpr ⟨keyed, hkeyed, bind_eq_ok.mpr ⟨scales, ?_,
    bind_eq_ok.mpr ⟨bids, hbids, bind_eq_ok.mpr ⟨asks, hasks, rfl⟩⟩⟩⟩⟩⟩
  rw [hscales]
  rfl

/-- The tape of a book whose trades are on the display grid is served. -/
theorem getTrades_ok {rows : List TradesRow} (limit : TradesLimit) {quoteScale : ℕ}
    (hbook : resolveBook t marketAddress symbol = .ok (book, columns))
    (hscales : columns.scales = some scales)
    (hquote : precisionToScale columns.decimals = some quoteScale)
    (h : ∀ r ∈ rows, r.orderbookAddress = book →
      Whole scales.priceDrop r.price ∧ Whole scales.amountDrop r.qty) :
    ∃ trades, getTrades collate t rows marketAddress symbol limit = .ok trades := by
  have hshown : ∃ trades, ((tape collate rows book columns.outcomeId).take limit.get).mapM
      (scales.trade quoteScale) = .ok trades := by
    apply mapM_exists
    intro row hrow
    have hin := (Keyset.orderByDesc_perm _ _).mem_iff.mp (List.mem_of_mem_take hrow)
    obtain ⟨r, hr, hrow⟩ := List.mem_filterMap.mp hin
    obtain ⟨chainTimeUs, -, hrow⟩ := of_bind hrow
    split_ifs at hrow with hb
    simp only [Bool.and_eq_true, beq_iff_eq] at hb
    cases hrow
    obtain ⟨hprice, hqty⟩ := h r hr hb.1
    obtain ⟨price, hp⟩ := parse_whole hprice
    obtain ⟨qty, hq⟩ := parse_whole hqty
    obtain ⟨priceGrid, hpg⟩ := descale_whole.mpr hprice
    obtain ⟨qtyGrid, hqg⟩ := descale_whole.mpr hqty
    refine ⟨_, bind_eq_ok.mpr ⟨price, ?_, bind_eq_ok.mpr ⟨qty, ?_, bind_eq_ok.mpr ⟨priceGrid, ?_,
      bind_eq_ok.mpr ⟨qtyGrid, ?_, rfl⟩⟩⟩⟩⟩
    · rw [hp]
      rfl
    · rw [hq]
      rfl
    · rw [hpg]
      rfl
    · rw [hqg]
      rfl
  obtain ⟨trades, htrades⟩ := hshown
  refine ⟨trades, bind_eq_ok.mpr ⟨_, hbook, bind_eq_ok.mpr ⟨scales, ?_, bind_eq_ok.mpr ⟨quoteScale, ?_,
    htrades⟩⟩⟩⟩
  · rw [hscales]
    rfl
  · rw [hquote]
    rfl

end Served

end Dexdo.Api.Read
