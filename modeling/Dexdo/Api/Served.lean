import Dexdo.Api.Listings
import Dexdo.Api.Depth
import Dexdo.Indexer.BookLog

namespace Dexdo

def ReadModel.LiveStatus.text : ReadModel.LiveStatus → String
  | .OPEN => "OPEN"
  | .FILLED => "FILLED"
  | .CANCELLED => "CANCELLED"
  | .REJECTED => "REJECTED"

namespace Api

/-- The descaling steps of `order_from_row` go through. -/
def OrderRow.Descales (row : OrderRow) : Prop :=
  ∃ priceDrop amountDrop, scaleDrop PRICE_BPS_DECIMALS row.pricePrecision = some priceDrop ∧
    scaleDrop row.decimals row.quantityPrecision = some amountDrop ∧
    (descale row.price priceDrop).isSome = true ∧ (descale row.origQty amountDrop).isSome = true ∧
    (descale row.executedQty amountDrop).isSome = true

namespace Read

/-- A token as `ref_tokens` is seeded with it. -/
structure RefToken where
  tokenType : ℕ
  decimals : ℤ
  pricePrecision : ℤ
  quantityPrecision : ℤ
  deriving DecidableEq

/-- NACKL, SHELL and USDC. -/
def refTokens : List RefToken := [⟨1, 9, 3, 2⟩, ⟨2, 9, 3, 2⟩, ⟨3, 6, 3, 2⟩]

/-- The scales of a market in a seeded token. -/
def BookColumns.Of (c : BookColumns) (tokenType : ℕ) : Prop :=
  ⟨tokenType, c.decimals, c.pricePrecision, c.quantityPrecision⟩ ∈ refTokens

instance (c : BookColumns) (tokenType : ℕ) : Decidable (c.Of tokenType) :=
  inferInstanceAs (Decidable (_ ∈ refTokens))

/-- A row of the table stands for order `id` of the projected book. -/
structure BookRow.Shows (lo : BookRow) (id : ℕ) (o : ReadModel.LiveOrder) : Prop where
  orderId : lo.orderId = id
  outcomeId : lo.outcomeId = o.outcomeId
  isBuy : lo.isBuy = o.isBuy
  price : lo.price = o.price
  initial : lo.amountInitial = o.amountInitial
  remaining : lo.amountRemaining = o.amountRemaining
  status : lo.status = o.status.text

structure TradesRow.Shows (r : TradesRow) (t : ReadModel.Trade) : Prop where
  outcomeId : r.outcomeId = t.outcomeId
  price : r.price = t.price
  qty : r.qty = t.qty
  isBuyerMaker : r.isBuyerMaker = t.isBuyerMaker

/-- What the tables hold under the address `book` is what was projected for `ob`. -/
structure Projected (db : ReadModel.LiveDb) (ob : Addr) (book : List Char) (rows : List BookRow)
    (trades : List TradesRow) : Prop where
  orders : ∀ lo ∈ rows, lo.orderbookAddress = book →
    ∃ id o, db.liveOrders ob id = some o ∧ lo.Shows id o
  trades : ∀ r ∈ trades, r.orderbookAddress = book →
    ∃ tradeId t, db.trades tradeId = some t ∧ t.orderbookAddress = ob ∧ r.Shows t

variable {columns : BookColumns} {tokenType lot : ℕ}

theorem BookColumns.Of.scales (h : columns.Of tokenType) : ∃ scales quoteScale,
    columns.scales = some scales ∧ precisionToScale columns.decimals = some quoteScale ∧
      scaleDrop PRICE_BPS_DECIMALS columns.pricePrecision = some scales.priceDrop ∧
      scaleDrop columns.decimals columns.quantityPrecision = some scales.amountDrop ∧
      10 ^ scales.priceDrop = TICK_SIZE ∧ 10 ^ scales.amountDrop = lotSize tokenType := by
  obtain ⟨outcomeId, pricePrecision, quantityPrecision, decimals⟩ := columns
  simp only [BookColumns.Of, refTokens, List.mem_cons, RefToken.mk.injEq, List.not_mem_nil,
    or_false] at h
  rcases h with ⟨rfl, rfl, rfl, rfl⟩ | ⟨rfl, rfl, rfl, rfl⟩ | ⟨rfl, rfl, rfl, rfl⟩
  · exact ⟨⟨3, 2, 1, 7⟩, 9, rfl, rfl, rfl, rfl, rfl, rfl⟩
  · exact ⟨⟨3, 2, 1, 7⟩, 9, rfl, rfl, rfl, rfl, rfl, rfl⟩
  · exact ⟨⟨3, 2, 1, 4⟩, 6, rfl, rfl, rfl, rfl, rfl, rfl⟩

theorem descale_isSome {z : ℤ} {k : ℕ} (h : Whole k z) :
    (descale (numericText z) k).isSome = true := by
  obtain ⟨grid, hgrid⟩ := descale_whole.mpr h
  rw [descale, hgrid]
  rfl

/-- A row on the grid descales in the listing. -/
theorem select_descales {lo : LiveOrdersRow} {row : LiveOrderRow} {m : MarketColumns}
    {o : ReadModel.LiveOrder} (hcol : columns.Of tokenType)
    (hm : m.pricePrecision = columns.pricePrecision ∧
      m.quantityPrecision = columns.quantityPrecision ∧ m.decimals = columns.decimals)
    (hrow : lo.row = some row) (hprice : lo.price = o.price)
    (hinitial : lo.amountInitial = o.amountInitial)
    (hremaining : lo.amountRemaining = o.amountRemaining) (ho : o.OnGrid (lotSize tokenType)) :
    (row.select m).Descales := by
  obtain ⟨scales, -, -, -, hpd, had, htick, hlot⟩ := hcol.scales
  obtain ⟨hmp, hmq, hmd⟩ := hm
  simp only [LiveOrdersRow.row, bind_iff, pure_iff] at hrow
  obtain ⟨created, -, updated, -, rfl⟩ := hrow
  refine ⟨scales.priceDrop, scales.amountDrop, ?_, ?_, descale_isSome ?_, descale_isSome ?_,
    descale_isSome ?_⟩
  · rw [← hpd]
    exact congrArg _ hmp
  · rw [← had, ← hmq, ← hmd]
    rfl
  · rw [hprice]
    exact whole_of_dvd (htick ▸ ho.initial.ticks)
  · rw [hinitial]
    exact whole_of_dvd (hlot ▸ ho.initial.lots)
  · dsimp only
    rw [hinitial, hremaining]
    have hcast : max ((o.amountInitial : ℤ) - o.amountRemaining) 0 =
        ((o.amountInitial - o.amountRemaining : ℕ) : ℤ) := by omega
    rw [hcast]
    exact whole_of_dvd (hlot ▸ Nat.dvd_sub ho.initial.lots ho.remaining)

/-- A book and its projection can be served: what rests, what is traded and every level are whole
lots, and whatever of the log is projected, depth and tape answer and no row of the listing is
dropped by its descaling. -/
structure Served (market : MarketId) (tr : List (Call × OrderBook)) (s : OrderBook) : Prop where
  resting : ∀ i, s.Stored i → lotSize market.tokenType ∣ (s.order i).amount
  levels : ∀ k price, lotSize market.tokenType ∣ (s.level k price).totalAmount
  fills : ∀ l ∈ legs (traceActions tr), lotSize market.tokenType ∣ l.amount
  reads : ∀ (log : List (ReadModel.EventNode × ReadModel.PredictionEvent)),
    (∀ x ∈ log, x.1.src = .orderBook market → x.2 ∈ bookLog tr) →
    ∀ {book rows trades},
      Projected (ReadModel.projectAll log) (.orderBook market) book rows trades →
    ∀ {t : Tables} {marketAddress symbol columns},
      resolveBook t marketAddress symbol = .ok (book, columns) → columns.Of market.tokenType →
    (∀ {κ : Type} [LinearOrder κ] (collate : Collation κ),
      (∀ limit, ∃ snapshot,
        getDepth collate t rows marketAddress symbol limit = .ok snapshot) ∧
      ∀ limit, ∃ shown, getTrades collate t trades marketAddress symbol limit = .ok shown) ∧
    ∀ lo ∈ rows, lo.orderbookAddress = book → ∀ row, lo.row = some row → ∀ m : MarketColumns,
      m.pricePrecision = columns.pricePrecision ∧
        m.quantityPrecision = columns.quantityPrecision ∧ m.decimals = columns.decimals →
      (row.select m).Descales

/-- Every order announced and every fill is on the grid exactly if each market order is, and buys
whole lots, when its match comes up; then the book can be served in every state. -/
theorem book_served {market : MarketId} {resultStart numOutcomes : ℕ}
    {tr : List (Call × OrderBook)} {s : OrderBook}
    (h : Run OrderBook.step (OrderBook.init market resultStart numOutcomes) tr s) :
    (LogOnGrid (lotSize market.tokenType) (traceActions tr) ↔
      Run.Each OrderBook.MarketCall (OrderBook.init market resultStart numOutcomes) tr) ∧
    (Run.Each OrderBook.MarketCall (OrderBook.init market resultStart numOutcomes) tr →
      Served market tr s) := by
  obtain ⟨hiff, hgrid⟩ := OrderBook.run_gridded h
  refine ⟨hiff, fun hall => ?_⟩
  have hs := hgrid hall
  have hlog := hiff.mpr hall
  refine ⟨fun i hi => (hs.resting i hi).lots, hs.levels (OrderBook.run_ok h),
    fun l hl => (hlog.filled l hl).lots, ?_⟩
  intro log hsub book rows trades hproj t marketAddress symbol columns hbook hcol
  obtain ⟨scales, quoteScale, hscales, hquote, -, -, htick, hlot⟩ := hcol.scales
  have hdb : (ReadModel.projectAll log).OnGrid (lotSize market.tokenType) (.orderBook market) := by
    apply ReadModel.projectAll_onGrid
    exact fun x hx hsrc => ReadModel.log_onGrid hlog x.2 (hsub x hx hsrc)
  have horders : ∀ lo ∈ rows, lo.orderbookAddress = book →
      Whole scales.priceDrop lo.price ∧ Whole scales.amountDrop lo.amountRemaining := by
    intro lo hlo hb
    obtain ⟨id, o, ho, hshow⟩ := hproj.orders lo hlo hb
    have hrow := hdb.orders id o ho
    rw [hshow.price, hshow.remaining]
    exact ⟨whole_of_dvd (htick ▸ hrow.initial.ticks), whole_of_dvd (hlot ▸ hrow.remaining)⟩
  have htrades : ∀ r ∈ trades, r.orderbookAddress = book →
      Whole scales.priceDrop r.price ∧ Whole scales.amountDrop r.qty := by
    intro r hr hb
    obtain ⟨tradeId, trade, ht, hob, hshow⟩ := hproj.trades r hr hb
    have hrow := hdb.trades tradeId trade ht hob
    rw [hshow.price, hshow.qty]
    exact ⟨whole_of_dvd (htick ▸ hrow.ticks), whole_of_dvd (hlot ▸ hrow.lots)⟩
  refine ⟨fun collate => ⟨fun limit => getDepth_ok limit hbook hscales horders,
    fun limit => getTrades_ok limit hbook hscales hquote htrades⟩, ?_⟩
  intro lo hlo hb row hrow m hm
  obtain ⟨id, o, ho, hshow⟩ := hproj.orders lo hlo hb
  exact select_descales hcol hm hrow hshow.price hshow.initial hshow.remaining (hdb.orders id o ho)

/-- A bid for 3 USDC at one half, and a market sell of `amount` from another note. -/
def marketSell (amount : ℕ) : List Call :=
  [.executeBatch (.note 7) 1 7 [⟨0, true, 0, 5000, 3000000, 0, 0, 0⟩] [] 1,
    .executeBatch (.note 8) 1 8 [⟨0, false, FLAG_MARKET, 0, amount, 0, 0, 0⟩] [] 2]

def sampleUsdc : MarketId := ⟨1, 2, 3⟩

def sampleOrderBook : OrderBook := OrderBook.init sampleUsdc 100 2

def sampleTrace (amount : ℕ) : List (Call × OrderBook) :=
  Run.trace OrderBook.step sampleOrderBook (marketSell amount)

/-- The complete log of the book, in chain order. -/
def sampleLog (amount : ℕ) : List (ReadModel.EventNode × ReadModel.PredictionEvent) :=
  (bookLog (sampleTrace amount)).zipIdx.map fun x => (⟨.orderBook sampleUsdc, x.2, some 1⟩, x.1)

def sampleBid (amount : ℕ) : BookRow where
  orderbookAddress := ['b']
  orderId := 1
  outcomeId := 0
  isBuy := true
  price := 5000
  amountInitial := 3000000
  amountRemaining := 3000000 - amount
  clientOrderId := none
  status := "OPEN"
  ownerPnAddress := none
  chainCreatedAtUs := some 1
  chainUpdatedAtUs := some 1
  placedChainOrder := ['1']
  lastChainOrder := ['4']

def sampleTrade (amount : ℕ) : TradesRow := ⟨['5'], ['b'], 0, 5000, amount, true, some 1⟩

def sampleColumns : BookColumns := ⟨0, 3, 2, 6⟩

def sampleLimit : TradesLimit := ⟨1, Nat.one_pos, Nat.le_of_ble_eq_true rfl⟩

/-- What the projection holds of the bid and of the sale. -/
def sampleRow (amount : ℕ) : ReadModel.LiveOrder where
  outcomeId := 0
  isBuy := true
  price := 5000
  amountInitial := 3000000
  amountRemaining := 3000000 - amount
  clientOrderId := some 0
  status := .OPEN
  lastChainOrder := 4
  ownerPnAddress := none
  chainCreatedAt := some 1
  chainUpdatedAt := some 1
  placedChainOrder := 1

def sampleFill (amount : ℕ) : ReadModel.Trade :=
  ⟨.orderBook sampleUsdc, 0, 5000, amount, true, some 1⟩

theorem sample_projected {db : ReadModel.LiveDb} (amount : ℕ) (hm : amount ≤ 3000000)
    (hbid : db.liveOrders (.orderBook sampleUsdc) 1 = some (sampleRow amount))
    (htrade : db.trades 5 = some (sampleFill amount)) :
    Projected db (.orderBook sampleUsdc) ['b'] [sampleBid amount] [sampleTrade amount] := by
  constructor
  · intro lo hlo _
    rw [List.mem_singleton] at hlo
    subst hlo
    exact ⟨1, sampleRow amount, hbid, rfl, rfl, rfl, rfl, rfl, (Nat.cast_sub hm).symm, rfl⟩
  · intro r hr _
    rw [List.mem_singleton] at hr
    subst hr
    exact ⟨5, sampleFill amount, htrade, rfl, rfl, rfl, rfl, rfl⟩

theorem book_served_sample :
    LogOnGrid (lotSize sampleUsdc.tokenType) (traceActions (sampleTrace 10000)) ∧
      (∃ snapshot, getDepth codePoints (sampleTables none []) [sampleBid 10000] ['p'] ['s'] 5 =
        .ok snapshot) ∧
      ∃ shown, getTrades codePoints (sampleTables none []) [sampleTrade 10000] ['p'] ['s']
        sampleLimit = .ok shown := by
  have hrun := Run.trace_run OrderBook.step sampleOrderBook (marketSell 10000)
  obtain ⟨hiff, hserved⟩ := book_served hrun
  have hall : Run.Each OrderBook.MarketCall sampleOrderBook (sampleTrace 10000) := by
    decide +kernel
  have hproj : Projected (ReadModel.projectAll (sampleLog 10000)) (.orderBook sampleUsdc) ['b']
      [sampleBid 10000] [sampleTrade 10000] :=
    sample_projected 10000 (by decide) (by decide +kernel) (by decide +kernel)
  have hbook : resolveBook (sampleTables none []) ['p'] ['s'] = .ok (['b'], sampleColumns) := rfl
  have hread := (hserved hall).reads (sampleLog 10000) (by decide +kernel) hproj hbook (by decide)
  exact ⟨hiff.mpr hall, (hread.1 codePoints).1 5, (hread.1 codePoints).2 sampleLimit⟩

/-- A market sell of one base unit is admitted, leaves the bid off the lot and a trade of one base
unit, and the outcome has neither depth nor tape. -/
theorem off_lot_unserved :
    Run OrderBook.step sampleOrderBook (sampleTrace 1) (Run.last sampleOrderBook (sampleTrace 1)) ∧
      (sampleTrace 1).length = 2 ∧
      ((Run.last sampleOrderBook (sampleTrace 1)).order 1).amount = 2999999 ∧
      ¬lotSize sampleUsdc.tokenType ∣ 2999999 ∧
      1 ∈ (legs (traceActions (sampleTrace 1))).map (fun l => l.amount) ∧
      (sampleLog 1).map Prod.snd = bookLog (sampleTrace 1) ∧
      Projected (ReadModel.projectAll (sampleLog 1)) (.orderBook sampleUsdc) ['b'] [sampleBid 1]
        [sampleTrade 1] ∧
      resolveBook (sampleTables none []) ['p'] ['s'] = .ok (['b'], sampleColumns) ∧
      sampleColumns.Of sampleUsdc.tokenType ∧
      getDepth codePoints (sampleTables none []) [sampleBid 1] ['p'] ['s'] 5 =
        .error (.domain .marketInconsistent) ∧
      getTrades codePoints (sampleTables none []) [sampleTrade 1] ['p'] ['s'] sampleLimit =
        .error (.domain .marketInconsistent) := by
  exact ⟨Run.trace_run OrderBook.step sampleOrderBook (marketSell 1), by decide +kernel,
    by decide +kernel, by decide, by decide +kernel, by decide +kernel,
    sample_projected 1 (by decide) (by decide +kernel) (by decide +kernel), rfl, by decide,
    by decide +kernel, by decide +kernel⟩

end Read

end Api

end Dexdo
