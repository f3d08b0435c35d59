import Dexdo.Api.Markets

namespace Dexdo.Api.Read

def ORDERS_MAX_LIMIT : ℕ := 500

/-- Page size of the order listing. -/
structure OrdersLimit where
  get : ℕ
  pos : 1 ≤ get
  le_max : get ≤ ORDERS_MAX_LIMIT

/-- Both halves of a market filter are given, or none. -/
structure OrdersMarketFilter where
  marketAddress : List Char
  symbol : List Char

structure OrdersQuery where
  ownerPnAddress : List Char
  market : Option OrdersMarketFilter
  status : OrderStatusFilter
  limit : OrdersLimit
  cursor : Option (List Char)

structure OrdersPage where
  orders : List Order
  nextCursor : Option (List Char)

/-- The book and outcome of a market filter. -/
def resolveTarget (t : Tables) (filter : OrdersMarketFilter) :
    Except ReadError (List Char × ℤ) :=
  let found := t.markets.flatMap fun m =>
    (t.outcomes.filter fun mo => mo.marketIdFk == m.id && m.pmpAddress == filter.marketAddress &&
      mo.symbol == filter.symbol && m.reconciled).map fun mo => (m.orderbookAddress, mo.outcomeId)
  match found.head? with
  | none => .error .invalidMarketOrSymbol
  | some (orderbookAddress, outcomeId) =>
    match orderbookAddress.bind filterOrderbook with
    | none => .error (.domain .marketInconsistent)
    | some orderbookAddress => .ok (orderbookAddress, outcomeId)

/-- The columns of an order the listing reads; none while a chain time is missing. -/
def LiveOrdersRow.row (lo : LiveOrdersRow) : Option LiveOrderRow := do
  let chainCreatedAtUs ← lo.chainCreatedAtUs
  let chainUpdatedAtUs ← lo.chainUpdatedAtUs
  return {
    orderId := lo.orderId
    isBuy := lo.isBuy
    price := lo.price
    amountInitial := lo.amountInitial
    amountRemaining := lo.amountRemaining
    clientOrderId := lo.clientOrderId
    status := lo.status
    chainCreatedAtUs := chainCreatedAtUs
    chainUpdatedAtUs := chainUpdatedAtUs
    placedChainOrder := lo.placedChainOrder }

/-- The rows of the query but for the cursor: the orders joined with their market, outcome and
token. -/
def OrdersQuery.matching (query : OrdersQuery) (t : Tables) (target : Option (List Char × ℤ)) :
    List (LiveOrderRow × MarketColumns) :=
  t.liveOrders.flatMap fun lo => t.markets.flatMap fun m => t.outcomes.flatMap fun mo =>
    t.refTokens.filterMap fun rt => do
      let row ← lo.row
      if m.orderbookAddress == some lo.orderbookAddress && mo.marketIdFk == m.id &&
          mo.outcomeId == lo.outcomeId && rt.tokenType == m.tokenType &&
          lo.ownerPnAddress == some query.ownerPnAddress && m.reconciled &&
          target.all (fun x => lo.orderbookAddress == x.1 && lo.outcomeId == x.2) &&
          (buildStatusPredicate query.status).all (· row) then
        return (row, {
          marketAddress := m.pmpAddress
          symbol := mo.symbol
          pricePrecision := mo.pricePrecision
          quantityPrecision := mo.quantityPrecision
          decimals := rt.decimals })
      else none

/-- The rows of a page as public orders; a row that is not sound is dropped. -/
def ordersFromRows (rows : List (LiveOrderRow × MarketColumns)) : List Order :=
  rows.filterMap fun r => orderFromRow (r.1.select r.2)

def OrdersQuery.target (query : OrdersQuery) (t : Tables) :
    Except ReadError (Option (List Char × ℤ)) :=
  query.market.elim (.ok none) fun filter => (resolveTarget t filter).map some

section Listing

variable {κ : Type} [LinearOrder κ] (collate : Collation κ)

/-- The cursor is taken from the last row of the page, whether or not the row is dropped. -/
def listOrders (t : Tables) (query : OrdersQuery) : Except ReadError OrdersPage := do
  let target ← query.target t
  let key := fun r : LiveOrderRow × MarketColumns => collate.key r.1.placedChainOrder
  let found := (Keyset.orderByDesc key ((query.matching t target).filter
    (Keyset.pastDesc key (query.cursor.map collate.key)))).take (query.limit.get + 1)
  let (rows, last) := Keyset.cut query.limit.get (fun r => r.1.placedChainOrder) found
  let nextCursor ← last.elim (.ok none) fun raw =>
    (liftDomain (OrdersCursor.fromDbToken raw)).map some
  return ⟨ordersFromRows rows, nextCursor⟩

end Listing

section Walk

variable {κ : Type} [LinearOrder κ] {collate : Collation κ} {t : Tables}

/-- A chain order that a cursor carries as it is. -/
def SoundToken (raw : List Char) : Prop :=
  trim raw = raw ∧ raw ≠ [] ∧ byteLen raw ≤ MAX_CURSOR_LEN

instance (raw : List Char) : Decidable (SoundToken raw) :=
  inferInstanceAs (Decidable (_ ∧ _ ∧ _))

theorem SoundToken.fromDbToken {raw : List Char} (h : SoundToken raw) :
    OrdersCursor.fromDbToken raw = .ok raw := by
  obtain ⟨htrim, hne, hlen⟩ := h
  rw [OrdersCursor.fromDbToken, htrim, if_neg hne, if_neg (not_lt.mpr hlen)]

theorem SoundToken.new {raw : List Char} (h : SoundToken raw) :
    OrdersCursor.new raw = .ok raw := by
  obtain ⟨htrim, hne, hlen⟩ := h
  rw [OrdersCursor.new, htrim, if_neg hne, if_neg (not_lt.mpr hlen)]

/-- Following the cursors of a listing. -/
def followOrders (collate : Collation κ) (t : Tables) (query : OrdersQuery) (_ : ℕ)
    (cursor : Option (List Char)) : Except ReadError (Keyset.Page Order (List Char)) := do
  let cursor ← cursor.elim (.ok none) fun raw => (liftDomain (OrdersCursor.new raw)).map some
  let page ← listOrders collate t { query with cursor := cursor }
  return ⟨page.orders, page.nextCursor⟩

/-- The orders of a listing, the latest first. -/
def OrdersQuery.rows (collate : Collation κ) (t : Tables) (query : OrdersQuery)
    (target : Option (List Char × ℤ)) : List (LiveOrderRow × MarketColumns) :=
  Keyset.orderByDesc (fun r => collate.key r.1.placedChainOrder) (query.matching t target)

variable {query : OrdersQuery} {target : Option (List Char × ℤ)}

omit [LinearOrder κ] in
theorem orderKeys_distinct
    (h : Keyset.Distinct (fun r => r.1.placedChainOrder) (query.matching t target)) :
    Keyset.Distinct (fun r => collate.key r.1.placedChainOrder) (query.matching t target) := by
  have hmap := List.Nodup.map collate.inj h
  rw [List.map_map] at hmap
  exact hmap

/-- The answer after the orders taken is made of the orders left. -/
theorem orders_serve (htarget : query.target t = .ok target)
    (hdistinct : Keyset.Distinct (fun r => r.1.placedChainOrder) (query.matching t target))
    (hsound : ∀ r ∈ query.matching t target, SoundToken r.1.placedChainOrder) :
    Keyset.Serves (followOrders collate t query) (fun r => r.1.placedChainOrder) query.limit.get
      (fun _ rows => .ok (ordersFromRows rows)) (query.rows collate t target) := by
  intro i taken rest hsplit
  have hin (r : LiveOrderRow × MarketColumns) (hr : r ∈ taken ++ rest) :
      SoundToken r.1.placedChainOrder := by
    rw [← hsplit] at hr
    exact hsound r ((Keyset.orderByDesc_perm _ _).mem_iff.mp hr)
  have hcursor : (taken.getLast?.map fun r => r.1.placedChainOrder).elim (.ok none)
      (fun raw => (liftDomain (OrdersCursor.new raw)).map some) =
      (.ok (taken.getLast?.map fun r => r.1.placedChainOrder) :
        Except ReadError (Option (List Char))) := by
    cases hl : taken.getLast? with
    | none => rfl
    | some r =>
      have hr := hin r (List.mem_append_left _ (List.mem_of_getLast? hl))
      simp only [Option.map_some, Option.elim_some, hr.new]
      rfl
  have hnext : (Keyset.cut query.limit.get (fun r => r.1.placedChainOrder) rest).2.elim (.ok none)
      (fun raw => (liftDomain (OrdersCursor.fromDbToken raw)).map some) =
      (.ok (Keyset.cut query.limit.get (fun r => r.1.placedChainOrder) rest).2 :
        Except ReadError (Option (List Char))) := by
    by_cases hlt : query.limit.get < rest.length
    · obtain ⟨last, hlast, hcut⟩ := Keyset.cut_of_lt
        (fun r : LiveOrderRow × MarketColumns => r.1.placedChainOrder) query.limit.pos hlt
      have hr := hin last (List.mem_append_right _
        (List.mem_of_mem_take (List.mem_of_getLast? hlast)))
      simp only [hcut, Option.elim_some, hr.fromDbToken]
      rfl
    · rw [Keyset.cut_of_le (not_lt.mp hlt)]
      rfl
  have hrest : Keyset.orderByDesc (fun r => collate.key r.1.placedChainOrder)
      ((query.matching t target).filter (Keyset.pastDesc (fun r => collate.key r.1.placedChainOrder)
        ((taken.getLast?.map fun r => r.1.placedChainOrder).map collate.key))) = rest := by
    rw [Option.map_map]
    exact Keyset.orderByDesc_past (orderKeys_distinct hdistinct) hsplit
  have hlist : listOrders collate t
      { query with cursor := taken.getLast?.map fun r => r.1.placedChainOrder } =
      .ok ⟨ordersFromRows (Keyset.cut query.limit.get (fun r => r.1.placedChainOrder) rest).1,
        (Keyset.cut query.limit.get (fun r => r.1.placedChainOrder) rest).2⟩ := by
    refine bind_eq_ok.mpr ⟨target, htarget, ?_⟩
    have hfound : Keyset.cut query.limit.get (fun r => r.1.placedChainOrder)
        ((Keyset.orderByDesc (fun r => collate.key r.1.placedChainOrder)
          ((query.matching t target).filter (Keyset.pastDesc
            (fun r => collate.key r.1.placedChainOrder)
            ((taken.getLast?.map fun r => r.1.placedChainOrder).map collate.key)))).take
              (query.limit.get + 1)) =
        Keyset.cut query.limit.get (fun r => r.1.placedChainOrder) rest := by
      rw [hrest, Keyset.cut_take]
    refine bind_eq_ok.mpr ⟨(Keyset.cut query.limit.get (fun r => r.1.placedChainOrder) rest).2, ?_, ?_⟩
    · exact (congrArg (fun c : List (LiveOrderRow × MarketColumns) × Option (List Char) =>
        c.2.elim (.ok none) fun raw => (liftDomain (OrdersCursor.fromDbToken raw)).map some)
          hfound).trans hnext
    · exact congrArg (fun c : List (LiveOrderRow × MarketColumns) × Option (List Char) =>
        Except.ok (⟨ordersFromRows c.1,
          (Keyset.cut query.limit.get (fun r => r.1.placedChainOrder) rest).2⟩ : OrdersPage)) hfound
  exact bind_eq_ok.mpr ⟨_, hcursor, bind_eq_ok.mpr ⟨_, hlist, rfl⟩⟩

end Walk

end Dexdo.Api.Read
