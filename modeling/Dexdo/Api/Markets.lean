import Dexdo.Api.Tables
import Mathlib.Data.Prod.Lex
import Mathlib.Order.WithBot

namespace Dexdo.Api.Read

structure Outcome where
  outcomeId : ℕ
  outcomeName : List Char
  symbol : List Char
  pricePrecision : ℕ
  quantityPrecision : ℕ
  tickSize : List Char
  stepSize : List Char
  minNotional : List Char

structure OracleEntry where
  name : Option (List Char)
  address : Option (List Char)
  fee : Option (List Char)

structure MarketEvent where
  eventId : List Char
  eventName : Option (List Char)
  description : Option (List Char)
  oracles : List OracleEntry

structure Timings where
  stakeStart : ℤ
  stakeEnd : ℤ
  resultStart : ℤ
  resultEnd : ℤ
  frozenAt : Option ℤ

inductive TerminalKind
  | resolved
  | cancelled
  | expired
  deriving DecidableEq, Repr

inductive CancelReason
  | pmpRejectedByOracle
  | eventCancelled
  deriving DecidableEq, Repr

def CancelReason.parse (s : String) : Option CancelReason :=
  if s = "PMP_REJECTED_BY_ORACLE" then some .pmpRejectedByOracle
  else if s = "EVENT_CANCELLED" then some .eventCancelled
  else none

structure Terminal where
  kind : TerminalKind
  atTime : ℤ
  resolvedOutcomeId : Option ℕ
  cancelReason : Option CancelReason

inductive ResolvesFromMetric
  | weeklyMedianPrice

structure ResolvesFrom where
  inferenceOrderBookAddress : List Char
  modelRefName : Option (List Char)
  metric : ResolvesFromMetric

def MAKER_COMMISSION : List Char := "-0.0003375".toList

def TAKER_COMMISSION : List Char := "0.0004500".toList

/-- The public market. -/
structure Market where
  marketAddress : List Char
  orderBookAddress : List Char
  oracleListHash : List Char
  marketName : List Char
  status : ReadModel.MarketStatus
  quoteAsset : List Char
  tokenType : ℤ
  makerCommission : List Char
  takerCommission : List Char
  createdAt : ℤ
  timings : Option Timings
  event : MarketEvent
  terminal : Option Terminal
  outcomes : List Outcome
  resolvesFrom : Option ResolvesFrom

/-- An order book address, unless it is blank. -/
def filterOrderbook (s : List Char) : Option (List Char) := if trim s = [] then none else some s

/-- A decimal integer as `0x` and at least 64 hexadecimal digits. -/
def numericToHex (decimal : List Char) : Except ReadError (List Char) :=
  match bigUintFromStr decimal with
  | none => .error .other
  | some n =>
    let digits := Nat.toDigits 16 n
    .ok (['0', 'x'] ++ List.replicate (64 - digits.length) '0' ++ digits)

/-- Seconds of a time in microseconds, rounded half away from zero. -/
def unixSeconds (micros : ℤ) : ℤ :=
  micros.sign * ((2 * micros.natAbs + 1000000) / 2000000 : ℕ)

/-- `try_into` of an integer column to an unsigned type. -/
def toUnsigned (bound : ℕ) (z : ℤ) : Except ReadError ℕ :=
  if 0 ≤ z ∧ z < bound then .ok z.toNat else .error (.domain .marketInconsistent)

/-- A row of outcomes appended to those of its market. -/
def pushOutcome (outcomes : List Outcome) (r : OutcomeRow) : Except ReadError (List Outcome) := do
  let outcomeId ← toUnsigned (2 ^ 32) r.outcomeId
  let pricePrecision ← toUnsigned (2 ^ 8) r.pricePrecision
  let quantityPrecision ← toUnsigned (2 ^ 8) r.quantityPrecision
  return outcomes ++ [{
    outcomeId := outcomeId
    outcomeName := r.outcomeName
    symbol := r.symbol
    pricePrecision := pricePrecision
    quantityPrecision := quantityPrecision
    tickSize := r.tickSize
    stepSize := r.stepSize
    minNotional := r.minNotional }]

/-- The outcomes of the markets of a page, by market. -/
def fetchOutcomes (t : Tables) (marketIds : List ℤ) :
    Except ReadError (ℤ → Option (List Outcome)) :=
  if marketIds = [] then .ok fun _ => none
  else
    Keyset.selectGroups (fun r : OutcomeRow => toLex (r.marketIdFk, r.outcomeId))
      OutcomeRow.marketIdFk [] pushOutcome t.outcomes marketIds

/-- What the events confirmed for a market say together. -/
structure OracleEventBlock where
  eventName : Option (List Char) := none
  eventDescription : Option (List Char) := none
  oracles : List OracleEntry := []
  rangeObAddress : Option (List Char) := none
  rangeModel : Option (List Char) := none

structure OracleEventJoinRow where
  pmpAddress : List Char
  eventName : Option (List Char)
  eventDescription : Option (List Char)
  oracleName : Option (List Char)
  oracleAddress : Option (List Char)
  oracleFee : Option (List Char)
  rangeObAddress : Option (List Char)
  rangeModelRef : Option (List Char)
  rangeModelHash : Option (List Char)

/-- A confirmed event joined with its list, its oracle and its model; each join is on a key. -/
def OracleEventRow.join (t : Tables) (pmpAddress : List Char) (oe : OracleEventRow) :
    OracleEventJoinRow :=
  let oel := t.eventLists.find? (·.id = oe.eventlistId)
  let o := oel.bind fun l => t.oracles.find? (·.id = l.oracleId)
  let im := oe.rangeObAddress.bind fun ob => t.inferenceMarkets.find? (·.orderbookAddress = ob)
  { pmpAddress := pmpAddress
    eventName := some oe.eventName
    eventDescription := oe.describe
    oracleName := o.map (·.name)
    oracleAddress := o.map (·.address)
    oracleFee := oe.oracleFee.map numericText
    rangeObAddress := oe.rangeObAddress
    rangeModelRef := im.bind (·.modelRef)
    rangeModelHash := im.bind fun m => m.modelHash.map numericText }

/-- A value that must agree with the one seen before. -/
def unifyOptional (slot incoming : Option (List Char)) : Except ReadError (Option (List Char)) :=
  match incoming, slot with
  | none, _ => .ok slot
  | some value, some existing =>
    if existing ≠ value then .error (.domain .marketInconsistent) else .ok slot
  | some value, none => .ok (some value)

/-- A joined row taken into the block of its market. -/
def aggregateRow (block : OracleEventBlock) (row : OracleEventJoinRow) :
    Except ReadError OracleEventBlock := do
  let eventName ← unifyOptional block.eventName row.eventName
  let eventDescription ← unifyOptional block.eventDescription row.eventDescription
  let rangeObAddress ← unifyOptional block.rangeObAddress row.rangeObAddress
  return {
    eventName := eventName
    eventDescription := eventDescription
    oracles := block.oracles ++
      [{ name := row.oracleName, address := row.oracleAddress, fee := row.oracleFee }]
    rangeObAddress := rangeObAddress
    rangeModel := if row.rangeObAddress.isSome then row.rangeModelRef <|> row.rangeModelHash
      else block.rangeModel }

/-- The confirmed events, with the market each confirms. -/
def Tables.confirmedEvents (t : Tables) : List (List Char × OracleEventRow) :=
  t.events.filterMap fun oe => oe.confirmedPmpAddress.map fun pmp => (pmp, oe)

section Listing

variable {κ : Type} [LinearOrder κ] (collate : Collation κ)

/-- The event blocks of the markets of a page, by address. -/
def fetchOracleEvents (t : Tables) (pmpAddresses : List (List Char)) :
    Except ReadError (List Char → Option OracleEventBlock) :=
  if pmpAddresses = [] then .ok fun _ => none
  else
    Keyset.selectGroups
      (fun r : List Char × OracleEventRow =>
        toLex (collate.key r.1, toLex (Sql.nullsLast r.2.confirmedAt, r.2.id)))
      Prod.fst {} (fun block r => aggregateRow block (r.2.join t r.1)) t.confirmedEvents
      pmpAddresses

end Listing

def buildTimings (row : MarketRow) (status : ReadModel.MarketStatus) : Option Timings :=
  if status = .Pending then none
  else do
    let stakeStart ← row.columns.stakeStart
    let stakeEnd ← row.columns.stakeEnd
    let resultStart ← row.columns.resultStart
    let resultEnd ← row.columns.resultEnd
    return ⟨stakeStart, stakeEnd, resultStart, resultEnd, row.columns.frozenAt⟩

def buildTerminal (row : MarketRow) (status : ReadModel.MarketStatus) :
    Except DomainError (Option Terminal) :=
  match status with
  | .Resolved =>
    if row.resolvedOutcomeId.any (· < 0) then .error .marketInconsistent
    else match row.columns.resolvedAt with
      | none => .error .marketInconsistent
      | some at' => .ok (some ⟨.resolved, at', row.resolvedOutcomeId.map Int.toNat, none⟩)
  | .Cancelled =>
    match row.columns.cancelledAt with
    | none => .error .marketInconsistent
    | some at' => .ok (some ⟨.cancelled, at', none, row.cancelReason.bind CancelReason.parse⟩)
  | .Expired =>
    match row.columns.resultEnd with
    | none => .error .marketInconsistent
    | some at' => .ok (some ⟨.expired, at', none, none⟩)
  | _ => .ok none

/-- Whether the parts of an answer fit the status. -/
def validateInvariants (status : ReadModel.MarketStatus) (timings : Option Timings)
    (terminal : Option Terminal) : Except DomainError Unit :=
  let isTerminal := status = .Resolved ∨ status = .Cancelled ∨ status = .Expired
  if ¬ (status = .Pending ↔ timings.isNone) then .error .marketInconsistent
  else if ¬ (isTerminal ↔ terminal.isSome) then .error .marketInconsistent
  else
    let frozen := timings.any (·.frozenAt.isSome)
    let fits : Bool := match status with
      | .Resolved => frozen &&
          terminal.any fun t => t.kind == .resolved && t.resolvedOutcomeId.isSome
      | .Cancelled => terminal.any fun t => t.kind == .cancelled && t.cancelReason.isSome
      | .Expired => terminal.any fun t => t.kind == .expired
      | .Trading | .Resolving => frozen
      | _ => true
    if fits then .ok () else .error .marketInconsistent

def liftDomain {α : Type} : Except DomainError α → Except ReadError α
  | .error e => .error (.domain e)
  | .ok a => .ok a

/-- A row as a public market; a row that is not sound fails the whole request. -/
def assembleMarket (row : MarketRow) (outcomes : List Outcome) (oracleBlock : OracleEventBlock)
    (now : ℤ) : Except ReadError Market := do
  let marketName ← row.marketId.elim (.error .other) .ok
  let orderBookAddress ← (row.orderbookAddress.bind filterOrderbook).elim
    (.error (.domain .marketInconsistent)) .ok
  let oracleListHash ← row.oracleListHash.elim (.ok []) fun n => numericToHex (numericText n)
  let status := row.columns.computeStatus now
  let timings := buildTimings row status
  let terminal ← liftDomain (buildTerminal row status)
  liftDomain (validateInvariants status timings terminal)
  let eventId ← numericToHex (numericText row.eventId)
  return {
    marketAddress := row.pmpAddress
    orderBookAddress := orderBookAddress
    oracleListHash := oracleListHash
    marketName := marketName
    status := status
    quoteAsset := row.tokenCode
    tokenType := row.tokenType
    makerCommission := MAKER_COMMISSION
    takerCommission := TAKER_COMMISSION
    createdAt := unixSeconds row.createdAtMicros
    timings := timings
    event := {
      eventId := eventId
      eventName := oracleBlock.eventName
      description := oracleBlock.eventDescription
      oracles := oracleBlock.oracles }
    terminal := terminal
    outcomes := outcomes
    resolvesFrom := oracleBlock.rangeObAddress.map fun ob =>
      ⟨ob, oracleBlock.rangeModel, .weeklyMedianPrice⟩ }

inductive MarketsSort
  | resultStartAsc
  | createdAtDesc
  deriving DecidableEq, Repr

structure MarketsFilter where
  statuses : List ReadModel.MarketStatus
  quoteAsset : Option (List Char)
  oracleName : Option (List Char)
  closingBefore : Option ℤ
  resolvesFrom : Option (List Char)

structure MarketsListing where
  filter : MarketsFilter
  sort : MarketsSort
  cursor : Option (List Char)
  limit : ℕ
  now : ℤ

structure MarketsPage where
  markets : List Market
  nextCursor : Option (List Char)
  hasMore : Bool

/-- The conditions of the query but for the cursor. -/
def MarketsFilter.matches (f : MarketsFilter) (t : Tables) (now : ℤ) (m : MarketRow) : Bool :=
  m.reconciled && m.columns.matchesStatuses now f.statuses == some true &&
  f.quoteAsset.all (m.tokenCode == ·) &&
  f.oracleName.all (fun name => t.events.any fun oe => t.eventLists.any fun oel =>
    t.oracles.any fun o => oel.id == oe.eventlistId && o.id == oel.oracleId &&
      oe.confirmedPmpAddress == some m.pmpAddress && o.name == name) &&
  f.resolvesFrom.all (fun rangeOb => t.events.any fun oe =>
    oe.confirmedPmpAddress == some m.pmpAddress && oe.rangeObAddress == some rangeOb) &&
  f.closingBefore.all fun x => m.columns.resultEnd.any fun e => decide (e < x)

/-- The column a sort goes by, and then by id; NULL stands last. -/
def MarketsSort.key (m : MarketRow) : MarketsSort → ℤ
  | .resultStartAsc => m.columns.resultStart.getD I64_MAX
  | .createdAtDesc => m.createdAtMicros

/-- The rows a listing query finds past the cursor, one more than a page may hold. -/
def buildListingQuery (t : Tables) (listing : MarketsListing) :
    Except ReadError (List MarketRow) := do
  let decoded ← listing.cursor.elim (.ok none) fun raw => (liftDomain (decodeCursor raw)).map some
  let cursor := decoded.map fun c => toLex (c.sortKeyI64, c.id)
  let matching := t.markets.filter (listing.filter.matches t listing.now)
  let key := fun m : MarketRow => toLex (listing.sort.key m, m.id)
  let rows := match listing.sort with
    | .resultStartAsc => Keyset.orderBy key (matching.filter (Keyset.past key cursor))
    | .createdAtDesc => Keyset.orderByDesc key (matching.filter (Keyset.pastDesc key cursor))
  return rows.take (max listing.limit 1 + 1)

section Listing

variable {κ : Type} [LinearOrder κ] (collate : Collation κ)

/-- The rows of a page as public markets, with what is read for all of them at once. -/
def assemblePage (t : Tables) (now : ℤ) (rows : List MarketRow) : Except ReadError (List Market) := do
  let outcomesByMarket ← fetchOutcomes t (rows.map (·.id))
  let oracleBlocks ← fetchOracleEvents collate t (rows.map (·.pmpAddress))
  rows.mapM fun row => assembleMarket row ((outcomesByMarket row.id).getD [])
    ((oracleBlocks row.pmpAddress).getD {}) now

def fetchListing (t : Tables) (listing : MarketsListing) : Except ReadError MarketsPage := do
  let found ← buildListingQuery t listing
  let limit := max listing.limit 1
  let (rows, nextCursor) :=
    Keyset.cut limit (fun row => encodeCursor (listing.sort.key row) row.id) found
  let markets ← assemblePage collate t listing.now rows
  return { markets := markets, nextCursor := nextCursor, hasMore := decide (limit < found.length) }

end Listing

section Walk

variable {κ : Type} [LinearOrder κ] {collate : Collation κ} {t : Tables}

/-- The market a row stands for on a page of its own. -/
def MarketRow.Shows (collate : Collation κ) (t : Tables) (now : ℤ) (row : MarketRow)
    (m : Market) : Prop :=
  assemblePage collate t now [row] = .ok [m]

theorem mapM_ok {α β ε : Type} {f : α → Except ε β} {g : α → β} {l : List α}
    (h : ∀ a ∈ l, f a = .ok (g a)) : l.mapM f = .ok (l.map g) := by
  induction l with
  | nil => rfl
  | cons a l ih =>
    have hl := ih fun b hb => h b (List.mem_cons_of_mem _ hb)
    rw [List.mapM_cons, h a List.mem_cons_self, hl]
    rfl

theorem mapM_singleton_ok {α β ε : Type} {f : α → Except ε β} {a : α} {b : β}
    (h : [a].mapM f = .ok [b]) : f a = .ok b := by
  rw [List.mapM_cons] at h
  obtain ⟨b', hb', h⟩ := bind_eq_ok.mp h
  rw [hb']
  cases h
  rfl

theorem MarketRow.Shows.parts {now : ℤ} {row : MarketRow} {m : Market}
    (h : row.Shows collate t now m) :
    ∃ outcomes blocks, fetchOutcomes t [row.id] = .ok outcomes ∧
      fetchOracleEvents collate t [row.pmpAddress] = .ok blocks ∧
      assembleMarket row ((outcomes row.id).getD []) ((blocks row.pmpAddress).getD {}) now =
        .ok m := by
  obtain ⟨outcomes, ho, h⟩ := bind_eq_ok.mp h
  obtain ⟨blocks, hb, h⟩ := bind_eq_ok.mp h
  exact ⟨outcomes, blocks, ho, hb, mapM_singleton_ok h⟩

/-- Rows that show on pages of their own show together. -/
theorem assemblePage_ok {now : ℤ} {g : MarketRow → Market} {rows : List MarketRow}
    (h : ∀ row ∈ rows, row.Shows collate t now (g row)) :
    assemblePage collate t now rows = .ok (rows.map g) := by
  by_cases hnil : rows = []
  · subst hnil
    rfl
  have houtcomes : ∃ outcomes, fetchOutcomes t (rows.map (·.id)) = .ok outcomes ∧
      ∀ row ∈ rows, ∀ m, fetchOutcomes t [row.id] = .ok m →
        (outcomes row.id).getD [] = (m row.id).getD [] := by
    rw [fetchOutcomes, if_neg (by simpa using hnil)]
    obtain ⟨outcomes, ho, hall⟩ := Keyset.selectGroups_of_single
      (fun r : OutcomeRow => toLex (r.marketIdFk, r.outcomeId))
      OutcomeRow.marketIdFk [] pushOutcome t.outcomes
      fun id (hid : id ∈ rows.map (·.id)) => by
        obtain ⟨row, hrow, rfl⟩ := List.mem_map.mp hid
        obtain ⟨outcomes, -, ho, -, -⟩ := (h row hrow).parts
        exact ⟨outcomes, ho⟩
    exact ⟨outcomes, ho, fun row hrow m hm => hall row.id (List.mem_map_of_mem hrow) m hm⟩
  have hblocks : ∃ blocks, fetchOracleEvents collate t (rows.map (·.pmpAddress)) = .ok blocks ∧
      ∀ row ∈ rows, ∀ m, fetchOracleEvents collate t [row.pmpAddress] = .ok m →
        (blocks row.pmpAddress).getD {} = (m row.pmpAddress).getD {} := by
    rw [fetchOracleEvents, if_neg (by simpa using hnil)]
    obtain ⟨blocks, hb, hall⟩ := Keyset.selectGroups_of_single
      (fun r : List Char × OracleEventRow =>
        toLex (collate.key r.1, toLex (Sql.nullsLast r.2.confirmedAt, r.2.id)))
      Prod.fst ({} : OracleEventBlock)
      (fun block r => aggregateRow block (r.2.join t r.1)) t.confirmedEvents
      fun pmp (hpmp : pmp ∈ rows.map (·.pmpAddress)) => by
        obtain ⟨row, hrow, rfl⟩ := List.mem_map.mp hpmp
        obtain ⟨-, blocks, -, hb, -⟩ := (h row hrow).parts
        exact ⟨blocks, hb⟩
    exact ⟨blocks, hb, fun row hrow m hm => hall row.pmpAddress (List.mem_map_of_mem hrow) m hm⟩
  obtain ⟨outcomes, ho, houts⟩ := houtcomes
  obtain ⟨blocks, hb, hblks⟩ := hblocks
  refine bind_eq_ok.mpr ⟨outcomes, ho, bind_eq_ok.mpr ⟨blocks, hb, mapM_ok fun row hrow => ?_⟩⟩
  obtain ⟨o, b, hso, hsb, hm⟩ := (h row hrow).parts
  rw [houts row hrow o hso, hblks row hrow b hsb]
  exact hm

/-- The rows of a listing in its order. -/
def MarketsListing.rows (t : Tables) (listing : MarketsListing) : List MarketRow :=
  let matching := t.markets.filter (listing.filter.matches t listing.now)
  let key := fun m : MarketRow => toLex (listing.sort.key m, m.id)
  match listing.sort with
  | .resultStartAsc => Keyset.orderBy key matching
  | .createdAtDesc => Keyset.orderByDesc key matching

/-- The order of a listing. -/
def MarketsSort.Before (sort : MarketsSort) (a b : MarketRow) : Prop :=
  match sort with
  | .resultStartAsc => toLex (sort.key a, a.id) < toLex (sort.key b, b.id)
  | .createdAtDesc => toLex (sort.key b, b.id) < toLex (sort.key a, a.id)

/-- Following the cursors of a listing, the clock read anew at each request. -/
def followListing (collate : Collation κ) (t : Tables) (listing : MarketsListing) (now : ℕ → ℤ)
    (i : ℕ) (cursor : Option (List Char)) : Except ReadError (Keyset.Page Market (List Char)) :=
  (fetchListing collate t { listing with cursor := cursor, now := now i }).map fun page =>
    ⟨page.markets, page.nextCursor⟩

variable {listing : MarketsListing} {now : ℕ → ℤ}

theorem rows_perm : (listing.rows t).Perm
    (t.markets.filter (listing.filter.matches t listing.now)) := by
  unfold MarketsListing.rows
  cases listing.sort with
  | resultStartAsc => exact Keyset.orderBy_perm _ _
  | createdAtDesc => exact Keyset.orderByDesc_perm _ _

theorem keys_distinct (sort : MarketsSort) (p : MarketRow → Bool) :
    Keyset.Distinct (fun m : MarketRow => toLex (sort.key m, m.id)) (t.markets.filter p) := by
  have hids : ((t.markets.filter p).map MarketRow.id).Nodup :=
    t.markets_pkey.sublist (List.filter_sublist.map _)
  refine List.Nodup.of_map (fun k => (ofLex k).2) ?_
  rw [List.map_map]
  exact hids

theorem rows_before : (listing.rows t).Pairwise listing.sort.Before := by
  have hd := keys_distinct (t := t) listing.sort (listing.filter.matches t listing.now)
  unfold MarketsListing.rows MarketsSort.Before
  cases hs : listing.sort with
  | resultStartAsc => exact Keyset.orderBy_lt (hs ▸ hd)
  | createdAtDesc => exact Keyset.orderByDesc_lt (hs ▸ hd)

theorem i64_max : IsI64 I64_MAX := by decide

theorem key_i64 (sort : MarketsSort) (m : MarketRow) : IsI64 (sort.key m) := by
  cases sort with
  | resultStartAsc =>
    unfold MarketsSort.key
    cases hm : m.columns.resultStart with
    | none => exact i64_max
    | some x => exact m.start_i64 x hm
  | createdAtDesc => exact m.created_i64

theorem decode_row (sort : MarketsSort) (row : Option MarketRow) :
    (row.map fun m => encodeCursor (sort.key m) m.id).elim (.ok none)
        (fun raw => (liftDomain (decodeCursor raw)).map some) =
      .ok (row.map fun m => (⟨sort.key m, m.id⟩ : DecodedCursor)) := by
  cases row with
  | none => rfl
  | some m =>
    simp only [Option.map_some, Option.elim_some, decodeCursor_encodeCursor (key_i64 sort m) m.id_i64]
    rfl

theorem query_rest {taken rest : List MarketRow} (hsplit : listing.rows t = taken ++ rest) :
    buildListingQuery t { listing with
      cursor := taken.getLast?.map fun m => encodeCursor (listing.sort.key m) m.id } =
      .ok (rest.take (max listing.limit 1 + 1)) := by
  have hd := keys_distinct (t := t) listing.sort (listing.filter.matches t listing.now)
  have hcursor : (taken.getLast?.map fun m => (⟨listing.sort.key m, m.id⟩ : DecodedCursor)).map
      (fun c => toLex (c.sortKeyI64, c.id)) =
      taken.getLast?.map fun m => toLex (listing.sort.key m, m.id) := by
    rw [Option.map_map]
    rfl
  unfold buildListingQuery
  refine bind_eq_ok.mpr ⟨_, decode_row listing.sort taken.getLast?, congrArg Except.ok ?_⟩
  refine congrArg (List.take _) ?_
  rw [hcursor]
  unfold MarketsListing.rows at hsplit
  cases hs : listing.sort with
  | resultStartAsc =>
    rw [hs] at hd hsplit
    exact Keyset.orderBy_past hd hsplit
  | createdAtDesc =>
    rw [hs] at hd hsplit
    exact Keyset.orderByDesc_past hd hsplit

theorem listing_serves (hstable : ∀ i, ∀ m ∈ t.markets,
      listing.filter.matches t (now i) m = listing.filter.matches t listing.now m) :
    Keyset.Serves (followListing collate t listing now)
      (fun m => encodeCursor (listing.sort.key m) m.id) (max listing.limit 1)
      (fun i rows => assemblePage collate t (now i) rows) (listing.rows t) := by
  intro i taken rest hsplit
  have hmatching : t.markets.filter (listing.filter.matches t (now i)) =
      t.markets.filter (listing.filter.matches t listing.now) := List.filter_congr (hstable i)
  have hrows : ({ listing with now := now i } : MarketsListing).rows t = taken ++ rest := by
    rw [← hsplit]
    unfold MarketsListing.rows
    rw [hmatching]
  have hquery := query_rest hrows
  unfold followListing fetchListing
  rw [hquery]
  simp only [Except.bind, bind, Keyset.cut_take]
  cases assemblePage collate t (now i) (Keyset.cut (max listing.limit 1)
    (fun m => encodeCursor (listing.sort.key m) m.id) rest).1 with
  | error e => rfl
  | ok markets => rfl

end Walk

end Dexdo.Api.Read
