import Dexdo.Api.Oracles
import Dexdo.Api.Orders

namespace Dexdo.Api.Read

/-- Following the cursors of a listing loses and repeats nothing: the rows that match, put in the
order of the listing, are served share by share up to a share that cannot be shown, and all of them
where every row shows; a dropped order stays in its share, so that the walk goes on behind it. -/
theorem listings_visit_all {κ : Type} [LinearOrder κ] (collate : Collation κ) (t : Tables) :
    (∀ key id, IsI64 key → IsI64 id → decodeCursor (encodeCursor key id) = .ok ⟨key, id⟩) ∧
    (∀ id name, IsI64 id → decodeOraclesCursor (encodeOraclesCursor id name) = .ok (id, name)) ∧
    (∀ (listing : MarketsListing) (now : ℕ → ℤ), (∀ i, ∀ m ∈ t.markets,
        listing.filter.matches t (now i) m = listing.filter.matches t listing.now m) →
      ∃ rows : List MarketRow,
        rows.Perm (t.markets.filter (listing.filter.matches t listing.now)) ∧
        rows.Pairwise listing.sort.Before ∧
        Keyset.Visits (followListing collate t listing now) (max listing.limit 1)
          (fun i => assemblePage collate t (now i)) rows ∧
        ∀ shown : ℕ → MarketRow → Market,
          (∀ i, ∀ m ∈ rows, m.Shows collate t (now i) (shown i m)) →
          Keyset.VisitsAll (followListing collate t listing now) (max listing.limit 1)
            (fun i => List.map (shown i)) rows) ∧
    (∀ (query : OrdersQuery) target, query.target t = .ok target →
      Keyset.Distinct (fun r => r.1.placedChainOrder) (query.matching t target) →
      (∀ r ∈ query.matching t target, SoundToken r.1.placedChainOrder) →
      ∃ rows : List (LiveOrderRow × MarketColumns), rows.Perm (query.matching t target) ∧
        rows.Pairwise (fun a b =>
          collate.key b.1.placedChainOrder < collate.key a.1.placedChainOrder) ∧
        Keyset.VisitsAll (followOrders collate t query) query.limit.get
          (fun _ => ordersFromRows) rows) ∧
    ∀ (request : OraclesRequest) (now : ℕ → ℤ) eventId, request.eventId = .ok eventId →
      (∀ i, ∀ o ∈ t.oracles, request.filter.matches t (now i) eventId o =
        request.filter.matches t request.now eventId o) →
      ∃ rows : List OracleRow,
        rows.Perm (t.oracles.filter (request.filter.matches t request.now eventId)) ∧
        rows.Pairwise (fun a b =>
          toLex (collate.key a.name, a.id) < toLex (collate.key b.name, b.id)) ∧
        Keyset.Visits (followOracles collate t request now) request.pageLimit
          (fun i => assembleOraclesPage t (now i) eventId request.filter.deadlineBefore) rows ∧
        ∀ shown : ℕ → OracleRow → OracleListing,
          (∀ i, ∀ o ∈ rows, o.Shows t (now i) eventId request.filter.deadlineBefore (shown i o)) →
          Keyset.VisitsAll (followOracles collate t request now) request.pageLimit
            (fun i => List.map (shown i)) rows := by
  refine ⟨fun key id hk hid => decodeCursor_encodeCursor hk hid,
    fun id name hid => decodeOraclesCursor_encode hid name, ?markets, ?orders, ?oracles⟩
  case markets =>
    intro listing now hstable
    have hserves : Keyset.Serves (followListing collate t listing now) _ (max listing.limit 1) _ _ :=
      listing_serves hstable
    have hvisits := hserves.visits (by omega)
    refine ⟨listing.rows t, rows_perm, rows_before, hvisits, fun shown hshown => ?_⟩
    exact hvisits.all fun i s hs => assemblePage_ok fun m hm => hshown i m (hs m hm)
  case orders =>
    intro query target htarget hdistinct hsound
    have hserves : Keyset.Serves (followOrders collate t query) _ query.limit.get _ _ :=
      orders_serve htarget hdistinct hsound
    have hvisits := hserves.visits query.limit.pos
    refine ⟨query.rows collate t target, Keyset.orderByDesc_perm _ _,
      Keyset.orderByDesc_lt (orderKeys_distinct hdistinct), hvisits.all fun _ _ _ => rfl⟩
  case oracles =>
    intro request now eventId hfilter hstable
    have hpos : 0 < request.pageLimit := by
      unfold OraclesRequest.pageLimit
      omega
    have hserves : Keyset.Serves (followOracles collate t request now) _ request.pageLimit _ _ :=
      oracles_serve hfilter hstable
    have hvisits := hserves.visits hpos
    refine ⟨request.rows collate t eventId, Keyset.orderBy_perm _ _,
      Keyset.orderBy_lt (oracleKeys_distinct _), hvisits, fun shown hshown => ?_⟩
    exact hvisits.all fun i s hs => assembleOraclesPage_ok fun o ho => hshown i o (hs o ho)

/-- Texts in the order of their code points. -/
def codePoints : Collation (List ℕ) where
  key s := s.map Char.toNat
  inj := List.map_injective_iff.mpr fun _ _ h => Char.toNat_inj.mp h

def sampleMarket (name : Option (List Char)) : MarketRow where
  id := 1
  pmpAddress := ['p']
  marketId := name
  tokenType := 3
  tokenCode := ['U']
  eventId := 7
  oracleListHash := none
  orderbookAddress := some ['b']
  columns := ⟨none, false, none, none, none, none, none, none⟩
  resolvedOutcomeId := none
  cancelReason := none
  createdAtMicros := 1700000000000000
  reconciled := true
  id_i64 := by decide
  created_i64 := by decide
  start_i64 := by
    intro x h
    cases h

/-- An oracle whose name has the separator of the cursor. -/
def sampleOracle : OracleRow := ⟨4, ['o', ':'], ['a'], by decide⟩

/-- One market, one oracle with an event, and an order of one owner for each chain order. -/
def sampleTables (name : Option (List Char)) (chainOrders : List (List Char)) : Tables where
  markets := [sampleMarket name]
  outcomes := [⟨1, 0, ['Y'], ['s'], 3, 2, ['t'], ['s'], ['n']⟩]
  oracles := [sampleOracle]
  eventLists := [⟨2, 4, ['l'], none, []⟩]
  events := [⟨1, 2, 7, ['e'], none, 10, none, none, .object [(['0'], .string ['Y'])], false, none,
    none, true, none⟩]
  inferenceMarkets := []
  liveOrders := chainOrders.map fun c =>
    ⟨['b'], 7, 0, true, 5000, 10000000, 4000000, none, "OPEN", some ['o'], some 1, some 1, c⟩
  refTokens := [⟨3, 6⟩]
  markets_pkey := List.nodup_singleton _
  oracles_pkey := List.nodup_singleton _

def sampleListing : MarketsListing := ⟨⟨[], none, none, none, none⟩, .resultStartAsc, none, 1, 0⟩

def sampleQuery : OrdersQuery := ⟨['o'], none, .all, ⟨1, by decide, by decide⟩, none⟩

def sampleRequest : OraclesRequest := ⟨⟨none, none, none⟩, none, 1, 0⟩

/-- Tables of a market with a name, all of whose rows show. -/
def namedTables : Tables := sampleTables (some ['m']) [['1'], ['2']]

theorem namedMarket_shows :
    ∃ m, (sampleMarket (some ['m'])).Shows codePoints namedTables 0 m := ⟨_, rfl⟩

theorem sampleOracle_shows : ∃ o, sampleOracle.Shows namedTables 0 none none o := ⟨_, rfl⟩

theorem listings_visit_all_sample :
    decodeCursor (encodeCursor (-5) 7) = .ok ⟨-5, 7⟩ ∧
    decodeOraclesCursor (encodeOraclesCursor 4 sampleOracle.name) = .ok (4, sampleOracle.name) ∧
    (∃ rows : List MarketRow, rows.length = 1 ∧ ∃ m,
      Keyset.VisitsAll (followListing codePoints namedTables sampleListing fun _ => 0) 1
        (fun _ => List.map fun _ => m) rows) ∧
    (∃ rows, rows.Perm (sampleQuery.matching namedTables none) ∧
      rows.Pairwise (fun a b => codePoints.key b.1.placedChainOrder <
        codePoints.key a.1.placedChainOrder) ∧
      Keyset.VisitsAll (followOrders codePoints namedTables sampleQuery) sampleQuery.limit.get
        (fun _ => ordersFromRows) rows) ∧
    ∃ rows : List OracleRow, rows.length = 1 ∧ ∃ o,
      Keyset.VisitsAll (followOracles codePoints namedTables sampleRequest fun _ => 0)
        sampleRequest.pageLimit (fun _ => List.map fun _ => o) rows := by
  obtain ⟨hcursor, horacle, hmarkets, horders, horacles⟩ := listings_visit_all codePoints namedTables
  refine ⟨hcursor (-5) 7 (by decide) (by decide), horacle 4 _ (by decide), ?markets,
    horders sampleQuery none rfl (by decide +kernel) (by decide +kernel), ?oracles⟩
  case markets =>
    obtain ⟨rows, hperm, -, -, hall⟩ := hmarkets sampleListing (fun _ => 0) fun _ _ _ => rfl
    obtain ⟨m, hm⟩ := namedMarket_shows
    refine ⟨rows, hperm.length_eq.trans (by decide +kernel), m, hall (fun _ _ => m) ?_⟩
    intro _ r hr
    obtain rfl := List.mem_singleton.mp (List.mem_of_mem_filter (hperm.mem_iff.mp hr))
    exact hm
  case oracles =>
    obtain ⟨rows, hperm, -, -, hall⟩ := horacles sampleRequest (fun _ => 0) none rfl
      fun _ _ _ => rfl
    obtain ⟨o, ho⟩ := sampleOracle_shows
    refine ⟨rows, hperm.length_eq.trans (by decide +kernel), o, hall (fun _ _ => o) ?_⟩
    intro _ r hr
    obtain rfl := List.mem_singleton.mp (List.mem_of_mem_filter (hperm.mem_iff.mp hr))
    exact ho

/-- A market without a name stops the walk on its page; of two orders under one chain order the
second is lost, and so is one whose chain order is the trimmed form of another. -/
theorem listings_miss_rows :
    ((sampleTables none []).markets.filter
        (sampleListing.filter.matches (sampleTables none []) 0)).length = 1 ∧
      Keyset.walk (followListing codePoints (sampleTables none []) sampleListing fun _ => 0)
        (Keyset.requests 1 1) 0 none = ([], .failed .other) ∧
      ∀ chainOrders ∈ [[['5'], ['5']], [['5', ' '], ['5']]],
        (sampleQuery.matching (sampleTables none chainOrders) none).length = 2 ∧
        ((Keyset.walk (followOrders codePoints (sampleTables none chainOrders) sampleQuery)
          (Keyset.requests 2 1) 0 none).1.map List.length) = [1, 0] := by
  refine ⟨by decide +kernel, rfl, ?_⟩
  decide +kernel

end Dexdo.Api.Read
