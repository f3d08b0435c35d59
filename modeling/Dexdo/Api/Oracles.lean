import Dexdo.Api.Markets

namespace Dexdo.Api.Read

structure OracleOutcome where
  outcomeId : ℕ
  outcomeName : List Char

structure OracleFee where
  asset : List Char
  amount : List Char

structure OracleEventEntry where
  eventId : List Char
  eventName : List Char
  description : Option (List Char)
  oracleFee : OracleFee
  deadline : ℤ
  trustAddress : Option (List Char)
  outcomes : List OracleOutcome

structure OracleEventListEntry where
  index : ℤ
  address : List Char
  description : List Char
  events : List OracleEventEntry

/-- The public oracle. -/
structure OracleListing where
  name : List Char
  address : List Char
  eventLists : List OracleEventListEntry

structure OraclesFilter where
  oracleAddress : Option (List Char)
  eventId : Option (List Char)
  deadlineBefore : Option ℤ

structure OraclesRequest where
  filter : OraclesFilter
  cursor : Option (List Char)
  limit : ℕ
  now : ℤ

structure OraclesPage where
  oracles : List OracleListing
  nextCursor : Option (List Char)
  hasMore : Bool

/-- `BigUint::parse_bytes` in base sixteen. -/
def parseHex (value : List Char) : Option ℕ := do
  let s := stripPlus value
  if s = [] ∨ s.head? = some '_' then none
  else
    let digits ← (s.filter (· != '_')).mapM Base64.base16Digit
    return digits.foldl (fun n d => 16 * n + d) 0

/-- The event id of a filter as the number of the column. -/
def oracleEventIdToDecimal (hex : List Char) : Except ReadError ℤ :=
  let stripped := if ['0', 'x'].isPrefixOf hex then hex.drop 2 else hex
  match parseHex stripped with
  | none => .error (.domain .invalidParameter)
  | some n => .ok n

/-- The labels of an event in the order of their ids. -/
def parseOracleOutcomes : Json → Except ReadError (List OracleOutcome)
  | .object fields => do
    let out ← fields.mapM fun (k, v) => do
      let outcomeId ← (parseUint 32 k).elim (.error (.domain .marketInconsistent)) .ok
      match v with
      | .string name => Except.ok { outcomeId := outcomeId, outcomeName := name : OracleOutcome }
      | _ => .error (.domain .marketInconsistent)
    return Keyset.orderBy (·.outcomeId) out
  | _ => .error (.domain .marketInconsistent)

/-- Whether an event is offered. -/
def oracleEventAvailability (now : ℤ) (eventId deadlineBefore : Option ℤ) (oe : OracleEventRow) :
    Bool :=
  !oe.isDeleted && decide (now < oe.deadline) && oe.metaReconciled &&
    eventId.all (oe.internalIdInEventlist == ·) && deadlineBefore.all fun d => decide (oe.deadline < d)

/-- Event added to the entry of its list, which the first event of the list opens. -/
def addEvent (list : OracleEventListRow) (index : ℤ) (event : OracleEventEntry) :
    List OracleEventListEntry → List OracleEventListEntry
  | [] => [⟨index, list.address, list.description, [event]⟩]
  | entry :: entries =>
    if entry.index = index then { entry with events := entry.events ++ [event] } :: entries
    else entry :: addEvent list index event entries

/-- A list and event row taken into the lists of its oracle. -/
def addRow (lists : List OracleEventListEntry) (row : OracleEventListRow × OracleEventRow) :
    Except ReadError (List OracleEventListEntry) := do
  let eventId ← match numericToHex (numericText row.2.internalIdInEventlist) with
    | .error _ => .error (.domain .marketInconsistent)
    | .ok eventId => .ok eventId
  let outcomes ← parseOracleOutcomes row.2.outcomeNames
  let event : OracleEventEntry := {
    eventId := eventId
    eventName := row.2.eventName
    description := row.2.describe
    oracleFee := {
      asset := "SHELL".toList
      amount := (row.2.oracleFee.map numericText).getD ['0'] }
    deadline := row.2.deadline
    trustAddress := row.2.trustAddr
    outcomes := outcomes }
  return addEvent row.1 (row.1.listIndex.getD 0) event lists

/-- The offered events with their lists. -/
def Tables.offered (t : Tables) (now : ℤ) (eventId deadlineBefore : Option ℤ) :
    List (OracleEventListRow × OracleEventRow) :=
  t.eventLists.flatMap fun oel =>
    (t.events.filter fun oe => oe.eventlistId == oel.id &&
      oracleEventAvailability now eventId deadlineBefore oe).map fun oe => (oel, oe)

/-- The retained oracles with the lists and events read for all of them at once. -/
def assembleOraclesPage (t : Tables) (now : ℤ) (eventId deadlineBefore : Option ℤ)
    (heads : List OracleRow) : Except ReadError (List OracleListing) := do
  let byOracle ← Keyset.selectGroups
    (fun row : OracleEventListRow × OracleEventRow =>
      toLex (row.1.oracleId, toLex (Sql.nullsLast row.1.listIndex,
        toLex (row.2.deadline, row.2.internalIdInEventlist))))
    (fun row => row.1.oracleId) [] addRow (t.offered now eventId deadlineBefore)
    (heads.map (·.id))
  return heads.map fun h => ⟨h.name, h.address, (byOracle h.id).getD []⟩

/-- The event id a request asks for. -/
def OraclesRequest.eventId (request : OraclesRequest) : Except ReadError (Option ℤ) :=
  request.filter.eventId.elim (.ok none) fun hex => (oracleEventIdToDecimal hex).map some

section Listing

variable {κ : Type} [LinearOrder κ] (collate : Collation κ)

/-- The conditions of the query but for the cursor. -/
def OraclesFilter.matches (f : OraclesFilter) (t : Tables) (now : ℤ) (eventId : Option ℤ)
    (o : OracleRow) : Bool :=
  f.oracleAddress.all (o.address == ·) &&
    (t.offered now eventId f.deadlineBefore).any fun row => row.1.oracleId == o.id

/-- Whether an oracle stands behind the one the cursor names. -/
def pastOracle (cursor : Option (ℤ × List Char)) (o : OracleRow) : Bool :=
  cursor.all fun c => decide (collate.key c.2 < collate.key o.name) ||
    (o.name == c.2 && decide (c.1 < o.id))

def listOracles (t : Tables) (request : OraclesRequest) : Except ReadError OraclesPage := do
  let limit := min (max request.limit 1) 200
  let eventId ← request.eventId
  let cursor ← request.cursor.elim (.ok none) fun raw =>
    (liftDomain (decodeOraclesCursor raw)).map some
  let matching := t.oracles.filter (request.filter.matches t request.now eventId)
  let found := (Keyset.orderBy (fun o => toLex (collate.key o.name, o.id))
    (matching.filter (pastOracle collate cursor))).take (limit + 1)
  let (heads, nextCursor) := Keyset.cut limit (fun h => encodeOraclesCursor h.id h.name) found
  if heads = [] then return ⟨[], none, false⟩
  else
    let oracles ← assembleOraclesPage t request.now eventId request.filter.deadlineBefore heads
    return ⟨oracles, nextCursor, decide (limit < found.length)⟩

end Listing

section Walk

variable {κ : Type} [LinearOrder κ] {collate : Collation κ} {t : Tables}

/-- The oracle a row stands for on a page of its own. -/
def OracleRow.Shows (t : Tables) (now : ℤ) (eventId deadlineBefore : Option ℤ) (row : OracleRow)
    (o : OracleListing) : Prop :=
  assembleOraclesPage t now eventId deadlineBefore [row] = .ok [o]

theorem assembleOraclesPage_ok {now : ℤ} {eventId deadlineBefore : Option ℤ}
    {g : OracleRow → OracleListing} {rows : List OracleRow}
    (h : ∀ row ∈ rows, row.Shows t now eventId deadlineBefore (g row)) :
    assembleOraclesPage t now eventId deadlineBefore rows = .ok (rows.map g) := by
  obtain ⟨byOracle, hb, hall⟩ := Keyset.selectGroups_of_single
    (fun row : OracleEventListRow × OracleEventRow =>
      toLex (row.1.oracleId, toLex (Sql.nullsLast row.1.listIndex,
        toLex (row.2.deadline, row.2.internalIdInEventlist))))
    (fun row => row.1.oracleId) [] addRow (t.offered now eventId deadlineBefore)
    fun id (hid : id ∈ rows.map (·.id)) => by
      obtain ⟨row, hrow, rfl⟩ := List.mem_map.mp hid
      obtain ⟨lists, hl, -⟩ := bind_eq_ok.mp (h row hrow)
      exact ⟨lists, hl⟩
  refine bind_eq_ok.mpr ⟨byOracle, hb, congrArg Except.ok (List.map_congr_left fun row hrow => ?_)⟩
  obtain ⟨lists, hl, hrender⟩ := bind_eq_ok.mp (h row hrow)
  have hshow : [(⟨row.name, row.address, (lists row.id).getD []⟩ : OracleListing)] = [g row] :=
    Except.ok.inj hrender
  rw [hall row.id (List.mem_map_of_mem hrow) lists hl]
  exact List.singleton_inj.mp hshow

/-- The most a page of oracles holds. -/
def OraclesRequest.pageLimit (request : OraclesRequest) : ℕ := min (max request.limit 1) 200

/-- The oracles of a listing in its order. -/
def OraclesRequest.rows (collate : Collation κ) (t : Tables) (request : OraclesRequest)
    (eventId : Option ℤ) : List OracleRow :=
  Keyset.orderBy (fun o => toLex (collate.key o.name, o.id))
    (t.oracles.filter (request.filter.matches t request.now eventId))

/-- Following the cursors of a listing, the clock read anew at each request. -/
def followOracles (collate : Collation κ) (t : Tables) (request : OraclesRequest) (now : ℕ → ℤ)
    (i : ℕ) (cursor : Option (List Char)) :
    Except ReadError (Keyset.Page OracleListing (List Char)) :=
  (listOracles collate t { request with cursor := cursor, now := now i }).map fun page =>
    ⟨page.oracles, page.nextCursor⟩

variable {request : OraclesRequest} {now : ℕ → ℤ} {eventId : Option ℤ}

omit [LinearOrder κ] in
theorem oracleKeys_distinct (p : OracleRow → Bool) :
    Keyset.Distinct (fun o : OracleRow => toLex (collate.key o.name, o.id)) (t.oracles.filter p) := by
  have hids : ((t.oracles.filter p).map OracleRow.id).Nodup :=
    t.oracles_pkey.sublist (List.filter_sublist.map _)
  refine List.Nodup.of_map (fun k => (ofLex k).2) ?_
  rw [List.map_map]
  exact hids

theorem decode_oracle (row : Option OracleRow) :
    (row.map fun o => encodeOraclesCursor o.id o.name).elim (.ok none)
        (fun raw => (liftDomain (decodeOraclesCursor raw)).map some) =
      .ok (row.map fun o => (o.id, o.name)) := by
  cases row with
  | none => rfl
  | some o =>
    simp only [Option.map_some, Option.elim_some, decodeOraclesCursor_encode o.id_i64]
    rfl

theorem pastOracle_eq (row : Option OracleRow) (o : OracleRow) :
    pastOracle collate (row.map fun o => (o.id, o.name)) o =
      Keyset.past (fun o : OracleRow => toLex (collate.key o.name, o.id))
        (row.map fun o => toLex (collate.key o.name, o.id)) o := by
  cases row with
  | none => rfl
  | some last =>
    have hname : (o.name = last.name ∧ last.id < o.id) ↔
        (collate.key last.name = collate.key o.name ∧ last.id < o.id) :=
      and_congr_left fun _ => ⟨fun h => congrArg collate.key h.symm, fun h => (collate.inj h).symm⟩
    rw [Bool.eq_iff_iff, pastOracle, Keyset.past]
    simp only [Option.map_some, Option.all_some, Bool.or_eq_true, Bool.and_eq_true, beq_iff_eq,
      decide_eq_true_eq, Prod.Lex.toLex_lt_toLex, hname]

/-- The answer after the oracles taken is made of the oracles left. -/
theorem oracles_serve (hfilter : request.eventId = .ok eventId)
    (hstable : ∀ i, ∀ o ∈ t.oracles, request.filter.matches t (now i) eventId o =
      request.filter.matches t request.now eventId o) :
    Keyset.Serves (followOracles collate t request now) (fun o => encodeOraclesCursor o.id o.name)
      request.pageLimit
      (fun i => assembleOraclesPage t (now i) eventId request.filter.deadlineBefore)
      (request.rows collate t eventId) := by
  intro i taken rest hsplit
  have hmatching : t.oracles.filter (request.filter.matches t (now i) eventId) =
      t.oracles.filter (request.filter.matches t request.now eventId) :=
    List.filter_congr (hstable i)
  have hquery : Keyset.orderBy (fun o : OracleRow => toLex (collate.key o.name, o.id))
      ((t.oracles.filter (request.filter.matches t (now i) eventId)).filter
        (pastOracle collate (taken.getLast?.map fun o => (o.id, o.name)))) = rest := by
    rw [hmatching, List.filter_congr fun o _ => pastOracle_eq taken.getLast? o]
    exact Keyset.orderBy_past (oracleKeys_distinct _) hsplit
  have hpos : 0 < request.pageLimit := by
    unfold OraclesRequest.pageLimit
    omega
  unfold OraclesRequest.pageLimit at hpos ⊢
  unfold followOracles listOracles
  rw [show ({ request with
    cursor := taken.getLast?.map fun o => encodeOraclesCursor o.id o.name
    now := now i } : OraclesRequest).eventId = .ok eventId from hfilter]
  dsimp only
  rw [decode_oracle]
  simp only [bind, Except.bind, hquery, Keyset.cut_take]
  by_cases h : (Keyset.cut (min (max request.limit 1) 200)
      (fun o => encodeOraclesCursor o.id o.name) rest).1 = []
  · have hempty : assembleOraclesPage t (now i) eventId request.filter.deadlineBefore [] = .ok [] :=
      assembleOraclesPage_ok (g := fun o => ⟨o.name, o.address, []⟩) fun row hrow => by cases hrow
    rw [if_pos h, Keyset.cut_eq_nil hpos h, Keyset.cut_of_le (Nat.zero_le _), hempty]
    rfl
  · rw [if_neg h]
    cases assembleOraclesPage t (now i) eventId request.filter.deadlineBefore
      (Keyset.cut (min (max request.limit 1) 200)
        (fun o => encodeOraclesCursor o.id o.name) rest).1 with
    | error e => rfl
    | ok oracles => rfl

end Walk

end Dexdo.Api.Read
