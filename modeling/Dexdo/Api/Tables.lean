import Dexdo.Api.LiveOrders
import Dexdo.Lib.Text
import Dexdo.Lib.Keyset

namespace Dexdo.Api

/-- `i64` and `bigint`. -/
def IsI64 (z : ℤ) : Prop := -9223372036854775808 ≤ z ∧ z ≤ 9223372036854775807

instance (z : ℤ) : Decidable (IsI64 z) := inferInstanceAs (Decidable (_ ∧ _))

/-- `i64::MAX`. -/
def I64_MAX : ℤ := 9223372036854775807

/-- `parse` to `i64`: one optional sign, then digits. -/
def parseI64 (raw : List Char) : Option ℤ := do
  let digits := if raw.head? = some '+' ∨ raw.head? = some '-' then raw.tail else raw
  let n ← parseBytes digits
  let z : ℤ := if raw.head? = some '-' then -n else n
  if IsI64 z then return z else none

structure DecodedCursor where
  sortKeyI64 : ℤ
  id : ℤ
  deriving DecidableEq

def encodeCursor (sortKey id : ℤ) : List Char :=
  Base64.encodeText (numericText sortKey ++ ':' :: numericText id)

/-- Any failure here is the client's fault. -/
def decodeCursor (raw : List Char) : Except DomainError DecodedCursor :=
  let decoded : Option DecodedCursor := do
    let s ← Base64.decodeText raw
    let (key, id) ← Split.splitOnce ':' s
    return ⟨← parseI64 key, ← parseI64 id⟩
  decoded.elim (.error .invalidParameter) .ok

/-- The id stands first, so that the split stays unambiguous when a name holds the separator. -/
def encodeOraclesCursor (id : ℤ) (name : List Char) : List Char :=
  Base64.encodeText (numericText id ++ ':' :: name)

def decodeOraclesCursor (raw : List Char) : Except DomainError (ℤ × List Char) :=
  let decoded : Option (ℤ × List Char) := do
    let s ← Base64.decodeText raw
    let (id, name) ← Split.splitOnce ':' s
    return (← parseI64 id, name)
  decoded.elim (.error .invalidParameter) .ok

/-- Longest cursor of the order listing, in bytes. -/
def MAX_CURSOR_LEN : ℕ := 128

/-- `str::len`, in bytes. -/
def byteLen (s : List Char) : ℕ := (s.map Char.utf8Size).sum

/-- A token of the order listing from a request. -/
def OrdersCursor.new (raw : List Char) : Except DomainError (List Char) :=
  let trimmed := trim raw
  if trimmed = [] then .error .missingParameter
  else if MAX_CURSOR_LEN < byteLen trimmed then .error .invalidParameter
  else .ok trimmed

/-- A token of the order listing from the table. -/
def OrdersCursor.fromDbToken (raw : List Char) : Except DomainError (List Char) :=
  let trimmed := trim raw
  if trimmed = [] then .error .unexpected
  else if MAX_CURSOR_LEN < byteLen trimmed then .error .unexpected
  else .ok trimmed

section RoundTrip

variable {z id key : ℤ}

theorem parseBytes_toDigits (n : ℕ) : parseBytes (Nat.toDigits 10 n) = some n := by
  rw [parseBytes, if_pos ⟨Nat.toDigits_ne_nil, toDigits_all n⟩, Nat.ofDigitChars_ten_toDigits]

theorem toDigits_head {n : ℕ} {c : Char} (h : c.isDigit = false) :
    (Nat.toDigits 10 n).head? ≠ some c := by
  intro hc
  have hd := List.all_eq_true.mp (toDigits_all n) c (List.mem_of_head? hc)
  rw [h] at hd
  cases hd

theorem parseI64_numericText (h : IsI64 z) : parseI64 (numericText z) = some z := by
  by_cases hneg : z < 0
  · have htext : numericText z = '-' :: Nat.toDigits 10 z.natAbs := if_pos hneg
    have hz : -(z.natAbs : ℤ) = z := by omega
    rw [parseI64, htext]
    simp only [List.head?_cons, or_true, if_true, List.tail_cons, parseBytes_toDigits,
      Option.bind_eq_bind, Option.bind_some, hz, Option.pure_def]
    exact if_pos h
  · have htext : numericText z = Nat.toDigits 10 z.natAbs := if_neg hneg
    have hz : (z.natAbs : ℤ) = z := by omega
    rw [parseI64, htext, if_neg (not_or.mpr ⟨toDigits_head rfl, toDigits_head rfl⟩),
      parseBytes_toDigits]
    simp only [Option.bind_eq_bind, Option.bind_some, hz, Option.pure_def,
      if_neg (toDigits_head (n := z.natAbs) (c := '-') rfl)]
    exact if_pos h

theorem not_mem_numericText {c : Char} (h : c.isDigit = false) (hc : c ≠ '-') (z : ℤ) :
    c ∉ numericText z := by
  have hdigits (n : ℕ) : c ∉ Nat.toDigits 10 n := by
    intro hm
    have hd := List.all_eq_true.mp (toDigits_all n) c hm
    rw [h] at hd
    cases hd
  unfold numericText
  split
  · intro hm
    rcases List.mem_cons.mp hm with he | hm
    · exact hc he
    · exact hdigits _ hm
  · exact hdigits _

theorem decodeCursor_encodeCursor (hk : IsI64 key) (hid : IsI64 id) :
    decodeCursor (encodeCursor key id) = .ok ⟨key, id⟩ := by
  rw [decodeCursor, encodeCursor, Base64.decodeText_encodeText]
  simp only [Option.bind_eq_bind, Option.bind_some]
  rw [Split.splitOnce_append (not_mem_numericText rfl (by decide) key)]
  simp only [Option.bind_some, parseI64_numericText hk, parseI64_numericText hid]
  rfl

theorem decodeOraclesCursor_encode (hid : IsI64 id) (name : List Char) :
    decodeOraclesCursor (encodeOraclesCursor id name) = .ok (id, name) := by
  rw [decodeOraclesCursor, encodeOraclesCursor, Base64.decodeText_encodeText]
  simp only [Option.bind_eq_bind, Option.bind_some]
  rw [Split.splitOnce_append (not_mem_numericText rfl (by decide) id)]
  simp only [Option.bind_some, parseI64_numericText hid]
  rfl

end RoundTrip

end Dexdo.Api

namespace Dexdo.Api.Read

/-- Why a listing request fails. -/
inductive ReadError
  | domain (e : DomainError)
  | invalidMarketOrSymbol
  | other
  deriving DecidableEq, Repr

/-- The text order of the database: a total order that tells apart what is not equal. -/
structure Collation (κ : Type) where
  key : List Char → κ
  inj : Function.Injective key

/-- Row of `markets`. -/
structure MarketRow where
  id : ℤ
  pmpAddress : List Char
  marketId : Option (List Char)
  tokenType : ℤ
  tokenCode : List Char
  eventId : ℤ
  oracleListHash : Option ℤ
  orderbookAddress : Option (List Char)
  columns : ReadModel.StatusColumns
  resolvedOutcomeId : Option ℤ
  cancelReason : Option String
  createdAtMicros : ℤ
  reconciled : Bool
  id_i64 : IsI64 id
  created_i64 : IsI64 createdAtMicros
  start_i64 : ∀ x, columns.resultStart = some x → IsI64 x

/-- Row of `market_outcomes`. -/
structure OutcomeRow where
  marketIdFk : ℤ
  outcomeId : ℤ
  outcomeName : List Char
  symbol : List Char
  pricePrecision : ℤ
  quantityPrecision : ℤ
  tickSize : List Char
  stepSize : List Char
  minNotional : List Char

/-- Row of `oracles`. -/
structure OracleRow where
  id : ℤ
  name : List Char
  address : List Char
  id_i64 : IsI64 id

/-- Row of `oracle_event_lists`. -/
structure OracleEventListRow where
  id : ℤ
  oracleId : ℤ
  address : List Char
  listIndex : Option ℤ
  description : List Char

/-- A `jsonb` value, as far as the labels of an event are read from it. -/
inductive Json
  | string (s : List Char)
  | object (fields : List (List Char × Json))
  | other

/-- Row of `oracle_events`. -/
structure OracleEventRow where
  id : ℤ
  eventlistId : ℤ
  internalIdInEventlist : ℤ
  eventName : List Char
  oracleFee : Option ℤ
  deadline : ℤ
  describe : Option (List Char)
  trustAddr : Option (List Char)
  outcomeNames : Json
  isDeleted : Bool
  confirmedPmpAddress : Option (List Char)
  confirmedAt : Option ℤ
  metaReconciled : Bool
  rangeObAddress : Option (List Char)

/-- Row of `inference_markets`. -/
structure InferenceMarketRow where
  orderbookAddress : List Char
  modelRef : Option (List Char)
  modelHash : Option ℤ

/-- Row of `live_orders`. -/
structure LiveOrdersRow where
  orderbookAddress : List Char
  orderId : ℤ
  outcomeId : ℤ
  isBuy : Bool
  price : ℤ
  amountInitial : ℤ
  amountRemaining : ℤ
  clientOrderId : Option (List Char)
  status : String
  ownerPnAddress : Option (List Char)
  chainCreatedAtUs : Option ℤ
  chainUpdatedAtUs : Option ℤ
  placedChainOrder : List Char

/-- Row of `ref_tokens`. -/
structure RefTokenRow where
  tokenType : ℤ
  decimals : ℤ

/-- The tables the listings read, with the keys the pages are cut by. -/
structure Tables where
  markets : List MarketRow
  outcomes : List OutcomeRow
  oracles : List OracleRow
  eventLists : List OracleEventListRow
  events : List OracleEventRow
  inferenceMarkets : List InferenceMarketRow
  liveOrders : List LiveOrdersRow
  refTokens : List RefTokenRow
  markets_pkey : (markets.map MarketRow.id).Nodup
  oracles_pkey : (oracles.map OracleRow.id).Nodup

end Dexdo.Api.Read
