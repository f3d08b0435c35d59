import Dexdo.Lib.Mapping
import Dexdo.Modifiers
import Mathlib.Logic.Equiv.List

namespace Dexdo

/-- Oracle event record. -/
structure EventInfo where
  eventName : String
  oracleFee : ℕ
  deadline : ℕ
  outcomeNames : Mapping ℕ String
  describe : String
  count : ℕ
  trustAddr : Option Addr
  deriving Inhabited

/-- Bounds of a range event and the book that prices it. A record is only ever written with
`exists` set, so the keys of the mapping stand for that flag. -/
structure RangeData where
  bounds : List ℕ
  ob : Addr

/-- External events of an OracleEventList. -/
inductive ListEvent
  | eventAdded (eventId : ℕ) (eventName : String) (oracleFee deadline : ℕ)
  | eventConfirmed (eventId : ℕ) (pmpAddress : Addr)
  | rangeEventAdded (eventId : ℕ) (ob : Addr) (bounds : List ℕ)

/-- Outgoing actions of an OracleEventList transaction. -/
inductive ListAction
  | event (e : ListEvent)
  | transfer (shell : ℕ)
  | rejectEvent (pmp : MarketId) (shell : ℕ)
  | approveEvent (pmp : MarketId) (oraclePubkey : ℕ) (outcomeNames : Mapping ℕ String)
      (describe eventName : String) (trustAddr : Option Addr)
  | submitSetTimings (pmp : MarketId) (resultStart : ℕ)
  | submitResolve (pmp : MarketId) (outcomeId : ℕ)
  | requestWeeklyMedian (ob : Addr) (eventId oracleListHash tokenType : ℕ)

/-- Storage of one OracleEventList and the action list of its current transaction. -/
structure OracleEventList where
  address : Addr
  oraclePubkey : ℕ
  events : Mapping ℕ EventInfo
  rangeData : Mapping ℕ RangeData
  pmpConfirmed : Mapping Addr ℕ
  actions : List ListAction

/-- Labels of the outcomes `0..n-1`, as code points. -/
def outcomeLabels (outcomeNames : Mapping ℕ String) : List (List ℕ) :=
  (List.range outcomeNames.entries.length).map fun i =>
    (outcomeNames.read i).toList.map Char.toNat

/-- Hash of the event's parameters; equal hashes have equal parameters. -/
def eventIdOf (eventName : String) (deadline : ℕ) (describe : String)
    (outcomeNames : Mapping ℕ String) : ℕ :=
  Encodable.encode (eventName.toList.map Char.toNat, deadline, describe.toList.map Char.toNat,
    outcomeLabels outcomeNames)

namespace OracleEventList

/-- Storage after the constructor, called by the oracle. -/
def init (address : Addr) (pubkey : ℕ) : Option OracleEventList := do
  guard (pubkey ≠ 0)
  return {
    address := address
    oraclePubkey := pubkey
    events := ∅
    rangeData := ∅
    pmpConfirmed := ∅
    actions := [] }

def act (s : OracleEventList) (a : ListAction) : OracleEventList :=
  { s with actions := s.actions ++ [a] }

def emit (s : OracleEventList) (e : ListEvent) : OracleEventList := s.act (.event e)

/-- The outcome ids are a dense range that starts at zero. -/
def dense (outcomeNames : Mapping ℕ String) : Prop :=
  ∀ i < outcomeNames.entries.length, outcomeNames.has i = true

instance (outcomeNames : Mapping ℕ String) : Decidable (dense outcomeNames) :=
  inferInstanceAs (Decidable (∀ i < outcomeNames.entries.length, outcomeNames.has i = true))

def addEvent (s : OracleEventList) (caller : Caller) (now : ℕ) (eventName : String)
    (oracleFee deadline : ℕ) (describe : String) (outcomeNames : Mapping ℕ String)
    (trustAddr : Option Addr) : Option OracleEventList := do
  guard (caller.pubkey = s.oraclePubkey)
  guard (now < deadline)
  let outcomeCount := outcomeNames.entries.length
  guard (2 ≤ outcomeCount)
  guard (outcomeCount < 20)
  guard (dense outcomeNames)
  let eventId := eventIdOf eventName deadline describe outcomeNames
  guard (¬ s.events.has eventId)
  let info : EventInfo :=
    { eventName, oracleFee, deadline, outcomeNames, describe, count := 0, trustAddr }
  let s := { s with events := AList.insert eventId info s.events }
  return s.emit (.eventAdded eventId eventName oracleFee deadline)

def addRangeEvent (s : OracleEventList) (caller : Caller) (now : ℕ) (eventName : String)
    (oracleFee deadline : ℕ) (describe : String) (bounds : List ℕ)
    (outcomeNames : Mapping ℕ String) (ob : Addr) : Option OracleEventList := do
  guard (caller.pubkey = s.oraclePubkey)
  guard (now + MIN_RESULT_GAP ≤ deadline)
  let n := bounds.length
  guard (1 ≤ n ∧ n < 19)
  guard (0 < bounds.getD 0 0)
  guard (∀ i < n, 1 ≤ i → bounds.getD (i - 1) 0 < bounds.getD i 0)
  let outcomeCount := outcomeNames.entries.length
  guard (outcomeCount = n + 1)
  guard (outcomeCount < 20)
  guard (dense outcomeNames)
  let eventId := eventIdOf eventName deadline describe outcomeNames
  guard (¬ s.events.has eventId)
  -- The list is the one oracle of the event, so it is its own trusted address.
  let trustAddr := some s.address
  let info : EventInfo :=
    { eventName, oracleFee, deadline, outcomeNames, describe, count := 0, trustAddr }
  let s := { s with
    events := AList.insert eventId info s.events
    rangeData := AList.insert eventId ⟨bounds, ob⟩ s.rangeData }
  return (s.emit (.eventAdded eventId eventName oracleFee deadline)).emit
    (.rangeEventAdded eventId ob bounds)

/-- First confirmation by a PMP: the oracle is paid, the PMP counted and marked. -/
def recordConfirmation (s : OracleEventList) (market : MarketId) (shell : ℕ) (info : EventInfo) :
    Option OracleEventList := do
  let s := s.act (.transfer shell)
  let count ← add128 info.count 1
  let s := { s with
    events := AList.insert market.eventId { info with count } s.events
    pmpConfirmed := AList.insert (.pmp market) market.eventId s.pmpConfirmed }
  let s := s.act (.approveEvent market s.oraclePubkey info.outcomeNames info.describe
    info.eventName info.trustAddr)
  let s := if s.rangeData.has market.eventId then s.act (.submitSetTimings market info.deadline)
    else s
  return s.emit (.eventConfirmed market.eventId (.pmp market))

/-- Request of a PMP, with the oracle fee in `shell`. -/
def confirmEvent (s : OracleEventList) (caller : Caller) (now : ℕ) (market : MarketId)
    (shell : ℕ) : Option OracleEventList := do
  guard (caller.isSender (.pmp market))
  if ¬ s.events.has market.eventId then return s.act (.rejectEvent market shell)
  let info := s.events.read market.eventId
  let minDeadline := if s.rangeData.has market.eventId then now + MIN_RESULT_GAP else now
  if info.deadline < minDeadline ∨ shell < info.oracleFee then
    return s.act (.rejectEvent market shell)
  else if ¬ s.pmpConfirmed.has (.pmp market) then s.recordConfirmation market shell info
  else return s

/-- Index of the first bound above the price; their number where there is none. -/
def outcomeOf (price : ℕ) : List ℕ → ℕ
  | [] => 0
  | b :: bounds => if price < b then 0 else outcomeOf price bounds + 1

def priceToOutcome (s : OracleEventList) (eventId price : ℕ) : ℕ :=
  outcomeOf price ((s.rangeData.lookup eventId).elim [] RangeData.bounds)

def resolveRange (s : OracleEventList) (caller : Caller) (now eventId oracleListHash tokenType : ℕ) :
    Option OracleEventList := do
  guard (caller.pubkey = s.oraclePubkey)
  let range ← s.rangeData.lookup eventId
  let info ← s.events.lookup eventId
  guard (info.deadline ≤ now)
  guard (0 < info.count)
  return s.act (.requestWeeklyMedian range.ob eventId oracleListHash tokenType)

/-- Answer of the book. Without range data the expected sender is the zero address, which sends
nothing. -/
def onWeeklyMedian (s : OracleEventList) (caller : Caller)
    (eventId oracleListHash tokenType price : ℕ) : Option OracleEventList := do
  let range ← s.rangeData.lookup eventId
  guard (caller.isSender range.ob)
  return s.act (.submitResolve ⟨eventId, oracleListHash, tokenType⟩
    (s.priceToOutcome eventId price))

/-- Take the mark of a PMP away, and its place in the count. -/
def release (s : OracleEventList) (pmp : Addr) (eventId : ℕ) : OracleEventList :=
  let s := { s with pmpConfirmed := AList.erase pmp s.pmpConfirmed }
  let info := s.events.read eventId
  if 0 < info.count then
    { s with events := AList.insert eventId { info with count := info.count - 1 } s.events }
  else s

def cancelEvent (s : OracleEventList) (caller : Caller) (market : MarketId) :
    Option OracleEventList := do
  guard (caller.isSender (.pmp market))
  return if s.pmpConfirmed.has (.pmp market) then s.release (.pmp market) market.eventId else s

/-- Bounce of a message to the caller. -/
def onBounce (s : OracleEventList) : Caller → Option OracleEventList
  | .internal sender =>
    match s.pmpConfirmed.lookup sender with
    | some eventId => some (s.release sender eventId)
    | none => some s
  | .external _ => none

def deleteEvent (s : OracleEventList) (caller : Caller) (now eventId : ℕ) :
    Option OracleEventList := do
  guard (caller.pubkey = s.oraclePubkey)
  let info := s.events.read eventId
  return if info.count = 0 ∧ info.deadline < now then
      { s with
        events := AList.erase eventId s.events
        rangeData := AList.erase eventId s.rangeData }
    else s

end OracleEventList

/-- External entry points of an OracleEventList. -/
inductive ListCall
  | addEvent (eventName : String) (oracleFee deadline : ℕ) (describe : String)
      (outcomeNames : Mapping ℕ String) (trustAddr : Option Addr)
  | addRangeEvent (eventName : String) (oracleFee deadline : ℕ) (describe : String)
      (bounds : List ℕ) (outcomeNames : Mapping ℕ String) (ob : Addr)
  | confirmEvent (market : MarketId) (shell : ℕ)
  | resolveRange (eventId oracleListHash tokenType : ℕ)
  | onWeeklyMedian (eventId oracleListHash tokenType price : ℕ)
  | cancelEvent (market : MarketId)
  | onBounce
  | deleteEvent (eventId : ℕ)

namespace OracleEventList

/-- Storage at the start of a transaction. -/
def begin (s : OracleEventList) : OracleEventList := { s with actions := [] }

def exec (s : OracleEventList) (caller : Caller) (now : ℕ) : ListCall → Option OracleEventList
  | .addEvent n f d t o a => s.addEvent caller now n f d t o a
  | .addRangeEvent n f d t b o ob => s.addRangeEvent caller now n f d t b o ob
  | .confirmEvent m shell => s.confirmEvent caller now m shell
  | .resolveRange e h k => s.resolveRange caller now e h k
  | .onWeeklyMedian e h k price => s.onWeeklyMedian caller e h k price
  | .cancelEvent m => s.cancelEvent caller m
  | .onBounce => s.onBounce caller
  | .deleteEvent e => s.deleteEvent caller now e

/-- One transaction. -/
def step (s : OracleEventList) (caller : Caller) (now : ℕ) (call : ListCall) :
    Option OracleEventList :=
  s.begin.exec caller now call

end OracleEventList

end Dexdo
