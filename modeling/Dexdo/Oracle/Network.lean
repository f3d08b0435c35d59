import Dexdo.Oracle.Count
import Dexdo.PMP.Custody

namespace Dexdo

def SECS_PER_DAY : ℕ := 86400
def MIN_LIQUIDITY : ℕ := 1

/-- Volume of one day. -/
structure DayData where
  day : ℕ
  priceVolSum : ℕ
  volSum : ℕ
  deriving Inhabited, DecidableEq

/-- The reference-price part of an InferenceOrderBook. -/
structure ReferencePrice where
  daily : Mapping ℕ DayData
  curSlot : ℕ
  finalizedSeen : Addr → ℕ

namespace ReferencePrice

def init : ReferencePrice := ⟨∅, 0, fun _ => 0⟩

def recordTrade (b : ReferencePrice) (now price ticks : ℕ) : ReferencePrice :=
  let day := now / SECS_PER_DAY
  let cur := b.daily.read b.curSlot
  -- A new day takes the next slot, unless no slot was ever used.
  let b := if cur.day ≠ day then
      let slot := if cur.day ≠ 0 ∨ cur.volSum ≠ 0 then (b.curSlot + 1) % 8 else b.curSlot
      { b with curSlot := slot, daily := AList.insert slot ⟨day, 0, 0⟩ b.daily }
    else b
  let cur := b.daily.read b.curSlot
  let cur : DayData := ⟨cur.day, cur.priceVolSum + price * ticks, cur.volSum + ticks⟩
  { b with daily := AList.insert b.curSlot cur b.daily }

/-- Report of a deal on its finalized ticks; a report that tells nothing new is ignored. -/
def reportFinalized (b : ReferencePrice) (sender : Addr)
    (now sellerPubkey nonce pricePerTick cumulativeFinalized : ℕ) : ReferencePrice :=
  if sender ≠ .deal sellerPubkey nonce then b
  else
    let seen := b.finalizedSeen sender
    if cumulativeFinalized ≤ seen then b
    else
      let b := { b with
        finalizedSeen := Function.update b.finalizedSeen sender cumulativeFinalized }
      b.recordTrade now pricePerTick (cumulativeFinalized - seen)

/-- One outer pass of the exchange sort: `x` is swapped with every smaller element it meets. -/
def exchange (x : ℕ) : List ℕ → ℕ × List ℕ
  | [] => (x, [])
  | y :: ys =>
    if y < x then
      let (least, rest) := exchange y ys
      (least, x :: rest)
    else
      let (least, rest) := exchange x ys
      (least, y :: rest)

/-- The exchange sort, one outer pass for each element. -/
def exchangeSort : ℕ → List ℕ → List ℕ
  | 0, l => l
  | _, [] => []
  | n + 1, x :: xs =>
    let (least, rest) := exchange x xs
    least :: exchangeSort n rest

/-- Days of the last week that saw trades, in the order of their slots. -/
def week (b : ReferencePrice) (now : ℕ) : List DayData :=
  let nowDay := now / SECS_PER_DAY
  let minDay := if 6 ≤ nowDay then nowDay - 6 else 0
  ((List.range 8).map b.daily.read).filter fun d =>
    decide (d.volSum ≠ 0) && !(decide (d.day < minDay) || decide (nowDay < d.day))

def weeklyMedian (b : ReferencePrice) (now : ℕ) : Option ℕ := do
  let days := b.week now
  guard (MIN_LIQUIDITY ≤ (days.map DayData.volSum).sum)
  let n := days.length
  let vwaps := exchangeSort n (days.map fun d => d.priceVolSum / d.volSum)
  return if n % 2 = 1 then vwaps.getD (n / 2) 0
    else (vwaps.getD (n / 2 - 1) 0 + vwaps.getD (n / 2) 0) / 2

end ReferencePrice

/-- What the contracts of an oracle market tell each other. -/
inductive Body
  | confirmEvent (market : MarketId) (shell : ℕ)
  | cancelEvent (market : MarketId)
  | rejectEvent (shell : ℕ)
  | approveEvent (oraclePubkey : ℕ) (outcomeNames : Mapping ℕ String) (describe eventName : String)
      (trustAddr : Option Addr)
  | submitSetTimings (resultStart : ℕ)
  | submitResolve (outcomeId : ℕ)
  | requestWeeklyMedian (eventId oracleListHash tokenType : ℕ)
  | onWeeklyMedian (eventId oracleListHash tokenType price : ℕ)

/-- An internal message on its way, or on its way back. -/
structure Letter where
  src : Addr
  dest : Addr
  body : Body
  bounce : Bool
  returned : Bool

namespace Letter

/-- What comes back of a letter whose transaction is aborted. -/
def bounced (l : Letter) : List Letter :=
  if l.bounce ∧ ¬ l.returned then [⟨l.dest, l.src, l.body, false, true⟩] else []

def listCall? (l : Letter) : Option ListCall :=
  if l.returned then some .onBounce
  else match l.body with
    | .confirmEvent market shell => some (.confirmEvent market shell)
    | .cancelEvent market => some (.cancelEvent market)
    | .onWeeklyMedian e h k price => some (.onWeeklyMedian e h k price)
    | _ => none

def pmpCall? (l : Letter) : Option PmpCall :=
  if l.returned then some .onBounce
  else match l.body with
    | .rejectEvent _ => some .rejectEvent
    | .approveEvent k names _ _ trust => some (.approveEvent k names.entries.length trust)
    | .submitSetTimings r => some (.submitSetTimings (.internal l.src) r)
    | .submitResolve k => some (.submitResolve (.internal l.src) k)
    | _ => none

end Letter

/-- Only an approval and a rejection are sent to bounce. -/
def ListAction.letter? (self : Addr) : ListAction → Option Letter
  | .rejectEvent m shell => some ⟨self, .pmp m, .rejectEvent shell, true, false⟩
  | .approveEvent m k names d n trust =>
    some ⟨self, .pmp m, .approveEvent k names d n trust, true, false⟩
  | .submitSetTimings m r => some ⟨self, .pmp m, .submitSetTimings r, false, false⟩
  | .submitResolve m k => some ⟨self, .pmp m, .submitResolve k, false, false⟩
  | .requestWeeklyMedian ob e h k => some ⟨self, ob, .requestWeeklyMedian e h k, false, false⟩
  | _ => none

def PmpAction.letter? (market : MarketId) (bounce : Bool) : PmpAction → Option Letter
  | .cancelEvent a => some ⟨.pmp market, a, .cancelEvent market, bounce, false⟩
  | _ => none

/-- The contracts of the oracle markets and the letters between them. -/
structure Net where
  now : ℕ
  lists : Addr → Option OracleEventList
  pmps : MarketId → Option PMP
  books : Addr → Option ReferencePrice
  mail : List Letter

/-- The contracts that exist only as the network runs them. -/
def Addr.hosted : Addr → Bool
  | .pmp _ | .oracleEventList _ _ | .inferenceBook _ _ _ => true
  | _ => false

/-- A sender that is none of them. -/
def Caller.outside : Caller → Bool
  | .internal a => !a.hosted
  | .external _ => true

/-- The caller a vote names. -/
def PmpCall.outside : PmpCall → Bool
  | .submitSetTimings caller _ => caller.outside
  | .submitResolve caller _ => caller.outside
  | .submitCancelEvent caller => caller.outside
  | _ => true

/-- One oracle list of a PMP to be deployed, with the fee its confirmation takes along. -/
structure ListFee where
  nameHash : ℕ
  index : ℕ
  fee : ℕ

def ListFee.address (f : ListFee) : Addr := .oracleEventList f.nameHash f.index

/-- What happens in the network. Letters are delivered in any order, and the transaction of any
letter may abort. -/
inductive NetEvent
  | tick (seconds : ℕ)
  | deployList (nameHash index pubkey : ℕ)
  | deployPMP (market : MarketId) (depositIdentifierHash : ℕ) (lists : List ListFee)
      (initialStakes : List ℕ)
  | deployBook (codeHash codeDepth modelHash : ℕ)
  | report (book sender : Addr) (sellerPubkey nonce pricePerTick cumulativeFinalized : ℕ)
  | callList (a : Addr) (caller : Caller) (call : ListCall)
  | callPMP (market : MarketId) (sender : Addr) (call : PmpCall)
  | deliver (k : ℕ)
  | abort (k : ℕ)

namespace Net

def genesis (now : ℕ) : Net := ⟨now, fun _ => none, fun _ => none, fun _ => none, []⟩

def post (n : Net) (l : List Letter) : Net := { n with mail := n.mail ++ l }

def setList (n : Net) (a : Addr) (s : OracleEventList) : Net :=
  { n with lists := Function.update n.lists a (some s) }

def setPMP (n : Net) (m : MarketId) (p : PMP) : Net :=
  { n with pmps := Function.update n.pmps m (some p) }

def setBook (n : Net) (a : Addr) (b : ReferencePrice) : Net :=
  { n with books := Function.update n.books a (some b) }

/-- A transaction of a list. -/
def execList (n : Net) (a : Addr) (caller : Caller) (call : ListCall) : Option Net := do
  let s ← n.lists a
  let t ← s.step caller n.now call
  return (n.setList a t).post (t.actions.filterMap (ListAction.letter? a))

/-- A cancelled market repeats a release once, and that one does not bounce. -/
def pmpLetters (m : MarketId) (p : PMP) (call : PmpCall) (q : PMP) : List Letter :=
  q.actions.filterMap (PmpAction.letter? m !(decide (call = .onBounce) && p.isCancelled))

/-- A transaction of a PMP. -/
def execPMP (n : Net) (m : MarketId) (sender : Addr) (call : PmpCall) : Option Net := do
  let p ← n.pmps m
  let q ← p.step ⟨sender, n.now, call⟩
  return (n.setPMP m q).post (pmpLetters m p call q)

/-- Answer of a book to whoever asks. -/
def requestWeeklyMedian (n : Net) (book sender : Addr) (eventId oracleListHash tokenType : ℕ) :
    Option Net := do
  let b ← n.books book
  let price ← b.weeklyMedian n.now
  return n.post [⟨book, sender, .onWeeklyMedian eventId oracleListHash tokenType price, false,
    false⟩]

/-- The transaction of a letter. -/
def receive (n : Net) (l : Letter) : Option Net :=
  match l.dest with
  | .oracleEventList nameHash index => do
    let call ← l.listCall?
    n.execList (.oracleEventList nameHash index) (.internal l.src) call
  | .pmp m => do
    let call ← l.pmpCall?
    n.execPMP m l.src call
  | .inferenceBook c d h =>
    match l.body with
    | .requestWeeklyMedian e x k =>
      if l.returned then none else n.requestWeeklyMedian (.inferenceBook c d h) l.src e x k
    | _ => none
  | _ => none

/-- Take letter `k` out of the mail. -/
def take (n : Net) (k : ℕ) : Net := { n with mail := n.mail.eraseIdx k }

/-- The constructor of a PMP, on a free address. -/
def deployPMP (n : Net) (m : MarketId) (depositIdentifierHash : ℕ) (lists : List ListFee)
    (initialStakes : List ℕ) : Option Net := do
  guard (∀ p ∈ n.pmps m, p.destroyed = true)
  return (n.setPMP m (.init m depositIdentifierHash (lists.map ListFee.address) initialStakes)).post
    (lists.map fun f => ⟨.pmp m, f.address, .confirmEvent m f.fee, true, false⟩)

def step (n : Net) : NetEvent → Option Net
  | .tick seconds => some { n with now := n.now + seconds }
  | .deployList nameHash index pubkey => do
    let a := Addr.oracleEventList nameHash index
    guard (n.lists a).isNone
    let s ← OracleEventList.init a pubkey
    return n.setList a s
  | .deployPMP m h lists stakes => n.deployPMP m h lists stakes
  | .deployBook c d h => do
    guard (n.books (.inferenceBook c d h)).isNone
    return n.setBook (.inferenceBook c d h) .init
  | .report book sender pk nonce price total => do
    let b ← n.books book
    return n.setBook book (b.reportFinalized sender n.now pk nonce price total)
  | .callList a caller call => do
    guard caller.outside
    n.execList a caller call
  | .callPMP m sender call => do
    guard (sender.hosted = false)
    guard call.outside
    n.execPMP m sender call
  | .deliver k => do
    let l ← n.mail[k]?
    return ((n.take k).receive l).getD ((n.take k).post l.bounced)
  | .abort k => do
    let l ← n.mail[k]?
    return (n.take k).post l.bounced

end Net

end Dexdo
