import Dexdo.Indexer.Cycles

namespace Dexdo

/-- The event as the indexer decodes it. -/
def DealEvent.logged : DealEvent → ReadModel.TokenContractEvent
  | .streamFunded buyer deposit => .StreamFunded buyer deposit
  | .sellerBondFunded _ => .SellerBondFunded
  | .buyerBondFunded _ => .BuyerBondFunded
  | .streamOpened buyer pricePerTick => .StreamOpened buyer pricePerTick
  | .endpointSet _ => .EndpointSet
  | .tickFinalized finalizedOwed deposit => .TickFinalized finalizedOwed deposit
  | .ticksClaimed trusted claimed => .TicksClaimed trusted claimed
  | .streamStopped .. => .StreamStopped
  | .probeAccepted .. => .ProbeAccepted
  | .probeBurned .. => .ProbeBurned
  | .streamDisputed .. => .StreamDisputed
  | .disputeResolved .. => .DisputeResolved
  | .shellWithdrawn .. => .ShellWithdrawn
  | .contractDestroyed => .ContractDestroyed

namespace ReadModel

/-- A funding cycle of a deal as it went on chain, from the fill that begins it. -/
structure Cycle where
  buyer : Option Addr
  deposit : Option ℕ
  fundedAt : Option ℕ
  price : Option ℕ
  openedAt : Option ℕ
  disputedAt : Option ℕ
  settledAt : Option ℕ
  closeKind : Option CloseKind
  clean : Option Bool
  ticks : ℕ
  deriving DecidableEq

namespace Cycle

/-- No cycle is current. -/
def empty : Cycle := ⟨none, none, none, none, none, none, none, none, none, 0⟩

def begun (buyer : Addr) : Cycle := { empty with buyer := some buyer }

variable (c : Cycle)

/-- The cycle is funded and has not come to its end. -/
def isLive : Prop := c.deposit.isSome ∧ c.closeKind = none

instance : Decidable c.isLive := inferInstanceAs (Decidable (_ ∧ _))

/-- The cycle once the deal has told `e` at the given chain time, if that time is known. -/
def after (at' : Option ℕ) : DealEvent → Cycle
  | .streamFunded buyer deposit =>
    { c with buyer := some buyer, deposit := some deposit, fundedAt := at' }
  | .streamOpened _ pricePerTick => { c with price := some pricePerTick, openedAt := at' }
  | .tickFinalized .. => { c with ticks := c.ticks + 1 }
  | .streamDisputed .. => { c with disputedAt := at', clean := some false }
  | .streamStopped .. =>
    { c with settledAt := at', closeKind := some .STOPPED, clean := some true }
  | .disputeResolved .. =>
    { c with settledAt := at', closeKind := some .DISPUTE_RESOLVED, clean := some false }
  | .probeBurned .. => { c with settledAt := at', closeKind := some .PROBE_BURNED }
  | .contractDestroyed =>
    -- the end of a settled cycle adds a time only where the settlement has none
    if c.closeKind = none then { c with settledAt := at', closeKind := some .DESTROYED }
    else { c with settledAt := c.settledAt.or at' }
  | _ => c

/-- The events a deal can tell at this point of a cycle. -/
def admits : DealEvent → Prop
  | .streamFunded buyer _ => c.buyer = some buyer ∧ c.deposit = none ∧ c.fundedAt = none
  | .streamOpened .. => c.buyer.isSome ∧ c.price = none ∧ c.openedAt = none
  | .streamDisputed .. => c.disputedAt = none
  | .streamStopped .. => c.closeKind = none ∧ c.settledAt = none ∧ c.clean = none
  | .disputeResolved .. => c.closeKind = none ∧ c.settledAt = none ∧ c.clean ≠ some true
  | .probeBurned .. => c.closeKind = none ∧ c.settledAt = none
  | .contractDestroyed => c.closeKind = none → c.settledAt = none
  | _ => True

end Cycle

/-- An event of the chain log of a deal, of its books and of its notes. A report of a note carries
the number of the cycle whose close it reports. -/
inductive Entry
  | deployed
  | told (e : DealEvent)
  | offered (ob : Addr) (orderId price ticks : ℕ) (note : Addr) (deadline : ℕ)
  | filled (ob : Addr) (makerId takerId ticks clearingPrice : ℕ) (buyer : Addr)
  | closed (note : Addr) (cycle : ℕ)
  | book (ob : Addr) (e : InferenceEvent)
  deriving DecidableEq

/-- The current cycle, and how many there have been. -/
structure Story where
  cycles : ℕ
  cycle : Cycle
  deriving DecidableEq

/-- A cycle begins with a fill. One that is settled stays on record until the deal is offered
again, another ends with the first report of its close or with the next offer. -/
def Story.after (s : Story) (at' : Option ℕ) : Entry → Story
  | .told e => { s with cycle := s.cycle.after at' e }
  | .offered .. => { s with cycle := .empty }
  | .filled _ _ _ _ _ buyer => ⟨s.cycles + 1, .begun buyer⟩
  | .closed _ cycle =>
    if cycle = s.cycles ∧ s.cycle.closeKind = none then { s with cycle := .empty } else s
  | .deployed | .book .. => s

/-- Fold over a log; an entry's chain order is its place in it. -/
def foldLog {σ : Type} (f : ℕ → σ → Entry → σ) (s : σ) (log : List Entry) : σ :=
  log.zipIdx.foldl (fun s p => f p.2 s p.1) s

theorem foldLog_concat {σ : Type} (f : ℕ → σ → Entry → σ) (s : σ) (log : List Entry) (e : Entry) :
    foldLog f s (log ++ [e]) = f log.length (foldLog f s log) e := by
  simp [foldLog, List.zipIdx_append]

namespace Entry

/-- The order an event places. -/
def placed : Entry → Option (Addr × ℕ)
  | .offered ob orderId .. => some (ob, orderId)
  | .book ob (.InferenceOrderPlaced orderId ..) => some (ob, orderId)
  | .book ob (.InferenceSubscriptionPlaced orderId ..) => some (ob, orderId)
  | _ => none

variable (tc : Addr) (stamp : ℕ → Option ℕ) (k : ℕ)

/-- The write an event of chain order `k` makes. -/
def move : Entry → Move
  | .deployed => .deal ⟨tc, k, stamp k⟩ .ContractDeployed
  | .told e => .deal ⟨tc, k, stamp k⟩ e.logged
  | .offered ob orderId price ticks note deadline =>
    .project ⟨ob, k, stamp k⟩ (.InferenceOrderPlaced orderId false price ticks note tc deadline)
  | .filled ob makerId takerId ticks clearingPrice buyer =>
    .project ⟨ob, k, stamp k⟩
      (.InferenceFilled makerId takerId ticks clearingPrice (some tc) (some buyer))
  | .closed note _ => .dealClosed ⟨note, k, stamp k⟩ tc
  | .book ob e => .project ⟨ob, k, stamp k⟩ e

/-- The tables after the event is projected. -/
def project (db : Db) (e : Entry) : Db := (step db (e.move tc stamp k)).getD db

theorem placed_move (e : Entry) : (e.move tc stamp k).placed = e.placed := by
  cases e with
  | book ob e => cases e <;> rfl
  | _ => rfl

theorem step_move (db : Db) (e : Entry) :
    step db (e.move tc stamp k) = some (e.project tc stamp k db) := by
  cases e <;> rfl

end Entry

section Log

variable (tc : Addr) (stamp : ℕ → Option ℕ) (log : List Entry)

/-- The tables after a log is projected in chain order. -/
def project : Db := foldLog (fun k db e => e.project tc stamp k db) .empty log

def story : Story := foldLog (fun k s e => s.after (stamp k) e) ⟨0, .empty⟩ log

theorem project_concat (e : Entry) :
    project tc stamp (log ++ [e]) = e.project tc stamp log.length (project tc stamp log) :=
  foldLog_concat ..

theorem story_concat (e : Entry) :
    story stamp (log ++ [e]) = (story stamp log).after (stamp log.length) e :=
  foldLog_concat ..

def placedOrders : List (Addr × ℕ) := log.filterMap Entry.placed

/-- The offers of the deal among the orders. -/
def offers : List (Addr × ℕ) := log.filterMap fun
  | .offered ob orderId .. => some (ob, orderId)
  | _ => none

/-- The next event fits in with a log: what the deal tells fits its cycle, orders are new, a fill
names orders of its book, one of them an offer of the deal, and a note's report of an earlier close
does not meet a live cycle. -/
def Fits (tc : Addr) (stamp : ℕ → Option ℕ) (log : List Entry) (e : Entry) : Prop :=
  let c := (story stamp log).cycle
  (∀ x ∈ e.placed, x ∉ placedOrders log) ∧
    match e with
    | .deployed => True
    | .told e => c.admits e
    | .offered .. => c.deposit = none → c = .empty
    | .filled ob makerId takerId _ _ _ => c = .empty ∧
      (ob, makerId) ∈ placedOrders log ∧ (ob, takerId) ∈ placedOrders log ∧
      ((ob, makerId) ∈ offers log ∨ (ob, takerId) ∈ offers log)
    | .closed _ cycle =>
      if cycle = (story stamp log).cycles then c.deposit = none → c = .empty
      else ¬ c.isLive
    | .book _ e => ¬ e.names tc

/-- Logs whose events fit in one after the other. -/
inductive Tale : List Entry → Prop
  | nil : Tale []
  | concat {log : List Entry} {e : Entry} (h : Tale log) (he : Fits tc stamp log e) :
    Tale (log ++ [e])

end Log

end ReadModel

end Dexdo
