import Dexdo.Indexer.Tables

namespace Dexdo

namespace ReadModel

/-- Decoded `TokenContract` events; `other` stands for a type without an arm. -/
inductive TokenContractEvent
  | ContractDeployed
  | StreamFunded (buyer : Addr) (deposit : ℕ)
  | StreamOpened (buyer : Addr) (pricePerTick : ℕ)
  | TickFinalized (finalizedOwed deposit : ℕ)
  | TicksClaimed (trusted claimed : ℕ)
  | StreamStopped
  | DisputeResolved
  | StreamReclaimed
  | ContractDestroyed
  | StreamDisputed
  | ProbeBurned
  | SellerBondFunded
  | BuyerBondFunded
  | ProbeAccepted
  | ShellWithdrawn
  | EndpointSet
  | other
  deriving DecidableEq

namespace InferenceDeal

def skeleton : InferenceDeal where
  orderbookAddress := none
  sellerNote := none
  buyerNote := none
  deposit := none
  pricePerTick := none
  finalizedTicks := 0
  trustedTicks := none
  claimedTicks := none
  fundedAtChain := none
  openedAtChain := none
  settledAtChain := none
  closeKind := none
  cleanSettlement := none
  disputedAtChain := none
  lastChainOrder := none

variable (d : InferenceDeal)

/-- `chain_order > coalesce(last_chain_order, '')`. -/
def isNews (chainOrder : ℕ) : Prop := ∀ last ∈ d.lastChainOrder, last < chainOrder

instance (chainOrder : ℕ) : Decidable (d.isNews chainOrder) :=
  inferInstanceAs (Decidable (∀ last ∈ d.lastChainOrder, last < chainOrder))

/-- The row after its funding cycle: what the address fixes stays. -/
def ended (chainOrder : ℕ) : InferenceDeal :=
  { d with
    buyerNote := none
    deposit := none
    fundedAtChain := none
    pricePerTick := none
    openedAtChain := none
    settledAtChain := none
    closeKind := none
    cleanSettlement := none
    disputedAtChain := none
    finalizedTicks := 0
    trustedTicks := none
    claimedTicks := none
    lastChainOrder := some chainOrder }

def funded (buyer : Addr) (deposit : ℕ) (node : EventNode) : InferenceDeal :=
  { d with
    buyerNote := d.buyerNote.or (some buyer)
    deposit := d.deposit.or (some deposit)
    fundedAtChain := d.fundedAtChain.or node.createdAt
    lastChainOrder := greatest d.lastChainOrder (some node.chainOrder) }

def opened (buyer : Addr) (pricePerTick : ℕ) (node : EventNode) : InferenceDeal :=
  { d with
    buyerNote := d.buyerNote.or (some buyer)
    pricePerTick := d.pricePerTick.or (some pricePerTick)
    openedAtChain := d.openedAtChain.or node.createdAt }

def claimed (trusted claimed : ℕ) (node : EventNode) : InferenceDeal :=
  { d with
    trustedTicks := some (max (d.trustedTicks.getD 0) trusted)
    claimedTicks := some (max (d.claimedTicks.getD 0) claimed)
    lastChainOrder := greatest d.lastChainOrder (some node.chainOrder) }

def closed (closeKind : CloseKind) (clean : Bool) (node : EventNode) : InferenceDeal :=
  { d with
    settledAtChain := d.settledAtChain.or node.createdAt
    closeKind := d.closeKind.or (some closeKind)
    cleanSettlement := d.cleanSettlement.or (some clean) }

def disputed (node : EventNode) : InferenceDeal :=
  { d with
    disputedAtChain := d.disputedAtChain.or node.createdAt
    cleanSettlement := some false }

def terminallyClosed (closeKind : CloseKind) (node : EventNode) : InferenceDeal :=
  { d with
    settledAtChain := d.settledAtChain.or node.createdAt
    closeKind := d.closeKind.or (some closeKind) }

end InferenceDeal

variable (db : Db) (node : EventNode)

/-- An `update` of one deal's row, if there is one. -/
def Db.updateDeal (tc : Addr) (f : InferenceDeal → InferenceDeal) : Db :=
  db.setDeal tc ((db.inferenceDeals tc).map f)

def seedDealSkeleton : Db :=
  match db.inferenceDeals node.src with
  | none => db.setDeal node.src (some .skeleton)
  | some _ => db

/-- Ends the deal's funding cycle, unless the row has none or has seen a later event. -/
def endFundingCycle (tc : Addr) (chainOrder : ℕ) : Db :=
  match db.inferenceDeals tc with
  | none => db
  | some d =>
    if d.deposit.isSome ∧ d.isNews chainOrder then
      (db.setDeal tc (some (d.ended chainOrder))).setTicks tc []
    else db

def applyStreamFunded (buyer : Addr) (deposit : ℕ) : Db :=
  (endFundingCycle db node.src node.chainOrder).updateDeal node.src
    fun d => d.funded buyer deposit node

def applyStreamOpened (buyer : Addr) (pricePerTick : ℕ) : Db :=
  db.updateDeal node.src fun d => d.opened buyer pricePerTick node

def applyTicksClaimed (trusted claimed : ℕ) : Db :=
  db.updateDeal node.src fun d => d.claimed trusted claimed node

def applyTickFinalized (finalizedOwed deposit : ℕ) : Db :=
  if ∃ tick ∈ db.inferenceTicks node.src, tick.chainOrder = node.chainOrder then db
  else
    (db.setTicks node.src (db.inferenceTicks node.src ++
      [⟨node.chainOrder, finalizedOwed, deposit, node.createdAt⟩])).updateDeal node.src
        fun d => { d with finalizedTicks := d.finalizedTicks + 1 }

def applyClose (closeKind : CloseKind) (clean : Bool) : Db :=
  db.updateDeal node.src fun d => d.closed closeKind clean node

def applyDisputed : Db := db.updateDeal node.src fun d => d.disputed node

def applyTerminalClose (closeKind : CloseKind) : Db :=
  db.updateDeal node.src fun d => d.terminallyClosed closeKind node

def projectTokenContractEvent (event : TokenContractEvent) : Db × ProjectionOutcome :=
  let db := seedDealSkeleton db node
  match event with
  | .ContractDeployed => (db, .Applied)
  | .StreamFunded buyer deposit => (applyStreamFunded db node buyer deposit, .Applied)
  | .StreamOpened buyer pricePerTick => (applyStreamOpened db node buyer pricePerTick, .Applied)
  | .TickFinalized finalizedOwed deposit =>
    (applyTickFinalized db node finalizedOwed deposit, .Applied)
  | .TicksClaimed trusted claimed => (applyTicksClaimed db node trusted claimed, .Applied)
  | .StreamStopped => (applyClose db node .STOPPED true, .Applied)
  | .DisputeResolved => (applyClose db node .DISPUTE_RESOLVED false, .Applied)
  | .StreamReclaimed => (applyClose db node .RECLAIMED false, .Applied)
  | .ContractDestroyed => (applyTerminalClose db node .DESTROYED, .Applied)
  | .StreamDisputed => (applyDisputed db node, .Applied)
  | .ProbeBurned => (applyTerminalClose db node .PROBE_BURNED, .Applied)
  | .SellerBondFunded | .BuyerBondFunded | .ProbeAccepted | .ShellWithdrawn | .EndpointSet =>
    (db, .Applied)
  | .other => (db, .Unknown)

/-- A note reports that one of its deals is over; `deal` is named in the payload. -/
def applyInferenceDealClosed (deal : Addr) : Db × ProjectionOutcome :=
  match db.inferenceDeals deal with
  | some d =>
    if d.closeKind.isSome ∨ d.settledAtChain.isSome then (db, .Applied)
    else (endFundingCycle db deal node.chainOrder, .Applied)
  | none => (endFundingCycle db deal node.chainOrder, .Applied)

section Orders

variable (tc : Addr)

@[simp]
theorem inferenceOrders_updateDeal (f : InferenceDeal → InferenceDeal) :
    (db.updateDeal tc f).inferenceOrders = db.inferenceOrders := rfl

@[simp]
theorem inferenceOrders_seedDealSkeleton :
    (seedDealSkeleton db node).inferenceOrders = db.inferenceOrders := by
  rw [seedDealSkeleton]
  split <;> simp

@[simp]
theorem inferenceOrders_endFundingCycle (chainOrder : ℕ) :
    (endFundingCycle db tc chainOrder).inferenceOrders = db.inferenceOrders := by
  rw [endFundingCycle]
  split
  · rfl
  · split <;> simp

@[simp]
theorem inferenceOrders_projectTokenContractEvent (event : TokenContractEvent) :
    (projectTokenContractEvent db node event).1.inferenceOrders = db.inferenceOrders := by
  cases event with
  | TickFinalized =>
    simp only [projectTokenContractEvent, applyTickFinalized]
    split <;> simp
  | _ =>
    simp [projectTokenContractEvent, applyStreamFunded, applyStreamOpened, applyTicksClaimed,
      applyClose, applyDisputed, applyTerminalClose]

@[simp]
theorem inferenceOrders_applyInferenceDealClosed :
    (applyInferenceDealClosed db node tc).1.inferenceOrders = db.inferenceOrders := by
  rw [applyInferenceDealClosed]
  split
  · split <;> simp
  · simp

end Orders

end ReadModel

end Dexdo
