import Dexdo.Indexer.Moves
import Dexdo.TokenContract.Talk

namespace Dexdo

namespace ReadModel

/-- What the tables hold of one deal. -/
structure DealRecord where
  row : Option InferenceDeal
  ticks : List InferenceTick
  deriving DecidableEq

def Db.record (db : Db) (tc : Addr) : DealRecord := ⟨db.inferenceDeals tc, db.inferenceTicks tc⟩

/-- The event names the deal: a fresh offer on it, or a fill of its offer. -/
def InferenceEvent.names (tc : Addr) : InferenceEvent → Prop
  | .InferenceOrderPlaced _ isBuy _ _ _ tokenContract _ => isBuy = false ∧ tokenContract = tc
  | .InferenceFilled _ _ _ _ sellerTC _ => sellerTC = some tc
  | _ => False

instance (tc : Addr) : DecidablePred (InferenceEvent.names tc) := fun e => by
  cases e <;> unfold InferenceEvent.names <;> infer_instance

namespace DealRecord

variable (r : DealRecord) (node : EventNode)

def map (f : InferenceDeal → InferenceDeal) : DealRecord := { r with row := r.row.map f }

def seeded : DealRecord := { r with row := some (r.row.getD .skeleton) }

def endCycle (chainOrder : ℕ) : DealRecord :=
  match r.row with
  | none => r
  | some d =>
    if d.deposit.isSome ∧ d.isNews chainOrder then ⟨some (d.ended chainOrder), []⟩ else r

def finalized (finalizedOwed deposit : ℕ) : DealRecord :=
  if ∃ tick ∈ r.ticks, tick.chainOrder = node.chainOrder then r
  else
    ⟨r.row.map fun d => { d with finalizedTicks := d.finalizedTicks + 1 },
      r.ticks ++ [⟨node.chainOrder, finalizedOwed, deposit, node.createdAt⟩]⟩

/-- The record after an event of the deal. -/
def told (event : TokenContractEvent) : DealRecord :=
  match event with
  | .StreamFunded buyer deposit =>
    (r.seeded.endCycle node.chainOrder).map fun d => d.funded buyer deposit node
  | .StreamOpened buyer pricePerTick => r.seeded.map fun d => d.opened buyer pricePerTick node
  | .TickFinalized finalizedOwed deposit => r.seeded.finalized node finalizedOwed deposit
  | .TicksClaimed trusted claimed => r.seeded.map fun d => d.claimed trusted claimed node
  | .StreamStopped => r.seeded.map fun d => d.closed .STOPPED true node
  | .DisputeResolved => r.seeded.map fun d => d.closed .DISPUTE_RESOLVED false node
  | .StreamReclaimed => r.seeded.map fun d => d.closed .RECLAIMED false node
  | .ContractDestroyed => r.seeded.map fun d => d.terminallyClosed .DESTROYED node
  | .StreamDisputed => r.seeded.map fun d => d.disputed node
  | .ProbeBurned => r.seeded.map fun d => d.terminallyClosed .PROBE_BURNED node
  | _ => r.seeded

/-- The record after a note's report. -/
def reported (chainOrder : ℕ) : DealRecord :=
  match r.row with
  | none => r
  | some d => if d.closeKind.isSome ∨ d.settledAtChain.isSome then r else r.endCycle chainOrder

/-- The record after a fill that names the deal. -/
def matched (f : FilledFields) (sellerNote : Option Addr) : DealRecord :=
  { r with row := some ((r.row.getD .skeleton).linked f sellerNote) }

end DealRecord

section Records

variable (db : Db) (node : EventNode) (tc : Addr)

theorem record_setDeal (row : Option InferenceDeal) :
    (db.setDeal tc row).record tc = { db.record tc with row := row } := by
  simp [Db.record, Db.setDeal]

theorem record_setDeal_of_ne {tc' : Addr} (h : tc' ≠ tc) (row : Option InferenceDeal) :
    (db.setDeal tc' row).record tc = db.record tc := by
  simp [Db.record, Db.setDeal, h.symm]

theorem record_setTicks (rows : List InferenceTick) :
    (db.setTicks tc rows).record tc = { db.record tc with ticks := rows } := by
  simp [Db.record, Db.setTicks]

theorem record_setTicks_of_ne {tc' : Addr} (h : tc' ≠ tc) (rows : List InferenceTick) :
    (db.setTicks tc' rows).record tc = db.record tc := by
  simp [Db.record, Db.setTicks, h.symm]

@[simp]
theorem record_setOrder (ob : Addr) (id : ℕ) (row : Option InferenceOrder) :
    (db.setOrder ob id row).record tc = db.record tc := rfl

theorem record_updateDeal (f : InferenceDeal → InferenceDeal) :
    (db.updateDeal tc f).record tc = (db.record tc).map f :=
  record_setDeal ..

theorem record_seedDealSkeleton :
    (seedDealSkeleton db node).record node.src = (db.record node.src).seeded := by
  unfold seedDealSkeleton DealRecord.seeded
  cases h : db.inferenceDeals node.src with
  | none =>
    rw [record_setDeal]
    simp [Db.record, h]
  | some => simp [Db.record, h]

theorem record_endFundingCycle (chainOrder : ℕ) :
    (endFundingCycle db tc chainOrder).record tc = (db.record tc).endCycle chainOrder := by
  unfold endFundingCycle DealRecord.endCycle
  cases h : db.inferenceDeals tc with
  | none => simp [Db.record, h]
  | some d =>
    have hrow : (db.record tc).row = some d := h
    simp only [hrow]
    split
    · rw [record_setTicks, record_setDeal]
    · rfl

theorem record_endFundingCycle_of_ne {tc' : Addr} (h : tc' ≠ tc) (chainOrder : ℕ) :
    (endFundingCycle db tc' chainOrder).record tc = db.record tc := by
  unfold endFundingCycle
  split
  · rfl
  · split
    · rw [record_setTicks_of_ne _ _ h, record_setDeal_of_ne _ _ h]
    · rfl

theorem record_applyTickFinalized (finalizedOwed deposit : ℕ) :
    (applyTickFinalized db node finalizedOwed deposit).record node.src =
      (db.record node.src).finalized node finalizedOwed deposit := by
  unfold applyTickFinalized DealRecord.finalized
  change _ = if ∃ tick ∈ db.inferenceTicks node.src, tick.chainOrder = node.chainOrder then _ else _
  split
  · rfl
  · rw [record_updateDeal, record_setTicks]
    rfl

theorem record_projectTokenContractEvent (event : TokenContractEvent) :
    (projectTokenContractEvent db node event).1.record node.src =
      (db.record node.src).told node event := by
  have hs := record_seedDealSkeleton db node
  cases event with
  | StreamFunded =>
    change (applyStreamFunded _ _ _ _).record _ = _
    rw [applyStreamFunded, record_updateDeal, record_endFundingCycle, hs]
    rfl
  | TickFinalized =>
    change (applyTickFinalized _ _ _ _).record _ = _
    rw [record_applyTickFinalized, hs]
    rfl
  | StreamOpened =>
    exact (record_updateDeal ..).trans (congrArg (DealRecord.map · _) hs)
  | TicksClaimed =>
    exact (record_updateDeal ..).trans (congrArg (DealRecord.map · _) hs)
  | StreamStopped => exact (record_updateDeal ..).trans (congrArg (DealRecord.map · _) hs)
  | DisputeResolved => exact (record_updateDeal ..).trans (congrArg (DealRecord.map · _) hs)
  | StreamReclaimed => exact (record_updateDeal ..).trans (congrArg (DealRecord.map · _) hs)
  | ContractDestroyed => exact (record_updateDeal ..).trans (congrArg (DealRecord.map · _) hs)
  | StreamDisputed => exact (record_updateDeal ..).trans (congrArg (DealRecord.map · _) hs)
  | ProbeBurned => exact (record_updateDeal ..).trans (congrArg (DealRecord.map · _) hs)
  | _ => exact hs

theorem record_applyInferenceDealClosed :
    (applyInferenceDealClosed db node tc).1.record tc =
      (db.record tc).reported node.chainOrder := by
  unfold applyInferenceDealClosed DealRecord.reported
  cases h : db.inferenceDeals tc with
  | none =>
    have hrow : (db.record tc).row = none := h
    simp only [hrow]
    rw [record_endFundingCycle, DealRecord.endCycle, hrow]
  | some d =>
    have hrow : (db.record tc).row = some d := h
    simp only [hrow]
    split
    · rfl
    · exact record_endFundingCycle ..

@[simp]
theorem record_seedMarketSkeleton : (seedMarketSkeleton db node).record tc = db.record tc := by
  unfold seedMarketSkeleton
  split <;> rfl

@[simp]
theorem record_upsertRestingOrder (ob : Addr) (orderId : ℕ) (excluded : InferenceOrder) :
    (upsertRestingOrder db ob orderId excluded).record tc = db.record tc := rfl

@[simp]
theorem record_applyFilledDecrement (f : FilledFields) (locked : List LockedOrder) :
    (applyFilledDecrement db f locked).record tc = db.record tc := by
  unfold applyFilledDecrement
  split <;> rfl

@[simp]
theorem record_recordTrade (f : FilledFields) (locked : List LockedOrder) :
    (recordTrade db f locked).record tc = db.record tc := by
  unfold recordTrade
  split <;> rfl

theorem record_linkDealFromFilled {f : FilledFields} (h : f.sellerTc = some tc) :
    (linkDealFromFilled db f).record tc = (db.record tc).matched f (sellerNote db f) := by
  unfold linkDealFromFilled
  rw [h]
  exact record_setDeal ..

theorem record_linkDealFromFilled_of_ne {f : FilledFields} (h : f.sellerTc ≠ some tc) :
    (linkDealFromFilled db f).record tc = db.record tc := by
  unfold linkDealFromFilled
  cases hs : f.sellerTc with
  | none => rfl
  | some => exact record_setDeal_of_ne _ _ (fun he => h (hs.trans (congrArg some he))) _

theorem record_placed (orderId : ℕ) (isBuy : Bool) (price ticks : ℕ) (note tokenContract : Addr)
    (deadline : ℕ) :
    (projectInferenceEvent db node
      (.InferenceOrderPlaced orderId isBuy price ticks note tokenContract deadline)).1.record tc =
        if isBuy = false ∧ nonZeroAddress tokenContract = some tc then
          (db.record tc).endCycle node.chainOrder
        else db.record tc := by
  simp only [projectInferenceEvent, applyInferenceOrderPlaced.eq_def]
  cases isBuy with
  | true => simp
  | false =>
    cases htc : nonZeroAddress tokenContract with
    | none => simp
    | some tc' =>
      by_cases h : tc' = tc
      · subst h
        simp [record_endFundingCycle]
      · simp [record_endFundingCycle_of_ne _ _ h, h]

theorem record_offered (hz : tc ≠ ZERO_ADDRESS) (orderId price ticks : ℕ) (note : Addr)
    (deadline : ℕ) :
    (projectInferenceEvent db node
      (.InferenceOrderPlaced orderId false price ticks note tc deadline)).1.record tc =
        (db.record tc).endCycle node.chainOrder := by
  have htc : nonZeroAddress tc = some tc := if_neg hz
  rw [record_placed, if_pos ⟨rfl, htc⟩]

/-- A fill leaves the parties of its legs as they were. -/
theorem sellerNote_filled {db' : Db} {f : FilledFields}
    (h : db'.inferenceOrders = (db.updateOrders f.ob f.ids
      fun o => o.filled f.ticks f.chainOrder f.chainSeconds).inferenceOrders) :
    sellerNote db' f = sellerNote db f := by
  apply sellerNote_congr
  intro id hid
  rw [h, Db.inferenceOrders_updateOrders, if_pos ⟨rfl, hid⟩, Option.map_map]
  congr 1
  funext o
  exact o.filled_party

theorem record_filled {f : FilledFields} (h : f.sellerTc = some tc)
    (hlegs : bothLegs db f.ob f.makerId f.takerId) :
    (applyInferenceFilled db f).1.record tc = (db.record tc).matched f (sellerNote db f) := by
  unfold applyInferenceFilled
  rw [if_pos (legs_iff.mpr hlegs)]
  simp only [record_recordTrade]
  rw [record_linkDealFromFilled _ _ h, record_applyFilledDecrement,
    sellerNote_filled _ (inferenceOrders_applyFilledDecrement _)]

theorem record_repaired {f : FilledFields} (h : f.sellerTc = some tc) :
    (repairFilled db f).record tc = (db.record tc).matched f (sellerNote db f) := by
  have horders := @repaired_orders db f
  rw [repairFilled, inferenceOrders_linkDealFromFilled] at horders
  rw [repairFilled, record_linkDealFromFilled _ _ h, sellerNote_filled _ horders,
    record_recordTrade]
  split
  · rfl
  · rw [record_applyFilledDecrement]

/-- Other events of books leave the record alone. -/
theorem record_book {event : InferenceEvent} (h : ¬ event.names tc) :
    (projectInferenceEvent db node event).1.record tc = db.record tc := by
  cases event with
  | InferenceOrderPlaced =>
    rw [record_placed, if_neg]
    rintro ⟨hsell, htc⟩
    unfold nonZeroAddress at htc
    split at htc
    · cases htc
    · exact h ⟨hsell, Option.some.inj htc⟩
  | InferenceFilled makerId takerId ticks clearingPrice sellerTC buyerNote =>
    simp only [projectInferenceEvent, applyInferenceFilled]
    split
    · simp [record_linkDealFromFilled_of_ne _ tc
        (f := .parse node makerId takerId ticks clearingPrice sellerTC buyerNote) h]
    · simp
  | InferenceOrderCancelled =>
    simp only [projectInferenceEvent, applyInferenceOrderCancelled]
    split <;> simp
  | InferenceOrderExpired =>
    simp only [projectInferenceEvent, applyInferenceOrderExpired]
    split <;> simp
  | InferenceSubscriptionPlaced =>
    simp [projectInferenceEvent, applyInferenceSubscriptionPlaced]
  | _ => simp [projectInferenceEvent]

end Records

/-- What a move does to the record of a single deal. -/
inductive RecordAction
  | keep
  | endCycle (chainOrder : ℕ)
  | report (chainOrder : ℕ)
  | link (f : FilledFields) (sellerNote : Option Addr)
  | told (node : EventNode) (event : TokenContractEvent)

def RecordAction.apply (r : DealRecord) : RecordAction → DealRecord
  | .keep => r
  | .endCycle chainOrder => r.endCycle chainOrder
  | .report chainOrder => r.reported chainOrder
  | .link f sellerNote => r.matched f sellerNote
  | .told node event => r.told node event

/-- The action of an event of a book on the deal `tc`; `legs` tells whether a fill is applied. -/
def InferenceEvent.recordAction (event : InferenceEvent) (db : Db) (node : EventNode)
    (legs : ℕ → ℕ → Prop) [∀ m t, Decidable (legs m t)] (tc : Addr) : RecordAction :=
  match event with
  | .InferenceOrderPlaced _ isBuy _ _ _ tokenContract _ =>
    if isBuy = false ∧ nonZeroAddress tokenContract = some tc then .endCycle node.chainOrder
    else .keep
  | .InferenceFilled makerId takerId ticks clearingPrice sellerTC buyerNote =>
    if legs makerId takerId ∧ sellerTC = some tc then
      let f := .parse node makerId takerId ticks clearingPrice sellerTC buyerNote
      .link f (sellerNote db f)
    else .keep
  | _ => .keep

def Move.recordAction (db : Db) (tc : Addr) : Move → RecordAction
  | .project node event => event.recordAction db node (bothLegs db node.src) tc
  | .dropOrphan node event =>
    match event with
    | .InferenceFilled .. => event.recordAction db node (fun _ _ => True) tc
    | _ => .keep
  | .deal node event => if node.src = tc then .told node event else .keep
  | .dealClosed node tc' => if tc' = tc then .report node.chainOrder else .keep
  | _ => .keep

section Step

variable {db db' : Db} {m : Move} (node : EventNode) (tc : Addr)

theorem record_updateDeal_of_ne {tc' : Addr} (h : tc' ≠ tc) (f : InferenceDeal → InferenceDeal) :
    (db.updateDeal tc' f).record tc = db.record tc :=
  record_setDeal_of_ne db tc h _

theorem record_seedDealSkeleton_of_ne (h : node.src ≠ tc) :
    (seedDealSkeleton db node).record tc = db.record tc := by
  unfold seedDealSkeleton
  split
  · exact record_setDeal_of_ne db tc h _
  · rfl

theorem record_told_of_ne (h : node.src ≠ tc) (event : TokenContractEvent) :
    (projectTokenContractEvent db node event).1.record tc = db.record tc := by
  cases event with
  | TickFinalized =>
    simp only [projectTokenContractEvent, applyTickFinalized]
    split
    · exact record_seedDealSkeleton_of_ne node tc h
    · rw [record_updateDeal_of_ne tc h, record_setTicks_of_ne _ _ h,
        record_seedDealSkeleton_of_ne node tc h]
  | _ =>
    simp [projectTokenContractEvent, applyStreamFunded, applyStreamOpened, applyTicksClaimed,
      applyClose, applyDisputed, applyTerminalClose, record_updateDeal_of_ne tc h,
      record_endFundingCycle_of_ne _ _ h, record_seedDealSkeleton_of_ne node tc h]

theorem record_repaired_of_ne {f : FilledFields} (h : f.sellerTc ≠ some tc) :
    (repairFilled db f).record tc = db.record tc := by
  rw [repairFilled, record_linkDealFromFilled_of_ne _ _ h, record_recordTrade]
  split
  · rfl
  · rw [record_applyFilledDecrement]

theorem record_closed_of_ne {tc' : Addr} (h : tc' ≠ tc) :
    (applyInferenceDealClosed db node tc').1.record tc = db.record tc := by
  unfold applyInferenceDealClosed
  split
  · split
    · rfl
    · exact record_endFundingCycle_of_ne _ _ h _
  · exact record_endFundingCycle_of_ne _ _ h _

theorem sellerNote_seedMarketSkeleton (f : FilledFields) :
    sellerNote (seedMarketSkeleton db node) f = sellerNote db f := by
  unfold sellerNote
  rw [inferenceOrders_seedMarketSkeleton]

theorem project_record (event : InferenceEvent) :
    (projectInferenceEvent db node event).1.record tc =
      ((Move.project node event).recordAction db tc).apply (db.record tc) := by
  cases event with
  | InferenceOrderPlaced =>
    rw [record_placed]
    simp only [Move.recordAction, InferenceEvent.recordAction]
    split <;> rfl
  | InferenceFilled makerId takerId ticks clearingPrice sellerTC buyerNote =>
    simp only [Move.recordAction, InferenceEvent.recordAction]
    by_cases htc : sellerTC = some tc
    · by_cases hlegs : bothLegs db node.src makerId takerId
      · rw [if_pos ⟨hlegs, htc⟩]
        have hseeded := hlegs
        rw [← @bothLegs_seedMarketSkeleton db node] at hseeded
        refine (record_filled _ tc (f := .parse node makerId takerId ticks clearingPrice sellerTC
          buyerNote) htc hseeded).trans ?_
        rw [record_seedMarketSkeleton, sellerNote_seedMarketSkeleton]
        rfl
      · rw [if_neg fun h => hlegs h.1]
        have hseeded := hlegs
        rw [← @bothLegs_seedMarketSkeleton db node] at hseeded
        simp only [projectInferenceEvent]
        rw [filled_deferred (f := .parse node makerId takerId ticks clearingPrice sellerTC
          buyerNote) hseeded, record_seedMarketSkeleton]
        rfl
    · rw [if_neg fun h => htc h.2]
      exact record_book db node tc htc
  | _ => exact record_book db node tc fun h => h

theorem step_record (h : step db m = some db') :
    db'.record tc = (m.recordAction db tc).apply (db.record tc) := by
  cases m with
  | project node event =>
    cases h
    exact project_record node tc event
  | dropOrphan node event =>
    rw [step] at h
    split at h
    · rename_i db₁ hdb
      cases h
      rw [deferred_writes node hdb]
      cases event with
      | InferenceFilled makerId takerId ticks clearingPrice sellerTC buyerNote =>
        simp only [Move.recordAction, InferenceEvent.recordAction, true_and]
        by_cases htc : sellerTC = some tc
        · rw [if_pos htc]
          refine (record_repaired _ tc (f := .parse node makerId takerId ticks clearingPrice
            sellerTC buyerNote) htc).trans ?_
          rw [record_seedMarketSkeleton, sellerNote_seedMarketSkeleton]
          rfl
        · rw [if_neg htc]
          exact (record_repaired_of_ne tc (f := .parse node makerId takerId ticks clearingPrice
            sellerTC buyerNote) htc).trans (record_seedMarketSkeleton db node tc)
      | _ => exact record_seedMarketSkeleton db node tc
    · cases h
  | provisionalCancel =>
    cases h
    rfl
  | repairFields =>
    cases h
    rfl
  | deal node event =>
    cases h
    simp only [Move.recordAction]
    split
    · rename_i hsrc
      subst hsrc
      exact record_projectTokenContractEvent db node event
    · rename_i hsrc
      exact record_told_of_ne node tc hsrc event
  | dealClosed node deal =>
    cases h
    simp only [Move.recordAction]
    split
    · rename_i hdeal
      subst hdeal
      exact record_applyInferenceDealClosed db node deal
    · rename_i hdeal
      exact record_closed_of_ne node tc hdeal

end Step

end ReadModel

end Dexdo
