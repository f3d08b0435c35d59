import Dexdo.Indexer.Inference
import Dexdo.Lib.Run

namespace Dexdo

namespace ReadModel

/-- One write to the inference tables: the projection of an event, the repair of an orphan past
its cutoff, a step of the sweep, or an event of a deal or of its notes. -/
inductive Move
  | project (node : EventNode) (event : InferenceEvent)
  | dropOrphan (node : EventNode) (event : InferenceEvent)
  | provisionalCancel (ob : Addr) (ids : List ℕ) (now : ℕ)
  | repairFields (ob : Addr) (orderId : ℕ) (tokenContract : Option Addr) (deadline : Option ℕ)
  | deal (node : EventNode) (event : TokenContractEvent)
  | dealClosed (node : EventNode) (deal : Addr)
  deriving DecidableEq

/-- An orphan is dropped only after its projection was deferred once more. -/
def step (db : Db) : Move → Option Db
  | .project node event => some (projectInferenceEvent db node event).1
  | .dropOrphan node event =>
    match projectInferenceEvent db node event with
    | (db', .Deferred) => some (repairExpiredInferenceOrphan db' node event)
    | _ => none
  | .provisionalCancel ob ids now => some (provisionalCancel db ob ids now)
  | .repairFields ob orderId tokenContract deadline =>
    some (repairOrderFields db ob orderId tokenContract deadline)
  | .deal node event => some (projectTokenContractEvent db node event).1
  | .dealClosed node deal => some (applyInferenceDealClosed db node deal).1

/-- What a move does to a single row of `inference_orders`. -/
inductive RowAction
  | keep
  | place (excluded : InferenceOrder)
  | fill (ticks chainOrder : ℕ) (chainSeconds : Option ℕ)
  | expire (node : EventNode)
  | cancel (node : EventNode)
  | sweep (now : ℕ)
  | repair (tokenContract : Option Addr) (deadline : Option ℕ)

namespace RowAction

def place? (r : Option InferenceOrder) (excluded : InferenceOrder) : InferenceOrder :=
  match r with
  | none => excluded
  | some o => o.replaced excluded

def apply (r : Option InferenceOrder) : RowAction → Option InferenceOrder
  | .keep => r
  | .place excluded => some (place? r excluded)
  | .fill ticks chainOrder chainSeconds => r.map (·.filled ticks chainOrder chainSeconds)
  | .expire node => r.map (·.expired node)
  | .cancel node => r.map (·.cancelled node)
  | .sweep now => r.map (·.sweepCancelled now)
  | .repair tokenContract deadline => r.map (·.repaired tokenContract deadline)

end RowAction

/-- The legs of a fill that the table has. -/
def bothLegs (db : Db) (ob : Addr) (makerId takerId : ℕ) : Prop :=
  (db.inferenceOrders ob makerId).isSome ∧ (db.inferenceOrders ob takerId).isSome

instance (db : Db) (ob : Addr) (makerId takerId : ℕ) : Decidable (bothLegs db ob makerId takerId) :=
  inferInstanceAs (Decidable (_ ∧ _))

/-- The action of an event of the row's book on the row `id`; `legs` tells whether a fill is
applied. -/
def InferenceEvent.rowAction (event : InferenceEvent) (node : EventNode) (legs : ℕ → ℕ → Prop)
    [∀ m t, Decidable (legs m t)] (id : ℕ) : RowAction :=
  match event with
  | .InferenceOrderPlaced orderId isBuy price ticks note tokenContract deadline =>
    if id = orderId then
      .place (.resting isBuy price ticks false note (nonZeroAddress tokenContract)
        (nonZeroUint deadline) node)
    else .keep
  | .InferenceSubscriptionPlaced orderId maxPrice ticks buyerNote =>
    if id = orderId then .place (.resting true maxPrice ticks true buyerNote none none node)
    else .keep
  | .InferenceOrderCancelled orderId => if id = orderId then .cancel node else .keep
  | .InferenceOrderExpired orderId => if id = orderId then .expire node else .keep
  | .InferenceFilled makerId takerId ticks _ _ _ =>
    if legs makerId takerId ∧ (id = makerId ∨ id = takerId) then
      .fill ticks node.chainOrder node.createdAt
    else .keep
  | _ => .keep

def Move.rowAction (db : Db) (ob : Addr) (id : ℕ) : Move → RowAction
  | .project node event =>
    if ob = node.src then event.rowAction node (bothLegs db ob) id else .keep
  | .dropOrphan node event =>
    match event with
    | .InferenceFilled .. =>
      if ob = node.src then event.rowAction node (fun _ _ => True) id else .keep
    | _ => .keep
  | .provisionalCancel ob' ids now => if ob = ob' ∧ id ∈ ids then .sweep now else .keep
  | .repairFields ob' orderId tokenContract deadline =>
    if ob = ob' ∧ id = orderId then .repair tokenContract deadline else .keep
  | .deal _ _ | .dealClosed _ _ => .keep

section Rows

variable {db db' : Db} {node : EventNode} {f : FilledFields} {ob : Addr} {id : ℕ}

@[simp]
theorem inferenceOrders_seedMarketSkeleton :
    (seedMarketSkeleton db node).inferenceOrders = db.inferenceOrders := by
  rw [seedMarketSkeleton]
  split <;> simp

theorem bothLegs_seedMarketSkeleton (ob : Addr) :
    bothLegs (seedMarketSkeleton db node) ob = bothLegs db ob := by
  funext makerId takerId
  rw [bothLegs, bothLegs, inferenceOrders_seedMarketSkeleton]

theorem upsert_row (orderId : ℕ) (excluded : InferenceOrder) (ob' : Addr) (id : ℕ) :
    (upsertRestingOrder db ob orderId excluded).inferenceOrders ob' id =
      if ob' = ob ∧ id = orderId then
        RowAction.apply (db.inferenceOrders ob' id) (.place excluded)
      else db.inferenceOrders ob' id := by
  rw [upsertRestingOrder, Db.inferenceOrders_setOrder]
  split
  · rename_i h
    obtain ⟨rfl, rfl⟩ := h
    rfl
  · rfl

@[simp]
theorem inferenceOrders_linkDealFromFilled :
    (linkDealFromFilled db f).inferenceOrders = db.inferenceOrders := by
  rw [linkDealFromFilled]
  split <;> simp

@[simp]
theorem inferenceOrders_recordTrade (locked : List LockedOrder) :
    (recordTrade db f locked).inferenceOrders = db.inferenceOrders := by
  rw [recordTrade]
  split
  · simp [appendInferenceTrade]
  · rfl

@[simp]
theorem inferenceOrders_applyFilledDecrement (locked : List LockedOrder) :
    (applyFilledDecrement db f locked).inferenceOrders =
      (db.updateOrders f.ob f.ids
        fun o => o.filled f.ticks f.chainOrder f.chainSeconds).inferenceOrders := by
  rw [applyFilledDecrement]
  split <;> simp

theorem mem_lockFilledRows {r : LockedOrder} :
    r ∈ lockFilledRows db f ↔ (r.orderId = f.makerId ∨ r.orderId = f.takerId) ∧
      ∃ o, db.inferenceOrders f.ob r.orderId = some o ∧
        r.isSweepCancel = o.sweptAt.isSome ∧ r.isBuy = o.isBuy := by
  simp only [lockFilledRows, FilledFields.ids, List.mem_filterMap, List.mem_dedup, List.mem_cons,
    List.not_mem_nil, or_false, Option.map_eq_some_iff]
  constructor
  · rintro ⟨id, hid, o, ho, rfl⟩
    exact ⟨hid, o, ho, rfl, rfl⟩
  · rintro ⟨hid, o, ho, h1, h2⟩
    refine ⟨r.orderId, hid, o, ho, ?_⟩
    cases r
    simp_all

theorem locked_iff {id : ℕ} (hid : id = f.makerId ∨ id = f.takerId) :
    (∃ r ∈ lockFilledRows db f, r.orderId = id) ↔ (db.inferenceOrders f.ob id).isSome := by
  constructor
  · rintro ⟨r, hr, rfl⟩
    obtain ⟨-, o, ho, -⟩ := mem_lockFilledRows.mp hr
    rw [ho]
    rfl
  · intro h
    obtain ⟨o, ho⟩ := Option.isSome_iff_exists.mp h
    exact ⟨⟨id, o.sweptAt.isSome, o.isBuy⟩, mem_lockFilledRows.mpr ⟨hid, o, ho, rfl, rfl⟩, rfl⟩

theorem legs_iff :
    ((∃ r ∈ lockFilledRows db f, r.orderId = f.makerId) ∧
      ∃ r ∈ lockFilledRows db f, r.orderId = f.takerId) ↔ bothLegs db f.ob f.makerId f.takerId :=
  and_congr (locked_iff (.inl rfl)) (locked_iff (.inr rfl))

theorem lockFilledRows_isEmpty :
    (lockFilledRows db f).isEmpty ↔
      db.inferenceOrders f.ob f.makerId = none ∧ db.inferenceOrders f.ob f.takerId = none := by
  rw [List.isEmpty_iff, List.eq_nil_iff_forall_not_mem]
  constructor
  · intro h
    have hnone : ∀ id, id = f.makerId ∨ id = f.takerId → db.inferenceOrders f.ob id = none := by
      intro id hid
      by_contra hne
      obtain ⟨r, hr, -⟩ := (locked_iff hid).mpr (Option.isSome_iff_ne_none.mpr hne)
      exact h r hr
    exact ⟨hnone _ (.inl rfl), hnone _ (.inr rfl)⟩
  · rintro ⟨hm, ht⟩ r hr
    obtain ⟨hid, o, ho, -⟩ := mem_lockFilledRows.mp hr
    rcases hid with hid | hid
    · rw [hid, hm] at ho
      cases ho
    · rw [hid, ht] at ho
      cases ho

theorem filled_row (ob : Addr) (id : ℕ) :
    (db.updateOrders f.ob f.ids
        fun o => o.filled f.ticks f.chainOrder f.chainSeconds).inferenceOrders ob id =
      if ob = f.ob ∧ (id = f.makerId ∨ id = f.takerId) then
        (db.inferenceOrders ob id).map (·.filled f.ticks f.chainOrder f.chainSeconds)
      else db.inferenceOrders ob id := by
  rw [Db.inferenceOrders_updateOrders]
  simp only [FilledFields.ids, List.mem_cons, List.not_mem_nil, or_false]

theorem filled_applied (h : bothLegs db f.ob f.makerId f.takerId) :
    (applyInferenceFilled db f).2 = .Applied ∧
      (applyInferenceFilled db f).1.inferenceOrders = (db.updateOrders f.ob f.ids
        fun o => o.filled f.ticks f.chainOrder f.chainSeconds).inferenceOrders := by
  rw [applyInferenceFilled]
  simp only [legs_iff, h, if_true]
  simp

theorem filled_deferred (h : ¬ bothLegs db f.ob f.makerId f.takerId) :
    applyInferenceFilled db f = (db, .Deferred) := by
  rw [applyInferenceFilled]
  simp only [legs_iff, h, if_false]

theorem repaired_orders :
    (repairFilled db f).inferenceOrders = (db.updateOrders f.ob f.ids
        fun o => o.filled f.ticks f.chainOrder f.chainSeconds).inferenceOrders := by
  rw [repairFilled]
  simp only [inferenceOrders_linkDealFromFilled, inferenceOrders_recordTrade]
  split
  · rename_i hempty
    obtain ⟨hm, ht⟩ := lockFilledRows_isEmpty.mp hempty
    funext ob id
    rw [filled_row]
    split
    · rename_i hid
      obtain ⟨rfl, rfl | rfl⟩ := hid
      · rw [hm]
        rfl
      · rw [ht]
        rfl
    · rfl
  · simp

theorem repair_row (ob : Addr) (id : ℕ) :
    (repairFilled db f).inferenceOrders ob id =
      if ob = f.ob ∧ (id = f.makerId ∨ id = f.takerId) then
        (db.inferenceOrders ob id).map (·.filled f.ticks f.chainOrder f.chainSeconds)
      else db.inferenceOrders ob id := by
  rw [repaired_orders]
  exact filled_row ob id

theorem placed_orders (orderId : ℕ) (isBuy : Bool) (price ticks : ℕ) (note tokenContract : Addr)
    (deadline : ℕ) :
    (applyInferenceOrderPlaced db node orderId isBuy price ticks note tokenContract
        deadline).1.inferenceOrders =
      (upsertRestingOrder db node.src orderId (.resting isBuy price ticks false note
        (nonZeroAddress tokenContract) (nonZeroUint deadline) node)).inferenceOrders := by
  cases isBuy with
  | true => rfl
  | false =>
    cases htc : nonZeroAddress tokenContract with
    | none => simp [applyInferenceOrderPlaced, htc]
    | some => simp [applyInferenceOrderPlaced, htc]

theorem existing_row {r : Db × ProjectionOutcome} (orderId : ℕ) (g : InferenceOrder → InferenceOrder)
    (hnone : db.inferenceOrders ob orderId = none → r.1 = db)
    (hsome : ∀ o, db.inferenceOrders ob orderId = some o →
      r.1 = db.setOrder ob orderId (some (g o))) (ob' : Addr) (id : ℕ) :
    r.1.inferenceOrders ob' id =
      if ob' = ob ∧ id = orderId then (db.inferenceOrders ob' id).map g
      else db.inferenceOrders ob' id := by
  cases ho : db.inferenceOrders ob orderId with
  | none =>
    rw [hnone ho]
    split
    · rename_i h
      obtain ⟨rfl, rfl⟩ := h
      rw [ho]
      rfl
    · rfl
  | some o =>
    rw [hsome o ho, Db.inferenceOrders_setOrder]
    split
    · rename_i h
      obtain ⟨rfl, rfl⟩ := h
      rw [ho]
      rfl
    · rfl

theorem expired_row (orderId : ℕ) (ob : Addr) (id : ℕ) :
    (applyInferenceOrderExpired db node orderId).1.inferenceOrders ob id =
      if ob = node.src ∧ id = orderId then (db.inferenceOrders ob id).map (·.expired node)
      else db.inferenceOrders ob id := by
  apply existing_row
  · intro h
    rw [applyInferenceOrderExpired, h]
  · intro o h
    rw [applyInferenceOrderExpired, h]

theorem cancelled_row (orderId : ℕ) (ob : Addr) (id : ℕ) :
    (applyInferenceOrderCancelled db node orderId).1.inferenceOrders ob id =
      if ob = node.src ∧ id = orderId then (db.inferenceOrders ob id).map (·.cancelled node)
      else db.inferenceOrders ob id := by
  apply existing_row
  · intro h
    rw [applyInferenceOrderCancelled, h]
  · intro o h
    rw [applyInferenceOrderCancelled, h]

theorem fill_row (ob : Addr) (id : ℕ) :
    (applyInferenceFilled db f).1.inferenceOrders ob id =
      if bothLegs db f.ob f.makerId f.takerId ∧ ob = f.ob ∧ (id = f.makerId ∨ id = f.takerId) then
        (db.inferenceOrders ob id).map (·.filled f.ticks f.chainOrder f.chainSeconds)
      else db.inferenceOrders ob id := by
  by_cases hlegs : bothLegs db f.ob f.makerId f.takerId
  · rw [(filled_applied hlegs).2, filled_row]
    simp only [hlegs, true_and]
  · rw [filled_deferred hlegs]
    simp only [hlegs, false_and, if_false]

end Rows

section Step

variable {db db' : Db} (node : EventNode) (ob : Addr) (id : ℕ)

theorem RowAction.apply_ite (p : Prop) [Decidable p] (a : RowAction) (r : Option InferenceOrder) :
    RowAction.apply r (if p then a else .keep) = if p then RowAction.apply r a else r := by
  split <;> rfl

theorem project_row (event : InferenceEvent) :
    (projectInferenceEvent db node event).1.inferenceOrders ob id =
      ((Move.project node event).rowAction db ob id).apply (db.inferenceOrders ob id) := by
  simp only [Move.rowAction, RowAction.apply_ite]
  cases event with
  | InferenceOrderPlaced =>
    simp only [projectInferenceEvent, placed_orders, upsert_row, InferenceEvent.rowAction,
      inferenceOrders_seedMarketSkeleton, RowAction.apply_ite, ite_and]
  | InferenceSubscriptionPlaced =>
    simp only [projectInferenceEvent, applyInferenceSubscriptionPlaced, upsert_row,
      InferenceEvent.rowAction, inferenceOrders_seedMarketSkeleton, RowAction.apply_ite, ite_and]
  | InferenceOrderCancelled =>
    simp only [projectInferenceEvent, cancelled_row, InferenceEvent.rowAction,
      inferenceOrders_seedMarketSkeleton, RowAction.apply_ite, ite_and]
    rfl
  | InferenceOrderExpired =>
    simp only [projectInferenceEvent, expired_row, InferenceEvent.rowAction,
      inferenceOrders_seedMarketSkeleton, RowAction.apply_ite, ite_and]
    rfl
  | InferenceFilled =>
    simp only [projectInferenceEvent, fill_row, InferenceEvent.rowAction, FilledFields.parse,
      bothLegs_seedMarketSkeleton, inferenceOrders_seedMarketSkeleton, RowAction.apply_ite]
    by_cases hob : ob = node.src
    · subst hob
      simp only [true_and, if_true]
      rfl
    · simp only [hob, false_and, and_false, if_false]
  | _ =>
    simp only [projectInferenceEvent, InferenceEvent.rowAction, inferenceOrders_seedMarketSkeleton,
      RowAction.apply, ite_self]

theorem deferred_writes {event : InferenceEvent}
    (h : projectInferenceEvent db node event = (db', .Deferred)) :
    db' = seedMarketSkeleton db node := by
  cases event with
  | InferenceOrderPlaced orderId isBuy price ticks note tokenContract deadline =>
    rw [projectInferenceEvent] at h
    have h2 : (applyInferenceOrderPlaced (seedMarketSkeleton db node) node orderId isBuy price ticks
        note tokenContract deadline).2 = .Applied := by
      rw [applyInferenceOrderPlaced.eq_def]
      split <;> rfl
    rw [h] at h2
    cases h2
  | InferenceOrderCancelled =>
    rw [projectInferenceEvent, applyInferenceOrderCancelled] at h
    split at h
    · exact (Prod.mk.inj h).1.symm
    · cases (Prod.mk.inj h).2
  | InferenceOrderExpired =>
    rw [projectInferenceEvent, applyInferenceOrderExpired] at h
    split at h
    · exact (Prod.mk.inj h).1.symm
    · cases (Prod.mk.inj h).2
  | InferenceFilled =>
    rw [projectInferenceEvent, applyInferenceFilled] at h
    split at h
    · cases (Prod.mk.inj h).2
    · exact (Prod.mk.inj h).1.symm
  | _ => cases (Prod.mk.inj h).2

theorem dropOrphan_row {event : InferenceEvent}
    (h : step db (.dropOrphan node event) = some db') :
    db'.inferenceOrders ob id =
      ((Move.dropOrphan node event).rowAction db ob id).apply (db.inferenceOrders ob id) := by
  simp only [step] at h
  split at h
  · rename_i db₁ hdb
    cases h
    rw [deferred_writes node hdb]
    cases event with
    | InferenceFilled =>
      simp only [repairExpiredInferenceOrphan, repair_row, Move.rowAction,
        InferenceEvent.rowAction, FilledFields.parse, inferenceOrders_seedMarketSkeleton,
        RowAction.apply_ite, true_and, ite_and]
      rfl
    | _ =>
      simp only [repairExpiredInferenceOrphan, Move.rowAction, RowAction.apply,
        inferenceOrders_seedMarketSkeleton]
  · cases h

theorem step_row {m : Move} (h : step db m = some db') :
    db'.inferenceOrders ob id = (m.rowAction db ob id).apply (db.inferenceOrders ob id) := by
  cases m with
  | project =>
    cases h
    exact project_row ..
  | dropOrphan => exact dropOrphan_row _ _ _ h
  | provisionalCancel =>
    cases h
    simp only [Move.rowAction, RowAction.apply_ite, provisionalCancel,
      Db.inferenceOrders_updateOrders]
    rfl
  | repairFields =>
    cases h
    simp only [Move.rowAction, RowAction.apply_ite, repairOrderFields,
      Db.inferenceOrders_updateOrders, List.mem_singleton]
    rfl
  | deal =>
    cases h
    exact congrFun (congrFun (inferenceOrders_projectTokenContractEvent ..) _) _
  | dealClosed =>
    cases h
    exact congrFun (congrFun (inferenceOrders_applyInferenceDealClosed ..) _) _

end Step

end ReadModel

end Dexdo
