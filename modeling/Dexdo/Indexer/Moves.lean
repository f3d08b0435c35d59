import Dexdo.Indexer.Rows

namespace Dexdo

namespace ReadModel

namespace RowAction

/-- A row and its successor agree in what the order is. -/
structure SameOrder (o o' : InferenceOrder) : Prop where
  isBuy : o'.isBuy = o.isBuy
  price : o'.price = o.price
  amountInitial : o'.amountInitial = o.amountInitial
  isSubscription : o'.isSubscription = o.isSubscription
  noteAddress : o'.noteAddress = o.noteAddress

theorem SameOrder.refl (o : InferenceOrder) : SameOrder o o := ⟨rfl, rfl, rfl, rfl, rfl⟩

def isPlace : RowAction → Prop
  | .place _ => True
  | _ => False

/-- Row actions after a placement, on a row that exists. -/
def act (o : InferenceOrder) : RowAction → InferenceOrder
  | .keep => o
  | .place excluded => o.replaced excluded
  | .fill ticks chainOrder chainSeconds => o.filled ticks chainOrder chainSeconds
  | .expire node => o.expired node
  | .cancel node => o.cancelled node
  | .sweep now => o.sweepCancelled now
  | .repair tokenContract deadline => o.repaired tokenContract deadline

variable {a : RowAction}

theorem apply_some (o : InferenceOrder) (a : RowAction) : a.apply (some o) = some (a.act o) := by
  cases a <;> rfl

theorem act_sameOrder (ha : ¬ a.isPlace) (o : InferenceOrder) : SameOrder o (a.act o) := by
  cases a with
  | keep => exact .refl o
  | place => exact absurd trivial ha
  | fill =>
    simp only [act, InferenceOrder.filled]
    split <;> exact ⟨rfl, rfl, rfl, rfl, rfl⟩
  | expire =>
    simp only [act, InferenceOrder.expired]
    split <;> exact ⟨rfl, rfl, rfl, rfl, rfl⟩
  | cancel =>
    simp only [act, InferenceOrder.cancelled]
    split <;> exact ⟨rfl, rfl, rfl, rfl, rfl⟩
  | sweep =>
    simp only [act, InferenceOrder.sweepCancelled]
    split <;> exact ⟨rfl, rfl, rfl, rfl, rfl⟩
  | repair =>
    simp only [act, InferenceOrder.repaired]
    split <;> exact ⟨rfl, rfl, rfl, rfl, rfl⟩

end RowAction

/-- A sequence of moves, if each of them can be made. -/
def run (db : Db) (moves : List Move) : Option Db := moves.foldlM step db

section Run

variable {a b db db' : Db} {m : Move} {ms : List Move}

theorem run_cons : run db (m :: ms) = (step db m).bind fun db' => run db' ms := by
  rw [run, List.foldlM_cons]
  rfl

/-- The order that a move places. -/
def Move.placed : Move → Option (Addr × ℕ)
  | .project node (.InferenceOrderPlaced orderId _ _ _ _ _ _) => some (node.src, orderId)
  | .project node (.InferenceSubscriptionPlaced orderId _ _ _) => some (node.src, orderId)
  | _ => none

/-- The chain order of the fill that a move applies. -/
def Move.tradeId (db : Db) : Move → Option ℕ
  | .project node (.InferenceFilled makerId takerId _ _ _ _) =>
    if bothLegs db node.src makerId takerId then some node.chainOrder else none
  | .dropOrphan node (.InferenceFilled ..) => some node.chainOrder
  | _ => none

theorem isPlace_ite (p : Prop) [Decidable p] (x : RowAction) :
    (if p then x else .keep).isPlace ↔ p ∧ x.isPlace := by
  split <;> simp [RowAction.isPlace, *]

theorem rowAction_isPlace {ob : Addr} {id : ℕ} (h : (m.rowAction db ob id).isPlace) :
    m.placed = some (ob, id) := by
  cases m with
  | project node event =>
    cases event <;> simp only [Move.rowAction, InferenceEvent.rowAction, isPlace_ite] at h <;>
      simp_all [RowAction.isPlace, Move.placed]
  | dropOrphan node event =>
    cases event <;> simp only [Move.rowAction, InferenceEvent.rowAction, isPlace_ite] at h <;>
      simp_all [RowAction.isPlace]
  | provisionalCancel =>
    simp only [Move.rowAction, isPlace_ite] at h
    exact h.2.elim
  | repairFields =>
    simp only [Move.rowAction, isPlace_ite] at h
    exact h.2.elim
  | deal => exact h.elim
  | dealClosed => exact h.elim

/-- What a match reads of an order: its side and its note. -/
def InferenceOrder.party (o : InferenceOrder) : Bool × Option Addr := (o.isBuy, o.noteAddress)

theorem InferenceOrder.filled_party (o : InferenceOrder) {ticks chainOrder : ℕ}
    {chainSeconds : Option ℕ} : (o.filled ticks chainOrder chainSeconds).party = o.party := by
  unfold filled
  split <;> rfl

/-- Two states know the same orders, each of the same party. -/
def SameSides (a b : Db) : Prop :=
  ∀ ob id, (a.inferenceOrders ob id).map (·.party) = (b.inferenceOrders ob id).map (·.party)

theorem isSome_of_party {r r' : Option InferenceOrder}
    (h : r.map (·.party) = r'.map (·.party)) : r.isSome = r'.isSome := by
  simpa only [Option.isSome_map] using congrArg Option.isSome h

theorem isBuy_of_party {r r' : Option InferenceOrder}
    (h : r.map (·.party) = r'.map (·.party)) : r.map (·.isBuy) = r'.map (·.isBuy) := by
  have hside := congrArg (Option.map Prod.fst) h
  rw [Option.map_map, Option.map_map] at hside
  exact hside

/-- Only a placement changes the party of an order. -/
theorem step_party {ob : Addr} {id : ℕ} (h : step db m = some db')
    (hplaced : m.placed ≠ some (ob, id)) :
    (db'.inferenceOrders ob id).map (·.party) = (db.inferenceOrders ob id).map (·.party) := by
  rw [step_row ob id h]
  have hx : ¬ (m.rowAction db ob id).isPlace := fun hplace => hplaced (rowAction_isPlace hplace)
  cases db.inferenceOrders ob id with
  | none =>
    cases hact : m.rowAction db ob id with
    | place =>
      rw [hact] at hx
      exact absurd trivial hx
    | _ => rfl
  | some o =>
    have hsame := RowAction.act_sameOrder hx o
    rw [RowAction.apply_some]
    exact congrArg some (Prod.ext hsame.isBuy hsame.noteAddress)

theorem SameSides.isSome_eq (h : SameSides a b) (ob : Addr) (id : ℕ) :
    (a.inferenceOrders ob id).isSome = (b.inferenceOrders ob id).isSome :=
  isSome_of_party (h ob id)

theorem SameSides.bothLegs_iff (h : SameSides a b) (ob : Addr) (makerId takerId : ℕ) :
    bothLegs a ob makerId takerId ↔ bothLegs b ob makerId takerId := by
  rw [bothLegs, bothLegs, h.isSome_eq, h.isSome_eq]

theorem SameSides.rowAction_eq (h : SameSides a b) (m : Move) (ob : Addr) (id : ℕ) :
    m.rowAction a ob id = m.rowAction b ob id := by
  cases m with
  | project node event =>
    simp only [Move.rowAction]
    cases event with
    | InferenceFilled =>
      simp only [InferenceEvent.rowAction, h.bothLegs_iff]
    | _ => rfl
  | _ => rfl

theorem deferred_iff (node : EventNode) (event : InferenceEvent) :
    (projectInferenceEvent db node event).2 = .Deferred ↔ match event with
      | .InferenceOrderCancelled orderId | .InferenceOrderExpired orderId =>
        (db.inferenceOrders node.src orderId).isSome = false
      | .InferenceFilled makerId takerId _ _ _ _ => ¬ bothLegs db node.src makerId takerId
      | _ => False := by
  cases event with
  | InferenceOrderPlaced =>
    simp only [projectInferenceEvent, iff_false]
    rw [applyInferenceOrderPlaced.eq_def]
    split <;> exact (fun h => by cases h)
  | InferenceOrderCancelled orderId =>
    simp only [projectInferenceEvent, applyInferenceOrderCancelled,
      inferenceOrders_seedMarketSkeleton]
    cases db.inferenceOrders node.src orderId <;> simp
  | InferenceOrderExpired orderId =>
    simp only [projectInferenceEvent, applyInferenceOrderExpired,
      inferenceOrders_seedMarketSkeleton]
    cases db.inferenceOrders node.src orderId <;> simp
  | InferenceFilled makerId takerId ticks clearingPrice sellerTC buyerNote =>
    simp only [projectInferenceEvent, applyInferenceFilled, legs_iff, bothLegs,
      inferenceOrders_seedMarketSkeleton, FilledFields.parse]
    split <;> simp [*]
  | _ => exact ⟨(fun h => by cases h), (fun h => by cases h)⟩

theorem deferred_congr (h : SameSides a b) (node : EventNode) (event : InferenceEvent) :
    (projectInferenceEvent a node event).2 = .Deferred ↔
      (projectInferenceEvent b node event).2 = .Deferred := by
  rw [deferred_iff, deferred_iff]
  cases event <;> simp only [h.isSome_eq, h.bothLegs_iff]

theorem dropOrphan_isSome (node : EventNode) (event : InferenceEvent) :
    (step db (.dropOrphan node event)).isSome ↔
      (projectInferenceEvent db node event).2 = .Deferred := by
  rcases h : projectInferenceEvent db node event with ⟨db', outcome⟩
  cases outcome <;> simp [step, h]

theorem SameSides.step_isSome (h : SameSides a b) (m : Move) :
    (step a m).isSome ↔ (step b m).isSome := by
  cases m with
  | dropOrphan => rw [dropOrphan_isSome, dropOrphan_isSome, deferred_congr h]
  | _ => exact Iff.rfl

end Run

section Tape

variable {a b db db' : Db} {m : Move} {f : FilledFields}

/-- The side of the maker of a fill, read off the legs in the table. -/
def makerSide (db : Db) (ob : Addr) (makerId takerId : ℕ) : Option Bool :=
  ((db.inferenceOrders ob makerId).map (·.isBuy)).or
    (((db.inferenceOrders ob takerId).map (·.isBuy)).map not)

theorem makerSide_congr {ob : Addr} {makerId takerId : ℕ}
    (hmaker : (a.inferenceOrders ob makerId).map (·.party) =
      (b.inferenceOrders ob makerId).map (·.party))
    (htaker : (a.inferenceOrders ob takerId).map (·.party) =
      (b.inferenceOrders ob takerId).map (·.party)) :
    makerSide a ob makerId takerId = makerSide b ob makerId takerId := by
  rw [makerSide, makerSide, isBuy_of_party hmaker, isBuy_of_party htaker]

theorem sellerNote_eq : sellerNote db f =
    ((f.ids.filterMap fun id => (db.inferenceOrders f.ob id).map (·.party)).find? (!·.1)).bind
      (·.2) := by
  have hmap : (f.ids.filterMap fun id => (db.inferenceOrders f.ob id).map (·.party)) =
      (f.ids.filterMap (db.inferenceOrders f.ob)).map (·.party) := by
    rw [List.map_filterMap]
  rw [sellerNote, hmap, List.find?_map, Option.bind_map]
  rfl

theorem sellerNote_congr
    (h : ∀ id ∈ f.ids, (a.inferenceOrders f.ob id).map (·.party) =
      (b.inferenceOrders f.ob id).map (·.party)) : sellerNote a f = sellerNote b f := by
  rw [sellerNote_eq, sellerNote_eq, List.filterMap_congr h]

theorem find_locked {id : ℕ} (hid : id = f.makerId ∨ id = f.takerId) :
    (lockFilledRows db f).find? (·.orderId = id) =
      (db.inferenceOrders f.ob id).map fun o => ⟨id, o.sweptAt.isSome, o.isBuy⟩ := by
  cases hfind : (lockFilledRows db f).find? (·.orderId = id) with
  | none =>
    cases ho : db.inferenceOrders f.ob id with
    | none => rfl
    | some =>
      obtain ⟨r, hr, hrid⟩ := (locked_iff hid).mpr (by rw [ho]; rfl)
      exact absurd (decide_eq_true hrid) (List.find?_eq_none.mp hfind r hr)
  | some r =>
    have hrid : r.orderId = id := by simpa using List.find?_some hfind
    obtain ⟨-, o, ho, h1, h2⟩ := mem_lockFilledRows.mp (List.mem_of_find?_eq_some hfind)
    rw [hrid] at ho
    rw [ho]
    cases r
    simp_all

theorem resolve_eq :
    resolveIsBuyerMaker f (lockFilledRows db f) = makerSide db f.ob f.makerId f.takerId := by
  rw [resolveIsBuyerMaker, makerSide, find_locked (.inl rfl), find_locked (.inr rfl)]
  cases db.inferenceOrders f.ob f.makerId with
  | none =>
    rw [Option.map_none, Option.map_map, Option.map_none, Option.none_or, Option.map_map]
    rfl
  | some => rfl

/-- The row of the tape that a move writes, and its key. -/
def Move.trade (db : Db) : Move → Option (ℕ × InferenceTrade)
  | .project node (.InferenceFilled makerId takerId ticks clearingPrice _ _) =>
    if bothLegs db node.src makerId takerId then
      (makerSide db node.src makerId takerId).map
        fun side => (node.chainOrder, ⟨node.src, clearingPrice, ticks, side, node.createdAt⟩)
    else none
  | .dropOrphan node (.InferenceFilled makerId takerId ticks clearingPrice _ _) =>
    (makerSide db node.src makerId takerId).map
      fun side => (node.chainOrder, ⟨node.src, clearingPrice, ticks, side, node.createdAt⟩)
  | _ => none

theorem tradeId_of_trade {k : ℕ} {t : InferenceTrade} (h : m.trade db = some (k, t)) :
    m.tradeId db = some k := by
  cases m with
  | project node event =>
    cases event with
    | InferenceFilled makerId takerId ticks clearingPrice sellerTC buyerNote =>
      simp only [Move.trade] at h
      split at h
      · rename_i hlegs
        obtain ⟨side, -, hk⟩ := Option.map_eq_some_iff.mp h
        rw [Move.tradeId, if_pos hlegs]
        exact congrArg some (congrArg Prod.fst hk)
      · cases h
    | _ => cases h
  | dropOrphan node event =>
    cases event with
    | InferenceFilled =>
      obtain ⟨side, -, hk⟩ := Option.map_eq_some_iff.mp h
      exact congrArg some (congrArg Prod.fst hk)
    | _ => cases h
  | _ => cases h

/-- A write to the tape. -/
def writeTrade (trades : ℕ → Option InferenceTrade) (tradeId : ℕ) (t : InferenceTrade) :
    ℕ → Option InferenceTrade :=
  Function.update trades tradeId (some (match trades tradeId with
    | none => t
    | some old => old.rewritten t))

def writeTrade? (trades : ℕ → Option InferenceTrade) :
    Option (ℕ × InferenceTrade) → ℕ → Option InferenceTrade
  | some (tradeId, t) => writeTrade trades tradeId t
  | none => trades

section Trades

variable (node : EventNode) (tc : Addr)

@[simp]
theorem inferenceTrades_seedMarketSkeleton :
    (seedMarketSkeleton db node).inferenceTrades = db.inferenceTrades := by
  rw [seedMarketSkeleton]
  split <;> rfl

@[simp]
theorem books_endFundingCycle (chainOrder : ℕ) :
    (endFundingCycle db tc chainOrder).inferenceTrades = db.inferenceTrades ∧
      (endFundingCycle db tc chainOrder).inferenceMarkets = db.inferenceMarkets := by
  rw [endFundingCycle]
  split
  · exact ⟨rfl, rfl⟩
  · split <;> exact ⟨rfl, rfl⟩

@[simp]
theorem books_seedDealSkeleton :
    (seedDealSkeleton db node).inferenceTrades = db.inferenceTrades ∧
      (seedDealSkeleton db node).inferenceMarkets = db.inferenceMarkets := by
  rw [seedDealSkeleton]
  split <;> exact ⟨rfl, rfl⟩

@[simp]
theorem books_updateDeal (f : InferenceDeal → InferenceDeal) :
    (db.updateDeal tc f).inferenceTrades = db.inferenceTrades ∧
      (db.updateDeal tc f).inferenceMarkets = db.inferenceMarkets := ⟨rfl, rfl⟩

@[simp]
theorem books_upsertRestingOrder (ob : Addr) (orderId : ℕ) (excluded : InferenceOrder) :
    (upsertRestingOrder db ob orderId excluded).inferenceTrades = db.inferenceTrades ∧
      (upsertRestingOrder db ob orderId excluded).inferenceMarkets = db.inferenceMarkets :=
  ⟨rfl, rfl⟩

theorem books_projectTokenContractEvent (event : TokenContractEvent) :
    (projectTokenContractEvent db node event).1.inferenceTrades = db.inferenceTrades ∧
      (projectTokenContractEvent db node event).1.inferenceMarkets = db.inferenceMarkets := by
  cases event with
  | TickFinalized =>
    simp only [projectTokenContractEvent, applyTickFinalized]
    split
    · exact books_seedDealSkeleton node
    · exact books_seedDealSkeleton node
  | _ =>
    simp [projectTokenContractEvent, applyStreamFunded, applyStreamOpened, applyTicksClaimed,
      applyClose, applyDisputed, applyTerminalClose]

theorem books_applyInferenceDealClosed :
    (applyInferenceDealClosed db node tc).1.inferenceTrades = db.inferenceTrades ∧
      (applyInferenceDealClosed db node tc).1.inferenceMarkets = db.inferenceMarkets := by
  rw [applyInferenceDealClosed]
  split
  · split <;> simp
  · simp

/-- Events of a book other than fills leave the tape alone, and of the markets they only seed
their own. -/
theorem books_projectInferenceEvent {event : InferenceEvent}
    (h : ∀ makerId takerId ticks clearingPrice sellerTC buyerNote,
      event ≠ .InferenceFilled makerId takerId ticks clearingPrice sellerTC buyerNote) :
    (projectInferenceEvent db node event).1.inferenceTrades = db.inferenceTrades ∧
      (projectInferenceEvent db node event).1.inferenceMarkets =
        (seedMarketSkeleton db node).inferenceMarkets := by
  rw [← @inferenceTrades_seedMarketSkeleton db node]
  cases event with
  | InferenceFilled =>
    exact (h _ _ _ _ _ _ rfl).elim
  | InferenceOrderPlaced =>
    simp only [projectInferenceEvent]
    rw [applyInferenceOrderPlaced.eq_def]
    simp only
    split <;> simp
  | InferenceOrderCancelled =>
    simp only [projectInferenceEvent, applyInferenceOrderCancelled]
    split <;> exact ⟨rfl, rfl⟩
  | InferenceOrderExpired =>
    simp only [projectInferenceEvent, applyInferenceOrderExpired]
    split <;> exact ⟨rfl, rfl⟩
  | _ => exact ⟨rfl, rfl⟩

@[simp]
theorem books_linkDealFromFilled :
    (linkDealFromFilled db f).inferenceTrades = db.inferenceTrades ∧
      (linkDealFromFilled db f).inferenceMarkets = db.inferenceMarkets := by
  rw [linkDealFromFilled]
  split <;> exact ⟨rfl, rfl⟩

@[simp]
theorem inferenceTrades_applyFilledDecrement (locked : List LockedOrder) :
    (applyFilledDecrement db f locked).inferenceTrades = db.inferenceTrades := by
  rw [applyFilledDecrement]
  split <;> rfl

theorem inferenceTrades_recordTrade (locked : List LockedOrder) :
    (recordTrade db f locked).inferenceTrades =
      writeTrade? db.inferenceTrades ((resolveIsBuyerMaker f locked).map fun side =>
        (f.chainOrder, ⟨f.ob, f.clearingPrice, f.ticks, side, f.chainSeconds⟩)) := by
  rw [recordTrade]
  cases resolveIsBuyerMaker f locked with
  | none => rfl
  | some =>
    cases h : db.inferenceTrades f.chainOrder with
    | none =>
      simp only [appendInferenceTrade, Db.setTrade, Option.map_some, writeTrade?, writeTrade, h]
    | some =>
      simp only [appendInferenceTrade, Db.setTrade, Option.map_some, writeTrade?, writeTrade, h]

theorem inferenceTrades_repairFilled :
    (repairFilled db f).inferenceTrades =
      writeTrade? db.inferenceTrades ((makerSide db f.ob f.makerId f.takerId).map fun side =>
        (f.chainOrder, ⟨f.ob, f.clearingPrice, f.ticks, side, f.chainSeconds⟩)) := by
  rw [repairFilled]
  simp only [books_linkDealFromFilled, inferenceTrades_recordTrade, resolve_eq]
  split <;> simp

theorem inferenceTrades_applyInferenceFilled :
    (applyInferenceFilled db f).1.inferenceTrades = if bothLegs db f.ob f.makerId f.takerId then
      writeTrade? db.inferenceTrades ((makerSide db f.ob f.makerId f.takerId).map fun side =>
        (f.chainOrder, ⟨f.ob, f.clearingPrice, f.ticks, side, f.chainSeconds⟩))
      else db.inferenceTrades := by
  rw [applyInferenceFilled]
  simp only [legs_iff]
  split
  · simp only [inferenceTrades_recordTrade, books_linkDealFromFilled, resolve_eq,
      inferenceTrades_applyFilledDecrement]
  · rfl

end Trades

/-- Every move writes at most one row of the tape. -/
theorem step_trades (h : step db m = some db') :
    db'.inferenceTrades = writeTrade? db.inferenceTrades (m.trade db) := by
  cases m with
  | project node event =>
    cases h
    cases event with
    | InferenceFilled =>
      simp only [projectInferenceEvent, inferenceTrades_applyInferenceFilled, Move.trade,
        FilledFields.parse, bothLegs_seedMarketSkeleton, makerSide,
        inferenceOrders_seedMarketSkeleton, inferenceTrades_seedMarketSkeleton]
      split <;> rfl
    | _ => exact (books_projectInferenceEvent node (by intros; simp)).1
  | dropOrphan node event =>
    rw [step] at h
    split at h
    · rename_i db₁ hdb
      cases h
      rw [deferred_writes node hdb]
      cases event with
      | InferenceFilled =>
        simp only [repairExpiredInferenceOrphan, inferenceTrades_repairFilled, Move.trade,
          FilledFields.parse, makerSide, inferenceOrders_seedMarketSkeleton,
          inferenceTrades_seedMarketSkeleton]
      | _ => exact inferenceTrades_seedMarketSkeleton node
    · cases h
  | provisionalCancel =>
    cases h
    rfl
  | repairFields =>
    cases h
    rfl
  | deal node event =>
    cases h
    exact (books_projectTokenContractEvent node event).1
  | dealClosed node deal =>
    cases h
    exact (books_applyInferenceDealClosed node deal).1

theorem SameSides.trade_eq (h : SameSides a b) (m : Move) : m.trade a = m.trade b := by
  cases m with
  | project node event =>
    cases event with
    | InferenceFilled =>
      simp only [Move.trade, makerSide_congr (h _ _) (h _ _), h.bothLegs_iff]
    | _ => rfl
  | dropOrphan node event =>
    cases event with
    | InferenceFilled =>
      simp only [Move.trade, makerSide_congr (h _ _) (h _ _)]
    | _ => rfl
  | _ => rfl

theorem writeTrade_comm (trades : ℕ → Option InferenceTrade) {k k' : ℕ} (hk : k ≠ k')
    (t t' : InferenceTrade) :
    writeTrade (writeTrade trades k t) k' t' = writeTrade (writeTrade trades k' t') k t := by
  have h1 : writeTrade trades k t k' = trades k' := Function.update_of_ne hk.symm ..
  have h2 : writeTrade trades k' t' k = trades k := Function.update_of_ne hk ..
  rw [writeTrade, h1, writeTrade, writeTrade, h2, writeTrade, Function.update_comm hk]

theorem writeTrade?_comm (trades : ℕ → Option InferenceTrade) {w w' : Option (ℕ × InferenceTrade)}
    (hw : ∀ k t k' t', w = some (k, t) → w' = some (k', t') → k ≠ k') :
    writeTrade? (writeTrade? trades w) w' = writeTrade? (writeTrade? trades w') w := by
  cases w with
  | none => rfl
  | some =>
    cases w' with
    | none => rfl
    | some => exact writeTrade_comm trades (hw _ _ _ _ rfl rfl) ..

end Tape

section Markets

variable {db db' : Db} {node : EventNode} {m : Move} {f : FilledFields}

/-- The order is there and carries a cancel of the sweep. -/
def swept (r : Option InferenceOrder) : Bool := r.any (·.sweptAt.isSome)

def sweptLeg (db : Db) (ob : Addr) (makerId takerId : ℕ) : Bool :=
  swept (db.inferenceOrders ob makerId) || swept (db.inferenceOrders ob takerId)

/-- The legs of the fill that a move applies in the book. -/
def Move.fill? (db : Db) (ob : Addr) : Move → Option (ℕ × ℕ)
  | .project node (.InferenceFilled makerId takerId _ _ _ _) =>
    if ob = node.src ∧ bothLegs db ob makerId takerId then some (makerId, takerId) else none
  | .dropOrphan node (.InferenceFilled makerId takerId _ _ _ _) =>
    if ob = node.src then some (makerId, takerId) else none
  | _ => none

/-- The move overrides a cancel of the sweep in the book. -/
def Move.overrides (db : Db) (ob : Addr) (m : Move) : Bool :=
  (m.fill? db ob).any fun legs => sweptLeg db ob legs.1 legs.2

/-- The row of a market once the move has seeded it. -/
def Move.seeded (ob : Addr) (row : Option InferenceMarket) : Move → Option InferenceMarket
  | .project node _ | .dropOrphan node _ =>
    if ob = node.src then some (row.getD ⟨node.createdAt, none, none, 0, none, none⟩) else row
  | _ => row

def restarted (override : Bool) (row : Option InferenceMarket) : Option InferenceMarket :=
  if override then row.map resetSweep else row

theorem sweptLeg_iff {ob : Addr} {makerId takerId : ℕ} :
    sweptLeg db ob makerId takerId ↔ ∃ id, (id = makerId ∨ id = takerId) ∧
      ∃ o, db.inferenceOrders ob id = some o ∧ o.sweptAt.isSome := by
  simp [sweptLeg, swept, Option.any_eq_true]

theorem locked_swept :
    (lockFilledRows db f).any (·.isSweepCancel) = sweptLeg db f.ob f.makerId f.takerId := by
  rw [Bool.eq_iff_iff, List.any_eq_true, sweptLeg_iff]
  constructor
  · rintro ⟨r, hr, hswept⟩
    obtain ⟨hid, o, ho, h, -⟩ := mem_lockFilledRows.mp hr
    exact ⟨r.orderId, hid, o, ho, h ▸ hswept⟩
  · rintro ⟨id, hid, o, ho, hswept⟩
    exact ⟨⟨id, o.sweptAt.isSome, o.isBuy⟩, mem_lockFilledRows.mpr ⟨hid, o, ho, rfl, rfl⟩, hswept⟩

theorem inferenceMarkets_seedMarketSkeleton (ob : Addr) :
    (seedMarketSkeleton db node).inferenceMarkets ob = if ob = node.src then
      some ((db.inferenceMarkets ob).getD ⟨node.createdAt, none, none, 0, none, none⟩)
      else db.inferenceMarkets ob := by
  rw [seedMarketSkeleton]
  by_cases hob : ob = node.src
  · subst hob
    cases h : db.inferenceMarkets node.src <;> simp [Db.setMarket, h]
  · cases h : db.inferenceMarkets node.src <;> simp [Db.setMarket, hob]

theorem inferenceMarkets_recordTrade (locked : List LockedOrder) :
    (recordTrade db f locked).inferenceMarkets = db.inferenceMarkets := by
  rw [recordTrade]
  split <;> rfl

theorem inferenceMarkets_applyFilledDecrement (ob : Addr) :
    (applyFilledDecrement db f (lockFilledRows db f)).inferenceMarkets ob =
      restarted (ob = f.ob ∧ sweptLeg db f.ob f.makerId f.takerId) (db.inferenceMarkets ob) := by
  rw [applyFilledDecrement, locked_swept, restarted]
  by_cases hob : ob = f.ob
  · subst hob
    cases sweptLeg db f.ob f.makerId f.takerId <;> simp [Db.setMarket, Db.updateOrders]
  · cases sweptLeg db f.ob f.makerId f.takerId <;> simp [Db.setMarket, Db.updateOrders, hob]

theorem inferenceMarkets_applyInferenceFilled (ob : Addr) :
    (applyInferenceFilled db f).1.inferenceMarkets ob =
      restarted (ob = f.ob ∧ bothLegs db f.ob f.makerId f.takerId ∧
        sweptLeg db f.ob f.makerId f.takerId) (db.inferenceMarkets ob) := by
  rw [applyInferenceFilled]
  simp only [legs_iff]
  by_cases hlegs : bothLegs db f.ob f.makerId f.takerId
  · simp only [hlegs, if_true, true_and, inferenceMarkets_recordTrade, books_linkDealFromFilled,
      inferenceMarkets_applyFilledDecrement]
  · simp [hlegs, restarted]

theorem inferenceMarkets_repairFilled (ob : Addr) :
    (repairFilled db f).inferenceMarkets ob =
      restarted (ob = f.ob ∧ sweptLeg db f.ob f.makerId f.takerId) (db.inferenceMarkets ob) := by
  rw [repairFilled]
  simp only [books_linkDealFromFilled, inferenceMarkets_recordTrade]
  split
  · rename_i hempty
    have hswept : sweptLeg db f.ob f.makerId f.takerId = false := by
      rw [← locked_swept, List.isEmpty_iff.mp hempty]
      rfl
    simp [hswept, restarted]
  · exact inferenceMarkets_applyFilledDecrement ob

theorem rowAction_of_fill? {ob : Addr} {legs : ℕ × ℕ} (h : m.fill? db ob = some legs) :
    ∃ ticks chainOrder chainSeconds, ∀ id, m.rowAction db ob id =
      if id = legs.1 ∨ id = legs.2 then .fill ticks chainOrder chainSeconds else .keep := by
  cases m with
  | project node event =>
    cases event with
    | InferenceFilled makerId takerId ticks clearingPrice sellerTC buyerNote =>
      simp only [Move.fill?] at h
      split at h
      · rename_i hlegs
        cases h
        refine ⟨ticks, node.chainOrder, node.createdAt, fun id => ?_⟩
        simp only [Move.rowAction, InferenceEvent.rowAction, hlegs.1, if_true]
        rw [← hlegs.1]
        simp only [hlegs.2, true_and]
      · cases h
    | _ => cases h
  | dropOrphan node event =>
    cases event with
    | InferenceFilled makerId takerId ticks clearingPrice sellerTC buyerNote =>
      simp only [Move.fill?] at h
      split at h
      · rename_i hob
        cases h
        refine ⟨ticks, node.chainOrder, node.createdAt, fun id => ?_⟩
        simp only [Move.rowAction, InferenceEvent.rowAction, hob, if_true, true_and]
      · cases h
    | _ => cases h
  | _ => cases h

theorem rowAction_ne_fill {ob : Addr} (h : m.fill? db ob = none) (id ticks chainOrder : ℕ)
    (chainSeconds : Option ℕ) :
    m.rowAction db ob id ≠ .fill ticks chainOrder chainSeconds := by
  have hkeep : RowAction.keep ≠ .fill ticks chainOrder chainSeconds := by simp
  have hite : ∀ (p : Prop) [Decidable p] (x : RowAction), x ≠ .fill ticks chainOrder chainSeconds →
      (if p then x else .keep) ≠ .fill ticks chainOrder chainSeconds := by
    intro p _ x hx
    split
    · exact hx
    · exact hkeep
  cases m with
  | project node event =>
    cases event with
    | InferenceFilled makerId takerId ticks' clearingPrice sellerTC buyerNote =>
      have hlegs : ¬ (ob = node.src ∧ bothLegs db ob makerId takerId) := by
        intro hlegs
        rw [Move.fill?, if_pos hlegs] at h
        cases h
      simp only [Move.rowAction, InferenceEvent.rowAction]
      split
      · rename_i hob
        rw [if_neg fun hl => hlegs ⟨hob, hl.1⟩]
        exact hkeep
      · exact hkeep
    | InferenceOrderPlaced => exact hite _ _ (hite _ _ (by simp))
    | InferenceSubscriptionPlaced => exact hite _ _ (hite _ _ (by simp))
    | InferenceOrderCancelled => exact hite _ _ (hite _ _ (by simp))
    | InferenceOrderExpired => exact hite _ _ (hite _ _ (by simp))
    | _ => exact hite _ _ hkeep
  | dropOrphan node event =>
    cases event with
    | InferenceFilled =>
      have hob : ob ≠ node.src := by
        intro hob
        rw [Move.fill?, if_pos hob] at h
        cases h
      simp only [Move.rowAction, if_neg hob]
      exact hkeep
    | _ => exact hkeep
  | provisionalCancel => exact hite _ _ (by simp)
  | repairFields => exact hite _ _ (by simp)
  | _ => exact hkeep

/-- Every move seeds at most its own market and restarts at most its sweep. -/
theorem step_market (ob : Addr) (h : step db m = some db') :
    db'.inferenceMarkets ob =
      restarted (m.overrides db ob) (m.seeded ob (db.inferenceMarkets ob)) := by
  cases m with
  | project node event =>
    cases h
    rw [Move.seeded, ← inferenceMarkets_seedMarketSkeleton]
    cases event with
    | InferenceFilled makerId takerId =>
      simp only [projectInferenceEvent, inferenceMarkets_applyInferenceFilled, Move.overrides,
        Move.fill?, FilledFields.parse, bothLegs_seedMarketSkeleton, sweptLeg,
        inferenceOrders_seedMarketSkeleton]
      by_cases hob : ob = node.src
      · subst hob
        by_cases hlegs : bothLegs db node.src makerId takerId <;> simp [hlegs]
      · simp [hob]
    | _ => exact congrFun (books_projectInferenceEvent node (by intros; simp)).2 ob
  | dropOrphan node event =>
    rw [step] at h
    split at h
    · rename_i db₁ hdb
      cases h
      rw [deferred_writes node hdb, Move.seeded, ← inferenceMarkets_seedMarketSkeleton]
      cases event with
      | InferenceFilled =>
        simp only [repairExpiredInferenceOrphan, inferenceMarkets_repairFilled, Move.overrides,
          Move.fill?, FilledFields.parse, sweptLeg, inferenceOrders_seedMarketSkeleton]
        by_cases hob : ob = node.src
        · subst hob
          simp
        · simp [hob]
      | _ => rfl
    · cases h
  | provisionalCancel =>
    cases h
    rfl
  | repairFields =>
    cases h
    rfl
  | deal node event =>
    cases h
    exact congrFun (books_projectTokenContractEvent node event).2 ob
  | dealClosed node deal =>
    cases h
    exact congrFun (books_applyInferenceDealClosed node deal).2 ob

end Markets

end ReadModel

end Dexdo
