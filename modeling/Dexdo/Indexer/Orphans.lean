import Dexdo.Indexer.Late

namespace Dexdo

namespace ReadModel

/-- A fill that waits for a leg whose placement was dropped. -/
structure Orphan where
  node : EventNode
  makerId : ℕ
  takerId : ℕ
  ticks : ℕ
  clearingPrice : ℕ
  sellerTC : Option Addr
  buyerNote : Option Addr

namespace Orphan

variable (f : Orphan)

def legs : List ℕ := [f.makerId, f.takerId]

def fields : FilledFields :=
  .parse f.node f.makerId f.takerId f.ticks f.clearingPrice f.sellerTC f.buyerNote

def event : InferenceEvent :=
  .InferenceFilled f.makerId f.takerId f.ticks f.clearingPrice f.sellerTC f.buyerNote

/-- Its projection at its own place in chain order, which is deferred. -/
def deferral : Move := .project f.node f.event

/-- Its repair on the leg that is there. -/
def repair : Move := .dropOrphan f.node f.event

/-- The move fills a swept order other than `id` in the book of the fill. -/
def fillsSwept (db : Db) (m : Move) (id : ℕ) : Prop :=
  ∃ legs ∈ m.fill? db f.node.src, ∃ id' ∈ [legs.1, legs.2],
    id' ≠ id ∧ swept (db.inferenceOrders f.node.src id')

/-- The repair can wait for the move: each leg that still takes the fill, the row of its deal and
the sweep of its book come out the same, and the move neither applies the same fill nor places a
leg again. -/
structure Waits (db : Db) (m : Move) : Prop where
  trade : m.tradeId db ≠ some f.node.chainOrder
  placed : ∀ id ∈ f.legs, m.placed ≠ some (f.node.src, id)
  rows : ∀ id ∈ f.legs, ∀ r ∈ db.inferenceOrders f.node.src id, r.takesFill →
    (m.rowAction db f.node.src id).Waits f.ticks r
  deal : ∀ tc ∈ f.sellerTC,
    (m.recordAction db tc).Waits f.fields (sellerNote db f.fields) (db.record tc)
  sweep : (∃ row ∈ db.inferenceMarkets f.node.src, row.lastReconciledAt.isSome) ∨
    ∀ id ∈ f.legs, ∀ r ∈ db.inferenceOrders f.node.src id, r.takesFill →
      (m.rowAction db f.node.src id).RestartsAlike r (f.fillsSwept db m id)

instance (db : Db) (m : Move) (id : ℕ) : Decidable (f.fillsSwept db m id) :=
  inferInstanceAs (Decidable (∃ legs ∈ _, ∃ id' ∈ _, _ ∧ _))

instance (db : Db) (m : Move) : Decidable (f.Waits db m) :=
  decidable_of_iff (_ ∧ _ ∧ _ ∧ _ ∧ _)
    ⟨fun ⟨h1, h2, h3, h4, h5⟩ => ⟨h1, h2, h3, h4, h5⟩,
      fun h => ⟨h.trade, h.placed, h.rows, h.deal, h.sweep⟩⟩

/-- The repair can wait for one move after the other. -/
def AllWait : Db → List Move → Prop
  | _, [] => True
  | db, m :: ms => f.Waits db m ∧ ∀ db' ∈ step db m, AllWait db' ms

instance AllWait.decidable : (db : Db) → (ms : List Move) → Decidable (f.AllWait db ms)
  | _, [] => .isTrue trivial
  | db, m :: ms =>
    have := fun db' => AllWait.decidable db' ms
    inferInstanceAs (Decidable (f.Waits db m ∧ ∀ db' ∈ step db m, f.AllWait db' ms))

end Orphan

section Repair

variable {db db' a b a' b' : Db} {f : Orphan} {m : Move} {ms : List Move}

theorem repair_isSome (h : ¬ bothLegs db f.node.src f.makerId f.takerId) :
    ∃ db', step db f.repair = some db' := by
  rw [← Option.isSome_iff_exists, Orphan.repair, dropOrphan_isSome, deferred_iff]
  exact h

theorem mem_legs {id : ℕ} : id ∈ f.legs ↔ id = f.makerId ∨ id = f.takerId := by
  simp [Orphan.legs]

theorem leg_row (h : step db f.repair = some db') (ob : Addr) (id : ℕ) :
    db'.inferenceOrders ob id = if ob = f.node.src ∧ id ∈ f.legs then
      (db.inferenceOrders ob id).map (·.filled f.ticks f.node.chainOrder f.node.createdAt)
      else db.inferenceOrders ob id := by
  rw [step_row ob id h]
  simp only [mem_legs]
  by_cases hob : ob = f.node.src
  · simp only [Orphan.repair, Orphan.event, Move.rowAction, InferenceEvent.rowAction, hob, if_true,
      true_and, RowAction.apply_ite]
    rfl
  · simp [Orphan.repair, Orphan.event, Move.rowAction, hob, RowAction.apply]

theorem repair_sameSides (h : step db f.repair = some db') : SameSides db' db := by
  intro ob id
  rw [leg_row h]
  split
  · rw [Option.map_map]
    congr 1
    funext o
    exact o.filled_party
  · rfl

/-- The legs that are there after a move are those that were there before. -/
theorem Orphan.Waits.party (hw : f.Waits db m) (h : step db m = some b) :
    ∀ id ∈ f.legs, (b.inferenceOrders f.node.src id).map (·.party) =
      (db.inferenceOrders f.node.src id).map (·.party) :=
  fun id hid => step_party h (hw.placed id hid)

theorem Orphan.Waits.orphan (hw : f.Waits db m) (h : step db m = some b) :
    bothLegs b f.node.src f.makerId f.takerId ↔ bothLegs db f.node.src f.makerId f.takerId := by
  have hmaker := isSome_of_party (hw.party h f.makerId (mem_legs.mpr (.inl rfl)))
  have htaker := isSome_of_party (hw.party h f.takerId (mem_legs.mpr (.inr rfl)))
  rw [bothLegs, bothLegs, hmaker, htaker]

theorem Orphan.Waits.notPlace (hw : f.Waits db m) {id : ℕ} (hid : id ∈ f.legs) :
    ¬ (m.rowAction db f.node.src id).isPlace :=
  fun hplace => hw.placed id hid (rowAction_isPlace hplace)

theorem orders_comm (hw : f.Waits db m) (ha : step db f.repair = some a) (hb : step db m = some b)
    (ha' : step a m = some a') (hb' : step b f.repair = some b') (ob : Addr) (id : ℕ) :
    a'.inferenceOrders ob id = b'.inferenceOrders ob id := by
  rw [step_row ob id ha', (repair_sameSides ha).rowAction_eq, leg_row ha, leg_row hb',
    step_row ob id hb]
  split
  · rename_i hleg
    obtain ⟨rfl, hid⟩ := hleg
    have hplace := hw.notPlace hid
    cases hr : db.inferenceOrders f.node.src id with
    | none =>
      cases hx : m.rowAction db f.node.src id with
      | place =>
        rw [hx] at hplace
        exact absurd trivial hplace
      | _ => rfl
    | some r =>
      rw [Option.map_some, RowAction.apply_some, RowAction.apply_some, Option.map_some]
      exact congrArg some (RowAction.Waits.comm hplace (hw.rows id hid r hr))
  · rfl

theorem trades_comm (hw : f.Waits db m) (ha : step db f.repair = some a) (hb : step db m = some b)
    (ha' : step a m = some a') (hb' : step b f.repair = some b') :
    a'.inferenceTrades = b'.inferenceTrades := by
  have hsame : f.repair.trade b = f.repair.trade db := by
    have hside : makerSide b f.node.src f.makerId f.takerId =
        makerSide db f.node.src f.makerId f.takerId :=
      makerSide_congr (hw.party hb _ (mem_legs.mpr (.inl rfl)))
        (hw.party hb _ (mem_legs.mpr (.inr rfl)))
    simp only [Orphan.repair, Orphan.event, Move.trade, hside]
  rw [step_trades ha', (repair_sameSides ha).trade_eq, step_trades ha, step_trades hb', hsame,
    step_trades hb]
  apply writeTrade?_comm
  rintro k t k' t' hk hk' rfl
  cases tradeId_of_trade hk
  exact hw.trade (tradeId_of_trade hk')

theorem repair_recordAction (tc : Addr) : f.repair.recordAction db tc =
    if f.sellerTC = some tc then .link f.fields (sellerNote db f.fields) else .keep := by
  simp only [Orphan.repair, Orphan.event, Move.recordAction, InferenceEvent.recordAction, true_and]
  rfl

theorem SameSides.recordAction_eq (h : SameSides a b) (m : Move) (tc : Addr) :
    m.recordAction a tc = m.recordAction b tc := by
  have hnote : sellerNote a = sellerNote b := funext fun f => sellerNote_congr fun id _ => h f.ob id
  cases m with
  | project node event =>
    cases event with
    | InferenceFilled =>
      simp only [Move.recordAction, InferenceEvent.recordAction, h.bothLegs_iff, hnote]
    | _ => rfl
  | dropOrphan node event =>
    cases event with
    | InferenceFilled =>
      simp only [Move.recordAction, InferenceEvent.recordAction, hnote]
    | _ => rfl
  | _ => rfl

/-- The fill that a move links is the one whose trade it writes. -/
theorem tradeId_of_link {tc : Addr} {g : FilledFields} {note : Option Addr}
    (h : m.recordAction db tc = .link g note) : m.tradeId db = some g.chainOrder := by
  have hlink : ∀ (p : Prop) [Decidable p] (f : FilledFields) (x : Option Addr),
      (if p then RecordAction.link f x else .keep) = .link g note → p ∧ f = g := by
    intro p _ f x hx
    split at hx
    · exact ⟨‹_›, (RecordAction.link.inj hx).1⟩
    · cases hx
  cases m with
  | project node event =>
    cases event with
    | InferenceFilled =>
      obtain ⟨⟨hlegs, -⟩, rfl⟩ := hlink _ _ _ h
      exact if_pos hlegs
    | InferenceOrderPlaced =>
      simp only [Move.recordAction, InferenceEvent.recordAction] at h
      split at h <;> cases h
    | _ => cases h
  | dropOrphan node event =>
    cases event with
    | InferenceFilled => exact congrArg (fun f => some f.chainOrder) (hlink _ _ _ h).2
    | _ => cases h
  | deal =>
    simp only [Move.recordAction] at h
    split at h <;> cases h
  | dealClosed =>
    simp only [Move.recordAction] at h
    split at h <;> cases h
  | _ => cases h

theorem record_comm (hw : f.Waits db m) (ha : step db f.repair = some a) (hb : step db m = some b)
    (ha' : step a m = some a') (hb' : step b f.repair = some b') (tc : Addr) :
    a'.record tc = b'.record tc := by
  have hnote : sellerNote b f.fields = sellerNote db f.fields :=
    sellerNote_congr (f := f.fields) (hw.party hb)
  rw [step_record tc ha', (repair_sameSides ha).recordAction_eq, step_record tc ha,
    step_record tc hb', step_record tc hb, repair_recordAction, repair_recordAction, hnote]
  split
  · rename_i htc
    apply RecordAction.Waits.comm (hw.deal tc htc)
    intro g note hlink hco
    exact hw.trade ((tradeId_of_link hlink).trans (congrArg some hco))
  · rfl

theorem repair_fill? (ob : Addr) :
    f.repair.fill? db ob = if ob = f.node.src then some (f.makerId, f.takerId) else none := rfl

theorem SameSides.fill?_eq (h : SameSides a b) (m : Move) (ob : Addr) :
    m.fill? a ob = m.fill? b ob := by
  cases m with
  | project node event =>
    cases event with
    | InferenceFilled =>
      simp only [Move.fill?, h.bothLegs_iff]
    | _ => rfl
  | dropOrphan node event => cases event <;> rfl
  | _ => rfl

/-- Two legs that are there are one, as the other leg of an orphan is missing. -/
theorem leg_unique (h : ¬ bothLegs db f.node.src f.makerId f.takerId) {id id' : ℕ}
    (hid : id ∈ f.legs) (hid' : id' ∈ f.legs) (hr : (db.inferenceOrders f.node.src id).isSome)
    (hr' : (db.inferenceOrders f.node.src id').isSome) : id = id' := by
  rcases mem_legs.mp hid with rfl | rfl
  · rcases mem_legs.mp hid' with rfl | rfl
    · rfl
    · exact absurd ⟨hr, hr'⟩ h
  · rcases mem_legs.mp hid' with rfl | rfl
    · exact absurd ⟨hr', hr⟩ h
    · rfl

/-- The move fills a leg that the repair would uncover from a cancel of the sweep. -/
def Orphan.shares (f : Orphan) (db : Db) (m : Move) : Prop :=
  ∃ id ∈ f.legs, ∃ legs ∈ m.fill? db f.node.src, id ∈ [legs.1, legs.2] ∧
    ∃ r ∈ db.inferenceOrders f.node.src id, r.takesFill ∧ r.sweptAt.isSome

theorem swept_of_filled {o : Option InferenceOrder} {ticks chainOrder : ℕ}
    {chainSeconds : Option ℕ} (h : ∀ r ∈ o, ¬ (r.takesFill ∧ r.sweptAt.isSome)) :
    swept (o.map (·.filled ticks chainOrder chainSeconds)) = swept o := by
  cases o with
  | none => rfl
  | some r =>
    have hr := h r rfl
    rw [Bool.eq_iff_iff]
    have hf := @RowAction.swept_filled ticks chainOrder chainSeconds r
    simp only [swept, Option.map_some, Option.any_some]
    rw [hf]
    tauto

/-- When nothing is shared, the repair and the move each see the same swept legs in either order. -/
theorem overrides_apart (hw : f.Waits db m) (hsweep : ∀ id ∈ f.legs,
      ∀ r ∈ db.inferenceOrders f.node.src id, r.takesFill →
        (m.rowAction db f.node.src id).RestartsAlike r (f.fillsSwept db m id))
    (hshare : ¬ f.shares db m) (ha : step db f.repair = some a) (hb : step db m = some b) :
    m.overrides a f.node.src = m.overrides db f.node.src ∧
      f.repair.overrides b f.node.src = f.repair.overrides db f.node.src := by
  have hkept : ∀ id ∈ f.legs, ∀ legs, m.fill? db f.node.src = some legs → id ∈ [legs.1, legs.2] →
      ∀ r ∈ db.inferenceOrders f.node.src id, ¬ (r.takesFill ∧ r.sweptAt.isSome) :=
    fun id hid legs hfill hmem r hr h => hshare ⟨id, hid, legs, hfill, hmem, r, hr, h⟩
  constructor
  · rw [Move.overrides, Move.overrides, (repair_sameSides ha).fill?_eq]
    cases hfill : m.fill? db f.node.src with
    | none => rfl
    | some legs =>
      have hrow : ∀ id ∈ [legs.1, legs.2], swept (a.inferenceOrders f.node.src id) =
          swept (db.inferenceOrders f.node.src id) := by
        intro id hmem
        rw [leg_row ha]
        split
        · rename_i hleg
          exact swept_of_filled (hkept id hleg.2 legs hfill hmem)
        · rfl
      simp only [Option.any_some, sweptLeg, hrow legs.1 (by simp), hrow legs.2 (by simp)]
  · have hrow : ∀ id ∈ f.legs, swept (b.inferenceOrders f.node.src id) =
        swept (db.inferenceOrders f.node.src id) := by
      intro id hid
      have hplace := hw.notPlace hid
      rw [step_row f.node.src id hb]
      cases hfill : m.fill? db f.node.src with
      | none =>
        have hne := rowAction_ne_fill hfill id
        cases hr : db.inferenceOrders f.node.src id with
        | none =>
          have hp := hw.party hb id hid
          rw [step_row f.node.src id hb, hr] at hp
          have hnone := Option.map_eq_none_iff.mp hp
          rw [hnone]
        | some r =>
          rw [RowAction.apply_some]
          exact RowAction.swept_act hplace hne (hw.rows id hid r hr) (hsweep id hid r hr)
      | some legs =>
        obtain ⟨ticks, chainOrder, chainSeconds, hact⟩ := rowAction_of_fill? hfill
        rw [hact]
        split
        · rename_i hmem
          exact swept_of_filled (hkept id hid legs hfill (by simpa using hmem))
        · rfl
    simp only [Move.overrides, repair_fill?, if_true, Option.any_some, sweptLeg,
      hrow f.makerId (mem_legs.mpr (.inl rfl)), hrow f.takerId (mem_legs.mpr (.inr rfl))]

/-- When a swept leg is shared, only the first of the two overrides its cancel. -/
theorem overrides_shared (horphan : ¬ bothLegs db f.node.src f.makerId f.takerId)
    (hw : f.Waits db m) (hsweep : ∀ id ∈ f.legs,
      ∀ r ∈ db.inferenceOrders f.node.src id, r.takesFill →
        (m.rowAction db f.node.src id).RestartsAlike r (f.fillsSwept db m id))
    (hshare : f.shares db m) (ha : step db f.repair = some a) (hb : step db m = some b) :
    (f.repair.overrides db f.node.src = true ∧ m.overrides a f.node.src = false) ∧
      m.overrides db f.node.src = true ∧ f.repair.overrides b f.node.src = false := by
  obtain ⟨id, hid, legs, hfill, hmem, r, hr, htakes, hswept⟩ := hshare
  obtain ⟨ticks, chainOrder, chainSeconds, hact⟩ := rowAction_of_fill? hfill
  have hmem' : id = legs.1 ∨ id = legs.2 := by simpa using hmem
  have honly : ∀ id' ∈ f.legs, (db.inferenceOrders f.node.src id').isSome → id' = id :=
    fun id' hid' hr' => leg_unique horphan hid' hid hr' (by rw [Option.mem_def.mp hr]; rfl)
  have hcovered : ∀ {t k s} {o : InferenceOrder}, r.filled t k s = o → ¬ o.sweptAt.isSome := by
    rintro t k s o rfl hs
    exact ((RowAction.swept_filled r).mp hs).1 htakes
  refine ⟨⟨?_, ?_⟩, ?_, ?_⟩
  · simp only [Move.overrides, repair_fill?, if_true, Option.any_some]
    exact sweptLeg_iff.mpr ⟨id, mem_legs.mp hid, r, hr, hswept⟩
  · rw [Move.overrides, (repair_sameSides ha).fill?_eq, hfill, Option.any_some,
      Bool.eq_false_iff]
    intro hsw
    obtain ⟨id', hid', o, ho, hs⟩ := sweptLeg_iff.mp hsw
    rw [leg_row ha] at ho
    by_cases hne : id' = id
    · subst hne
      rw [if_pos ⟨rfl, hid⟩, hr, Option.map_some] at ho
      exact hcovered (Option.some.inj ho) hs
    · have hother : id' ∉ f.legs := by
        intro hleg
        rw [if_pos ⟨rfl, hleg⟩] at ho
        obtain ⟨q, hq, -⟩ := Option.map_eq_some_iff.mp ho
        exact hne (honly id' hleg (by rw [hq]; rfl))
      rw [if_neg fun h => hother h.2] at ho
      have hrestart := hsweep id hid r hr htakes
      rw [hact, if_pos hmem'] at hrestart
      exact hrestart ⟨hswept, legs, hfill, id', by simpa using hid', hne, by simpa [swept, ho]⟩
  · rw [Move.overrides, hfill, Option.any_some]
    exact sweptLeg_iff.mpr ⟨id, hmem', r, hr, hswept⟩
  · simp only [Move.overrides, repair_fill?, if_true, Option.any_some]
    rw [Bool.eq_false_iff]
    intro hsw
    obtain ⟨id', hid', o, ho, hs⟩ := sweptLeg_iff.mp hsw
    have hleg := mem_legs.mpr hid'
    have hthere := isSome_of_party (hw.party hb id' hleg)
    rw [ho] at hthere
    obtain rfl := honly id' hleg hthere.symm
    rw [step_row f.node.src id' hb, hact, if_pos hmem', hr] at ho
    exact hcovered (Option.some.inj ho) hs

theorem market_comm (horphan : ¬ bothLegs db f.node.src f.makerId f.takerId)
    (hrow : (db.inferenceMarkets f.node.src).isSome) (hw : f.Waits db m)
    (ha : step db f.repair = some a) (hb : step db m = some b)
    (ha' : step a m = some a') (hb' : step b f.repair = some b') (ob : Addr) :
    a'.inferenceMarkets ob = b'.inferenceMarkets ob := by
  rw [step_market ob ha', step_market ob ha, step_market ob hb', step_market ob hb]
  by_cases hob : ob = f.node.src
  · subst hob
    obtain ⟨row, hrow⟩ := Option.isSome_iff_exists.mp hrow
    have hseeded : ∀ (m : Move) row, m.seeded f.node.src (some row) = some row := by
      intro m row
      cases m <;> simp [Move.seeded]
    have hsome : ∀ p row, restarted p (some row) = some (if p then resetSweep row else row) := by
      intro p row
      cases p <;> rfl
    rw [hrow]
    simp only [hseeded, hsome, Option.some.injEq]
    rcases hw.sweep with ⟨row', hrow', hdone⟩ | hsweep
    · have hkeep : resetSweep row = row := by
        obtain rfl : row = row' := Option.some.inj (hrow.symm.trans hrow')
        exact if_neg (Option.isSome_iff_ne_none.mp hdone)
      simp only [hkeep, ite_self]
    · by_cases hshare : f.shares db m
      · obtain ⟨⟨h1, h2⟩, h3, h4⟩ := overrides_shared horphan hw hsweep hshare ha hb
        simp [h1, h2, h3, h4]
      · obtain ⟨h1, h2⟩ := overrides_apart hw hsweep hshare ha hb
        rw [h1, h2]
        cases m.overrides db f.node.src <;> cases f.repair.overrides db f.node.src <;> rfl
  · have hnone : ∀ c, f.repair.overrides c ob = false := by
      intro c
      rw [Move.overrides, repair_fill?, if_neg hob]
      rfl
    have hkeep : ∀ row, f.repair.seeded ob row = row := fun row => if_neg hob
    have hsame : m.overrides a ob = m.overrides db ob := by
      have hrow : ∀ id, a.inferenceOrders ob id = db.inferenceOrders ob id :=
        fun id => (leg_row ha ob id).trans (if_neg fun h => hob h.1)
      simp only [Move.overrides, (repair_sameSides ha).fill?_eq, sweptLeg, hrow]
    rw [hnone, hnone, hkeep, hkeep, hsame]
    rfl

theorem Db.eq_of_rows {a b : Db} (hmarkets : ∀ ob, a.inferenceMarkets ob = b.inferenceMarkets ob)
    (horders : ∀ ob id, a.inferenceOrders ob id = b.inferenceOrders ob id)
    (htrades : a.inferenceTrades = b.inferenceTrades) (hrecords : ∀ tc, a.record tc = b.record tc) :
    a = b := by
  obtain ⟨markets, orders, trades, deals, ticks⟩ := a
  obtain ⟨markets', orders', trades', deals', ticks'⟩ := b
  obtain rfl : markets = markets' := funext hmarkets
  obtain rfl : orders = orders' := funext fun ob => funext fun id => horders ob id
  obtain rfl : trades = trades' := htrades
  obtain rfl : deals = deals' := funext fun tc => congrArg DealRecord.row (hrecords tc)
  obtain rfl : ticks = ticks' := funext fun tc => congrArg DealRecord.ticks (hrecords tc)
  rfl

/-- The repair changes places with a move for which it can wait. -/
theorem step_comm (horphan : ¬ bothLegs db f.node.src f.makerId f.takerId)
    (hrow : (db.inferenceMarkets f.node.src).isSome) (hw : f.Waits db m) :
    ((step db f.repair).bind fun a => step a m) =
      (step db m).bind fun b => step b f.repair := by
  obtain ⟨a, ha⟩ := repair_isSome horphan
  have hsome := (repair_sameSides ha).step_isSome m
  rw [ha, Option.bind_some]
  cases hb : step db m with
  | none =>
    rw [hb] at hsome
    exact Option.not_isSome_iff_eq_none.mp fun h => by simp [h] at hsome
  | some =>
    rw [hb] at hsome
    obtain ⟨a', ha'⟩ := Option.isSome_iff_exists.mp (hsome.mpr rfl)
    obtain ⟨b', hb'⟩ := repair_isSome (f := f) (mt (hw.orphan hb).mp horphan)
    rw [ha', Option.bind_some, hb']
    exact congrArg some (Db.eq_of_rows (market_comm horphan hrow hw ha hb ha' hb')
      (orders_comm hw ha hb ha' hb') (trades_comm hw ha hb ha' hb')
      (record_comm hw ha hb ha' hb'))

theorem step_seeded (h : step db m = some b) {ob : Addr} (hrow : (db.inferenceMarkets ob).isSome) :
    (b.inferenceMarkets ob).isSome := by
  rw [step_market ob h, restarted]
  have hseeded : (m.seeded ob (db.inferenceMarkets ob)).isSome := by
    cases m with
    | project =>
      simp only [Move.seeded]
      split
      · rfl
      · exact hrow
    | dropOrphan =>
      simp only [Move.seeded]
      split
      · rfl
      · exact hrow
    | _ => exact hrow
  split
  · rw [Option.isSome_map]
    exact hseeded
  · exact hseeded

/-- The repair moves past a list of moves for which it can wait, one after the other. -/
theorem run_comm (horphan : ¬ bothLegs db f.node.src f.makerId f.takerId)
    (hrow : (db.inferenceMarkets f.node.src).isSome) (hwait : f.AllWait db ms) (post : List Move) :
    run db (f.repair :: (ms ++ post)) = run db (ms ++ f.repair :: post) := by
  induction ms generalizing db with
  | nil => rfl
  | cons m ms ih =>
    obtain ⟨hw, hrest⟩ := hwait
    have hswap : run db (f.repair :: m :: (ms ++ post)) = run db (m :: f.repair :: (ms ++ post)) := by
      simp only [run_cons]
      rw [← Option.bind_assoc, step_comm horphan hrow hw, Option.bind_assoc]
    rw [List.cons_append, List.cons_append, hswap, run_cons, run_cons]
    cases hb : step db m with
    | none => rfl
    | some b =>
      exact ih (mt (hw.orphan hb).mp horphan) (step_seeded hb hrow) (hrest b hb)

/-- A deferred fill has only seeded its market. -/
theorem step_deferral (horphan : ¬ bothLegs db f.node.src f.makerId f.takerId) :
    step db f.deferral = some (seedMarketSkeleton db f.node) := by
  have hdeferred : (projectInferenceEvent db f.node f.event).2 = .Deferred :=
    (deferred_iff f.node f.event).mpr horphan
  exact congrArg some (deferred_writes f.node (Prod.ext rfl hdeferred))

theorem seedMarketSkeleton_idem (node : EventNode) :
    seedMarketSkeleton (seedMarketSkeleton db node) node = seedMarketSkeleton db node := by
  cases h : db.inferenceMarkets node.src with
  | none => simp [seedMarketSkeleton, h, Db.setMarket]
  | some => simp [seedMarketSkeleton, h]

theorem step_repair_seeded :
    step (seedMarketSkeleton db f.node) f.repair = step db f.repair := by
  have hsame : projectInferenceEvent (seedMarketSkeleton db f.node) f.node f.event =
      projectInferenceEvent db f.node f.event := by
    simp only [projectInferenceEvent, seedMarketSkeleton_idem]
  simp only [Orphan.repair, step, hsame]

/-- All tables come out the same whether an orphaned fill is applied to its leg at its own place or
is deferred there and repaired after any moves for which its repair can wait. -/
theorem orphan_repair_waits (horphan : ¬ bothLegs db f.node.src f.makerId f.takerId)
    (hwait : f.AllWait (seedMarketSkeleton db f.node) ms) (post : List Move) :
    run db (f.repair :: (ms ++ post)) = run db (f.deferral :: (ms ++ f.repair :: post)) := by
  have hseeded : ((seedMarketSkeleton db f.node).inferenceMarkets f.node.src).isSome := by
    rw [inferenceMarkets_seedMarketSkeleton, if_pos rfl]
    rfl
  have horphan' : ¬ bothLegs (seedMarketSkeleton db f.node) f.node.src f.makerId f.takerId := by
    rw [bothLegs_seedMarketSkeleton]
    exact horphan
  rw [run_cons (m := f.deferral), step_deferral horphan, Option.bind_some,
    ← run_comm horphan' hseeded hwait, run_cons, run_cons, step_repair_seeded]

end Repair

section Runs

/-- A bid of 10 ticks. -/
def bid : Move :=
  .project ⟨.ext 7, 1, some 100⟩ (.InferenceOrderPlaced 1 true 5 10 (.note 1) ZERO_ADDRESS 500)

/-- Four of them were taken by an order whose placement was dropped. -/
def bidFill : Orphan := ⟨⟨.ext 7, 2, some 200⟩, 1, 2, 4, 5, some (.deal 1 1), some (.note 1)⟩

/-- The fill is tried once more, its deal is funded and opened, and another offer takes the rest of
the bid. -/
def bidMoves : List Move :=
  [bidFill.deferral,
    .deal ⟨.deal 1 1, 3, some 210⟩ (.StreamFunded (.note 1) 20),
    .deal ⟨.deal 1 1, 4, some 220⟩ (.StreamOpened (.note 1) 5),
    .project ⟨.ext 7, 5, some 230⟩
      (.InferenceOrderPlaced 3 false 5 6 (.note 2) (.deal 2 1) 500),
    .project ⟨.ext 7, 6, some 230⟩ (.InferenceFilled 1 3 6 5 (some (.deal 2 1)) (some (.note 1)))]

theorem orphan_repair_sample :
    ∃ db, run Db.empty [bid] = some db ∧ ∀ post,
      run db (bidFill.repair :: (bidMoves ++ post)) =
        run db (bidFill.deferral :: (bidMoves ++ bidFill.repair :: post)) :=
  ⟨_, rfl, orphan_repair_waits (by decide) (by decide)⟩

def bidExpiry : Move := .project ⟨.ext 7, 3, some 600⟩ (.InferenceOrderExpired 1)

/-- The bid has expired with 6 ticks left; a repair after its expiry shows it as open. -/
theorem repair_after_expiry :
    ∃ db, run Db.empty [bid] = some db ∧ ¬ bothLegs db bidFill.node.src 1 2 ∧
      ¬ ∀ post, run db (bidFill.repair :: ([bidExpiry] ++ post)) =
        run db (bidFill.deferral :: ([bidExpiry] ++ bidFill.repair :: post)) := by
  refine ⟨_, rfl, by decide, fun h => ?_⟩
  have hstatus := congrArg
    (Option.map fun db => (db.inferenceOrders (.ext 7) 1).map (·.status)) (h [])
  revert hstatus
  decide

end Runs

end ReadModel

end Dexdo
