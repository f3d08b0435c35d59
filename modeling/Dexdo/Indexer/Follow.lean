import Dexdo.Indexer.Funding

namespace Dexdo

namespace ReadModel

/-- The columns of a deal's row that belong to its funding cycle. -/
def InferenceDeal.cycle (d : InferenceDeal) : Cycle where
  buyer := d.buyerNote
  deposit := d.deposit
  fundedAt := d.fundedAtChain
  price := d.pricePerTick
  openedAt := d.openedAtChain
  disputedAt := d.disputedAtChain
  settledAt := d.settledAtChain
  closeKind := d.closeKind
  clean := d.cleanSettlement
  ticks := d.finalizedTicks

/-- The cycle a record shows; without a row it shows none. -/
def DealRecord.cycle (r : DealRecord) : Cycle := (r.row.map InferenceDeal.cycle).getD .empty

section Orders

variable {db : Db} {log : List Entry} {tc : Addr} {stamp : ℕ → Option ℕ}

/-- The order rows of a log: one for each order placed, and an ask for each offer. -/
structure Listed (log : List Entry) (db : Db) : Prop where
  placed : ∀ ob id, (ob, id) ∈ placedOrders log ↔ (db.inferenceOrders ob id).isSome
  noted : ∀ ob id o, db.inferenceOrders ob id = some o → o.noteAddress.isSome
  asks : ∀ ob id, (ob, id) ∈ offers log → ∃ o, db.inferenceOrders ob id = some o ∧ o.isBuy = false

theorem placedOrders_concat (e : Entry) :
    placedOrders (log ++ [e]) = placedOrders log ++ e.placed.toList := by
  unfold placedOrders
  rw [List.filterMap_append]
  cases h : e.placed <;> simp [h]

theorem mem_offers_concat {x : Addr × ℕ} {e : Entry} : x ∈ offers (log ++ [e]) ↔
    x ∈ offers log ∨ ∃ p n note dl, e = .offered x.1 x.2 p n note dl := by
  unfold offers
  rw [List.filterMap_append, List.mem_append]
  refine or_congr_right ?_
  cases e with
  | offered ob id p n note dl =>
    simp only [List.filterMap_cons, List.filterMap_nil, List.mem_singleton]
    constructor
    · rintro rfl
      exact ⟨p, n, note, dl, rfl⟩
    · rintro ⟨_, _, _, _, he⟩
      cases he
      rfl
  | _ => simp

variable (tc stamp) (k : ℕ) in
/-- The row an order is given when it is placed. -/
theorem placed_row {e : Entry} {ob : Addr} {id : ℕ} (he : e.placed = some (ob, id))
    (hnew : db.inferenceOrders ob id = none) :
    ∃ o, (e.project tc stamp k db).inferenceOrders ob id = some o ∧ o.noteAddress.isSome ∧
      ((∃ p n note dl, e = .offered ob id p n note dl) → o.isBuy = false) := by
  have hrow : ∀ x, (e.move tc stamp k).rowAction db ob id = .place x →
      (e.project tc stamp k db).inferenceOrders ob id = some x := by
    intro x hx
    rw [step_row ob id (e.step_move tc stamp k db), hx, hnew]
    rfl
  cases e with
  | offered ob' id' p n note dl =>
    cases he
    refine ⟨.resting false p n false note (nonZeroAddress tc) (nonZeroUint dl) ⟨ob, k, stamp k⟩,
      hrow _ ?_, rfl, fun _ => rfl⟩
    simp [Entry.move, Move.rowAction, InferenceEvent.rowAction]
  | book ob' e =>
    cases e with
    | InferenceOrderPlaced id' isBuy p n note c dl =>
      cases he
      refine ⟨.resting isBuy p n false note (nonZeroAddress c) (nonZeroUint dl) ⟨ob, k, stamp k⟩,
        hrow _ ?_, rfl, fun h => ?_⟩
      · simp [Entry.move, Move.rowAction, InferenceEvent.rowAction]
      · obtain ⟨_, _, _, _, h⟩ := h
        cases h
    | InferenceSubscriptionPlaced id' p n note =>
      cases he
      refine ⟨.resting true p n true note none none ⟨ob, k, stamp k⟩, hrow _ ?_, rfl, fun h => ?_⟩
      · simp [Entry.move, Move.rowAction, InferenceEvent.rowAction]
      · obtain ⟨_, _, _, _, h⟩ := h
        cases h
    | _ => cases he
  | _ => cases he

variable (db tc stamp) (k : ℕ) in
theorem kept_row {e : Entry} {ob : Addr} {id : ℕ} (he : e.placed ≠ some (ob, id)) :
    (db.inferenceOrders ob id = none → (e.project tc stamp k db).inferenceOrders ob id = none) ∧
    ∀ o, db.inferenceOrders ob id = some o → ∃ o',
      (e.project tc stamp k db).inferenceOrders ob id = some o' ∧ RowAction.SameOrder o o' := by
  have hrow := step_row ob id (e.step_move tc stamp k db)
  have ha : ¬ ((e.move tc stamp k).rowAction db ob id).isPlace := by
    intro hp
    exact he ((e.placed_move tc stamp k).symm.trans (rowAction_isPlace hp))
  constructor
  · intro hn
    rw [hrow, hn]
    generalize (e.move tc stamp k).rowAction db ob id = a at ha
    cases a with
    | place => exact absurd trivial ha
    | _ => rfl
  · intro o ho
    rw [hrow, ho, RowAction.apply_some]
    exact ⟨_, rfl, RowAction.act_sameOrder ha o⟩

theorem listed_concat (h : Listed log db) {e : Entry} (he : ∀ x ∈ e.placed, x ∉ placedOrders log)
    (k : ℕ) : Listed (log ++ [e]) (e.project tc stamp k db) := by
  have hnew : ∀ {ob id}, e.placed = some (ob, id) → db.inferenceOrders ob id = none := by
    intro ob id hp
    by_contra hn
    exact he _ hp ((h.placed ob id).mpr (Option.isSome_iff_ne_none.mpr hn))
  constructor
  · intro ob id
    rw [placedOrders_concat, List.mem_append, Option.mem_toList]
    by_cases hp : e.placed = some (ob, id)
    · obtain ⟨o, ho, -⟩ := placed_row tc stamp k hp (hnew hp)
      simp [hp, ho]
    · rw [h.placed]
      obtain ⟨h0, h1⟩ := kept_row db tc stamp k hp
      cases ho : db.inferenceOrders ob id with
      | none => simp [hp, h0 ho]
      | some o =>
        obtain ⟨o', ho', -⟩ := h1 o ho
        simp [ho']
  · intro ob id o ho
    by_cases hp : e.placed = some (ob, id)
    · obtain ⟨o', ho', hnote, -⟩ := placed_row tc stamp k hp (hnew hp)
      cases ho.symm.trans ho'
      exact hnote
    · obtain ⟨h0, h1⟩ := kept_row db tc stamp k hp
      cases hd : db.inferenceOrders ob id with
      | none => exact absurd ((h0 hd).symm.trans ho) (by simp)
      | some p =>
        obtain ⟨o', ho', hs⟩ := h1 p hd
        cases ho.symm.trans ho'
        rw [hs.noteAddress]
        exact h.noted ob id p hd
  · intro ob id hmem
    rcases mem_offers_concat.mp hmem with hmem | ⟨p, n, note, dl, rfl⟩
    · obtain ⟨o, ho, hask⟩ := h.asks ob id hmem
      have hp : e.placed ≠ some (ob, id) := fun hp =>
        absurd ((hnew hp).symm.trans ho) (by simp)
      obtain ⟨o', ho', hs⟩ := (kept_row db tc stamp k hp).2 o ho
      exact ⟨o', ho', hs.isBuy.trans hask⟩
    · have hp : (Entry.offered ob id p n note dl).placed = some (ob, id) := rfl
      obtain ⟨o, ho, -, hask⟩ := placed_row tc stamp k hp (hnew hp)
      exact ⟨o, ho, hask ⟨p, n, note, dl, rfl⟩⟩

theorem Tale.listed (h : Tale tc stamp log) : Listed log (project tc stamp log) := by
  induction h with
  | nil =>
    refine ⟨fun ob id => ?_, fun ob id o ho => ?_, fun ob id hm => ?_⟩
    · exact ⟨fun hm => absurd hm List.not_mem_nil, fun hs => by cases hs⟩
    · cases ho
    · exact absurd hm List.not_mem_nil
  | concat _ he ih =>
    rw [project_concat]
    exact listed_concat ih he.1 _

end Orders

/-- A record shows a cycle, and everything in it is older than chain order `n`. -/
structure Shown (r : DealRecord) (n : ℕ) (c : Cycle) : Prop where
  cycle : r.cycle = c
  ticks : r.ticks.length = c.ticks
  rowSeen : ∀ d ∈ r.row, ∀ last ∈ d.lastChainOrder, last < n
  tickSeen : ∀ t ∈ r.ticks, t.chainOrder < n

namespace Shown

variable {r : DealRecord} {n : ℕ} {c : Cycle} {d : InferenceDeal} {tc : Addr} {at' : Option ℕ}

theorem later (h : Shown r n c) : Shown r (n + 1) c where
  cycle := h.cycle
  ticks := h.ticks
  rowSeen := fun d hd last hl => Nat.lt_succ_of_lt (h.rowSeen d hd last hl)
  tickSeen := fun t ht => Nat.lt_succ_of_lt (h.tickSeen t ht)

theorem seeded (h : Shown r n c) : Shown r.seeded n c ∧ ∃ d, r.seeded.row = some d ∧ d.cycle = c := by
  obtain ⟨row, ticks⟩ := r
  cases row with
  | none => exact ⟨⟨h.cycle, h.ticks, by rintro d ⟨⟩ _ ⟨⟩, h.tickSeen⟩, _, rfl, h.cycle⟩
  | some d => exact ⟨h, d, rfl, h.cycle⟩

theorem news (h : Shown r n c) (hd : r.row = some d) : d.isNews n := fun last hl =>
  h.rowSeen d hd last hl

theorem map (h : Shown r n c) (hd : r.row = some d) {f : InferenceDeal → InferenceDeal} {c' : Cycle}
    (hc : (f d).cycle = c') (hticks : c'.ticks = c.ticks)
    (hlast : ∀ last ∈ (f d).lastChainOrder, last ∈ d.lastChainOrder ∨ last = n) :
    Shown (r.map f) (n + 1) c' := by
  have hrow : (r.map f).row = some (f d) := congrArg (Option.map f) hd
  constructor
  · unfold DealRecord.cycle
    rw [hrow]
    exact hc
  · exact h.ticks.trans hticks.symm
  · intro x hx last hl
    cases hrow.symm.trans hx
    rcases hlast last hl with hl | rfl
    · exact Nat.lt_succ_of_lt (h.rowSeen d hd last hl)
    · exact Nat.lt_succ_self _
  · exact fun t ht => Nat.lt_succ_of_lt (h.tickSeen t ht)

theorem endCycle (h : Shown r n c) (hc : c.deposit = none → c = .empty) :
    Shown (r.endCycle n) (n + 1) .empty := by
  cases hr : r.row with
  | none =>
    have hempty : c = .empty := by
      rw [← h.cycle, DealRecord.cycle, hr]
      rfl
    unfold DealRecord.endCycle
    rw [hr, ← hempty]
    exact h.later
  | some d =>
    have hdc : d.cycle = c := by
      rw [← h.cycle, DealRecord.cycle, hr]
      rfl
    unfold DealRecord.endCycle
    simp only [hr]
    split
    · refine ⟨rfl, rfl, ?_, fun t ht => absurd ht List.not_mem_nil⟩
      rintro x ⟨⟩ last ⟨⟩
      exact Nat.lt_succ_self _
    · rename_i hn
      have hnone : d.deposit = none := by
        by_contra hs
        exact hn ⟨Option.isSome_iff_ne_none.mpr hs, h.news hr⟩
      rw [← hc ((congrArg Cycle.deposit hdc).symm.trans hnone)]
      exact h.later

theorem endCycle_unfunded (h : Shown r n c) (hc : c.deposit = none) (k : ℕ) : r.endCycle k = r := by
  cases hr : r.row with
  | none => simp only [DealRecord.endCycle, hr]
  | some d =>
    have hdc : d.cycle = c := by
      rw [← h.cycle, DealRecord.cycle, hr]
      rfl
    have hdep : d.deposit = none := (congrArg Cycle.deposit hdc).trans hc
    simp only [DealRecord.endCycle, hr, hdep]
    rfl

theorem last_greatest {x : Option ℕ} {last : ℕ} (h : last ∈ greatest x (some n)) :
    last ∈ x ∨ last = n := by
  cases x with
  | none => exact .inr (Option.some.inj h).symm
  | some y =>
    have hl : max y n = last := Option.some.inj h
    rcases le_total y n with hle | hle
    · rw [max_eq_right hle] at hl
      exact .inr hl.symm
    · rw [max_eq_left hle] at hl
      exact .inl (congrArg some hl)

/-- What the deal tells of its cycle is what the record takes over. -/
theorem told (h : Shown r n c) {e : DealEvent} (he : c.admits e) :
    Shown (r.told ⟨tc, n, at'⟩ e.logged) (n + 1) (c.after at' e) := by
  obtain ⟨hs, d, hd, hdc⟩ := h.seeded
  subst hdc
  cases e with
  | streamFunded =>
    obtain ⟨hb, hdep, hat⟩ := he
    change Shown ((r.seeded.endCycle n).map _) _ _
    rw [hs.endCycle_unfunded hdep]
    apply hs.map hd
    · simp only [InferenceDeal.cycle] at hb hdep hat
      simp [InferenceDeal.cycle, InferenceDeal.funded, Cycle.after, hb, hdep, hat]
    · rfl
    · exact fun last hl => last_greatest hl
  | streamOpened =>
    obtain ⟨hb, hp, hat⟩ := he
    apply hs.map hd
    · simp only [InferenceDeal.cycle] at hb hp hat
      obtain ⟨b, hb⟩ := Option.isSome_iff_exists.mp hb
      simp [InferenceDeal.cycle, InferenceDeal.opened, Cycle.after, hb, hp, hat]
    · rfl
    · exact fun last hl => .inl hl
  | tickFinalized =>
    change Shown (r.seeded.finalized _ _ _) _ _
    unfold DealRecord.finalized
    rw [if_neg fun ⟨t, ht, heq⟩ => absurd heq (hs.tickSeen t ht).ne]
    constructor
    · unfold DealRecord.cycle
      rw [hd]
      rfl
    · rw [List.length_append, hs.ticks]
      rfl
    · rw [hd]
      rintro x ⟨⟩ last hl
      exact Nat.lt_succ_of_lt (hs.rowSeen d hd last hl)
    · intro t ht
      rcases List.mem_append.mp ht with ht | ht
      · exact Nat.lt_succ_of_lt (hs.tickSeen t ht)
      · obtain rfl := List.mem_singleton.mp ht
        exact Nat.lt_succ_self n
  | ticksClaimed =>
    apply hs.map hd
    · rfl
    · rfl
    · exact fun last hl => last_greatest hl
  | streamStopped =>
    obtain ⟨hk, hat, hclean⟩ := he
    apply hs.map hd
    · simp only [InferenceDeal.cycle] at hk hat hclean
      simp [InferenceDeal.cycle, InferenceDeal.closed, Cycle.after, hk, hat, hclean]
    · rfl
    · exact fun last hl => .inl hl
  | disputeResolved =>
    obtain ⟨hk, hat, hclean⟩ := he
    apply hs.map hd
    · simp only [InferenceDeal.cycle] at hk hat hclean
      rcases hx : d.cleanSettlement with - | b
      · simp [InferenceDeal.cycle, InferenceDeal.closed, Cycle.after, hk, hat, hx]
      · obtain rfl : b = false := by
          rw [hx] at hclean
          simpa using hclean
        simp [InferenceDeal.cycle, InferenceDeal.closed, Cycle.after, hk, hat, hx]
    · rfl
    · exact fun last hl => .inl hl
  | probeBurned =>
    obtain ⟨hk, hat⟩ := he
    apply hs.map hd
    · simp only [InferenceDeal.cycle] at hk hat
      simp [InferenceDeal.cycle, InferenceDeal.terminallyClosed, Cycle.after, hk, hat]
    · rfl
    · exact fun last hl => .inl hl
  | streamDisputed =>
    apply hs.map hd
    · have hat : d.disputedAtChain = none := he
      simp [InferenceDeal.cycle, InferenceDeal.disputed, Cycle.after, hat]
    · rfl
    · exact fun last hl => .inl hl
  | contractDestroyed =>
    apply hs.map hd
    · cases hk : d.closeKind with
      | none =>
        have hat : d.settledAtChain = none := he hk
        simp [InferenceDeal.cycle, InferenceDeal.terminallyClosed, Cycle.after, hk, hat]
      | some =>
        simp [InferenceDeal.cycle, InferenceDeal.terminallyClosed, Cycle.after, hk]
    · simp only [Cycle.after]
      split <;> rfl
    · exact fun last hl => .inl hl
  | _ => exact hs.later

theorem reported (h : Shown r n c) (hc : c.closeKind = none → c.settledAt = none)
    (hempty : c.deposit = none → c = .empty) :
    Shown (r.reported n) (n + 1) (if c.closeKind = none then .empty else c) := by
  cases hr : r.row with
  | none =>
    have hnone : c = .empty := by
      rw [← h.cycle, DealRecord.cycle, hr]
      rfl
    have hkind : c.closeKind = none := congrArg Cycle.closeKind hnone
    rw [if_pos hkind, ← hnone]
    simp only [DealRecord.reported, hr]
    exact h.later
  | some d =>
    have hdc : d.cycle = c := by
      rw [← h.cycle, DealRecord.cycle, hr]
      rfl
    simp only [DealRecord.reported, hr]
    by_cases hkind : c.closeKind = none
    · have h1 : d.closeKind = none := (congrArg Cycle.closeKind hdc).trans hkind
      have h2 : d.settledAtChain = none := (congrArg Cycle.settledAt hdc).trans (hc hkind)
      rw [if_pos hkind, if_neg (by simp [h1, h2])]
      exact h.endCycle hempty
    · have h1 : d.closeKind ≠ none := fun h1 => hkind ((congrArg Cycle.closeKind hdc).symm.trans h1)
      rw [if_neg hkind, if_pos (.inl (Option.isSome_iff_ne_none.mpr h1))]
      exact h.later

theorem reported_past (h : Shown r n c) (hl : ¬ c.isLive) (k : ℕ) : r.reported k = r := by
  cases hr : r.row with
  | none => simp only [DealRecord.reported, hr]
  | some d =>
    have hdc : d.cycle = c := by
      rw [← h.cycle, DealRecord.cycle, hr]
      rfl
    simp only [DealRecord.reported, hr]
    split
    · rfl
    · rename_i hn
      have hkind : c.closeKind = none := by
        rw [← hdc]
        by_contra hs
        exact hn (.inl (Option.isSome_iff_ne_none.mpr hs))
      apply h.endCycle_unfunded
      by_contra hs
      exact hl ⟨Option.isSome_iff_ne_none.mpr hs, hkind⟩

theorem matched (h : Shown r n .empty) {f : FilledFields} {buyer : Addr} (hf : f.chainOrder = n)
    (hb : f.buyerNote = some buyer) (seller : Option Addr) :
    Shown (r.matched f seller) (n + 1) (.begun buyer) := by
  obtain ⟨hs, d, hd, hdc⟩ := h.seeded
  have heq : r.matched f seller = r.seeded.map (·.linked f seller) := rfl
  have hnone : d.buyerNote = none := congrArg Cycle.buyer hdc
  rw [heq]
  apply hs.map hd
  · have hc : (d.linked f seller).cycle = { d.cycle with buyer := some buyer } := by
      simp [InferenceDeal.cycle, InferenceDeal.linked, hb, hnone]
    rw [hc, hdc]
    rfl
  · rfl
  · intro last hl
    rw [← hf]
    exact last_greatest hl

end Shown

section Tales

variable {tc : Addr} {stamp : ℕ → Option ℕ} {log : List Entry} {e : Entry} {db : Db} {k : ℕ}

theorem record_told (e : DealEvent) :
    ((Entry.told e).project tc stamp k db).record tc = (db.record tc).told ⟨tc, k, stamp k⟩ e.logged :=
  record_projectTokenContractEvent db ⟨tc, k, stamp k⟩ e.logged

theorem record_deployed :
    (Entry.deployed.project tc stamp k db).record tc = (db.record tc).seeded :=
  record_projectTokenContractEvent db ⟨tc, k, stamp k⟩ .ContractDeployed

theorem record_closed (note : Addr) (cycle : ℕ) :
    ((Entry.closed note cycle).project tc stamp k db).record tc = (db.record tc).reported k :=
  record_applyInferenceDealClosed db ⟨note, k, stamp k⟩ tc

theorem Listed.congr {db' : Db} (h : Listed log db) (ho : db'.inferenceOrders = db.inferenceOrders) :
    Listed log db' := by
  constructor
  · rw [ho]
    exact h.placed
  · rw [ho]
    exact h.noted
  · rw [ho]
    exact h.asks

theorem Listed.seller (h : Listed log db) {f : FilledFields}
    (hoffer : (f.ob, f.makerId) ∈ offers log ∨ (f.ob, f.takerId) ∈ offers log) :
    (sellerNote db f).isSome := by
  obtain ⟨id, hid, hmem⟩ : ∃ id ∈ f.ids, (f.ob, id) ∈ offers log := by
    rcases hoffer with hm | ht
    · exact ⟨f.makerId, List.mem_cons_self .., hm⟩
    · exact ⟨f.takerId, List.mem_cons_of_mem _ (List.mem_cons_self ..), ht⟩
  obtain ⟨o, ho, hask⟩ := h.asks f.ob id hmem
  have hfound : ((f.ids.filterMap (db.inferenceOrders f.ob)).find? (!·.isBuy)).isSome := by
    rw [List.find?_isSome]
    exact ⟨o, List.mem_filterMap.mpr ⟨id, hid, ho⟩, by simp [hask]⟩
  obtain ⟨x, hx⟩ := Option.isSome_iff_exists.mp hfound
  obtain ⟨id', -, hx'⟩ := List.mem_filterMap.mp (List.mem_of_find?_eq_some hx)
  unfold sellerNote
  rw [hx]
  exact h.noted f.ob id' x hx'

variable (tc stamp) (k ticks price : ℕ) {ob : Addr} (buyer : Addr) in
/-- What a fill of the deal's offer does to the record. -/
theorem record_fill (h : Listed log db) {makerId takerId : ℕ}
    (hm : (ob, makerId) ∈ placedOrders log) (ht : (ob, takerId) ∈ placedOrders log)
    (hoffer : (ob, makerId) ∈ offers log ∨ (ob, takerId) ∈ offers log) :
    ∃ f seller, f.chainOrder = k ∧ f.buyerNote = some buyer ∧ seller.isSome ∧
      ((Entry.filled ob makerId takerId ticks price buyer).project tc stamp k db).record tc =
        (db.record tc).matched f seller := by
  let node : EventNode := ⟨ob, k, stamp k⟩
  let f : FilledFields := .parse node makerId takerId ticks price (some tc) (some buyer)
  have hlegs : bothLegs (seedMarketSkeleton db node) f.ob f.makerId f.takerId := by
    change bothLegs (seedMarketSkeleton db node) ob makerId takerId
    rw [bothLegs_seedMarketSkeleton]
    exact ⟨(h.placed _ _).mp hm, (h.placed _ _).mp ht⟩
  have hseller : (sellerNote (seedMarketSkeleton db node) f).isSome :=
    (h.congr inferenceOrders_seedMarketSkeleton).seller hoffer
  have hrec := record_filled (seedMarketSkeleton db node) tc (f := f) rfl hlegs
  exact ⟨f, _, rfl, rfl, hseller, hrec.trans
    (congrArg (DealRecord.matched · f _) (record_seedMarketSkeleton db node tc))⟩

/-- The record shows the current cycle, at every point of a log. -/
theorem Tale.shown (hz : tc ≠ ZERO_ADDRESS) (h : Tale tc stamp log) :
    Shown ((project tc stamp log).record tc) log.length (story stamp log).cycle ∧
      ((story stamp log).cycle.closeKind = none → (story stamp log).cycle.settledAt = none) := by
  induction h with
  | nil => exact ⟨⟨rfl, rfl, by rintro d ⟨⟩, by rintro t ⟨⟩⟩, fun _ => rfl⟩
  | @concat log e hlog he ih =>
    obtain ⟨hshown, hsettled⟩ := ih
    obtain ⟨-, he⟩ := he
    rw [project_concat, story_concat, List.length_append]
    cases e with
    | deployed =>
      rw [record_deployed]
      exact ⟨hshown.seeded.1.later, hsettled⟩
    | told e =>
      rw [record_told]
      refine ⟨hshown.told he, ?_⟩
      cases e with
      | contractDestroyed =>
        simp only [Story.after, Cycle.after]
        split
        · rintro ⟨⟩
        · rename_i hk
          exact fun h => absurd h hk
      | streamStopped => rintro ⟨⟩
      | disputeResolved => rintro ⟨⟩
      | probeBurned => rintro ⟨⟩
      | _ => exact hsettled
    | offered ob id p n note dl =>
      refine ⟨?_, fun _ => rfl⟩
      have hrec := record_offered (project tc stamp log) ⟨ob, log.length, stamp log.length⟩ tc hz
        id p n note dl
      exact hrec ▸ hshown.endCycle he
    | filled ob m t n p buyer =>
      obtain ⟨hempty, hm, ht, hoffer⟩ := he
      obtain ⟨f, seller, hf, hb, -, hrec⟩ := record_fill tc stamp log.length n p buyer hlog.listed hm
        ht hoffer
      rw [hrec]
      rw [hempty] at hshown
      exact ⟨hshown.matched hf hb seller, fun _ => rfl⟩
    | closed note cycle =>
      rw [record_closed]
      dsimp only at he
      by_cases hn : cycle = (story stamp log).cycles
      · rw [if_pos hn] at he
        have hrep := hshown.reported hsettled he
        by_cases hk : (story stamp log).cycle.closeKind = none
        · rw [if_pos hk] at hrep
          have hst : (story stamp log).after (stamp log.length) (.closed note cycle) =
              { story stamp log with cycle := .empty } := if_pos ⟨hn, hk⟩
          rw [hst]
          exact ⟨hrep, fun _ => rfl⟩
        · rw [if_neg hk] at hrep
          have hst : (story stamp log).after (stamp log.length) (.closed note cycle) =
              story stamp log := if_neg fun h => hk h.2
          rw [hst]
          exact ⟨hrep, hsettled⟩
      · rw [if_neg hn] at he
        have hst : (story stamp log).after (stamp log.length) (.closed note cycle) =
            story stamp log := if_neg fun h => hn h.1
        rw [hst, hshown.reported_past he]
        exact ⟨hshown.later, hsettled⟩
    | book ob e =>
      have hrec : ((Entry.book ob e).project tc stamp log.length (project tc stamp log)).record tc =
          (project tc stamp log).record tc :=
        record_book (project tc stamp log) ⟨ob, log.length, stamp log.length⟩ tc he
      rw [hrec]
      exact ⟨hshown.later, hsettled⟩

end Tales

end ReadModel

end Dexdo
