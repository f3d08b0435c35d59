import Dexdo.Indexer.Cycles

namespace Dexdo

namespace ReadModel

theorem greatest_right_comm (x y z : Option ℕ) :
    greatest (greatest x y) z = greatest (greatest x z) y := by
  cases x <;> cases y <;> cases z <;> simp [greatest, max_comm, max_left_comm]

namespace InferenceOrder

/-- The row is open to a fill. -/
def takesFill (o : InferenceOrder) : Prop := ¬ (o.status = .FILLED ∨ o.isReallyCancelled)

instance (o : InferenceOrder) : Decidable o.takesFill := inferInstanceAs (Decidable (¬ _))

/-- A fill of `ticks` closes the row: an offer in any case, a bid when no more is left of it. -/
def closedBy (o : InferenceOrder) (ticks : ℕ) : Prop :=
  o.isBuy = false ∨ o.amountRemaining ≤ ticks

instance (o : InferenceOrder) (ticks : ℕ) : Decidable (o.closedBy ticks) :=
  inferInstanceAs (Decidable (_ ∨ _))

variable {o : InferenceOrder} {ticks chainOrder : ℕ} {chainSeconds : Option ℕ}

theorem filled_of_not_takesFill (h : ¬ o.takesFill) :
    o.filled ticks chainOrder chainSeconds = o := by
  rw [filled, if_pos (not_not.mp h)]

theorem filled_closed (h : o.takesFill) (hc : o.closedBy ticks) :
    o.filled ticks chainOrder chainSeconds =
      { o with
        amountRemaining := o.amountRemaining - ticks
        status := .FILLED
        sweptAt := none
        lastChainOrder := max o.lastChainOrder chainOrder
        chainUpdatedAt := greatest o.chainUpdatedAt chainSeconds } := by
  rw [filled, if_neg h]
  rcases hc with hsell | hleft
  · simp [hsell]
  · simp [Nat.sub_eq_zero_of_le hleft]

theorem filled_open (h : o.takesFill) (hc : ¬ o.closedBy ticks) :
    o.filled ticks chainOrder chainSeconds =
      { o with
        amountRemaining := o.amountRemaining - ticks
        status := .OPEN
        sweptAt := none
        lastChainOrder := max o.lastChainOrder chainOrder
        chainUpdatedAt := greatest o.chainUpdatedAt chainSeconds } := by
  obtain ⟨hbuy, hleft⟩ := not_or.mp hc
  have hpos : o.amountRemaining - ticks ≠ 0 := by omega
  rw [filled, if_neg h, if_neg hbuy, if_neg hpos]

end InferenceOrder

namespace RowAction

/-- The repair of a fill of `ticks` on the row `r` can wait for the action. Two fills can change
places when neither closes the row alone; neither a cancel by an event nor an expiry can come before
a fill that leaves a bid open. -/
def Waits (ticks : ℕ) (r : InferenceOrder) : RowAction → Prop
  | .keep => True
  | .place _ => False
  | .fill ticks' _ _ => ¬ r.closedBy ticks ∧ ¬ r.closedBy ticks'
  | .expire _ => r.closedBy ticks ∧ r.status = .EXPIRED
  | .cancel _ => False
  | .sweep _ => r.closedBy ticks
  | .repair tokenContract deadline => (r.status = .OPEN ↔ ¬ r.closedBy ticks) ∨
    (r.tokenContract.or tokenContract = r.tokenContract ∧ r.deadline.or deadline = r.deadline)

instance (ticks : ℕ) (r : InferenceOrder) : (a : RowAction) → Decidable (a.Waits ticks r)
  | .keep => inferInstanceAs (Decidable True)
  | .place _ => inferInstanceAs (Decidable False)
  | .fill .. => inferInstanceAs (Decidable (_ ∧ _))
  | .expire _ => inferInstanceAs (Decidable (_ ∧ _))
  | .cancel _ => inferInstanceAs (Decidable False)
  | .sweep _ => inferInstanceAs (Decidable (r.closedBy ticks))
  | .repair .. => inferInstanceAs (Decidable (_ ∨ _))

/-- The sweep restarts as often when the fill of `r` waits; `others` tells that the action fills a
swept order besides. -/
def RestartsAlike (r : InferenceOrder) (others : Prop) : RowAction → Prop
  | .fill .. => ¬ (r.sweptAt.isSome ∧ others)
  | .sweep _ => r.status ≠ .OPEN
  | _ => True

instance (r : InferenceOrder) (others : Prop) [Decidable others] :
    (a : RowAction) → Decidable (a.RestartsAlike r others)
  | .fill .. => inferInstanceAs (Decidable (¬ _))
  | .sweep _ => inferInstanceAs (Decidable (¬ _))
  | .keep | .place _ | .expire _ | .cancel _ | .repair .. => inferInstanceAs (Decidable True)

variable {a : RowAction} {r : InferenceOrder} {ticks chainOrder : ℕ} {chainSeconds : Option ℕ}

theorem not_takesFill_act (h : ¬ r.takesFill) : ¬ (a.act r).takesFill := by
  simp only [InferenceOrder.takesFill, not_not] at h ⊢
  rcases h with h | h
  · left
    cases a <;> simp [act, InferenceOrder.replaced, InferenceOrder.takesPlacement,
      InferenceOrder.filled, InferenceOrder.expired, InferenceOrder.takesExpiry,
      InferenceOrder.isSweepCancelled, InferenceOrder.cancelled, InferenceOrder.sweepCancelled,
      InferenceOrder.repaired, h]
  · right
    cases a <;> simp [act, InferenceOrder.replaced, InferenceOrder.takesPlacement,
      InferenceOrder.filled, InferenceOrder.expired, InferenceOrder.takesExpiry,
      InferenceOrder.isSweepCancelled, InferenceOrder.cancelled, InferenceOrder.sweepCancelled,
      InferenceOrder.repaired, InferenceOrder.isReallyCancelled, h.1, h.2]

theorem fill_filled {ticks' chainOrder' : ℕ} {chainSeconds' : Option ℕ} (hr : r.takesFill)
    (h : ¬ r.closedBy ticks) (h' : ¬ r.closedBy ticks') :
    (r.filled ticks chainOrder chainSeconds).filled ticks' chainOrder' chainSeconds' =
      (r.filled ticks' chainOrder' chainSeconds').filled ticks chainOrder chainSeconds := by
  rw [InferenceOrder.filled_open hr h, InferenceOrder.filled_open hr h']
  simp only [InferenceOrder.filled, InferenceOrder.isReallyCancelled, reduceCtorEq, false_and,
    or_self, if_false, Nat.sub_right_comm, max_right_comm, greatest_right_comm]

theorem expire_filled {node : EventNode} (hr : r.takesFill) (h : r.closedBy ticks)
    (hstatus : r.status = .EXPIRED) :
    (r.filled ticks chainOrder chainSeconds).expired node =
      (r.expired node).filled ticks chainOrder chainSeconds := by
  have hkeep : r.expired node = r := by
    rw [InferenceOrder.expired, if_neg]
    simp [InferenceOrder.takesExpiry, InferenceOrder.isSweepCancelled, hstatus]
  rw [hkeep, InferenceOrder.filled_closed hr h, InferenceOrder.expired, if_neg]
  simp [InferenceOrder.takesExpiry, InferenceOrder.isSweepCancelled]

theorem sweep_filled {now : ℕ} (hr : r.takesFill) (h : r.closedBy ticks) :
    (r.filled ticks chainOrder chainSeconds).sweepCancelled now =
      (r.sweepCancelled now).filled ticks chainOrder chainSeconds := by
  rw [InferenceOrder.filled_closed hr h]
  by_cases hopen : r.status = .OPEN
  · let q : InferenceOrder := { r with status := .CANCELLED, sweptAt := some now }
    have hswept : r.sweepCancelled now = q := if_pos hopen
    have hq : q.takesFill := by
      simp [q, InferenceOrder.takesFill, InferenceOrder.isReallyCancelled]
    rw [hswept, InferenceOrder.filled_closed (o := q) hq h]
    rfl
  · have hswept : r.sweepCancelled now = r := if_neg hopen
    rw [hswept, InferenceOrder.filled_closed hr h]
    rfl

theorem repair_filled {tokenContract : Option Addr} {deadline : Option ℕ} (hr : r.takesFill)
    (h : (r.status = .OPEN ↔ ¬ r.closedBy ticks) ∨
      (r.tokenContract.or tokenContract = r.tokenContract ∧ r.deadline.or deadline = r.deadline)) :
    (r.filled ticks chainOrder chainSeconds).repaired tokenContract deadline =
      (r.repaired tokenContract deadline).filled ticks chainOrder chainSeconds := by
  by_cases hclosed : r.closedBy ticks
  · have hkeep : r.repaired tokenContract deadline = r := by
      unfold InferenceOrder.repaired
      split
      · rename_i hopen
        obtain ⟨htc, hdl⟩ := h.resolve_left fun h => h.mp hopen hclosed
        rw [htc, hdl]
      · rfl
    rw [hkeep, InferenceOrder.filled_closed hr hclosed]
    rfl
  · rw [InferenceOrder.filled_open hr hclosed]
    by_cases hopen : r.status = .OPEN
    · let q : InferenceOrder := { r with
        tokenContract := r.tokenContract.or tokenContract
        deadline := r.deadline.or deadline }
      have hrepaired : r.repaired tokenContract deadline = q := if_pos hopen
      rw [hrepaired, InferenceOrder.filled_open (o := q) hr hclosed]
      rfl
    · obtain ⟨htc, hdl⟩ := h.resolve_left fun h => hopen (h.mpr hclosed)
      have hkeep : r.repaired tokenContract deadline = r := if_neg hopen
      rw [hkeep, InferenceOrder.filled_open hr hclosed, InferenceOrder.repaired, if_pos rfl]
      simp only [htc, hdl]

theorem swept_filled (r : InferenceOrder) :
    (r.filled ticks chainOrder chainSeconds).sweptAt.isSome ↔ ¬ r.takesFill ∧ r.sweptAt.isSome := by
  by_cases hr : r.takesFill
  · have hfilled : (r.filled ticks chainOrder chainSeconds).sweptAt = none := by
      rw [InferenceOrder.filled, if_neg hr]
    simp [hfilled, hr]
  · rw [InferenceOrder.filled_of_not_takesFill hr]
    simp [hr]

/-- Only a fill, a placement and a sweep of an open row tell whether it is swept. -/
theorem swept_act {others : Prop} (ha : ¬ a.isPlace)
    (hfill : ∀ t k s, a ≠ .fill t k s) (h : r.takesFill → a.Waits ticks r)
    (hsweep : r.takesFill → a.RestartsAlike r others) :
    (a.act r).sweptAt.isSome = r.sweptAt.isSome := by
  by_cases hr : r.takesFill
  · have hw := h hr
    have hs := hsweep hr
    cases a with
    | keep => rfl
    | place => exact hw.elim
    | fill t k s => exact (hfill t k s rfl).elim
    | expire =>
      have hkeep : ¬ r.takesExpiry := by
        simp [InferenceOrder.takesExpiry, InferenceOrder.isSweepCancelled, hw.2]
      rw [act, InferenceOrder.expired, if_neg hkeep]
    | cancel => exact hw.elim
    | sweep => rw [act, InferenceOrder.sweepCancelled, if_neg hs]
    | repair =>
      rw [act, InferenceOrder.repaired]
      split <;> rfl
  · cases a with
    | place => exact absurd trivial ha
    | fill t k s => exact (hfill t k s rfl).elim
    | _ =>
      rcases not_not.mp hr with hdone | ⟨hcancelled, hnone⟩
      · simp [act, InferenceOrder.expired, InferenceOrder.takesExpiry,
          InferenceOrder.isSweepCancelled, InferenceOrder.cancelled, InferenceOrder.sweepCancelled,
          InferenceOrder.repaired, hdone]
      · simp [act, InferenceOrder.expired, InferenceOrder.takesExpiry,
          InferenceOrder.isSweepCancelled, InferenceOrder.cancelled, InferenceOrder.sweepCancelled,
          InferenceOrder.repaired, hcancelled, hnone]

/-- A fill changes places with an action for which it can wait. -/
theorem Waits.comm (ha : ¬ a.isPlace) (h : r.takesFill → a.Waits ticks r) :
    a.act (r.filled ticks chainOrder chainSeconds) =
      (a.act r).filled ticks chainOrder chainSeconds := by
  by_cases hr : r.takesFill
  · have hw := h hr
    cases a with
    | keep => rfl
    | place => exact hw.elim
    | fill => exact fill_filled hr hw.1 hw.2
    | expire => exact expire_filled hr hw.1 hw.2
    | cancel => exact hw.elim
    | sweep => exact sweep_filled hr hw
    | repair => exact repair_filled hr hw
  · rw [InferenceOrder.filled_of_not_takesFill hr,
      InferenceOrder.filled_of_not_takesFill (not_takesFill_act hr)]

end RowAction

/-- Two addresses that do not differ when both are known. -/
def Agree (x y : Option Addr) : Prop := ∀ a ∈ x, ∀ b ∈ y, a = b

instance (x y : Option Addr) : Decidable (Agree x y) :=
  inferInstanceAs (Decidable (∀ a ∈ x, ∀ b ∈ y, a = b))

theorem Agree.or_comm {x y : Option Addr} (h : Agree x y) : x.or y = y.or x := by
  cases x with
  | none => simp
  | some a =>
    cases y with
    | none => rfl
    | some b => exact congrArg some (h a rfl b rfl)

theorem Agree.symm {x y : Option Addr} (h : Agree x y) : Agree y x :=
  fun b hb a ha => (h a ha b hb).symm

theorem or_or_comm {x y z : Option Addr} (h : x.isSome ∨ Agree y z) :
    (x.or y).or z = (x.or z).or y := by
  rw [Option.or_assoc, Option.or_assoc]
  rcases h with h | h
  · obtain ⟨a, rfl⟩ := Option.isSome_iff_exists.mp h
    rfl
  · rw [h.or_comm]

namespace InferenceDeal

/-- An event at this chain order ends the funding cycle of the row. -/
def ends (d : InferenceDeal) (chainOrder : ℕ) : Prop := d.deposit.isSome ∧ d.isNews chainOrder

instance (d : InferenceDeal) (chainOrder : ℕ) : Decidable (d.ends chainOrder) :=
  inferInstanceAs (Decidable (_ ∧ _))

/-- The buyer column comes out the same whichever of two fills is applied first; `g` is the newer
one. -/
def sameBuyer (d : InferenceDeal) (f g : FilledFields) : Prop :=
  if d.isNews g.chainOrder then
    g.buyerNote.isSome ∨ ¬ d.isNews f.chainOrder ∨ Agree f.buyerNote d.buyerNote
  else d.buyerNote.isSome ∨ Agree f.buyerNote g.buyerNote

instance (d : InferenceDeal) (f g : FilledFields) : Decidable (d.sameBuyer f g) :=
  inferInstanceAs (Decidable (ite _ _ _))

variable {d : InferenceDeal} {f g : FilledFields} {note note' : Option Addr} {k : ℕ}

theorem isNews_greatest {x : Option ℕ} {n k : ℕ} :
    (∀ last ∈ greatest x (some n), last < k) ↔ (∀ last ∈ x, last < k) ∧ n < k := by
  cases x with
  | none => simp [greatest]
  | some => simp [greatest]

theorem linked_isNews : (d.linked f note).isNews k ↔ d.isNews k ∧ f.chainOrder < k :=
  isNews_greatest

theorem linked_ends : (d.linked f note).ends k ↔ d.ends k ∧ f.chainOrder < k := by
  rw [ends, ends, linked_isNews, and_assoc]
  rfl

theorem linked_buyerNote : (d.linked f note).buyerNote =
    if d.isNews f.chainOrder then f.buyerNote.or d.buyerNote else d.buyerNote.or f.buyerNote := rfl

theorem linked_buyer_comm (hlt : f.chainOrder < g.chainOrder) (h : d.sameBuyer f g) :
    ((d.linked f note).linked g note').buyerNote =
      ((d.linked g note').linked f note).buyerNote := by
  have hpast : ¬ (d.linked g note').isNews f.chainOrder := fun h => by
    have := (linked_isNews.mp h).2
    omega
  rw [linked_buyerNote (f := f), if_neg hpast, linked_buyerNote (f := g), linked_buyerNote,
    linked_buyerNote]
  unfold sameBuyer at h
  by_cases hg : d.isNews g.chainOrder
  · rw [if_pos hg] at h
    rw [if_pos (linked_isNews.mpr ⟨hg, hlt⟩), if_pos hg, Option.or_assoc]
    rcases h with h | h | h
    · obtain ⟨a, ha⟩ := Option.isSome_iff_exists.mp h
      rw [ha]
      rfl
    · rw [if_neg h]
    · rw [h.or_comm, ite_self]
  · have hf : ¬ d.isNews f.chainOrder := fun hf => hg fun last hl => (hf last hl).trans hlt
    rw [if_neg hg] at h
    rw [if_neg fun h => hg (linked_isNews.mp h).1, if_neg hf, if_neg hg]
    exact or_or_comm h

theorem linked_comm (hlt : f.chainOrder < g.chainOrder) (hbuyer : d.sameBuyer f g)
    (hob : d.orderbookAddress.isSome ∨ f.ob = g.ob)
    (hseller : d.sellerNote.isSome ∨ Agree note note') :
    (d.linked f note).linked g note' = (d.linked g note').linked f note := by
  have hob' : d.orderbookAddress.isSome ∨ Agree (some f.ob) (some g.ob) := by
    refine hob.imp_right fun h => ?_
    rintro _ ⟨⟩ _ ⟨⟩
    exact h
  have h1 := @linked_buyer_comm d f g note note' hlt hbuyer
  have h2 := or_or_comm hob'
  have h3 := or_or_comm hseller
  have h4 := greatest_right_comm d.lastChainOrder (some f.chainOrder) (some g.chainOrder)
  unfold linked at h1 ⊢
  simp only [InferenceDeal.mk.injEq, true_and]
  exact ⟨h2, h3, h1, h4⟩

theorem ended_linked (hbuyer : f.buyerNote = none) (hlt : f.chainOrder < k) :
    (d.linked f note).ended k = (d.ended k).linked f note := by
  simp [ended, linked, greatest, hbuyer, Nat.max_eq_left hlt.le]

variable {buyer : Addr} {node : EventNode}

theorem funded_ended_linked {deposit : ℕ} (hlt : f.chainOrder < node.chainOrder) :
    ((d.linked f note).ended node.chainOrder).funded buyer deposit node =
      ((d.ended node.chainOrder).funded buyer deposit node).linked f note := by
  have hold : ¬ ((d.ended node.chainOrder).funded buyer deposit node).isNews f.chainOrder :=
    fun h => by
      have := h node.chainOrder (by simp [funded, ended, greatest])
      omega
  conv_rhs => unfold linked
  rw [if_neg hold]
  simp [funded, ended, linked, greatest, Nat.max_eq_left hlt.le]

theorem funded_linked {deposit : ℕ}
    (h : Agree f.buyerNote (d.buyerNote.or (some buyer)) ∨
      if d.isNews f.chainOrder then node.chainOrder < f.chainOrder else d.buyerNote.isSome) :
    (d.linked f note).funded buyer deposit node = (d.funded buyer deposit node).linked f note := by
  have hnews : (d.funded buyer deposit node).isNews f.chainOrder ↔
      d.isNews f.chainOrder ∧ node.chainOrder < f.chainOrder := isNews_greatest
  have hbuyer : (d.linked f note).buyerNote.or (some buyer) =
      ((d.funded buyer deposit node).linked f note).buyerNote := by
    rw [linked_buyerNote, linked_buyerNote]
    by_cases hn : d.isNews f.chainOrder
    · rw [if_pos hn, Option.or_assoc]
      by_cases hlt : node.chainOrder < f.chainOrder
      · rw [if_pos (hnews.mpr ⟨hn, hlt⟩)]
        rfl
      · rw [if_neg fun h => hlt (hnews.mp h).2]
        rw [if_pos hn] at h
        exact (h.resolve_right hlt).or_comm
    · rw [if_neg hn, if_neg fun h => hn (hnews.mp h).1]
      rw [if_neg hn] at h
      apply or_or_comm
      rcases h with h | h
      · cases hb : d.buyerNote with
        | none =>
          rw [hb] at h
          exact .inr h
        | some => exact .inl rfl
      · exact .inl h
  have hlast := greatest_right_comm d.lastChainOrder (some f.chainOrder) (some node.chainOrder)
  unfold funded linked at hbuyer ⊢
  simp only [InferenceDeal.mk.injEq, true_and]
  exact ⟨hbuyer, hlast⟩

theorem opened_linked {price : ℕ}
    (h : d.isNews f.chainOrder ∨ d.buyerNote.isSome ∨ Agree f.buyerNote (some buyer)) :
    (d.linked f note).opened buyer price node = (d.opened buyer price node).linked f note := by
  have hbuyer : (d.linked f note).buyerNote.or (some buyer) =
      ((d.opened buyer price node).linked f note).buyerNote := by
    rw [linked_buyerNote, linked_buyerNote]
    change _ = if d.isNews f.chainOrder then _ else _
    by_cases hn : d.isNews f.chainOrder
    · rw [if_pos hn, if_pos hn, Option.or_assoc]
      rfl
    · rw [if_neg hn, if_neg hn]
      exact or_or_comm (h.resolve_left hn)
  unfold opened linked at hbuyer ⊢
  simp only [InferenceDeal.mk.injEq, true_and, and_true]
  exact hbuyer

theorem claimed_linked {trusted claimed : ℕ}
    (h : d.isNews f.chainOrder → node.chainOrder < f.chainOrder ∨
      Agree f.buyerNote d.buyerNote) :
    (d.linked f note).claimed trusted claimed node =
      (d.claimed trusted claimed node).linked f note := by
  have hnews : (d.claimed trusted claimed node).isNews f.chainOrder ↔
      d.isNews f.chainOrder ∧ node.chainOrder < f.chainOrder := isNews_greatest
  have hbuyer : (d.linked f note).buyerNote =
      ((d.claimed trusted claimed node).linked f note).buyerNote := by
    rw [linked_buyerNote, linked_buyerNote]
    by_cases hn : d.isNews f.chainOrder
    · rw [if_pos hn]
      by_cases hlt : node.chainOrder < f.chainOrder
      · rw [if_pos (hnews.mpr ⟨hn, hlt⟩)]
        rfl
      · rw [if_neg fun h => hlt (hnews.mp h).2]
        exact ((h hn).resolve_left hlt).or_comm
    · rw [if_neg hn, if_neg fun h => hn (hnews.mp h).1]
      rfl
  have hlast := greatest_right_comm d.lastChainOrder (some f.chainOrder) (some node.chainOrder)
  unfold InferenceDeal.claimed linked at hbuyer ⊢
  simp only [InferenceDeal.mk.injEq, true_and]
  exact ⟨hbuyer, hlast⟩

end InferenceDeal

namespace DealRecord

/-- The deal's row, which a fill or an event of the deal makes when there is none. -/
def deal (r : DealRecord) : InferenceDeal := r.row.getD .skeleton

variable {r : DealRecord} {f : FilledFields} {note : Option Addr} {k : ℕ}

theorem row_congr {d d' : InferenceDeal} (ticks : List InferenceTick) (h : d = d') :
    (⟨some d, ticks⟩ : DealRecord) = ⟨some d', ticks⟩ := by
  rw [h]

theorem endCycle_of_ends {d : InferenceDeal} {ticks : List InferenceTick} (h : d.ends k) :
    endCycle ⟨some d, ticks⟩ k = ⟨some (d.ended k), []⟩ := if_pos h

theorem endCycle_of_not_ends (h : ¬ r.deal.ends k) : r.endCycle k = r := by
  obtain ⟨row, ticks⟩ := r
  cases row with
  | none => rfl
  | some => exact if_neg h

theorem endCycle_matched (h : r.deal.ends k → f.buyerNote = none ∧ f.chainOrder < k) :
    (r.matched f note).endCycle k = (r.endCycle k).matched f note := by
  by_cases hk : r.deal.ends k
  · obtain ⟨hbuyer, hlt⟩ := h hk
    obtain ⟨row, ticks⟩ := r
    cases row with
    | none => cases hk.1
    | some d =>
      have hd : d.ends k := hk
      have hlinked : (d.linked f note).ends k := InferenceDeal.linked_ends.mpr ⟨hd, hlt⟩
      rw [endCycle_of_ends hd]
      exact (endCycle_of_ends hlinked).trans
        (row_congr [] (InferenceDeal.ended_linked hbuyer hlt))
  · have hk' : ¬ (r.matched f note).deal.ends k := fun h => hk (InferenceDeal.linked_ends.mp h).1
    rw [endCycle_of_not_ends hk, endCycle_of_not_ends hk']

theorem reported_matched (h : ¬ (r.deal.closeKind.isSome ∨ r.deal.settledAtChain.isSome) →
      r.deal.ends k → f.buyerNote = none ∧ f.chainOrder < k) :
    (r.matched f note).reported k = (r.reported k).matched f note := by
  have hmatched : (r.matched f note).reported k =
      if r.deal.closeKind.isSome ∨ r.deal.settledAtChain.isSome then r.matched f note
      else (r.matched f note).endCycle k := rfl
  have hreported : r.reported k =
      if r.deal.closeKind.isSome ∨ r.deal.settledAtChain.isSome then r else r.endCycle k := by
    obtain ⟨row, ticks⟩ := r
    cases row <;> rfl
  rw [hmatched, hreported]
  split
  · rfl
  · exact endCycle_matched (h ‹_›)

end DealRecord

namespace RecordAction

/-- The repair of a fill on the deal of `r` can wait for the action. Its buyer must not come back
to a cycle that is not its own, and nobody else may take the buyer column meanwhile. -/
def Waits (f : FilledFields) (note : Option Addr) (r : DealRecord) : RecordAction → Prop
  | .keep => True
  | .endCycle k => r.deal.ends k → f.buyerNote = none ∧ f.chainOrder < k
  | .report k => ¬ (r.deal.closeKind.isSome ∨ r.deal.settledAtChain.isSome) → r.deal.ends k →
    f.buyerNote = none ∧ f.chainOrder < k
  | .link g note' => (r.deal.orderbookAddress.isSome ∨ f.ob = g.ob) ∧
    (r.deal.sellerNote.isSome ∨ Agree note note') ∧
    if f.chainOrder < g.chainOrder then r.deal.sameBuyer f g else r.deal.sameBuyer g f
  | .told node event =>
    match event with
    | .StreamFunded buyer _ =>
      if r.deal.ends node.chainOrder then f.chainOrder < node.chainOrder
      else Agree f.buyerNote (r.deal.buyerNote.or (some buyer)) ∨
        if r.deal.isNews f.chainOrder then node.chainOrder < f.chainOrder
        else r.deal.buyerNote.isSome
    | .StreamOpened buyer _ => r.deal.isNews f.chainOrder ∨ r.deal.buyerNote.isSome ∨
      Agree f.buyerNote (some buyer)
    | .TicksClaimed _ _ => r.deal.isNews f.chainOrder → node.chainOrder < f.chainOrder ∨
      Agree f.buyerNote r.deal.buyerNote
    | _ => True

instance (f : FilledFields) (note : Option Addr) (r : DealRecord) :
    (a : RecordAction) → Decidable (a.Waits f note r)
  | .keep => .isTrue trivial
  | .endCycle _ => inferInstanceAs (Decidable (_ → _ ∧ _))
  | .report _ => inferInstanceAs (Decidable (¬ _ → _ → _ ∧ _))
  | .link .. => inferInstanceAs (Decidable (_ ∧ _ ∧ ite _ _ _))
  | .told _ event => by
    cases event with
    | StreamFunded => exact inferInstanceAs (Decidable (ite _ _ (_ ∨ ite _ _ _)))
    | StreamOpened => exact inferInstanceAs (Decidable (_ ∨ _ ∨ _))
    | TicksClaimed => exact inferInstanceAs (Decidable (_ → _ ∨ _))
    | _ => exact .isTrue trivial

variable {a : RecordAction} {r : DealRecord} {f : FilledFields} {note : Option Addr}

theorem told_matched {node : EventNode} {event : TokenContractEvent}
    (h : (told node event).Waits f note r) :
    (r.matched f note).told node event = (r.told node event).matched f note := by
  cases event with
  | StreamFunded =>
    by_cases hends : r.deal.ends node.chainOrder
    · rw [Waits, if_pos hends] at h
      have hlinked : (r.deal.linked f note).ends node.chainOrder :=
        InferenceDeal.linked_ends.mpr ⟨hends, h⟩
      simp only [DealRecord.told]
      have hl : (r.matched f note).seeded.endCycle node.chainOrder = _ :=
        DealRecord.endCycle_of_ends hlinked
      have hr : r.seeded.endCycle node.chainOrder = _ := DealRecord.endCycle_of_ends hends
      rw [hl, hr]
      exact DealRecord.row_congr [] (InferenceDeal.funded_ended_linked h)
    · rw [Waits, if_neg hends] at h
      have hlinked : ¬ (r.matched f note).seeded.deal.ends node.chainOrder :=
        fun h => hends (InferenceDeal.linked_ends.mp h).1
      have hr : r.seeded.endCycle node.chainOrder = r.seeded :=
        DealRecord.endCycle_of_not_ends hends
      simp only [DealRecord.told]
      rw [DealRecord.endCycle_of_not_ends hlinked, hr]
      exact DealRecord.row_congr r.ticks (InferenceDeal.funded_linked h)
  | StreamOpened =>
    exact DealRecord.row_congr r.ticks (InferenceDeal.opened_linked h)
  | TicksClaimed =>
    exact DealRecord.row_congr r.ticks (InferenceDeal.claimed_linked h)
  | TickFinalized finalizedOwed deposit =>
    by_cases hold : ∃ tick ∈ r.ticks, tick.chainOrder = node.chainOrder
    · have hl : (r.matched f note).seeded.finalized node finalizedOwed deposit = _ := if_pos hold
      have hr : r.seeded.finalized node finalizedOwed deposit = _ := if_pos hold
      simp only [DealRecord.told, hl, hr]
      rfl
    · have hl : (r.matched f note).seeded.finalized node finalizedOwed deposit = _ := if_neg hold
      have hr : r.seeded.finalized node finalizedOwed deposit = _ := if_neg hold
      simp only [DealRecord.told, hl, hr]
      rfl
  | _ => rfl

/-- The repair of a fill changes places with an action for which it can wait. -/
theorem Waits.comm (h : a.Waits f note r) (hne : ∀ g note', a = link g note' →
      g.chainOrder ≠ f.chainOrder) : a.apply (r.matched f note) = (a.apply r).matched f note := by
  cases a with
  | keep => rfl
  | endCycle => exact DealRecord.endCycle_matched h
  | report => exact DealRecord.reported_matched h
  | link g note' =>
    obtain ⟨hob, hseller, hbuyer⟩ := h
    apply DealRecord.row_congr r.ticks
    rcases (hne g note' rfl).symm.lt_or_gt with hlt | hgt
    · rw [if_pos hlt] at hbuyer
      exact InferenceDeal.linked_comm hlt hbuyer hob hseller
    · rw [if_neg hgt.not_gt] at hbuyer
      exact (InferenceDeal.linked_comm hgt hbuyer (hob.imp_right Eq.symm)
        (hseller.imp_right Agree.symm)).symm
  | told => exact told_matched h

end RecordAction

end ReadModel

end Dexdo
