import Dexdo.OrderBook.Unlink

namespace Dexdo.Book

namespace Rep

variable {b c : Book} {n : ℕ} {A : Index} {id : ℕ}

/-- A book with the same links, keys and owners, and consistent amounts, represents the same
lists. -/
theorem congr (r : Rep b n A) (hst : ∀ i, c.Stored i ↔ b.Stored i)
    (hkey : ∀ i, (c.core i).key = (b.core i).key) (hprice : ∀ i, (c.core i).price = (b.core i).price)
    (hown : ∀ i, (c.core i).depositHash = (b.core i).depositHash)
    (hlinks : ∀ i, (c.order i).toLinks = (b.order i).toLinks)
    (hpos : ∀ i, b.Stored i → 0 < (c.core i).amount)
    (hsome : ∀ k q, ((c.levels k).get? q).isSome ↔ ((b.levels k).get? q).isSome)
    (hends : ∀ k q, (c.level k q).firstOrderId = (b.level k q).firstOrderId ∧
      (c.level k q).lastOrderId = (b.level k q).lastOrderId)
    (htotal : ∀ k q, (c.level k q).totalAmount =
      ((A.atPrice k q).map fun i => (c.core i).amount).sum)
    (hhead : c.ownerHead = b.ownerHead) (htail : c.ownerTail = b.ownerTail)
    (hcount : c.orderCount = b.orderCount) : Rep c n A where
  bound i hi := ⟨(r.bound i ((hst i).mp hi)).1, (r.bound i ((hst i).mp hi)).2.1,
    hpos i ((hst i).mp hi)⟩
  mem_price k q i := by rw [r.mem_price, hst, hkey, hprice]
  sorted := r.sorted
  level_iff k q := (hsome k q).trans (r.level_iff k q)
  linkedP k q := by
    refine (r.linkedP k q).congr ?_ fun a _ => ?_ <;>
      simp [nextP, prevP, hends, congrArg Links.nextAtPrice (hlinks _),
        congrArg Links.prevAtPrice (hlinks _)]
  total := htotal
  mem_owner h i := by rw [r.mem_owner, hst, hown]
  nodup_owner := r.nodup_owner
  linkedO h := by
    refine (r.linkedO h).congr ?_ fun a _ => ?_ <;>
      simp [nextO, prevO, hhead, htail, congrArg Links.nextInOwner (hlinks _),
        congrArg Links.prevInOwner (hlinks _)]
  count := by
    rw [hcount, r.count]
    congr 1
    ext i
    simp [hst]

theorem addFilled (r : Rep b n A) (hs : b.Stored id) (x : ℕ) :
    Rep (b.modifyOrder id fun o => { o with filledAccum := o.filledAccum + x }) n A := by
  have hp {α : Type} (π : Order → α) (h : ∀ o : Order, ∀ y, π { o with filledAccum := y } = π o)
      (i) := modifyOrder_proj b id i (fun o => { o with filledAccum := o.filledAccum + x }) π
        fun o => h o _
  have hamt (i) := hp (fun o => o.unlinked.amount) (fun _ _ => rfl) i
  refine r.congr (fun i => ?_) (hp (fun o => o.unlinked.key) fun _ _ => rfl)
    (hp (fun o => o.unlinked.price) fun _ _ => rfl)
    (hp (fun o => o.unlinked.depositHash) fun _ _ => rfl)
    (hp Order.toLinks fun _ _ => rfl) (fun i hi => ?_) (fun _ _ => Iff.rfl)
    (fun _ _ => ⟨rfl, rfl⟩) (fun k q => ?_) rfl rfl rfl
  · rw [modifyOrder_stored, or_iff_right_of_imp]
    rintro rfl
    exact hs
  · rw [core, hamt]
    exact (r.bound i hi).2.2
  · simp only [core, hamt]
    exact r.total k q

/-- A partial fill shrinks the order and its level by the same amount. -/
theorem shrink (r : Rep b n A) (hs : b.Stored id) (x : ℕ) (hx : x < (b.order id).amount) :
    Rep ((b.modifyOrder id fun o => { o with amount := (b.order id).amount - x }).setLevel
      (b.order id).key (b.order id).price
      { b.level (b.order id).key (b.order id).price with totalAmount :=
        (b.level (b.order id).key (b.order id).price).totalAmount - x }) n A := by
  set c := b.modifyOrder id fun o => { o with amount := (b.order id).amount - x } with hc
  have hp {α : Type} (π : Order → α) (h : ∀ o : Order, ∀ y, π { o with amount := y } = π o)
      (i) := modifyOrder_proj b id i (fun o => { o with amount := (b.order id).amount - x }) π
        fun o => h o _
  have hamt (i) : (c.core i).amount =
      if i = id then (b.order id).amount - x else (b.core i).amount := by
    rw [core, hc, modifyOrder_order]
    split_ifs <;> rfl
  have hmem := r.mem_own_level hs
  refine r.congr (fun i => ?_) (hp (fun o => o.unlinked.key) fun _ _ => rfl)
    (hp (fun o => o.unlinked.price) fun _ _ => rfl)
    (hp (fun o => o.unlinked.depositHash) fun _ _ => rfl)
    (hp Order.toLinks fun _ _ => rfl) (fun i hi => ?_) (fun k q => ?_) (fun k q => ?_)
    (fun k q => ?_) rfl rfl rfl
  · rw [setLevel_stored, modifyOrder_stored, or_iff_right_of_imp]
    rintro rfl
    exact hs
  · rw [setLevel_core, hamt]
    split_ifs
    · omega
    · exact (r.bound i hi).2.2
  · rw [setLevel_get?]
    split_ifs with hkq
    · rw [hkq.1, hkq.2, r.level_iff]
      simpa using List.ne_nil_of_mem hmem
    · rfl
  · rw [setLevel_level]
    split_ifs with hkq
    · rw [hkq.1, hkq.2]
      exact ⟨rfl, rfl⟩
    · exact ⟨rfl, rfl⟩
  · have hsplit (l : List ℕ) (hl : l.Nodup) : (l.map fun i => (c.core i).amount).sum +
        (if id ∈ l then x else 0) = (l.map fun i => (b.core i).amount).sum := by
      induction l with
      | nil => rfl
      | cons y l ih =>
        have ih := ih (List.nodup_cons.mp hl).2
        have hy := (List.nodup_cons.mp hl).1
        have hid : (b.core id).amount = (b.order id).amount := rfl
        by_cases e : y = id
        · subst e
          have hyv := hamt y
          simp only [hy, if_false, if_true] at ih hyv
          simp only [List.map_cons, List.sum_cons, if_true, List.mem_cons, true_or]
          omega
        · have hyv := hamt y
          simp only [e, if_false] at hyv
          simp only [List.map_cons, List.sum_cons, List.mem_cons, Ne.symm e, false_or]
          omega
    simp only [setLevel_core]
    rw [setLevel_level]
    have hk := hsplit _ (r.nodup_price k q)
    rw [← r.total] at hk
    split_ifs with hkq
    · obtain ⟨rfl, rfl⟩ := hkq
      simp only [hmem, if_true] at hk
      simp only []
      omega
    · have : id ∉ A.atPrice k q := fun h => by
        have h1 := (r.mem_price _ _ _).mp h
        exact hkq ⟨h1.2.1.symm, h1.2.2.symm⟩
      simp only [this, if_false, Nat.add_zero] at hk
      exact hk.symm

end Rep

section Consume

variable {b : Book} {n : ℕ} {A : Index} {cur trade outcomeId : ℕ}

/-- The abstract book after a fill: a consumed maker leaves its lists. -/
def Index.fill (A : Index) (o : Order) (cur trade : ℕ) : Index :=
  if o.amount = trade then A.drop o.key o.price o.depositHash cur else A

/-- The record of a maker after a fill, links aside. -/
def filledCore (o : Order) (trade : ℕ) : Order :=
  if o.amount = trade then default
  else { o.unlinked with amount := o.amount - trade, filledAccum := o.filledAccum + trade }

theorem addFilled_order (x : ℕ) :
    (b.modifyOrder cur fun o => { o with filledAccum := o.filledAccum + x }).order cur =
      { b.order cur with filledAccum := (b.order cur).filledAccum + x } := by
  simp

theorem consume_full (h : (b.order cur).amount = trade) : b.consume outcomeId cur trade =
    (b.modifyOrder cur fun o =>
      { o with filledAccum := o.filledAccum + trade }).removeFromBook cur := by
  simp [consume, h]

theorem consume_partly (ho : (b.order cur).outcomeId = outcomeId)
    (h : (b.order cur).amount ≠ trade) : b.consume outcomeId cur trade =
      let c := b.modifyOrder cur fun o => { o with filledAccum := o.filledAccum + trade }
      (c.modifyOrder cur fun o => { o with amount := (c.order cur).amount - trade }).setLevel
        (c.order cur).key (c.order cur).price
        { c.level (c.order cur).key (c.order cur).price with totalAmount :=
          (c.level (c.order cur).key (c.order cur).price).totalAmount - trade } := by
  subst ho
  simp only [consume, h, if_false, addFilled_order]
  rfl

theorem Rep.consume (r : Rep b n A) (hs : b.Stored cur) (ho : (b.order cur).outcomeId = outcomeId)
    (ht : trade ≤ (b.order cur).amount) :
    Rep (b.consume outcomeId cur trade) n (A.fill (b.order cur) cur trade) := by
  have r1 := r.addFilled hs trade
  have hs1 : (b.modifyOrder cur fun o =>
      { o with filledAccum := o.filledAccum + trade }).Stored cur := by simp
  by_cases h : (b.order cur).amount = trade
  · rw [consume_full h, Index.fill, if_pos h]
    have r2 := r1.remove hs1
    rwa [addFilled_order] at r2
  · rw [consume_partly ho h, Index.fill, if_neg h]
    refine r1.shrink hs1 trade ?_
    rw [addFilled_order]
    exact lt_of_le_of_ne ht (Ne.symm h)

theorem consume_core (trade : ℕ) (r : Rep b n A) (hs : b.Stored cur)
    (ho : (b.order cur).outcomeId = outcomeId) (i : ℕ) :
    (b.consume outcomeId cur trade).core i =
      if i = cur then filledCore (b.order cur) trade else b.core i := by
  have r1 := r.addFilled hs trade
  have hs1 : (b.modifyOrder cur fun o =>
      { o with filledAccum := o.filledAccum + trade }).Stored cur := by simp
  by_cases h : (b.order cur).amount = trade
  · rw [consume_full h, removeFromBook_core r1 hs1, filledCore, if_pos h]
    split_ifs with hi
    · rfl
    · simp [core, hi]
  · rw [consume_partly ho h, filledCore, if_neg h]
    simp only [setLevel_core]
    simp only [core, modifyOrder_order]
    split_ifs <;> rfl

theorem consume_stored (r : Rep b n A) (hs : b.Stored cur)
    (ho : (b.order cur).outcomeId = outcomeId) (i : ℕ) :
    (b.consume outcomeId cur trade).Stored i ↔
      b.Stored i ∧ ¬ (i = cur ∧ (b.order cur).amount = trade) := by
  have r1 := r.addFilled hs trade
  have hs1 : (b.modifyOrder cur fun o =>
      { o with filledAccum := o.filledAccum + trade }).Stored cur := by simp
  by_cases h : (b.order cur).amount = trade
  · rw [consume_full h, removeFromBook_stored r1 hs1, modifyOrder_stored]
    simp only [h, and_true]
    tauto
  · rw [consume_partly ho h]
    simp only [setLevel_stored, modifyOrder_stored, h, and_false, not_false_eq_true, and_true]
    constructor
    · rintro (rfl | rfl | h)
      exacts [hs, hs, h]
    · exact fun h => .inr (.inr h)

end Consume

end Dexdo.Book
