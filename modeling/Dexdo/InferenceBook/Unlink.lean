import Dexdo.InferenceBook.Rep

namespace Dexdo.InferenceOrderBook.Book

section Halves

variable (b : Book) (o : Order) (i j : ℕ) (f : Links → Links)

theorem relink_order : (if j = 0 then b else b.modifyLinks j f).order i =
    if j ≠ 0 ∧ i = j then { b.order i with toLinks := f (b.order i).toLinks } else b.order i := by
  by_cases h0 : j = 0
  · simp [h0]
  · by_cases hi : i = j
    · subst hi; simp [h0]
    · simp [h0, hi]

theorem relink_stored (hj : j ≠ 0 → b.Stored j) :
    (if j = 0 then b else b.modifyLinks j f).Stored i ↔ b.Stored i := by
  split_ifs with h0
  · rfl
  · rw [modifyLinks_stored]
    exact or_iff_right_of_imp fun h => h ▸ hj h0

theorem unlinkAtPrice_order : (b.unlinkAtPrice o).order i =
    { b.order i with
      nextAtPrice := if o.prevAtPrice ≠ 0 ∧ i = o.prevAtPrice then o.nextAtPrice
        else (b.order i).nextAtPrice
      prevAtPrice := if o.nextAtPrice ≠ 0 ∧ i = o.nextAtPrice then o.prevAtPrice
        else (b.order i).prevAtPrice } := by
  have e : (b.unlinkAtPrice o).order i =
      (if o.nextAtPrice = 0 then
        (if o.prevAtPrice = 0 then b
          else b.modifyLinks o.prevAtPrice ({ · with nextAtPrice := o.nextAtPrice }))
      else (if o.prevAtPrice = 0 then b
        else b.modifyLinks o.prevAtPrice ({ · with nextAtPrice := o.nextAtPrice })).modifyLinks
          o.nextAtPrice ({ · with prevAtPrice := o.prevAtPrice })).order i := by
    unfold unlinkAtPrice
    dsimp only
    by_cases hl : (unlinkedLevel (b.level o.isBuy o.price) o).firstOrderId = 0
    · rw [if_pos hl, deleteLevel_order]
    · rw [if_neg hl, setLevel_order]
  rw [e, relink_order, relink_order]
  split_ifs <;> rfl

theorem unlinkAtPrice_stored (hp : o.prevAtPrice ≠ 0 → b.Stored o.prevAtPrice)
    (hn : o.nextAtPrice ≠ 0 → b.Stored o.nextAtPrice) :
    (b.unlinkAtPrice o).Stored i ↔ b.Stored i := by
  have hn' : o.nextAtPrice ≠ 0 → (if o.prevAtPrice = 0 then b
      else b.modifyLinks o.prevAtPrice ({ · with nextAtPrice := o.nextAtPrice })).Stored
        o.nextAtPrice := fun h0 => (relink_stored _ _ _ _ hp).mpr (hn h0)
  unfold unlinkAtPrice
  dsimp only
  by_cases hl : (unlinkedLevel (b.level o.isBuy o.price) o).firstOrderId = 0
  · rw [if_pos hl, deleteLevel_stored, relink_stored _ _ _ _ hn', relink_stored _ _ _ _ hp]
  · rw [if_neg hl, setLevel_stored, relink_stored _ _ _ _ hn', relink_stored _ _ _ _ hp]

theorem unlinkAtPrice_get? (k : Bool) (q : ℕ) : ((b.unlinkAtPrice o).levels k).get? q =
    if k = o.isBuy ∧ q = o.price then
      if (unlinkedLevel (b.level o.isBuy o.price) o).firstOrderId = 0 then none
      else some (unlinkedLevel (b.level o.isBuy o.price) o)
    else (b.levels k).get? q := by
  have hlv (b' : Book) (j : ℕ) (f : Links → Links) :
      (if j = 0 then b' else b'.modifyLinks j f).levels = b'.levels := by
    split_ifs
    · rfl
    · exact modifyLinks_levels ..
  unfold unlinkAtPrice
  dsimp only
  by_cases hl : (unlinkedLevel (b.level o.isBuy o.price) o).firstOrderId = 0
  · rw [if_pos hl, deleteLevel_get?, hlv, hlv, if_pos hl]
  · rw [if_neg hl, setLevel_get?, hlv, hlv, if_neg hl]

theorem unlinkAtPrice_frame : (b.unlinkAtPrice o).ownerHead = b.ownerHead ∧
    (b.unlinkAtPrice o).ownerTail = b.ownerTail ∧
    (b.unlinkAtPrice o).orderCount = b.orderCount := by
  unfold unlinkAtPrice
  dsimp only
  split_ifs <;> simp

theorem unlinkInOwner_order : (b.unlinkInOwner o).order i =
    { b.order i with
      nextInOwner := if o.prevInOwner ≠ 0 ∧ i = o.prevInOwner then o.nextInOwner
        else (b.order i).nextInOwner
      prevInOwner := if o.nextInOwner ≠ 0 ∧ i = o.nextInOwner then o.prevInOwner
        else (b.order i).prevInOwner } := by
  unfold unlinkInOwner
  dsimp only
  by_cases hp : o.prevInOwner = 0 <;> by_cases hn : o.nextInOwner = 0 <;>
    simp only [hp, hn, if_true, if_false, setOwnerTail_order, setOwnerHead_order,
      modifyLinks_order, ne_eq, not_true_eq_false, not_false_eq_true, false_and, true_and]
  all_goals split_ifs <;> simp_all

theorem unlinkInOwner_stored (hp : o.prevInOwner ≠ 0 → b.Stored o.prevInOwner)
    (hn : o.nextInOwner ≠ 0 → b.Stored o.nextInOwner) :
    (b.unlinkInOwner o).Stored i ↔ b.Stored i := by
  have h1 (j : ℕ) : (if o.prevInOwner = 0 then b.setOwnerHead o.note o.nextInOwner
      else b.modifyLinks o.prevInOwner ({ · with nextInOwner := o.nextInOwner })).Stored j ↔
      b.Stored j := by
    split_ifs with h0
    · exact setOwnerHead_stored ..
    · rw [modifyLinks_stored]
      exact or_iff_right_of_imp fun h => h ▸ hp h0
  unfold unlinkInOwner
  dsimp only
  by_cases hn0 : o.nextInOwner = 0
  · rw [if_pos hn0, setOwnerTail_stored, h1]
  · rw [if_neg hn0, modifyLinks_stored, h1]
    exact or_iff_right_of_imp fun h => h ▸ hn hn0

@[simp] theorem unlinkInOwner_levels : (b.unlinkInOwner o).levels = b.levels := by
  unfold unlinkInOwner
  dsimp only
  split_ifs <;> simp

@[simp] theorem unlinkInOwner_orderCount : (b.unlinkInOwner o).orderCount = b.orderCount := by
  unfold unlinkInOwner
  dsimp only
  split_ifs <;> simp

theorem unlinkInOwner_ownerHead : (b.unlinkInOwner o).ownerHead =
    if o.prevInOwner = 0 then Function.update b.ownerHead o.note o.nextInOwner
    else b.ownerHead := by
  unfold unlinkInOwner
  dsimp only
  split_ifs <;> simp

theorem unlinkInOwner_ownerTail : (b.unlinkInOwner o).ownerTail =
    if o.nextInOwner = 0 then Function.update b.ownerTail o.note o.prevInOwner
    else b.ownerTail := by
  unfold unlinkInOwner
  dsimp only
  split_ifs <;> simp

end Halves

section Remove

variable (b : Book) (id i : ℕ)

/-- What is left of a record once `id` is out of the book. -/
def bypass (b : Book) (id i : ℕ) : Links where
  nextAtPrice := if (b.order id).prevAtPrice ≠ 0 ∧ i = (b.order id).prevAtPrice
    then (b.order id).nextAtPrice else (b.order i).nextAtPrice
  prevAtPrice := if (b.order id).nextAtPrice ≠ 0 ∧ i = (b.order id).nextAtPrice
    then (b.order id).prevAtPrice else (b.order i).prevAtPrice
  nextInOwner := if (b.order id).prevInOwner ≠ 0 ∧ i = (b.order id).prevInOwner
    then (b.order id).nextInOwner else (b.order i).nextInOwner
  prevInOwner := if (b.order id).nextInOwner ≠ 0 ∧ i = (b.order id).nextInOwner
    then (b.order id).prevInOwner else (b.order i).prevInOwner

theorem removeOrder_order : (b.removeOrder id).order i =
    if i = id then default else { b.order i with toLinks := b.bypass id i } := by
  simp only [removeOrder]
  rw [show ∀ b' : Book, ∀ c, ({ b' with orderCount := c } : Book).order i = b'.order i from
    fun _ _ => rfl, deleteOrder_order]
  split_ifs
  · rfl
  · rw [unlinkInOwner_order, unlinkAtPrice_order]
    rfl

theorem removeOrder_core : (b.removeOrder id).core i =
    if i = id then { (default : Order) with toLinks := default } else b.core i := by
  rw [core, removeOrder_order]
  split_ifs <;> rfl

theorem removeOrder_get? (k : Bool) (q : ℕ) : ((b.removeOrder id).levels k).get? q =
    if k = (b.order id).isBuy ∧ q = (b.order id).price then
      if (unlinkedLevel (b.level (b.order id).isBuy (b.order id).price)
        (b.order id)).firstOrderId = 0 then none
      else some (unlinkedLevel (b.level (b.order id).isBuy (b.order id).price) (b.order id))
    else (b.levels k).get? q := by
  simp only [removeOrder, deleteOrder_levels, unlinkInOwner_levels]
  rw [unlinkAtPrice_get?]

end Remove

namespace Rep

variable {b : Book} {n : ℕ} {A : Index} {id : ℕ} (r : Rep b n A) (hs : b.Stored id)

include r hs

theorem mem_own_level : id ∈ A.atPrice ((b.order id).isBuy, (b.order id).price) :=
  (r.mem_price _ id).mpr ⟨hs, rfl⟩

theorem mem_own_list : id ∈ A.ofOwner (b.order id).note := (r.mem_owner _ id).mpr ⟨hs, rfl⟩

theorem prevAtPrice_stored (h : (b.order id).prevAtPrice ≠ 0) : b.Stored (b.order id).prevAtPrice :=
  ((r.mem_price _ _).mp (r.priceLinks.prev_mem (r.mem_own_level hs) h)).1

theorem nextAtPrice_stored (h : (b.order id).nextAtPrice ≠ 0) : b.Stored (b.order id).nextAtPrice :=
  ((r.mem_price _ _).mp (r.priceLinks.next_mem (r.mem_own_level hs) h)).1

theorem prevInOwner_stored (h : (b.order id).prevInOwner ≠ 0) : b.Stored (b.order id).prevInOwner :=
  ((r.mem_owner _ _).mp (r.ownerLinks.prev_mem (r.mem_own_list hs) h)).1

theorem nextInOwner_stored (h : (b.order id).nextInOwner ≠ 0) : b.Stored (b.order id).nextInOwner :=
  ((r.mem_owner _ _).mp (r.ownerLinks.next_mem (r.mem_own_list hs) h)).1

theorem removeOrder_stored (i : ℕ) : (b.removeOrder id).Stored i ↔ i ≠ id ∧ b.Stored i := by
  have hu (j : ℕ) : (b.unlinkAtPrice (b.order id)).Stored j ↔ b.Stored j :=
    unlinkAtPrice_stored b _ j (r.prevAtPrice_stored hs) (r.nextAtPrice_stored hs)
  simp only [removeOrder]
  rw [show ∀ b' : Book, ∀ c, ({ b' with orderCount := c } : Book).Stored i ↔ b'.Stored i from
    fun _ _ => Iff.rfl, deleteOrder_stored, unlinkInOwner_stored, hu]
  · exact fun h => (hu _).mpr (r.prevInOwner_stored hs h)
  · exact fun h => (hu _).mpr (r.nextInOwner_stored hs h)

theorem unlinkedLevel_first_eq_zero :
    (unlinkedLevel (b.level (b.order id).isBuy (b.order id).price) (b.order id)).firstOrderId = 0 ↔
      (A.atPrice ((b.order id).isBuy, (b.order id).price)).erase id = [] := by
  have h := (r.priceLinks.unlink (r.mem_own_level hs)).first_eq_zero
    ((b.order id).isBuy, (b.order id).price)
  rw [Chains.unlink_first, Function.update_self] at h
  rw [← h]
  simp [unlinkedLevel, atPrice]

theorem removeOrder_level (k : Bool) (q : ℕ) : (b.removeOrder id).level k q =
    if k = (b.order id).isBuy ∧ q = (b.order id).price then
      unlinkedLevel (b.level (b.order id).isBuy (b.order id).price) (b.order id)
    else b.level k q := by
  rw [level, removeOrder_get?]
  split_ifs with hk h0
  · have h := (r.priceLinks.unlink (r.mem_own_level hs)).last_eq_zero
      ((b.order id).isBuy, (b.order id).price)
    rw [Chains.unlink_last, Function.update_self] at h
    have hlast : (unlinkedLevel (b.level (b.order id).isBuy (b.order id).price)
        (b.order id)).lastOrderId = 0 := by
      simpa [unlinkedLevel, atPrice] using h.mpr ((r.unlinkedLevel_first_eq_zero hs).mp h0)
    generalize unlinkedLevel (b.level (b.order id).isBuy (b.order id).price) (b.order id) = l at *
    cases l
    exact congrArg₂ PriceLevel.mk h0.symm hlast.symm
  · rfl
  · rfl

theorem removeOrder_atPrice : (b.removeOrder id).atPrice =
    b.atPrice.unlink ((b.order id).isBuy, (b.order id).price) id := by
  apply Chains.ext
  · funext k
    rw [Chains.unlink_first]
    simp only [atPrice, r.removeOrder_level hs, Prod.ext_iff]
    by_cases hk : k.1 = (b.order id).isBuy ∧ k.2 = (b.order id).price
    · simp [hk, unlinkedLevel]
    · simp [hk]
  · funext k
    rw [Chains.unlink_last]
    simp only [atPrice, r.removeOrder_level hs, Prod.ext_iff]
    by_cases hk : k.1 = (b.order id).isBuy ∧ k.2 = (b.order id).price
    · simp [hk, unlinkedLevel]
    · simp [hk]
  · funext i
    rw [Chains.unlink_next]
    simp only [atPrice, removeOrder_order]
    by_cases hi : i = id
    · rw [if_pos hi, if_pos hi]
      rfl
    · rw [if_neg hi, if_neg hi]
      rfl
  · funext i
    rw [Chains.unlink_prev]
    simp only [atPrice, removeOrder_order]
    by_cases hi : i = id
    · rw [if_pos hi, if_pos hi]
      rfl
    · rw [if_neg hi, if_neg hi]
      rfl

omit r hs in
theorem removeOrder_ofOwner : (b.removeOrder id).ofOwner =
    b.ofOwner.unlink (b.order id).note id := by
  obtain ⟨hh, ht, -⟩ := unlinkAtPrice_frame b (b.order id)
  apply Chains.ext
  · funext a
    rw [Chains.unlink_first]
    simp only [ofOwner, removeOrder, deleteOrder_ownerHead, unlinkInOwner_ownerHead, hh]
    by_cases h0 : (b.order id).prevInOwner = 0
    · simp [h0, Function.update_apply]
    · simp [h0]
  · funext a
    rw [Chains.unlink_last]
    simp only [ofOwner, removeOrder, deleteOrder_ownerTail, unlinkInOwner_ownerTail, ht]
    by_cases h0 : (b.order id).nextInOwner = 0
    · simp [h0, Function.update_apply]
    · simp [h0]
  · funext i
    rw [Chains.unlink_next]
    simp only [ofOwner, removeOrder_order]
    by_cases hi : i = id
    · rw [if_pos hi, if_pos hi]
      rfl
    · rw [if_neg hi, if_neg hi]
      rfl
  · funext i
    rw [Chains.unlink_prev]
    simp only [ofOwner, removeOrder_order]
    by_cases hi : i = id
    · rw [if_pos hi, if_pos hi]
      rfl
    · rw [if_neg hi, if_neg hi]
      rfl

/-- Removing a stored order keeps the representation. -/
theorem remove : Rep (b.removeOrder id) n
    ⟨Function.update A.atPrice ((b.order id).isBuy, (b.order id).price)
        ((A.atPrice ((b.order id).isBuy, (b.order id).price)).erase id),
      Function.update A.ofOwner (b.order id).note ((A.ofOwner (b.order id).note).erase id)⟩ := by
  have hst := r.removeOrder_stored hs
  have hkey (i : ℕ) (hi : i ≠ id) : (b.removeOrder id).key i = b.key i := by
    rw [key, removeOrder_core, if_neg hi]
    rfl
  refine ⟨fun i hi => ?_, fun k i => ?_, fun k => ?_, fun k => ?_, ?_, fun a i => ?_, ?_, ?_⟩
  · obtain ⟨hne, hi⟩ := (hst i).mp hi
    rw [removeOrder_core, if_neg hne]
    exact r.bound i hi
  · rw [hst]
    by_cases hk : k = ((b.order id).isBuy, (b.order id).price)
    · subst hk
      simp only [Function.update_self, (r.priceLinks.nodup _).mem_erase_iff, r.mem_price, and_assoc]
      refine and_congr_right fun hi => ?_
      rw [hkey i hi]
    · simp only [Function.update_of_ne hk, r.mem_price]
      by_cases hi : i = id
      · subst hi
        simp only [ne_eq, not_true_eq_false, false_and, iff_false]
        exact fun h => hk h.2.symm
      · simp [hi, hkey]
  · by_cases hk : k = ((b.order id).isBuy, (b.order id).price)
    · subst hk
      simp only [Function.update_self]
      exact (r.sorted _).sublist List.erase_sublist
    · simp only [Function.update_of_ne hk]
      exact r.sorted k
  · rw [removeOrder_get?]
    by_cases hk : k = ((b.order id).isBuy, (b.order id).price)
    · subst hk
      simp only [and_self, if_true, Function.update_self, ne_eq,
        ← r.unlinkedLevel_first_eq_zero hs]
      split_ifs with hz <;> simp [hz]
    · have h2 : ¬ (k.1 = (b.order id).isBuy ∧ k.2 = (b.order id).price) :=
        fun h => hk (Prod.ext h.1 h.2)
      simp only [if_neg h2, Function.update_of_ne hk]
      exact r.level_iff k
  · rw [r.removeOrder_atPrice hs]
    exact r.priceLinks.unlink (r.mem_own_level hs)
  · rw [hst]
    by_cases hk : a = (b.order id).note
    · subst hk
      simp only [Function.update_self, (r.ownerLinks.nodup _).mem_erase_iff, r.mem_owner, and_assoc]
      refine and_congr_right fun hi => ?_
      rw [removeOrder_core, if_neg hi]
    · simp only [Function.update_of_ne hk, r.mem_owner]
      by_cases hi : i = id
      · subst hi
        simp only [ne_eq, not_true_eq_false, false_and, iff_false]
        exact fun h => hk h.2.symm
      · simp [hi, removeOrder_core]
  · rw [removeOrder_ofOwner]
    exact r.ownerLinks.unlink (r.mem_own_list hs)
  · have e : (Finset.range n).filter (b.removeOrder id).Stored =
        ((Finset.range n).filter b.Stored).erase id := by
      ext i
      simp only [Finset.mem_filter, Finset.mem_erase, hst]
      tauto
    have hm : id ∈ (Finset.range n).filter b.Stored := by
      simp [(r.bound id hs).2.1, hs]
    have hc : (b.removeOrder id).orderCount = b.orderCount - 1 := by
      simp [removeOrder, (unlinkAtPrice_frame b (b.order id)).2.2]
    rw [hc, e, Finset.card_erase_of_mem hm, r.count]

end Rep

end Dexdo.InferenceOrderBook.Book
