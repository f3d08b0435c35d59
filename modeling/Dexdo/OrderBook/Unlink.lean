import Dexdo.OrderBook.Rep

namespace Dexdo.Book

section Remove

variable (b : Book) (o : Order) (i : ℕ)

theorem unlinkAtPrice_toLinks : ((b.unlinkAtPrice o).order i).toLinks =
    { (b.order i).toLinks with
      nextAtPrice := if i ≠ 0 ∧ i = o.prevAtPrice then o.nextAtPrice
        else (b.order i).nextAtPrice
      prevAtPrice := if i ≠ 0 ∧ i = o.nextAtPrice then o.prevAtPrice
        else (b.order i).prevAtPrice } := by
  have e : ((b.unlinkAtPrice o).order i).toLinks =
      ((if o.nextAtPrice = 0 then
        (if o.prevAtPrice = 0 then b
          else b.modifyLinks o.prevAtPrice ({ · with nextAtPrice := o.nextAtPrice }))
        else (if o.prevAtPrice = 0 then b
          else b.modifyLinks o.prevAtPrice ({ · with nextAtPrice := o.nextAtPrice })).modifyLinks
            o.nextAtPrice ({ · with prevAtPrice := o.prevAtPrice })).order i).toLinks := by
    unfold unlinkAtPrice
    dsimp only
    split_ifs <;> rfl
  rw [e]
  by_cases h1 : o.nextAtPrice = 0 <;> by_cases h2 : o.prevAtPrice = 0 <;>
    by_cases h3 : i = o.nextAtPrice <;> by_cases h4 : i = o.prevAtPrice <;> simp_all

theorem unlinkInOwner_toLinks : ((b.unlinkInOwner o).order i).toLinks =
    { (b.order i).toLinks with
      nextInOwner := if i ≠ 0 ∧ i = o.prevInOwner then o.nextInOwner
        else (b.order i).nextInOwner
      prevInOwner := if i ≠ 0 ∧ i = o.nextInOwner then o.prevInOwner
        else (b.order i).prevInOwner } := by
  unfold unlinkInOwner
  dsimp only
  by_cases h1 : o.nextInOwner = 0 <;> by_cases h2 : o.prevInOwner = 0 <;>
    by_cases h3 : i = o.nextInOwner <;> by_cases h4 : i = o.prevInOwner <;> simp_all

@[simp] theorem unlinkAtPrice_core : (b.unlinkAtPrice o).core i = b.core i := by
  unfold unlinkAtPrice
  dsimp only
  split_ifs <;> simp

@[simp] theorem unlinkInOwner_core : (b.unlinkInOwner o).core i = b.core i := by
  unfold unlinkInOwner
  dsimp only
  split_ifs <;> simp

theorem unlinkAtPrice_stored (hp : o.prevAtPrice ≠ 0 → b.Stored o.prevAtPrice)
    (hn : o.nextAtPrice ≠ 0 → b.Stored o.nextAtPrice) :
    (b.unlinkAtPrice o).Stored i ↔ b.Stored i := by
  unfold unlinkAtPrice
  dsimp only
  split_ifs <;> simp only [deleteLevel_stored, setLevel_stored, modifyLinks_stored] <;> grind

theorem unlinkInOwner_stored (hp : o.prevInOwner ≠ 0 → b.Stored o.prevInOwner)
    (hn : o.nextInOwner ≠ 0 → b.Stored o.nextInOwner) :
    (b.unlinkInOwner o).Stored i ↔ b.Stored i := by
  unfold unlinkInOwner
  dsimp only
  split_ifs <;> simp only [setOwnerTail_stored, setOwnerHead_stored, modifyLinks_stored] <;> grind

theorem unlinkAtPrice_get? (k' : LevelKey) (q' : ℕ) :
    ((b.unlinkAtPrice o).levels k').get? q' =
      if k' = o.key ∧ q' = o.price then
        (if (unlinkedLevel (b.level o.key o.price) o).firstOrderId = 0 then none
          else some (unlinkedLevel (b.level o.key o.price) o))
      else (b.levels k').get? q' := by
  unfold unlinkAtPrice
  dsimp only
  split_ifs <;> simp_all [deleteLevel_get?, setLevel_get?]

@[simp] theorem unlinkAtPrice_ownerHead : (b.unlinkAtPrice o).ownerHead = b.ownerHead := by
  unfold unlinkAtPrice
  dsimp only
  split_ifs <;> simp

@[simp] theorem unlinkAtPrice_ownerTail : (b.unlinkAtPrice o).ownerTail = b.ownerTail := by
  unfold unlinkAtPrice
  dsimp only
  split_ifs <;> simp

@[simp] theorem unlinkAtPrice_orderCount : (b.unlinkAtPrice o).orderCount = b.orderCount := by
  unfold unlinkAtPrice
  dsimp only
  split_ifs <;> simp

@[simp] theorem unlinkInOwner_levels : (b.unlinkInOwner o).levels = b.levels := by
  unfold unlinkInOwner
  dsimp only
  split_ifs <;> simp

@[simp] theorem unlinkInOwner_orderCount : (b.unlinkInOwner o).orderCount = b.orderCount := by
  unfold unlinkInOwner
  dsimp only
  split_ifs <;> simp

theorem unlinkInOwner_ownerHead (h : ℕ) : (b.unlinkInOwner o).ownerHead h =
    if o.prevInOwner = 0 ∧ h = o.depositHash then o.nextInOwner else b.ownerHead h := by
  unfold unlinkInOwner
  dsimp only
  split_ifs <;> simp_all

theorem unlinkInOwner_ownerTail (h : ℕ) : (b.unlinkInOwner o).ownerTail h =
    if o.nextInOwner = 0 ∧ h = o.depositHash then o.prevInOwner else b.ownerTail h := by
  unfold unlinkInOwner
  dsimp only
  split_ifs <;> simp_all

end Remove

namespace Rep

variable {b : Book} {n : ℕ} {A : Index} {id : ℕ}

theorem mem_own_level (r : Rep b n A) (hs : b.Stored id) :
    id ∈ A.atPrice (b.order id).key (b.order id).price :=
  (r.mem_price _ _ _).mpr ⟨hs, rfl, rfl⟩

theorem mem_own_list (r : Rep b n A) (hs : b.Stored id) :
    id ∈ A.ofOwner (b.order id).depositHash :=
  (r.mem_owner _ _).mpr ⟨hs, rfl⟩

theorem linksP_of_split (r : Rep b n A) (k : LevelKey) (q : ℕ) {u v : List ℕ}
    (e : A.atPrice k q = u ++ id :: v) :
    (b.order id).nextAtPrice = v.head?.getD 0 ∧ (b.order id).prevAtPrice = u.getLast?.getD 0 := by
  have h0 : id ≠ 0 := fun h => r.zero_notMem_price k q (by simp [e, h])
  have hl := r.linkedP k q
  rw [e] at hl
  have h1 := hl.next_of_split
  have h2 := hl.prev_of_split
  simp only [nextP, prevP, h0, if_false] at h1 h2
  exact ⟨h1, h2⟩

theorem linksO_of_split (r : Rep b n A) (h : ℕ) {u v : List ℕ} (e : A.ofOwner h = u ++ id :: v) :
    (b.order id).nextInOwner = v.head?.getD 0 ∧ (b.order id).prevInOwner = u.getLast?.getD 0 := by
  have h0 : id ≠ 0 := fun h' => r.zero_notMem_owner h (by simp [e, h'])
  have hl := r.linkedO h
  rw [e] at hl
  have h1 := hl.next_of_split
  have h2 := hl.prev_of_split
  simp only [nextO, prevO, h0, if_false] at h1 h2
  exact ⟨h1, h2⟩

theorem neighbours_price (r : Rep b n A) (hs : b.Stored id) (x : ℕ) (hx : x ≠ 0)
    (h : x = (b.order id).nextAtPrice ∨ x = (b.order id).prevAtPrice) :
    x ∈ A.atPrice (b.order id).key (b.order id).price := by
  obtain ⟨u, v, e⟩ := List.append_of_mem (r.mem_own_level hs)
  obtain ⟨h1, h2⟩ := r.linksP_of_split _ _ e
  rw [e]
  rcases h with rfl | rfl
  · rw [h1] at hx ⊢
    cases v with
    | nil => simp at hx
    | cons => simp
  · rw [h2] at hx ⊢
    cases hl : u.getLast? with
    | none => simp [hl] at hx
    | some => simp [List.mem_of_getLast? hl]

theorem neighbours_owner (r : Rep b n A) (hs : b.Stored id) (x : ℕ) (hx : x ≠ 0)
    (h : x = (b.order id).nextInOwner ∨ x = (b.order id).prevInOwner) :
    x ∈ A.ofOwner (b.order id).depositHash := by
  obtain ⟨u, v, e⟩ := List.append_of_mem (r.mem_own_list hs)
  obtain ⟨h1, h2⟩ := r.linksO_of_split _ e
  rw [e]
  rcases h with rfl | rfl
  · rw [h1] at hx ⊢
    cases v with
    | nil => simp at hx
    | cons => simp
  · rw [h2] at hx ⊢
    cases hl : u.getLast? with
    | none => simp [hl] at hx
    | some => simp [List.mem_of_getLast? hl]

end Rep

section RemoveStored

variable {b : Book} {n : ℕ} {A : Index} {id : ℕ} (r : Rep b n A) (hs : b.Stored id)
include r hs

theorem removeFromBook_eq : b.removeFromBook id =
    { ((b.unlinkAtPrice (b.order id)).unlinkInOwner (b.order id)).deleteOrder id with
      orderCount := b.orderCount - 1 } := by
  have ha : ¬ ((b.order id).depositHash = 0 ∧ (b.order id).amount = 0) := fun h =>
    (r.bound id hs).2.2.ne' h.2
  unfold removeFromBook
  simp only [ha, if_false]
  simp [deleteOrder]

theorem removeFromBook_core (i : ℕ) :
    (b.removeFromBook id).core i = if i = id then default else b.core i := by
  have e : (b.removeFromBook id).core i =
      (((b.unlinkAtPrice (b.order id)).unlinkInOwner (b.order id)).deleteOrder id).core i := by
    rw [removeFromBook_eq r hs]; rfl
  rw [e, core, deleteOrder_order]
  split_ifs
  · rfl
  · exact (unlinkInOwner_core ..).trans (unlinkAtPrice_core ..)

theorem removeFromBook_stored (i : ℕ) :
    (b.removeFromBook id).Stored i ↔ i ≠ id ∧ b.Stored i := by
  have hP (x) (hx : x ≠ 0) (h) : b.Stored x :=
    ((r.mem_price _ _ _).mp (r.neighbours_price hs x hx h)).1
  have hO (x) (hx : x ≠ 0) (h) : b.Stored x :=
    ((r.mem_owner _ _).mp (r.neighbours_owner hs x hx h)).1
  have e1 (x) := unlinkAtPrice_stored b (b.order id) x (fun h => hP _ h (.inr rfl))
    (fun h => hP _ h (.inl rfl))
  have e2 := unlinkInOwner_stored (b.unlinkAtPrice (b.order id)) (b.order id) i
    (fun h => (e1 _).mpr (hO _ h (.inr rfl))) (fun h => (e1 _).mpr (hO _ h (.inl rfl)))
  rw [removeFromBook_eq r hs]
  exact (deleteOrder_stored ..).trans (and_congr_right fun _ => e2.trans (e1 i))

theorem removeFromBook_toLinks (i : ℕ) (hi : i ≠ id) :
    ((b.removeFromBook id).order i).toLinks =
      { nextAtPrice := if i ≠ 0 ∧ i = (b.order id).prevAtPrice then (b.order id).nextAtPrice
          else (b.order i).nextAtPrice
        prevAtPrice := if i ≠ 0 ∧ i = (b.order id).nextAtPrice then (b.order id).prevAtPrice
          else (b.order i).prevAtPrice
        nextInOwner := if i ≠ 0 ∧ i = (b.order id).prevInOwner then (b.order id).nextInOwner
          else (b.order i).nextInOwner
        prevInOwner := if i ≠ 0 ∧ i = (b.order id).nextInOwner then (b.order id).prevInOwner
          else (b.order i).prevInOwner } := by
  have e : (b.removeFromBook id).order i =
      (((b.unlinkAtPrice (b.order id)).unlinkInOwner (b.order id)).deleteOrder id).order i := by
    rw [removeFromBook_eq r hs]; rfl
  rw [e, deleteOrder_order, if_neg hi, unlinkInOwner_toLinks, unlinkAtPrice_toLinks]

theorem removeFromBook_get? (k : LevelKey) (q : ℕ) :
    ((b.removeFromBook id).levels k).get? q =
      if k = (b.order id).key ∧ q = (b.order id).price then
        (if (unlinkedLevel (b.level (b.order id).key (b.order id).price) (b.order id)).firstOrderId
          = 0 then none
        else some (unlinkedLevel (b.level (b.order id).key (b.order id).price) (b.order id)))
      else (b.levels k).get? q := by
  have e : (b.removeFromBook id).levels = (b.unlinkAtPrice (b.order id)).levels := by
    rw [removeFromBook_eq r hs]
    exact unlinkInOwner_levels ..
  rw [e, unlinkAtPrice_get?]

theorem removeFromBook_ownerHead (h : ℕ) : (b.removeFromBook id).ownerHead h =
    if (b.order id).prevInOwner = 0 ∧ h = (b.order id).depositHash then (b.order id).nextInOwner
    else b.ownerHead h := by
  rw [removeFromBook_eq r hs]
  refine (unlinkInOwner_ownerHead ..).trans ?_
  rw [unlinkAtPrice_ownerHead]

theorem removeFromBook_ownerTail (h : ℕ) : (b.removeFromBook id).ownerTail h =
    if (b.order id).nextInOwner = 0 ∧ h = (b.order id).depositHash then (b.order id).prevInOwner
    else b.ownerTail h := by
  rw [removeFromBook_eq r hs]
  refine (unlinkInOwner_ownerTail ..).trans ?_
  rw [unlinkAtPrice_ownerTail]

theorem removeFromBook_orderCount : (b.removeFromBook id).orderCount = b.orderCount - 1 := by
  rw [removeFromBook_eq r hs]

end RemoveStored

namespace Rep

variable {b : Book} {n : ℕ} {A : Index} {id : ℕ} (r : Rep b n A) (hs : b.Stored id)
include r hs

/-- The level record written by a removal is read back even when the level was deleted. -/
theorem remove_level : (b.removeFromBook id).nextP (b.order id).key (b.order id).price 0 =
      Function.update (b.nextP (b.order id).key (b.order id).price) (b.order id).prevAtPrice
        (b.order id).nextAtPrice 0 ∧
    (b.removeFromBook id).prevP (b.order id).key (b.order id).price 0 =
      Function.update (b.prevP (b.order id).key (b.order id).price) (b.order id).nextAtPrice
        (b.order id).prevAtPrice 0 := by
  have h0 : id ≠ 0 := (r.bound id hs).1.ne'
  have hl := (r.linkedP (b.order id).key (b.order id).price).erase (r.nodup_price _ _)
    (r.zero_notMem_price _ _) (r.mem_own_level hs) (fun _ _ => rfl) (fun _ _ => rfl)
  have hz : 0 ∉ (A.atPrice (b.order id).key (b.order id).price).erase id := fun h =>
    r.zero_notMem_price _ _ (List.mem_of_mem_erase h)
  have hh := hl.head_eq
  have ht := hl.last_eq
  have e1 : b.nextP (b.order id).key (b.order id).price id = (b.order id).nextAtPrice := by
    simp [nextP, h0]
  have e2 : b.prevP (b.order id).key (b.order id).price id = (b.order id).prevAtPrice := by
    simp [prevP, h0]
  rw [e1, e2] at hh ht
  set l := unlinkedLevel (b.level (b.order id).key (b.order id).price) (b.order id) with hldef
  have f1 : l.firstOrderId = Function.update (b.nextP (b.order id).key (b.order id).price)
      (b.order id).prevAtPrice (b.order id).nextAtPrice 0 := by
    simp [hldef, unlinkedLevel, nextP, Function.update_apply, eq_comm]
  have f2 : l.lastOrderId = Function.update (b.prevP (b.order id).key (b.order id).price)
      (b.order id).nextAtPrice (b.order id).prevAtPrice 0 := by
    simp [hldef, unlinkedLevel, prevP, Function.update_apply, eq_comm]
  have g1 : (b.removeFromBook id).level (b.order id).key (b.order id).price =
      if l.firstOrderId = 0 then default else l := by
    rw [level, removeFromBook_get? r hs]
    simp only [and_self, if_true, ← hldef]
    split_ifs <;> rfl
  rw [← f1, ← f2]
  simp only [nextP, prevP, if_true, g1]
  split_ifs with hz1
  · have hnil : (A.atPrice (b.order id).key (b.order id).price).erase id = [] := by
      cases hc : (A.atPrice (b.order id).key (b.order id).price).erase id with
      | nil => rfl
      | cons =>
        rw [f1, hh, hc] at hz1
        exact absurd (hc ▸ List.mem_cons.mpr (.inl hz1.symm)) hz
    rw [f2, ht, hnil, hz1]
    exact ⟨rfl, rfl⟩
  · exact ⟨rfl, rfl⟩

theorem remove_linkedP (k : LevelKey) (q : ℕ) :
    Linked ((b.removeFromBook id).nextP k q) ((b.removeFromBook id).prevP k q)
      ((A.drop (b.order id).key (b.order id).price (b.order id).depositHash id).atPrice k q) := by
  have h0 : id ≠ 0 := (r.bound id hs).1.ne'
  have hlk (i) (hi) := removeFromBook_toLinks r hs i hi
  have hN (i) (hi) := congrArg Links.nextAtPrice (hlk i hi)
  have hP (i) (hi) := congrArg Links.prevAtPrice (hlk i hi)
  by_cases hkq : k = (b.order id).key ∧ q = (b.order id).price
  · obtain ⟨rfl, rfl⟩ := hkq
    simp only [Index.drop, and_self, if_true]
    refine (r.linkedP _ _).erase (r.nodup_price _ _) (r.zero_notMem_price _ _)
      (r.mem_own_level hs) (fun c hc => ?_) (fun c hc => ?_)
    · by_cases hc0 : c = 0
      · subst hc0
        simpa [nextP, prevP, h0] using (r.remove_level hs).1
      · simp [nextP, prevP, h0, hc0, hN c hc, Function.update_apply]
    · by_cases hc0 : c = 0
      · subst hc0
        simpa [nextP, prevP, h0] using (r.remove_level hs).2
      · simp [nextP, prevP, h0, hc0, hP c hc, Function.update_apply]
  · simp only [Index.drop, hkq, if_false]
    have hlev : (b.removeFromBook id).level k q = b.level k q := by
      rw [level, removeFromBook_get? r hs, if_neg hkq]
      rfl
    refine (r.linkedP k q).congr (by simp [nextP, prevP, hlev]) fun c hc => ?_
    have hc0 : c ≠ 0 := fun e => r.zero_notMem_price k q (e ▸ hc)
    have hcl := (r.mem_price _ _ _).mp hc
    have hne (x) (hx : x ∈ A.atPrice (b.order id).key (b.order id).price) : c ≠ x := by
      rintro rfl
      have := (r.mem_price _ _ _).mp hx
      exact hkq ⟨hcl.2.1.symm.trans this.2.1, hcl.2.2.symm.trans this.2.2⟩
    have hcid := hne id (r.mem_own_level hs)
    have hcn : c ≠ (b.order id).nextAtPrice := fun e =>
      hne _ (r.neighbours_price hs c hc0 (.inl e)) rfl
    have hcp : c ≠ (b.order id).prevAtPrice := fun e =>
      hne _ (r.neighbours_price hs c hc0 (.inr e)) rfl
    simp [nextP, prevP, hc0, hN c hcid, hP c hcid, hcn, hcp]

theorem remove_linkedO (h : ℕ) :
    Linked ((b.removeFromBook id).nextO h) ((b.removeFromBook id).prevO h)
      ((A.drop (b.order id).key (b.order id).price (b.order id).depositHash id).ofOwner h) := by
  have h0 : id ≠ 0 := (r.bound id hs).1.ne'
  have hlk (i) (hi) := removeFromBook_toLinks r hs i hi
  have hN (i) (hi) := congrArg Links.nextInOwner (hlk i hi)
  have hP (i) (hi) := congrArg Links.prevInOwner (hlk i hi)
  by_cases hh : h = (b.order id).depositHash
  · subst hh
    simp only [Index.drop, if_true]
    refine (r.linkedO _).erase (r.nodup_owner _) (r.zero_notMem_owner _)
      (r.mem_own_list hs) (fun c hc => ?_) (fun c hc => ?_)
    · by_cases hc0 : c = 0
      · subst hc0
        simp [nextO, prevO, h0, removeFromBook_ownerHead r hs, Function.update_apply, eq_comm]
      · simp [nextO, prevO, h0, hc0, hN c hc, Function.update_apply]
    · by_cases hc0 : c = 0
      · subst hc0
        simp [nextO, prevO, h0, removeFromBook_ownerTail r hs, Function.update_apply, eq_comm]
      · simp [nextO, prevO, h0, hc0, hP c hc, Function.update_apply]
  · simp only [Index.drop, hh, if_false]
    refine (r.linkedO h).congr (by simp [nextO, prevO, removeFromBook_ownerHead r hs,
      removeFromBook_ownerTail r hs, hh]) fun c hc => ?_
    have hc0 : c ≠ 0 := fun e => r.zero_notMem_owner h (e ▸ hc)
    have hcl := (r.mem_owner _ _).mp hc
    have hne (x) (hx : x ∈ A.ofOwner (b.order id).depositHash) : c ≠ x := by
      rintro rfl
      exact hh (hcl.2.symm.trans ((r.mem_owner _ _).mp hx).2)
    have hcid := hne id (r.mem_own_list hs)
    have hcn : c ≠ (b.order id).nextInOwner := fun e =>
      hne _ (r.neighbours_owner hs c hc0 (.inl e)) rfl
    have hcp : c ≠ (b.order id).prevInOwner := fun e =>
      hne _ (r.neighbours_owner hs c hc0 (.inr e)) rfl
    simp [nextO, prevO, hc0, hN c hcid, hP c hcid, hcn, hcp]

theorem remove_mem_price (k : LevelKey) (q i : ℕ) :
    i ∈ (A.drop (b.order id).key (b.order id).price (b.order id).depositHash id).atPrice k q ↔
      (b.removeFromBook id).Stored i ∧ ((b.removeFromBook id).core i).key = k ∧
        ((b.removeFromBook id).core i).price = q := by
  rw [removeFromBook_stored r hs, removeFromBook_core r hs]
  have hown := (r.mem_price (b.order id).key (b.order id).price id).mp (r.mem_own_level hs)
  by_cases hkq : k = (b.order id).key ∧ q = (b.order id).price
  · obtain ⟨rfl, rfl⟩ := hkq
    simp only [Index.drop, and_self, if_true, (r.nodup_price _ _).mem_erase_iff, r.mem_price,
      and_assoc]
    refine and_congr_right fun hi => ?_
    rw [if_neg hi]
  · simp only [Index.drop, hkq, if_false, r.mem_price]
    by_cases hi : i = id
    · subst hi
      simp only [ne_eq, not_true_eq_false, false_and, iff_false]
      exact fun h => hkq ⟨h.2.1.symm.trans hown.2.1, h.2.2.symm.trans hown.2.2⟩
    · simp [hi]

theorem remove_mem_owner (h i : ℕ) :
    i ∈ (A.drop (b.order id).key (b.order id).price (b.order id).depositHash id).ofOwner h ↔
      (b.removeFromBook id).Stored i ∧ ((b.removeFromBook id).core i).depositHash = h := by
  rw [removeFromBook_stored r hs, removeFromBook_core r hs]
  have hown := (r.mem_owner (b.order id).depositHash id).mp (r.mem_own_list hs)
  by_cases hh : h = (b.order id).depositHash
  · subst hh
    simp only [Index.drop, if_true, (r.nodup_owner _).mem_erase_iff, r.mem_owner, and_assoc]
    refine and_congr_right fun hi => ?_
    rw [if_neg hi]
  · simp only [Index.drop, hh, if_false, r.mem_owner]
    by_cases hi : i = id
    · subst hi
      simp only [ne_eq, not_true_eq_false, false_and, iff_false]
      exact fun h' => hh (h'.2.symm.trans hown.2)
    · simp [hi]

theorem remove_amounts (l : List ℕ) (hl : id ∉ l) :
    l.map (fun i => ((b.removeFromBook id).core i).amount) = l.map fun i => (b.core i).amount := by
  refine List.map_congr_left fun c hc => ?_
  rw [removeFromBook_core r hs, if_neg]
  rintro rfl
  exact hl hc

theorem remove_first_eq_zero_iff :
    (unlinkedLevel (b.level (b.order id).key (b.order id).price) (b.order id)).firstOrderId = 0 ↔
      (A.atPrice (b.order id).key (b.order id).price).erase id = [] := by
  have h0 : id ≠ 0 := (r.bound id hs).1.ne'
  have hl := (r.linkedP (b.order id).key (b.order id).price).erase (r.nodup_price _ _)
    (r.zero_notMem_price _ _) (r.mem_own_level hs) (fun _ _ => rfl) (fun _ _ => rfl)
  have hh := hl.head_eq
  simp only [Function.update_apply, nextP, prevP, h0, if_true, if_false] at hh
  have hf : (unlinkedLevel (b.level (b.order id).key (b.order id).price)
      (b.order id)).firstOrderId =
      ((A.atPrice (b.order id).key (b.order id).price).erase id).head?.getD 0 := by
    rw [← hh]
    simp [unlinkedLevel, eq_comm]
  rw [hf]
  cases hc : (A.atPrice (b.order id).key (b.order id).price).erase id with
  | nil => simp
  | cons y =>
    have hy : y ∈ A.atPrice (b.order id).key (b.order id).price :=
      List.mem_of_mem_erase (hc ▸ List.mem_cons_self)
    have : y ≠ 0 := fun e => r.zero_notMem_price _ _ (e ▸ hy)
    simpa using this

theorem remove_total (k : LevelKey) (q : ℕ) :
    ((b.removeFromBook id).level k q).totalAmount =
      (((A.drop (b.order id).key (b.order id).price (b.order id).depositHash id).atPrice k q).map
        fun i => ((b.removeFromBook id).core i).amount).sum := by
  have hown := r.mem_own_level hs
  rw [level, removeFromBook_get? r hs]
  by_cases hkq : k = (b.order id).key ∧ q = (b.order id).price
  · obtain ⟨rfl, rfl⟩ := hkq
    set l := A.atPrice (b.order id).key (b.order id).price with hl
    have hperm := (List.perm_cons_erase hown).map fun i => (b.core i).amount
    have hsum := hperm.sum_eq
    rw [List.map_cons, List.sum_cons, ← r.total] at hsum
    have hne : id ∉ l.erase id := (r.nodup_price _ _).not_mem_erase
    simp only [Index.drop, and_self, if_true, ← hl]
    rw [r.remove_amounts hs _ hne]
    have hamt : (b.core id).amount = (b.order id).amount := rfl
    by_cases hz : l.erase id = []
    · rw [if_pos ((r.remove_first_eq_zero_iff hs).mpr hz), hz]
      rfl
    · rw [if_neg ((r.remove_first_eq_zero_iff hs).not.mpr hz)]
      simp only [Option.getD_some, unlinkedLevel]
      rw [if_pos (by omega)]
      omega
  · rw [if_neg hkq]
    have hne : id ∉ A.atPrice k q := fun h => by
      have h1 := (r.mem_price _ _ _).mp h
      exact hkq ⟨h1.2.1.symm, h1.2.2.symm⟩
    simp only [Index.drop, hkq, if_false]
    rw [r.remove_amounts hs _ hne, ← r.total]
    rfl

theorem remove_count : (b.removeFromBook id).orderCount =
    ((Finset.range n).filter (b.removeFromBook id).Stored).card := by
  have e : (Finset.range n).filter (b.removeFromBook id).Stored =
      ((Finset.range n).filter b.Stored).erase id := by
    ext i
    simp only [Finset.mem_filter, Finset.mem_erase, removeFromBook_stored r hs]
    tauto
  have hm : id ∈ (Finset.range n).filter b.Stored := by
    simp [(r.bound id hs).2.1, hs]
  rw [removeFromBook_orderCount r hs, e, Finset.card_erase_of_mem hm, r.count]

theorem remove : Rep (b.removeFromBook id) n
    (A.drop (b.order id).key (b.order id).price (b.order id).depositHash id) := by
  refine ⟨fun i hi => ?_, r.remove_mem_price hs, fun k q => ?_, fun k q => ?_,
    r.remove_linkedP hs, r.remove_total hs, r.remove_mem_owner hs, fun h => ?_,
    r.remove_linkedO hs, r.remove_count hs⟩
  · obtain ⟨hne, hst⟩ := (removeFromBook_stored r hs i).mp hi
    rw [removeFromBook_core r hs, if_neg hne]
    exact r.bound i hst
  · simp only [Index.drop]
    split_ifs
    · exact (r.sorted _ _).sublist List.erase_sublist
    · exact r.sorted k q
  · rw [removeFromBook_get? r hs]
    by_cases hkq : k = (b.order id).key ∧ q = (b.order id).price
    · simp only [hkq, and_self, if_true, Index.drop, ne_eq, ← r.remove_first_eq_zero_iff hs]
      split_ifs with hz <;> simp [hz]
    · simpa only [hkq, if_false, Index.drop] using r.level_iff k q
  · simp only [Index.drop]
    split_ifs
    · exact (r.nodup_owner _).erase _
    · exact r.nodup_owner h

end Rep

end Dexdo.Book
