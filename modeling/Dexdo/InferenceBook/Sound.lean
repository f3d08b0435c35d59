import Dexdo.InferenceBook.Escrow

namespace Dexdo.InferenceOrderBook

/-- The fields by which a record is found: its links, its level and its owner. -/
structure Order.Alike (o o' : Order) : Prop where
  links : o'.toLinks = o.toLinks
  isBuy : o'.isBuy = o.isBuy
  price : o'.price = o.price
  note : o'.note = o.note

/-- What a match may make of a resting order: a bid that is not all-or-none gets smaller. -/
structure Order.Shrunk (o o' : Order) : Prop where
  same : o' = { o with amount := o'.amount, filledAccum := o'.filledAccum, escrow := o'.escrow }
  amount : o'.amount ≤ o.amount
  aon : has o.flags FLAG_AON = true → o'.amount = o.amount
  ask : o.isBuy = false → o'.amount = o.amount

theorem Order.Shrunk.refl (o : Order) : o.Shrunk o := ⟨rfl, le_rfl, fun _ => rfl, fun _ => rfl⟩

theorem Order.Shrunk.trans {o o' o'' : Order} (h : o.Shrunk o') (h' : o'.Shrunk o'') :
    o.Shrunk o'' := by
  have hf : o'.flags = o.flags := by rw [h.same]
  have hb : o'.isBuy = o.isBuy := by rw [h.same]
  refine ⟨?_, h'.amount.trans h.amount, fun ha => ?_, fun ha => ?_⟩
  · rw [h'.same, h.same]
  · exact (h'.aon (hf ▸ ha)).trans (h.aon ha)
  · exact (h'.ask (hb ▸ ha)).trans (h.ask ha)

namespace Book

variable {b c d : Book} {n id : ℕ} {A : Index} {f : Order → Order}

/-- A sound book: represented by lists of its orders, which are all covered. -/
structure Sound (b : Book) (n : ℕ) : Prop where
  rep : ∃ A, Rep b n A
  covered : ∀ i, b.Stored i → (b.core i).Covered

theorem Sound.empty (n : ℕ) : Book.empty.Sound n :=
  ⟨⟨_, .empty n⟩, fun i h => by simp [Stored, Book.empty] at h⟩

/-- `c` has no order that `b` has not, and orders are at most shrunk. -/
def Thins (b c : Book) : Prop := ∀ i, c.Stored i → b.Stored i ∧ (b.core i).Shrunk (c.core i)

theorem Thins.refl (b : Book) : b.Thins b := fun _ h => ⟨h, .refl _⟩

theorem Thins.trans (h : b.Thins c) (h' : c.Thins d) : b.Thins d := by
  intro i hi
  obtain ⟨h1, h2⟩ := h' i hi
  obtain ⟨h3, h4⟩ := h i h1
  exact ⟨h3, h4.trans h2⟩

theorem Thins.key (h : b.Thins c) {i : ℕ} (hi : c.Stored i) : c.key i = b.key i := by
  unfold Book.key
  rw [(h i hi).2.same]

theorem Rep.mem_keys (r : Rep b n A) (k : Bool) (q : ℕ) :
    q ∈ (b.levels k).keys ↔ ∃ i, b.Stored i ∧ b.key i = (k, q) := by
  rw [Dict.mem_keys]
  refine (r.level_iff (k, q)).trans ?_
  constructor
  · intro h
    obtain ⟨i, l, hl⟩ := List.exists_cons_of_ne_nil h
    exact ⟨i, (r.mem_price (k, q) i).mp (by simp [hl])⟩
  · rintro ⟨i, hi⟩ h0
    have := (r.mem_price (k, q) i).mpr hi
    rw [h0] at this
    cases this

theorem Thins.keys {A' : Index} {n' : ℕ} (h : b.Thins c) (r : Rep b n A) (r' : Rep c n' A')
    (k : Bool) : ∀ q ∈ (c.levels k).keys, q ∈ (b.levels k).keys := by
  intro q hq
  obtain ⟨i, hi, hk⟩ := (r'.mem_keys k q).mp hq
  exact (r.mem_keys k q).mpr ⟨i, (h i hi).1, (h.key hi).symm.trans hk⟩

theorem modifyOrder_core (i : ℕ) : (b.modifyOrder id f).core i =
    if i = id then { f (b.order id) with toLinks := default } else b.core i := by
  rw [core, modifyOrder_order]
  split_ifs <;> rfl

theorem modifyOrder_modifyOrder (b : Book) (i : ℕ) (f g : Order → Order) :
    (b.modifyOrder i f).modifyOrder i g = b.modifyOrder i fun o => g (f o) := by
  simp [modifyOrder, putOrder, order]

theorem modifyOrder_stored_of (hs : b.Stored id) (i : ℕ) :
    (b.modifyOrder id f).Stored i ↔ b.Stored i := by
  rw [modifyOrder_stored]
  exact or_iff_right_of_imp fun h => h ▸ hs

/-- A write that does not move a record keeps the representation. -/
theorem Rep.modify (r : Rep b n A) (hs : b.Stored id) (h : (b.order id).Alike (f (b.order id)))
    (ha : 0 < (f (b.order id)).amount) : Rep (b.modifyOrder id f) n A := by
  have hst := modifyOrder_stored_of (f := f) hs
  have hkey (i : ℕ) : (b.modifyOrder id f).key i = b.key i := by
    rw [key, modifyOrder_core]
    split_ifs with hi
    · subst hi
      exact Prod.ext h.isBuy h.price
    · rfl
  have hnote (i : ℕ) : ((b.modifyOrder id f).core i).note = (b.core i).note := by
    rw [modifyOrder_core]
    split_ifs with hi
    · subst hi
      exact h.note
    · rfl
  have hlinks (i : ℕ) : ((b.modifyOrder id f).order i).toLinks = (b.order i).toLinks := by
    rw [modifyOrder_order]
    split_ifs with hi
    · subst hi
      exact h.links
    · rfl
  refine ⟨fun i hi => ?_, fun k i => ?_, r.sorted, r.level_iff, ?_, fun a i => ?_, ?_, ?_⟩
  · rw [modifyOrder_core]
    split_ifs with h0
    · subst h0
      exact ⟨(r.bound i hs).1, (r.bound i hs).2.1, ha⟩
    · exact r.bound i ((hst i).mp hi)
  · rw [r.mem_price, hst, hkey]
  · exact r.priceLinks.congr rfl rfl (fun _ i _ => congrArg Links.nextAtPrice (hlinks i))
      fun _ i _ => congrArg Links.prevAtPrice (hlinks i)
  · rw [r.mem_owner, hst, hnote]
  · exact r.ownerLinks.congr rfl rfl (fun _ i _ => congrArg Links.nextInOwner (hlinks i))
      fun _ i _ => congrArg Links.prevInOwner (hlinks i)
  · exact r.count.trans (congrArg Finset.card (Finset.filter_congr fun i _ => (hst i).symm))

theorem Sound.order_covered (h : b.Sound n) (hs : b.Stored id) : (b.order id).Covered :=
  have hc := h.covered id hs
  ⟨hc.priced, hc.aon, hc.ask, hc.bid, hc.weeks⟩

theorem Sound.amount_pos (h : b.Sound n) (hs : b.Stored id) : 0 < (b.order id).amount := by
  obtain ⟨A, r⟩ := h.rep
  exact (r.bound id hs).2.2

theorem Sound.modify (h : b.Sound n) (hs : b.Stored id) (ha : (b.order id).Alike (f (b.order id)))
    (hp : 0 < (f (b.order id)).amount) (hc : (f (b.order id)).Covered) :
    (b.modifyOrder id f).Sound n := by
  obtain ⟨A, r⟩ := h.rep
  refine ⟨⟨A, r.modify hs ha hp⟩, fun i hi => ?_⟩
  rw [modifyOrder_core]
  split_ifs
  · exact ⟨hc.priced, hc.aon, hc.ask, hc.bid, hc.weeks⟩
  · exact h.covered i ((modifyOrder_stored_of hs i).mp hi)

/-- `c` is `b` without order `id`. -/
structure Drops (b : Book) (id : ℕ) (c : Book) : Prop where
  stored : ∀ i, c.Stored i ↔ i ≠ id ∧ b.Stored i
  core : ∀ i, i ≠ id → c.core i = b.core i

theorem Drops.thins (h : b.Drops id c) : b.Thins c := by
  intro i hi
  obtain ⟨h1, h2⟩ := (h.stored i).mp hi
  exact ⟨h2, h.core i h1 ▸ .refl _⟩

theorem Sound.remove (h : b.Sound n) (hs : b.Stored id) :
    (b.removeOrder id).Sound n ∧ b.Drops id (b.removeOrder id) := by
  obtain ⟨A, r⟩ := h.rep
  have hd : b.Drops id (b.removeOrder id) :=
    ⟨r.removeOrder_stored hs, fun i hi => by rw [removeOrder_core, if_neg hi]⟩
  refine ⟨⟨⟨_, r.remove hs⟩, fun i hi => ?_⟩, hd⟩
  obtain ⟨h1, h2⟩ := (hd.stored i).mp hi
  rw [hd.core i h1]
  exact h.covered i h2

theorem Sound.consume (h : b.Sound n) (hs : b.Stored id)
    (ha : (b.order id).Alike (f (b.order id))) (hp : 0 < (f (b.order id)).amount) :
    ((b.modifyOrder id f).removeOrder id).Sound n ∧
      b.Drops id ((b.modifyOrder id f).removeOrder id) := by
  obtain ⟨A, r⟩ := h.rep
  have r' := r.modify hs ha hp
  have hst := modifyOrder_stored_of (f := f) hs
  have hs' := (hst id).mpr hs
  have hd : b.Drops id ((b.modifyOrder id f).removeOrder id) := by
    refine ⟨fun i => ?_, fun i hi => ?_⟩
    · rw [r'.removeOrder_stored hs', hst]
    · rw [removeOrder_core, if_neg hi, modifyOrder_core, if_neg hi]
  refine ⟨⟨⟨_, r'.remove hs'⟩, fun i hi => ?_⟩, hd⟩
  obtain ⟨h1, h2⟩ := (hd.stored i).mp hi
  rw [hd.core i h1]
  exact h.covered i h2

theorem Sound.insert {o : Order} (h : b.Sound n) (hid : 0 < id) (hn : id < n)
    (hnew : ∀ i, b.Stored i → i < id) (ha : 0 < o.amount) (hc : o.Covered) :
    (b.insertOrder id o).Sound n := by
  obtain ⟨A, r⟩ := h.rep
  have hf : ¬ b.Stored id := fun hs => (hnew id hs).ne rfl
  refine ⟨⟨_, r.insert hid hn hnew ha⟩, fun i hi => ?_⟩
  have ht := r.tail_stored o.isBuy o.price
  have hu := r.ownerTail_stored o.note
  rw [insertOrder_core hf ht hu]
  split_ifs with h0
  · exact ⟨hc.priced, hc.aon, hc.ask, hc.bid, hc.weeks⟩
  · exact h.covered i (((insertOrder_stored ht hu i).mp hi).resolve_left h0)

theorem Sound.inserted (h : b.Sound n) (hf : ¬ b.Stored id) (o : Order) :
    (∀ i, (b.insertOrder id o).Stored i ↔ i = id ∨ b.Stored i) ∧
      ∀ i, (b.insertOrder id o).core i =
        if i = id then { o with toLinks := default } else b.core i := by
  obtain ⟨A, r⟩ := h.rep
  have ht := r.tail_stored o.isBuy o.price
  have hu := r.ownerTail_stored o.note
  exact ⟨insertOrder_stored ht hu, insertOrder_core hf ht hu⟩

theorem Sound.mono (h : b.Sound n) {n' : ℕ} (hn : n ≤ n') : b.Sound n' := by
  obtain ⟨A, r⟩ := h.rep
  refine ⟨⟨A, ⟨fun i hi => ?_, r.mem_price, r.sorted, r.level_iff, r.priceLinks, r.mem_owner,
    r.ownerLinks, ?_⟩⟩, h.covered⟩
  · exact ⟨(r.bound i hi).1, (r.bound i hi).2.1.trans_le hn, (r.bound i hi).2.2⟩
  · rw [r.count]
    congr 1
    ext i
    simp only [Finset.mem_filter, Finset.mem_range]
    exact ⟨fun hi => ⟨hi.1.trans_le hn, hi.2⟩, fun hi => ⟨(r.bound i hi.2).2.1, hi.2⟩⟩

end Book

end Dexdo.InferenceOrderBook
