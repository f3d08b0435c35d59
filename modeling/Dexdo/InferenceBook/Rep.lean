import Dexdo.InferenceBook.Book

namespace Dexdo.InferenceOrderBook.Book

/-- Ids of every price level and of every owner, in list order. -/
structure Index where
  atPrice : Bool × ℕ → List ℕ
  ofOwner : Addr → List ℕ

/-- The storage describes exactly the stored orders: `A` lists their ids by level and by owner,
they are below `n`, and the levels and the order count match. -/
structure Rep (b : Book) (n : ℕ) (A : Index) : Prop where
  bound : ∀ i, b.Stored i → 0 < i ∧ i < n ∧ 0 < (b.core i).amount
  mem_price : ∀ k i, i ∈ A.atPrice k ↔ b.Stored i ∧ b.key i = k
  sorted : ∀ k, (A.atPrice k).Pairwise (· < ·)
  level_iff : ∀ k, ((b.levels k.1).get? k.2).isSome ↔ A.atPrice k ≠ []
  priceLinks : b.atPrice.Holds A.atPrice
  mem_owner : ∀ a i, i ∈ A.ofOwner a ↔ b.Stored i ∧ (b.core i).note = a
  ownerLinks : b.ofOwner.Holds A.ofOwner
  count : b.orderCount = ((Finset.range n).filter b.Stored).card

theorem Rep.empty (n : ℕ) : Rep .empty n ⟨fun _ => [], fun _ => []⟩ where
  bound i h := by simp [Stored, Book.empty] at h
  mem_price k i := by simp [Stored, Book.empty]
  sorted k := List.Pairwise.nil
  level_iff k := by simp [Book.empty]
  priceLinks := ⟨fun k => Linked.nil_iff.mpr ⟨rfl, rfl⟩, fun _ => List.nodup_nil,
    fun j k x h => by simp at h, fun k h => by simp at h⟩
  mem_owner a i := by simp [Stored, Book.empty]
  ownerLinks := ⟨fun k => Linked.nil_iff.mpr ⟨rfl, rfl⟩, fun _ => List.nodup_nil,
    fun j k x h => by simp at h, fun k h => by simp at h⟩
  count := by
    rw [Finset.filter_false_of_mem fun i _ h => by simp [Stored, Book.empty] at h]
    rfl

variable {b : Book} {n : ℕ} {A : Index} {id : ℕ} {o : Order}

theorem order_of_not_stored {i : ℕ} (h : ¬ b.Stored i) : b.order i = default := by
  have : b.orders i = none := by simpa [Stored] using h
  rw [order, this]
  rfl

section Insert

variable (hf : ¬ b.Stored id)
  (ht : (b.level o.isBuy o.price).lastOrderId ≠ 0 → b.Stored (b.level o.isBuy o.price).lastOrderId)
  (hu : b.ownerTail o.note ≠ 0 → b.Stored (b.ownerTail o.note))

include ht hu

theorem insertOrder_stored (i : ℕ) : (b.insertOrder id o).Stored i ↔ i = id ∨ b.Stored i := by
  simp only [insertOrder]
  rw [show ∀ b' : Book, ∀ c, ({ b' with orderCount := c } : Book).Stored i ↔ b'.Stored i from
    fun _ _ => Iff.rfl, appendInOwner_stored, appendAtPrice_stored, putOrder_stored]
  · simpa using fun h => .inr (ht h)
  · rw [appendAtPrice_stored]
    · simpa using fun h => .inr (hu h)
    · simpa using fun h => .inr (ht h)

include hf

theorem insertOrder_order (i : ℕ) : (b.insertOrder id o).order i =
    if i = id then b.linkedLast o
    else { b.order i with
      nextAtPrice := if (b.level o.isBuy o.price).lastOrderId ≠ 0 ∧
        i = (b.level o.isBuy o.price).lastOrderId then id else (b.order i).nextAtPrice
      nextInOwner := if b.ownerTail o.note ≠ 0 ∧ i = b.ownerTail o.note then id
        else (b.order i).nextInOwner } := by
  have hT : (b.level o.isBuy o.price).lastOrderId ≠ 0 →
      id ≠ (b.level o.isBuy o.price).lastOrderId := fun h0 e => hf (e ▸ ht h0)
  have hU : b.ownerTail o.note ≠ 0 → id ≠ b.ownerTail o.note := fun h0 e => hf (e ▸ hu h0)
  simp only [insertOrder]
  rw [show ∀ b' : Book, ∀ c, ({ b' with orderCount := c } : Book).order i = b'.order i from
    fun _ _ => rfl, appendInOwner_order, appendAtPrice_order]
  simp only [appendAtPrice_ownerTail, putOrder_ownerTail, putOrder_level, putOrder_order]
  by_cases hi : i = id
  · subst hi
    rw [if_neg (fun h => hU h.1 h.2), if_neg (fun h => hT h.1 h.2), if_pos rfl, if_pos rfl]
  · simp only [hi, if_false]
    split_ifs <;> rfl

theorem insertOrder_core (i : ℕ) : (b.insertOrder id o).core i =
    if i = id then { o with toLinks := default } else b.core i := by
  rw [core, insertOrder_order hf ht hu]
  split_ifs <;> rfl

omit hf ht hu in
theorem insertOrder_get? (k : Bool) (q : ℕ) : ((b.insertOrder id o).levels k).get? q =
    if k = o.isBuy ∧ q = o.price then
      some ⟨if (b.level o.isBuy o.price).lastOrderId = 0 then id
        else (b.level o.isBuy o.price).firstOrderId, id⟩
    else (b.levels k).get? q := by
  simp only [insertOrder, appendInOwner_levels]
  rw [appendAtPrice_get?]
  rfl

omit hf ht hu in
theorem insertOrder_orderCount : (b.insertOrder id o).orderCount = b.orderCount + 1 := by
  simp [insertOrder]

omit hf ht hu in
theorem insertOrder_level (k : Bool) (q : ℕ) : (b.insertOrder id o).level k q =
    if k = o.isBuy ∧ q = o.price then
      ⟨if (b.level o.isBuy o.price).lastOrderId = 0 then id
        else (b.level o.isBuy o.price).firstOrderId, id⟩
    else b.level k q := by
  rw [level, insertOrder_get?]
  split_ifs <;> rfl

theorem insertOrder_atPrice :
    (b.insertOrder id o).atPrice = b.atPrice.append (o.isBuy, o.price) id := by
  apply Chains.ext
  · funext k
    rw [Chains.append_first]
    simp only [atPrice, insertOrder_level, Prod.ext_iff]
    by_cases hk : k.1 = o.isBuy ∧ k.2 = o.price
    · simp [hk]
    · simp [hk]
  · funext k
    rw [Chains.append_last]
    simp only [atPrice, insertOrder_level, Prod.ext_iff]
    split_ifs <;> rfl
  · funext i
    rw [Chains.append_next]
    simp only [atPrice, insertOrder_order hf ht hu]
    by_cases hi : i = id
    · simp [hi, linkedLast]
    · simp only [if_neg hi]
      rfl
  · funext i
    rw [Chains.append_prev]
    simp only [atPrice, insertOrder_order hf ht hu]
    by_cases hi : i = id
    · simp [hi, linkedLast]
    · simp only [if_neg hi]

theorem insertOrder_ofOwner : (b.insertOrder id o).ofOwner = b.ofOwner.append o.note id := by
  apply Chains.ext
  · funext a
    rw [Chains.append_first]
    simp only [ofOwner, insertOrder, appendInOwner_ownerHead, appendAtPrice_ownerTail,
      putOrder_ownerTail, appendAtPrice_ownerHead, putOrder_ownerHead]
    by_cases h0 : b.ownerTail o.note = 0
    · simp [h0, Function.update_apply]
    · simp [h0]
  · funext a
    rw [Chains.append_last]
    simp [ofOwner, insertOrder, Function.update_apply]
  · funext i
    rw [Chains.append_next]
    simp only [ofOwner, insertOrder_order hf ht hu]
    by_cases hi : i = id
    · simp [hi, linkedLast]
    · simp only [if_neg hi]
      rfl
  · funext i
    rw [Chains.append_prev]
    simp only [ofOwner, insertOrder_order hf ht hu]
    by_cases hi : i = id
    · simp [hi, linkedLast]
    · simp only [if_neg hi]

end Insert

namespace Rep

theorem tail_stored (r : Rep b n A) (k : Bool) (q : ℕ) (h : (b.level k q).lastOrderId ≠ 0) :
    b.Stored (b.level k q).lastOrderId :=
  ((r.mem_price (k, q) _).mp (r.priceLinks.last_mem (k := (k, q)) h)).1

theorem ownerTail_stored (r : Rep b n A) (a : Addr) (h : b.ownerTail a ≠ 0) :
    b.Stored (b.ownerTail a) :=
  ((r.mem_owner a _).mp (r.ownerLinks.last_mem (k := a) h)).1

/-- Inserting an order under a fresh id above all others keeps the representation. -/
theorem insert (r : Rep b n A) (hid : 0 < id) (hn : id < n) (hnew : ∀ i, b.Stored i → i < id)
    (ha : 0 < o.amount) : Rep (b.insertOrder id o) n
      ⟨Function.update A.atPrice (o.isBuy, o.price) (A.atPrice (o.isBuy, o.price) ++ [id]),
        Function.update A.ofOwner o.note (A.ofOwner o.note ++ [id])⟩ := by
  have hf : ¬ b.Stored id := fun h => (hnew id h).ne rfl
  have ht := r.tail_stored o.isBuy o.price
  have hu := r.ownerTail_stored o.note
  have hkey (i : ℕ) : (b.insertOrder id o).key i =
      if i = id then (o.isBuy, o.price) else b.key i := by
    rw [key, insertOrder_core hf ht hu]
    split_ifs <;> rfl
  refine ⟨fun i hi => ?_, fun k i => ?_, fun k => ?_, fun k => ?_, ?_, fun a i => ?_, ?_, ?_⟩
  · rw [insertOrder_core hf ht hu]
    rcases (insertOrder_stored ht hu i).mp hi with rfl | hi
    · simpa using ⟨hid, hn, ha⟩
    · rw [if_neg (hnew i hi).ne]
      exact r.bound i hi
  · rw [insertOrder_stored ht hu, hkey]
    by_cases hk : k = (o.isBuy, o.price)
    · subst hk
      simp only [Function.update_self, List.mem_append, List.mem_singleton, r.mem_price]
      by_cases hi : i = id
      · simp [hi]
      · simp [hi]
    · simp only [Function.update_of_ne hk, r.mem_price]
      by_cases hi : i = id
      · simp [hi, hf, Ne.symm hk]
      · simp [hi]
  · by_cases hk : k = (o.isBuy, o.price)
    · subst hk
      simp only [Function.update_self]
      refine List.pairwise_append.mpr ⟨r.sorted _, List.pairwise_singleton _ _, fun i hi j hj => ?_⟩
      rw [List.mem_singleton.mp hj]
      exact hnew i ((r.mem_price _ i).mp hi).1
    · simp only [Function.update_of_ne hk]
      exact r.sorted k
  · rw [insertOrder_get?]
    by_cases hk : k = (o.isBuy, o.price)
    · subst hk
      simp
    · have h2 : ¬ (k.1 = o.isBuy ∧ k.2 = o.price) := fun h => hk (Prod.ext h.1 h.2)
      simp only [if_neg h2, Function.update_of_ne hk]
      exact r.level_iff k
  · rw [insertOrder_atPrice hf ht hu]
    exact r.priceLinks.append hid.ne' fun k h => hf ((r.mem_price k id).mp h).1
  · rw [insertOrder_stored ht hu, insertOrder_core hf ht hu]
    by_cases hk : a = o.note
    · subst hk
      simp only [Function.update_self, List.mem_append, List.mem_singleton, r.mem_owner]
      by_cases hi : i = id
      · simp [hi]
      · simp [hi]
    · simp only [Function.update_of_ne hk, r.mem_owner]
      by_cases hi : i = id
      · simp [hi, hf, Ne.symm hk]
      · simp [hi]
  · rw [insertOrder_ofOwner hf ht hu]
    exact r.ownerLinks.append hid.ne' fun k h => hf ((r.mem_owner k id).mp h).1
  · have e : (Finset.range n).filter (b.insertOrder id o).Stored =
        Insert.insert id ((Finset.range n).filter b.Stored) := by
      ext i
      simp only [Finset.mem_filter, Finset.mem_insert, Finset.mem_range,
        insertOrder_stored ht hu]
      constructor
      · rintro ⟨h1, rfl | h2⟩
        · exact .inl rfl
        · exact .inr ⟨h1, h2⟩
      · rintro (rfl | ⟨h1, h2⟩)
        · exact ⟨hn, .inl rfl⟩
        · exact ⟨h1, .inr h2⟩
    rw [insertOrder_orderCount, e, Finset.card_insert_of_notMem (by simp [hf]), r.count]

end Rep

end Dexdo.InferenceOrderBook.Book
