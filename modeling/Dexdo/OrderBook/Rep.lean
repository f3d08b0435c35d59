import Dexdo.OrderBook.Book

namespace Dexdo.Book

/-- `nextAtPrice` links of one level, with its FIFO head at the sentinel. -/
def nextP (b : Book) (k : LevelKey) (q a : ℕ) : ℕ :=
  if a = 0 then (b.level k q).firstOrderId else (b.order a).nextAtPrice

def prevP (b : Book) (k : LevelKey) (q a : ℕ) : ℕ :=
  if a = 0 then (b.level k q).lastOrderId else (b.order a).prevAtPrice

/-- `nextInOwner` links of one owner, with `_ownerHead` at the sentinel. -/
def nextO (b : Book) (h a : ℕ) : ℕ :=
  if a = 0 then b.ownerHead h else (b.order a).nextInOwner

def prevO (b : Book) (h a : ℕ) : ℕ :=
  if a = 0 then b.ownerTail h else (b.order a).prevInOwner

section Insert

variable (b : Book) (k : LevelKey) (q id a h i : ℕ)

theorem appendAtPrice_order_toLinks : ((b.appendAtPrice k q id a).order i).toLinks =
    if (b.level k q).lastOrderId ≠ 0 ∧ i = (b.level k q).lastOrderId then
      { (b.order i).toLinks with nextAtPrice := id }
    else (b.order i).toLinks := by
  unfold appendAtPrice
  dsimp only
  by_cases h0 : (b.level k q).lastOrderId = 0
  · simp [h0]
  · by_cases hi : i = (b.level k q).lastOrderId
    · subst hi; simp [h0]
    · simp [h0, hi]

theorem appendInOwner_order_toLinks : ((b.appendInOwner h id).order i).toLinks =
    if b.ownerTail h ≠ 0 ∧ i = b.ownerTail h then
      { (b.order i).toLinks with nextInOwner := id }
    else (b.order i).toLinks := by
  unfold appendInOwner
  dsimp only
  by_cases h0 : b.ownerTail h = 0
  · simp [h0]
  · by_cases hi : i = b.ownerTail h
    · subst hi; simp [h0]
    · simp [h0, hi]

@[simp] theorem appendAtPrice_core : (b.appendAtPrice k q id a).core i = b.core i := by
  unfold appendAtPrice
  dsimp only
  split_ifs <;> simp

@[simp] theorem appendInOwner_core : (b.appendInOwner h id).core i = b.core i := by
  unfold appendInOwner
  dsimp only
  split_ifs <;> simp

theorem appendAtPrice_stored (ht : (b.level k q).lastOrderId ≠ 0 →
    b.Stored (b.level k q).lastOrderId) :
    (b.appendAtPrice k q id a).Stored i ↔ b.Stored i := by
  unfold appendAtPrice
  dsimp only
  split_ifs with h0
  · simp
  · simp only [setLevel_stored, modifyLinks_stored, or_iff_right_iff_imp]
    rintro rfl
    exact ht h0

theorem appendInOwner_stored (ht : b.ownerTail h ≠ 0 → b.Stored (b.ownerTail h)) :
    (b.appendInOwner h id).Stored i ↔ b.Stored i := by
  unfold appendInOwner
  dsimp only
  split_ifs with h0
  · simp
  · simp only [setOwnerTail_stored, modifyLinks_stored, or_iff_right_iff_imp]
    rintro rfl
    exact ht h0

theorem appendAtPrice_get? (k' : LevelKey) (q' : ℕ) :
    ((b.appendAtPrice k q id a).levels k').get? q' =
      if k' = k ∧ q' = q then some ⟨if (b.level k q).lastOrderId = 0 then id
        else (b.level k q).firstOrderId, id, if (b.level k q).lastOrderId = 0 then a
        else (b.level k q).totalAmount + a⟩
      else (b.levels k').get? q' := by
  unfold appendAtPrice
  dsimp only
  by_cases h0 : (b.level k q).lastOrderId = 0
  · simp [h0, setLevel_get?]
  · simp [h0, setLevel_get?]

@[simp] theorem appendAtPrice_ownerHead :
    (b.appendAtPrice k q id a).ownerHead = b.ownerHead := by
  unfold appendAtPrice
  dsimp only
  split_ifs <;> simp

@[simp] theorem appendAtPrice_ownerTail :
    (b.appendAtPrice k q id a).ownerTail = b.ownerTail := by
  unfold appendAtPrice
  dsimp only
  split_ifs <;> simp

@[simp] theorem appendAtPrice_orderCount :
    (b.appendAtPrice k q id a).orderCount = b.orderCount := by
  unfold appendAtPrice
  dsimp only
  split_ifs <;> simp

@[simp] theorem appendInOwner_levels : (b.appendInOwner h id).levels = b.levels := by
  unfold appendInOwner
  dsimp only
  split_ifs <;> simp

@[simp] theorem appendInOwner_orderCount :
    (b.appendInOwner h id).orderCount = b.orderCount := by
  unfold appendInOwner
  dsimp only
  split_ifs <;> simp

@[simp] theorem appendInOwner_ownerTail (h' : ℕ) :
    (b.appendInOwner h id).ownerTail h' = if h' = h then id else b.ownerTail h' := by
  unfold appendInOwner
  dsimp only
  split_ifs <;> simp_all

theorem appendInOwner_ownerHead (h' : ℕ) : (b.appendInOwner h id).ownerHead h' =
    if b.ownerTail h = 0 ∧ h' = h then id else b.ownerHead h' := by
  unfold appendInOwner
  dsimp only
  split_ifs <;> simp_all

end Insert

/-- Abstract book: the order ids of every price level and of every owner, in list order. -/
structure Index where
  atPrice : LevelKey → ℕ → List ℕ
  ofOwner : ℕ → List ℕ

namespace Index

/-- `id` joins the end of its level and of its owner's list. -/
def push (A : Index) (k : LevelKey) (q h id : ℕ) : Index where
  atPrice k' q' := if k' = k ∧ q' = q then A.atPrice k q ++ [id] else A.atPrice k' q'
  ofOwner h' := if h' = h then A.ofOwner h ++ [id] else A.ofOwner h'

/-- `id` leaves its level and its owner's list. -/
def drop (A : Index) (k : LevelKey) (q h id : ℕ) : Index where
  atPrice k' q' := if k' = k ∧ q' = q then (A.atPrice k q).erase id else A.atPrice k' q'
  ofOwner h' := if h' = h then (A.ofOwner h).erase id else A.ofOwner h'

end Index

/-- The pointer structure of the book represents the lists of `A`; ids are below `n`. -/
structure Rep (b : Book) (n : ℕ) (A : Index) : Prop where
  bound : ∀ i, b.Stored i → 0 < i ∧ i < n ∧ 0 < (b.core i).amount
  mem_price : ∀ k q i, i ∈ A.atPrice k q ↔
    b.Stored i ∧ (b.core i).key = k ∧ (b.core i).price = q
  sorted : ∀ k q, (A.atPrice k q).Pairwise (· < ·)
  level_iff : ∀ k q, ((b.levels k).get? q).isSome ↔ A.atPrice k q ≠ []
  linkedP : ∀ k q, Linked (b.nextP k q) (b.prevP k q) (A.atPrice k q)
  total : ∀ k q, (b.level k q).totalAmount =
    ((A.atPrice k q).map fun i => (b.core i).amount).sum
  mem_owner : ∀ h i, i ∈ A.ofOwner h ↔ b.Stored i ∧ (b.core i).depositHash = h
  nodup_owner : ∀ h, (A.ofOwner h).Nodup
  linkedO : ∀ h, Linked (b.nextO h) (b.prevO h) (A.ofOwner h)
  count : b.orderCount = ((Finset.range n).filter b.Stored).card

namespace Rep

variable {b : Book} {n : ℕ} {A : Index}

theorem empty (n : ℕ) : Rep Book.empty n ⟨fun _ _ => [], fun _ => []⟩ where
  bound i h := by simp [Stored, Book.empty] at h
  mem_price k q i := by simp [Stored, Book.empty]
  sorted k q := List.Pairwise.nil
  level_iff k q := by simp [Book.empty]
  linkedP k q := Linked.nil_iff.mpr ⟨rfl, rfl⟩
  total k q := rfl
  mem_owner h i := by simp [Stored, Book.empty]
  nodup_owner h := List.nodup_nil
  linkedO h := Linked.nil_iff.mpr ⟨rfl, rfl⟩
  count := by
    rw [Finset.filter_false_of_mem fun i _ h => by simp [Stored, Book.empty] at h]
    rfl

theorem zero_notMem_price (r : Rep b n A) (k : LevelKey) (q : ℕ) : 0 ∉ A.atPrice k q := fun h =>
  absurd (r.bound 0 ((r.mem_price k q 0).mp h).1).1 (lt_irrefl 0)

theorem zero_notMem_owner (r : Rep b n A) (h : ℕ) : 0 ∉ A.ofOwner h := fun hm =>
  absurd (r.bound 0 ((r.mem_owner h 0).mp hm).1).1 (lt_irrefl 0)

theorem nodup_price (r : Rep b n A) (k : LevelKey) (q : ℕ) : (A.atPrice k q).Nodup :=
  (r.sorted k q).imp ne_of_lt

theorem priceTail (r : Rep b n A) (k : LevelKey) (q : ℕ) :
    (b.level k q).lastOrderId = (A.atPrice k q).getLast?.getD 0 := by
  simpa [prevP] using (r.linkedP k q).last_eq

theorem ownerTail (r : Rep b n A) (h : ℕ) : b.ownerTail h = (A.ofOwner h).getLast?.getD 0 := by
  simpa [prevO] using (r.linkedO h).last_eq

theorem priceHead (r : Rep b n A) (k : LevelKey) (q : ℕ) :
    (b.level k q).firstOrderId = (A.atPrice k q).head?.getD 0 := by
  simpa [nextP] using (r.linkedP k q).head_eq

theorem priceTail_mem (r : Rep b n A) (k : LevelKey) (q : ℕ)
    (hne : (b.level k q).lastOrderId ≠ 0) : (b.level k q).lastOrderId ∈ A.atPrice k q := by
  rw [r.priceTail] at hne ⊢
  cases hl : (A.atPrice k q).getLast? with
  | none => simp [hl] at hne
  | some => exact List.mem_of_getLast? hl

theorem ownerTail_mem (r : Rep b n A) (h : ℕ) (hne : b.ownerTail h ≠ 0) :
    b.ownerTail h ∈ A.ofOwner h := by
  rw [r.ownerTail] at hne ⊢
  cases hl : (A.ofOwner h).getLast? with
  | none => simp [hl] at hne
  | some => exact List.mem_of_getLast? hl

theorem priceTail_eq_zero_iff (r : Rep b n A) (k : LevelKey) (q : ℕ) :
    (b.level k q).lastOrderId = 0 ↔ A.atPrice k q = [] := by
  constructor
  · intro h
    by_contra hne
    have hl := List.getLast?_eq_some_getLast hne
    rw [r.priceTail, hl] at h
    exact r.zero_notMem_price k q (h ▸ List.getLast_mem hne)
  · intro h
    rw [r.priceTail, h]
    rfl

theorem mono (r : Rep b n A) {n' : ℕ} (hn : n ≤ n') : Rep b n' A :=
  { r with
    bound := fun i hi => ⟨(r.bound i hi).1, (r.bound i hi).2.1.trans_le hn, (r.bound i hi).2.2⟩
    count := by
      rw [r.count]
      congr 1
      ext i
      simp only [Finset.mem_filter, Finset.mem_range]
      exact ⟨fun h => ⟨h.1.trans_le hn, h.2⟩, fun h => ⟨(r.bound i h.2).2.1, h.2⟩⟩ }

end Rep

section Insert

variable {b : Book} {n : ℕ} {A : Index} (id h q a f m sub : ℕ) (p : PlaceParams)

theorem insertIntoBook_core (i : ℕ) : (b.insertIntoBook id h p q a f m sub).core i =
    if i = id then (b.newOrder h p q a f m sub).unlinked else b.core i := by
  have e : (b.insertIntoBook id h p q a f m sub).core i =
      (b.putOrder id (b.newOrder h p q a f m sub)).core i :=
    (appendInOwner_core ..).trans (appendAtPrice_core ..)
  rw [e, core, putOrder_order]
  split_ifs <;> rfl

theorem insertIntoBook_stored (r : Rep b n A) (i : ℕ) :
    (b.insertIntoBook id h p q a f m sub).Stored i ↔ i = id ∨ b.Stored i := by
  set k : LevelKey := p.key
  have hP : ∀ x ≠ 0, x = (b.level k q).lastOrderId → b.Stored x := by
    rintro x hx rfl
    exact ((r.mem_price k q _).mp (r.priceTail_mem k q hx)).1
  have hO : ∀ x ≠ 0, x = b.ownerTail h → b.Stored x := by
    rintro x hx rfl
    exact ((r.mem_owner h _).mp (r.ownerTail_mem h hx)).1
  refine (appendInOwner_stored _ _ _ _ ?_).trans ((appendAtPrice_stored _ _ _ _ _ _ ?_).trans
    (putOrder_stored ..))
  · intro h0
    refine (appendAtPrice_stored _ _ _ _ _ _ ?_).mpr ?_
    · exact fun h1 => (putOrder_stored ..).mpr (.inr (hP _ h1 rfl))
    · exact (putOrder_stored ..).mpr (.inr (hO _ (by simpa using h0) (by simp)))
  · exact fun h1 => (putOrder_stored ..).mpr (.inr (hP _ h1 rfl))

theorem insertIntoBook_toLinks (i : ℕ)
    (hP : id ≠ (b.level p.key q).lastOrderId)
    (hO : id ≠ b.ownerTail h) :
    ((b.insertIntoBook id h p q a f m sub).order i).toLinks =
      if i = id then (b.newOrder h p q a f m sub).toLinks
      else { (b.order i).toLinks with
        nextAtPrice := if i ≠ 0 ∧ i = (b.level p.key q).lastOrderId
          then id else (b.order i).nextAtPrice
        nextInOwner := if i ≠ 0 ∧ i = b.ownerTail h then id else (b.order i).nextInOwner } := by
  refine (appendInOwner_order_toLinks ..).trans ?_
  simp only [appendAtPrice_ownerTail, putOrder_ownerTail, appendAtPrice_order_toLinks,
    putOrder_level, putOrder_order]
  by_cases hi : i = id
  · subst hi
    simp [hP, hO]
  · simp only [hi, if_false]
    by_cases h1 : i = (b.level p.key q).lastOrderId <;>
      by_cases h2 : i = b.ownerTail h <;> by_cases h3 : i = 0 <;> simp_all

theorem insertIntoBook_get? (k' : LevelKey) (q' : ℕ) :
    ((b.insertIntoBook id h p q a f m sub).levels k').get? q' =
      if k' = p.key ∧ q' = q then
        let l := b.level p.key q
        some ⟨if l.lastOrderId = 0 then id else l.firstOrderId, id,
          if l.lastOrderId = 0 then a else l.totalAmount + a⟩
      else (b.levels k').get? q' := by
  have e : (b.insertIntoBook id h p q a f m sub).levels =
    ((b.putOrder id (b.newOrder h p q a f m sub)).appendAtPrice
      p.key q id a).levels := appendInOwner_levels ..
  rw [e]
  exact appendAtPrice_get? ..

theorem insertIntoBook_level (k' : LevelKey) (q' : ℕ) :
    (b.insertIntoBook id h p q a f m sub).level k' q' =
      if k' = p.key ∧ q' = q then
        let l := b.level p.key q
        ⟨if l.lastOrderId = 0 then id else l.firstOrderId, id,
          if l.lastOrderId = 0 then a else l.totalAmount + a⟩
      else b.level k' q' := by
  rw [level, insertIntoBook_get?]
  split_ifs <;> rfl

theorem insertIntoBook_ownerHead (h' : ℕ) :
    (b.insertIntoBook id h p q a f m sub).ownerHead h' =
      if b.ownerTail h = 0 ∧ h' = h then id else b.ownerHead h' := by
  refine (appendInOwner_ownerHead ..).trans ?_
  simp

theorem insertIntoBook_ownerTail (h' : ℕ) :
    (b.insertIntoBook id h p q a f m sub).ownerTail h' =
      if h' = h then id else b.ownerTail h' := by
  refine (appendInOwner_ownerTail ..).trans ?_
  simp

theorem insertIntoBook_orderCount :
    (b.insertIntoBook id h p q a f m sub).orderCount = b.orderCount + 1 := by
  simp [insertIntoBook, putOrder]

theorem insertIntoBook_nextP (h0 : id ≠ 0)
    (hP : id ≠ (b.level p.key q).lastOrderId)
    (hO : id ≠ b.ownerTail h) :
    (b.insertIntoBook id h p q a f m sub).nextP p.key q =
      Function.update (Function.update (b.nextP p.key q)
        (b.prevP p.key q 0) id) id 0 := by
  funext x
  have hx := congrArg Links.nextAtPrice (insertIntoBook_toLinks (b := b) id h q a f m sub p x hP hO)
  rw [Function.update_apply, Function.update_apply]
  simp only [nextP, prevP, if_true, hx, insertIntoBook_level, and_self]
  by_cases e1 : x = id
  · subst e1
    simp [h0, newOrder]
  · by_cases e2 : x = (b.level p.key q).lastOrderId
    · subst e2
      by_cases e3 : (b.level p.key q).lastOrderId = 0 <;>
        simp [e1, e3, Ne.symm h0]
    · by_cases e3 : x = 0
      · subst e3
        simp [e1, e2, Ne.symm e2]
      · simp [e1, e2, e3]

theorem insertIntoBook_prevP (h0 : id ≠ 0)
    (hP : id ≠ (b.level p.key q).lastOrderId)
    (hO : id ≠ b.ownerTail h) :
    (b.insertIntoBook id h p q a f m sub).prevP p.key q =
      Function.update (Function.update (b.prevP p.key q) 0 id) id
        (b.prevP p.key q 0) := by
  funext x
  have hx := congrArg Links.prevAtPrice (insertIntoBook_toLinks (b := b) id h q a f m sub p x hP hO)
  rw [Function.update_apply, Function.update_apply]
  simp only [prevP, if_true, hx, insertIntoBook_level, and_self]
  by_cases e1 : x = id
  · subst e1
    simp [h0, newOrder]
  · by_cases e3 : x = 0
    · subst e3
      simp [e1]
    · simp [e1, e3]

theorem insertIntoBook_nextP_other {k' : LevelKey} {q' x : ℕ}
    (hkq : ¬ (k' = p.key ∧ q' = q))
    (hP : id ≠ (b.level p.key q).lastOrderId)
    (hO : id ≠ b.ownerTail h) (hx : x = 0 ∨ x ≠ id ∧
      x ≠ (b.level p.key q).lastOrderId) :
    (b.insertIntoBook id h p q a f m sub).nextP k' q' x = b.nextP k' q' x ∧
      (b.insertIntoBook id h p q a f m sub).prevP k' q' x = b.prevP k' q' x := by
  have hl := insertIntoBook_toLinks (b := b) id h q a f m sub p x hP hO
  have hl1 := congrArg Links.nextAtPrice hl
  have hl2 := congrArg Links.prevAtPrice hl
  simp only [nextP, prevP, hl1, hl2, insertIntoBook_level, hkq, if_false]
  rcases hx with rfl | ⟨h1, h2⟩
  · simp
  · simp [h1, h2]

theorem insertIntoBook_nextO (h0 : id ≠ 0)
    (hP : id ≠ (b.level p.key q).lastOrderId)
    (hO : id ≠ b.ownerTail h) :
    (b.insertIntoBook id h p q a f m sub).nextO h =
      Function.update (Function.update (b.nextO h) (b.prevO h 0) id) id 0 := by
  funext x
  have hx := congrArg Links.nextInOwner (insertIntoBook_toLinks (b := b) id h q a f m sub p x hP hO)
  rw [Function.update_apply, Function.update_apply]
  simp only [nextO, prevO, if_true, hx, insertIntoBook_ownerHead, and_true]
  by_cases e1 : x = id
  · subst e1
    simp [h0, newOrder]
  · by_cases e2 : x = b.ownerTail h
    · subst e2
      by_cases e3 : b.ownerTail h = 0 <;> simp [e1, e3, Ne.symm h0]
    · by_cases e3 : x = 0
      · subst e3
        simp [e1, e2, Ne.symm e2]
      · simp [e1, e2, e3]

theorem insertIntoBook_prevO (h0 : id ≠ 0)
    (hP : id ≠ (b.level p.key q).lastOrderId)
    (hO : id ≠ b.ownerTail h) :
    (b.insertIntoBook id h p q a f m sub).prevO h =
      Function.update (Function.update (b.prevO h) 0 id) id (b.prevO h 0) := by
  funext x
  have hx := congrArg Links.prevInOwner (insertIntoBook_toLinks (b := b) id h q a f m sub p x hP hO)
  rw [Function.update_apply, Function.update_apply]
  simp only [prevO, if_true, hx, insertIntoBook_ownerTail]
  by_cases e1 : x = id
  · subst e1
    simp [h0, newOrder]
  · by_cases e3 : x = 0
    · subst e3
      simp [e1]
    · simp [e1, e3]

theorem insertIntoBook_nextO_other {h' x : ℕ} (hh : h' ≠ h)
    (hP : id ≠ (b.level p.key q).lastOrderId)
    (hO : id ≠ b.ownerTail h) (hx : x = 0 ∨ x ≠ id ∧ x ≠ b.ownerTail h) :
    (b.insertIntoBook id h p q a f m sub).nextO h' x = b.nextO h' x ∧
      (b.insertIntoBook id h p q a f m sub).prevO h' x = b.prevO h' x := by
  have hl := insertIntoBook_toLinks (b := b) id h q a f m sub p x hP hO
  have hl1 := congrArg Links.nextInOwner hl
  have hl2 := congrArg Links.prevInOwner hl
  simp only [nextO, prevO, hl1, hl2, insertIntoBook_ownerHead, insertIntoBook_ownerTail, hh,
    and_false, if_false]
  rcases hx with rfl | ⟨h1, h2⟩
  · simp
  · simp [h1, h2]

namespace Rep

theorem fresh_ne_tails (r : Rep b n A) (h0 : 0 < id) (hid : ¬ b.Stored id) (k : LevelKey) :
    id ≠ (b.level k q).lastOrderId ∧ id ≠ b.ownerTail h := by
  constructor
  · intro e
    have hm := r.priceTail_mem k q (e ▸ h0.ne')
    exact hid (e ▸ ((r.mem_price k q _).mp hm).1)
  · intro e
    have hm := r.ownerTail_mem h (e ▸ h0.ne')
    exact hid (e ▸ ((r.mem_owner h _).mp hm).1)

theorem insert_linkedP (r : Rep b n A) (h0 : 0 < id) (hid : ¬ b.Stored id)
    (k' : LevelKey) (q' : ℕ) :
    Linked ((b.insertIntoBook id h p q a f m sub).nextP k' q')
      ((b.insertIntoBook id h p q a f m sub).prevP k' q') ((A.push p.key q h id).atPrice k' q') := by
  obtain ⟨hP, hO⟩ := r.fresh_ne_tails id h q h0 hid p.key
  have hm (k q) : id ∉ A.atPrice k q := fun hm => hid ((r.mem_price _ _ _).mp hm).1
  by_cases hkq : k' = p.key ∧ q' = q
  · obtain ⟨rfl, rfl⟩ := hkq
    rw [insertIntoBook_nextP _ _ _ _ _ _ _ _ h0.ne' hP hO,
      insertIntoBook_prevP _ _ _ _ _ _ _ _ h0.ne' hP hO]
    simpa [Index.push] using (r.linkedP p.key q').append id h0.ne' (hm _ _) (r.nodup_price _ _)
      (r.zero_notMem_price _ _)
  · simp only [Index.push, hkq, if_false]
    refine (r.linkedP k' q').congr
      (insertIntoBook_nextP_other _ _ _ _ _ _ _ _ hkq hP hO (.inl rfl)) fun c hc => ?_
    refine insertIntoBook_nextP_other _ _ _ _ _ _ _ _ hkq hP hO (.inr ⟨?_, ?_⟩)
    · rintro rfl
      exact hm _ _ hc
    · rintro rfl
      have hne : (b.level p.key q).lastOrderId ≠ 0 := fun e =>
        r.zero_notMem_price k' q' (e ▸ hc)
      have h1 := (r.mem_price _ _ _).mp hc
      have h2 := (r.mem_price _ _ _).mp (r.priceTail_mem p.key q hne)
      exact hkq ⟨h1.2.1.symm.trans h2.2.1, h1.2.2.symm.trans h2.2.2⟩

theorem insert_linkedO (r : Rep b n A) (h0 : 0 < id) (hid : ¬ b.Stored id) (h' : ℕ) :
    Linked ((b.insertIntoBook id h p q a f m sub).nextO h')
      ((b.insertIntoBook id h p q a f m sub).prevO h') ((A.push p.key q h id).ofOwner h') := by
  obtain ⟨hP, hO⟩ := r.fresh_ne_tails id h q h0 hid p.key
  have hm (h) : id ∉ A.ofOwner h := fun hm => hid ((r.mem_owner _ _).mp hm).1
  by_cases hh : h' = h
  · subst hh
    rw [insertIntoBook_nextO _ _ _ _ _ _ _ _ h0.ne' hP hO,
      insertIntoBook_prevO _ _ _ _ _ _ _ _ h0.ne' hP hO]
    simpa [Index.push] using (r.linkedO h').append id h0.ne' (hm _) (r.nodup_owner _)
      (r.zero_notMem_owner _)
  · simp only [Index.push, hh, if_false]
    refine (r.linkedO h').congr
      (insertIntoBook_nextO_other _ _ _ _ _ _ _ _ hh hP hO (.inl rfl)) fun c hc => ?_
    refine insertIntoBook_nextO_other _ _ _ _ _ _ _ _ hh hP hO (.inr ⟨?_, ?_⟩)
    · rintro rfl
      exact hm _ hc
    · rintro rfl
      have hne : b.ownerTail h ≠ 0 := fun e => r.zero_notMem_owner h' (e ▸ hc)
      have h1 := (r.mem_owner _ _).mp hc
      have h2 := (r.mem_owner _ _).mp (r.ownerTail_mem h hne)
      exact hh (h1.2.symm.trans h2.2)

theorem insert_mem_price (r : Rep b n A) (hid : ¬ b.Stored id) (k' : LevelKey) (q' i : ℕ) :
    i ∈ (A.push p.key q h id).atPrice k' q' ↔
      (b.insertIntoBook id h p q a f m sub).Stored i ∧
        ((b.insertIntoBook id h p q a f m sub).core i).key = k' ∧
        ((b.insertIntoBook id h p q a f m sub).core i).price = q' := by
  rw [insertIntoBook_stored _ _ _ _ _ _ _ _ r, insertIntoBook_core]
  have hm : id ∉ A.atPrice k' q' := fun hm => hid ((r.mem_price _ _ _).mp hm).1
  by_cases e : i = id
  · subst e
    simp only [true_or, true_and, if_true, newOrder, Order.unlinked, Order.key, Index.push]
    by_cases hkq : k' = p.key ∧ q' = q
    · simp [hkq, PlaceParams.key]
    · simp only [hkq, hm, if_false, false_iff]
      exact fun hh => hkq ⟨hh.1.symm, hh.2.symm⟩
  · by_cases hkq : k' = p.key ∧ q' = q
    · simp [Index.push, e, hkq, r.mem_price]
    · simp [Index.push, e, hkq, r.mem_price]

theorem insert_mem_owner (r : Rep b n A) (hid : ¬ b.Stored id) (h' i : ℕ) :
    i ∈ (A.push p.key q h id).ofOwner h' ↔
      (b.insertIntoBook id h p q a f m sub).Stored i ∧
        ((b.insertIntoBook id h p q a f m sub).core i).depositHash = h' := by
  rw [insertIntoBook_stored _ _ _ _ _ _ _ _ r, insertIntoBook_core]
  have hm : id ∉ A.ofOwner h' := fun hm => hid ((r.mem_owner _ _).mp hm).1
  by_cases e : i = id
  · subst e
    simp only [true_or, true_and, if_true, newOrder, Order.unlinked, Index.push]
    by_cases hh : h' = h
    · simp [hh]
    · simp [hh, hm, Ne.symm hh]
  · by_cases hh : h' = h
    · simp [Index.push, e, hh, r.mem_owner]
    · simp [Index.push, e, hh, r.mem_owner]

theorem insert_total (r : Rep b n A) (hid : ¬ b.Stored id) (k' : LevelKey) (q' : ℕ) :
    ((b.insertIntoBook id h p q a f m sub).level k' q').totalAmount =
      (((A.push p.key q h id).atPrice k' q').map fun i =>
        ((b.insertIntoBook id h p q a f m sub).core i).amount).sum := by
  have hcong (k q₁) : (A.atPrice k q₁).map (fun i =>
      ((b.insertIntoBook id h p q a f m sub).core i).amount) =
      (A.atPrice k q₁).map fun i => (b.core i).amount := by
    refine List.map_congr_left fun c hc => ?_
    have hne : c ≠ id := by
      rintro rfl
      exact hid ((r.mem_price _ _ _).mp hc).1
    simp [insertIntoBook_core, hne]
  rw [insertIntoBook_level]
  by_cases hkq : k' = p.key ∧ q' = q
  · obtain ⟨rfl, rfl⟩ := hkq
    have hnew : ((b.insertIntoBook id h p q' a f m sub).core id).amount = a := by
      simp [insertIntoBook_core, newOrder, Order.unlinked]
    by_cases e : A.atPrice p.key q' = []
    · simp [Index.push, e, hnew, (r.priceTail_eq_zero_iff p.key q').mpr e]
    · simp [Index.push, hcong, hnew, (r.priceTail_eq_zero_iff p.key q').not.mpr e,
        r.total p.key q']
  · simp [Index.push, hkq, hcong, r.total]

theorem insert_count (r : Rep b n A) (hn : id < n) (hid : ¬ b.Stored id) :
    (b.insertIntoBook id h p q a f m sub).orderCount =
      ((Finset.range n).filter (b.insertIntoBook id h p q a f m sub).Stored).card := by
  have e : (Finset.range n).filter (b.insertIntoBook id h p q a f m sub).Stored =
      insert id ((Finset.range n).filter b.Stored) := by
    ext i
    simp only [Finset.mem_filter, Finset.mem_range, Finset.mem_insert,
      insertIntoBook_stored _ _ _ _ _ _ _ _ r]
    constructor
    · rintro ⟨h1, rfl | h2⟩
      · exact .inl rfl
      · exact .inr ⟨h1, h2⟩
    · rintro (rfl | ⟨h1, h2⟩)
      · exact ⟨hn, .inl rfl⟩
      · exact ⟨h1, .inr h2⟩
  rw [insertIntoBook_orderCount, r.count, e, Finset.card_insert_of_notMem (by simp [hid])]

/-- Inserting an id above every stored one keeps the representation. -/
theorem insert (r : Rep b n A) (h0 : 0 < id) (hn : id < n) (ha : 0 < a)
    (hf : ∀ i, b.Stored i → i < id) :
    Rep (b.insertIntoBook id h p q a f m sub) n (A.push p.key q h id) := by
  have hid : ¬ b.Stored id := fun hs => lt_irrefl _ (hf id hs)
  refine ⟨fun i hi => ?_, r.insert_mem_price _ _ _ _ _ _ _ _ hid, fun k' q' => ?_, fun k' q' => ?_,
    r.insert_linkedP _ _ _ _ _ _ _ _ h0 hid, r.insert_total _ _ _ _ _ _ _ _ hid,
    r.insert_mem_owner _ _ _ _ _ _ _ _ hid, fun h' => ?_,
    r.insert_linkedO _ _ _ _ _ _ _ _ h0 hid, r.insert_count _ _ _ _ _ _ _ _ hn hid⟩
  · rw [insertIntoBook_core]
    split_ifs with e
    · subst e
      exact ⟨h0, hn, ha⟩
    · exact r.bound i (((insertIntoBook_stored _ _ _ _ _ _ _ _ r i).mp hi).resolve_left e)
  · by_cases hkq : k' = p.key ∧ q' = q
    · simp only [Index.push, hkq, and_self, if_true]
      refine List.pairwise_append.mpr ⟨r.sorted _ _, List.pairwise_singleton _ _, ?_⟩
      intro x hx y hy
      rw [List.mem_singleton.mp hy]
      exact hf x ((r.mem_price _ _ _).mp hx).1
    · simpa only [Index.push, hkq, if_false] using r.sorted k' q'
  · rw [insertIntoBook_get?]
    by_cases hkq : k' = p.key ∧ q' = q
    · simp [Index.push, hkq]
    · simpa [Index.push, hkq] using r.level_iff k' q'
  · by_cases hh : h' = h
    · subst hh
      have hm : id ∉ A.ofOwner h' := fun hm => hid ((r.mem_owner _ _).mp hm).1
      simp only [Index.push, if_true]
      exact List.nodup_append.mpr ⟨r.nodup_owner h', List.nodup_singleton _, by
        intro x hx y hy e
        rw [List.mem_singleton.mp hy] at e
        exact hm (e ▸ hx)⟩
    · simpa only [Index.push, hh, if_false] using r.nodup_owner h'

end Rep

end Insert

end Dexdo.Book
