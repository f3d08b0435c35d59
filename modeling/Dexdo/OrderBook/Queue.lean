import Dexdo.OrderBook.Place
import Dexdo.Lib.Fifo

namespace Dexdo.OrderBook

variable {s : OrderBook} {K : Multiset Item} {c : Option ℕ} {n : ℕ} {A : Book.Index}

theorem cancelResting_spec (h : s.BookOk) (pnHash id opNonce : ℕ) (hs : s.Stored id)
    (ho : (s.order id).depositHash = pnHash) :
    Emits c (s.resting s.nextOrderId + K) s
        ((s.cancelResting pnHash id opNonce c).resting s.nextOrderId + K)
        (s.cancelResting pnHash id opNonce c) ∧
      (s.cancelResting pnHash id opNonce c).BookOk := by
  obtain ⟨A, r⟩ := h.rep
  subst ho
  constructor
  · rw [r.resting_remove hs, Multiset.cons_add]
    refine Emits.trans (.silent (setBook_frame s (s.toBook.removeFromBook id)) rfl rfl c _) ?_
    exact notifyCancelled_emits (Item.ofOrder id (s.core id)) _ opNonce (r.bound id hs).1.ne'
      fun hb => collateralFor_sell _ _ hb
  · refine ⟨⟨_, r.remove hs⟩, fun i hi => ?_⟩
    have hi' := (Book.removeFromBook_stored r hs i).mp hi
    rw [makerItem, show (s.cancelResting (s.order id).depositHash id opNonce c).core i =
      (s.toBook.removeFromBook id).core i from rfl, Book.removeFromBook_core r hs, if_neg hi'.1]
    exact h.limit i hi'.2

theorem cancelResting_stored (h : s.BookOk) (pnHash id opNonce : ℕ) (hs : s.Stored id) (i : ℕ) :
    (s.cancelResting pnHash id opNonce c).Stored i ↔ i ≠ id ∧ s.Stored i := by
  obtain ⟨A, r⟩ := h.rep
  exact Book.removeFromBook_stored r hs i

/-- What every cancelling operation does. -/
structure Cancels (c : Option ℕ) (K : Multiset Item) (s t : OrderBook) : Prop where
  emits : Emits c (s.resting s.nextOrderId + K) s (t.resting t.nextOrderId + K) t
  ok : t.BookOk
  nextId : t.nextOrderId = s.nextOrderId
  stored : ∀ i, t.Stored i → s.Stored i

theorem Cancels.refl (h : s.BookOk) : Cancels c K s s := ⟨.refl _ _ _, h, rfl, fun _ => id⟩

theorem Cancels.trans {t u : OrderBook} (h : Cancels c K s t) (h' : Cancels c K t u) :
    Cancels c K s u :=
  ⟨h.emits.trans h'.emits, h'.ok, h'.nextId.trans h.nextId, fun i hi => h.stored i (h'.stored i hi)⟩

theorem Cancels.one (h : s.BookOk) (pnHash id opNonce : ℕ) (hs : s.Stored id)
    (ho : (s.order id).depositHash = pnHash) :
    Cancels c K s (s.cancelResting pnHash id opNonce c) := by
  obtain ⟨h1, h2⟩ := cancelResting_spec (K := K) (c := c) h pnHash id opNonce hs ho
  exact ⟨h1, h2, rfl, fun i hi => ((cancelResting_stored h pnHash id opNonce hs i).mp hi).2⟩

theorem not_stored_order {id : ℕ} (h : ¬ s.Stored id) : s.order id = default := by
  unfold Book.Stored at h
  simp only [Bool.not_eq_true, Option.isSome_eq_false_iff, Option.isNone_iff_eq_none] at h
  simp [Book.order, h]

theorem doCancel_spec (h : s.BookOk) (callerHash id opNonce batch : ℕ) :
    Cancels (some batch) K s (s.doCancel callerHash id opNonce batch) := by
  unfold doCancel
  dsimp only
  split_ifs with h1 h2
  · exact .refl h
  · exact .refl h
  · refine .one h callerHash id opNonce ?_ (not_ne_iff.mp h2)
    by_contra hs
    exact h1 (by rw [not_stored_order hs]; exact ⟨rfl, rfl⟩)

section Rules

variable {R : OrderBook → OrderBook → Prop} (hrefl : ∀ s : OrderBook, s.BookOk → R s s)
  (htrans : ∀ s t u, R s t → R t u → R s u)

include hrefl htrans

/-- What every cancellation of an order of the caller does holds of the walk along his chain. -/
theorem cancelAllWalk_rule (callerHash opNonce batch left : ℕ)
    (hone : ∀ (s : OrderBook) (id : ℕ), s.BookOk → s.Stored id →
      (s.order id).depositHash = callerHash →
        R s (s.cancelResting callerHash id opNonce (some batch)))
    (h : s.BookOk) (r : s.toBook.Rep s.nextOrderId A) :
    R s (cancelAllWalk callerHash opNonce batch left
      ((A.ofOwner callerHash).head?.getD 0) s).1 := by
  induction left generalizing s A with
  | zero => exact hrefl s h
  | succ left ih =>
    unfold cancelAllWalk
    cases hl : A.ofOwner callerHash with
    | nil => exact hrefl s h
    | cons x l =>
      have hx : x ∈ A.ofOwner callerHash := by simp [hl]
      obtain ⟨hs, ho⟩ := (r.mem_owner _ _).mp hx
      have hx0 : x ≠ 0 := (r.bound x hs).1.ne'
      simp only [List.head?_cons, Option.getD_some, hx0, if_false]
      have hok := (Cancels.one (K := 0) (c := some batch) h callerHash x opNonce hs ho).ok
      have hnext := (r.linksO_of_split (u := []) callerHash hl).1
      have hl' : (A.drop (s.order x).key (s.order x).price (s.order x).depositHash x).ofOwner
          callerHash = l := by
        have ho' : (s.order x).depositHash = callerHash := ho
        simp [Book.Index.drop, ho', hl]
      have r' : (s.cancelResting callerHash x opNonce (some batch)).toBook.Rep
        (s.cancelResting callerHash x opNonce (some batch)).nextOrderId _ := r.remove hs
      have hrec := ih hok r'
      rw [hl', ← hnext] at hrec
      exact htrans _ _ _ (hone s x h hs ho) hrec

theorem doCancelAll_rule (callerHash opNonce batch : ℕ)
    (hone : ∀ (s : OrderBook) (id : ℕ), s.BookOk → s.Stored id →
      (s.order id).depositHash = callerHash →
        R s (s.cancelResting callerHash id opNonce (some batch))) (h : s.BookOk) :
    R s (s.doCancelAll callerHash opNonce batch).1 := by
  obtain ⟨A, r⟩ := h.rep
  have hh : s.ownerHead callerHash = (A.ofOwner callerHash).head?.getD 0 := by
    simpa [Book.nextO] using (r.linkedO callerHash).head_eq
  unfold doCancelAll
  rw [hh]
  exact cancelAllWalk_rule hrefl htrans callerHash opNonce batch _ hone h r

/-- What every cancellation does holds of a list of them, after which none of the list rests. -/
theorem drain_rule (hone : ∀ (s : OrderBook) (id : ℕ), s.BookOk → s.Stored id →
      R s (s.cancelResting (s.order id).depositHash id 0 none))
    (ids : List ℕ) (h : s.BookOk) (hn : ids.Nodup) (hs : ∀ i ∈ ids, s.Stored i) :
    let t := ids.foldl (fun s oid => s.cancelResting (s.order oid).depositHash oid 0 none) s
    R s t ∧ ∀ i, t.Stored i ↔ s.Stored i ∧ i ∉ ids := by
  induction ids generalizing s with
  | nil => exact ⟨hrefl s h, by simp⟩
  | cons x ids ih =>
    have hx := hs x (by simp)
    have hnd := List.nodup_cons.mp hn
    have hok := (Cancels.one (K := 0) (c := none) h (s.order x).depositHash x 0 hx rfl).ok
    have hst := fun i => cancelResting_stored (c := none) h (s.order x).depositHash x 0 hx i
    obtain ⟨h1, h2⟩ := ih hok hnd.2 fun i hi => (hst i).mpr
      ⟨fun e => hnd.1 (e ▸ hi), hs i (by simp [hi])⟩
    refine ⟨htrans _ _ _ (hone s x h hx) h1, fun i => (h2 i).trans ?_⟩
    rw [hst i, List.mem_cons, not_or]
    tauto

end Rules

theorem doCancelAll_spec (h : s.BookOk) (callerHash opNonce batch : ℕ) :
    Cancels (some batch) K s (s.doCancelAll callerHash opNonce batch).1 :=
  doCancelAll_rule (fun _ => .refl) (fun _ _ _ => .trans) callerHash opNonce batch
    (fun _ id h hs ho => .one h callerHash id opNonce hs ho) h

theorem drain_spec (ids : List ℕ) (h : s.BookOk) (hn : ids.Nodup) (hs : ∀ i ∈ ids, s.Stored i) :
    let t := ids.foldl (fun s oid => s.cancelResting (s.order oid).depositHash oid 0 none) s
    Cancels none K s t ∧ ∀ i, t.Stored i ↔ s.Stored i ∧ i ∉ ids :=
  drain_rule (fun _ => .refl) (fun _ _ _ => .trans)
    (fun s id h hs => .one h (s.order id).depositHash id 0 hs rfl) ids h hn hs

end Dexdo.OrderBook

namespace Dexdo

namespace Queue

/-- Queue entries from the head on. -/
def list (q : Queue) : List QueueEntry := ring QUEUE_CAPACITY q.queue q.queueHead q.queueSize

/-- The ring indices are consistent. -/
structure Ok (q : Queue) : Prop where
  head_lt : q.queueHead < QUEUE_CAPACITY
  size_le : q.queueSize ≤ QUEUE_CAPACITY
  tail_eq : q.queueTail = (q.queueHead + q.queueSize) % QUEUE_CAPACITY

theorem Ok.empty : Ok Queue.empty := ⟨by decide, by decide, by decide⟩

@[simp] theorem empty_list : Queue.empty.list = [] := rfl

theorem list_length (q : Queue) : q.list.length = q.queueSize := Ring.length

theorem list_eq_nil_iff (q : Queue) : q.list = [] ↔ q.queueSize = 0 := by
  rw [← List.length_eq_zero_iff, list_length]

theorem Ok.agree {q : Queue} (h : q.Ok) :
    Ring.Agree QUEUE_CAPACITY q.queueHead q.queueTail q.queueSize :=
  ⟨h.head_lt, h.size_le, h.tail_eq⟩

theorem Ok.of_agree {q : Queue}
    (h : Ring.Agree QUEUE_CAPACITY q.queueHead q.queueTail q.queueSize) : q.Ok :=
  ⟨h.head_lt, h.size_le, h.tail_eq⟩

theorem Ok.list_cons {q : Queue} (h : q.Ok) (hs : q.queueSize ≠ 0) :
    q.list = q.queue q.queueHead :: q.list.tail := h.agree.cons hs

end Queue

namespace OrderBook

variable {s : OrderBook}

theorem enqueue_list (h : s.toQueue.Ok) (hs : s.queueSize < QUEUE_CAPACITY) (e : QueueEntry) :
    (s.enqueue e).toQueue.Ok ∧
      (s.enqueue e).toQueue.list = s.toQueue.list ++ [{ e with queueId := s.nextQueueId }] := by
  obtain ⟨ha, hl⟩ := h.agree.push (f := s.queue) hs { e with queueId := s.nextQueueId }
  exact ⟨.of_agree ha, hl⟩

theorem advanceHead_list (h : s.toQueue.Ok) (hs : s.queueSize ≠ 0) :
    s.advanceHead.toQueue.Ok ∧ s.advanceHead.toQueue.list = s.toQueue.list.tail := by
  obtain ⟨ha, hl⟩ := h.agree.pop (f := s.queue) hs default
  exact ⟨.of_agree ha, hl⟩

theorem setHead_list (h : s.toQueue.Ok) (hs : s.queueSize ≠ 0) (e : QueueEntry) :
    let t := { s with queue := Function.update s.queue s.queueHead e }
    t.toQueue.Ok ∧ t.toQueue.list = e :: s.toQueue.list.tail :=
  ⟨.of_agree h.agree, h.agree.set_head hs e⟩

theorem lastSlot_eq (h : s.toQueue.Ok) (hs : s.queueSize ≠ 0) :
    s.lastSlot = (s.queueHead + (s.queueSize - 1)) % QUEUE_CAPACITY := by
  have h1 := h.tail_eq
  have h2 := h.head_lt
  have h3 := h.size_le
  unfold lastSlot QUEUE_CAPACITY at *
  split_ifs <;> omega

theorem lastSlot_entry (h : s.toQueue.Ok) {es : List QueueEntry} {e : QueueEntry}
    (hl : s.toQueue.list = es ++ [e]) : s.queueSize ≠ 0 ∧
      ring QUEUE_CAPACITY s.queue s.queueHead (s.queueSize - 1) = es ∧ s.queue s.lastSlot = e := by
  have hs : s.queueSize ≠ 0 := by
    intro h0
    simp [(s.toQueue.list_eq_nil_iff).mpr h0] at hl
  have hsn := Ring.snoc (c := QUEUE_CAPACITY) (f := s.queue) (h := s.queueHead)
    (Nat.pos_of_ne_zero hs)
  rw [show ring QUEUE_CAPACITY s.queue s.queueHead s.queueSize = s.toQueue.list from rfl, hl] at hsn
  obtain ⟨h1, h2⟩ := List.append_inj' hsn rfl
  rw [← lastSlot_eq h hs] at h2
  exact ⟨hs, h1.symm, (List.singleton_inj.mp h2).symm⟩

theorem markBatchEnd_list (h : s.toQueue.Ok) {es : List QueueEntry} {e : QueueEntry}
    (hl : s.toQueue.list = es ++ [e]) :
    (s.markBatchEnd s.lastSlot).toQueue.Ok ∧
      (s.markBatchEnd s.lastSlot).toQueue.list = es ++ [{ e with isBatchEnd := true }] := by
  obtain ⟨hs, hes, he⟩ := lastSlot_entry h hl
  refine ⟨⟨h.head_lt, h.size_le, h.tail_eq⟩, ?_⟩
  have hset := Ring.set_last (f := s.queue) (h := s.queueHead) (Nat.pos_of_ne_zero hs) h.size_le
    { s.queue s.lastSlot with isBatchEnd := true }
  rw [← lastSlot_eq h hs, hes] at hset
  rw [← he]
  exact hset

end OrderBook

end Dexdo
