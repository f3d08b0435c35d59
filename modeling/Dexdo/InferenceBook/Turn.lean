import Dexdo.InferenceBook.Match
import Dexdo.Lib.Fifo

namespace Dexdo.InferenceOrderBook

namespace Queue

/-- Queue entries from the head on. -/
def list (q : Queue) : List QueueEntry := ring QUEUE_CAPACITY q.queue q.queueHead q.queueSize

/-- The ring indices are consistent. -/
structure Ok (q : Queue) : Prop where
  head_lt : q.queueHead < QUEUE_CAPACITY
  size_le : q.queueSize ≤ QUEUE_CAPACITY
  tail_eq : q.queueTail = (q.queueHead + q.queueSize) % QUEUE_CAPACITY

theorem Ok.empty : Ok Queue.empty := ⟨by decide, by decide, by decide⟩

theorem list_eq_nil_iff (q : Queue) : q.list = [] ↔ q.queueSize = 0 := by
  rw [← List.length_eq_zero_iff, list, Ring.length]

theorem Ok.agree {q : Queue} (h : q.Ok) :
    Ring.Agree QUEUE_CAPACITY q.queueHead q.queueTail q.queueSize :=
  ⟨h.head_lt, h.size_le, h.tail_eq⟩

theorem Ok.of_agree {q : Queue}
    (h : Ring.Agree QUEUE_CAPACITY q.queueHead q.queueTail q.queueSize) : q.Ok :=
  ⟨h.head_lt, h.size_le, h.tail_eq⟩

theorem Ok.list_cons {q : Queue} (h : q.Ok) (hs : q.queueSize ≠ 0) :
    q.list = q.queue q.queueHead :: q.list.tail := h.agree.cons hs

end Queue

/-- An entry as the entry points write it. -/
structure QueueEntry.Fresh (e : QueueEntry) : Prop where
  kind : e.entryType ≠ .none
  first : e.contOrderId = 0
  amount : e.entryType = .place → 2 ≤ e.amount
  maker : e.entryType = .place → has e.flags FLAG_POST_ONLY = true → has e.flags TAKER_FLAGS = false
  backed : e.entryType = .place → Backed e e.amount e.escrow
  latch : e.entryType = .place → e.isBuy = false → e.tokenContract ≠ noAddr

/-- The head of a match that goes on; `n` is the next order id. -/
structure QueueEntry.Continues (e : QueueEntry) (n : ℕ) : Prop where
  kind : e.entryType = .place
  first : e.contOrderId ≠ 0
  last : e.contOrderId + 1 = n
  unfilled : e.contRemaining ≠ 0
  backed : Backed e e.contRemaining e.contLeftover

section Updates

variable {s : InferenceOrderBook} {e : QueueEntry}

theorem enqueue_list (h : s.toQueue.Ok) (hs : s.queueSize < QUEUE_CAPACITY) (e : QueueEntry) :
    (s.enqueue e).toQueue.Ok ∧ (s.enqueue e).toQueue.list = s.toQueue.list ++ [e] := by
  obtain ⟨ha, hl⟩ := h.agree.push (f := s.queue) hs e
  exact ⟨.of_agree ha, hl⟩

theorem advanceHead_list (h : s.toQueue.Ok) (hs : s.queueSize ≠ 0) :
    s.advanceHead.toQueue.Ok ∧ s.advanceHead.toQueue.list = s.toQueue.list.tail := by
  obtain ⟨ha, hl⟩ := h.agree.pop (f := s.queue) hs default
  exact ⟨.of_agree ha, hl⟩

theorem setHead_list (h : s.toQueue.Ok) (hs : s.queueSize ≠ 0) (e : QueueEntry) :
    let t := { s with queue := Function.update s.queue s.queueHead e }
    t.toQueue.Ok ∧ t.toQueue.list = e :: s.toQueue.list.tail :=
  ⟨.of_agree h.agree, h.agree.set_head hs e⟩

end Updates

/-- `c` is `b` without some of its orders. -/
def Book.Sheds (b c : Book) : Prop := ∀ i, c.Stored i → b.Stored i ∧ c.core i = b.core i

theorem Book.Drops.sheds {b c : Book} {id : ℕ} (h : b.Drops id c) : b.Sheds c := by
  intro i hi
  obtain ⟨h1, h2⟩ := (h.stored i).mp hi
  exact ⟨h2, h.core i h1⟩

/-- A pass that only takes orders out of a sound book. -/
structure Shed (n : ℕ) (s t : InferenceOrderBook) : Prop where
  quiet : Quiet s t
  sound : t.toBook.Sound n
  sheds : s.toBook.Sheds t.toBook

section Removals

variable {n : ℕ} {s t u : InferenceOrderBook}

theorem Shed.refl (h : s.toBook.Sound n) : Shed n s s := ⟨.refl s, h, fun _ hi => ⟨hi, rfl⟩⟩

theorem Shed.trans (h : Shed n s t) (h' : Shed n t u) : Shed n s u := by
  refine ⟨h.quiet.trans h'.quiet, h'.sound, fun i hi => ?_⟩
  obtain ⟨h1, h2⟩ := h'.sheds i hi
  obtain ⟨h3, h4⟩ := h.sheds i h1
  exact ⟨h3, h2.trans h4⟩

theorem Shed.of_quiet (h : s.toBook.Sound n) (q : Quiet s t) (hb : t.toBook = s.toBook) :
    Shed n s t := by
  refine ⟨q, hb ▸ h, fun i hi => ?_⟩
  rw [hb] at hi ⊢
  exact ⟨hi, rfl⟩

theorem Shed.quietly (h : Shed n s t) (q : Quiet t u) (hb : u.toBook = t.toBook) : Shed n s u :=
  h.trans (.of_quiet h.sound q hb)

variable (h : s.toBook.Sound n) (id cause refunded now : ℕ) (owner : Addr)

include h

theorem shed_removeFromBook : Shed n s (s.removeFromBook id cause refunded) := by
  by_cases h0 : (s.order id).amount = 0
  · rw [show s.removeFromBook id cause refunded = s from if_pos h0]
    exact .refl h
  · have hs : s.Stored id := by
      by_contra hs
      exact h0 (congrArg Order.amount (Book.order_of_not_stored hs))
    obtain ⟨h1, h2⟩ := h.remove hs
    rw [← removeFromBook_toBook cause refunded h0] at h1 h2
    exact ⟨s.quiet_removeFromBook id cause refunded, h1, h2.sheds⟩

theorem shed_refundAndRemove : Shed n s (s.refundAndRemove id cause) := by
  have hr := shed_removeFromBook h id cause (s.order id).escrow
  unfold refundAndRemove
  dsimp only
  split_ifs
  · exact hr.quietly ((quiet_payShell _ _ _).trans (quiet_act _ _)) (payShell_toBook _ _ _)
  · exact hr

theorem shed_removeExpiredBid : Shed n s (s.removeExpiredBid id) :=
  (shed_refundAndRemove h id REMOVED_EXPIRED).quietly (quiet_act _ _) rfl

theorem shed_removeExpiredSell : Shed n s (s.removeExpiredSell id) :=
  (shed_removeFromBook h id REMOVED_EXPIRED 0).quietly
    ((quiet_closeSell _ _).trans (quiet_act _ _)) (closeSell_toBook _ _)

theorem shed_cancelled (refund : ℕ) (isBuy : Bool) (tc : Addr) :
    let t := ((s.removeFromBook id REMOVED_CANCELLED refund).emit
      (.orderCancelled id refund owner)).payShell owner refund
    Shed n s (if isBuy then t else t.closeSell tc) := by
  have hr := (shed_removeFromBook h id REMOVED_CANCELLED refund).quietly
    ((quiet_act _ (.event (.orderCancelled id refund owner))).trans (quiet_payShell _ owner refund))
    (payShell_toBook _ _ _)
  dsimp only
  split_ifs
  · exact hr
  · exact hr.quietly (quiet_closeSell _ _) (closeSell_toBook _ _)

theorem shed_doCancel : Shed n s (s.doCancel owner id) := by
  unfold doCancel
  by_cases h1 : (s.order id).amount = 0 ∧ (s.order id).note = noAddr
  · simp only [if_pos h1]
    exact .of_quiet h ((quiet_act _ _).trans (quiet_act _ _)) rfl
  · by_cases h2 : (s.order id).note ≠ owner
    · simp only [if_neg h1, if_pos h2]
      exact .of_quiet h ((quiet_act _ _).trans (quiet_act _ _)) rfl
    · simp only [if_neg h1, if_neg h2]
      exact shed_cancelled h id owner _ _ _

omit h in
theorem shed_cancelAllWalk (left cur : ℕ) (h : s.toBook.Sound n) :
    Shed n s (cancelAllWalk owner left cur s).1 := by
  induction left generalizing cur s with
  | zero => exact .refl h
  | succ left ih =>
    unfold cancelAllWalk
    split_ifs with h0
    · exact .refl h
    · have hc := shed_cancelled h cur owner (s.order cur).escrow (s.order cur).isBuy
        (s.order cur).tokenContract
      exact hc.trans (ih _ hc.sound)

theorem shed_doExpire : Shed n s (s.doExpire now id) := by
  unfold doExpire
  dsimp only
  split_ifs
  · exact .refl h
  · exact shed_removeExpiredBid h id
  · exact shed_removeExpiredSell h id
  · exact .refl h

end Removals

section Heads

variable {now n : ℕ} {s t u : InferenceOrderBook} {e : QueueEntry}

/-- Why a new PLACE entry is turned away. -/
inductive Refusal (now : ℕ) (s : InferenceOrderBook) (e : QueueEntry) : ℕ → Prop
  | expired : isExpired now e.deadline = true → Refusal now s e PLACE_REJ_EXPIRED
  | postOnly : isExpired now e.deadline = false → has e.flags FLAG_POST_ONLY = true →
      s.executableCrosses now e = true → Refusal now s e PLACE_REJ_POST_ONLY
  | fok : isExpired now e.deadline = false → has e.flags FLAG_FOK = true →
      s.fokFullyFillable now e = false → Refusal now s e PLACE_REJ_FOK

/-- How the run of a PLACE entry at the head ends. -/
inductive Placed (now : ℕ) (s : InferenceOrderBook) (e : QueueEntry) :
    InferenceOrderBook × Option QueueEntry → Prop
  | refused (reason : ℕ) : e.contOrderId = 0 → Refusal now s e reason →
      Placed now s e (s.refuse e reason (if e.isBuy then e.escrow else 0), none)
  | lapsed : e.contOrderId ≠ 0 → isExpired now e.deadline = true →
      Placed now s e (s.expireTaker e (if e.isBuy then e.contLeftover else 0), none)
  | opened : e.contOrderId = 0 → isExpired now e.deadline = false →
      (has e.flags FLAG_POST_ONLY = true → s.executableCrosses now e = false) →
      (has e.flags FLAG_FOK = true → s.fokFullyFillable now e = true) →
      Placed now s e ((s.openOrder e).matchPhase now e s.nextOrderId e.amount e.escrow 0)
  | resumed : e.contOrderId ≠ 0 → isExpired now e.deadline = false →
      Placed now s e
        (s.matchPhase now e e.contOrderId e.contRemaining e.contLeftover e.contScanOrder)

theorem doPlaceHead_placed (now : ℕ) (s : InferenceOrderBook) (e : QueueEntry) :
    Placed now s e (s.doPlaceHead now e) := by
  unfold doPlaceHead
  by_cases h0 : e.contOrderId = 0
  · rw [if_pos h0]
    by_cases hx : isExpired now e.deadline = true
    · rw [if_pos hx]
      exact .refused _ h0 (.expired hx)
    · rw [if_neg hx]
      rw [Bool.not_eq_true] at hx
      unfold placeFirst
      by_cases hp : (has e.flags FLAG_POST_ONLY && s.executableCrosses now e) = true
      · simp only [if_pos hp]
        rw [Bool.and_eq_true] at hp
        exact .refused _ h0 (.postOnly hx hp.1 hp.2)
      · by_cases hf : (has e.flags FLAG_FOK && !s.fokFullyFillable now e) = true
        · simp only [if_neg hp, if_pos hf]
          rw [Bool.and_eq_true, Bool.not_eq_true'] at hf
          exact .refused _ h0 (.fok hx hf.1 hf.2)
        · simp only [if_neg hp, if_neg hf]
          refine .opened h0 hx (fun h => ?_) fun h => ?_
          · simpa [h] using hp
          · simpa [h] using hf
  · rw [if_neg h0]
    by_cases hx : isExpired now e.deadline = true
    · rw [if_pos hx]
      exact .lapsed h0 hx
    · rw [if_neg hx]
      exact .resumed h0 (by simpa using hx)

/-- The head as a match that goes on leaves it. -/
def continued (e : QueueEntry) (orderId : ℕ) (m : MatchState) (cur : ℕ) : QueueEntry :=
  { e with
    contOrderId := orderId
    contRemaining := m.remaining
    contLeftover := m.leftover
    contScanOrder := cur }

theorem matchPhase_capped {orderId amount escrow resume cur : ℕ}
    (h : (s.matchOrder now e orderId amount escrow resume).halt = .capped cur) :
    s.matchPhase now e orderId amount escrow resume =
      ((s.matchOrder now e orderId amount escrow resume).book,
        some (continued e orderId (s.matchOrder now e orderId amount escrow resume) cur)) := by
  unfold matchPhase
  dsimp only
  rw [h]
  rfl

theorem matchPhase_final {orderId amount escrow resume : ℕ}
    (h : ∀ cur, (s.matchOrder now e orderId amount escrow resume).halt ≠ .capped cur) :
    s.matchPhase now e orderId amount escrow resume =
      ((s.matchOrder now e orderId amount escrow resume).book.finalizeTaker now e orderId
        (s.matchOrder now e orderId amount escrow resume).remaining
        (s.matchOrder now e orderId amount escrow resume).leftover, none) := by
  unfold matchPhase
  dsimp only
  split
  next cur hc => exact absurd hc (h cur)
  next => rfl

end Heads

end Dexdo.InferenceOrderBook
