import Dexdo.InferenceBook.Entry
import Dexdo.InferenceBook.Unlink

namespace Dexdo.InferenceOrderBook

/-- The storage the matching engine leaves alone. -/
structure Kept (s t : InferenceOrderBook) : Prop where
  queue : t.toQueue = s.toQueue
  nextOrderId : t.nextOrderId = s.nextOrderId
  modelHash : t.modelHash = s.modelHash
  clock : t.clock = s.clock
  prices : t.prices = s.prices

namespace Kept

variable {s t u : InferenceOrderBook}

theorem refl (s : InferenceOrderBook) : Kept s s := ⟨rfl, rfl, rfl, rfl, rfl⟩

theorem trans (h : Kept s t) (h' : Kept t u) : Kept s u where
  queue := h'.queue.trans h.queue
  nextOrderId := h'.nextOrderId.trans h.nextOrderId
  modelHash := h'.modelHash.trans h.modelHash
  clock := h'.clock.trans h.clock
  prices := h'.prices.trans h.prices

end Kept

/-- A step of the engine that settles nothing and sweeps nothing. -/
structure Quiet (s t : InferenceOrderBook) : Prop extends Kept s t where
  fills : t.fills = s.fills
  dust : t.dust = s.dust
  handoverBuyer : t.handoverBuyer = s.handoverBuyer

namespace Quiet

variable {s t u : InferenceOrderBook}

theorem refl (s : InferenceOrderBook) : Quiet s s := ⟨.refl s, rfl, rfl, rfl⟩

theorem trans (h : Quiet s t) (h' : Quiet t u) : Quiet s u where
  toKept := h.toKept.trans h'.toKept
  fills := h'.fills.trans h.fills
  dust := h'.dust.trans h.dust
  handoverBuyer := h'.handoverBuyer.trans h.handoverBuyer

end Quiet

variable (s : InferenceOrderBook) (id cause refunded now : ℕ) (a : Addr) (n : ℕ)

theorem quiet_act (x : Action) : Quiet s (s.act x) := ⟨⟨rfl, rfl, rfl, rfl, rfl⟩, rfl, rfl, rfl⟩

theorem quiet_setBook (b : Book) : Quiet s (s.setBook b) :=
  ⟨⟨rfl, rfl, rfl, rfl, rfl⟩, rfl, rfl, rfl⟩

@[simp] theorem emit_toBook (e : BookEvent) : (s.emit e).toBook = s.toBook := rfl
@[simp] theorem toNote_toBook (c : NoteCall) : (s.toNote a c).toBook = s.toBook := rfl
@[simp] theorem toDeal_toBook (c : DealCall) : (s.toDeal a c).toBook = s.toBook := rfl
@[simp] theorem setBook_toBook (b : Book) : (s.setBook b).toBook = b := rfl

@[simp] theorem payShell_toBook : (s.payShell a n).toBook = s.toBook := by
  unfold payShell
  split_ifs <;> rfl

@[simp] theorem closeSell_toBook : (s.closeSell a).toBook = s.toBook := by
  unfold closeSell
  split_ifs <;> rfl

theorem quiet_payShell : Quiet s (s.payShell a n) := by
  unfold payShell
  split_ifs
  · exact .refl s
  · exact s.quiet_act _

theorem quiet_closeSell : Quiet s (s.closeSell a) := by
  unfold closeSell
  split_ifs
  · exact .refl s
  · exact s.quiet_act _

theorem quiet_insertIntoBook (o : Order) : Quiet s (s.insertIntoBook id o) :=
  (s.quiet_setBook _).trans (quiet_act _ _)

theorem quiet_removeFromBook : Quiet s (s.removeFromBook id cause refunded) := by
  simp only [removeFromBook]
  split_ifs
  · exact .refl s
  · exact (s.quiet_setBook _).trans (quiet_act _ _)

theorem quiet_refundAndRemove : Quiet s (s.refundAndRemove id cause) := by
  simp only [refundAndRemove]
  split_ifs
  · exact (s.quiet_removeFromBook _ _ _).trans ((quiet_payShell _ _ _).trans (quiet_act _ _))
  · exact s.quiet_removeFromBook _ _ _

theorem quiet_removeExpiredBid : Quiet s (s.removeExpiredBid id) :=
  (s.quiet_refundAndRemove _ _).trans (quiet_act _ _)

theorem quiet_removeExpiredSell : Quiet s (s.removeExpiredSell id) :=
  (s.quiet_removeFromBook _ _ _).trans ((quiet_closeSell _ _).trans (quiet_act _ _))

theorem quiet_refuse (e : QueueEntry) (reason refund : ℕ) :
    Quiet s (s.refuse e reason refund) := by
  simp only [refuse]
  split_ifs
  · exact (s.quiet_act _).trans (quiet_act _ _)
  · exact (s.quiet_closeSell _).trans ((quiet_act _ _).trans (quiet_act _ _))

theorem quiet_expireTaker (e : QueueEntry) (refund : ℕ) : Quiet s (s.expireTaker e refund) := by
  simp only [expireTaker]
  split_ifs
  · exact (s.quiet_act _).trans (quiet_act _ _)
  · exact (s.quiet_closeSell _).trans ((quiet_act _ _).trans (quiet_act _ _))

@[simp] theorem refuse_toBook (e : QueueEntry) (reason refund : ℕ) :
    (s.refuse e reason refund).toBook = s.toBook := by
  simp only [refuse]
  split_ifs <;> simp

@[simp] theorem expireTaker_toBook (e : QueueEntry) (refund : ℕ) :
    (s.expireTaker e refund).toBook = s.toBook := by
  simp only [expireTaker]
  split_ifs <;> simp

theorem quiet_finalizeTaker (e : QueueEntry) (remaining leftover : ℕ) :
    Quiet s (s.finalizeTaker now e id remaining leftover) := by
  simp only [finalizeTaker]
  split_ifs
  · exact (s.quiet_act _).trans (quiet_act _ _)
  · exact s.quiet_insertIntoBook _ _
  · exact s.quiet_insertIntoBook _ _
  · exact (s.quiet_act _).trans (quiet_act _ _)
  · exact .refl s

@[simp] theorem insertIntoBook_toBook (o : Order) :
    (s.insertIntoBook id o).toBook = s.toBook.insertOrder id o := rfl

theorem finalizeTaker_toBook (e : QueueEntry) (remaining leftover : ℕ) :
    (s.finalizeTaker now e id remaining leftover).toBook =
      if (if e.isBuy then 2 ≤ remaining else 0 < remaining) ∧ takerOnly e.flags = false then
        s.toBook.insertOrder id (restingOrder now e remaining leftover)
      else s.toBook := by
  unfold finalizeTaker
  cases hb : e.isBuy <;> cases ht : takerOnly e.flags
  · by_cases hr : 0 < remaining <;> simp [hr]
  · by_cases hr : 0 < remaining ∧ e.tokenContract ≠ noAddr <;> simp [hr]
  · by_cases hr : remaining < 2
    · simp [hr]
    · simp [hr, not_lt.mp hr]
  · simp

section Removal

variable {s id} (h : (s.order id).amount ≠ 0)

include h

theorem removeFromBook_toBook :
    (s.removeFromBook id cause refunded).toBook = s.toBook.removeOrder id := by
  simp [removeFromBook, h]

theorem refundAndRemove_toBook :
    (s.refundAndRemove id cause).toBook = s.toBook.removeOrder id := by
  simp only [refundAndRemove]
  split_ifs <;> simp [removeFromBook_toBook, h]

theorem removeExpiredBid_toBook : (s.removeExpiredBid id).toBook = s.toBook.removeOrder id :=
  refundAndRemove_toBook _ h

theorem removeExpiredSell_toBook : (s.removeExpiredSell id).toBook = s.toBook.removeOrder id := by
  simp [removeExpiredSell, removeFromBook_toBook, h]

end Removal

section Fills

variable (makerId takerId : ℕ) (buyerNote sellerNote : Addr) (buyerPubkey : ℕ) (sellerTC : Addr)
  (trade clearing : ℕ) (takerIsBuy : Bool) (dealFlags : UInt8) (takerClientId : ℕ)

theorem kept_settleFill : Kept s (s.settleFill makerId takerId buyerNote sellerNote buyerPubkey
    sellerTC trade clearing takerIsBuy dealFlags takerClientId).1 :=
  ⟨rfl, rfl, rfl, rfl, rfl⟩

@[simp] theorem settleFill_toBook : (s.settleFill makerId takerId buyerNote sellerNote buyerPubkey
    sellerTC trade clearing takerIsBuy dealFlags takerClientId).1.toBook = s.toBook := rfl

@[simp] theorem settleFill_fills : (s.settleFill makerId takerId buyerNote sellerNote buyerPubkey
    sellerTC trade clearing takerIsBuy dealFlags takerClientId).1.fills = s.fills := rfl

@[simp] theorem settleFill_dust : (s.settleFill makerId takerId buyerNote sellerNote buyerPubkey
    sellerTC trade clearing takerIsBuy dealFlags takerClientId).1.dust = s.dust := rfl

theorem quiet_reduceMaker (mk : Order) (cost : ℕ) :
    Quiet s (s.reduceMaker takerIsBuy id mk trade cost) := by
  unfold reduceMaker
  dsimp only
  split_ifs
  · exact (s.quiet_setBook _).trans (quiet_removeFromBook _ _ _ _)
  · exact (s.quiet_setBook _).trans ((quiet_setBook _ _).trans (quiet_refundAndRemove _ _ _))
  · exact (s.quiet_setBook _).trans ((quiet_setBook _ _).trans (quiet_setBook _ _))

end Fills

end Dexdo.InferenceOrderBook
