import Dexdo.OrderBook.Queue

namespace Dexdo

/-- Items of the PLACE entries of a queue. -/
def placeItems (es : List QueueEntry) : Multiset Item :=
  ↑((es.filter fun e => decide (e.entryType = .place)).map Item.ofEntry)

theorem placeItems_cons (e : QueueEntry) (es : List QueueEntry) : placeItems (e :: es) =
    (if e.entryType = .place then {Item.ofEntry e} else 0) + placeItems es := by
  unfold placeItems
  by_cases h : e.entryType = .place
  · simp [h]
  · simp [h]

theorem placeItems_append (es es' : List QueueEntry) :
    placeItems (es ++ es') = placeItems es + placeItems es' := by
  simp [placeItems]

namespace OrderBook

/-- Orders the book still answers for: queued, at the head, or resting. -/
def items (s : OrderBook) : Multiset Item :=
  placeItems s.toQueue.list + s.resting s.nextOrderId

/-- Invariant of the storage between calls. -/
structure Ok (s : OrderBook) : Prop where
  book : s.BookOk
  pos : 0 < s.nextOrderId
  queue : s.toQueue.Ok
  typed : ∀ e ∈ s.toQueue.list, e.entryType ≠ .none
  amount : ∀ e ∈ s.toQueue.list, e.entryType = .place → 0 < e.params.amount
  waiting : ∀ e ∈ s.toQueue.list.tail, e.entryType = .place → e.targetOrderId = 0
  head : ∀ e, s.toQueue.list.head? = some e → e.entryType = .place → e.targetOrderId ≠ 0 →
    s.Fresh e.targetOrderId
  down : s.shuttingDown → s.queueSize = 0 ∧ ∀ i, s.Stored i → s.shutdownCursor ≤ i
  cursor : s.shuttingDown = false → s.shutdownCursor = 0

theorem Ok.init (market : MarketId) (resultStart numOutcomes : ℕ) :
    (OrderBook.init market resultStart numOutcomes).Ok := by
  have hns (i : ℕ) : ¬ (OrderBook.init market resultStart numOutcomes).Stored i := by
    simp [Book.Stored, OrderBook.init, Book.empty]
  exact ⟨⟨⟨_, Book.Rep.empty 1⟩, fun i hi => absurd hi (hns i)⟩, Nat.one_pos, Queue.Ok.empty,
    by simp [OrderBook.init], by simp [OrderBook.init], by simp [OrderBook.init],
    by simp [OrderBook.init], by simp [OrderBook.init], fun _ => rfl⟩

/-- The acknowledgement an entry that ends its call triggers. -/
def ackOut (e : QueueEntry) : Out :=
  ⟨e.depositHash, .onBatchComplete e.opNonce, 0, some e.batch⟩

variable {s t : OrderBook} {e : QueueEntry} {rest : List QueueEntry}

@[simp] theorem advanceHead_outs : s.advanceHead.outs = s.outs := rfl
theorem finishHead_outs (e : QueueEntry) :
    (s.finishHead e).outs = s.outs ++ (if e.isBatchEnd then [ackOut e] else []) := by
  unfold finishHead
  cases h : e.isBatchEnd
  · simp
  · simp [notifyBatchAccepted, act_outs, Action.out?, ackOut]

theorem finishHead_feeTotal (e : QueueEntry) : (s.finishHead e).feeTotal = s.feeTotal := by
  unfold finishHead
  cases h : e.isBatchEnd
  · simp [feeTotal, advanceHead]
  · simp [notifyBatchAccepted, act_feeTotal, Action.collected]
    simp [feeTotal, advanceHead]

theorem pokeNext_feeTotal : s.pokeNext.feeTotal = s.feeTotal := by
  unfold pokeNext
  split_ifs <;> simp [act_feeTotal, Action.collected]

theorem pokeNext_outs : s.pokeNext.outs = s.outs := by
  unfold pokeNext
  split_ifs <;> simp [act_outs, Action.out?]

/-- Storage equal up to the action list. -/
def SameStore (s t : OrderBook) : Prop := t = { s with actions := t.actions }

theorem SameStore.ok (h : SameStore s t) (hs : s.Ok) : t.Ok := by
  rw [h]
  exact ⟨hs.book.of_toBook rfl le_rfl, hs.pos, hs.queue, hs.typed, hs.amount, hs.waiting, hs.head,
    hs.down, hs.cursor⟩

theorem pokeNext_same : SameStore s s.pokeNext := by
  unfold pokeNext
  split_ifs <;> rfl

theorem finishHead_same (e : QueueEntry) : SameStore s.advanceHead (s.finishHead e) := by
  unfold finishHead
  dsimp only
  split_ifs <;> rfl

/-- What no processing step changes. -/
structure Kept (s t : OrderBook) : Prop where
  market : t.market = s.market
  numOutcomes : t.numOutcomes = s.numOutcomes
  subs : t.subs = s.subs
  batches : t.batches = s.batches

theorem Kept.trans {u : OrderBook} (h : Kept s t) (h' : Kept t u) : Kept s u :=
  ⟨h'.market.trans h.market, h'.numOutcomes.trans h.numOutcomes, h'.subs.trans h.subs,
    h'.batches.trans h.batches⟩

theorem Frame.kept (h : Frame s t) : Kept s t := ⟨h.market, h.numOutcomes, h.subs, h.batches⟩

theorem SameStore.kept (h : SameStore s t) : Kept s t := by
  rw [h]
  exact ⟨rfl, rfl, rfl, rfl⟩

/-- A pass over head entry `e` with the entries `rest` behind it; `stay` is the entry kept at
the head, `os` what is sent on its account. -/
structure HeadPass (s t : OrderBook) (e : QueueEntry) (rest : List QueueEntry)
    (stay : Option QueueEntry) (os : List Out) : Prop where
  before : s.toQueue.list = e :: rest
  after : t.toQueue.list = stay.toList ++ rest
  path : LedgerPath s.numOutcomes s.items os t.items
  cause : ∀ o ∈ os, o.cause = some e.batch ∧ o.cb.isAck = false
  outs : t.outs = s.outs ++ os ++ (if stay = none ∧ e.isBatchEnd then [ackOut e] else [])
  fees : (t.feeTotal : ℤ) = s.feeTotal + (os.map fun o => o.cb.fee).sum
  same : ∀ e', stay = some e' → e'.batch = e.batch ∧ e'.isBatchEnd = e.isBatchEnd ∧
    e'.depositHash = e.depositHash ∧ e'.opNonce = e.opNonce ∧ e'.sub = e.sub
  type : ∀ e', stay = some e' → e'.entryType = e.entryType

/-- The head of the queue after its entry has been processed. -/
def leaveHead (s : OrderBook) (e : QueueEntry) : Option QueueEntry → OrderBook
  | none => s.finishHead e
  | some e' => { s with queue := Function.update s.queue s.queueHead e' }

theorem Ok.list_cons (h : s.Ok) (hs : s.queueSize ≠ 0) :
    s.toQueue.list = s.queue s.queueHead :: s.toQueue.list.tail := h.queue.list_cons hs

theorem leaveHead_list (hq : t.toQueue.Ok) (hl : t.toQueue.list = e :: rest)
    (y : Option QueueEntry) : (t.leaveHead e y).toQueue.Ok ∧
      (t.leaveHead e y).toQueue.list = y.toList ++ rest := by
  have hs : t.queueSize ≠ 0 := by
    intro h0
    simp [(t.toQueue.list_eq_nil_iff).mpr h0] at hl
  cases y with
  | none =>
    have := advanceHead_list hq hs
    rw [hl] at this
    rw [leaveHead, finishHead_same (s := t) e]
    exact this
  | some e' =>
    have := setHead_list hq hs e'
    rwa [hl] at this

theorem leaveHead_fields (t : OrderBook) (e : QueueEntry) (y : Option QueueEntry) :
    (t.leaveHead e y).toBook = t.toBook ∧ (t.leaveHead e y).nextOrderId = t.nextOrderId ∧
      (t.leaveHead e y).shuttingDown = t.shuttingDown ∧
      (t.leaveHead e y).shutdownCursor = t.shutdownCursor ∧ Kept t (t.leaveHead e y) := by
  cases y with
  | none =>
    rw [leaveHead, finishHead_same (s := t) e]
    exact ⟨rfl, rfl, rfl, rfl, rfl, rfl, rfl, rfl⟩
  | some => exact ⟨rfl, rfl, rfl, rfl, rfl, rfl, rfl, rfl⟩

theorem leaveHead_outs (t : OrderBook) (e : QueueEntry) (y : Option QueueEntry) :
    (t.leaveHead e y).outs = t.outs ++ (if y = none ∧ e.isBatchEnd then [ackOut e] else []) := by
  cases y with
  | none => simp [leaveHead, finishHead_outs]
  | some e' =>
    rw [show (t.leaveHead e (some e')).outs = t.outs from rfl]
    simp

theorem leaveHead_feeTotal (t : OrderBook) (e : QueueEntry) (y : Option QueueEntry) :
    (t.leaveHead e y).feeTotal = t.feeTotal := by
  cases y with
  | none => exact finishHead_feeTotal e
  | some => rfl

/-- The entry kept at the head continues the one before. -/
def Resumes (t : OrderBook) (e e' : QueueEntry) : Prop :=
  (e'.entryType = e.entryType ∧ e'.batch = e.batch ∧ e'.isBatchEnd = e.isBatchEnd ∧
    e'.depositHash = e.depositHash ∧ e'.opNonce = e.opNonce ∧ e'.sub = e.sub) ∧
  (e'.entryType = .place → 0 < e'.params.amount ∧ t.Fresh e'.targetOrderId)

/-- Leaving a processed head keeps the invariant. -/
theorem leaveHead_ok (h : s.Ok) (hl : s.toQueue.list = e :: rest) (hd : s.shuttingDown = false)
    (hf : Frame s t) (hb : t.BookOk) (hn : s.nextOrderId ≤ t.nextOrderId)
    {y : Option QueueEntry} (hy : ∀ e', y = some e' → Resumes t e e') : (t.leaveHead e y).Ok := by
  obtain ⟨hq, hql⟩ := leaveHead_list (hf.toQueue ▸ h.queue) (hf.toQueue ▸ hl) y
  obtain ⟨hr1, hr2, hr4, hrc, -⟩ := leaveHead_fields t e y
  have hmem : ∀ x ∈ rest, x ∈ s.toQueue.list := fun x hx => by simp [hl, hx]
  have hwait : ∀ x ∈ rest, x.entryType = .place → x.targetOrderId = 0 := fun x hx =>
    h.waiting x (by simpa [hl] using hx)
  refine ⟨hb.of_toBook hr1 hr2.ge, hr2 ▸ h.pos.trans_le hn, hq, ?_, ?_, ?_, ?_, ?_,
    fun _ => by rw [hrc, hf.shutdownCursor, h.cursor hd]⟩
  · rw [hql]
    intro x hx
    rcases List.mem_append.mp hx with hx | hx
    · rw [Option.mem_toList] at hx
      rw [(hy x hx).1.1]
      exact h.typed e (by simp [hl])
    · exact h.typed x (hmem x hx)
  · rw [hql]
    intro x hx hpl
    rcases List.mem_append.mp hx with hx | hx
    · rw [Option.mem_toList] at hx
      exact ((hy x hx).2 hpl).1
    · exact h.amount x (hmem x hx) hpl
  · rw [hql]
    cases y with
    | none => exact fun x hx => hwait x (List.mem_of_mem_tail hx)
    | some => exact fun x hx => hwait x (by simpa using hx)
  · rw [hql]
    intro x hx hpl hne
    cases y with
    | none => exact absurd (hwait x (List.mem_of_mem_head? (by simpa using hx)) hpl) hne
    | some e' =>
      obtain rfl : e' = x := by simpa using hx
      obtain ⟨h1, h2, h3⟩ := ((hy e' rfl).2 hpl).2
      exact ⟨h1, hr2 ▸ h2, fun i hi => h3 i (by rw [hr1] at hi; exact hi)⟩
  · intro hdown
    rw [hr4, hf.shuttingDown, hd] at hdown
    simp at hdown

theorem headPass_of (h : s.Ok) {y : Option QueueEntry} (hl : s.toQueue.list = e :: rest)
    (hd : s.shuttingDown = false)
    (he : Emits (some e.batch) s.items s
      (placeItems y.toList + (t.resting t.nextOrderId + placeItems rest)) t)
    (hb : t.BookOk) (hn : s.nextOrderId ≤ t.nextOrderId)
    (hy : ∀ e', y = some e' → Resumes t e e') :
    (t.leaveHead e y).pokeNext.Ok ∧ Kept s (t.leaveHead e y).pokeNext ∧
      ∃ os, HeadPass s (t.leaveHead e y).pokeNext e rest y os := by
  obtain ⟨hf, os, ho, hp, hc, hfee⟩ := he
  obtain ⟨-, hql⟩ := leaveHead_list (hf.toQueue ▸ h.queue) (hf.toQueue ▸ hl) y
  obtain ⟨hr1, hr2, -, -, hr5⟩ := leaveHead_fields t e y
  have hpoke := pokeNext_same (s := t.leaveHead e y)
  refine ⟨hpoke.ok (leaveHead_ok h hl hd hf hb hn hy), (hf.kept.trans hr5).trans hpoke.kept, os,
    ⟨hl, ?_, ?_, hc, ?_, ?_, fun e' h' => (hy e' h').1.2, fun e' h' => (hy e' h').1.1⟩⟩
  · rw [hpoke]
    exact hql
  · have hit : (t.leaveHead e y).pokeNext.items =
        placeItems y.toList + (t.resting t.nextOrderId + placeItems rest) := by
      have e1 : (t.leaveHead e y).pokeNext.items = (t.leaveHead e y).items := by
        rw [hpoke]
        rfl
      rw [e1, items, hql, hr1, hr2, placeItems_append, add_assoc, add_comm (placeItems rest)]
    rw [hit]
    exact hp
  · rw [pokeNext_outs, leaveHead_outs, ho]
  · rw [pokeNext_feeTotal, leaveHead_feeTotal, hfee]

theorem items_head (h : s.toQueue.list = e :: rest) : s.items =
    (if e.entryType = .place then {Item.ofEntry e} else 0) +
      (s.resting s.nextOrderId + placeItems rest) := by
  rw [items, h, placeItems_cons, add_assoc, add_comm (placeItems rest)]

theorem Cancels.headPass (h : s.Ok) {e : QueueEntry} {rest : List QueueEntry}
    (hl : s.toQueue.list = e :: rest) (hd : s.shuttingDown = false) (he : e.entryType ≠ .place)
    (hc : Cancels (some e.batch) (placeItems rest) s t) (stay : Option QueueEntry)
    (hst : stay = none ∨ stay = some e) :
    (t.leaveHead e stay).pokeNext.Ok ∧ Kept s (t.leaveHead e stay).pokeNext ∧
      ∃ os, HeadPass s (t.leaveHead e stay).pokeNext e rest stay os := by
  have hz : placeItems stay.toList = 0 := by
    rcases hst with rfl | rfl <;> simp [placeItems, he]
  refine headPass_of h hl hd ?_ hc.ok hc.nextId.ge ?_
  · rw [items_head hl, if_neg he, hz, zero_add, zero_add]
    exact hc.emits
  · rintro e' rfl
    obtain rfl : e' = e := by simpa using hst
    exact ⟨⟨rfl, rfl, rfl, rfl, rfl, rfl⟩, fun hp => absurd hp he⟩

theorem leaveHead_self (hf : Frame s t) (hq : s.queue s.queueHead = e) :
    t.leaveHead e (some e) = t := by
  have h1 : t.queue t.queueHead = e := by
    rw [show t.queue = s.queue from congrArg Queue.queue hf.toQueue,
      show t.queueHead = s.queueHead from congrArg Queue.queueHead hf.toQueue, hq]
  rw [leaveHead, ← h1, Function.update_eq_self]

/-- Ordinary processing of the head entry. -/
theorem runHead_spec (h : s.Ok) (hs : s.queueSize ≠ 0) (hd : s.shuttingDown = false) :
    let e := s.queue s.queueHead
    let r := s.runHead e
    ∃ stay os, let u := (if r.2 then r.1 else r.1.finishHead e).pokeNext
      (u.Ok ∧ Kept s u ∧ HeadPass s u e s.toQueue.list.tail stay os) ∧ stay.isSome = r.2 := by
  intro e r
  have hl := h.list_cons hs
  have htyped := h.typed e (by rw [hl]; simp [e])
  cases ht : e.entryType with
  | none => exact absurd ht htyped
  | cancel =>
    have hc := doCancel_spec (K := placeItems s.toQueue.list.tail) h.book e.depositHash
      e.targetOrderId e.opNonce e.batch
    obtain ⟨h1, h2, os, h3⟩ := hc.headPass h hl hd (by simp [ht, e]) none (.inl rfl)
    have hr : r = (s.doCancel e.depositHash e.targetOrderId e.opNonce e.batch, false) := by
      simp [r, runHead, ht]
    refine ⟨none, os, ?_⟩
    rw [hr]
    exact ⟨⟨h1, h2, h3⟩, rfl⟩
  | cancelAll =>
    have hc := doCancelAll_spec (K := placeItems s.toQueue.list.tail) h.book e.depositHash
      e.opNonce e.batch
    have hr : r = ((s.doCancelAll e.depositHash e.opNonce e.batch).1, decide
        (MAX_CANCEL_ALL_PER_CALL ≤ (s.doCancelAll e.depositHash e.opNonce e.batch).2)) := by
      simp [r, runHead, ht]
    rw [hr]
    by_cases hmore : MAX_CANCEL_ALL_PER_CALL ≤ (s.doCancelAll e.depositHash e.opNonce e.batch).2
    · obtain ⟨h1, h2, os, h3⟩ := hc.headPass h hl hd (by simp [ht, e]) (some e) (.inr rfl)
      rw [leaveHead_self hc.emits.1 rfl] at h1 h2 h3
      exact ⟨some e, os, by simpa [hmore] using ⟨h1, h2, h3⟩, by simp [hmore]⟩
    · obtain ⟨h1, h2, os, h3⟩ := hc.headPass h hl hd (by simp [ht, e]) none (.inl rfl)
      exact ⟨none, os, by simpa [hmore] using ⟨h1, h2, h3⟩, by simp [hmore]⟩
  | place =>
    have hp := doPlace_spec (K := placeItems s.toQueue.list.tail) e h.book h.pos
      (h.amount e (by rw [hl]; simp [e]) ht) (h.head e (by rw [hl]; rfl) ht)
    have hpl : placeItems (s.doPlace e).2.toList = ↑((s.doPlace e).2.toList.map Item.ofEntry) := by
      cases hc : (s.doPlace e).2 with
      | none => rfl
      | some e' =>
        have : e'.entryType = .place := by rw [(hp.cont e' hc).1.eq]; exact ht
        simp [placeItems, this]
    have hit : s.items = {Item.ofEntry e} + (s.resting s.nextOrderId +
        placeItems s.toQueue.list.tail) := by
      rw [items_head hl, if_pos (show (s.queue s.queueHead).entryType = .place from ht)]
    obtain ⟨h1, h2, os, h3⟩ := headPass_of (t := (s.doPlace e).1) (y := (s.doPlace e).2) h hl hd
      (by rw [hpl, hit]; exact hp.emits) hp.ok hp.nextId (by
        intro e' he'
        obtain ⟨hco, hfr⟩ := hp.cont e' he'
        refine ⟨?_, fun _ => ⟨hco.amount, hfr⟩⟩
        rw [hco.eq]
        exact ⟨rfl, rfl, rfl, rfl, rfl, rfl⟩)
    refine ⟨(s.doPlace e).2, os, ?_⟩
    have hr : (if r.2 then r.1 else r.1.finishHead e) =
        (s.doPlace e).1.leaveHead e (s.doPlace e).2 := by
      simp only [r, runHead, ht]
      rcases hdp : s.doPlace e with ⟨u, _ | e'⟩ <;> rfl
    rw [hr]
    refine ⟨⟨h1, h2, h3⟩, ?_⟩
    simp only [r, runHead, ht]
    rcases hdp : s.doPlace e with ⟨u, _ | e'⟩ <;> rfl

/-- The refusal part of the shutdown-pending fast path. -/
def refuse (s : OrderBook) (head : QueueEntry) : OrderBook :=
  if head.entryType = .place then
    if head.targetOrderId = 0 then
      s.notifyRejectedPlace head.depositHash head.params head.opNonce head.sub (some head.batch)
    else s.cancelTaker head head.targetOrderId
      (Book.collateralFor head.params.isBuy head.params.price head.params.amount)
  else s

theorem refuseHead_eq : s.refuseHead e = ((s.refuse e).leaveHead e none).pokeNext := rfl

theorem refuse_emits (K : Multiset Item) :
    Emits (some e.batch) ((if e.entryType = .place then {Item.ofEntry e} else 0) + K) s K
      (s.refuse e) := by
  unfold refuse
  split_ifs with h1 h2
  · rw [Multiset.singleton_add]
    have := notifyRejectedPlace_emits (s := s) (M := K) e.depositHash e.sub e.opNonce e.params
      (some e.batch)
    rwa [show Item.ofParams e.sub e.depositHash 0 e.params = Item.ofEntry e by
      rw [Item.ofEntry, h2]] at this
  · rw [Multiset.singleton_add]
    exact cancelTaker_emits e e.targetOrderId e.params.amount _ h2 fun hb => collateralFor_sell _ _ hb
  · rw [zero_add]
    exact .refl _ _ _

theorem refuse_fields : (s.refuse e).toBook = s.toBook ∧ (s.refuse e).nextOrderId = s.nextOrderId := by
  unfold refuse
  split_ifs <;> exact ⟨rfl, rfl⟩

theorem refuseHead_spec (h : s.Ok) (hl : s.toQueue.list = e :: rest) (hd : s.shuttingDown = false) :
    (s.refuseHead e).Ok ∧ Kept s (s.refuseHead e) ∧
      ∃ os, HeadPass s (s.refuseHead e) e rest none os := by
  obtain ⟨h1, h2⟩ := refuse_fields (s := s) (e := e)
  rw [refuseHead_eq]
  refine headPass_of h hl hd ?_ (h.book.of_toBook h1 h2.ge) h2.ge (by simp)
  rw [items_head hl, h1, h2]
  simpa [placeItems] using refuse_emits (s.resting s.nextOrderId + placeItems rest)

theorem processHeadCore_spec (h : s.Ok) : s.processHeadCore.Ok ∧ Kept s s.processHeadCore ∧
    (SameStore s s.processHeadCore ∧ s.processHeadCore.outs = s.outs ∧
        s.processHeadCore.feeTotal = s.feeTotal ∨
      ∃ e rest stay os, HeadPass s s.processHeadCore e rest stay os) := by
  unfold processHeadCore
  dsimp only
  by_cases h1 : s.shuttingDown
  · rw [if_pos h1]
    exact ⟨h, (Frame.refl s).kept, .inl ⟨rfl, rfl, rfl⟩⟩
  rw [if_neg h1]
  by_cases h2 : s.queueSize = 0
  · rw [if_pos h2]
    split_ifs
    · have hsame : SameStore s (s.act .shutdown) := rfl
      exact ⟨hsame.ok h, hsame.kept, .inl ⟨hsame, by simp [act_outs, Action.out?],
        by simp [act_feeTotal, Action.collected]⟩⟩
    · exact ⟨h, (Frame.refl s).kept, .inl ⟨rfl, rfl, rfl⟩⟩
  rw [if_neg h2]
  by_cases h3 : s.shutdownPending ∧ ¬ (s.queue s.queueHead).precheckDone
  · rw [if_pos h3]
    obtain ⟨g1, g2, os, g3⟩ := refuseHead_spec h (h.list_cons h2) (Bool.eq_false_iff.mpr h1)
    exact ⟨g1, g2, .inr ⟨_, _, none, os, g3⟩⟩
  · rw [if_neg h3]
    obtain ⟨stay, os, ⟨g1, g2, g3⟩, -⟩ := runHead_spec h h2 (Bool.eq_false_iff.mpr h1)
    exact ⟨g1, g2, .inr ⟨_, _, stay, os, g3⟩⟩

end OrderBook

end Dexdo
