import Dexdo.OrderBook.Pass

namespace Dexdo

/-- Items of newly submitted orders, numbered from `sub` on. -/
def submission (owner : ℕ) : ℕ → List PlaceParams → Multiset Item
  | _, [] => 0
  | sub, p :: ps => Item.ofParams sub owner 0 p ::ₘ submission owner (sub + 1) ps

theorem PlaceParams.valid_amount {p : PlaceParams} {tokenType : ℕ} (h : p.valid tokenType) :
    0 < p.amount := by
  by_contra h0
  rw [PlaceParams.valid, if_pos (by omega)] at h
  simp at h

/-- Submission numbers of the PLACE entries of a queue. -/
def placeSubs (es : List QueueEntry) : List ℕ :=
  (es.filter fun e => decide (e.entryType = .place)).map QueueEntry.sub

/-- The PLACE entries stand in submission order, with numbers from `lo` to `hi`. -/
structure Numbered (lo hi : ℕ) (es : List QueueEntry) : Prop where
  sorted : (placeSubs es).Pairwise (· < ·)
  range : ∀ k ∈ placeSubs es, lo ≤ k ∧ k < hi

theorem mem_placeSubs {es : List QueueEntry} {e : QueueEntry} (he : e ∈ es)
    (hp : e.entryType = .place) : e.sub ∈ placeSubs es :=
  List.mem_map_of_mem (List.mem_filter.mpr ⟨he, by simp [hp]⟩)

theorem Numbered.nil (lo hi : ℕ) : Numbered lo hi [] := ⟨.nil, by simp [placeSubs]⟩

theorem Numbered.append {lo mid hi : ℕ} {es es' : List QueueEntry} (h : Numbered lo mid es)
    (h' : Numbered mid hi es') (h1 : lo ≤ mid) (h2 : mid ≤ hi) : Numbered lo hi (es ++ es') := by
  have he : placeSubs (es ++ es') = placeSubs es ++ placeSubs es' := by simp [placeSubs]
  refine ⟨?_, fun k hk => ?_⟩
  · rw [he, List.pairwise_append]
    refine ⟨h.sorted, h'.sorted, fun a ha b hb => ?_⟩
    have := h.range a ha
    have := h'.range b hb
    omega
  · rw [he] at hk
    rcases List.mem_append.mp hk with hk | hk
    · have := h.range k hk
      omega
    · have := h'.range k hk
      omega

namespace OrderBook

variable {s t u : OrderBook}

/-- Queueing changes only the queue, the actions and the history counters. -/
def QueueFrame (s t : OrderBook) : Prop :=
  t = { s with
    toQueue := t.toQueue
    actions := t.actions
    subs := t.subs
    batches := t.batches }

theorem QueueFrame.trans (h : QueueFrame s t) (h' : QueueFrame t u) : QueueFrame s u := by
  unfold QueueFrame at *
  rw [h] at h'
  exact h'

/-- Shape of an entry queued by call `b` of note `h`. -/
structure EntryOf (h o b : ℕ) (e : QueueEntry) : Prop where
  owner : e.depositHash = h
  opNonce : e.opNonce = o
  batch : e.batch = b
  open_ : e.isBatchEnd = false
  typed : e.entryType ≠ .none
  fresh : e.entryType = .place → 0 < e.params.amount ∧ e.targetOrderId = 0 ∧ e.precheckDone = false

/-- The queueing half of a call: `es` is queued behind the waiting entries and every other
order of `X` is refused. -/
structure Submits (h o b : ℕ) (X : Multiset Item) (k : ℕ) (s : OrderBook) (m : Option ℕ)
    (t : OrderBook) (m' : Option ℕ) (es : List QueueEntry) : Prop where
  frame : QueueFrame s t
  queue : t.toQueue.Ok
  list : t.toQueue.list = s.toQueue.list ++ es
  entries : ∀ e ∈ es, EntryOf h o b e
  sends : ∀ M, Sends (some b) (X + M) s (placeItems es + M) t
  subs : t.subs = s.subs + k
  batches : t.batches = s.batches
  mark : m' = if es = [] then m else some t.lastSlot
  slot : es = [] → t.lastSlot = s.lastSlot

variable {h o b k k' : ℕ} {X X' : Multiset Item} {m m' m'' : Option ℕ}
  {es es' : List QueueEntry}

theorem QueueFrame.numOutcomes (hf : QueueFrame s t) : t.numOutcomes = s.numOutcomes := by rw [hf]

theorem Submits.refl (hq : s.toQueue.Ok) : Submits h o b 0 0 s m s m [] :=
  ⟨rfl, hq, by simp, by simp,
    fun M => ⟨[], by simp, by simpa [placeItems] using LedgerPath.refl M, by simp, by simp⟩,
    rfl, rfl, by simp, fun _ => rfl⟩

theorem Submits.trans (h1 : Submits h o b X k s m t m' es)
    (h2 : Submits h o b X' k' t m' u m'' es') :
    Submits h o b (X + X') (k + k') s m u m'' (es ++ es') := by
  refine ⟨h1.frame.trans h2.frame, h2.queue, ?_, ?_, fun M => ?_, ?_, h2.batches.trans h1.batches,
    ?_, ?_⟩
  · rw [h2.list, h1.list, List.append_assoc]
  · intro e he
    rcases List.mem_append.mp he with he | he
    exacts [h1.entries e he, h2.entries e he]
  · have e1 := h1.sends (X' + M)
    have e2 := h2.sends (placeItems es + M)
    rw [← add_assoc] at e1
    rw [add_left_comm X', add_left_comm (placeItems es')] at e2
    rw [placeItems_append, add_assoc (placeItems es)]
    exact e1.trans h1.frame.numOutcomes e2
  · rw [h2.subs, h1.subs, Nat.add_assoc]
  · rw [h2.mark, h1.mark]
    by_cases hes' : es' = []
    · subst hes'
      simp [h2.slot rfl]
    · simp [hes']
  · intro he
    obtain ⟨rfl, rfl⟩ := List.append_eq_nil_iff.mp he
    rw [h2.slot rfl, h1.slot rfl]

theorem enqueue_outs (e : QueueEntry) : (s.enqueue e).outs = s.outs := by
  unfold enqueue
  rw [emit_outs]
  rfl

theorem Submits.enqueue (hq : s.toQueue.Ok) (hs : s.queueSize < QUEUE_CAPACITY) {e : QueueEntry}
    (he : EntryOf h o b { e with queueId := s.nextQueueId }) :
    Submits h o b (placeItems [e]) 0 s m (s.enqueue e) (some (s.enqueue e).lastSlot)
      [{ e with queueId := s.nextQueueId }] := by
  obtain ⟨h1, h2⟩ := enqueue_list hq hs e
  refine ⟨rfl, h1, h2, by simpa using he, fun M => ⟨[], by simp [enqueue_outs], ?_, by simp, ?_⟩,
    rfl, rfl, by simp, by simp⟩
  · have : placeItems [{ e with queueId := s.nextQueueId }] = placeItems [e] := by
      rw [placeItems_cons, placeItems_cons]
      rfl
    rw [this]
    exact .refl _
  · have : (s.enqueue e).feeTotal = s.feeTotal := by
      rw [OrderBook.enqueue, emit_feeTotal]
      rfl
    simp [this]

theorem Submits.silent (hq : s.toQueue.Ok) (ev : BookEvent) :
    Submits h o b 0 0 s m (s.emit ev) m [] :=
  ⟨rfl, hq, by simp [emit, act], by simp,
    fun M => ⟨[], by simp, by simpa [placeItems] using LedgerPath.refl M, by simp, by simp⟩,
    rfl, rfl, by simp, fun _ => rfl⟩

theorem enqueueCancelEntry_spec (hq : s.toQueue.Ok) (type : EntryType) (target : ℕ)
    (ht : type ≠ .none) (hp : type ≠ .place) :
    let r := s.enqueueCancelEntry type h target o b
    ∃ es, Submits h o b 0 0 s m r.1 (if r.2 then some r.1.lastSlot else m) es ∧
      Numbered s.subs r.1.subs es := by
  unfold enqueueCancelEntry
  split_ifs with hs
  · have hz : placeItems [cancelEntry type h target o b] = 0 := by
      simp [placeItems, cancelEntry, hp]
    refine ⟨[{ cancelEntry type h target o b with queueId := s.nextQueueId }], ?_⟩
    refine ⟨?_, by simp [placeSubs, cancelEntry, hp], by simp [placeSubs, cancelEntry, hp]⟩
    rw [← hz]
    exact Submits.enqueue hq hs ⟨rfl, rfl, rfl, rfl, ht, fun h => absurd h hp⟩
  · exact ⟨[], Submits.silent hq _, .nil _ _⟩

theorem batchCancel_spec (hq : s.toQueue.Ok) (id : ℕ) :
    let r := batchCancel h o b (s, m) id
    ∃ es, Submits h o b 0 0 s m r.1 r.2 es ∧ Numbered s.subs r.1.subs es :=
  enqueueCancelEntry_spec hq .cancel id (by simp) (by simp)

theorem Submits.refuse (hq : s.toQueue.Ok) (op : PlaceParams) (sub : ℕ) :
    Submits h o b {Item.ofParams sub h 0 op} 0 s m
      (s.notifyRejectedPlace h op o sub (some b)) m [] := by
  refine ⟨rfl, hq, by simp [notifyRejectedPlace, act], by simp, fun M => ?_, rfl, rfl, by simp,
    fun _ => rfl⟩
  rw [Multiset.singleton_add]
  simpa [placeItems] using (notifyRejectedPlace_emits h sub o op (some b)).2

theorem Submits.number (hq : s.toQueue.Ok) :
    Submits h o b 0 1 s m { s with subs := s.subs + 1 } m [] :=
  ⟨rfl, hq, by simp, by simp,
    fun M => ⟨[], by simp [outs], by simpa [placeItems] using LedgerPath.refl M, by simp,
      by simp [feeTotal]⟩,
    rfl, rfl, by simp, fun _ => rfl⟩

theorem batchPlace_spec (hq : s.toQueue.Ok) (op : PlaceParams) :
    let r := batchPlace h o b (s, m) op
    ∃ es, Submits h o b {Item.ofParams s.subs h 0 op} 1 s m r.1 r.2 es ∧
      Numbered s.subs r.1.subs es := by
  have hnum := Submits.number (h := h) (o := o) (b := b) (m := m) hq
  unfold batchPlace
  dsimp only
  by_cases hv : op.valid s.market.tokenType
  · rw [if_pos hv]
    unfold enqueuePlace
    by_cases hs : s.queueSize < QUEUE_PLACE_LIMIT
    · simp only [hs, if_true]
      have hcap : s.queueSize < QUEUE_CAPACITY := hs.trans (by decide)
      have hen := Submits.enqueue (m := m) (e := placeEntry h op o s.subs b) hnum.queue hcap
        ⟨rfl, rfl, rfl, rfl, by simp [placeEntry], fun _ => ⟨PlaceParams.valid_amount hv, rfl, rfl⟩⟩
      have := hnum.trans hen
      rw [zero_add, show placeItems [placeEntry h op o s.subs b] =
        {Item.ofParams s.subs h 0 op} from rfl] at this
      refine ⟨_, this, ?_⟩
      rw [this.subs]
      exact ⟨by simp [placeSubs, placeEntry], by simp [placeSubs, placeEntry]⟩
    · simp only [hs, if_false, Bool.false_eq_true]
      have hev := Submits.silent (h := h) (o := o) (b := b) (m := m) hnum.queue
        (.rejected .place h)
      have := (hnum.trans hev).trans (Submits.refuse hev.queue op s.subs)
      simp only [zero_add] at this
      exact ⟨_, this, .nil _ _⟩
  · rw [if_neg hv]
    have hev := Submits.silent (h := h) (o := o) (b := b) (m := m) hnum.queue
      (.rejected .place h)
    have := (hnum.trans hev).trans (Submits.refuse hev.queue op s.subs)
    simp only [zero_add] at this
    exact ⟨_, this, .nil _ _⟩

theorem batchCancels_spec (hq : s.toQueue.Ok) (ids : List ℕ) :
    let r := ids.foldl (batchCancel h o b) (s, m)
    ∃ es, Submits h o b 0 0 s m r.1 r.2 es ∧ Numbered s.subs r.1.subs es := by
  induction ids generalizing s m with
  | nil => exact ⟨[], .refl hq, .nil _ _⟩
  | cons id ids ih =>
    obtain ⟨es, h1, n1⟩ := batchCancel_spec (h := h) (o := o) (b := b) (m := m) hq id
    obtain ⟨es', h2, n2⟩ := ih (m := (batchCancel h o b (s, m) id).2) h1.queue
    have := h1.trans h2
    simp only [zero_add] at this
    exact ⟨_, this, n1.append n2 (h1.subs ▸ Nat.le_add_right _ _) (h2.subs ▸ Nat.le_add_right _ _)⟩

theorem batchPlaces_spec (hq : s.toQueue.Ok) (ops : List PlaceParams) :
    let r := ops.foldl (batchPlace h o b) (s, m)
    ∃ es, Submits h o b (submission h s.subs ops) ops.length s m r.1 r.2 es ∧
      Numbered s.subs r.1.subs es := by
  induction ops generalizing s m with
  | nil => exact ⟨[], .refl hq, .nil _ _⟩
  | cons op ops ih =>
    obtain ⟨es, h1, n1⟩ := batchPlace_spec (h := h) (o := o) (b := b) (m := m) hq op
    obtain ⟨es', h2, n2⟩ := ih (m := (batchPlace h o b (s, m) op).2) h1.queue
    have := h1.trans h2
    rw [Multiset.singleton_add, h1.subs, Nat.add_comm 1] at this
    exact ⟨_, this, n1.append n2 (h1.subs ▸ Nat.le_add_right _ _) (h2.subs ▸ Nat.le_add_right _ _)⟩

/-- The entries of a call once its last one is marked. -/
def closeLast : List QueueEntry → List QueueEntry
  | [] => []
  | [e] => [{ e with isBatchEnd := true }]
  | e :: es => e :: closeLast es

theorem closeLast_concat (es : List QueueEntry) (e : QueueEntry) :
    closeLast (es ++ [e]) = es ++ [{ e with isBatchEnd := true }] := by
  induction es with
  | nil => rfl
  | cons x es ih =>
    cases es with
    | nil => rfl
    | cons y es =>
      change x :: closeLast (y :: es ++ [e]) = _
      rw [ih]
      rfl

theorem placeItems_closeLast (es : List QueueEntry) : placeItems (closeLast es) = placeItems es := by
  rcases List.eq_nil_or_concat' es with rfl | ⟨es, e, rfl⟩
  · rfl
  · rw [closeLast_concat, placeItems_append, placeItems_append]
    congr 1
    rw [placeItems_cons, placeItems_cons]
    rfl

theorem placeSubs_closeLast (es : List QueueEntry) : placeSubs (closeLast es) = placeSubs es := by
  rcases List.eq_nil_or_concat' es with rfl | ⟨es, e, rfl⟩
  · rfl
  · rw [closeLast_concat]
    by_cases hp : e.entryType = .place <;> simp [placeSubs, hp]

/-- Queueing the entries of a call keeps the invariant. -/
theorem Ok.append (hs : s.Ok) (hd : s.shuttingDown = false) (hf : QueueFrame s t)
    (hq : t.toQueue.Ok) (hl : t.toQueue.list = s.toQueue.list ++ es)
    (he : ∀ e ∈ es, e.entryType ≠ .none ∧
      (e.entryType = .place → 0 < e.params.amount ∧ e.targetOrderId = 0)) : t.Ok := by
  have h1 : t.toBook = s.toBook := by rw [hf]
  have h2 : t.nextOrderId = s.nextOrderId := by rw [hf]
  have h3 : t.shuttingDown = s.shuttingDown := by rw [hf]
  refine ⟨hs.book.of_toBook h1 h2.ge, h2 ▸ hs.pos, hq, ?_, ?_, ?_, ?_, ?_,
    fun _ => by rw [show t.shutdownCursor = s.shutdownCursor by rw [hf], hs.cursor hd]⟩
  · rw [hl]
    intro e hm
    rcases List.mem_append.mp hm with hm | hm
    exacts [hs.typed e hm, (he e hm).1]
  · rw [hl]
    intro e hm hp
    rcases List.mem_append.mp hm with hm | hm
    exacts [hs.amount e hm hp, ((he e hm).2 hp).1]
  · rw [hl]
    intro e hm hp
    cases hsl : s.toQueue.list with
    | nil =>
      rw [hsl, List.nil_append] at hm
      exact ((he e (List.mem_of_mem_tail hm)).2 hp).2
    | cons =>
      rw [hsl, List.cons_append, List.tail_cons] at hm
      rcases List.mem_append.mp hm with hm | hm
      · exact hs.waiting e (by rw [hsl]; exact hm) hp
      · exact ((he e hm).2 hp).2
  · rw [hl]
    intro e hm hp hne
    cases hsl : s.toQueue.list with
    | nil =>
      rw [hsl, List.nil_append] at hm
      exact absurd ((he e (List.mem_of_mem_head? hm)).2 hp).2 hne
    | cons =>
      rw [hsl] at hm
      have := hs.head e (by rw [hsl]; exact hm) hp hne
      exact ⟨this.1, h2 ▸ this.2.1, fun i hi => this.2.2 i (by rw [h1] at hi; exact hi)⟩
  · rw [h3, hd]
    simp

/-- The book of a call once its last entry is marked, when its pass over the head begins. -/
def marked (r : OrderBook × Option ℕ) : OrderBook :=
  match r.2 with
  | some slot => r.1.markBatchEnd slot
  | none => r.1

/-- One accepted call: its orders are queued or refused (`u`), the head is processed (`v`), and
a call that queued nothing is acknowledged at once. -/
structure Accepts (h o : ℕ) (X : Multiset Item) (k : ℕ) (s : OrderBook) (es : List QueueEntry)
    (u v t : OrderBook) : Prop where
  ok : u.Ok ∧ v.Ok ∧ t.Ok
  entries : ∀ e ∈ es, EntryOf h o s.batches e
  list : u.toQueue.list = s.toQueue.list ++ closeLast es
  sends : Sends (some s.batches) (X + s.items) s u.items u
  counts : u.subs = s.subs + k ∧ u.batches = s.batches + 1 ∧ u.numOutcomes = s.numOutcomes ∧
    u.market = s.market
  numbers : Numbered s.subs u.subs (closeLast es)
  frame : QueueFrame s u
  kept : Kept u v
  pass_eq : v = u.processHeadCore
  pass : SameStore u v ∧ v.outs = u.outs ∧ v.feeTotal = u.feeTotal ∨ ∃ e rest stay os, HeadPass u v e rest stay os
  outs : t.outs = v.outs ++
    if es = [] then [⟨h, .onBatchComplete o, 0, some s.batches⟩] else []
  same : SameStore v t
  fees : t.feeTotal = v.feeTotal

theorem closeBatch_spec (hs : s.Ok) (hd : s.shuttingDown = false) {r : OrderBook × Option ℕ}
    (hr : Submits h o s.batches X k { s with batches := s.batches + 1 } none r.1 r.2 es)
    (hnum : Numbered s.subs r.1.subs es) :
    Accepts h o X k s es (marked r) (marked r).processHeadCore (closeBatch r h o s.batches) := by
  have hitems : ∀ t : OrderBook, QueueFrame s t → t.toQueue.list = s.toQueue.list ++ closeLast es →
      t.items = placeItems es + s.items := by
    intro t hf hl
    rw [items, hl, placeItems_append, placeItems_closeLast,
      show t.toBook = s.toBook by rw [hf], show t.nextOrderId = s.nextOrderId by rw [hf], items,
      add_comm (placeItems _) (placeItems es), add_assoc]
  have hf0 : QueueFrame s r.1 := hr.frame
  have hsend := hr.sends s.items
  have hnum' : Numbered s.subs r.1.subs (closeLast es) := by
    constructor
    · rw [placeSubs_closeLast]
      exact hnum.sorted
    · rw [placeSubs_closeLast]
      exact hnum.range
  rcases List.eq_nil_or_concat' es with rfl | ⟨es, e, rfl⟩
  · have hm : r.2 = none := by simpa using hr.mark
    have hok : r.1.Ok := hs.append hd hf0 hr.queue hr.list (by simp)
    obtain ⟨hv, hk, hp⟩ := processHeadCore_spec hok
    have hsame : SameStore r.1.processHeadCore
        (r.1.processHeadCore.notifyBatchAccepted h o s.batches) := rfl
    rw [closeBatch, marked, hm]
    refine ⟨⟨hok, hv, hsame.ok hv⟩, by simp, by simpa [closeLast] using hr.list, ?_,
      ⟨hr.subs, hr.batches, hf0.numOutcomes, by rw [hf0]⟩, hnum', hf0, hk, rfl, hp, ?_, hsame,
      act_feeTotal _ _⟩
    · rw [hitems r.1 hf0 (by simpa [closeLast] using hr.list)]
      exact hsend
    · simp [notifyBatchAccepted, act_outs, Action.out?]
  · have hm : r.2 = some r.1.lastSlot := by simpa using hr.mark
    have hl : r.1.toQueue.list = (s.toQueue.list ++ es) ++ [e] := by
      rw [hr.list, List.append_assoc]
    obtain ⟨hq, hml⟩ := markBatchEnd_list hr.queue hl
    have hml' : (r.1.markBatchEnd r.1.lastSlot).toQueue.list =
        s.toQueue.list ++ closeLast (es ++ [e]) := by
      rw [hml, closeLast_concat, List.append_assoc]
    have hf1 : QueueFrame s (r.1.markBatchEnd r.1.lastSlot) := hf0.trans rfl
    have hok : (r.1.markBatchEnd r.1.lastSlot).Ok := by
      refine hs.append hd hf1 hq hml' fun x hx => ?_
      rw [closeLast_concat] at hx
      rcases List.mem_append.mp hx with hx | hx
      · have := hr.entries x (by simp [hx])
        exact ⟨this.typed, fun hp => ⟨(this.fresh hp).1, (this.fresh hp).2.1⟩⟩
      · have := hr.entries e (by simp)
        rw [List.mem_singleton.mp hx]
        exact ⟨this.typed, fun hp => ⟨(this.fresh hp).1, (this.fresh hp).2.1⟩⟩
    obtain ⟨hv, hk, hp⟩ := processHeadCore_spec hok
    rw [closeBatch, marked, hm]
    refine ⟨⟨hok, hv, hv⟩, hr.entries, hml', ?_,
      ⟨hr.subs, hr.batches, hf1.numOutcomes, by rw [hf0]; rfl⟩, hnum', hf1, hk, rfl, hp, by simp,
      rfl, rfl⟩
    rw [hitems _ hf1 hml']
    exact hsend

theorem executeBatch_spec (hs : s.Ok) {sender : Addr} {now : ℕ} {orders : List PlaceParams}
    {cancelIds : List ℕ} (ht : s.executeBatch sender now h orders cancelIds o = some t) :
    sender = .note h ∧ s.shuttingDown = false ∧ now < s.resultStart ∧
      ∃ es v, Accepts h o (submission h s.subs orders) orders.length s es
        (marked (s.enqueueBatch h orders cancelIds o)) v t := by
  simp only [executeBatch, Option.bind_eq_bind, Option.bind_eq_some_iff, Option.guard_eq_some',
    Option.pure_def, Option.some.injEq] at ht
  obtain ⟨-, h1, -, h2, -, h3, -, -, -, -, rfl⟩ := ht
  have hd := Bool.eq_false_iff.mpr h1
  obtain ⟨es, hc, nc⟩ := batchCancels_spec (h := h) (o := o) (b := s.batches) (m := none)
    (s := { s with batches := s.batches + 1 }) hs.queue cancelIds
  obtain ⟨es', hp, np⟩ := batchPlaces_spec (h := h) (o := o) (b := s.batches)
    (m := (cancelIds.foldl (batchCancel h o s.batches)
      ({ s with batches := s.batches + 1 }, none)).2) hc.queue orders
  have := hc.trans hp
  rw [zero_add, Nat.zero_add, hc.subs] at this
  exact ⟨h3, hd, h2, _, _, closeBatch_spec hs hd this (nc.append np
    (hc.subs ▸ Nat.le_add_right _ _) (hp.subs ▸ Nat.le_add_right _ _))⟩

/-- The queueing half of `cancelAllOrders`. -/
def enqueuedCancelAll (s : OrderBook) (h o : ℕ) : OrderBook × Option ℕ :=
  let r := { s with batches := s.batches + 1 }.enqueueCancelAll h o s.batches
  (r.1, if r.2 then some r.1.lastSlot else none)

theorem cancelAllOrders_spec (hs : s.Ok) {sender : Addr} {now : ℕ}
    (ht : s.cancelAllOrders sender now h o = some t) :
    sender = .note h ∧ s.shuttingDown = false ∧ now < s.resultStart ∧
      ∃ es v, Accepts h o 0 0 s es (marked (s.enqueuedCancelAll h o)) v t := by
  simp only [cancelAllOrders, Option.bind_eq_bind, Option.bind_eq_some_iff, Option.guard_eq_some',
    Option.pure_def, Option.some.injEq] at ht
  obtain ⟨-, h1, -, h2, -, h3, rfl⟩ := ht
  have hd := Bool.eq_false_iff.mpr h1
  obtain ⟨es, hc, nc⟩ := enqueueCancelEntry_spec (h := h) (o := o) (b := s.batches) (m := none)
    (s := { s with batches := s.batches + 1 }) hs.queue .cancelAll 0 (by simp) (by simp)
  exact ⟨h3, hd, h2, es, _, closeBatch_spec hs hd (r := s.enqueuedCancelAll h o) hc nc⟩

end OrderBook

end Dexdo
