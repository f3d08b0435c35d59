import Dexdo.OrderBook.Signals

namespace Dexdo

/-- Calls a book sends to itself. -/
inductive SelfCall
  | processHead
  | shutdown
  deriving DecidableEq

def SelfCall.call (market : MarketId) : SelfCall → Call
  | processHead => .processHead
  | shutdown => .shutdown (.orderBook market)

def Action.selfCall? : Action → Option SelfCall
  | .processHead => some .processHead
  | .shutdown => some .shutdown
  | _ => none

namespace Call

/-- Which self-call a call amounts to, whoever makes it. -/
def kind : Call → Option SelfCall
  | processHead => some .processHead
  | shutdown _ => some .shutdown
  | _ => none

theorem eq_processHead {c : Call} (hc : c.kind.isSome) (hk : c.kind ≠ some .shutdown) :
    c = .processHead := by
  cases c with
  | processHead => rfl
  | shutdown => exact absurd rfl hk
  | _ => cases hc

/-- The call claims to come from the book itself. -/
def fromSelf (market : MarketId) : Call → Bool
  | shutdown sender => decide (sender = .orderBook market)
  | _ => false

end Call

namespace OrderBook

/-- Calls the current transaction sends to the book itself. -/
def selfCalls (s : OrderBook) : List SelfCall := s.actions.filterMap Action.selfCall?

/-- The self-call that moves the book on: the next drain pass, the next pass over the queue, or
the deferred shutdown. -/
def due (s : OrderBook) : Option SelfCall :=
  if s.shuttingDown then (if s.destroyed then none else some .shutdown)
  else if 0 < s.queueSize then some .processHead
  else if s.shutdownPending then some .shutdown
  else none

/-- The shutdown has been asked for, at once or behind the queue. -/
def requested (s : OrderBook) : Bool := s.shutdownPending || s.shuttingDown

end OrderBook

/-- A book and the calls it has sent to itself that have not arrived yet, oldest first. -/
structure Relay where
  book : OrderBook
  calls : List SelfCall

/-- A call from outside, or the arrival of the oldest self-call. -/
inductive Turn
  | outside (c : Call)
  | deliver (c : SelfCall)

namespace Turn

def call (market : MarketId) : Turn → Call
  | outside c => c
  | deliver c => c.call market

def isDelivery : Turn → Bool
  | outside _ => false
  | deliver _ => true

/-- A poke of the queue or of the shutdown, or a delivery. -/
def isNudge : Turn → Bool
  | outside c => c.kind.isSome
  | deliver _ => true

end Turn

namespace Relay

def init (market : MarketId) (resultStart numOutcomes : ℕ) : Relay :=
  ⟨OrderBook.init market resultStart numOutcomes, []⟩

/-- Self-calls left once a turn has taken its own off the channel. -/
def left (S : Relay) : Turn → List SelfCall
  | .outside _ => S.calls
  | .deliver _ => S.calls.tail

/-- A turn is possible: nobody else can send from the book's address, an order comes from a note,
which has made the sum of its lock, and self-calls arrive in the order they were sent. -/
def enabled (S : Relay) : Turn → Bool
  | .outside c => !c.fromSelf S.book.market &&
      c.orders.all fun x => (OrderBook.placeLock x.2).isSome
  | .deliver c => S.calls.head? == some c

def step (S : Relay) (i : Turn) : Option Relay := do
  guard (S.enabled i)
  let t ← S.book.step (i.call S.book.market)
  return ⟨t, S.left i ++ t.selfCalls⟩

/-- The transactions of the book in a run. -/
def transactions (tr : List (Turn × Relay)) : List (Call × OrderBook) :=
  tr.map fun x => (x.1.call x.2.book.market, x.2.book)

variable {S T : Relay} {i : Turn}

theorem step_cases (h : S.step i = some T) : S.enabled i ∧
    S.book.step (i.call S.book.market) = some T.book ∧ T.calls = S.left i ++ T.book.selfCalls := by
  simp only [step, bind_iff, pure_iff] at h
  obtain ⟨he, t, ht, rfl⟩ := h
  exact ⟨he, ht, rfl⟩

end Relay

namespace OrderBook

variable {s t : OrderBook} {c : Call}

theorem selfCalls_latch (s : OrderBook) :
    s.selfCalls = s.latch.signals.filterMap Action.selfCall? := by
  rw [selfCalls, latch, List.filterMap_filter]
  refine List.filterMap_congr fun a _ => ?_
  cases a <;> rfl

theorem due_follow (hd : s.shuttingDown = false) {d : SelfCall} (h : s.due = some d) :
    d ∈ s.follow.filterMap Action.selfCall? := by
  unfold due at h
  rw [if_neg (by simp [hd])] at h
  unfold follow
  split_ifs at h ⊢ <;> simp_all [Action.selfCall?]

theorem begin_latch (s : OrderBook) : s.begin.latch = { s.latch with signals := [] } := rfl

/-- What a call that is neither a shutdown nor addressed to a draining book does to the latches. -/
structure Follows (s t : OrderBook) : Prop where
  live : s.shuttingDown = false
  latch : t.latch = { s.latch with signals := t.follow }

theorem Follows.due_sent (h : Follows s t) {d : SelfCall} (hd : t.due = some d) :
    d ∈ t.selfCalls := by
  have hdown : t.shuttingDown = false := (congrArg Latch.shuttingDown h.latch).trans h.live
  rw [selfCalls_latch, congrArg Latch.signals h.latch]
  exact due_follow hdown hd

theorem executeBatch_follows {sender : Addr} {now h : ℕ} {orders : List PlaceParams}
    {ids : List ℕ} {o : ℕ} (ht : s.begin.executeBatch sender now h orders ids o = some t) :
    Follows s t := by
  simp only [executeBatch, bind_iff, pure_iff] at ht
  obtain ⟨hd, -, -, -, -, rfl⟩ := ht
  have hl := enqueueBatch_latch (s := s.begin) h orders ids o
  rw [marked_latch] at hl
  have hd' : (s.begin.enqueueBatch h orders ids o).1.shuttingDown = false :=
    (congrArg Latch.shuttingDown hl).trans (Bool.eq_false_iff.mpr hd)
  refine ⟨Bool.eq_false_iff.mpr hd, ?_⟩
  rw [closeBatch_latch _ _ _ _ hd', hl]
  rfl

theorem cancelAllOrders_follows {sender : Addr} {now h o : ℕ}
    (ht : s.begin.cancelAllOrders sender now h o = some t) : Follows s t := by
  simp only [cancelAllOrders, bind_iff, pure_iff] at ht
  obtain ⟨hd, -, -, rfl⟩ := ht
  have hl := enqueuedCancelAll_latch (s := s.begin) h o
  rw [marked_latch] at hl
  have hd' : (s.begin.enqueuedCancelAll h o).1.shuttingDown = false :=
    (congrArg Latch.shuttingDown hl).trans (Bool.eq_false_iff.mpr hd)
  refine ⟨Bool.eq_false_iff.mpr hd, ?_⟩
  have := closeBatch_latch (s.begin.enqueuedCancelAll h o) h o s.begin.batches hd'
  rw [hl] at this
  exact this

theorem processHead_follows (hd : s.shuttingDown = false) : Follows s s.begin.processHeadCore :=
  ⟨hd, processHeadCore_latch (s := s.begin) hd⟩

section Drain

/-- Signals a drain pass ends with. -/
def closing (s : OrderBook) : List Action :=
  if s.shutdownCursor < s.nextOrderId then [.shutdown]
  else (if 0 < s.totalProtocolFees then [.collectProtocolFee s.totalProtocolFees] else []) ++
    [.onOrderBookShutdownComplete]

theorem drainClose_latch :
    s.drainClose.latch = { s.latch with signals := s.latch.signals ++ s.closing } := by
  unfold drainClose closing
  split_ifs with h1 h2
  · exact act_latch _
  · rw [act_latch]
    simp only [latch, act, List.filter_append, List.append_assoc]
    rfl
  · exact act_latch _

theorem cancels_latch (ids : List ℕ) (s : OrderBook) :
    let t := ids.foldl (fun s oid => s.cancelResting (s.order oid).depositHash oid 0 none) s
    t.latch = s.latch ∧ t.totalProtocolFees = s.totalProtocolFees ∧
      t.nextOrderId = s.nextOrderId := by
  induction ids generalizing s with
  | nil => exact ⟨rfl, rfl, rfl⟩
  | cons id ids ih =>
    obtain ⟨h1, h2, h3⟩ := ih (s.cancelResting (s.order id).depositHash id 0 none)
    exact ⟨h1.trans (cancelResting_latch ..), h2, h3⟩

theorem drainPass_latch : s.drainPass.latch = ⟨true, false, s.drainOpen.shutdownCursor,
    s.latch.signals ++ s.drainOpen.closing⟩ := by
  obtain ⟨h1, h2, h3⟩ := cancels_latch
    (s.shutdownScan.filter fun i => decide (0 < (s.order i).amount)) s.drainOpen
  rw [drainPass_eq, drainClose_latch]
  have hc : s.drainCancel.closing = s.drainOpen.closing := by
    have hcur := congrArg Latch.shutdownCursor h1
    unfold closing
    rw [show s.drainCancel.shutdownCursor = s.drainOpen.shutdownCursor from hcur,
      show s.drainCancel.totalProtocolFees = s.drainOpen.totalProtocolFees from h2,
      show s.drainCancel.nextOrderId = s.drainOpen.nextOrderId from h3]
  rw [hc, show s.drainCancel.latch = s.drainOpen.latch from h1]
  rfl

theorem drainPass_shuttingDown : s.drainPass.shuttingDown = true :=
  congrArg Latch.shuttingDown drainPass_latch

theorem drainPass_nextOrderId : s.drainPass.nextOrderId = s.nextOrderId := by
  rw [drainPass_eq]
  exact drainClose_fields.2.2.1.trans (cancels_latch _ s.drainOpen).2.2

theorem drainPass_destroyed :
    s.drainPass.destroyed = decide (s.nextOrderId ≤ s.drainOpen.shutdownCursor) := by
  have h := drainPass_latch (s := s)
  rw [destroyed, drainPass_nextOrderId,
    drainPass_shuttingDown,
    show s.drainPass.shutdownCursor = _ from congrArg Latch.shutdownCursor h]
  rfl

theorem shutdown_cases (hs : s.Ok) {sender : Addr} (h : s.step (.shutdown sender) = some t) :
    s.destroyed = false ∧ ((0 < s.queueSize ∧ s.shuttingDown = false ∧
        t = { s.begin with shutdownPending := true }) ∨
      s.queueSize = 0 ∧ t = s.begin.drainPass) := by
  replace h := step_body h
  unfold body at h
  split_ifs at h with hdest
  simp only [shutdown, bind_iff, pure_iff] at h
  obtain ⟨-, -, rfl⟩ := h
  refine ⟨Bool.eq_false_iff.mpr hdest, ?_⟩
  by_cases hq : 0 < s.begin.queueSize ∧ ¬ s.begin.shuttingDown
  · rw [if_pos hq]
    exact .inl ⟨hq.1, Bool.eq_false_iff.mpr hq.2, rfl⟩
  · rw [if_neg hq]
    refine .inr ⟨?_, rfl⟩
    cases hsd : s.shuttingDown with
    | true => exact (hs.down hsd).1
    | false => simpa [begin, hsd] using hq

end Drain

/-- What a transaction does to the latches and the signals. -/
inductive Signals (s : OrderBook) (c : Call) (t : OrderBook) : Prop
  | pass (h : Follows s t) (hk : c.kind ≠ some .shutdown)
  | still (hl : t.latch = { s.latch with signals := [] }) (hb : t.toBook = s.toBook)
      (hq : t.queueSize = s.queueSize) (hn : t.nextOrderId = s.nextOrderId) (ho : t.outs = [])
      (hc : c.kind = some .processHead → s.shuttingDown = true) (hd : c.kind ≠ some .shutdown)
  | defer (hc : c.kind = some .shutdown) (h0 : s.shuttingDown = false) (hq : 0 < s.queueSize)
      (ht : t = { s.begin with shutdownPending := true })
  | drain (hc : c.kind = some .shutdown) (h0 : s.destroyed = false) (hq : s.queueSize = 0)
      (ht : t = s.begin.drainPass)

theorem step_signals (hs : s.Ok) (h : s.step c = some t) : Signals s c t := by
  cases c with
  | executeBatch =>
    replace h := step_body h
    unfold body at h
    split_ifs at h
    exact .pass (executeBatch_follows h) (fun h => by cases h)
  | cancelAllOrders =>
    replace h := step_body h
    unfold body at h
    split_ifs at h
    exact .pass (cancelAllOrders_follows h) (fun h => by cases h)
  | processHead =>
    replace h := step_body h
    unfold body at h
    split_ifs at h
    cases h
    cases hd : s.shuttingDown with
    | false => exact .pass (processHead_follows hd) (fun h => by cases h)
    | true =>
      have ht : s.begin.processHead = s.begin := if_pos hd
      rw [ht]
      exact .still (begin_latch s) rfl rfl rfl rfl (fun _ => hd) (fun h => by cases h)
  | setResultStart =>
    replace h := step_body h
    unfold body at h
    split_ifs at h
    simp only [setResultStart, bind_iff, pure_iff] at h
    obtain ⟨-, -, -, -, -, -, rfl⟩ := h
    exact .still (begin_latch s) rfl rfl rfl rfl (fun h => by cases h) (fun h => by cases h)
  | shutdown =>
    obtain ⟨h0, ⟨hq, hd, ht⟩ | ⟨hq, ht⟩⟩ := shutdown_cases hs h
    · exact .defer rfl hd hq ht
    · exact .drain rfl h0 hq ht

theorem due_congr (hl : t.latch = { s.latch with signals := [] })
    (hq : t.queueSize = s.queueSize) (hn : t.nextOrderId = s.nextOrderId) : t.due = s.due := by
  have h1 : t.shuttingDown = s.shuttingDown := congrArg Latch.shuttingDown hl
  have h2 : t.shutdownPending = s.shutdownPending := congrArg Latch.shutdownPending hl
  have h3 : t.shutdownCursor = s.shutdownCursor := congrArg Latch.shutdownCursor hl
  unfold due destroyed
  rw [h1, h2, h3, hq, hn]

theorem due_queue (hd : s.shuttingDown = false) (hq : 0 < s.queueSize) :
    s.due = some .processHead := by
  unfold due
  rw [if_neg (by simp [hd]), if_pos hq]

/-- What is due after a transaction has just been sent, or was due before and is not what the
call did. -/
theorem step_due (hs : s.Ok) (h : s.step c = some t) :
    (∀ d, t.due = some d → d ∈ t.selfCalls) ∨
      t.due = s.due ∧ ∀ d, s.due = some d → c.kind ≠ some d := by
  cases step_signals hs h with
  | pass h => exact .inl fun d => h.due_sent
  | still hl hb hq hn ho hc hd =>
    refine .inr ⟨due_congr hl hq hn, fun d hdd hk => ?_⟩
    cases d with
    | shutdown => exact hd hk
    | processHead =>
      unfold due at hdd
      rw [if_pos (hc hk)] at hdd
      split_ifs at hdd
      cases hdd
  | defer hc h0 hq ht =>
    rw [due_queue h0 hq, ht, hc]
    exact .inr ⟨due_queue h0 hq, by simp⟩
  | drain hc h0 hq ht =>
    left
    intro d hd
    have hl := drainPass_latch (s := s.begin)
    rw [ht] at hd ⊢
    unfold due at hd
    rw [if_pos drainPass_shuttingDown] at hd
    split_ifs at hd with hdest
    cases hd
    rw [drainPass_destroyed, decide_eq_true_eq, not_le] at hdest
    rw [selfCalls_latch, congrArg Latch.signals hl, closing, if_pos (show
      s.begin.drainOpen.shutdownCursor < s.begin.drainOpen.nextOrderId from hdest)]
    simp [Action.selfCall?]

end OrderBook

namespace Relay

variable {S T : Relay} {i : Turn} {market : MarketId} {resultStart numOutcomes : ℕ}
  {tr : List (Turn × Relay)}

/-- Whatever the book waits for is on its way. -/
structure Ok (S : Relay) : Prop where
  book : S.book.Ok
  locks : Item.Checked S.book.items
  due : ∀ d, S.book.due = some d → d ∈ S.calls

theorem kind_delivered (d : SelfCall) : (d.call market).kind = some d := by
  cases d <;> rfl

theorem left_of_ne (he : S.enabled i) {d : SelfCall} (hd : d ∈ S.calls)
    (hk : (i.call S.book.market).kind ≠ some d) : d ∈ S.left i := by
  cases i with
  | outside => exact hd
  | deliver c =>
    rw [Turn.call, kind_delivered] at hk
    obtain ⟨cs, hcs⟩ : ∃ cs, S.calls = c :: cs := List.head?_eq_some_iff.mp (beq_iff_eq.mp he)
    rw [hcs, List.mem_cons] at hd
    rw [left, hcs]
    exact hd.resolve_left fun hdc => hk (hdc ▸ rfl)

theorem step_ok (hS : S.Ok) (h : S.step i = some T) : T.Ok := by
  obtain ⟨he, hb, hcalls⟩ := step_cases h
  refine ⟨(OrderBook.step_moves hS.book hb).ok, ?_, fun d hd => ?_⟩
  · refine OrderBook.step_checked hS.book hb ?_ hS.locks
    cases i with
    | outside => exact List.all_eq_true.mp (Bool.and_eq_true_iff.mp he).2
    | deliver c => cases c <;> simp [Turn.call, SelfCall.call, Call.orders]
  rw [hcalls]
  rcases OrderBook.step_due hS.book hb with hsent | ⟨hsame, hk⟩
  · exact List.mem_append_right _ (hsent d hd)
  · rw [hsame] at hd
    exact List.mem_append_left _ (left_of_ne he (hS.due d hd) (hk d hd))

theorem init_ok (market : MarketId) (resultStart numOutcomes : ℕ) :
    (init market resultStart numOutcomes).Ok := by
  refine ⟨.init market resultStart numOutcomes, ?_, fun d hd => ?_⟩
  · simp [init, OrderBook.init_items, Item.Checked]
  simp [init, OrderBook.due, OrderBook.init, Queue.empty] at hd

theorem run_ok (h : Run step (init market resultStart numOutcomes) tr S) : S.Ok :=
  h.state_invariant Ok (init_ok _ _ _) fun _ _ _ hS h => step_ok hS h

theorem run_book (h : Run step (init market resultStart numOutcomes) tr S) :
    Run OrderBook.step (OrderBook.init market resultStart numOutcomes) (transactions tr) S.book := by
  induction h with
  | nil => exact .nil
  | snoc hr hs ih =>
    obtain ⟨-, hb, -⟩ := step_cases hs
    have hm := (OrderBook.step_moves (OrderBook.run_ok ih) hb).market
    rw [transactions, List.map_append]
    refine .snoc ih ?_
    rw [hm]
    exact hb

theorem requested_due (hr : S.book.requested) (hd : S.book.destroyed = false) :
    ∃ d, S.book.due = some d := by
  unfold OrderBook.due
  unfold OrderBook.requested at hr
  rw [hd]
  split_ifs with h1 h2 h3 h4
  · contradiction
  · exact ⟨_, rfl⟩
  · exact ⟨_, rfl⟩
  · exact ⟨_, rfl⟩
  · simp [h1, h4] at hr

theorem Ok.calls_ne_nil (hS : S.Ok) (hr : S.book.requested) (hd : S.book.destroyed = false) :
    ∃ d cs, S.calls = d :: cs := by
  obtain ⟨d, hdue⟩ := requested_due hr hd
  exact List.exists_cons_of_ne_nil (List.ne_nil_of_mem (hS.due d hdue))

end Relay

end Dexdo
