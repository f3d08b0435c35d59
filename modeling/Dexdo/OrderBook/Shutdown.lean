import Dexdo.OrderBook.Drain

namespace Dexdo

/-- A report to RootPN or to the PMP. -/
def Action.isReport : Action → Bool
  | .collectProtocolFee _ => true
  | .onOrderBookShutdownComplete => true
  | _ => false

open Item (totalWeight)

namespace OrderBook

variable {s t : OrderBook} {c : Call} {market : MarketId} {resultStart numOutcomes : ℕ}
  {tr : List (Call × OrderBook)}

section Reports

/-- Reports of a run, oldest first. -/
def reports (tr : List (Call × OrderBook)) : List Action := (traceActions tr).filter Action.isReport

/-- Fees taken in a run, less the rebates paid. -/
def feesTaken (tr : List (Call × OrderBook)) : ℤ := ((traceOuts tr).map fun o => o.cb.fee).sum

/-- What a book with `total` of protocol fees reports at its end. -/
def finalReport (total : ℕ) : List Action :=
  (if 0 < total then [.collectProtocolFee total] else []) ++ [.onOrderBookShutdownComplete]

theorem reports_snoc (tr : List (Call × OrderBook)) (c : Call) (t : OrderBook) :
    reports (tr ++ [(c, t)]) = reports tr ++ t.actions.filter Action.isReport := by
  simp [reports, traceActions]

theorem feesTaken_snoc (tr : List (Call × OrderBook)) (c : Call) (t : OrderBook) :
    feesTaken (tr ++ [(c, t)]) = feesTaken tr + (t.outs.map fun o => o.cb.fee).sum := by
  rw [feesTaken, traceOuts_snoc, List.map_append, List.sum_append]
  rfl

theorem reports_latch (s : OrderBook) :
    s.actions.filter Action.isReport = s.latch.signals.filter Action.isReport := by
  rw [latch, List.filter_filter]
  refine List.filter_congr fun a _ => ?_
  cases a <;> rfl

theorem feeTotal_reports (s : OrderBook) : s.feeTotal =
    s.totalProtocolFees + ((s.actions.filter Action.isReport).map Action.collected).sum := by
  unfold feeTotal
  congr 1
  induction s.actions with
  | nil => rfl
  | cons a as ih =>
    rw [List.filter_cons]
    cases a <;> simp [Action.isReport, Action.collected, ih]

theorem follow_reports (s : OrderBook) : s.follow.filter Action.isReport = [] := by
  unfold follow
  split_ifs <;> rfl

theorem drainPass_fees (h : ¬ s.drainOpen.shutdownCursor < s.nextOrderId) :
    s.drainPass.totalProtocolFees = 0 := by
  obtain ⟨h1, h2, h3⟩ := cancels_latch
    (s.shutdownScan.filter fun i => decide (0 < (s.order i).amount)) s.drainOpen
  have hc : s.drainCancel.shutdownCursor = s.drainOpen.shutdownCursor :=
    congrArg Latch.shutdownCursor h1
  have hn : s.drainCancel.nextOrderId = s.nextOrderId := h3
  rw [drainPass_eq, drainClose, if_neg (by rw [hc, hn]; exact h)]
  split_ifs with hf
  · rfl
  · exact Nat.eq_zero_of_not_pos hf

/-- A transaction reports nothing, or everything as it destroys the book. -/
theorem step_reports (hs : s.Ok) (h : s.step c = some t) :
    (t.destroyed = false ∧ t.actions.filter Action.isReport = []) ∨
      t.destroyed = true ∧ t.totalProtocolFees = 0 ∧
        t.actions.filter Action.isReport = finalReport s.totalProtocolFees := by
  have halive : s.destroyed = false := by
    replace h := step_body h
    unfold body at h
    split_ifs at h with hd
    exact Bool.eq_false_iff.mpr hd
  rw [reports_latch]
  cases step_signals hs h with
  | pass hp =>
    have hd : t.shuttingDown = false := (congrArg Latch.shuttingDown hp.latch).trans hp.live
    left
    rw [hp.latch]
    exact ⟨by simp [destroyed, hd], follow_reports t⟩
  | still hl hb hq hn =>
    have h1 : t.shuttingDown = s.shuttingDown := congrArg Latch.shuttingDown hl
    have h3 : t.shutdownCursor = s.shutdownCursor := congrArg Latch.shutdownCursor hl
    left
    rw [hl, destroyed, h1, h3, hn]
    exact ⟨halive, rfl⟩
  | defer hc h0 hq ht =>
    left
    rw [ht]
    exact ⟨by simp [destroyed, begin, h0], rfl⟩
  | drain hc h0 hq ht =>
    have hl := drainPass_latch (s := s.begin)
    rw [ht, hl, drainPass_destroyed]
    by_cases hcur : s.begin.drainOpen.shutdownCursor < s.begin.drainOpen.nextOrderId
    · left
      rw [closing, if_pos hcur]
      exact ⟨decide_eq_false (not_le.mpr hcur), rfl⟩
    · right
      rw [closing, if_neg hcur]
      refine ⟨decide_eq_true (not_lt.mp hcur), drainPass_fees hcur, ?_⟩
      unfold finalReport
      rw [List.filter_append, List.filter_append, show s.begin.drainOpen.totalProtocolFees =
        s.totalProtocolFees from rfl]
      split_ifs <;> rfl

/-- What a run has reported: nothing while the book lives, and all its fees once it is gone. -/
structure Reported (tr : List (Call × OrderBook)) (t : OrderBook) : Prop where
  alive : t.destroyed = false → reports tr = [] ∧ (t.totalProtocolFees : ℤ) = feesTaken tr
  gone : t.destroyed = true →
    ∃ total : ℕ, (total : ℤ) = feesTaken tr ∧ reports tr = finalReport total

theorem Reported.step (hs : s.Ok) (h : Reported tr s) (ht : s.step c = some t) :
    Reported (tr ++ [(c, t)]) t := by
  have halive : s.destroyed = false := by
    replace ht := OrderBook.step_body ht
    unfold OrderBook.body at ht
    split_ifs at ht with hd
    exact Bool.eq_false_iff.mpr hd
  obtain ⟨hr, hf⟩ := h.alive halive
  have hfees : (t.feeTotal : ℤ) = feesTaken (tr ++ [(c, t)]) := by
    rw [(step_moves hs ht).fees, feesTaken_snoc, hf]
  rw [feeTotal_reports] at hfees
  obtain ⟨hd, hrep⟩ | ⟨hd, h0, hrep⟩ := step_reports hs ht
  · rw [hrep] at hfees
    refine ⟨fun _ => ⟨?_, hfees⟩, fun hd' => absurd hd' (by simp [hd])⟩
    rw [reports_snoc, hr, hrep, List.append_nil]
  · refine ⟨fun hd' => absurd hd (by simp [hd']), fun _ => ⟨s.totalProtocolFees, ?_, ?_⟩⟩
    · rw [← hfees, h0, hrep, finalReport]
      split_ifs with hpos
      · simp [Action.collected]
      · simp [Action.collected]
        omega
    · rw [reports_snoc, hr, hrep, List.nil_append]

theorem run_reported (h : Run step (init market resultStart numOutcomes) tr s) : Reported tr s := by
  refine h.invariant (fun tr s => Reported tr s)
    ⟨fun _ => ⟨rfl, rfl⟩, fun hd => absurd hd (by simp [destroyed, init])⟩ ?_
  intro tr t c u hr ht hu
  exact ht.step (run_ok hr) hu

end Reports

section Progress

/-- What a requested shutdown has yet to get through: the queue, then the ids left to scan. -/
def rank (s : OrderBook) : ℕ ×ₗ ℕ ×ₗ ℕ ×ₗ ℕ :=
  if s.shuttingDown then toLex (0, toLex (s.nextOrderId - s.shutdownCursor, toLex (0, 0)))
  else toLex (1, toLex (totalWeight s.items, toLex (s.queueSize,
    precheckLeft s.toBook (s.queue s.queueHead))))

theorem rank_pass (hs : s.Ok) (hd : s.shuttingDown = false) (hq : s.queueSize ≠ 0)
    (ht : s.processHeadCore.shuttingDown = false) : s.processHeadCore.rank < s.rank := by
  have h := pass_less hs hq
  rw [rank, rank, if_neg (by simp [ht]), if_neg (by simp [hd])]
  simp only [Prod.Lex.toLex_lt_toLex]
  exact .inr ⟨trivial, h⟩

theorem rank_drain (hs : s.Ok) (hd : s.destroyed = false) : s.drainPass.rank < s.rank := by
  have hl := drainPass_latch (s := s)
  have hcur : s.drainPass.shutdownCursor = s.drainOpen.shutdownCursor :=
    congrArg Latch.shutdownCursor hl
  rw [rank, rank, if_pos drainPass_shuttingDown, hcur, drainPass_nextOrderId]
  cases hsd : s.shuttingDown with
  | false =>
    simp only [Bool.false_eq_true, if_false, Prod.Lex.toLex_lt_toLex]
    exact .inl Nat.zero_lt_one
  | true =>
    have hlt : s.shutdownCursor < s.nextOrderId := by simpa [destroyed, hsd] using hd
    obtain ⟨h1, h2, h3⟩ := drainOpen_cursor hs hlt.le
    have hstart : s.shutdownCursor ≤ s.shutdownStart := by
      unfold shutdownStart
      split_ifs <;> omega
    simp only [if_true, Prod.Lex.toLex_lt_toLex]
    refine .inr ⟨trivial, .inl ?_⟩
    unfold MAX_SHUTDOWN_BATCH at h1
    omega

/-- A poke of a book whose shutdown is requested does what is due, or leaves the rank and what
is due as they are. -/
theorem step_rank (hs : s.Ok) (hr : s.requested) (hc : c.kind.isSome) (h : s.step c = some t) :
    t.requested ∧ (t.rank < s.rank ∨
      t.rank = s.rank ∧ t.due = s.due ∧ ∀ d, s.due = some d → c.kind ≠ some d) := by
  have hok := begin_ok hs
  cases step_signals hs h with
  | pass hp hk =>
    have hd := hp.live
    have hpend : s.shutdownPending = true := by simpa [requested, hd] using hr
    have htd : t.shuttingDown = false := (congrArg Latch.shuttingDown hp.latch).trans hd
    have htp : t.shutdownPending = true := (congrArg Latch.shutdownPending hp.latch).trans hpend
    refine ⟨by simp [requested, htp], ?_⟩
    obtain rfl := Call.eq_processHead hc hk
    replace h := step_body h
    unfold body at h
    split_ifs at h
    have ht : t = s.begin.processHeadCore := (Option.some.inj h).symm
    by_cases hq : s.queueSize = 0
    · have ht' : t = s.begin.act .shutdown := by
        rw [ht, processHeadCore, if_neg (by simp [begin, hd]), if_pos (by exact hq),
          if_pos (by exact hpend)]
      right
      rw [ht']
      refine ⟨rfl, rfl, fun d hd' => ?_⟩
      unfold due at hd'
      rw [if_neg (by simp [hd]), if_neg (by omega), if_pos hpend] at hd'
      rw [← hd']
      exact fun h => by cases h
    · left
      rw [ht] at htd ⊢
      exact rank_pass hok hd hq htd
  | still hl hb hq hn ho hk hsh =>
    have h1 : t.shuttingDown = s.shuttingDown := congrArg Latch.shuttingDown hl
    have h2 : t.shutdownPending = s.shutdownPending := congrArg Latch.shutdownPending hl
    have h3 : t.shutdownCursor = s.shutdownCursor := congrArg Latch.shutdownCursor hl
    have hph : c.kind = some .processHead := by rw [Call.eq_processHead hc hsh]; rfl
    have hd := hk hph
    refine ⟨by rw [requested, h1, h2]; exact hr, .inr ⟨?_, ?_⟩⟩
    · rw [rank, rank, if_pos (h1.trans hd), if_pos hd, h3, hn]
    · refine ⟨due_congr hl hq hn, fun d hdd => ?_⟩
      unfold due at hdd
      rw [if_pos hd] at hdd
      split_ifs at hdd
      rw [← hdd, hph]
      exact fun h => by cases h
  | defer hk h0 hq ht =>
    rw [ht]
    refine ⟨rfl, .inr ⟨rfl, ?_⟩⟩
    rw [due_queue h0 hq, hk]
    exact ⟨due_queue h0 hq, by simp⟩
  | drain hk h0 hq ht =>
    rw [ht]
    refine ⟨?_, .inl (rank_drain hok h0)⟩
    rw [requested, drainPass_shuttingDown, Bool.or_true]

end Progress

section Finished

/-- What a finished shutdown leaves behind: every order and every call is answered, the orders
that rested when the drain began are cancelled, the book is as new, and the fees are reported. -/
structure ShutDown (market : MarketId) (resultStart numOutcomes : ℕ)
    (tr : List (Call × OrderBook)) (t : OrderBook) : Prop where
  answered : ∀ k owner p, (submissions tr)[k]? = some (owner, p) →
    Closed ⟨owner, p.clientOrderId⟩ (answers k (traceOuts tr))
  acknowledged : ∀ b c, (acceptedCalls tr)[b]? = some c → Acknowledged c b (traceOuts tr)
  drained : ∃ before s after, tr = before ++ after ∧
    Run step (OrderBook.init market resultStart numOutcomes) before s ∧
    (s.shuttingDown = false ∧ s.queueSize = 0 ∧ t.nextOrderId = s.nextOrderId) ∧
    (passes before = 0 ∧
      passes after ≤ (t.nextOrderId - 1) ⌈/⌉ MAX_SHUTDOWN_BATCH + 1) ∧
    traceOuts after = ((List.range' 1 (s.nextOrderId - 1)).filter fun i =>
      decide (s.Stored i)).map s.cancelOut
  empty : t.queueSize = 0 ∧ t.toBook = Book.empty
  reported : ∃ total : ℕ, (total : ℤ) = feesTaken tr ∧ reports tr = finalReport total

theorem run_shutDown (h : Run step (OrderBook.init market resultStart numOutcomes) tr t)
    (hd : t.destroyed) : ShutDown market resultStart numOutcomes tr t := by
  have hok := run_ok h
  obtain ⟨hans, hacks, hitems, -⟩ := orders_answered_once h
  obtain ⟨hq, hbook⟩ := hok.destroyed_empty hd
  have hnil : t.toQueue.list = [] := t.toQueue.list_eq_nil_iff.mpr hq
  refine ⟨fun k owner p hk => ?_, fun b c hb => ?_, ?_, ⟨hq, hbook⟩, (run_reported h).gone hd⟩
  · have ha := hans k owner p hk
    rw [hitems hd] at ha
    cases ha with
    | waiting x hF => exact absurd hF (by simp)
    | live x fills hF => exact absurd hF (by simp)
    | gone _ has => exact has
  · have ha := hacks b c hb
    rw [hnil] at ha
    cases ha with
    | queued e he => cases he
    | acked _ ha => exact ha
  · have hdown : t.shuttingDown = true := by
      simp only [destroyed, Bool.and_eq_true] at hd
      exact hd.1
    obtain ⟨before, s, after, htr, hrun, ⟨h1, h2⟩, h3, -, hsw⟩ := (run_drains h).sweeping hdown
    refine ⟨before, s, after, htr, hrun, ⟨h1, h2, hsw.nextId⟩, ⟨h3, ?_⟩, hsw.finished hd⟩
    rw [hsw.nextId]
    exact hsw.passes_le

end Finished

end OrderBook

namespace Relay

variable {S T : Relay} {i : Turn} {market : MarketId} {resultStart numOutcomes : ℕ}
  {tr : List (Turn × Relay)}

/-- Place in the channel of the call that is due. -/
def wait (S : Relay) : ℕ :=
  match S.book.due with
  | none => 0
  | some d => S.calls.idxOf d

def rank (S : Relay) : (ℕ ×ₗ ℕ ×ₗ ℕ ×ₗ ℕ) ×ₗ ℕ := toLex (S.book.rank, S.wait)

/-- No poke puts a requested shutdown back, and every delivery brings it nearer. -/
theorem nudge_rank (hS : S.Ok) (hr : S.book.requested) (hi : i.isNudge)
    (h : S.step i = some T) :
    T.book.requested ∧ T.rank ≤ S.rank ∧ (i.isDelivery → T.rank < S.rank) := by
  obtain ⟨he, hb, hcalls⟩ := step_cases h
  have hkind : (i.call S.book.market).kind.isSome := by
    cases i with
    | outside => exact hi
    | deliver =>
      rw [Turn.call, kind_delivered]
      rfl
  have halive : S.book.destroyed = false := by
    replace hb := OrderBook.step_body hb
    unfold OrderBook.body at hb
    split_ifs at hb with hd
    exact Bool.eq_false_iff.mpr hd
  obtain ⟨hreq, hlt | ⟨hrank, hsame, hk⟩⟩ := OrderBook.step_rank hS.book hr hkind hb
  · have hlt' : T.rank < S.rank := Prod.Lex.toLex_lt_toLex.mpr (.inl hlt)
    exact ⟨hreq, hlt'.le, fun _ => hlt'⟩
  · obtain ⟨d, hd⟩ := requested_due hr halive
    have hmem := hS.due d hd
    have hne := hk d hd
    have hwait : T.wait = (S.left i).idxOf d := by
      unfold wait
      rw [hsame, hd, hcalls]
      exact List.idxOf_append_of_mem (left_of_ne he hmem hne)
    have hwaitS : S.wait = S.calls.idxOf d := by
      unfold wait
      rw [hd]
    refine ⟨hreq, ?_⟩
    unfold rank
    rw [hwait, hwaitS, hrank, Prod.Lex.toLex_le_toLex, Prod.Lex.toLex_lt_toLex]
    cases i with
    | outside => exact ⟨.inr ⟨rfl, le_rfl⟩, (fun h => by cases h)⟩
    | deliver c =>
      -- the call that arrived stood before the one that is due
      obtain ⟨cs, hcs⟩ : ∃ cs, S.calls = c :: cs := List.head?_eq_some_iff.mp (beq_iff_eq.mp he)
      have hcd : c ≠ d := fun hcd => hne (by rw [Turn.call, kind_delivered, hcd])
      have hidx : S.calls.idxOf d = (S.left (.deliver c)).idxOf d + 1 := by
        rw [hcs, left, hcs]
        exact List.idxOf_cons_ne _ hcd
      exact ⟨.inr ⟨rfl, by omega⟩, fun _ => .inr ⟨rfl, by omega⟩⟩

theorem Ok.deliverable (hS : S.Ok) (hr : S.book.requested) (hd : S.book.destroyed = false) :
    ∃ d T, S.step (.deliver d) = some T := by
  obtain ⟨d, cs, hcs⟩ := hS.calls_ne_nil hr hd
  suffices hb : ∃ t, S.book.body (d.call S.book.market) = some t by
    obtain ⟨t, hb⟩ := hb
    have hsub : (d.call S.book.market).submitted S.book.subs = 0 := by cases d <;> rfl
    have ht := (OrderBook.body_step hS.book (by rw [hsub, zero_add]; exact hS.locks) hb).1
    refine ⟨d, ⟨t, S.left (.deliver d) ++ t.selfCalls⟩, ?_⟩
    simp [step, enabled, hcs, Turn.call, ht]
  cases d with
  | processHead =>
    rw [SelfCall.call, OrderBook.body, if_neg (by simp [hd])]
    exact ⟨_, rfl⟩
  | shutdown =>
    rw [SelfCall.call, OrderBook.body, if_neg (by simp [hd])]
    apply Option.isSome_iff_exists.mp
    simp [OrderBook.shutdown, OrderBook.begin]

theorem shutdown_requested (hS : S.Ok) {sender : Addr}
    (h : S.step (.outside (.shutdown sender)) = some T) : T.book.requested := by
  obtain ⟨-, hb, -⟩ := step_cases h
  obtain ⟨-, ⟨-, -, ht⟩ | ⟨-, ht⟩⟩ := OrderBook.shutdown_cases hS.book hb
  · rw [ht]
    rfl
  · rw [ht, OrderBook.requested, OrderBook.drainPass_shuttingDown, Bool.or_true]

/-- The shutdown drain: a shutdown call puts the request on record; from then on a self-call is
always on its way, and however many pokes come between, the book is destroyed; a destroyed book has
answered everything, emptied itself in few passes and reported its fees. -/
theorem shutdown_drains (h : Run step (init market resultStart numOutcomes) tr S) :
    (∀ sender T, S.step (.outside (.shutdown sender)) = some T → T.book.requested) ∧
    (S.book.requested → S.book.destroyed = false → ∃ d T, S.step (.deliver d) = some T) ∧
    (S.book.requested → ∀ x i,
      Execution step (fun i => i.isNudge = true) (fun T => T.book.destroyed = true) S x i →
      (∀ n, ∃ m, n ≤ m ∧ (i m).isDelivery = true) →
      ∃ n, (x n).book.destroyed = true ∧ Run step S (Execution.upto x i n) (x n)) ∧
    (S.book.destroyed →
      OrderBook.ShutDown market resultStart numOutcomes (transactions tr) S.book) := by
  have hS := run_ok h
  refine ⟨fun sender T => shutdown_requested hS, hS.deliverable, fun hr x i hx hfair => ?_,
    OrderBook.run_shutDown (run_book h)⟩
  apply hx.exists_run
  refine hx.reaches (fun T => T.Ok ∧ T.book.requested = true) (fun i => i.isDelivery = true) rank
    ⟨hS, hr⟩ ?_ ?_ hfair
  · intro T U j hT hj hs
    exact ⟨step_ok hT.1 hs, (nudge_rank hT.1 hT.2 hj hs).1⟩
  · intro T U j hT hj hs
    exact (nudge_rank hT.1 hT.2 hj hs).2

/-- A book with one resting and one waiting order whose shutdown is put off behind its queue. -/
def sampleTurns : List Turn :=
  [.outside OrderBook.sampleCall, .outside (.shutdown (.pmp OrderBook.sampleMarket)),
    .deliver .processHead, .deliver .shutdown]

def sampleTrace : List (Turn × Relay) :=
  Run.trace step (init OrderBook.sampleMarket 100 2) sampleTurns

theorem sampleTrace_run : Run step (init OrderBook.sampleMarket 100 2) sampleTrace
    (Run.last (init OrderBook.sampleMarket 100 2) sampleTrace) := Run.trace_run ..

theorem sampleTrace_destroyed :
    (Run.last (init OrderBook.sampleMarket 100 2) sampleTrace).book.destroyed = true := by
  decide +kernel

theorem shutdown_drains_sample : sampleTrace.length = 4 ∧
    OrderBook.ShutDown OrderBook.sampleMarket 100 2 (transactions sampleTrace)
      (Run.last (init OrderBook.sampleMarket 100 2) sampleTrace).book :=
  ⟨by decide +kernel, (shutdown_drains sampleTrace_run).2.2.2 sampleTrace_destroyed⟩

/-- A book that has taken no fee ends without a fee report. -/
theorem shutdown_drains_gap : ∃ tr S, Run step (init OrderBook.sampleMarket 100 2) tr S ∧
    S.book.destroyed = true ∧ S.calls = [] ∧
    OrderBook.reports (transactions tr) = [.onOrderBookShutdownComplete] :=
  ⟨sampleTrace, _, sampleTrace_run, sampleTrace_destroyed, by decide +kernel, by decide +kernel⟩

end Relay

end Dexdo
