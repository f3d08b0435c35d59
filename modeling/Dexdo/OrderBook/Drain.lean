import Dexdo.OrderBook.Relay
import Dexdo.OrderBook.Reports
import Mathlib.Algebra.Order.Floor.Div

namespace Dexdo

namespace Book

/-- The cancellation a drain pass sends for resting order `id`. -/
def cancelOut (b : Book) (id : ℕ) : Out :=
  let o := b.core id
  ⟨o.depositHash, .onOrderCancelled id o.outcomeId o.isBuy (collateralFor o.isBuy o.price o.amount)
    o.clientOrderId 0, o.sub, none⟩

theorem cancelOut_congr {b c : Book} {i : ℕ} (h : c.core i = b.core i) :
    c.cancelOut i = b.cancelOut i := by
  unfold cancelOut
  rw [h]

variable {b : Book} {n : ℕ} {A : Index}

/-- A book without stored orders is the book of the constructor. -/
theorem Rep.eq_empty (r : b.Rep n A) (hn : ∀ i, ¬ b.Stored i) : b = Book.empty := by
  have hP : ∀ k q, A.atPrice k q = [] := by
    intro k q
    apply List.eq_nil_iff_forall_not_mem.mpr
    intro i hi
    exact hn i ((r.mem_price k q i).mp hi).1
  have hO : ∀ h, A.ofOwner h = [] := by
    intro h
    apply List.eq_nil_iff_forall_not_mem.mpr
    intro i hi
    exact hn i ((r.mem_owner h i).mp hi).1
  have horders : b.orders = fun _ => none := by
    funext i
    simpa [Stored] using hn i
  have hlevels : b.levels = fun _ => Dict.empty := by
    funext k
    apply Dict.eq_empty
    intro q
    have := (r.level_iff k q).not.mpr (not_not.mpr (hP k q))
    simpa using this
  have howner : ∀ h, b.ownerHead h = 0 ∧ b.ownerTail h = 0 := by
    intro h
    have hl := r.linkedO h
    rw [hO h] at hl
    simpa [nextO, prevO] using Linked.nil_iff.mp hl
  have hcount : b.orderCount = 0 := by
    rw [r.count, Finset.filter_false_of_mem fun i _ => hn i]
    rfl
  obtain ⟨orders, levels, ownerHead, ownerTail, orderCount⟩ := b
  obtain rfl : orders = fun _ => none := horders
  obtain rfl : levels = fun _ => Dict.empty := hlevels
  obtain rfl : ownerHead = fun _ => 0 := funext fun h => (howner h).1
  obtain rfl : ownerTail = fun _ => 0 := funext fun h => (howner h).2
  obtain rfl : orderCount = 0 := hcount
  rfl

end Book

namespace OrderBook

variable {s t u : OrderBook} {c : Call} {os : List Out} {n : ℕ}

/-- Cancelling a list of distinct resting orders answers each of them in turn. -/
theorem cancels_outs (ids : List ℕ) (h : s.BookOk) (hn : ids.Nodup) (hs : ∀ i ∈ ids, s.Stored i) :
    let t := ids.foldl (fun s oid => s.cancelResting (s.order oid).depositHash oid 0 none) s
    t.outs = s.outs ++ ids.map s.cancelOut := by
  induction ids generalizing s with
  | nil => simp
  | cons x ids ih =>
    intro t
    have hx := hs x (by simp)
    have hnd := List.nodup_cons.mp hn
    have hone := Cancels.one (K := 0) (c := none) h (s.order x).depositHash x 0 hx rfl
    have hst := fun i => cancelResting_stored (c := none) h (s.order x).depositHash x 0 hx i
    have hrec := ih hone.ok hnd.2 fun i hi => (hst i).mpr
      ⟨fun e => hnd.1 (e ▸ hi), hs i (by simp [hi])⟩
    have hmap : ids.map (s.cancelResting (s.order x).depositHash x 0 none).cancelOut =
        ids.map s.cancelOut := by
      apply List.map_congr_left
      intro i hi
      apply Book.cancelOut_congr
      have hthin := cancelResting_thins (c := none) h (s.order x).depositHash x 0 hx
      exact (hthin i ((hst i).mpr ⟨fun e => hnd.1 (e ▸ hi), hs i (by simp [hi])⟩)).2
    have hout : (s.cancelResting (s.order x).depositHash x 0 none).outs =
        s.outs ++ [s.cancelOut x] := by
      unfold cancelResting notifyCancelled
      rw [act_outs, emit_outs]
      rfl
    rw [show t.outs = _ from hrec, hmap, hout, List.append_assoc]
    rfl

/-- The orders a drain pass cancels. -/
def swept (s : OrderBook) : List ℕ := s.shutdownScan.filter fun i => decide (s.Stored i)

theorem drainPass_outs (hs : s.Ok) : s.drainPass.outs = s.outs ++ s.swept.map s.cancelOut ∧
    ∀ i, s.drainPass.Stored i ↔ s.Stored i ∧ i ∉ s.swept := by
  have hnd : s.swept.Nodup := (List.nodup_range' ..).filter _
  have hst : ∀ i ∈ s.swept, s.drainOpen.Stored i := fun i hi =>
    of_decide_eq_true (List.mem_filter.mp hi).2
  have hok : s.drainOpen.BookOk := hs.book.of_toBook rfl le_rfl
  have h := cancels_outs s.swept hok hnd hst
  have hstored := (drain_spec (K := 0) s.swept hok hnd hst).2
  rw [drainPass_eq, drainClose_outs, drainClose_fields.1]
  rw [swept, ← scan_filter hs] at h hstored
  rw [swept, ← scan_filter hs]
  exact ⟨h, hstored⟩

theorem drainOpen_cursor (hs : s.Ok) (hc : s.shutdownCursor ≤ s.nextOrderId) :
    s.drainOpen.shutdownCursor = min s.nextOrderId (s.shutdownStart + MAX_SHUTDOWN_BATCH) ∧
      s.shutdownStart ≤ s.nextOrderId ∧ 1 ≤ s.shutdownStart := by
  have h0 := hs.pos
  have hst : s.shutdownStart ≤ s.nextOrderId ∧ 1 ≤ s.shutdownStart := by
    unfold shutdownStart
    split_ifs <;> omega
  have hlen : s.drainOpen.shutdownCursor = s.shutdownStart +
      min MAX_SHUTDOWN_BATCH (s.nextOrderId - s.shutdownStart) := by
    rw [show s.drainOpen.shutdownCursor = s.shutdownStart + s.shutdownScan.length from rfl,
      shutdownScan, List.length_range']
  exact ⟨by omega, hst⟩

/-- What `n` drain passes have done since the book was `s`: they sent `os` and left `t`. -/
structure Swept (s : OrderBook) (n : ℕ) (os : List Out) (t : OrderBook) : Prop where
  nextId : t.nextOrderId = s.nextOrderId
  start : t.shutdownStart = min s.nextOrderId (1 + n * MAX_SHUTDOWN_BATCH)
  stored : ∀ i, t.Stored i ↔ s.Stored i ∧ t.shutdownStart ≤ i
  core : ∀ i, t.Stored i → t.core i = s.core i
  outs : os = ((List.range' 1 (t.shutdownStart - 1)).filter fun i => decide (s.Stored i)).map
    s.cancelOut
  passes : n ≤ 1 ∨ 1 + (n - 1) * MAX_SHUTDOWN_BATCH < s.nextOrderId
  moved : n = 0 ∨ t.shutdownCursor ≠ 0

theorem Swept.refl (hs : s.Ok) (hd : s.shuttingDown = false) : Swept s 0 [] s := by
  have hstart : s.shutdownStart = 1 := by rw [shutdownStart, if_pos (hs.cursor hd)]
  obtain ⟨A, r⟩ := hs.book.rep
  refine ⟨rfl, ?_, fun i => ?_, fun i _ => rfl, ?_, .inl (Nat.zero_le 1), .inl rfl⟩
  · have := hs.pos
    omega
  · rw [hstart, iff_self_and]
    exact fun hi => (r.bound i hi).1
  · rw [hstart]
    rfl

theorem Swept.still (h : Swept s n os t) (hb : u.toBook = t.toBook)
    (hn : u.nextOrderId = t.nextOrderId) (hc : u.shutdownCursor = t.shutdownCursor) :
    Swept s n os u := by
  have hstart : u.shutdownStart = t.shutdownStart := by rw [shutdownStart, hc, shutdownStart]
  refine ⟨hn.trans h.nextId, hstart.trans h.start, ?_, ?_, ?_, h.passes, hc ▸ h.moved⟩
  · rw [hb, hstart]
    exact h.stored
  · rw [hb]
    exact h.core
  · rw [hstart]
    exact h.outs

/-- Another drain pass takes the next ids off the book and answers the orders among them. -/
theorem Swept.pass (h : Swept s n os t) (ht : t.Ok) (h0 : t.actions = [])
    (hc : t.shutdownCursor ≤ t.nextOrderId) (hlt : n = 0 ∨ t.shutdownStart < t.nextOrderId) :
    Swept s (n + 1) (os ++ t.drainPass.outs) t.drainPass := by
  obtain ⟨houts, hstored⟩ := drainPass_outs ht
  obtain ⟨hcur, hle, hpos⟩ := drainOpen_cursor ht hc
  have hscan : ∀ i ∈ t.shutdownScan, (t.Stored i ↔ s.Stored i) := by
    intro i hi
    rw [h.stored i, and_iff_left_iff_imp]
    exact fun _ => (List.mem_range'_1.mp hi).1
  have hswept : t.swept = t.shutdownScan.filter fun i => decide (s.Stored i) :=
    List.filter_congr fun i hi => decide_eq_decide.mpr (hscan i hi)
  have hmap : t.swept.map t.cancelOut = t.swept.map s.cancelOut := by
    apply List.map_congr_left
    intro i hi
    exact Book.cancelOut_congr (h.core i (of_decide_eq_true (List.mem_filter.mp hi).2))
  have hlen : t.drainOpen.shutdownCursor = t.shutdownStart + t.shutdownScan.length := rfl
  have hl : t.drainPass.shutdownCursor = t.drainOpen.shutdownCursor :=
    congrArg Latch.shutdownCursor drainPass_latch
  have hend : t.drainPass.shutdownStart = t.drainOpen.shutdownCursor := by
    rw [shutdownStart, hl, if_neg (by omega)]
  refine ⟨drainPass_nextOrderId.trans h.nextId, ?_, fun i => ?_, fun i hi => ?_, ?_, ?_,
    .inr (by omega)⟩
  · have hstart := h.start
    have hnext := h.nextId
    have hmul : (n + 1) * MAX_SHUTDOWN_BATCH = n * MAX_SHUTDOWN_BATCH + MAX_SHUTDOWN_BATCH :=
      Nat.succ_mul ..
    rw [hend, hcur, hstart, hnext, hmul]
    rcases hlt with rfl | hlt
    · omega
    · omega
  · rw [hstored i, h.stored i, hend]
    constructor
    · rintro ⟨⟨hi, hge⟩, hni⟩
      refine ⟨hi, ?_⟩
      by_contra hcon
      apply hni
      have hmem : i ∈ t.shutdownScan := by
        rw [shutdownScan, List.mem_range'_1]
        rw [shutdownScan, List.length_range'] at hlen
        omega
      exact List.mem_filter.mpr ⟨hmem, decide_eq_true ((hscan i hmem).mpr hi)⟩
    · rintro ⟨hi, hge⟩
      refine ⟨⟨hi, by omega⟩, fun hmem => ?_⟩
      have := (List.mem_range'_1.mp (List.mem_filter.mp hmem).1).2
      rw [shutdownScan, List.length_range'] at hlen
      omega
  · have hi' := ((hstored i).mp hi).1
    rw [((drainPass_thins ht) i hi).2]
    exact h.core i hi'
  · rw [houts, hmap, hswept, h.outs, hend, OrderBook.outs, h0, List.filterMap_nil, List.nil_append,
      ← List.map_append, ← List.filter_append]
    have hrange : List.range' 1 (t.shutdownStart - 1) ++ t.shutdownScan =
        List.range' 1 (t.drainOpen.shutdownCursor - 1) := by
      rw [shutdownScan] at hlen ⊢
      rw [List.length_range'] at hlen
      rw [show t.shutdownStart = 1 + (t.shutdownStart - 1) by omega, Nat.add_sub_cancel_left,
        List.range'_append_1]
      congr 1
      omega
    rw [hrange]
  · rcases hlt with rfl | hlt
    · exact .inl le_rfl
    · right
      have hstart := h.start
      have hnext := h.nextId
      rw [Nat.add_sub_cancel]
      omega

/-- Drain passes of a run: shutdown calls that leave the book draining. -/
def passes (tr : List (Call × OrderBook)) : ℕ :=
  tr.countP fun x => decide (x.1.kind = some .shutdown) && x.2.shuttingDown

theorem passes_snoc (tr : List (Call × OrderBook)) (c : Call) (t : OrderBook) :
    passes (tr ++ [(c, t)]) =
      passes tr + if c.kind = some .shutdown ∧ t.shuttingDown then 1 else 0 := by
  simp [passes, List.countP_append, List.countP_singleton]

variable {market : MarketId} {resultStart numOutcomes : ℕ} {tr : List (Call × OrderBook)}

/-- A draining book descends from one with an empty queue by the passes made since. -/
structure Drains (market : MarketId) (resultStart numOutcomes : ℕ)
    (tr : List (Call × OrderBook)) (t : OrderBook) : Prop where
  idle : t.shuttingDown = false → passes tr = 0
  sweeping : t.shuttingDown = true → ∃ before s after, tr = before ++ after ∧
    Run step (OrderBook.init market resultStart numOutcomes) before s ∧
    (s.shuttingDown = false ∧ s.queueSize = 0) ∧ passes before = 0 ∧ 0 < passes after ∧
    Swept s (passes after) (traceOuts after) t

theorem Drains.step (hs : s.Ok) (hr : Run step (init market resultStart numOutcomes) tr s)
    (h : Drains market resultStart numOutcomes tr s) (ht : s.step c = some t) :
    Drains market resultStart numOutcomes (tr ++ [(c, t)]) t := by
  have hcount := passes_snoc tr c t
  cases step_signals hs ht with
  | pass hp =>
    have hd : t.shuttingDown = false := (congrArg Latch.shuttingDown hp.latch).trans hp.live
    refine ⟨fun _ => ?_, fun hdown => absurd hdown (by simp [hd])⟩
    rw [hcount, h.idle hp.live]
    simp [hd]
  | still hl hb hq hn ho hc hk =>
    have hd : t.shuttingDown = s.shuttingDown := congrArg Latch.shuttingDown hl
    refine ⟨fun hdt => ?_, fun hdt => ?_⟩
    · rw [hcount, h.idle (hd.symm.trans hdt)]
      simp [hk]
    · obtain ⟨before, v, after, rfl, hrun, hv, h0, hpos, hsw⟩ := h.sweeping (hd.symm.trans hdt)
      have hafter : passes (after ++ [(c, t)]) = passes after := by
        rw [passes_snoc]
        simp [hk]
      refine ⟨before, v, after ++ [(c, t)], List.append_assoc .., hrun, hv, h0, ?_, ?_⟩
      · rw [hafter]
        exact hpos
      · rw [hafter, traceOuts_snoc, ho, List.append_nil]
        exact hsw.still hb hn (congrArg Latch.shutdownCursor hl)
  | defer hc h0 hq ht =>
    have hd : t.shuttingDown = false := by rw [ht]; exact h0
    refine ⟨fun _ => ?_, fun hdown => absurd hdown (by simp [hd])⟩
    rw [hcount, h.idle h0]
    simp [hd]
  | drain hc h0 hq ht =>
    have hd : t.shuttingDown = true := by
      rw [ht]
      exact drainPass_shuttingDown
    refine ⟨fun hdt => absurd hdt (by simp [hd]), fun _ => ?_⟩
    have hok := begin_ok hs
    cases hds : s.shuttingDown with
    | false =>
      have hsw := (Swept.refl hs hds).still (u := s.begin) rfl rfl rfl
      refine ⟨tr, s, [(c, t)], rfl, hr, ⟨hds, hq⟩, h.idle hds, ?_⟩
      have hone : passes [(c, t)] = 0 + 1 := by simp [passes, hc, hd]
      have hout : traceOuts [(c, t)] = [] ++ s.begin.drainPass.outs := by simp [traceOuts, ht]
      rw [hone, hout, ht]
      refine ⟨Nat.one_pos, hsw.pass hok rfl ?_ (.inl rfl)⟩
      rw [show s.begin.shutdownCursor = 0 from hs.cursor hds]
      exact Nat.zero_le _
    | true =>
      obtain ⟨before, v, after, rfl, hrun, hv, hp0, hpos, hsw⟩ := h.sweeping hds
      have hafter : passes (after ++ [(c, t)]) = passes after + 1 := by
        rw [passes_snoc]
        simp [hc, hd]
      refine ⟨before, v, after ++ [(c, t)], List.append_assoc .., hrun, hv, hp0, ?_, ?_⟩
      · rw [hafter]
        exact Nat.succ_pos _
      · rw [hafter, traceOuts_snoc, ht]
        have hsw' := hsw.still (u := s.begin) rfl rfl rfl
        have hlt : s.begin.shutdownCursor < s.begin.nextOrderId := by
          simpa [destroyed, hds, begin] using h0
        refine hsw'.pass hok rfl hlt.le (.inr ?_)
        rw [shutdownStart, if_neg (hsw'.moved.resolve_left hpos.ne')]
        exact hlt

theorem run_drains (h : Run step (init market resultStart numOutcomes) tr s) :
    Drains market resultStart numOutcomes tr s := by
  refine h.invariant (fun tr s => Drains market resultStart numOutcomes tr s) ?_ ?_
  · exact ⟨fun _ => rfl, fun hd => absurd hd (by simp [init])⟩
  · intro tr t c u hr ht hu
    exact ht.step (run_ok hr) hr hu

theorem Swept.passes_le (h : Swept s n os t) :
    n ≤ (s.nextOrderId - 1) ⌈/⌉ MAX_SHUTDOWN_BATCH + 1 := by
  rw [Nat.ceilDiv_eq_add_pred_div]
  have := h.passes
  unfold MAX_SHUTDOWN_BATCH at *
  omega

theorem Swept.finished (h : Swept s n os t) (hd : t.destroyed) :
    os = ((List.range' 1 (s.nextOrderId - 1)).filter fun i => decide (s.Stored i)).map
      s.cancelOut := by
  simp only [destroyed, Bool.and_eq_true, decide_eq_true_eq] at hd
  have hstart : t.shutdownStart = s.nextOrderId := by
    have h1 := h.start
    have h2 := h.nextId
    have h3 : t.shutdownCursor ≤ t.shutdownStart := by
      unfold shutdownStart
      split_ifs <;> omega
    omega
  rw [h.outs, hstart]

theorem Ok.destroyed_empty (h : s.Ok) (hd : s.destroyed) :
    s.queueSize = 0 ∧ s.toBook = Book.empty := by
  simp only [destroyed, Bool.and_eq_true, decide_eq_true_eq] at hd
  obtain ⟨hq, hst⟩ := h.down hd.1
  obtain ⟨A, r⟩ := h.book.rep
  refine ⟨hq, r.eq_empty fun i hi => ?_⟩
  have := (r.bound i hi).2.1
  have := hst i hi
  omega

end OrderBook

end Dexdo
