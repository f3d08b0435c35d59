import Dexdo.InferenceBook.Turn

namespace Dexdo.InferenceOrderBook

/-- Where the book stands between two transactions: no match is under way, or that of the head. -/
inductive Phase (s : InferenceOrderBook) : Prop
  | quiet : s.toBook.Sound s.nextOrderId → (∀ e ∈ s.toQueue.list, e.Fresh) → Phase s
  | underway (e : QueueEntry) (rest : List QueueEntry) : s.toQueue.list = e :: rest →
      e.Continues s.nextOrderId → (∀ x ∈ rest, x.Fresh) → s.toBook.Sound e.contOrderId → Phase s

/-- Invariant of the book between transactions. -/
structure Ready (s : InferenceOrderBook) : Prop where
  queue : s.toQueue.Ok
  ids : 0 < s.nextOrderId
  clean : Clean s
  phase : Phase s

/-- What the run of a PLACE entry leaves, with the rewritten head of a match that goes on. -/
structure Handled (s : InferenceOrderBook) (r : InferenceOrderBook × Option QueueEntry) :
    Prop where
  queue : r.1.toQueue = s.toQueue
  clock : r.1.clock = s.clock
  clean : Clean r.1
  ids : s.nextOrderId ≤ r.1.nextOrderId
  final : r.2 = none → r.1.toBook.Sound r.1.nextOrderId
  goesOn : ∀ e, r.2 = some e → e.Continues r.1.nextOrderId ∧ r.1.toBook.Sound e.contOrderId

section Heads

variable {now n orderId amount escrow resume : ℕ} {s t : InferenceOrderBook} {e : QueueEntry}
  {r : InferenceOrderBook × Option QueueEntry}

theorem Clean.of_eq (h : Clean s) (hf : t.fills = s.fills) (hd : t.dust = s.dust) : Clean t :=
  ⟨hf ▸ h.fills, hd ▸ h.dust⟩

theorem Phase.sound (h : Phase s) : s.toBook.Sound s.nextOrderId := by
  cases h with
  | quiet h => exact h
  | underway e rest hl he hr h => exact h.mono (by have := he.last; omega)

theorem restingOrder_covered {remaining leftover : ℕ} (hb : Backed e remaining leftover)
    (ht : takerOnly e.flags = false) (hr : remaining ≠ 0) :
    (restingOrder now e remaining leftover).Covered := by
  have hm : has e.flags FLAG_MARKET = false := by
    have := ht
    unfold takerOnly at this
    exact (Bool.or_eq_false_iff.mp this).1
  refine ⟨hb.priced, hb.aon, fun he => ⟨(hb.ask he).resolve_left hr, ?_⟩, fun he => ⟨?_, ?_⟩,
    hb.weeks⟩
  · have he : e.isBuy = false := he
    simp [restingOrder, he]
  · have he : e.isBuy = true := he
    simpa [restingOrder, he] using hb.bid he hm hr
  · have he : e.isBuy = true := he
    simpa [restingOrder, he] using hb.bounded he

theorem Matched.finalize {m : MatchState} (h : Matched s e orderId m) (h0 : 0 < orderId) :
    (m.book.finalizeTaker now e orderId m.remaining m.leftover).toBook.Sound (orderId + 1) := by
  have hs := h.sound.mono (Nat.le_succ orderId)
  rw [finalizeTaker_toBook]
  by_cases hc : (if e.isBuy then 2 ≤ m.remaining else 0 < m.remaining) ∧ takerOnly e.flags = false
  · have hr : 0 < m.remaining := by
      obtain ⟨hr, -⟩ := hc
      split_ifs at hr <;> omega
    rw [if_pos hc]
    refine hs.insert h0 (Nat.lt_succ_self _) (fun i hi => ?_) hr ?_
    · obtain ⟨A, r⟩ := h.sound.rep
      exact (r.bound i hi).2.1
    · exact restingOrder_covered h.backed hc.2 hr.ne'
  · rw [if_neg hc]
    exact hs

variable (now resume) in
theorem matchPhase_handled (hs : s.toBook.Sound orderId) (h0 : 0 < orderId)
    (hn : s.nextOrderId = orderId + 1) (hk : e.entryType = .place)
    (hb : Backed e amount escrow) (hc : Clean s) :
    Handled s (s.matchPhase now e orderId amount escrow resume) := by
  have h := matchOrder_matched now orderId resume hs hb hc
  by_cases hh : ∃ cur, (s.matchOrder now e orderId amount escrow resume).halt = .capped cur
  · obtain ⟨cur, hh⟩ := hh
    rw [matchPhase_capped hh]
    generalize s.matchOrder now e orderId amount escrow resume = m at h hh ⊢
    refine ⟨h.kept.queue, h.kept.clock, h.clean, h.kept.nextOrderId.ge, fun hf => ?_,
      fun e' he' => ?_⟩
    · cases hf
    cases he'
    refine ⟨⟨hk, h0.ne', ?_, h.capped cur hh, ?_⟩, h.sound⟩
    · rw [h.kept.nextOrderId]
      exact hn.symm
    · exact ⟨h.backed.priced, h.backed.aon, h.backed.limit, h.backed.ask, h.backed.bounded,
        h.backed.bid, h.backed.weeks⟩
  · push Not at hh
    rw [matchPhase_final hh]
    generalize s.matchOrder now e orderId amount escrow resume = m at h hh ⊢
    have q := quiet_finalizeTaker m.book orderId now e m.remaining m.leftover
    refine ⟨q.queue.trans h.kept.queue, q.clock.trans h.kept.clock, h.clean.quiet q,
      (q.nextOrderId.trans h.kept.nextOrderId).ge, fun _ => ?_, fun e' he' => ?_⟩
    · rw [q.nextOrderId, h.kept.nextOrderId, hn]
      exact h.finalize h0
    · cases he'

/-- A PLACE entry fit to be run: a new one, or the head of a match that goes on. -/
inductive Runnable (s : InferenceOrderBook) (e : QueueEntry) : Prop
  | first : e.Fresh → s.toBook.Sound s.nextOrderId → Runnable s e
  | again : e.Continues s.nextOrderId → s.toBook.Sound e.contOrderId → Runnable s e

theorem Runnable.sound (h : Runnable s e) : s.toBook.Sound s.nextOrderId := by
  cases h with
  | first _ h => exact h
  | again he h => exact h.mono (by have := he.last; omega)

theorem Handled.of_quiet (h : s.toBook.Sound s.nextOrderId) (hc : Clean s) (q : Quiet s t)
    (hb : t.toBook = s.toBook) : Handled s (t, none) := by
  refine ⟨q.queue, q.clock, hc.quiet q, q.nextOrderId.ge, fun _ => ?_, fun e he => ?_⟩
  · rw [q.nextOrderId, hb]
    exact h
  · cases he

theorem Placed.handled (hp : Placed now s e r) (h : Runnable s e) (hk : e.entryType = .place)
    (h0 : 0 < s.nextOrderId) (hc : Clean s) : Handled s r := by
  cases hp with
  | refused =>
    exact .of_quiet h.sound hc (s.quiet_refuse e _ _) (refuse_toBook _ _ _ _)
  | lapsed => exact .of_quiet h.sound hc (s.quiet_expireTaker e _) (expireTaker_toBook _ _ _)
  | opened hf =>
    cases h with
    | first he hs =>
      have hopen : (s.openOrder e).toBook.Sound s.nextOrderId := hs
      have := matchPhase_handled now 0 hopen h0 rfl hk (he.backed hk) (hc.of_eq rfl rfl)
      exact ⟨this.queue, this.clock, this.clean, (Nat.le_succ _).trans this.ids, this.final,
        this.goesOn⟩
    | again he => exact absurd hf he.first
  | resumed hf =>
    cases h with
    | first he => exact absurd he.first hf
    | again he hs =>
      exact matchPhase_handled now _ hs (Nat.pos_of_ne_zero hf) he.last.symm hk he.backed hc

end Heads

section Turns

variable {now : ℕ} {s t u v : InferenceOrderBook} {e : QueueEntry} {rest : List QueueEntry}
  {r : InferenceOrderBook × Option QueueEntry}

/-- A step that changes the queue only, and sends more. -/
structure Requeued (s t : InferenceOrderBook) : Prop where
  book : t.toBook = s.toBook
  nextOrderId : t.nextOrderId = s.nextOrderId
  clock : t.clock = s.clock
  fills : t.fills = s.fills
  dust : t.dust = s.dust
  actions : s.actions <+: t.actions

theorem Requeued.clean (h : Requeued s t) (hc : Clean s) : Clean t := hc.of_eq h.fills h.dust

/-- What `_processHeadCore` does once the head has run. -/
def afterHead (r : InferenceOrderBook × Bool) : InferenceOrderBook :=
  let s := if r.2 then r.1 else r.1.advanceHead
  if 0 < s.queueSize then s.act .processHead else s

theorem processHeadCore_eq (hs : s.queueSize ≠ 0) :
    s.processHeadCore now = afterHead (s.runHead now (s.queue s.queueHead)) := if_neg hs

theorem afterHead_spec (hq : s.toQueue.Ok) (hs : s.queueSize ≠ 0) (keep : Bool) :
    Requeued s (afterHead (s, keep)) ∧ (afterHead (s, keep)).toQueue.Ok ∧
      (afterHead (s, keep)).toQueue.list =
        if keep then s.toQueue.list else s.toQueue.list.tail := by
  have hact (t : InferenceOrderBook) (h : Requeued s t) :
      Requeued s (if 0 < t.queueSize then t.act .processHead else t) ∧
        (if 0 < t.queueSize then t.act .processHead else t).toQueue = t.toQueue := by
    split_ifs
    · exact ⟨⟨h.book, h.nextOrderId, h.clock, h.fills, h.dust,
        h.actions.trans (List.prefix_append _ _)⟩, rfl⟩
    · exact ⟨h, rfl⟩
  cases keep with
  | true =>
    obtain ⟨h1, h2⟩ := hact s ⟨rfl, rfl, rfl, rfl, rfl, List.prefix_rfl⟩
    refine ⟨h1, ?_, congrArg Queue.list h2⟩
    change (if 0 < s.queueSize then s.act .processHead else s).toQueue.Ok
    rw [h2]
    exact hq
  | false =>
    obtain ⟨h1, h2⟩ := hact s.advanceHead ⟨rfl, rfl, rfl, rfl, rfl, List.prefix_rfl⟩
    obtain ⟨h3, h4⟩ := advanceHead_list hq hs
    refine ⟨h1, ?_, (congrArg Queue.list h2).trans h4⟩
    change (if 0 < s.advanceHead.queueSize then s.advanceHead.act .processHead
      else s.advanceHead).toQueue.Ok
    rw [h2]
    exact h3

/-- What one run of the queue makes of a book. -/
inductive Turn (now : ℕ) (s t : InferenceOrderBook) : Prop
  | idle : s.toQueue.list = [] → t = s → Turn now s t
  | shed (e : QueueEntry) (rest : List QueueEntry) (v : InferenceOrderBook) :
      s.toQueue.list = e :: rest → e.entryType ≠ .place → e.Fresh → Shed s.nextOrderId s v →
      Requeued v t → t.toQueue.list = rest ∨ t.toQueue.list = e :: rest → Turn now s t
  | placed (e : QueueEntry) (rest : List QueueEntry)
      (r : InferenceOrderBook × Option QueueEntry) :
      s.toQueue.list = e :: rest → e.entryType = .place → Runnable s e → Placed now s e r →
      Handled s r → Requeued r.1 t → t.toQueue.list = r.2.toList ++ rest → Turn now s t

theorem Phase.runnable (h : Phase s) (hl : s.toQueue.list = e :: rest) :
    Runnable s e ∧ ∀ x ∈ rest, x.Fresh := by
  cases h with
  | quiet hs hq =>
    rw [hl] at hq
    exact ⟨.first (hq e List.mem_cons_self) hs, fun x hx => hq x (List.mem_cons_of_mem e hx)⟩
  | underway e' rest' hl' he hr hs =>
    obtain ⟨rfl, rfl⟩ := List.cons.inj (hl'.symm.trans hl)
    exact ⟨.again he hs, hr⟩

theorem Runnable.kind (h : Runnable s e) : e.entryType ≠ .none := by
  cases h with
  | first he => exact he.kind
  | again he =>
    rw [he.kind]
    simp

theorem Runnable.fresh (h : Runnable s e) (hk : e.entryType ≠ .place) : e.Fresh := by
  cases h with
  | first he => exact he
  | again he => exact absurd he.kind hk

variable (now) in
theorem runHead_shed (h : s.toBook.Sound s.nextOrderId) (hk : e.entryType ≠ .place)
    (hn : e.entryType ≠ .none) : Shed s.nextOrderId s (s.runHead now e).1 := by
  unfold runHead
  cases he : e.entryType with
  | none => exact absurd he hn
  | place => exact absurd he hk
  | cancel => exact shed_doCancel h _ _
  | cancelAll => exact shed_cancelAllWalk _ _ _ h
  | expire => exact shed_doExpire h _ _

/-- The storage after the run of a PLACE entry. -/
def rewriteHead (r : InferenceOrderBook × Option QueueEntry) : InferenceOrderBook × Bool :=
  match r with
  | (s, none) => (s, false)
  | (s, some e) => ({ s with queue := Function.update s.queue s.queueHead e }, true)

theorem runHead_place (hk : e.entryType = .place) :
    s.runHead now e = rewriteHead (s.doPlaceHead now e) := by
  unfold runHead
  rw [hk]
  rfl

theorem rewriteHead_spec (hq : r.1.toQueue.Ok) (hs : r.1.queueSize ≠ 0)
    (hl : r.1.toQueue.list = e :: rest) :
    Requeued r.1 (afterHead (rewriteHead r)) ∧ (afterHead (rewriteHead r)).toQueue.Ok ∧
      (afterHead (rewriteHead r)).toQueue.list = r.2.toList ++ rest := by
  obtain ⟨v, x⟩ := r
  cases x with
  | none =>
    obtain ⟨h1, h2, h3⟩ := afterHead_spec hq hs false
    refine ⟨h1, h2, h3.trans ?_⟩
    exact congrArg List.tail hl
  | some e' =>
    obtain ⟨h1, h2⟩ := setHead_list hq hs e'
    obtain ⟨h3, h4, h5⟩ := afterHead_spec h1 hs true
    refine ⟨⟨h3.book, h3.nextOrderId, h3.clock, h3.fills, h3.dust, h3.actions⟩, h4,
      h5.trans (h2.trans ?_)⟩
    exact congrArg (fun l => e' :: List.tail l) hl

theorem Ready.turn (h : Ready s) (now : ℕ) :
    (s.processHeadCore now).toQueue.Ok ∧ Turn now s (s.processHeadCore now) := by
  by_cases hs : s.queueSize = 0
  · have ht : s.processHeadCore now = s := if_pos hs
    rw [ht]
    exact ⟨h.queue, .idle (s.toQueue.list_eq_nil_iff.mpr hs) rfl⟩
  · have hl := h.queue.list_cons hs
    rw [processHeadCore_eq hs]
    generalize s.queue s.queueHead = e at hl ⊢
    obtain ⟨he, hr⟩ := h.phase.runnable hl
    by_cases hk : e.entryType = .place
    · have hp := doPlaceHead_placed now s e
      have hh := hp.handled he hk h.ids h.clean
      rw [runHead_place hk]
      generalize s.doPlaceHead now e = r at hp hh ⊢
      have hqr : r.1.toQueue.Ok ∧ r.1.queueSize ≠ 0 ∧ r.1.toQueue.list = s.toQueue.list := by
        rw [hh.queue]
        exact ⟨h.queue, hs, rfl⟩
      obtain ⟨h1, h2, h3⟩ := rewriteHead_spec hqr.1 hqr.2.1 (hqr.2.2.trans hl)
      exact ⟨h2, .placed e _ r hl hk he hp hh h1 h3⟩
    · have hd := runHead_shed now he.sound hk he.kind
      generalize s.runHead now e = r at hd ⊢
      have hqr : r.1.toQueue.Ok ∧ r.1.queueSize ≠ 0 ∧ r.1.toQueue.list = s.toQueue.list := by
        rw [hd.quiet.queue]
        exact ⟨h.queue, hs, rfl⟩
      obtain ⟨h1, h2, h3⟩ := afterHead_spec hqr.1 hqr.2.1 r.2
      refine ⟨h2, .shed e _ r.1 hl hk (he.fresh hk) hd h1 ?_⟩
      rw [h3, hqr.2.2]
      split_ifs
      · exact .inr hl
      · exact .inl rfl

theorem Turn.ready (h : Ready s) (ht : Turn now s t) (hq : t.toQueue.Ok) : Ready t := by
  cases ht with
  | idle _ h0 => exact h0 ▸ h
  | shed e rest v hl hk he hd hv hl' =>
    have hsound : t.toBook.Sound t.nextOrderId := by
      rw [hv.book, hv.nextOrderId, hd.quiet.nextOrderId]
      exact hd.sound
    have hrest := (h.phase.runnable hl).2
    refine ⟨hq, ?_, hv.clean (h.clean.quiet hd.quiet), .quiet hsound ?_⟩
    · rw [hv.nextOrderId, hd.quiet.nextOrderId]
      exact h.ids
    · rcases hl' with hl' | hl'
      · rw [hl']
        exact hrest
      · rw [hl']
        intro x hx
        rcases List.mem_cons.mp hx with rfl | hx
        · exact he
        · exact hrest x hx
  | placed e rest r hl hk he hp hh hv hl' =>
    have hrest := (h.phase.runnable hl).2
    refine ⟨hq, ?_, hv.clean hh.clean, ?_⟩
    · rw [hv.nextOrderId]
      exact h.ids.trans_le hh.ids
    · cases hr : r.2 with
      | none =>
        rw [hr] at hl'
        refine .quiet ?_ ?_
        · rw [hv.book, hv.nextOrderId]
          exact hh.final hr
        · rw [hl']
          exact hrest
      | some e' =>
        rw [hr] at hl'
        obtain ⟨h1, h2⟩ := hh.goesOn e' hr
        refine .underway e' rest hl' ?_ hrest ?_
        · rw [hv.nextOrderId]
          exact h1
        · rw [hv.book]
          exact h2

end Turns

end Dexdo.InferenceOrderBook
