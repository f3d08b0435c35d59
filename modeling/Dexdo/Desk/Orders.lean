import Dexdo.Desk.Line
import Dexdo.OrderBook.Drain

namespace Dexdo

open Mirror OrderBook

namespace PrivateNote

variable {s t : PrivateNote} {d : ℕ} {m : MarketId} {b : OrderBook} {rs : List Request}
  {xs : List Reply}

theorem Aside.line (h : s.Aside t) (hl : Line d s.ties m b rs xs) : Line d t.ties m b rs xs := by
  refine hl.mono (congrArg (fun c => Mapping.read c m) h.openOrdersByEvent) (fun k => ?_)
    fun n hn => ⟨hn.1, hn.2.1.trans h.opNonce.ge, fun m' hm' hn' => ?_⟩
  · rcases h.latch with ⟨h1, h2, h3⟩ | ⟨h1, h2⟩
    · exact Ties.hold_congr h1 h2 h3 k
    · exact (if_neg (h2 m)).trans (if_neg (h1 m)).symm
  · rcases h.latch with ⟨h1, h2, -⟩ | ⟨-, h2⟩
    · exact hn.2.2 m' (h1.symm.trans hm') (hn'.trans h2)
    · exact absurd hm' (h2 m')

theorem Sends.line {q : Request} (h : s.Sends t m q) (hd : s.depositIdentifierHash = d)
    {m' : MarketId} (hl : Line d s.ties m' b rs xs) :
    Line d t.ties m' b (rs ++ if m = m' then [q] else []) xs := by
  obtain ⟨c, hc, hone⟩ := h.ties
  rw [hc]
  split_ifs with hm
  · subst hm
    exact hl.send h.before (h.owner.trans hd) h.opNonce hone
  · rw [List.append_nil]
    refine hl.mono rfl (fun k => ?_) fun n hn => ⟨hn.1, hn.2.1.trans (Nat.le_succ _), ?_⟩
    · refine (if_neg fun hb => ?_).trans (if_neg ?_).symm
      · have hb : some (Addr.orderBook m) = some (.orderBook m') := hb
        exact hm (by simpa using hb)
      · rw [show s.ties.busy = none from h.before]
        simp
    · intro j _ hn'
      have h1 : n ≤ s.ties.opNonce := hn.2.1
      have h2 : n = s.ties.opNonce + 1 := hn'
      omega

end PrivateNote

namespace Desk

/-- The book of market `m`; where none has been deployed, an empty one. -/
def bookOf (D : Desk) (m : MarketId) : OrderBook := (D.book m).getD (.init m 0 0)

/-- The note of deposit `d` is in step with every order book. -/
structure Sound (d : ℕ) (D : Desk) : Prop where
  owner : D.note.depositIdentifierHash = d
  totals : D.note.ties.Totals
  line : ∀ m, Line d D.note.ties m (D.bookOf m) (D.requests m) (D.replies m)

variable {d : ℕ} {D E : Desk} {m : MarketId}

theorem bookOf_eq {s : OrderBook} (h : D.book m = some s) : D.bookOf m = s := by
  rw [bookOf, h]
  rfl

theorem Sound.update {b : MarketId → Option OrderBook} {rs : MarketId → List Request}
    {xs : MarketId → List Reply} (h : D.Sound d) (hb : ∀ m', m' ≠ m → b m' = D.book m')
    (hr : ∀ m', m' ≠ m → rs m' = D.requests m') (hx : ∀ m', m' ≠ m → xs m' = D.replies m')
    (hl : Line d D.note.ties m ((b m).getD (.init m 0 0)) (rs m) (xs m)) :
    Sound d ⟨D.note, b, rs, xs⟩ where
  owner := h.owner
  totals := h.totals
  line m' := by
    by_cases hm : m' = m
    · rw [hm]
      exact hl
    · have hm' := h.line m'
      rw [← hr m' hm, ← hx m' hm, bookOf, ← hb m' hm] at hm'
      exact hm'

theorem Sound.ran (h : D.Sound d) {rs : MarketId → List Request} {t : OrderBook}
    (hr : ∀ m', m' ≠ m → rs m' = D.requests m')
    (hl : Line d D.note.ties m t (rs m) (D.replies m ++ repliesTo d t.outs)) :
    Sound d ({ D with requests := rs }.ran m t) := by
  refine h.update (m := m) (fun m' hm => Function.update_of_ne hm _ _) hr
    (fun m' hm => Function.update_of_ne hm _ _) ?_
  rw [Function.update_self, Function.update_self, h.owner]
  exact hl

theorem Sound.deliver {now : ℕ} (h : D.Sound d) (hD : D.step (.deliver m now) = some E) :
    E.Sound d := by
  cases hq : D.requests m with
  | nil => exact absurd hD (by simp [Desk.step, hq])
  | cons =>
    simp only [Desk.step, hq] at hD
    obtain ⟨s, hs, hD⟩ := of_bind hD
    obtain ⟨t, ht, hD⟩ := of_bind hD
    cases hD
    refine h.ran (fun m' hm => Function.update_of_ne hm _ _) ?_
    rw [Function.update_self]
    have hl := h.line m
    rw [hq, bookOf_eq hs] at hl
    rw [h.owner] at ht
    exact hl.deliver ht

theorem Sound.book {c : Call} (h : D.Sound d) (hD : D.step (.book m c) = some E) :
    E.Sound d := by
  obtain ⟨_, hc, hD⟩ := of_bind hD
  obtain ⟨s, hs, hD⟩ := of_bind hD
  obtain ⟨t, ht, hD⟩ := of_bind hD
  cases hD
  refine h.ran (fun _ _ => rfl) ?_
  have hl := h.line m
  rw [bookOf_eq hs] at hl
  exact hl.others ht (h.owner ▸ of_guard hc)

theorem Sound.deploy {x n : ℕ} (h : D.Sound d) (hD : D.step (.deploy m x n) = some E) :
    E.Sound d := by
  obtain ⟨_, hg, hD⟩ := of_bind hD
  cases hD
  refine h.update (m := m) (fun m' hm => Function.update_of_ne hm _ _) (fun _ _ => rfl)
    (fun _ _ => rfl) ?_
  rw [Function.update_self]
  have hgone : (D.bookOf m).items = 0 ∧ (D.bookOf m).toQueue.list = [] := by
    have hl := h.line m
    have hg := of_guard hg
    unfold bookOf at hl ⊢
    cases hs : D.book m with
    | none => exact ⟨init_items _ _ _, rfl⟩
    | some s =>
      rw [hs] at hg hl
      have hd : s.destroyed = true := hg
      have hok : s.Ok := hl.ok
      exact ⟨hok.destroyed_items hd, s.toQueue.list_eq_nil_iff.mpr (hok.destroyed_empty hd).1⟩
  exact (h.line m).deploy hgone.1 hgone.2 m x n

theorem Sound.bounce (h : D.Sound d) (hD : D.step (.bounce m) = some E) : E.Sound d := by
  cases hq : D.requests m with
  | nil => exact absurd hD (by simp [Desk.step, hq])
  | cons =>
    simp only [Desk.step, hq] at hD
    cases hD
    refine h.update (m := m) (fun _ _ => rfl) (fun m' hm => Function.update_of_ne hm _ _)
      (fun m' hm => Function.update_of_ne hm _ _) ?_
    rw [Function.update_self, Function.update_self]
    have hl := h.line m
    rw [hq] at hl
    exact hl.bounce

theorem requests_told (D : Desk) (t : PrivateNote) (m : MarketId) :
    (D.told t).requests m = D.requests m ++ (t.ties.requests.filter fun x => x.1 = m).map Prod.snd :=
  rfl

theorem Caller.isBook_false {c : Caller} (h : c.isBook = false) (m : MarketId) :
    c.isSender (.orderBook m) = false := by
  cases c with
  | external => rfl
  | internal =>
    refine decide_eq_false fun ha => ?_
    rw [ha] at h
    exact Bool.noConfusion h

theorem line_begin {v : PrivateNote} {b : OrderBook} {rs : List Request} {xs : List Reply}
    (h : Line d v.ties m b rs xs) : Line d v.begin.ties m b rs xs :=
  h.mono rfl (fun _ => rfl) fun _ hn => hn

theorem Sound.note {i : PrivateNote.Input} (h : D.Sound d) (hD : D.step (.note i) = some E) :
    E.Sound d := by
  obtain ⟨_, hc, hD⟩ := of_bind hD
  obtain ⟨t, ht, hD⟩ := of_bind hD
  cases hD
  have hc := Caller.isBook_false (of_guard hc)
  rcases PrivateNote.exec_ties hc i.call t ht with ha | ⟨m, q, hs⟩
  · refine ⟨ha.owner.trans h.owner, ?_, fun m' => ?_⟩
    · change t.openOrderCount = t.openOrdersByEvent.total id
      rw [ha.openOrderCount, ha.openOrdersByEvent]
      exact h.totals
    · have hl := ha.line (line_begin (h.line m'))
      rw [requests_told, ha.requests]
      exact (List.append_nil (D.requests m')).symm ▸ hl
  · obtain ⟨c, hc, -⟩ := hs.ties
    refine ⟨(congrArg Ties.owner hc).trans h.owner, ?_, fun m' => ?_⟩
    · rw [show (D.told t).note.ties = _ from hc]
      exact h.totals
    · have hl := hs.line h.owner (line_begin (h.line m'))
      have hr : t.ties.requests = [(m, q)] := congrArg Ties.requests hc
      rw [requests_told, hr]
      refine Eq.subst (motive := fun rs => Line d t.ties m' (D.bookOf m') (D.requests m' ++ rs)
        (D.replies m')) ?_ hl
      by_cases hm : m = m' <;> simp [hm]

theorem Sound.heard {t : PrivateNote} {xs : List Reply}
    (ho : t.depositIdentifierHash = d) (hT : t.ties.Totals) (hr : t.ties.requests = [])
    (hl : Line d t.ties m (D.bookOf m) (D.requests m) xs)
    (hne : ∀ m', m' ≠ m → Line d t.ties m' (D.bookOf m') (D.requests m') (D.replies m')) :
    Sound d ({ D with replies := Function.update D.replies m xs }.told t) where
  owner := ho
  totals := hT
  line m' := by
    rw [requests_told, hr, List.filter_nil, List.map_nil, List.append_nil]
    change Line d t.ties m' (D.bookOf m') (D.requests m') (Function.update D.replies m xs m')
    by_cases hm : m' = m
    · rw [hm, Function.update_self]
      exact hl
    · rw [Function.update_of_ne hm]
      exact hne m' hm

theorem Sound.reply {now : ℕ} {cur : ℕ → ℕ} (h : D.Sound d)
    (hD : D.step (.reply m now cur) = some E) : E.Sound d := by
  cases hx : D.replies m with
  | nil => exact absurd hD (by simp [Desk.step, hx])
  | cons x =>
    simp only [Desk.step, hx] at hD
    obtain ⟨t, ht, hD⟩ := of_bind hD
    cases hD
    have hl := line_begin (h.line m)
    rw [hx] at hl
    cases x with
    | callback cb =>
      have ht := PrivateNote.fromOrderBook_ties cb t ht
      obtain ⟨hcount, hnames, hl⟩ := hl.heard
      obtain ⟨hreq, hown⟩ := Ties.hear_sends D.note.begin.ties m cb.notice
      rw [← ht] at hcount hl hreq hown
      refine Sound.heard (hown.trans h.owner) (hcount.totals h.totals) hreq hl fun m' hm => ?_
      refine (line_begin (h.line m')).mono (hcount.elsewhere m' hm) (fun k => ?_) fun n hn => ?_
      · rw [ht]
        exact Ties.hear_hold_of_ne hnames hm k
      · rw [ht]
        exact Ties.hear_issued hn
    | bounce =>
      have hb : D.note.begin.busy = some (.orderBook m) := hl.bounced_busy
      obtain ⟨hs, hfree⟩ := PrivateNote.bounced_ties hb t ht
      have hl := hl.returned (w := t.ties) hfree hs.opNonce hs.openOrdersByEvent
      refine Sound.heard (hs.owner.trans h.owner) ?_ hs.requests hl fun m' hm => ?_
      · change t.openOrderCount = t.openOrdersByEvent.total id
        rw [hs.openOrderCount, hs.openOrdersByEvent]
        exact h.totals
      · refine (line_begin (h.line m')).mono
          (congrArg (fun c => Mapping.read c m') hs.openOrdersByEvent) (fun k => ?_) fun n hn => ?_
        · refine (if_neg fun hb' => ?_).trans (if_neg fun hb' => ?_).symm
          · exact absurd (hfree.symm.trans hb') (by simp)
          · exact hm (by simpa using (hb'.symm.trans hb))
        · exact ⟨hn.1, hn.2.1.trans hs.opNonce.ge,
            fun j hj => absurd (hfree.symm.trans hj) (by simp)⟩

theorem Sound.step {i : Event} (h : D.Sound d) (hD : D.step i = some E) : E.Sound d := by
  cases i with
  | note => exact h.note hD
  | deliver => exact h.deliver hD
  | bounce => exact h.bounce hD
  | reply => exact h.reply hD
  | book => exact h.book hD
  | deploy => exact h.deploy hD

theorem start_sound (d x k t c g : ℕ) : (start d x k t c g).Sound d where
  owner := rfl
  totals := rfl
  line m := .fresh rfl rfl m 0 0

variable {x k t c g : ℕ} {tr : List (Event × Desk)}

theorem run_sound (h : Run step (start d x k t c g) tr D) : D.Sound d :=
  h.state_invariant (Sound d) (start_sound d x k t c g) fun _ _ _ hD hE => hD.step hE

def sampleStart : Desk := start 7 (10 ^ 13) 21 CURRENCIES_ID_USDC 0 0

def byOwner (call : OwnerCall) : Event := .note ⟨⟨.external 21, 0, fun _ => 0⟩, .owner call⟩

/-- The note places a buy order, and cancels it once the book has placed it. -/
def sampleEvents : List Event :=
  [.deploy sampleMarket 100 2,
   byOwner (.placeOrder sampleMarket ⟨0, true, 0, 5000, 4000000, 0, 0, 9⟩),
   .deliver sampleMarket 1, .reply sampleMarket 2 fun _ => 0, .reply sampleMarket 2 fun _ => 0,
   byOwner (.cancelOrder sampleMarket 1),
   .deliver sampleMarket 3, .reply sampleMarket 4 fun _ => 0, .reply sampleMarket 4 fun _ => 0]

/-- The desk after the first `n` sample events. -/
def sampleAfter (n : ℕ) : Desk :=
  Run.last sampleStart (Run.trace Desk.step sampleStart (sampleEvents.take n))

theorem sampleAfter_run (n : ℕ) :
    Run Desk.step sampleStart (Run.trace Desk.step sampleStart (sampleEvents.take n))
      (sampleAfter n) := Run.trace_run _ _ _

/-- The counts of open orders are exact: with what is on its way from a book, the count of its
market comes to the number of orders of the note placed in the book and not closed, never below
zero on the way, and the count over all markets is their sum. -/
theorem open_orders_exact (h : Run step (start d x k t c g) tr D) :
    D.note.openOrderCount = D.note.openOrdersByEvent.total id ∧
      ∀ m, (D.replies m).foldlM Reply.tally (D.note.openOrdersByEvent.read m) =
        some (lives d (D.bookOf m).items) := by
  refine ⟨(run_sound h).totals, fun m => ?_⟩
  obtain ⟨n, hn, rfl⟩ := ((run_sound h).line m).counts
  exact hn

theorem placed_order_exact : (sampleAfter 3).note.openOrderCount = 0 ∧
    ((sampleAfter 3).replies sampleMarket).foldlM Reply.tally
      ((sampleAfter 3).note.openOrdersByEvent.read sampleMarket) =
        some (lives 7 ((sampleAfter 3).bookOf sampleMarket).items) :=
  ⟨by decide +kernel, (open_orders_exact (sampleAfter_run 3)).2 sampleMarket⟩

/-- The latch of an order book is held as long as its operation is on its way to the book, in the
queue of the book, or about to be ended by a reply; a book that does not hold it owes the note no
answer, and the note has no message on its way there. -/
theorem latch_sound (h : Run step (start d x k t c g) tr D) (m : MarketId) :
    (D.note.busy = some (.orderBook m) →
      (∃ q, D.requests m = [q] ∧ q.opNonce = D.note.busyOpNonce) ∨
      (∃ e ∈ (D.bookOf m).toQueue.list,
        e.depositHash = d ∧ e.opNonce = D.note.busyOpNonce) ∨
      ∃ y ∈ D.replies m, y.Releases D.note.busyOpNonce D.note.pendingBatchActive) ∧
    (D.note.busy ≠ some (.orderBook m) → D.requests m = [] ∧
      (∀ y ∈ D.replies m, ∃ cb, y = .callback cb ∧ cb.notice.answers = 0) ∧
      ∀ y ∈ (D.bookOf m).items, y.owner = d → y.orderId ≠ 0) :=
  ⟨((run_sound h).line m).awaited, ((run_sound h).line m).unawaited⟩

theorem sent_order_latched :
    (∃ q, (sampleAfter 2).requests sampleMarket = [q] ∧
      q.opNonce = (sampleAfter 2).note.busyOpNonce) ∨
    (∃ e ∈ ((sampleAfter 2).bookOf sampleMarket).toQueue.list,
      e.depositHash = 7 ∧ e.opNonce = (sampleAfter 2).note.busyOpNonce) ∨
    ∃ y ∈ (sampleAfter 2).replies sampleMarket, y.Releases (sampleAfter 2).note.busyOpNonce
      (sampleAfter 2).note.pendingBatchActive :=
  (latch_sound (sampleAfter_run 2) sampleMarket).1 (by decide +kernel)

/-- A reply that answers orders finds the operation it answers, and a reply from a book that does
not hold the latch leaves the operation in flight on another book alone. -/
theorem replies_fit (h : Run step (start d x k t c g) tr D) {now : ℕ} {cur : ℕ → ℕ}
    (hE : D.step (.reply m now cur) = some E) :
    (∀ cb xs, D.replies m = .callback cb :: xs → cb.notice.answers ≠ 0 →
      D.note.busy = some (.orderBook m) ∧ cb.notice.opNonce? = some D.note.busyOpNonce) ∧
    ∀ m', m' ≠ m → D.note.busy = some (.orderBook m') → E.note.busy = D.note.busy ∧
      E.note.busyOpNonce = D.note.busyOpNonce ∧
      E.note.pendingBatchActive = D.note.pendingBatchActive := by
  refine ⟨fun cb xs hx ha => ?_, fun m' hm hb => ?_⟩
  · have hl := (run_sound h).line m
    rw [hx] at hl
    exact hl.answer_fits ha
  · have hne : D.note.busy ≠ some (.orderBook m) := by
      rw [hb]
      simpa using hm
    have hl := line_begin ((run_sound h).line m)
    cases hx : D.replies m with
    | nil => exact absurd hE (by simp [Desk.step, hx])
    | cons y =>
      rw [hx] at hl
      simp only [Desk.step, hx] at hE
      obtain ⟨u, hu, hE⟩ := of_bind hE
      cases hE
      cases y with
      | bounce => exact absurd hl.bounced_busy hne
      | callback cb =>
        have hu := PrivateNote.fromOrderBook_ties cb u hu
        have hhold := Ties.hear_hold_of_ne hl.heard.2.1 hm 0
        rw [← hu, Ties.hold_held (v := D.note.begin.ties) hb] at hhold
        rcases (Ties.hear_latch D.note.begin.ties m cb.notice).2 with ⟨h1, h2⟩ | ⟨h1, -⟩
        · rw [← hu] at h1 h2
          rw [Ties.hold_held (h1.trans hb)] at hhold
          exact ⟨h1, h2, congrArg Hold.batch (Option.some.inj hhold)⟩
        · exact absurd h1 hne

theorem placed_reply : ((sampleAfter 3).step (.reply sampleMarket 2 fun _ => 0)).isSome = true := by
  decide +kernel

/-- What the book answers to the buy order. -/
def placedReply : Callback := .onOrderPlaced 1 900 2000900 9 0 true 0 5000 4000000 1

theorem placed_reply_fits : (sampleAfter 3).note.busy = some (.orderBook sampleMarket) ∧
    placedReply.notice.opNonce? = some (sampleAfter 3).note.busyOpNonce :=
  have hx : (sampleAfter 3).replies sampleMarket =
      .callback placedReply :: [.callback (.onBatchComplete 1)] := rfl
  (replies_fit (sampleAfter_run 3) (Option.some_get placed_reply).symm).1 placedReply _ hx
    Nat.one_ne_zero

end Desk

/-- Calls of the owner that demand that no order of the note is open on market `m`. -/
def OwnerCall.leaves (m : MarketId) : OwnerCall → Bool
  | withdrawTokens .. | initTransfer .. => true
  | deleteStake m' | cancelStake m' | claim m' => m' = m
  | _ => false

namespace PrivateNote

variable {s t : PrivateNote} {e : NoteEnv} {c : OwnerCall} {m : MarketId}

theorem leaves_free (hc : c.leaves m = true) :
    Ensures (s.execOwner e c) fun _ => s.busy = none ∧
      (s.openOrderCount = 0 ∨ s.openOrdersByEvent.read m = 0) := by
  have hopen (h : s.nothingOpen = true) : s.openOrderCount = 0 := by
    simp only [nothingOpen, Bool.and_eq_true, decide_eq_true_eq] at h
    exact h.1.1.1.2
  cases c with
  | withdrawTokens =>
    exact .check fun _ => .check fun hb => .check fun _ => .check fun _ => .check fun h _ _ =>
      ⟨Option.isNone_iff_eq_none.mp hb, .inl (hopen h)⟩
  | initTransfer =>
    exact .check fun _ => .check fun hb => .check fun _ => .check fun _ => .check fun _ =>
      .check fun _ => .check fun _ => .check fun h _ _ =>
        ⟨Option.isNone_iff_eq_none.mp hb, .inl (hopen h)⟩
  | deleteStake m' =>
    obtain rfl : m' = m := of_decide_eq_true hc
    exact .check fun hb => .check fun _ => .check fun h _ _ =>
      ⟨Option.isNone_iff_eq_none.mp hb, .inr h⟩
  | cancelStake m' =>
    obtain rfl : m' = m := of_decide_eq_true hc
    exact .check fun _ => .check fun hb => .check fun _ => .check fun h _ _ =>
      ⟨Option.isNone_iff_eq_none.mp hb, .inr h⟩
  | claim m' =>
    obtain rfl : m' = m := of_decide_eq_true hc
    exact .check fun _ => .check fun _ => .check fun hb => .check fun _ => .check fun h _ _ =>
      ⟨Option.isNone_iff_eq_none.mp hb, .inr h⟩
  | _ => exact Bool.noConfusion hc

end PrivateNote

namespace Desk

variable {d x k t c g : ℕ} {D : Desk} {tr : List (Event × Desk)}

/-- When the owner withdraws, starts a transfer, or claims, cancels or deletes a stake, the note has
no message on its way to the books concerned, no order in them, and no callback on its way back but
acknowledgements. -/
theorem leaves_nothing (h : Run step (start d x k t c g) tr D) {e : NoteEnv} {call : OwnerCall}
    {m : MarketId} (hm : call.leaves m = true)
    (hc : (D.note.step ⟨e, .owner call⟩).isSome = true) : D.requests m = [] ∧
      (∀ y ∈ D.replies m, ∃ n, y = .callback (.onBatchComplete n)) ∧
      ∀ y ∈ (D.bookOf m).items, y.owner ≠ d := by
  obtain ⟨u, hu⟩ := Option.isSome_iff_exists.mp hc
  replace hu := of_pass hu
  obtain ⟨hb, h0⟩ := PrivateNote.leaves_free hm u hu
  have hs := run_sound h
  refine (hs.line m).settled hb ?_
  rcases h0 with h0 | h0
  · have hle := D.note.openOrdersByEvent.le_total (f := id) rfl m
    have hT : D.note.openOrderCount = D.note.openOrdersByEvent.total id := hs.totals
    have h0 : D.note.openOrderCount = 0 := h0
    exact Nat.le_zero.mp (hle.trans_eq (hT.symm.trans h0))
  · exact h0

theorem cancelled_order_withdraws : (sampleAfter 9).requests sampleMarket = [] ∧
    (∀ y ∈ (sampleAfter 9).replies sampleMarket, ∃ n, y = .callback (.onBatchComplete n)) ∧
    ∀ y ∈ ((sampleAfter 9).bookOf sampleMarket).items, y.owner ≠ 7 :=
  have hm : (OwnerCall.withdrawTokens (.ext 1) 0).leaves sampleMarket = true := rfl
  have hc : ((sampleAfter 9).note.step ⟨⟨.external 21, 5, fun _ => 0⟩,
      .owner (.withdrawTokens (.ext 1) 0)⟩).isSome = true := by decide +kernel
  leaves_nothing (sampleAfter_run 9) hm hc

end Desk

end Dexdo
