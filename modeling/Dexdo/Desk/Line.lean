import Dexdo.Desk.System

namespace Dexdo

open Mirror OrderBook

namespace Request

/-- Orders in the message. -/
def orderCount : Request → ℕ
  | executeBatch _ orders _ _ => orders.length
  | cancelAllOrders .. => 0

theorem call_accepted (q : Request) (a : Addr) (now : ℕ) :
    (q.call a now).accepted? = some (q.depositIdentifierHash, q.opNonce) := by
  cases q <;> rfl

theorem call_submittedCount (q : Request) (a : Addr) (now : ℕ) :
    (q.call a now).submittedCount = q.orderCount := by
  cases q <;> rfl

theorem call_entries (q : Request) (a : Addr) (now : ℕ) : (q.call a now).entries = q.entries := by
  cases q <;> rfl

end Request

namespace Reply

def tally (n : ℕ) : Reply → Option ℕ
  | callback cb => cb.notice.tally n
  | bounce => some n

/-- A message that bounced ends the operation that sent it. -/
def hear : Option Hold → Reply → Option (Option Hold)
  | x, callback cb => Hold.hear x cb.notice
  | some _, bounce => some none
  | none, bounce => none

/-- The reply ends operation `n`; a batch ends with its acknowledgement only. -/
def Releases (n : ℕ) (batch : Bool) : Reply → Prop
  | bounce => True
  | callback cb => cb.notice = .complete n ∨
      batch = false ∧ (cb.notice = .placed n ∨ cb.notice = .cancelled n)

/-- The operation a reply names is of kind `P`. -/
def Names (P : ℕ → Prop) (x : Reply) : Prop := ∀ cb, x = callback cb → OrderBook.Names P cb.notice

end Reply

namespace Hold

theorem hear_none {y : Option Hold} {n : Notice} (h : hear none n = some y) :
    y = none ∧ n.answers = 0 := by
  cases n with
  | placed => exact absurd h (by simp [hear])
  | rejected => exact absurd h (by simp [hear])
  | _ => exact ⟨(Option.some.inj h).symm, rfl⟩

theorem hear_some {a b : Hold} {n : Notice} (h : hear (some a) n = some (some b)) :
    b.opNonce = a.opNonce ∧ b.batch = a.batch := by
  have hb : b = a ∨ b = a.less := by
    cases n <;> simp only [hear] at h <;> grind
  rcases hb with rfl | rfl
  · exact ⟨rfl, rfl⟩
  · exact ⟨rfl, rfl⟩

end Hold

namespace Desk

theorem foldlM_repliesTo {σ : Type} (g : σ → Reply → Option σ) (f : σ → Notice → Option σ)
    (h : ∀ a cb, g a (.callback cb) = f a cb.notice) (d : ℕ) (os : List Out) (a : σ) :
    (repliesTo d os).foldlM g a = (noticesTo d os).foldlM f a := by
  unfold repliesTo noticesTo
  rw [List.foldlM_map, List.foldlM_map]
  simp only [h]

end Desk

section Book

variable {s t : OrderBook} {c : Call} {d : ℕ}

theorem lives_submitted (c : Call) (sub : ℕ) : lives d (c.submitted sub) = 0 := by
  have h (owner sub : ℕ) (ops : List PlaceParams) : lives d (submission owner sub ops) = 0 := by
    induction ops generalizing sub with
    | nil => rfl
    | cons p ops ih =>
      rw [submission, lives_cons, ih, if_neg fun h => h.2 rfl]
  cases c with
  | executeBatch _ _ owner orders _ _ => exact h owner sub orders
  | _ => rfl

theorem step_tallies (hs : s.Ok) (h : s.step c = some t) :
    (noticesTo d t.outs).foldlM Notice.tally (lives d s.items) = some (lives d t.items) := by
  have hp := (step_moves hs h).path.tallies (d := d)
  rwa [lives_add, lives_submitted, Nat.zero_add] at hp

theorem accepted_sender (h : s.step c = some t) {hh o : ℕ} (hc : c.accepted? = some (hh, o)) :
    c.sender? = some (.note hh) := by
  replace h := OrderBook.step_body h
  unfold OrderBook.body at h
  split_ifs at h
  cases c with
  | executeBatch =>
    cases hc
    replace h := of_pass (of_pass h)
    obtain ⟨_, hg, h⟩ := of_bind h
    exact congrArg some (of_guard hg)
  | cancelAllOrders =>
    cases hc
    replace h := of_pass (of_pass h)
    obtain ⟨_, hg, h⟩ := of_bind h
    exact congrArg some (of_guard hg)
  | _ => exact absurd hc (by simp [Call.accepted?])

end Book

namespace Ties

/-- The operation on market `m` that holds the latch, with `k` orders to be answered. -/
def hold (v : Ties) (m : MarketId) (k : ℕ) : Option Hold :=
  if v.busy = some (.orderBook m) then some ⟨v.busyOpNonce, v.pendingBatchActive, k⟩ else none

/-- Nonces of operations on market `m` so far. -/
def Issued (v : Ties) (m : MarketId) (n : ℕ) : Prop :=
  0 < n ∧ n ≤ v.opNonce ∧ ∀ m', v.busy = some (.orderBook m') → n = v.busyOpNonce → m' = m

end Ties

namespace Ties

section Hear

variable {v : Ties} {m m' : MarketId} {n : Notice}

theorem freeFrom_cases (v : Ties) (m : MarketId) :
    v.freeFrom m = v ∨ v.busy = some (.orderBook m) ∧ v.freeFrom m = v.freeOp := by
  unfold freeFrom
  split_ifs with h
  · exact .inr ⟨h, rfl⟩
  · exact .inl rfl

theorem answered_cases (v : Ties) (m : MarketId) (k : ℕ) :
    v.answered m k = v ∨ v.busy = some (.orderBook m) ∧ v.answered m k = v.freeOp := by
  unfold answered
  split_ifs
  · exact freeFrom_cases v m
  · exact .inl rfl

theorem hear_latch (v : Ties) (m : MarketId) (n : Notice) :
    (v.hear m n).opNonce = v.opNonce ∧
      (((v.hear m n).busy = v.busy ∧ (v.hear m n).busyOpNonce = v.busyOpNonce) ∨
        v.busy = some (.orderBook m) ∧ (v.hear m n).busy = none) := by
  cases n with
  | placed k =>
    rcases answered_cases (v.opened m) m k with h | ⟨hb, h⟩ <;> rw [hear, h]
    · exact ⟨rfl, .inl ⟨rfl, rfl⟩⟩
    · exact ⟨rfl, .inr ⟨hb, rfl⟩⟩
  | rejected => exact ⟨rfl, .inl ⟨rfl, rfl⟩⟩
  | cancelled k =>
    rcases answered_cases (v.closed m) m k with h | ⟨hb, h⟩ <;> rw [hear, h]
    · exact ⟨rfl, .inl ⟨rfl, rfl⟩⟩
    · exact ⟨rfl, .inr ⟨hb, rfl⟩⟩
  | filled b => cases b <;> exact ⟨rfl, .inl ⟨rfl, rfl⟩⟩
  | complete =>
    rw [hear]
    split_ifs with hk
    · rcases freeFrom_cases { v with pendingBatchActive := false } m with h | ⟨hb, h⟩ <;> rw [h]
      · exact ⟨rfl, .inl ⟨rfl, rfl⟩⟩
      · exact ⟨rfl, .inr ⟨hb, rfl⟩⟩
    · exact ⟨rfl, .inl ⟨rfl, rfl⟩⟩

theorem hear_sends (v : Ties) (m : MarketId) (n : Notice) :
    (v.hear m n).requests = v.requests ∧ (v.hear m n).owner = v.owner := by
  have hans (w : Ties) (k : ℕ) (hw : w.requests = v.requests ∧ w.owner = v.owner) :
      (w.answered m k).requests = v.requests ∧ (w.answered m k).owner = v.owner := by
    rcases answered_cases w m k with h | ⟨-, h⟩ <;> rw [h] <;> exact hw
  cases n with
  | placed k => exact hans (v.opened m) k ⟨rfl, rfl⟩
  | rejected => exact ⟨rfl, rfl⟩
  | cancelled k => exact hans (v.closed m) k ⟨rfl, rfl⟩
  | filled b => cases b <;> exact ⟨rfl, rfl⟩
  | complete =>
    rw [hear]
    split_ifs
    · rcases freeFrom_cases { v with pendingBatchActive := false } m with h | ⟨-, h⟩ <;> rw [h] <;>
        exact ⟨rfl, rfl⟩
    · exact ⟨rfl, rfl⟩

/-- The counts of the open orders, over all markets and by market, are in step. -/
def Totals (v : Ties) : Prop := v.openOrderCount = v.openOrdersByEvent.total id

/-- Market `m` has `k` open orders now, and no other count has changed. -/
structure Counted (v w : Ties) (m : MarketId) (k : ℕ) : Prop where
  here : w.openOrdersByEvent.read m = k
  elsewhere : ∀ m', m' ≠ m → w.openOrdersByEvent.read m' = v.openOrdersByEvent.read m'
  totals : v.Totals → w.Totals

theorem Counted.refl (v : Ties) (m : MarketId) : v.Counted v m (v.openOrdersByEvent.read m) :=
  ⟨rfl, fun _ _ => rfl, id⟩

theorem Counted.answered {w : Ties} {k : ℕ} (h : v.Counted w m k) (j : ℕ) :
    v.Counted (w.answered m j) m k := by
  rcases answered_cases w m j with hw | ⟨-, hw⟩ <;> rw [hw]
  · exact h
  · exact ⟨h.here, h.elsewhere, h.totals⟩

theorem opened_counted (v : Ties) (m : MarketId) :
    v.Counted (v.opened m) m (v.openOrdersByEvent.read m + 1) where
  here := Mapping.read_insert_self _ _ _
  elsewhere m' hm := Mapping.read_insert_of_ne _ _ hm
  totals hT := by
    have hi := Mapping.total_insert (f := id) rfl v.openOrdersByEvent m
      (v.openOrdersByEvent.read m + 1)
    have hT : v.openOrderCount = v.openOrdersByEvent.total id := hT
    change v.openOrderCount + 1 = Mapping.total (AList.insert _ _ _) id
    simp only [id_eq] at hi
    omega

theorem closed_counted (h : 0 < v.openOrdersByEvent.read m) :
    v.Counted (v.closed m) m (v.openOrdersByEvent.read m - 1) := by
  have hw : (v.closed m).openOrdersByEvent =
      AList.insert m (v.openOrdersByEvent.read m - 1) v.openOrdersByEvent := if_pos h
  refine ⟨?_, fun m' hm => ?_, fun hT => ?_⟩
  · rw [hw, Mapping.read_insert_self]
  · rw [hw, Mapping.read_insert_of_ne _ _ hm]
  · have hi := Mapping.total_insert (f := id) rfl v.openOrdersByEvent m
      (v.openOrdersByEvent.read m - 1)
    have hT : v.openOrderCount = v.openOrdersByEvent.total id := hT
    rw [Totals, hw]
    change v.openOrderCount - 1 = _
    simp only [id_eq] at hi
    omega

theorem hear_counted {k : ℕ} (h : n.tally (v.openOrdersByEvent.read m) = some k) :
    v.Counted (v.hear m n) m k := by
  cases n with
  | placed j =>
    cases h
    exact (opened_counted v m).answered j
  | rejected =>
    cases h
    exact .refl v m
  | cancelled j =>
    rcases ite_eq_iff.mp h with ⟨h0, h⟩ | ⟨-, h⟩
    · cases h
      exact (closed_counted h0).answered j
    · exact absurd h (by simp)
  | filled b =>
    rcases ite_eq_iff.mp h with ⟨h0, h⟩ | ⟨-, h⟩
    · cases h
      cases b with
      | true => exact closed_counted h0
      | false => exact .refl v m
    · exact absurd h (by simp)
  | complete =>
    rw [← Option.some.inj h, hear]
    split_ifs
    · rcases freeFrom_cases { v with pendingBatchActive := false } m with hw | ⟨-, hw⟩ <;>
        rw [hw] <;> exact ⟨rfl, fun _ _ => rfl, id⟩
    · exact .refl v m

theorem hold_congr {w : Ties} (h1 : w.busy = v.busy) (h2 : w.busyOpNonce = v.busyOpNonce)
    (h3 : w.pendingBatchActive = v.pendingBatchActive) (k : ℕ) : w.hold m k = v.hold m k := by
  simp only [hold, h1, h2, h3]

theorem hold_freeOp (v : Ties) (m : MarketId) (k : ℕ) : v.freeOp.hold m k = none :=
  if_neg fun h => absurd h (by simp [freeOp])

theorem hold_held (h : v.busy = some (.orderBook m)) (k : ℕ) :
    v.hold m k = some ⟨v.busyOpNonce, v.pendingBatchActive, k⟩ := if_pos h

/-- The latch of the note follows the notices as the book sees it. -/
theorem hear_hold {k : ℕ} {x : Option Hold} (h : Hold.hear (v.hold m k) n = some x) :
    ∃ k', (v.hear m n).hold m k' = x := by
  by_cases hb : v.busy = some (.orderBook m)
  · have hfree (w : Ties) (hw : w.busy = v.busy) : w.freeFrom m = w.freeOp :=
      if_pos (hw.trans hb)
    rw [hold_held hb] at h
    cases n with
    | placed j =>
      simp only [Hold.hear] at h
      split_ifs at h with h1 h2 h3
      · refine ⟨k - 1, ?_⟩
        have hkeep : v.hear m (.placed j) = v.opened m := if_neg (by simp [opened, h2])
        rw [hkeep, ← Option.some.inj h]
        exact hold_held (v := v.opened m) hb _
      · have hj : j = v.busyOpNonce := by
          by_contra hne
          exact h1 (.inl hne)
        have hend : v.hear m (.placed j) = (v.opened m).freeOp :=
          (if_pos ⟨by simpa [opened] using h2, hj⟩).trans (hfree _ rfl)
        rw [hend, ← Option.some.inj h]
        exact ⟨0, hold_freeOp _ _ _⟩
    | rejected =>
      simp only [Hold.hear] at h
      split_ifs at h
      cases h
      exact ⟨k - 1, hold_held hb _⟩
    | cancelled j =>
      simp only [Hold.hear] at h
      split_ifs at h with h1 h2
      · have hend : v.hear m (.cancelled j) = (v.closed m).freeOp :=
          (if_pos ⟨h1.2, h1.1⟩).trans (hfree _ rfl)
        rw [hend, ← Option.some.inj h]
        exact ⟨0, hold_freeOp _ _ _⟩
      · have hkeep : v.hear m (.cancelled j) = v.closed m := if_neg fun hc => h1 ⟨hc.2, hc.1⟩
        rw [hkeep, ← Option.some.inj h]
        exact ⟨k, hold_held (v := v.closed m) hb _⟩
    | filled b =>
      cases h
      cases b with
      | true => exact ⟨k, hold_held (v := v.closed m) hb _⟩
      | false => exact ⟨k, hold_held hb _⟩
    | complete j =>
      simp only [Hold.hear] at h
      split_ifs at h with h1 h2
      · have hend : v.hear m (.complete j) = { v with pendingBatchActive := false }.freeOp :=
          (if_pos h1).trans (hfree _ rfl)
        rw [hend, ← Option.some.inj h]
        exact ⟨0, hold_freeOp _ _ _⟩
      · have hkeep : v.hear m (.complete j) = v := if_neg h1
        rw [hkeep, ← Option.some.inj h]
        exact ⟨k, hold_held hb _⟩
  · rw [hold, if_neg hb] at h
    obtain ⟨rfl, -⟩ := Hold.hear_none h
    refine ⟨k, if_neg fun hb' => ?_⟩
    rcases (hear_latch v m n).2 with ⟨h1, -⟩ | ⟨h1, -⟩
    · exact hb (h1.symm.trans hb')
    · exact hb h1

/-- A notice of the book of `m` about its own operations does not touch an operation on another
market. -/
theorem hear_hold_of_ne (hn : OrderBook.Names (v.Issued m) n) (hm : m' ≠ m) (k : ℕ) :
    (v.hear m n).hold m' k = v.hold m' k := by
  by_cases hb : v.busy = some (.orderBook m')
  · have hne : v.busy ≠ some (.orderBook m) := by
      rw [hb]
      simpa using hm
    have hkeep (w : Ties) (hw : w.busy = v.busy) (j : ℕ) : w.answered m j = w := by
      rcases answered_cases w m j with h | ⟨h, -⟩
      · exact h
      · exact absurd (hw.symm.trans h) hne
    cases n with
    | placed =>
      rw [hear, hkeep (v.opened m) rfl]
      rfl
    | rejected => rfl
    | cancelled =>
      rw [hear, hkeep (v.closed m) rfl]
      rfl
    | filled b => cases b <;> rfl
    | complete j =>
      have hj : j ≠ v.busyOpNonce := fun hj => by
        rcases hn j rfl with hi | hc
        · exact hm (hi.2.2 m' hb hj)
        · exact absurd hc (by simp)
      rw [hear, if_neg hj]
  · refine (if_neg fun hb' => ?_).trans (if_neg hb).symm
    rcases (hear_latch v m n).2 with ⟨h1, -⟩ | ⟨-, h1⟩
    · exact hb (h1.symm.trans hb')
    · exact absurd (h1.symm.trans hb') (by simp)

theorem hear_issued {k : ℕ} (h : v.Issued m' k) : (v.hear m n).Issued m' k := by
  obtain ⟨hn, hb⟩ := hear_latch v m n
  refine ⟨h.1, h.2.1.trans hn.ge, fun j hj hk => ?_⟩
  rcases hb with ⟨h1, h2⟩ | ⟨-, h1⟩
  · exact h.2.2 j (h1.symm.trans hj) (hk.trans h2)
  · exact absurd (h1.symm.trans hj) (by simp)

end Hear

end Ties

/-- The messages on their way to a book, given the operation that holds the latch when they are
there. -/
inductive Carries (d : ℕ) : Option Hold → List Request → Prop
  | nothing : Carries d none []
  | operation {x : Hold} {q : Request} (hd : q.depositIdentifierHash = d)
      (hn : q.opNonce = x.opNonce) (hw : x.waiting = q.orderCount)
      (hone : x.batch = false → q.entries ≤ 1) : Carries d (some x) [q]

/-- The latch as it will be once the note has heard everything, and where its operation is. -/
structure Agrees (d : ℕ) (x : Option Hold) (p : List Request × OrderBook) : Prop where
  stands : ∃ r, OrderBook.Standing d x r p.2 ∧ Carries d r p.1
  nonce : ∀ y, x = some y → y.opNonce ≠ 0

/-- What holds between note `d` and the book `s` of market `m`: messages `rs` on their way to the
book, and `xs` on their way back. -/
structure Line (d : ℕ) (v : Ties) (m : MarketId) (s : OrderBook) (rs : List Request)
    (xs : List Reply) : Prop where
  ok : s.Ok
  filed : ∃ calls sent, Filed calls sent s
  counts : Synced Reply.tally (fun n s => n = lives d s.items) xs (v.openOrdersByEvent.read m) s
  latch : ∃ k, Synced Reply.hear (Agrees d) xs (v.hold m k) (rs, s)
  queued : Dated d (v.Issued m) s
  sent : ∀ q ∈ rs, v.Issued m q.opNonce
  told : ∀ x ∈ xs, x.Names (v.Issued m)

variable {d : ℕ} {v w : Ties} {m : MarketId} {s t : OrderBook} {q : Request} {rs : List Request}
  {x : Reply} {xs : List Reply}

namespace Reply

theorem hear_releases {a : Hold} (h : hear (some a) x = some none) :
    x.Releases a.opNonce a.batch := by
  cases x with
  | bounce => trivial
  | callback cb =>
    have h : Hold.hear (some a) cb.notice = some none := h
    cases hn : cb.notice <;> simp only [hn, Hold.hear] at h <;> grind [Releases]

theorem fold_releases {a : Hold} {c : Option Hold} (h : xs.foldlM hear (some a) = some c) :
    (∃ x ∈ xs, x.Releases a.opNonce a.batch) ∨ ∃ b, c = some b ∧ b.opNonce = a.opNonce := by
  induction xs generalizing a with
  | nil => exact .inr ⟨a, (Option.some.inj h).symm, rfl⟩
  | cons x xs ih =>
    rw [List.foldlM_cons] at h
    obtain ⟨y, hy, h⟩ := of_bind h
    cases y with
    | none => exact .inl ⟨x, List.mem_cons_self .., hear_releases hy⟩
    | some b =>
      have hb : b.opNonce = a.opNonce ∧ b.batch = a.batch := by
        cases x with
        | bounce => exact absurd hy (by simp [hear])
        | callback => exact Hold.hear_some hy
      rcases ih h with ⟨z, hz, hr⟩ | ⟨c', hc, hn⟩
      · rw [hb.1, hb.2] at hr
        exact .inl ⟨z, List.mem_cons_of_mem _ hz, hr⟩
      · exact .inr ⟨c', hc, hn.trans hb.1⟩

end Reply

theorem filed_init (market : MarketId) (resultStart numOutcomes : ℕ) :
    ∃ calls sent, Filed calls sent (.init market resultStart numOutcomes) :=
  ⟨[], [], rfl, ⟨trivial, fun _ he => absurd he List.not_mem_nil⟩,
    fun _ ho => absurd ho List.not_mem_nil, fun _ _ hb => absurd hb (by simp)⟩

namespace Line

theorem mono (h : Line d v m s rs xs)
    (hc : w.openOrdersByEvent.read m = v.openOrdersByEvent.read m)
    (hh : ∀ k, w.hold m k = v.hold m k) (hi : ∀ n, v.Issued m n → w.Issued m n) :
    Line d w m s rs xs where
  ok := h.ok
  filed := h.filed
  counts := hc ▸ h.counts
  latch := by
    obtain ⟨k, hk⟩ := h.latch
    exact ⟨k, (hh k).symm ▸ hk⟩
  queued e he hd := hi _ (h.queued e he hd)
  sent q hq := hi _ (h.sent q hq)
  told x hx cb hcb n hn := (h.told x hx cb hcb n hn).imp_left (hi n)

theorem fresh (hb : v.busy = none) (h0 : v.openOrdersByEvent.read m = 0) (market : MarketId)
    (resultStart numOutcomes : ℕ) : Line d v m (.init market resultStart numOutcomes) [] [] where
  ok := .init _ _ _
  filed := filed_init _ _ _
  counts := .nil (by rw [h0, init_items]; rfl)
  latch := by
    refine ⟨0, .nil ?_⟩
    rw [Ties.hold, if_neg (by simp [hb])]
    exact ⟨⟨none, .free (by rw [init_items]; rfl), .nothing⟩, by simp⟩
  queued := fun e he => absurd he List.not_mem_nil
  sent := fun q hq => absurd hq List.not_mem_nil
  told := fun x hx => absurd hx List.not_mem_nil

/-- Callbacks that keep a note in step with the book go behind those on their way. -/
theorem ran (h : Line d v m s rs xs) {c : Call} (ht : s.step c = some t)
    (hc : ∀ o, c.accepted? = some (d, o) → v.Issued m o) {rs' : List Request}
    (hrs : ∀ q ∈ rs', v.Issued m q.opNonce)
    (hl : ∀ y, Agrees d y (rs, s) → ∃ z, (noticesTo d t.outs).foldlM Hold.hear y = some z ∧
      Agrees d z (rs', t)) :
    Line d v m t rs' (xs ++ Desk.repliesTo d t.outs) where
  ok := (step_moves h.ok ht).ok
  filed := by
    obtain ⟨calls, sent, hf⟩ := h.filed
    exact ⟨_, _, hf.step h.ok ht⟩
  counts := by
    refine h.counts.send fun n hn => ⟨_, ?_, rfl⟩
    rw [Desk.foldlM_repliesTo Reply.tally Notice.tally (fun _ _ => rfl), hn]
    exact step_tallies h.ok ht
  latch := by
    obtain ⟨k, hk⟩ := h.latch
    refine ⟨k, hk.send fun y hy => ?_⟩
    rw [Desk.foldlM_repliesTo Reply.hear Hold.hear (fun x cb => by cases x <;> rfl)]
    exact hl y hy
  queued := (step_dated h.ok ht hc h.queued).2
  sent := hrs
  told := by
    intro x hx cb hcb
    rcases List.mem_append.mp hx with hx | hx
    · exact h.told x hx cb hcb
    · refine (step_dated h.ok ht hc h.queued).1 _ ?_
      obtain ⟨o, ho, rfl⟩ := List.mem_map.mp hx
      rw [← Reply.callback.inj hcb]
      exact List.mem_map.mpr ⟨o, ho, rfl⟩

theorem nonce_of_fold {ns : List Notice} {y z : Option Hold}
    (h : ns.foldlM Hold.hear y = some z) (hy : ∀ a, y = some a → a.opNonce ≠ 0) :
    ∀ a, z = some a → a.opNonce ≠ 0 := by
  refine foldlM_keeps (P := fun y => ∀ a, y = some a → a.opNonce ≠ 0) ?_ hy h
  intro n _ a b ha hb c hc
  subst hc
  cases a with
  | none => exact absurd (Hold.hear_none hb).1 (by simp)
  | some a => exact (Hold.hear_some hb).1 ▸ ha a rfl

theorem deliver (h : Line d v m s (q :: rs) xs) {now : ℕ}
    (ht : s.step (q.call (.note d) now) = some t) :
    Line d v m t rs (xs ++ Desk.repliesTo d t.outs) := by
  refine h.ran ht (fun o ho => ?_) (fun x hx => h.sent x (List.mem_cons_of_mem _ hx)) fun y hy => ?_
  · have hq := h.sent q (List.mem_cons_self ..)
    rw [q.call_accepted] at ho
    rwa [← (Prod.mk.inj (Option.some.inj ho)).2]
  · obtain ⟨r, hst, hca⟩ := hy.stands
    cases hca with
    | operation hd hn hw hone =>
      cases hst with
      | sent hcl =>
        obtain ⟨calls, sent, hf⟩ := h.filed
        obtain ⟨z, hz, hst⟩ := accept_standing h.ok hf ht (by rw [q.call_accepted, hd, hn])
          (hw.trans (q.call_submittedCount _ _).symm)
          (fun hb => (q.call_entries _ _).le.trans (hone hb)) hcl
        exact ⟨z, hz, ⟨none, hst, .nothing⟩, nonce_of_fold hz hy.nonce⟩

theorem others (h : Line d v m s rs xs) {c : Call} (ht : s.step c = some t)
    (hc : c.sender? ≠ some (.note d)) : Line d v m t rs (xs ++ Desk.repliesTo d t.outs) := by
  have hne (hh o : ℕ) (ho : c.accepted? = some (hh, o)) : hh ≠ d := by
    rintro rfl
    exact hc (accepted_sender ht ho)
  refine h.ran ht (fun o ho => absurd rfl (hne d o ho)) h.sent fun y hy => ?_
  obtain ⟨r, hst, hca⟩ := hy.stands
  obtain ⟨calls, sent, hf⟩ := h.filed
  obtain ⟨z, hz, hst⟩ := step_standing h.ok hf ht hne hy.nonce hst
  exact ⟨z, hz, ⟨r, hst, hca⟩, nonce_of_fold hz hy.nonce⟩

theorem bounce (h : Line d v m s (q :: rs) xs) : Line d v m s rs (xs ++ [.bounce]) where
  ok := h.ok
  filed := h.filed
  counts := h.counts.send fun n hn => ⟨n, rfl, hn⟩
  latch := by
    obtain ⟨k, hk⟩ := h.latch
    refine ⟨k, hk.send fun y hy => ?_⟩
    obtain ⟨r, hst, hca⟩ := hy.stands
    cases hca with
    | operation =>
      cases hst with
      | sent hcl => exact ⟨none, rfl, ⟨none, .free hcl.waits, .nothing⟩, by simp⟩
  queued := h.queued
  sent q hq := h.sent q (List.mem_cons_of_mem _ hq)
  told := by
    intro x hx cb hcb
    rcases List.mem_append.mp hx with hx | hx
    · exact h.told x hx cb hcb
    · exact absurd ((List.mem_singleton.mp hx).symm.trans hcb) (by simp)

theorem deploy (h : Line d v m s rs xs) (hi : s.items = 0) (hq : s.toQueue.list = [])
    (market : MarketId) (resultStart numOutcomes : ℕ) :
    Line d v m (.init market resultStart numOutcomes) rs xs where
  ok := .init _ _ _
  filed := filed_init _ _ _
  counts := by
    refine h.counts.mono fun n hn => ?_
    rw [hn, hi, init_items]
  latch := by
    obtain ⟨k, hk⟩ := h.latch
    refine ⟨k, hk.mono fun y hy => ?_⟩
    obtain ⟨r, hst, hca⟩ := hy.stands
    refine ⟨⟨r, hst.congr ?_ ?_, hca⟩, hy.nonce⟩
    · rw [hi, init_items]
    · exact hq.symm
  queued := fun e he => absurd he List.not_mem_nil
  sent := h.sent
  told := h.told

theorem answered_before {c : Option Hold} (h : xs.foldlM Reply.hear none = some c) :
    c = none ∧ ∀ x ∈ xs, ∃ cb, x = .callback cb ∧ cb.notice.answers = 0 := by
  induction xs with
  | nil => exact ⟨(Option.some.inj h).symm, fun x hx => absurd hx List.not_mem_nil⟩
  | cons x xs ih =>
    rw [List.foldlM_cons] at h
    obtain ⟨y, hy, h⟩ := of_bind h
    cases x with
    | bounce => exact absurd hy (by simp [Reply.hear])
    | callback cb =>
      obtain ⟨rfl, h0⟩ := Hold.hear_none hy
      obtain ⟨hc, hall⟩ := ih h
      refine ⟨hc, fun z hz => ?_⟩
      rcases List.mem_cons.mp hz with rfl | hz
      · exact ⟨cb, rfl, h0⟩
      · exact hall z hz

/-- The note sends the book an operation: all that is still on its way back is older. -/
theorem send (h : Line d v m s rs xs) (hb : v.busy = none) {b : Bool}
    (hd : q.depositIdentifierHash = d) (hn : q.opNonce = v.opNonce + 1)
    (hone : b = false → q.entries ≤ 1) : Line d (v.send m q b) m s (rs ++ [q]) xs := by
  have hold (k : ℕ) : v.hold m k = none := if_neg (by simp [hb])
  have hnew (k : ℕ) : (v.send m q b).hold m k = some ⟨v.opNonce + 1, b, k⟩ := if_pos rfl
  have hold_ne {n : ℕ} (hi : v.Issued m n) : n ≠ v.opNonce + 1 := by
    have := hi.2.1
    omega
  have hi (n : ℕ) (hi : v.Issued m n) : (v.send m q b).Issued m n :=
    ⟨hi.1, hi.2.1.trans (Nat.le_succ _), fun _ _ hn' => absurd hn' (hold_ne hi)⟩
  have hq : (v.send m q b).Issued m q.opNonce := by
    refine ⟨by omega, hn.le, fun m' hm' _ => ?_⟩
    have hm' : some (Addr.orderBook m) = some (.orderBook m') := hm'
    simpa using hm'.symm
  obtain ⟨k, c, hc, hy⟩ := h.latch
  rw [hold k] at hc
  obtain ⟨rfl, hfree⟩ := answered_before hc
  obtain ⟨r, hst, hca⟩ := hy.stands
  refine ⟨h.ok, h.filed, h.counts, ⟨q.orderCount, some ⟨v.opNonce + 1, b, q.orderCount⟩, ?_, ?_, ?_⟩,
    fun e he hd => hi _ (h.queued e he hd), ?_, ?_⟩
  · rw [hnew]
    refine foldlM_still fun x hx => ?_
    obtain ⟨cb, rfl, h0⟩ := hfree x hx
    have hside : Hold.Aside (v.opNonce + 1) cb.notice := by
      refine ⟨h0, fun hn' => ?_⟩
      rcases h.told _ hx cb rfl _ hn' with hP | hcan
      · exact hold_ne hP rfl
      · rw [hcan] at hn'
        exact absurd hn' (by simp [Notice.opNonce?])
    let h := Hold.mk (v.opNonce + 1) b q.orderCount
    have hfar : ∀ n ∈ [cb.notice], Hold.Aside h.opNonce n := by simpa using hside
    change Hold.hear (some h) cb.notice = some (some h)
    simpa using Hold.hear_aside hfar
  · cases hst with
    | free h0 =>
      cases hca with
      | nothing =>
        refine ⟨_, .sent ⟨h0, fun e he hd => hold_ne (h.queued e he hd)⟩, ?_⟩
        exact .operation hd hn rfl hone
  · rintro y hy
    cases hy
    exact Nat.succ_ne_zero _
  · intro x hx
    rcases List.mem_append.mp hx with hx | hx
    · exact hi _ (h.sent x hx)
    · exact List.mem_singleton.mp hx ▸ hq
  · exact fun x hx cb hcb n hn' => (h.told x hx cb hcb n hn').imp_left (hi n)

theorem heard {cb : Callback} (h : Line d v m s rs (.callback cb :: xs)) :
    v.Counted (v.hear m cb.notice) m ((v.hear m cb.notice).openOrdersByEvent.read m) ∧
      OrderBook.Names (v.Issued m) cb.notice ∧ Line d (v.hear m cb.notice) m s rs xs := by
  obtain ⟨n, hn, hcounts⟩ := h.counts.receive
  have hcount := Ties.hear_counted hn
  have hnames := h.told _ (List.mem_cons_self ..) cb rfl
  obtain ⟨k, hk⟩ := h.latch
  obtain ⟨y, hy, hlatch⟩ := hk.receive
  obtain ⟨k', hk'⟩ := Ties.hear_hold (v := v) (m := m) (n := cb.notice) (k := k) (x := y)
    (by rw [← hy]; cases v.hold m k <;> rfl)
  refine ⟨hcount.here.symm ▸ hcount, hnames, h.ok, h.filed, ?_, ⟨k', ?_⟩, ?_, ?_, ?_⟩
  · rw [hcount.here]
    exact hcounts
  · rw [hk']
    exact hlatch
  · exact fun e he hd => Ties.hear_issued (h.queued e he hd)
  · exact fun q hq => Ties.hear_issued (h.sent q hq)
  · exact fun x hx cb' hcb j hj => (h.told x (List.mem_cons_of_mem _ hx) cb' hcb j hj).imp_left
      Ties.hear_issued

theorem bounced_busy (h : Line d v m s rs (.bounce :: xs)) : v.busy = some (.orderBook m) := by
  obtain ⟨k, hk⟩ := h.latch
  obtain ⟨y, hy, -⟩ := hk.receive
  by_contra hne
  rw [Ties.hold, if_neg hne] at hy
  exact absurd hy (by simp [Reply.hear])

theorem returned (h : Line d v m s rs (.bounce :: xs)) (hw : w.busy = none)
    (hn : w.opNonce = v.opNonce) (hc : w.openOrdersByEvent = v.openOrdersByEvent) :
    Line d w m s rs xs := by
  obtain ⟨n, hcount, hcounts⟩ := h.counts.receive
  obtain ⟨k, hk⟩ := h.latch
  obtain ⟨y, hy, hlatch⟩ := hk.receive
  rw [Ties.hold_held h.bounced_busy] at hy
  have hi (j : ℕ) (hj : v.Issued m j) : w.Issued m j :=
    ⟨hj.1, hj.2.1.trans hn.ge, fun m' hm' => absurd (hw.symm.trans hm') (by simp)⟩
  refine ⟨h.ok, h.filed, ?_, ⟨0, ?_⟩, fun e he hd => hi _ (h.queued e he hd),
    fun q hq => hi _ (h.sent q hq), ?_⟩
  · rw [hc, Option.some.inj hcount]
    exact hcounts
  · rw [Ties.hold, if_neg (by simp [hw]), Option.some.inj hy]
    exact hlatch
  · exact fun x hx cb' hcb j hj => (h.told x (List.mem_cons_of_mem _ hx) cb' hcb j hj).imp_left
      (hi j)

theorem acks_only {n : ℕ} (hfree : ∀ x ∈ xs, ∃ cb, x = .callback cb ∧ cb.notice.answers = 0)
    (h : xs.foldlM Reply.tally 0 = some n) :
    (∀ x ∈ xs, ∃ n, x = .callback (.onBatchComplete n)) ∧ n = 0 := by
  induction xs with
  | nil => exact ⟨fun x hx => absurd hx List.not_mem_nil, (Option.some.inj h).symm⟩
  | cons x xs ih =>
    rw [List.foldlM_cons] at h
    obtain ⟨j, hj, hxs⟩ := of_bind h
    obtain ⟨cb, rfl, h0⟩ := hfree x (List.mem_cons_self ..)
    cases cb with
    | onOrderPlaced => exact absurd h0 Nat.one_ne_zero
    | onOrderRejected => exact absurd h0 Nat.one_ne_zero
    | onOrderCancelled => exact absurd hj (by simp [Reply.tally, Callback.notice, Notice.tally])
    | onOrderFilled => exact absurd hj (by simp [Reply.tally, Callback.notice, Notice.tally])
    | onBatchComplete k =>
      rw [← Option.some.inj hj] at hxs
      obtain ⟨hall, hn⟩ := ih (fun y hy => hfree y (List.mem_cons_of_mem _ hy)) hxs
      refine ⟨fun y hy => ?_, hn⟩
      rcases List.mem_cons.mp hy with rfl | hy
      · exact ⟨k, rfl⟩
      · exact hall y hy

theorem not_owner {M : Multiset Item} (hw : waits d M = 0) (hl : lives d M = 0) {y : Item}
    (hy : y ∈ M) : y.owner ≠ d := by
  intro hd
  obtain ⟨M, rfl⟩ := Multiset.exists_cons_of_mem hy
  rw [waits_cons] at hw
  rw [lives_cons] at hl
  by_cases h0 : y.orderId = 0
  · rw [if_pos ⟨hd, h0⟩] at hw
    omega
  · rw [if_pos ⟨hd, h0⟩] at hl
    omega

theorem settled (h : Line d v m s rs xs) (hb : v.busy = none)
    (h0 : v.openOrdersByEvent.read m = 0) : rs = [] ∧
      (∀ x ∈ xs, ∃ n, x = .callback (.onBatchComplete n)) ∧ ∀ y ∈ s.items, y.owner ≠ d := by
  obtain ⟨k, c, hc, hy⟩ := h.latch
  rw [show v.hold m k = none from if_neg (by simp [hb])] at hc
  obtain ⟨rfl, hfree⟩ := answered_before hc
  obtain ⟨r, hst, hca⟩ := hy.stands
  obtain ⟨n, hn, hlives⟩ := h.counts
  rw [h0] at hn
  obtain ⟨hall, rfl⟩ := acks_only hfree hn
  cases hst with
  | free hw =>
    cases hca with
    | nothing => exact ⟨rfl, hall, fun y hy => not_owner hw hlives.symm hy⟩

theorem awaited (h : Line d v m s rs xs) (hb : v.busy = some (.orderBook m)) :
    (∃ q, rs = [q] ∧ q.opNonce = v.busyOpNonce) ∨
      (∃ e ∈ s.toQueue.list, e.depositHash = d ∧ e.opNonce = v.busyOpNonce) ∨
      ∃ x ∈ xs, x.Releases v.busyOpNonce v.pendingBatchActive := by
  obtain ⟨k, c, hc, hy⟩ := h.latch
  rw [Ties.hold_held hb] at hc
  rcases Reply.fold_releases hc with hx | ⟨a, rfl, hn⟩
  · exact .inr (.inr hx)
  · obtain ⟨r, hst, hca⟩ := hy.stands
    cases hst with
    | sent =>
      cases hca with
      | operation _ hq => exact .inl ⟨_, rfl, hq.trans hn⟩
    | taken hs =>
      obtain ⟨e, he, heb⟩ := hs.exists_entry
      obtain ⟨hd, ho⟩ := (hs.own e he).mp heb
      exact .inr (.inl ⟨e, he, hd, ho.trans hn⟩)

theorem unawaited (h : Line d v m s rs xs) (hb : v.busy ≠ some (.orderBook m)) : rs = [] ∧
    (∀ x ∈ xs, ∃ cb, x = .callback cb ∧ cb.notice.answers = 0) ∧
      ∀ y ∈ s.items, y.owner = d → y.orderId ≠ 0 := by
  obtain ⟨k, c, hc, hy⟩ := h.latch
  rw [show v.hold m k = none from if_neg hb] at hc
  obtain ⟨rfl, hfree⟩ := answered_before hc
  obtain ⟨r, hst, hca⟩ := hy.stands
  cases hst with
  | free hw =>
    cases hca with
    | nothing =>
      refine ⟨rfl, hfree, fun y hy hd h0 => ?_⟩
      obtain ⟨M, hM⟩ := Multiset.exists_cons_of_mem hy
      rw [hM, waits_cons, if_pos ⟨hd, h0⟩] at hw
      omega

theorem answer_fits {cb : Callback} (h : Line d v m s rs (.callback cb :: xs))
    (ha : cb.notice.answers ≠ 0) :
    v.busy = some (.orderBook m) ∧ cb.notice.opNonce? = some v.busyOpNonce := by
  obtain ⟨k, hk⟩ := h.latch
  obtain ⟨y, hy, -⟩ := hk.receive
  by_cases hb : v.busy = some (.orderBook m)
  · refine ⟨hb, ?_⟩
    rw [Ties.hold_held hb] at hy
    have hy : Hold.hear _ cb.notice = some y := hy
    cases hn : cb.notice with
    | placed n =>
      rw [hn] at hy
      simp only [Hold.hear] at hy
      split_ifs at hy with h1 <;> grind [Notice.opNonce?]
    | rejected n =>
      rw [hn] at hy
      simp only [Hold.hear] at hy
      split_ifs at hy with h1
      grind [Notice.opNonce?]
    | _ => exact absurd (by rw [hn]; rfl) ha
  · obtain ⟨-, hfree, -⟩ := h.unawaited hb
    obtain ⟨cb', hcb, h0⟩ := hfree _ (List.mem_cons_self ..)
    rw [← Reply.callback.inj hcb] at h0
    exact absurd h0 ha

end Line

end Dexdo
