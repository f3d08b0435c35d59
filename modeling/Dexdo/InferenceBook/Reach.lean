import Dexdo.InferenceBook.Ready

namespace Dexdo.InferenceOrderBook

/-- What a call does before the head is run: it queues at most one entry. -/
inductive Queues (s : InferenceOrderBook) : InferenceOrderBook → Prop
  | nothing : Queues s s
  | entry (e : QueueEntry) : e.Fresh → s.queueSize < QUEUE_CAPACITY → Queues s (s.enqueue e)

/-- A call that touches neither the book nor its queue. -/
structure Spared (s t : InferenceOrderBook) : Prop where
  book : t.toBook = s.toBook
  queue : t.toQueue = s.toQueue
  nextOrderId : t.nextOrderId = s.nextOrderId
  clock : t.clock = s.clock
  fills : t.fills = s.fills
  dust : t.dust = s.dust

section Entries

variable {s t u : InferenceOrderBook} {i : Input} {now : ℕ} {sender : Addr}

theorem spared_act (s : InferenceOrderBook) (a : Action) : Spared s (s.act a) :=
  ⟨rfl, rfl, rfl, rfl, rfl, rfl⟩

theorem fresh_request (type : EntryType) (owner : Addr) (target : ℕ) (hn : type ≠ .none)
    (hp : type ≠ .place) : (requestEntry type owner target).Fresh :=
  ⟨hn, rfl, fun h => absurd h hp, fun h => absurd h hp, fun h => absurd h hp,
    fun h => absurd h hp⟩

theorem lt_capacity (h : s.queueSize < QUEUE_PLACE_LIMIT) : s.queueSize < QUEUE_CAPACITY :=
  h.trans (by decide)

theorem fresh_sell {p n d : ℕ} {flags : UInt8} {note tc : Addr} (h : ¬ badSell p n flags d)
    (htc : tc ≠ noAddr) : (placeEntry note 0 false flags p n 0 tc d 0).Fresh := by
  unfold badSell at h
  push Not at h
  obtain ⟨h1, h2, -, h4, h5, -, -, h8, -, -⟩ := h
  have hm : has flags FLAG_MARKET = false := by simpa using h4
  refine ⟨by simp [placeEntry], rfl, fun _ => h1, fun _ hf => Bool.not_eq_true _ ▸ h5 hf,
    fun _ => ⟨Nat.pos_of_ne_zero h2, h8, fun _ => hm, fun _ => .inr h1, fun hb => ?_, fun hb => ?_,
      fun hb => ?_⟩, fun _ _ => htc⟩
  · cases hb
  · cases hb
  · cases hb

theorem fresh_buy {c escrow p n d pk : ℕ} {flags : UInt8} (h2 : 2 ≤ n) (he : escrow < 2 ^ 128)
    (ht : ¬ (has flags FLAG_POST_ONLY = true ∧ has flags TAKER_FLAGS = true))
    (hs : has flags FLAG_SUBSCRIPTION = true → subscriptionOk flags n)
    (hp : has flags FLAG_MARKET = true ∨ 0 < p ∧ p % PRICE_STEP = 0)
    (hc : ¬ has flags FLAG_MARKET = true → n * unit p + bondAt flags p ≤ escrow) :
    (placeEntry sender pk true flags (if has flags FLAG_MARKET = true then 2 ^ 256 - 1 else p) n
      escrow noAddr d c).Fresh := by
  refine ⟨by simp [placeEntry], rfl, fun _ => h2, fun _ hf => ?_, fun _ => ⟨?_,
    fun hf => (hs hf).1, fun hf => ?_, fun hb => ?_, fun _ => he, fun _ hm _ => ?_,
    fun _ hf => Nat.dvd_of_mod_eq_zero (hs hf).2.1⟩, fun _ hb => ?_⟩
  · push Not at ht
    exact Bool.not_eq_true _ ▸ ht hf
  · change 0 < (if has flags FLAG_MARKET = true then 2 ^ 256 - 1 else p)
    split_ifs with hm
    · decide
    · exact (hp.resolve_left hm).1
  · rcases hf with hf | hf
    · have hm := (hs hf).2.2.2
      exact Bool.not_eq_true _ ▸ hm
    · cases hf
  · cases hb
  · have hm : ¬ has flags FLAG_MARKET = true := by
      have hm : has flags FLAG_MARKET = false := hm
      simp [hm]
    have h := hc hm
    change n * unit (if has flags FLAG_MARKET = true then 2 ^ 256 - 1 else p) +
      bondAt flags (if has flags FLAG_MARKET = true then 2 ^ 256 - 1 else p) ≤ escrow
    rwa [if_neg hm]
  · cases hb

/-- The entry of a bid. -/
def buyEntry (sender : Addr) (c escrow p n : ℕ) (flags : UInt8) (d pk : ℕ) : QueueEntry :=
  placeEntry sender pk true flags (if has flags FLAG_MARKET = true then 2 ^ 256 - 1 else p) n
    escrow noAddr d c

theorem placeBuyOrder_queues {c escrow p n d pk h : ℕ} {flags : UInt8} (hb : escrow < 2 ^ 128)
    (ht : s.placeBuyOrder sender now c escrow p n flags d pk h = some t) :
    Queues s (s.enqueue (buyEntry sender c escrow p n flags d pk)) ∧
      t = (s.enqueue (buyEntry sender c escrow p n flags d pk)).processHeadCore now := by
  simp only [placeBuyOrder, bind_iff, pure_iff] at ht
  obtain ⟨-, h2, ht, -, -, hs, -, hp, -, hc, hq, rfl⟩ := ht
  exact ⟨.entry _ (fresh_buy h2 hb ht hs hp hc) (lt_capacity hq), rfl⟩

theorem placeSellOffer_queues {p n pk nonce d : ℕ} {flags : UInt8} {note : Addr}
    (ht : s.placeSellOffer sender now p n flags pk nonce note d = some t) :
    (∃ u, Queues s u ∧ t = u.processHeadCore now) ∨ Spared s t := by
  simp only [placeSellOffer, bind_iff, pure_iff] at ht
  obtain ⟨hsender, ht⟩ := ht
  have htc : sender ≠ noAddr := by simp [hsender, noAddr]
  split_ifs at ht with hc
  · cases ht
    exact .inr (spared_act s _)
  · cases ht
    push Not at hc
    exact .inl ⟨_, .entry _ (fresh_sell hc.1 htc) (lt_capacity hc.2), rfl⟩

theorem onBounce_spared (paid : ℕ) : Spared s (s.onBounce sender paid) := by
  have herase : Spared s { s with handoverBuyer := AList.erase sender s.handoverBuyer } :=
    ⟨rfl, rfl, rfl, rfl, rfl, rfl⟩
  unfold onBounce
  dsimp only
  split
  · split_ifs
    · exact herase
    · unfold payShell
      split_ifs
      · exact herase
      · exact ⟨rfl, rfl, rfl, rfl, rfl, rfl⟩
  · exact herase

/-- Every call either queues at most one entry and runs the head, or spares the book. -/
theorem exec_cases (hi : i.call.Typed) (ht : s.exec i = some t) :
    (∃ u, Queues s u ∧ t = u.processHeadCore i.now) ∨ Spared s t := by
  obtain ⟨sender, now, call⟩ := i
  cases call with
  | placeSellOffer => exact placeSellOffer_queues ht
  | placeBuyOrder => exact .inl ⟨_, placeBuyOrder_queues hi.2.1 ht⟩
  | cancelOrder =>
    cases ht
    unfold cancelOrder
    split_ifs with hq
    · exact .inl ⟨_, .entry _ (fresh_request _ _ _ (by simp) (by simp)) hq, rfl⟩
    · exact .inr (spared_act s _)
  | cancelAllOrders =>
    cases ht
    unfold cancelAllOrders
    split_ifs with hq
    · exact .inl ⟨_, .entry _ (fresh_request _ _ _ (by simp) (by simp)) hq, rfl⟩
    · exact .inr (spared_act s _)
  | expireOrder =>
    simp only [exec, expireOrder, bind_iff, pure_iff] at ht
    obtain ⟨hq, rfl⟩ := ht
    exact .inl ⟨_, .entry _ (fresh_request _ _ _ (by simp) (by simp)) (lt_capacity hq), rfl⟩
  | processHead =>
    cases ht
    exact .inl ⟨s, .nothing, rfl⟩
  | bounced paid =>
    cases ht
    exact .inr (onBounce_spared paid)
  | onHandoverAccepted =>
    cases ht
    exact .inr ⟨rfl, rfl, rfl, rfl, rfl, rfl⟩
  | reportFinalized =>
    cases ht
    exact .inr ⟨rfl, rfl, rfl, rfl, rfl, rfl⟩
  | requestWeeklyMedian =>
    simp only [exec, requestWeeklyMedian, bind_iff, pure_iff] at ht
    obtain ⟨_, -, rfl⟩ := ht
    exact .inr (spared_act s _)

end Entries

section Runs

variable {s t u : InferenceOrderBook} {i : Input} {modelHash : ℕ}
  {tr : List (Input × InferenceOrderBook)}

theorem step_cases (h : s.step i = some t) : s.clock ≤ i.now ∧
    ((∃ u, Queues (s.begin i.now) u ∧ t = u.processHeadCore i.now) ∨
      Spared (s.begin i.now) t) := by
  simp only [step, bind_iff] at h
  exact ⟨h.2.1, exec_cases h.1 h.2.2⟩

/-- Transaction `i` from `s` to `t` runs the head of the queue: `u` is the book once the call has
queued its entry. -/
structure Runs (s : InferenceOrderBook) (i : Input) (u t : InferenceOrderBook) : Prop where
  step : s.step i = some t
  queues : Queues (s.begin i.now) u
  run : t = u.processHeadCore i.now

theorem placeBuyOrder_runs {sender : Addr} {now c escrow p n d pk h : ℕ} {flags : UInt8}
    (hs : s.step ⟨sender, now, .placeBuyOrder c escrow p n flags d pk h⟩ = some t) :
    Runs s ⟨sender, now, .placeBuyOrder c escrow p n flags d pk h⟩
      ((s.begin now).enqueue (buyEntry sender c escrow p n flags d pk)) t := by
  have hx := hs
  simp only [step, bind_iff] at hx
  obtain ⟨hq, ht⟩ := placeBuyOrder_queues hx.1.2.1 hx.2.2
  exact ⟨hs, hq, ht⟩

theorem Ready.of_eq (h : Ready s) (hb : t.toBook = s.toBook) (hq : t.toQueue = s.toQueue)
    (hn : t.nextOrderId = s.nextOrderId) (hc : Clean t) : Ready t := by
  refine ⟨hq ▸ h.queue, hn ▸ h.ids, hc, ?_⟩
  cases h.phase with
  | quiet hs hf =>
    refine .quiet ?_ (hq ▸ hf)
    rw [hb, hn]
    exact hs
  | underway e rest hl he hr hs =>
    refine .underway e rest (hq ▸ hl) ?_ hr (hb ▸ hs)
    rw [hn]
    exact he

theorem Ready.begin (h : Ready s) (now : ℕ) : Ready (s.begin now) := by
  refine h.of_eq rfl rfl rfl ⟨fun f hf => ?_, fun o ho => ?_⟩
  · cases hf
  · cases ho

theorem Queues.ready (h : Queues s u) (hs : Ready s) : Ready u := by
  cases h with
  | nothing => exact hs
  | entry e he hq =>
    obtain ⟨h1, h2⟩ := enqueue_list hs.queue hq e
    refine ⟨h1, hs.ids, hs.clean.of_eq rfl rfl, ?_⟩
    have hall (l : List QueueEntry) (hl : ∀ x ∈ l, x.Fresh) : ∀ x ∈ l ++ [e], x.Fresh := by
      intro x hx
      rcases List.mem_append.mp hx with hx | hx
      · exact hl x hx
      · rw [List.mem_singleton.mp hx]
        exact he
    cases hs.phase with
    | quiet hb hf =>
      refine .quiet hb ?_
      rw [h2]
      exact hall _ hf
    | underway e' rest hl he' hr hb =>
      refine .underway e' (rest ++ [e]) ?_ he' (hall _ hr) hb
      rw [h2, hl, List.cons_append]

theorem Queues.fills (h : Queues s u) : u.fills = s.fills ∧ u.clock = s.clock := by
  cases h <;> exact ⟨rfl, rfl⟩

theorem step_ready (hs : Ready s) (h : s.step i = some t) : Ready t := by
  obtain ⟨-, ⟨u, hu, rfl⟩ | ht⟩ := step_cases h
  · have hu := hu.ready (hs.begin i.now)
    obtain ⟨hq, ht⟩ := hu.turn i.now
    exact ht.ready hu hq
  · exact (hs.begin i.now).of_eq ht.book ht.queue ht.nextOrderId
      ((hs.begin i.now).clean.of_eq ht.fills ht.dust)

theorem init_ready (modelHash : ℕ) : Ready (init modelHash) := by
  refine ⟨Queue.Ok.empty, Nat.one_pos, ⟨fun f hf => ?_, fun o ho => ?_⟩, .quiet (.empty 1) ?_⟩
  · cases hf
  · cases ho
  · intro e he
    cases he

theorem run_ready (h : Run step (init modelHash) tr s) : Ready s :=
  h.state_invariant Ready (init_ready modelHash) fun _ _ _ hs hi => step_ready hs hi

/-- The lists of a reachable book describe exactly its resting orders, which are all covered, and
what the last transaction settled and swept was exact. -/
theorem book_represented (h : Run step (init modelHash) tr s) :
    (∃ A, Book.Rep s.toBook s.nextOrderId A) ∧
      (∀ id, s.Stored id → (s.core id).Covered) ∧ Clean s := by
  have hr := run_ready h
  exact ⟨hr.phase.sound.rep, hr.phase.sound.covered, hr.clean⟩

/-- The first bid takes the first offer, and the second offer takes most of the second bid. -/
def sampleCalls : List Input :=
  [⟨.deal 11 0, 5, .placeSellOffer 1000000000 10 0 11 0 (.note 1) 100⟩,
    ⟨.note 2, 6, .placeBuyOrder 71 4100000000 1000000000 4 0 0 9 2⟩,
    ⟨.note 3, 7, .placeBuyOrder 72 12300000000 2000000000 6 0 0 9 3⟩,
    ⟨.deal 12 0, 8, .placeSellOffer 1000000000 4 0 12 0 (.note 1) 100⟩]

/-- The book after some calls. -/
def bookAfter (calls : List Input) : InferenceOrderBook :=
  Run.last (init 7) (Run.trace step (init 7) calls)

/-- An offer of ten ticks outside the enclave. -/
def offerCall : Input := ⟨.deal 11 0, 5, .placeSellOffer 1000000000 10 0 11 0 (.note 1) 100⟩

/-- A bid of `n` ticks that crosses it. -/
def bidCall (n : ℕ) (flags : UInt8) : Input :=
  ⟨.note 2, 6, .placeBuyOrder 71 20500000000 2000000000 n flags 50 9 2⟩

/-- Its entry. -/
def bidEntry (n : ℕ) (flags : UInt8) : QueueEntry :=
  buyEntry (.note 2) 71 20500000000 2000000000 n flags 50 9

theorem book_represented_sample :
    (bookAfter sampleCalls).orderCount = 1 ∧ (bookAfter sampleCalls).fills.length = 1 ∧
      (∃ A, Book.Rep (bookAfter sampleCalls).toBook (bookAfter sampleCalls).nextOrderId A) ∧
      (∀ id, (bookAfter sampleCalls).Stored id → ((bookAfter sampleCalls).core id).Covered) ∧
      Clean (bookAfter sampleCalls) :=
  ⟨by decide +kernel, by decide +kernel, book_represented (Run.trace_run ..)⟩

end Runs

end Dexdo.InferenceOrderBook
