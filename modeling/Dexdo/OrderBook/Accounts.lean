import Dexdo.OrderBook.Answers

namespace Dexdo

namespace Item

/-- Outcome tokens a sell order of outcome `k` has given the book. -/
def tokens (k : ℕ) (x : Item) : ℕ := if x.isBuy = false ∧ x.outcomeId = k then x.amount else 0

/-- Collateral a buy order has to keep locked for what remains of it. -/
def lock (x : Item) : ℕ := x.cost + takerFeeOf x.cost

theorem sum_after (f : Item → ℕ) {x : Item} {spent : ℕ}
    (h0 : f { x with amount := 0 } = 0) :
    ((x.after spent).map f).sum = f { x with amount := x.amount - spent } := by
  unfold after
  split_ifs with h
  · rw [h, Nat.sub_self, h0]
    rfl
  · simp

end Item

/-- Outcome tokens of outcome `k` an order of these parameters gives the book. -/
def PlaceParams.tokens (k : ℕ) (p : PlaceParams) : ℕ :=
  if p.isBuy = false ∧ p.outcomeId = k then p.amount else 0

namespace Callback

/-- Outcome tokens of outcome `k` a callback hands back or delivers. -/
def tokens (k : ℕ) : Callback → ℕ
  | .onOrderRejected outcomeId isBuy _ _ amount _ _ _ =>
    if isBuy = false ∧ outcomeId = k then amount else 0
  | .onOrderCancelled _ outcomeId isBuy amount _ _ =>
    if isBuy = false ∧ outcomeId = k then amount else 0
  | .onOrderFilled outcomeId filledAmount _ isBuy _ _ _ _ _ _ _ =>
    if isBuy = true ∧ outcomeId = k then filledAmount else 0
  | _ => 0

/-- Collateral a fill takes out of the lock of a buy order. -/
def drawn : Callback → ℕ
  | .onOrderFilled _ filledAmount clearingPrice true refundAmount feeAmount isRebate _ _ _ _ =>
    notionalOf filledAmount clearingPrice + refundAmount + if isRebate then 0 else feeAmount
  | _ => 0

/-- Collateral a fill adds to the balance of its note. -/
def earned : Callback → ℕ
  | .onOrderFilled _ _ _ true refundAmount feeAmount isRebate _ _ _ _ =>
    refundAmount + if isRebate then feeAmount else 0
  | .onOrderFilled _ filledAmount clearingPrice false _ feeAmount isRebate _ _ _ _ =>
    if isRebate then notionalOf filledAmount clearingPrice + feeAmount
    else notionalOf filledAmount clearingPrice - feeAmount
  | _ => 0

end Callback

theorem takerFeeOf_le (n : ℕ) : takerFeeOf n ≤ n := by
  unfold takerFeeOf TAKER_FEE_RATE FEE_DENOMINATOR
  omega

theorem takerFeeOf_add_le (m n : ℕ) : takerFeeOf m + takerFeeOf n ≤ takerFeeOf (m + n) := by
  unfold takerFeeOf
  rw [Nat.add_mul]
  exact Nat.div_add_div_le_add_div

theorem takerFeeOf_mono {m n : ℕ} (h : m ≤ n) : takerFeeOf m ≤ takerFeeOf n :=
  Nat.div_le_div_right (Nat.mul_le_mul_right _ h)

theorem notionalOf_add_le (a b price : ℕ) :
    notionalOf a price + notionalOf b price ≤ notionalOf (a + b) price := by
  unfold notionalOf
  rw [Nat.add_mul]
  exact Nat.div_add_div_le_add_div

theorem notionalOf_split_le (amount : ℕ) {price limit : ℕ} (h : price ≤ limit) :
    notionalOf amount price + notionalOf amount (limit - price) ≤ notionalOf amount limit := by
  unfold notionalOf
  refine Nat.div_add_div_le_add_div.trans ?_
  rw [← Nat.mul_add, Nat.add_sub_cancel' h]

namespace Item

theorem lock_drop {cost rest paid : ℕ} (h : rest + paid ≤ cost) :
    rest + takerFeeOf rest + (paid + takerFeeOf paid) ≤ cost + takerFeeOf cost := by
  have hfee := (takerFeeOf_add_le rest paid).trans (takerFeeOf_mono h)
  omega

theorem cost_after {x : Item} {trade price : ℕ} (hb : x.isBuy = true) (hp : x.isMarket = false →
    price ≤ x.price) (hle : x.spent trade price ≤ x.amount) :
    ({ x with amount := x.amount - x.spent trade price } : Item).cost +
      (notionalOf trade price + x.refund trade price) ≤ x.cost := by
  have hm : ({ x with amount := x.amount - x.spent trade price } : Item).isMarket = x.isMarket := rfl
  unfold cost
  rw [hm]
  simp only [hb, if_true]
  unfold spent refund at *
  cases hk : x.isMarket with
  | true =>
    simp only [hb, hk, and_self, not_true, and_false, if_true, if_false] at hle ⊢
    omega
  | false =>
    simp only [hb, hk, Bool.false_eq_true, and_false, not_false_eq_true, and_self, if_true,
      if_false] at hle ⊢
    have hsplit := notionalOf_split_le trade (hp hk)
    have hadd := notionalOf_add_le (x.amount - trade) trade x.price
    rw [Nat.sub_add_cancel hle] at hadd
    omega

end Item

variable {N : ℕ} {M M' : Multiset Item} {os : List Out}

theorem LedgerPath.keeps {f : Item → ℕ} {g : Out → ℕ}
    (hstep : ∀ M os M', LedgerStep N M os M' →
      (M'.map f).sum + (os.map g).sum = (M.map f).sum)
    (hp : LedgerPath N M os M') : (M'.map f).sum + (os.map g).sum = (M.map f).sum := by
  induction hp with
  | refl => simp
  | snoc hp hs ih =>
    have h := hstep _ _ _ hs
    rw [List.map_append, List.sum_append]
    omega

theorem LedgerPath.lowers {f : Item → ℕ} {g : Out → ℕ}
    (hstep : ∀ M os M', LedgerStep N M os M' →
      (M'.map f).sum + (os.map g).sum ≤ (M.map f).sum)
    (hp : LedgerPath N M os M') : (M'.map f).sum + (os.map g).sum ≤ (M.map f).sum := by
  induction hp with
  | refl => simp
  | snoc hp hs ih =>
    have h := hstep _ _ _ hs
    rw [List.map_append, List.sum_append]
    omega

/-- A ledger move hands out the outcome tokens its orders lose. -/
theorem LedgerStep.tokens (k : ℕ) (hs : LedgerStep N M os M') :
    (M'.map (Item.tokens k)).sum + (os.map fun o => o.cb.tokens k).sum =
      (M.map (Item.tokens k)).sum := by
  have hzero (x : Item) : Item.tokens k { x with amount := 0 } = 0 := by simp [Item.tokens]
  cases hs with
  | reject =>
    simp [Item.rejected, Callback.tokens, Item.tokens, Nat.add_comm]
  | place => simp [Item.placed, Callback.tokens, Item.tokens]
  | fill t m M trade c h h0 hm ht =>
    have hside := h.side
    have hout := h.outcome
    rw [Multiset.map_add, Multiset.map_add, Multiset.sum_add, Multiset.sum_add,
      Item.sum_after _ (hzero t), Item.sum_after _ (hzero m)]
    cases hb : m.isBuy with
    | true =>
      have htb : t.isBuy = false := by rw [hside, hb]; rfl
      have hsp : t.spent trade m.price = trade := by simp [Item.spent, htb]
      rw [hsp] at ht ⊢
      simp only [Item.makerFilled, Item.takerFilled, Callback.tokens, Item.tokens, hb, htb, hout,
        Multiset.map_cons, Multiset.sum_cons, List.map_cons, List.map_nil, List.sum_cons,
        List.sum_nil]
      split_ifs <;> simp_all
      all_goals omega
    | false =>
      have htb : t.isBuy = true := by rw [hside, hb]; rfl
      simp only [Item.makerFilled, Item.takerFilled, Callback.tokens, Item.tokens, hb, htb, hout,
        Multiset.map_cons, Multiset.sum_cons, List.map_cons, List.map_nil, List.sum_cons,
        List.sum_nil]
      split_ifs <;> simp_all
      all_goals omega
  | cancel x M returnAmt opNonce c hx hr =>
    cases hb : x.isBuy with
    | true => simp [Item.cancelled, Callback.tokens, Item.tokens, hb]
    | false => simp [Item.cancelled, Callback.tokens, Item.tokens, hb, hr hb, Nat.add_comm]
  | ack => simp [Callback.tokens]

/-- Figures of the orders and callbacks of one submission. -/
def Item.ofSub (k : ℕ) (f : Item → ℕ) (x : Item) : ℕ := if x.sub = k then f x else 0

def Out.ofSub (k : ℕ) (g : Callback → ℕ) (o : Out) : ℕ := if o.sub = k then g o.cb else 0

theorem Item.lock_zero (x : Item) : Item.lock { x with amount := 0 } = 0 := by
  simp [Item.lock, Item.cost, notionalOf, takerFeeOf]

theorem Item.lock_taker {t m : Item} {trade N : ℕ} (h : t.Matches m)
    (ht : t.spent trade m.price ≤ t.amount) :
    Item.lock { t with amount := t.amount - t.spent trade m.price } +
      (t.takerFilled trade m.price N).drawn ≤ t.lock := by
  rcases Bool.eq_false_or_eq_true t.isBuy with hb | hb
  · have hp : t.isMarket = false → m.price ≤ t.price := by
      intro hk
      simpa [Book.pricesCross, hb, hk] using h.cross
    have hcost := Item.cost_after hb hp ht
    have hdrop := Item.lock_drop hcost
    have hfee := takerFeeOf_mono (Nat.le_add_right (notionalOf trade m.price) (t.refund trade m.price))
    have hd : (t.takerFilled trade m.price N).drawn = notionalOf trade m.price +
        t.refund trade m.price + takerFeeOf (notionalOf trade m.price) := by
      simp [Item.takerFilled, Callback.drawn, hb]
    rw [hd]
    unfold Item.lock
    omega
  · simp [Item.lock, Item.cost, Item.takerFilled, Callback.drawn, hb]

theorem Item.lock_maker {m : Item} {trade N : ℕ} (hk : m.isMarket = false)
    (hm : trade ≤ m.amount) :
    Item.lock { m with amount := m.amount - trade } + (m.makerFilled trade N).drawn ≤ m.lock := by
  rcases Bool.eq_false_or_eq_true m.isBuy with hb | hb
  · have hs : m.spent trade m.price = trade := by simp [Item.spent, hk]
    have hcost := Item.cost_after hb (fun _ => le_rfl) (hs.symm ▸ hm : m.spent trade m.price ≤ _)
    rw [hs] at hcost
    have hdrop := Item.lock_drop hcost
    have hd : (m.makerFilled trade N).drawn = notionalOf trade m.price := by
      simp [Item.makerFilled, Callback.drawn, hb]
    rw [hd]
    unfold Item.lock
    omega
  · simp [Item.lock, Item.cost, Item.makerFilled, Callback.drawn, hb]

theorem LedgerStep.locks (k : ℕ) (hs : LedgerStep N M os M') :
    (M'.map (Item.ofSub k Item.lock)).sum + (os.map (Out.ofSub k Callback.drawn)).sum ≤
      (M.map (Item.ofSub k Item.lock)).sum := by
  have hzero (x : Item) : Item.ofSub k Item.lock { x with amount := 0 } = 0 := by
    simp [Item.ofSub, x.lock_zero]
  cases hs with
  | reject =>
    simp [Out.ofSub, Item.rejected, Callback.drawn]
  | place =>
    simp [Out.ofSub, Item.placed, Callback.drawn, Item.ofSub, Item.lock, Item.cost, Item.isMarket]
  | fill t m M trade c h h0 hm ht =>
    have h1 := Item.lock_taker (N := N) h ht
    have h2 := Item.lock_maker (N := N) h.limit hm
    rw [Multiset.map_add, Multiset.map_add, Multiset.sum_add, Multiset.sum_add,
      Item.sum_after _ (hzero t), Item.sum_after _ (hzero m)]
    simp only [Item.ofSub, Out.ofSub, Multiset.map_cons, Multiset.sum_cons, List.map_cons,
      List.map_nil, List.sum_cons, List.sum_nil]
    split_ifs <;> omega
  | cancel =>
    simp [Out.ofSub, Item.cancelled, Callback.drawn]
  | ack => simp [Out.ofSub, Callback.drawn]

theorem LedgerStep.collateral (hs : LedgerStep N M os M') :
    (((os.map fun o => o.cb.drawn).sum : ℕ) : ℤ) =
      ((os.map fun o => o.cb.earned).sum : ℕ) + (os.map fun o => o.cb.fee).sum := by
  cases hs with
  | reject => simp [Item.rejected, Callback.drawn, Callback.earned, Callback.fee]
  | place =>
    simp [Item.placed, Callback.drawn, Callback.earned, Callback.fee]
  | fill t m M trade c h h0 hm ht =>
    have hle := takerFeeOf_le (notionalOf trade m.price)
    have hside := h.side
    cases hb : m.isBuy with
    | true =>
      have htb : t.isBuy = false := by rw [hside, hb]; rfl
      simp [Item.makerFilled, Item.takerFilled, Callback.drawn, Callback.earned, Callback.fee, hb,
        htb]
      omega
    | false =>
      have htb : t.isBuy = true := by rw [hside, hb]; rfl
      simp [Item.makerFilled, Item.takerFilled, Callback.drawn, Callback.earned, Callback.fee, hb,
        htb]
      omega
  | cancel =>
    simp [Item.cancelled, Callback.drawn, Callback.earned, Callback.fee]
  | ack => simp [Callback.drawn, Callback.earned, Callback.fee]

theorem LedgerPath.collateral (hp : LedgerPath N M os M') :
    (((os.map fun o => o.cb.drawn).sum : ℕ) : ℤ) =
      ((os.map fun o => o.cb.earned).sum : ℕ) + (os.map fun o => o.cb.fee).sum := by
  induction hp with
  | refl => simp
  | snoc hp hs ih =>
    have h := hs.collateral
    simp only [List.map_append, List.sum_append]
    push_cast at *
    omega

theorem LedgerStep.frame (hs : LedgerStep N M os M') (X : Multiset Item) :
    LedgerStep N (M + X) os (M' + X) := by
  cases hs with
  | reject x M opNonce c hx =>
    rw [Multiset.cons_add]
    exact .reject x _ opNonce c hx
  | place x M id opNonce c hx hid ha =>
    rw [Multiset.cons_add, Multiset.cons_add]
    exact .place x _ id opNonce c hx hid ha
  | fill t m M trade c h h0 hm ht =>
    rw [Multiset.cons_add, Multiset.cons_add, add_assoc, add_assoc]
    exact .fill t m _ trade c h h0 hm ht
  | cancel x M returnAmt opNonce c hx hr =>
    rw [Multiset.cons_add]
    exact .cancel x _ returnAmt opNonce c hx hr
  | ack M dest opNonce c => exact .ack _ dest opNonce c

theorem LedgerPath.frame (hp : LedgerPath N M os M') (X : Multiset Item) :
    LedgerPath N (M + X) os (M' + X) := by
  induction hp with
  | refl => exact .refl _
  | snoc hp hs ih => exact ih.snoc (hs.frame X)

/-- The orders submitted in a run, numbered from `sub` on, as the book received them. -/
def received (sub : ℕ) : List (ℕ × PlaceParams) → Multiset Item
  | [] => 0
  | x :: xs => Item.ofParams sub x.1 0 x.2 ::ₘ received (sub + 1) xs

theorem received_append (sub : ℕ) (xs ys : List (ℕ × PlaceParams)) :
    received sub (xs ++ ys) = received sub xs + received (sub + xs.length) ys := by
  induction xs generalizing sub with
  | nil => simp [received]
  | cons x xs ih =>
    rw [List.cons_append, received, received, ih, Multiset.cons_add, List.length_cons,
      Nat.add_right_comm, Nat.add_assoc]

theorem received_map (h sub : ℕ) (ops : List PlaceParams) :
    received sub (ops.map fun p => (h, p)) = submission h sub ops := by
  induction ops generalizing sub with
  | nil => rfl
  | cons p ops ih => rw [List.map_cons, received, submission, ih]

theorem Call.received_orders (c : Call) (sub : ℕ) : received sub c.orders = c.submitted sub := by
  cases c with
  | executeBatch sender now h orders => exact received_map h sub orders
  | _ => rfl

theorem received_tokens (k sub : ℕ) (xs : List (ℕ × PlaceParams)) :
    ((received sub xs).map (Item.tokens k)).sum = (xs.map fun x => x.2.tokens k).sum := by
  induction xs generalizing sub with
  | nil => rfl
  | cons x xs ih =>
    rw [received, Multiset.map_cons, Multiset.sum_cons, List.map_cons, List.sum_cons, ih]
    rfl

theorem received_below (f : Item → ℕ) {k sub : ℕ} (h : k < sub) (xs : List (ℕ × PlaceParams)) :
    ((received sub xs).map (Item.ofSub k f)).sum = 0 := by
  induction xs generalizing sub with
  | nil => rfl
  | cons x xs ih =>
    have hne : (Item.ofParams sub x.1 0 x.2).sub ≠ k := by
      intro he
      exact absurd (he.symm.trans rfl : k = sub) h.ne
    rw [received, Multiset.map_cons, Multiset.sum_cons, ih (Nat.lt_succ_of_lt h), Item.ofSub,
      if_neg hne]

theorem received_ofSub (f : Item → ℕ) (sub : ℕ) {i : ℕ} {x : ℕ × PlaceParams}
    {xs : List (ℕ × PlaceParams)} (h : xs[i]? = some x) :
    ((received sub xs).map (Item.ofSub (sub + i) f)).sum =
      f (Item.ofParams (sub + i) x.1 0 x.2) := by
  induction xs generalizing sub i with
  | nil => exact absurd h (by simp)
  | cons y xs ih =>
    rw [received, Multiset.map_cons, Multiset.sum_cons]
    cases i with
    | zero =>
      obtain rfl : y = x := by simpa using h
      rw [Nat.add_zero, received_below f (Nat.lt_succ_self sub), Nat.add_zero]
      exact if_pos rfl
    | succ i =>
      have hne : (Item.ofParams sub y.1 0 y.2).sub ≠ sub + (i + 1) := by
        simp [Item.ofParams]
      have hi := ih (sub + 1) (by simpa using h)
      rw [Nat.add_right_comm, Nat.add_assoc] at hi
      rw [Item.ofSub, if_neg hne, Nat.zero_add]
      exact hi

/-- Protocol fees reported to the root in a run. -/
def collected (tr : List (Call × OrderBook)) : ℕ :=
  (tr.map fun x => (x.2.actions.map Action.collected).sum).sum

namespace OrderBook

variable {market : MarketId} {resultStart numOutcomes : ℕ} {tr : List (Call × OrderBook)}
  {s : OrderBook}

/-- The books of a run: one path of the ledger from all submitted orders to those still held, and
the fees of its callbacks. -/
structure Booked (N : ℕ) (tr : List (Call × OrderBook)) (s : OrderBook) : Prop where
  ok : s.Ok
  outcomes : s.numOutcomes = N
  subs : s.subs = (submissions tr).length
  path : LedgerPath N (received 0 (submissions tr)) (traceOuts tr) s.items
  fees : ((s.totalProtocolFees + collected tr : ℕ) : ℤ) = ((traceOuts tr).map fun o => o.cb.fee).sum

theorem run_booked (h : Run step (init market resultStart numOutcomes) tr s) :
    Booked numOutcomes tr s := by
  refine h.invariant (Booked numOutcomes) ⟨.init _ _ _, rfl, rfl, ?_, rfl⟩ ?_
  · rw [init_items]
    exact .refl _
  · intro tr t c u _ ht hc
    have hm := step_moves ht.ok hc
    refine ⟨hm.ok, hm.numOutcomes.trans ht.outcomes, ?_, ?_, ?_⟩
    · rw [hm.subs, ht.subs, submissions_snoc, List.length_append, c.orders_length]
    · have hp := ht.path.frame (c.submitted t.subs)
      have hq := hm.path
      rw [ht.outcomes, add_comm] at hq
      rw [submissions_snoc, traceOuts_snoc, received_append, Nat.zero_add, ← ht.subs,
        c.received_orders]
      exact hp.trans hq
    · have hf := hm.fees
      have hi := ht.fees
      rw [traceOuts_snoc, List.map_append, List.sum_append, ← hi]
      have hcol : collected (tr ++ [(c, u)]) = collected tr + (u.actions.map Action.collected).sum := by
        simp [collected]
      rw [hcol]
      unfold feeTotal at hf
      push_cast at hf ⊢
      omega

/-- Outcome tokens are neither made nor lost: the tokens of every sell order submitted in a run are
in the book, delivered to buyers or returned. -/
theorem tokens_conserved (h : Run step (init market resultStart numOutcomes) tr s) (k : ℕ) :
    (s.items.map (Item.tokens k)).sum + ((traceOuts tr).map fun o => o.cb.tokens k).sum =
      ((submissions tr).map fun x => x.2.tokens k).sum := by
  rw [← received_tokens k 0]
  exact (run_booked h).path.keeps fun _ _ _ hs => hs.tokens k

/-- Every unit of collateral the fills of a run take from the locks of the buyers is paid out to a
note, held by the book as a fee, or reported to the root. -/
theorem collateral_conserved (h : Run step (init market resultStart numOutcomes) tr s) :
    ((traceOuts tr).map fun o => o.cb.drawn).sum =
      ((traceOuts tr).map fun o => o.cb.earned).sum + (s.totalProtocolFees + collected tr) := by
  have hp := (run_booked h).path.collateral
  rw [← (run_booked h).fees] at hp
  exact_mod_cast hp

/-- The fills of one order never draw more collateral than the order locks when it is submitted,
and leave what the rest of it may still need. -/
theorem fills_within_lock (h : Run step (init market resultStart numOutcomes) tr s) {k owner : ℕ}
    {p : PlaceParams} (hk : (submissions tr)[k]? = some (owner, p)) :
    (s.items.map (Item.ofSub k Item.lock)).sum +
        ((traceOuts tr).map (Out.ofSub k Callback.drawn)).sum ≤
      (Item.ofParams k owner 0 p).lock := by
  have hp := (run_booked h).path.lowers fun _ _ _ hs => hs.locks k
  have hr := received_ofSub Item.lock 0 hk
  rw [Nat.zero_add] at hr
  exact hp.trans_eq hr

/-- Two asks, and a buy at a better limit that one and a half of them fill. -/
def tradeCalls : List Call :=
  [sampleCall, .processHead, .executeBatch (.note 8) 1 8 [⟨0, true, 0, 6000, 6000000, 0, 0, 0⟩] [] 1]

theorem trade_tokens_conserved :
    let tr := Run.trace step sampleBook tradeCalls
    ((Run.last sampleBook tr).items.map (Item.tokens 0)).sum = 2000000 ∧
      ((Run.last sampleBook tr).items.map (Item.tokens 0)).sum +
        ((traceOuts tr).map fun o => o.cb.tokens 0).sum =
          ((submissions tr).map fun x => x.2.tokens 0).sum :=
  ⟨by decide +kernel, tokens_conserved (Run.trace_run step sampleBook tradeCalls) 0⟩

theorem trade_collateral_conserved :
    let tr := Run.trace step sampleBook tradeCalls
    0 < ((traceOuts tr).map fun o => o.cb.drawn).sum ∧
      ((traceOuts tr).map fun o => o.cb.drawn).sum = ((traceOuts tr).map fun o => o.cb.earned).sum +
        ((Run.last sampleBook tr).totalProtocolFees + collected tr) :=
  ⟨by decide +kernel, collateral_conserved (Run.trace_run step sampleBook tradeCalls)⟩

theorem trade_fills_within_lock :
    let tr := Run.trace step sampleBook tradeCalls
    ((Run.last sampleBook tr).items.map (Item.ofSub 2 Item.lock)).sum +
        ((traceOuts tr).map (Out.ofSub 2 Callback.drawn)).sum ≤
      (Item.ofParams 2 8 0 ⟨0, true, 0, 6000, 6000000, 0, 0, 0⟩).lock :=
  fills_within_lock (Run.trace_run step sampleBook tradeCalls) (by decide +kernel)

end OrderBook

end Dexdo
