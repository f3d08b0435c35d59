import Dexdo.OrderBook.Acks

namespace Dexdo

namespace Item

/-- What the book may still have to do for an item. -/
def weight (x : Item) : ℕ := x.amount + if x.orderId = 0 then 2 else 1

/-- What the book may still have to do for the orders it holds. -/
def totalWeight (M : Multiset Item) : ℕ := (M.map weight).sum

@[simp] theorem totalWeight_cons (x : Item) (M : Multiset Item) :
    totalWeight (x ::ₘ M) = x.weight + totalWeight M := by simp [totalWeight]

@[simp] theorem totalWeight_add (M M' : Multiset Item) :
    totalWeight (M + M') = totalWeight M + totalWeight M' := by simp [totalWeight]

theorem weight_pos (x : Item) : 0 < x.weight := by
  unfold weight
  split_ifs <;> omega

theorem totalWeight_after (x : Item) {spent : ℕ} (h : spent ≤ x.amount) :
    totalWeight (x.after spent) + spent ≤ x.weight := by
  unfold after
  by_cases he : x.amount = spent
  · rw [if_pos he]
    simp [totalWeight, weight, he]
  · rw [if_neg he]
    simp only [totalWeight, weight, Multiset.map_singleton, Multiset.sum_singleton]
    omega

end Item

open Item (totalWeight)

variable {N : ℕ} {M M' : Multiset Item} {os : List Out}

theorem LedgerStep.weight (hs : LedgerStep N M os M') : totalWeight M' ≤ totalWeight M ∧
    ((∃ o ∈ os, o.cb.isAck = false) → totalWeight M' < totalWeight M) := by
  cases hs with
  | reject x M opNonce c hx =>
    have := x.weight_pos
    simp
    omega
  | place x M id opNonce c hx hid =>
    have : Item.weight { x with orderId := id } < x.weight := by simp [Item.weight, hx, hid]
    simp
    omega
  | fill t m M trade c hm h0 hle ht =>
    have h1 := t.totalWeight_after ht
    have h2 := m.totalWeight_after hle
    simp
    omega
  | cancel x M returnAmt opNonce c hx hr =>
    have := x.weight_pos
    simp
    omega
  | ack => simp [Callback.isAck]

theorem LedgerPath.weight (hp : LedgerPath N M os M') : totalWeight M' ≤ totalWeight M ∧
    ((∃ o ∈ os, o.cb.isAck = false) → totalWeight M' < totalWeight M) := by
  induction hp with
  | refl => simp
  | snoc hp hs ih =>
    obtain ⟨h1, h2⟩ := hs.weight
    refine ⟨h1.trans ih.1, ?_⟩
    rintro ⟨o, ho, hack⟩
    rcases List.mem_append.mp ho with ho | ho
    · exact h1.trans_lt (ih.2 ⟨o, ho, hack⟩)
    · exact (h2 ⟨o, ho, hack⟩).trans_le ih.1

namespace OrderBook

variable {s t : OrderBook} {e e' : QueueEntry} {n : ℕ} {A : Book.Index}

theorem cancelAllWalk_outs (callerHash opNonce batch left cur : ℕ) :
    (cancelAllWalk callerHash opNonce batch left cur s).1.outs.length +
      (cancelAllWalk callerHash opNonce batch left cur s).2 = s.outs.length + left := by
  induction left generalizing cur s with
  | zero => rfl
  | succ left ih =>
    unfold cancelAllWalk
    split_ifs
    · rfl
    · rw [ih]
      simp [cancelResting, notifyCancelled, act_outs, Action.out?]
      omega

theorem doCancelAll_outs (callerHash opNonce batch : ℕ)
    (h : MAX_CANCEL_ALL_PER_CALL ≤ (s.doCancelAll callerHash opNonce batch).2) :
    s.outs.length < (s.doCancelAll callerHash opNonce batch).1.outs.length := by
  have := cancelAllWalk_outs (s := s) callerHash opNonce batch MAX_CANCEL_ALL_PER_CALL
    (s.ownerHead callerHash)
  unfold doCancelAll MAX_CANCEL_ALL_PER_CALL at *
  dsimp only at *
  omega

theorem fillMaker_outs_length (e : QueueEntry) (orderId cur q remaining trade : ℕ) :
    (s.fillMaker e orderId cur q remaining trade).outs.length = s.outs.length + 2 := by
  unfold fillMaker
  dsimp only
  rw [setBook_outs, emitMakerFill_outs, processFillTo_outs, processFillTo_outs]
  simp [outs]

theorem applyFills_outs_length (e : QueueEntry) (orderId : ℕ) (fills : List Fill) :
    (applyFills e orderId s fills).outs.length = s.outs.length + 2 * fills.length := by
  induction fills generalizing s with
  | nil => rfl
  | cons f fills ih =>
    rw [applyFills_cons, ih, fillMaker_outs_length, List.length_cons]
    omega

/-- Opposite levels a pre-check has not walked yet. -/
def precheckLeft (b : Book) (e : QueueEntry) : ℕ :=
  let prices := b.oppPrices e.params.outcomeId e.params.isBuy e.params.epochId
  if e.precheckAccum = 0 then prices.length + 1
  else (prices.filter (Book.worse e.params.isBuy e.precheckLastPrice)).length

theorem level_total_pos (r : s.toBook.Rep n A) (p : PlaceParams) {q : ℕ}
    (hq : q ∈ s.oppPrices p.outcomeId p.isBuy p.epochId) :
    0 < (s.level p.oppKey q).totalAmount := by
  rw [Book.mem_oppPrices] at hq
  have hne := (r.level_iff p.oppKey q).mp hq
  rw [r.total]
  obtain ⟨x, l, hl⟩ := List.exists_cons_of_ne_nil hne
  have hx := (r.mem_price p.oppKey q x).mp (by simp [hl])
  have := (r.bound x hx.1).2.2
  simp only [hl, List.map_cons, List.sum_cons]
  omega

/-- A pre-check walk that runs out of budget ends at a level it has counted. -/
theorem precheckWalk_budget (r : s.toBook.Rep n A) (p : PlaceParams) (need budget accum : ℕ)
    {done rest : List ℕ} (hp : s.oppPrices p.outcomeId p.isBuy p.epochId = done ++ rest)
    {accum' q : ℕ} (h : s.precheckWalk p need budget
      (rest.head?.map fun q => (q, s.level p.oppKey q)) accum = .outOfBudget accum' q) :
    0 < accum' ∧ ∃ done' rest', s.oppPrices p.outcomeId p.isBuy p.epochId = done' ++ q :: rest' ∧
      rest'.length < rest.length := by
  induction budget generalizing done rest accum with
  | zero => simp [precheckWalk] at h
  | succ budget ih =>
    cases rest with
    | nil => simp [precheckWalk] at h
    | cons x rest =>
      simp only [List.head?_cons, Option.map_some, precheckWalk] at h
      have hpos := level_total_pos r p (q := x) (by simp [hp])
      split_ifs at h with h1 h2 h3
      · simp only [Precheck.outOfBudget.injEq] at h
        obtain ⟨rfl, rfl⟩ := h
        exact ⟨by omega, done, rest, hp, by simp⟩
      · have hsorted := s.oppPrices_sorted p.outcomeId p.isBuy p.epochId
        rw [hp] at hsorted
        have hirr : Book.worse p.isBuy x x = false := by
          unfold Book.worse
          split_ifs <;> simp
        have hp' : s.oppPrices p.outcomeId p.isBuy p.epochId = (done ++ [x]) ++ rest := by
          rw [hp]
          simp
        have hnext := s.nextOpposite_eq p.outcomeId p.isBuy p.epochId (q := x) hp' (by
            intro y hy
            rcases List.mem_append.mp hy with hy | hy
            · have := (List.pairwise_append.mp hsorted).2.2 y hy x (by simp)
              unfold Book.worse at this ⊢
              split_ifs at this ⊢ <;> simp at this ⊢ <;> omega
            · rw [List.mem_singleton.mp hy]
              exact hirr)
          (List.pairwise_cons.mp (List.pairwise_append.mp hsorted).2.1).1
        rw [hnext] at h
        obtain ⟨g1, done', rest', g2, g3⟩ := ih _ hp' h
        exact ⟨g1, done', rest', g2, by simp; omega⟩

theorem filter_worse_split {isBuy : Bool} {q : ℕ} {done rest : List ℕ}
    (hd : ∀ x ∈ done, Book.worse isBuy q x = false)
    (hr : ∀ x ∈ rest, Book.worse isBuy q x = true) :
    (done ++ rest).filter (Book.worse isBuy q) = rest := by
  rw [List.filter_append, List.filter_eq_nil_iff.mpr (by simpa using hd), List.nil_append,
    List.filter_eq_self.mpr hr]

theorem exists_split_worse (isBuy : Bool) (q : ℕ) {l : List ℕ}
    (h : l.Pairwise fun x y => Book.worse isBuy x y = true) :
    ∃ done rest, l = done ++ rest ∧ (∀ x ∈ done, Book.worse isBuy q x = false) ∧
      ∀ x ∈ rest, Book.worse isBuy q x = true := by
  induction l with
  | nil => exact ⟨[], [], rfl, by simp, by simp⟩
  | cons x l ih =>
    obtain ⟨hx, hl⟩ := List.pairwise_cons.mp h
    cases hq : Book.worse isBuy q x with
    | true =>
      refine ⟨[], x :: l, rfl, by simp, fun y hy => ?_⟩
      rcases List.mem_cons.mp hy with rfl | hy
      · exact hq
      · have := hx y hy
        unfold Book.worse at *
        split_ifs at * <;> simp at * <;> omega
    | false =>
      obtain ⟨done, rest, rfl, h1, h2⟩ := ih hl
      exact ⟨x :: done, rest, rfl, by simpa [hq] using h1, h2⟩

/-- Every further pass of a pre-check has fewer levels before it. -/
theorem precheck_budget (r : s.toBook.Rep n A) {accum q : ℕ}
    (h : s.precheck e = .outOfBudget accum q) (he : e'.params = e.params)
    (ha : e'.precheckAccum = accum) (hq : e'.precheckLastPrice = q) :
    precheckLeft s.toBook e' < precheckLeft s.toBook e := by
  have hsorted := s.oppPrices_sorted e.params.outcomeId e.params.isBuy e.params.epochId
  have hwalk : ∃ done rest,
      s.oppPrices e.params.outcomeId e.params.isBuy e.params.epochId = done ++ rest ∧
      rest.length ≤ precheckLeft s.toBook e ∧
      s.precheckWalk e.params (minFill e.params) MAX_PRECHECK_ITERATIONS
        (rest.head?.map fun q => (q, s.level e.params.oppKey q)) e.precheckAccum =
        .outOfBudget accum q := by
    unfold precheck at h
    dsimp only at h
    split_ifs at h with h1 h2
    · rw [Book.bestOpposite_eq] at h
      refine ⟨[], s.oppPrices e.params.outcomeId e.params.isBuy e.params.epochId, rfl, ?_, h⟩
      rw [precheckLeft, if_pos h2]
      exact Nat.le_succ _
    · obtain ⟨done, rest, hs, hd, hr⟩ :=
        exists_split_worse e.params.isBuy e.precheckLastPrice hsorted
      rw [s.nextOpposite_eq _ _ _ hs hd hr] at h
      refine ⟨done, rest, hs, ?_, h⟩
      rw [precheckLeft]
      simp [h2, hs, filter_worse_split hd hr]
  obtain ⟨done, rest, hs, hle, hw⟩ := hwalk
  obtain ⟨hpos, done', rest', hs', hlt⟩ := precheckWalk_budget r e.params _ _ _ hs hw
  rw [hs'] at hsorted
  have hleft : precheckLeft s.toBook e' = rest'.length := by
    have hd : ∀ x ∈ done' ++ [q], Book.worse e.params.isBuy q x = false := by
      intro y hy
      rcases List.mem_append.mp hy with hy | hy
      · have := (List.pairwise_append.mp hsorted).2.2 y hy q (by simp)
        unfold Book.worse at this ⊢
        split_ifs at this ⊢ <;> simp at this ⊢ <;> omega
      · rw [List.mem_singleton.mp hy]
        unfold Book.worse
        split_ifs <;> simp
    have hr := (List.pairwise_cons.mp (List.pairwise_append.mp hsorted).2.1).1
    have := filter_worse_split hd hr
    rw [precheckLeft, he, ha, hq, hs', if_neg hpos.ne']
    simpa using congrArg List.length this
  omega

/-- A PLACE entry that stays at the head has been answered or is further in its pre-check. -/
theorem doPlace_stays (h : s.BookOk) (h1 : 0 < s.nextOrderId) (hamt : 0 < e.params.amount)
    (ht : e.targetOrderId ≠ 0 → s.Fresh e.targetOrderId) (hc : (s.doPlace e).2 = some e') :
    s.outs.length < (s.doPlace e).1.outs.length ∨
      ((s.doPlace e).1 = s ∧ precheckLeft s.toBook e' < precheckLeft s.toBook e) := by
  obtain ⟨-, hbook, hfresh, -⟩ := openOrder_spec (K := 0) e h h1 hamt ht
  have hphase := placePhases_spec (K := 0) e _ hbook hfresh hamt
  obtain ⟨-, os, ho, -⟩ := hphase.emits
  unfold doPlace at hc ⊢
  dsimp only at *
  by_cases h0 : e.targetOrderId = 0
  · left
    rw [ho]
    have : (s.openOrder e).1.outs.length = s.outs.length + 1 := by
      rw [openOrder, if_pos h0, emitOrderPlacedTo, act_outs, emit_outs,
        List.length_append]
      rfl
    rw [List.length_append]
    omega
  · have hopen : s.openOrder e = (s, e.targetOrderId) := by simp [openOrder, h0]
    rw [hopen] at hc ⊢
    obtain ⟨A, r⟩ := h.rep
    unfold placePhases at hc ⊢
    dsimp only at hc ⊢
    split_ifs at hc ⊢ with hpo
    cases hpre : s.precheck e with
    | notReached => simp [hpre] at hc
    | outOfBudget =>
      rw [hpre] at hc
      cases hc
      exact .inr ⟨rfl, precheck_budget r hpre rfl rfl rfl⟩
    | reached =>
      rw [hpre] at hc
      left
      dsimp only at hc ⊢
      unfold matchPhase at hc ⊢
      rw [matchOrder_eq e _ r] at hc ⊢
      dsimp only at hc ⊢
      split_ifs at hc ⊢ with hcap
      have hlen := walk_capped_length _ _ _ _ hcap
      rw [applyFills_outs_length, passWalk, hlen]
      unfold MAX_MATCHES_PER_CALL
      omega

theorem runHead_stays (h : s.Ok) (hs : s.queueSize ≠ 0)
    (hr : (s.runHead (s.queue s.queueHead)).2 = true) :
    let t := (s.runHead (s.queue s.queueHead)).1
    s.outs.length < t.outs.length ∨ (t.toBook = s.toBook ∧
      precheckLeft s.toBook (t.queue t.queueHead) <
        precheckLeft s.toBook (s.queue s.queueHead)) := by
  intro t
  have hl := h.list_cons hs
  obtain ⟨e, he⟩ : ∃ e, s.queue s.queueHead = e := ⟨_, rfl⟩
  rw [he] at hl hr ⊢
  have htr : t = (s.runHead e).1 := by rw [← he]
  clear_value t
  subst htr
  cases ht : e.entryType with
  | none => exact absurd ht (h.typed e (by rw [hl]; simp))
  | cancel => simp [runHead, ht] at hr
  | cancelAll =>
    simp only [runHead, ht, reduceCtorEq, if_false, if_true, decide_eq_true_eq] at hr
    left
    simpa [runHead, ht] using doCancelAll_outs _ _ _ hr
  | place =>
    rcases hdp : s.doPlace e with ⟨u, _ | e'⟩
    · simp [runHead, ht, hdp] at hr
    · have hstay := doPlace_stays h.book h.pos (h.amount e (by rw [hl]; simp) ht)
        (h.head e (by rw [hl]; rfl) ht) (congrArg Prod.snd hdp)
      have htu : (s.runHead e).1 = { u with queue := Function.update u.queue u.queueHead e' } := by
        simp [runHead, ht, hdp]
      rw [hdp] at hstay
      rw [htu]
      refine hstay.imp id ?_
      rintro ⟨h1, h2⟩
      have hb : u.toBook = s.toBook := congrArg (fun x : OrderBook => x.toBook) h1
      exact ⟨hb, by simpa using h2⟩

theorem HeadPass.weight_le {rest : List QueueEntry} {stay : Option QueueEntry} {os : List Out}
    (h : HeadPass s t e rest stay os) : totalWeight t.items ≤ totalWeight s.items := h.path.weight.1

theorem HeadPass.weight_lt {rest : List QueueEntry} {stay : Option QueueEntry} {os : List Out}
    (h : HeadPass s t e rest stay os) (hs : stay.isSome = true)
    (hl : s.outs.length < t.outs.length) : totalWeight t.items < totalWeight s.items := by
  obtain ⟨e', rfl⟩ := Option.isSome_iff_exists.mp hs
  have ho := h.outs
  rw [if_neg (by simp), List.append_nil] at ho
  rw [ho, List.length_append] at hl
  obtain ⟨o, ho⟩ := List.exists_mem_of_length_pos (show 0 < os.length by omega)
  exact h.path.weight.2 ⟨o, ho, (h.cause o ho).2⟩

theorem HeadPass.size {rest : List QueueEntry} {stay : Option QueueEntry} {os : List Out}
    (h : HeadPass s t e rest stay os) : t.queueSize + 1 = s.queueSize + stay.toList.length := by
  have h1 := congrArg List.length h.before
  have h2 := congrArg List.length h.after
  rw [Queue.list_length] at h1 h2
  rw [List.length_append] at h2
  rw [List.length_cons] at h1
  omega

/-- Progress of a pass over the head, compared lexicographically. -/
theorem pass_less (h : s.Ok) (hs : s.queueSize ≠ 0) :
    let t := s.processHeadCore
    totalWeight t.items < totalWeight s.items ∨
      totalWeight t.items = totalWeight s.items ∧ (t.queueSize < s.queueSize ∨
        t.queueSize = s.queueSize ∧ precheckLeft t.toBook (t.queue t.queueHead) <
          precheckLeft s.toBook (s.queue s.queueHead)) := by
  intro t
  have hd : s.shuttingDown = false := by
    by_contra hd
    exact hs (h.down (by simpa using hd)).1
  suffices hpass : ∃ e rest stay os, HeadPass s t e rest stay os ∧ (stay.isSome = true →
      s.outs.length < t.outs.length ∨ precheckLeft t.toBook (t.queue t.queueHead) <
        precheckLeft s.toBook (s.queue s.queueHead)) by
    obtain ⟨e, rest, stay, os, hp, hst⟩ := hpass
    have hle := hp.weight_le
    have hsize := hp.size
    cases stay with
    | none =>
      simp only [Option.toList_none, List.length_nil] at hsize
      omega
    | some e' =>
      simp only [Option.toList_some, List.length_singleton] at hsize
      rcases hst rfl with hlt | hlt
      · exact .inl (hp.weight_lt rfl hlt)
      · omega
  have ht : t = if s.shutdownPending ∧ ¬ (s.queue s.queueHead).precheckDone then
      s.refuseHead (s.queue s.queueHead) else
      (if (s.runHead (s.queue s.queueHead)).2 then (s.runHead (s.queue s.queueHead)).1
        else (s.runHead (s.queue s.queueHead)).1.finishHead (s.queue s.queueHead)).pokeNext := by
    simp [t, processHeadCore, hd, hs]
  by_cases h3 : s.shutdownPending ∧ ¬ (s.queue s.queueHead).precheckDone
  · rw [if_pos h3] at ht
    obtain ⟨-, -, os, g3⟩ := refuseHead_spec h (h.list_cons hs) hd
    exact ⟨_, _, none, os, ht ▸ g3, by simp⟩
  · rw [if_neg h3] at ht
    obtain ⟨stay, os, ⟨-, -, g3⟩, hst⟩ := runHead_spec h hs hd
    refine ⟨_, _, stay, os, ht ▸ g3, fun hsome => ?_⟩
    have hr := hst.symm.trans hsome
    rw [if_pos hr] at ht
    rw [ht, pokeNext_outs, pokeNext_same (s := (s.runHead (s.queue s.queueHead)).1)]
    refine (runHead_stays h hs hr).imp id fun hp => ?_
    rw [hp.1]
    exact hp.2

theorem exists_drain (s : OrderBook) (h : s.Ok) (hM : Item.Checked s.items) :
    ∃ tr t, Run step s tr t ∧ (∀ x ∈ tr, x.1 = .processHead) ∧ t.queueSize = 0 := by
  by_cases hs : s.queueSize = 0
  · exact ⟨[], s, .nil, by simp, hs⟩
  · have hd : s.shuttingDown = false := by
      by_contra hd
      exact hs (h.down (by simpa using hd)).1
    have hbody : s.body .processHead = some s.begin.processHeadCore := by
      simp [body, destroyed, hd, processHead]
    obtain ⟨hstep, hM'⟩ := body_step h (by simpa [Call.submitted] using hM) hbody
    have hless := pass_less (begin_ok h) hs
    obtain ⟨tr, t, hr, hall, ht⟩ := exists_drain _ (step_moves h hstep).ok hM'
    exact ⟨_, t, .cons hstep hr, by simpa using hall, ht⟩
termination_by (totalWeight s.items, s.queueSize, precheckLeft s.toBook (s.queue s.queueHead))
decreasing_by
  rw [Prod.lex_def, Prod.lex_def]
  exact hless

/-- The note that sends an order has made the sum of its lock already, with the same result. -/
def Sent (tr : List (Call × OrderBook)) : Prop :=
  ∀ x ∈ submissions tr, (placeLock x.2).isSome = true

theorem submission_checked {owner sub : ℕ} {ops : List PlaceParams}
    (h : ∀ p ∈ ops, (placeLock p).isSome = true) : Item.Checked (submission owner sub ops) := by
  induction ops generalizing sub with
  | nil => simp [submission, Item.Checked]
  | cons p ops ih =>
    rw [submission, Item.checked_cons]
    refine ⟨fun _ => ?_, ih fun q hq => h q (.tail _ hq)⟩
    have hp := h p (.head _)
    unfold placeLock add128 at hp
    change (if p.isBuy then placeCost p else 0) +
      takerFeeOf (if p.isBuy then placeCost p else 0) < 2 ^ 128
    split_ifs at hp ⊢ with hb hlt
    · exact hlt
    · cases hp
    · decide

theorem submitted_checked {c : Call} {sub : ℕ}
    (h : ∀ x ∈ c.orders, (placeLock x.2).isSome = true) : Item.Checked (c.submitted sub) := by
  cases c with
  | executeBatch sender now owner =>
    exact submission_checked fun p hp => h (owner, p) (List.mem_map.mpr ⟨p, hp, rfl⟩)
  | _ => simp [Call.submitted, Item.Checked]

theorem step_checked (hs : s.Ok) {c : Call} (h : s.step c = some t)
    (hc : ∀ x ∈ c.orders, (placeLock x.2).isSome = true) (hM : Item.Checked s.items) :
    Item.Checked t.items :=
  (body_step hs (Item.checked_add.mpr ⟨submitted_checked hc, hM⟩) (step_body h)).2

theorem run_checked {market : MarketId} {resultStart numOutcomes : ℕ}
    {tr : List (Call × OrderBook)}
    (h : Run step (OrderBook.init market resultStart numOutcomes) tr s) (hn : Sent tr) :
    Item.Checked s.items := by
  refine h.invariant (fun tr s => Sent tr → Item.Checked s.items) ?_ ?_ hn
  · simp [init_items, Item.Checked]
  · intro tr t c u hr ih hu hn
    simp only [Sent, submissions_snoc, List.mem_append] at hn
    exact step_checked (run_ok hr) hu (fun x hx => hn x (.inr hx))
      (ih fun x hx => hn x (.inl hx))

theorem Ok.destroyed_items (h : s.Ok) (hd : s.destroyed) : s.items = 0 := by
  simp only [destroyed, Bool.and_eq_true, decide_eq_true_eq] at hd
  obtain ⟨hq, hst⟩ := h.down hd.1
  obtain ⟨A, r⟩ := h.book.rep
  have hnone : (Finset.range s.nextOrderId).filter s.Stored = ∅ := by
    refine Finset.filter_eq_empty_iff.mpr fun i hi hsi => ?_
    have := hst i hsi
    have := Finset.mem_range.mp hi
    omega
  rw [items, s.toQueue.list_eq_nil_iff.mpr hq, Book.resting, hnone]
  rfl

theorem run_tracked {market : MarketId} {resultStart numOutcomes : ℕ}
    {tr : List (Call × OrderBook)}
    (h : Run step (OrderBook.init market resultStart numOutcomes) tr s) :
    Tracked tr s ∧ Filed (acceptedCalls tr) (traceOuts tr) s := by
  refine h.invariant (fun tr s => Tracked tr s ∧ Filed (acceptedCalls tr) (traceOuts tr) s) ?_ ?_
  · refine ⟨⟨rfl, ?_, by simp [traceOuts], by simp [submissions]⟩, rfl, ⟨trivial, ?_⟩, by simp [traceOuts],
      by simp [acceptedCalls]⟩
    · simp [init_items]
    · simp [OrderBook.init]
  · intro tr t c u hr ht hu
    refine ⟨ht.1.step (step_moves (run_ok hr) hu), ?_⟩
    have := ht.2.step (run_ok hr) hu
    rw [traceOuts_snoc, acceptedCalls, List.filterMap_append]
    cases hc : c.accepted? with
    | none => simpa [acceptedCalls, hc] using this
    | some => simpa [acceptedCalls, hc] using this

/-- In every run each submitted order is answered as its place in the book demands, each accepted
call is acknowledged exactly once and last, and a book that is gone has closed every order. Pokes
alone bring every queued entry to its answer, the orders being those of notes, which have made the
sums of their locks. -/
theorem orders_answered_once {market : MarketId} {resultStart numOutcomes : ℕ}
    {tr : List (Call × OrderBook)}
    (h : Run step (OrderBook.init market resultStart numOutcomes) tr s) :
    (∀ k owner p, (submissions tr)[k]? = some (owner, p) →
      Answered ⟨owner, p.clientOrderId⟩ (Item.of k s.items) (answers k (traceOuts tr))) ∧
    (∀ b c, (acceptedCalls tr)[b]? = some c → AckState c b s.toQueue.list (traceOuts tr)) ∧
    (s.destroyed → s.items = 0) ∧
    (Sent tr → ∃ tr' t, Run step (OrderBook.init market resultStart numOutcomes) (tr ++ tr') t ∧
      (∀ x ∈ tr', x.1 = .processHead) ∧ t.queueSize = 0) := by
  obtain ⟨ht, hf⟩ := run_tracked h
  refine ⟨ht.answered, hf.acks, (run_ok h).destroyed_items, fun hn => ?_⟩
  obtain ⟨tr', t, hr, hall, hq⟩ := exists_drain s (run_ok h) (run_checked h hn)
  exact ⟨tr', t, h.append hr, hall, hq⟩

theorem sampleCall_answered : ∃ s : OrderBook,
    answers 0 (traceOuts [(sampleCall, s)]) = [(⟨7, 0⟩, .placed 1)] ∧
    ∃ tr' t, Run step sampleBook ([(sampleCall, s)] ++ tr') t ∧
      (∀ x ∈ tr', x.1 = .processHead) ∧ t.queueSize = 0 :=
  ⟨(sampleBook.step sampleCall).get sampleCall_accepted, by decide,
    (orders_answered_once (.snoc .nil (Option.some_get sampleCall_accepted).symm)).2.2.2
      (show ∀ x ∈ sampleCall.orders ++ [], (placeLock x.2).isSome = true from by decide)⟩

end OrderBook

end Dexdo
