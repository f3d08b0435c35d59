import Dexdo.OrderBook.Run

namespace Dexdo.OrderBook

/-- Price-time priority between resting orders facing a taker. -/
def Maker.Before (newIsBuy : Bool) (m m' : Maker) : Prop :=
  Book.worse newIsBuy m.price m'.price = true ∨ m.price = m'.price ∧ m.id < m'.id

theorem Maker.Before.asymm {newIsBuy : Bool} {m m' : Maker} (h : m.Before newIsBuy m')
    (h' : m'.Before newIsBuy m) : False := by
  unfold Maker.Before Book.worse at *
  cases newIsBuy <;> simp at h h' <;> omega

variable {s t : OrderBook} {n : ℕ} {A : Book.Index} {p : PlaceParams}

/-- A resting order as a maker. -/
def maker (s : OrderBook) (i : ℕ) : Maker := s.makerOf (s.order i).price i

theorem pricesCross_of_worse {newIsBuy newIsMarket : Bool} {newPrice q q' : ℕ}
    (h : Book.pricesCross newIsBuy newPrice newIsMarket q' = true)
    (hw : Book.worse newIsBuy q q' = true) :
    Book.pricesCross newIsBuy newPrice newIsMarket q = true := by
  unfold Book.pricesCross Book.worse at *
  cases newIsMarket <;> cases newIsBuy <;> simp at h hw ⊢ <;> omega

theorem mem_takeWhile_of_sorted {l : List ℕ} {r : ℕ → ℕ → Prop} {f : ℕ → Bool} {q : ℕ}
    (hs : l.Pairwise r) (hf : ∀ x, r x q → f q = true → f x = true) (hq : q ∈ l)
    (hfq : f q = true) : q ∈ l.takeWhile f := by
  induction l with
  | nil => simp at hq
  | cons x l ih =>
    obtain ⟨hx, hl⟩ := List.pairwise_cons.mp hs
    rcases List.mem_cons.mp hq with rfl | hq
    · simp [hfq]
    · have : f x = true := hf x (hx q hq) hfq
      rw [List.takeWhile_cons_of_pos this]
      exact List.mem_cons_of_mem _ (ih hl hq)

theorem mem_crossingMakers (r : s.toBook.Rep s.nextOrderId A) (m : Maker) :
    m ∈ s.crossingMakers p ↔ (s.Stored m.id ∧ (s.order m.id).key = p.oppKey ∧ m = s.maker m.id) ∧
      Book.pricesCross p.isBuy p.storedPrice p.isMarket m.price = true := by
  constructor
  · intro hm
    obtain ⟨q, hq, hm⟩ := List.mem_flatMap.mp hm
    obtain ⟨h1, h2, h3, h4, h5⟩ := mem_makersAt p q m hm
    refine ⟨⟨h1, h2, ?_⟩, h5 ▸ List.mem_takeWhile_imp hq⟩
    have hp : (s.order m.id).price = m.price := h3.trans h5.symm
    have ha : (s.order m.id).amount = m.amount := h4
    rw [maker, makerOf, hp, ha]
  · rintro ⟨⟨hs, hk, hm⟩, hc⟩
    have hid : m.id ∈ s.levelIds s.nextOrderId p.oppKey m.price := by
      have hp : (s.order m.id).price = m.price := by rw [hm]; rfl
      simp [Book.levelIds, hs, hk, hp, (r.bound m.id hs).2.1]
    refine List.mem_flatMap.mpr ⟨m.price, ?_, ?_⟩
    · refine mem_takeWhile_of_sorted (s.oppPrices_sorted p.outcomeId p.isBuy p.epochId)
        (fun x hx hc => pricesCross_of_worse hc hx) ?_ hc
      rw [r.mem_oppPrices_iff]
      exact List.ne_nil_of_mem hid
    · refine List.mem_map.mpr ⟨m.id, hid, ?_⟩
      have hp : (s.order m.id).price = m.price := by rw [hm]; rfl
      rw [← hp, ← maker, ← hm]

theorem crossingMakers_sorted : (s.crossingMakers p).Pairwise (Maker.Before p.isBuy) := by
  refine List.pairwise_flatMap.mpr ⟨fun q _ => ?_, ?_⟩
  · have hs : (s.levelIds s.nextOrderId p.oppKey q).Pairwise (· < ·) :=
      List.pairwise_lt_range.filter _
    refine List.pairwise_map.mpr (hs.imp fun hxy => ?_)
    exact .inr ⟨rfl, hxy⟩
  · have hs := (s.oppPrices_sorted p.outcomeId p.isBuy p.epochId).sublist
      (List.takeWhile_sublist (Book.pricesCross p.isBuy p.storedPrice p.isMarket))
    refine hs.imp fun {x y} hxy m hm m' hm' => .inl ?_
    rw [(mem_makersAt p x m hm).2.2.2.2, (mem_makersAt p y m' hm').2.2.2.2]
    exact hxy

theorem mem_crossingMakers_of_before (r : s.toBook.Rep s.nextOrderId A) {m : Maker} {i : ℕ}
    (hm : m ∈ s.crossingMakers p) (hs : s.Stored i) (hk : (s.order i).key = p.oppKey)
    (hb : (s.maker i).Before p.isBuy m) : s.maker i ∈ s.crossingMakers p := by
  have hc := ((mem_crossingMakers r m).mp hm).2
  refine (mem_crossingMakers r _).mpr ⟨⟨hs, hk, rfl⟩, ?_⟩
  obtain hw | ⟨he, -⟩ := hb
  · exact pricesCross_of_worse hc hw
  · rwa [he]

theorem crossingMakers_eq_of_mem {l : List Maker} (hl : l.Pairwise (Maker.Before p.isBuy))
    (h : ∀ m, m ∈ s.crossingMakers p ↔ m ∈ l) : s.crossingMakers p = l := by
  have hirr : ∀ m : Maker, ¬ m.Before p.isBuy m := fun m hm => hm.asymm hm
  have hnd : ∀ {l : List Maker}, l.Pairwise (Maker.Before p.isBuy) → l.Nodup := by
    intro l hl
    refine hl.imp fun {x y} hxy => ?_
    rintro rfl
    exact hirr x hxy
  refine List.Perm.eq_of_pairwise (fun a b _ _ h h' => (h.asymm h').elim) crossingMakers_sorted hl ?_
  exact (List.perm_ext_iff_of_nodup (hnd crossingMakers_sorted) (hnd hl)).mpr h

theorem crossingMakers_congr (r : s.toBook.Rep s.nextOrderId A) (hn : s.nextOrderId ≤ t.nextOrderId)
    (hb : t.toBook = s.toBook) {p' : PlaceParams} (hp : p'.oppKey = p.oppKey)
    (hc : p'.isBuy = p.isBuy ∧ p'.storedPrice = p.storedPrice ∧ p'.isMarket = p.isMarket) :
    t.crossingMakers p' = s.crossingMakers p := by
  have r' : t.toBook.Rep t.nextOrderId A := hb ▸ r.mono hn
  refine crossingMakers_eq_of_mem (hc.1 ▸ crossingMakers_sorted) fun m => ?_
  rw [mem_crossingMakers r', mem_crossingMakers r, hp, hc.1, hc.2.1, hc.2.2]
  unfold maker makerOf
  rw [hb]

variable {s t u : OrderBook} {e : QueueEntry} {A : Book.Index}

/-- The head entry of a pass that matches, past the post-only test and the pre-check. -/
def matchingEntry (u : OrderBook) : Option QueueEntry :=
  let e := u.queue u.queueHead
  if u.shuttingDown = false ∧ u.queueSize ≠ 0 ∧ ¬ (u.shutdownPending ∧ ¬ e.precheckDone) ∧
    e.entryType = .place ∧ ¬ (e.targetOrderId = 0 ∧ u.postOnlyCrosses e.params) ∧
    u.precheck e = .reached then some e
  else none

/-- Fills of the pass that starts at `u`, in order. -/
def passFills (u : OrderBook) : List Fill :=
  match u.matchingEntry with
  | some e => (u.passWalk e.params).fills
  | none => []

/-- The entry a capped match leaves at the head. -/
def resumed (e : QueueEntry) (orderId : ℕ) (m : MatchState) : QueueEntry :=
  { e with params := { e.params with amount := m.remaining },
           targetOrderId := orderId, precheckDone := true,
           precheckAccum := 0, precheckLastPrice := 0, filledAccum := m.filledAccum }

theorem matchingEntry_iff : u.matchingEntry = some e ↔
    (u.shuttingDown = false ∧ u.queueSize ≠ 0 ∧ ¬ (u.shutdownPending ∧ ¬ e.precheckDone) ∧
      e.entryType = .place ∧ ¬ (e.targetOrderId = 0 ∧ u.postOnlyCrosses e.params) ∧
      u.precheck e = .reached) ∧ u.queue u.queueHead = e := by
  unfold matchingEntry
  dsimp only
  constructor
  · intro h
    split_ifs at h with hc
    cases h
    exact ⟨hc, rfl⟩
  · rintro ⟨hc, rfl⟩
    rw [if_pos hc]

theorem openOrder_toBook (e : QueueEntry) : (u.openOrder e).1.toBook = u.toBook := by
  unfold openOrder
  split_ifs <;> rfl

theorem openOrder_le (e : QueueEntry) : u.nextOrderId ≤ (u.openOrder e).1.nextOrderId := by
  unfold openOrder
  split_ifs
  · exact Nat.le_succ _
  · exact le_rfl

theorem postOnlyCrosses_congr (h : t.toBook = u.toBook) (p : PlaceParams) :
    t.postOnlyCrosses p = u.postOnlyCrosses p := by
  unfold postOnlyCrosses
  rw [h]

theorem precheckWalk_congr (h : t.toBook = u.toBook) (p : PlaceParams) (need budget accum : ℕ)
    (it : Option (ℕ × PriceLevel)) :
    t.precheckWalk p need budget it accum = u.precheckWalk p need budget it accum := by
  induction budget generalizing it accum with
  | zero => cases it <;> rfl
  | succ budget ih =>
    cases it with
    | none => rfl
    | some =>
      simp only [precheckWalk]
      rw [h, ih]

theorem precheck_congr (h : t.toBook = u.toBook) (e : QueueEntry) : t.precheck e = u.precheck e := by
  unfold precheck
  dsimp only
  rw [h, precheckWalk_congr h]

theorem passWalk_congr (r : u.toBook.Rep u.nextOrderId A) (h : t.toBook = u.toBook)
    (hn : u.nextOrderId ≤ t.nextOrderId) (p : PlaceParams) : t.passWalk p = u.passWalk p := by
  rw [passWalk, passWalk, crossingMakers_congr r hn h rfl ⟨rfl, rfl, rfl⟩]

/-- The match of a pass: exactly the fills of its walk. -/
def passMatch (u : OrderBook) (e : QueueEntry) : MatchState :=
  let w := u.passWalk e.params
  ⟨applyFills e (u.openOrder e).2 (u.openOrder e).1 w.fills, w.remaining, w.left,
    e.filledAccum + (w.fills.map Fill.trade).sum, w.halt⟩

theorem matchOrder_passMatch (h : u.BookOk) (e : QueueEntry) :
    (u.openOrder e).1.matchOrder e (u.openOrder e).2 = u.passMatch e := by
  obtain ⟨A, r⟩ := h.rep
  have hb := openOrder_toBook (u := u) e
  have r' : (u.openOrder e).1.toBook.Rep (u.openOrder e).1.nextOrderId A :=
    hb ▸ r.mono (openOrder_le e)
  rw [matchOrder_eq e _ r', passWalk_congr r hb (openOrder_le e)]
  rfl

theorem doPlace_matching (h : u.BookOk) (hm : u.matchingEntry = some e) :
    u.doPlace e = if (u.passMatch e).halt = .hitCapWithMore then
        ((u.passMatch e).book, some (resumed e (u.openOrder e).2 (u.passMatch e)))
      else (settleTaker (u.passMatch e) e (u.openOrder e).2, none) := by
  obtain ⟨⟨-, -, -, -, hpo, hpre⟩, -⟩ := matchingEntry_iff.mp hm
  have hb := openOrder_toBook (u := u) e
  have hpo' : ¬ (e.targetOrderId = 0 ∧ (u.openOrder e).1.postOnlyCrosses e.params = true) := by
    rw [postOnlyCrosses_congr hb]
    exact hpo
  unfold doPlace placePhases
  dsimp only
  rw [if_neg hpo', precheck_congr hb, hpre]
  unfold matchPhase
  dsimp only
  rw [matchOrder_passMatch h]
  rfl

theorem processHeadCore_matching (hm : u.matchingEntry = some e) :
    u.processHeadCore = ((u.doPlace e).1.leaveHead e (u.doPlace e).2).pokeNext := by
  obtain ⟨⟨h1, h2, h3, h4, -, -⟩, hq⟩ := matchingEntry_iff.mp hm
  unfold processHeadCore
  dsimp only
  rw [if_neg (by simp [h1]), if_neg h2, hq, if_neg h3]
  simp only [runHead, h4, reduceCtorEq, if_false]
  rcases u.doPlace e with ⟨v, _ | e'⟩ <;> rfl

theorem passMatch_toBook (e : QueueEntry) : (u.passMatch e).book.toBook =
    u.toBook.consumeAll e.params.outcomeId (u.passWalk e.params).fills := by
  unfold passMatch
  dsimp only
  rw [applyFills_toBook, openOrder_toBook]

theorem pokeNext_fields : u.pokeNext.toQueue = u.toQueue ∧ u.pokeNext.toBook = u.toBook ∧
    u.pokeNext.nextOrderId = u.nextOrderId := by
  rw [pokeNext_same (s := u)]
  exact ⟨rfl, rfl, rfl⟩

theorem matching_list (h : u.Ok) (hm : u.matchingEntry = some e) :
    u.toQueue.list = e :: u.toQueue.list.tail ∧
      u.processHeadCore.toQueue.list = (u.doPlace e).2.toList ++ u.toQueue.list.tail := by
  obtain ⟨⟨-, h2, -, hp, -⟩, hq⟩ := matchingEntry_iff.mp hm
  have hl := h.list_cons h2
  rw [hq] at hl
  refine ⟨hl, ?_⟩
  have hmem : e ∈ u.toQueue.list := by rw [hl]; simp
  have hf : Frame u (u.doPlace e).1 :=
    (doPlace_spec (K := 0) e h.book h.pos (h.amount e hmem hp)
      (h.head e (by rw [hl]; rfl) hp)).emits.1
  have hl' : (u.doPlace e).1.toQueue.list = e :: u.toQueue.list.tail := by
    rw [hf.toQueue]
    exact hl
  rw [processHeadCore_matching hm, pokeNext_fields.1]
  exact (leaveHead_list (hf.toQueue ▸ h.queue) hl' _).2

theorem capped_pass (h : u.Ok) (hm : u.matchingEntry = some e)
    (hc : (u.passWalk e.params).halt = .hitCapWithMore) :
    u.processHeadCore.toQueue.list =
        resumed e (u.openOrder e).2 (u.passMatch e) :: u.toQueue.list.tail ∧
      u.processHeadCore.toBook =
        u.toBook.consumeAll e.params.outcomeId (u.passWalk e.params).fills ∧
      u.nextOrderId ≤ u.processHeadCore.nextOrderId := by
  have hdp := doPlace_matching h.book hm
  rw [if_pos (show (u.passMatch e).halt = .hitCapWithMore from hc)] at hdp
  have hlist := (matching_list h hm).2
  rw [hdp] at hlist
  refine ⟨hlist, ?_⟩
  obtain ⟨hb, hn, -⟩ := leaveHead_fields (u.passMatch e).book e
    (some (resumed e (u.openOrder e).2 (u.passMatch e)))
  rw [processHeadCore_matching hm, hdp, pokeNext_fields.2.1, pokeNext_fields.2.2]
  refine ⟨hb.trans (passMatch_toBook e), (openOrder_le e).trans ?_⟩
  exact (hn.trans (applyFills_nextOrderId ..)).ge

theorem uncapped_pass (h : u.Ok) (hm : u.matchingEntry = some e)
    (hc : (u.passWalk e.params).halt ≠ .hitCapWithMore) :
    u.processHeadCore.toQueue.list = u.toQueue.list.tail := by
  have hdp := doPlace_matching h.book hm
  rw [if_neg (show (u.passMatch e).halt ≠ .hitCapWithMore from hc)] at hdp
  have hlist := (matching_list h hm).2
  rw [hdp] at hlist
  exact hlist

/-- Passes of a call that match the order submitted as number `k`. -/
def passAt (k : ℕ) (s : OrderBook) (c : Call) : List OrderBook :=
  ((s.atHead c).filter fun u => u.matchingEntry.any fun e => decide (e.sub = k)).toList

/-- The book at the start of every match pass of submission `k`, over a whole run. -/
def passStates (k : ℕ) : OrderBook → List (Call × OrderBook) → List OrderBook
  | _, [] => []
  | s, (c, t) :: tr => s.passAt k c ++ passStates k t tr

theorem passStates_append (k : ℕ) (s : OrderBook) (tr tr' : List (Call × OrderBook)) :
    passStates k s (tr ++ tr') = passStates k s tr ++ passStates k (Run.last s tr) tr' := by
  induction tr generalizing s with
  | nil => rfl
  | cons x tr ih =>
    obtain ⟨c, t⟩ := x
    rw [List.cons_append, passStates, passStates, ih, List.append_assoc]
    rfl

theorem passStates_snoc (k : ℕ) {tr : List (Call × OrderBook)} (h : Run step s tr t) (c : Call)
    (u : OrderBook) : passStates k s (tr ++ [(c, u)]) = passStates k s tr ++ t.passAt k c := by
  rw [passStates_append, h.last_eq, passStates, passStates, List.append_nil]

theorem mem_passAt {k : ℕ} {c : Call} :
    u ∈ s.passAt k c ↔ s.atHead c = some u ∧ ∃ e, u.matchingEntry = some e ∧ e.sub = k := by
  unfold passAt
  rw [Option.mem_toList, Option.filter_eq_some_iff]
  refine and_congr_right fun _ => ?_
  cases h : u.matchingEntry with
  | none => simp
  | some => simp

/-- From the start of a call to its pass over the head only the queue grows. -/
structure Enters (s u : OrderBook) : Prop where
  ok : u.Ok
  book : u.toBook = s.toBook
  nextId : u.nextOrderId = s.nextOrderId
  queue : ∃ es, u.toQueue.list = s.toQueue.list ++ es ∧ Numbered s.subs u.subs es
  subs : s.subs ≤ u.subs

theorem Enters.numbered (hu : Enters s u) (hn : Numbered 0 s.subs s.toQueue.list) :
    Numbered 0 u.subs u.toQueue.list := by
  obtain ⟨es, hl, hnum⟩ := hu.queue
  exact hl ▸ hn.append hnum (Nat.zero_le _) hu.subs

theorem step_atHead (hs : s.Ok) {c : Call} (h : s.step c = some t) :
    (∃ u, s.atHead c = some u ∧ Enters s u ∧ SameStore u.processHeadCore t) ∨
    (s.atHead c = none ∧ t.toQueue = s.toQueue ∧ t.subs = s.subs ∧
      (s.queueSize ≠ 0 → t.toBook = s.toBook ∧ t.nextOrderId = s.nextOrderId)) := by
  obtain ⟨hh, o, es, u, v, -, hu, ha⟩ | ⟨rfl, rfl⟩ | ⟨⟨-, hu⟩, hc, -, hq⟩ := step_cases hs h
  · refine .inl ⟨u, hu, ⟨ha.ok.1, ?_, ?_, ⟨_, ha.list, ha.numbers⟩, ?_⟩, ha.pass_eq ▸ ha.same⟩
    · rw [ha.frame]
      rfl
    · rw [ha.frame]
      rfl
    · exact ha.counts.1 ▸ Nat.le_add_right _ _
  · exact .inl ⟨s.begin, rfl, ⟨begin_ok hs, rfl, rfl, ⟨[], (List.append_nil _).symm, .nil _ _⟩,
      le_rfl⟩, rfl⟩
  · exact .inr ⟨hu, hq.queue, hq.moves.subs, hq.book⟩

theorem processHeadCore_numbered (h : u.Ok) {hi : ℕ} (hn : Numbered 0 hi u.toQueue.list) :
    Numbered 0 hi u.processHeadCore.toQueue.list ∧
      ∀ k ∈ placeSubs u.processHeadCore.toQueue.list, k ∈ placeSubs u.toQueue.list := by
  obtain ⟨-, -, ⟨h1, -⟩ | ⟨e, rest, stay, os, hp⟩⟩ := processHeadCore_spec h
  · rw [show u.processHeadCore.toQueue.list = u.toQueue.list by rw [h1]]
    exact ⟨hn, fun _ => id⟩
  · rw [hp.before] at hn ⊢
    rw [hp.after]
    cases stay with
    | none =>
      have hsub : (placeSubs rest).Sublist (placeSubs (e :: rest)) :=
        ((List.sublist_cons_self e rest).filter _).map _
      exact ⟨⟨hn.sorted.sublist hsub, fun k hk => hn.range k (hsub.subset hk)⟩,
        fun k hk => hsub.subset hk⟩
    | some e' =>
      have heq : placeSubs (e' :: rest) = placeSubs (e :: rest) := by
        have h1 := hp.type e' rfl
        have h2 := (hp.same e' rfl).2.2.2.2
        by_cases hpl : e.entryType = .place
        · simp [placeSubs, h1, h2, hpl]
        · simp [placeSubs, h1, hpl]
      refine ⟨⟨?_, ?_⟩, ?_⟩
      · exact heq ▸ hn.sorted
      · exact fun k hk => hn.range k (heq ▸ hk)
      · exact fun k hk => heq ▸ hk

theorem run_numbered {market : MarketId} {resultStart numOutcomes : ℕ}
    {tr : List (Call × OrderBook)}
    (h : Run step (OrderBook.init market resultStart numOutcomes) tr s) :
    Numbered 0 s.subs s.toQueue.list := by
  refine h.invariant (fun _ s => Numbered 0 s.subs s.toQueue.list) ?_ ?_
  · simpa [OrderBook.init] using Numbered.nil 0 0
  · intro tr s c t hr hn hst
    obtain ⟨u, -, hent, hsame⟩ | ⟨-, hq, hsubs, -⟩ := step_atHead (run_ok hr) hst
    · rw [hsame, (processHeadCore_spec hent.ok).2.1.subs]
      exact (processHeadCore_numbered hent.ok (hent.numbered hn)).1
    · rw [hsubs, hq]
      exact hn

/-- Where a placement stands between calls: not begun, at the head in the middle of its
matching with `J` of it, or behind. -/
inductive Placing (J : List OrderBook → Book → ℕ → PlaceParams → Prop) (k : ℕ)
    (us : List OrderBook) (s : OrderBook) : Prop
  | ahead (h : us = [])
  | behind (hk : k < s.subs) (h : ∀ x ∈ placeSubs s.toQueue.list, k < x)
  | inside (e : QueueEntry) (rest : List QueueEntry) (hk : k < s.subs)
      (hl : s.toQueue.list = e :: rest) (he : e.entryType = .place ∧ e.sub = k)
      (hd : e.precheckDone = true ∧ e.targetOrderId ≠ 0)
      (hj : J us s.toBook s.nextOrderId e.params)

variable {J : List OrderBook → Book → ℕ → PlaceParams → Prop} {k : ℕ} {us : List OrderBook}

theorem matchingEntry_of_inside (h : u.Ok) {rest : List QueueEntry}
    (hl : u.toQueue.list = e :: rest) (hp : e.entryType = .place)
    (hd : e.precheckDone = true ∧ e.targetOrderId ≠ 0) : u.matchingEntry = some e := by
  have h2 : u.queueSize ≠ 0 := by
    intro h0
    simp [u.toQueue.list_eq_nil_iff.mpr h0] at hl
  have hq : u.queue u.queueHead = e := by
    have := h.list_cons h2
    rw [hl] at this
    exact (List.cons.inj this).1.symm
  have h1 : u.shuttingDown = false := by
    by_contra hsd
    exact h2 (h.down (by simpa using hsd)).1
  refine matchingEntry_iff.mpr ⟨⟨h1, h2, by simp [hd.1], hp, by simp [hd.2], ?_⟩, hq⟩
  simp [precheck, hd.1]

theorem Placing.resume (h : Placing J k us s) (hu : Enters s u) (hm : u.matchingEntry = some e)
    (he : e.sub = k) (hne : us ≠ []) : J us u.toBook u.nextOrderId e.params := by
  obtain ⟨es, hl, hnum⟩ := hu.queue
  have hle := (matching_list hu.ok hm).1
  have hp := (matchingEntry_iff.mp hm).1.2.2.2.1
  have hold : k < s.subs → ∃ rest, s.toQueue.list = e :: rest := by
    intro hk
    cases hsl : s.toQueue.list with
    | nil =>
      rw [hsl, List.nil_append] at hl
      have := (hnum.range e.sub (mem_placeSubs (by rw [← hl, hle]; simp) hp)).1
      omega
    | cons x rest =>
      rw [hsl, hle, List.cons_append] at hl
      exact ⟨rest, by rw [(List.cons.inj hl).1]⟩
  cases h with
  | ahead h => exact absurd h hne
  | behind hk h =>
    obtain ⟨rest, hsl⟩ := hold hk
    have := h e.sub (mem_placeSubs (by rw [hsl]; simp) hp)
    omega
  | inside e' rest hk hsl _ _ hj =>
    obtain ⟨rest', hsl'⟩ := hold hk
    obtain rfl : e' = e := (List.cons.inj (hsl.symm.trans hsl')).1
    rw [hu.book, hu.nextId]
    exact hj

theorem Placing.skip (h : Placing J k us s) (hu : Enters s u) (ht : SameStore u.processHeadCore t)
    (hn : Numbered 0 s.subs s.toQueue.list)
    (hm : ∀ e, u.matchingEntry = some e → e.sub ≠ k) : Placing J k us t := by
  obtain ⟨es, hl, hnum⟩ := hu.queue
  have htl : t.toQueue.list = u.processHeadCore.toQueue.list := by rw [ht]
  have hts : t.subs = u.subs := by
    rw [ht]
    exact (processHeadCore_spec hu.ok).2.1.subs
  cases h with
  | ahead h => exact .ahead h
  | behind hk h =>
    refine .behind (hk.trans_le (hts ▸ hu.subs)) fun x hx => ?_
    have hun : Numbered 0 u.subs u.toQueue.list := hl ▸ hn.append hnum (Nat.zero_le _) hu.subs
    rw [htl] at hx
    have hx := (processHeadCore_numbered hu.ok hun).2 x hx
    rw [hl, placeSubs, List.filter_append, List.map_append] at hx
    rcases List.mem_append.mp hx with hx | hx
    · exact h x hx
    · exact hk.trans_le (hnum.range x hx).1
  | inside e rest hk hsl he hd =>
    rw [hsl, List.cons_append] at hl
    exact absurd he.2 (hm e (matchingEntry_of_inside hu.ok hl he.1 hd))

/-- Where a matching pass leaves its own placement. -/
theorem placing_after (hu : Enters s u) (ht : SameStore u.processHeadCore t)
    (hn : Numbered 0 s.subs s.toQueue.list) (hm : u.matchingEntry = some e) (he : e.sub = k)
    (hj : (u.passWalk e.params).halt = .hitCapWithMore →
      J us u.processHeadCore.toBook u.processHeadCore.nextOrderId
        { e.params with amount := (u.passWalk e.params).remaining }) : Placing J k us t := by
  obtain ⟨es, hl, hnum⟩ := hu.queue
  have hun : Numbered 0 u.subs u.toQueue.list := hl ▸ hn.append hnum (Nat.zero_le _) hu.subs
  have htl : t.toQueue.list = u.processHeadCore.toQueue.list := by rw [ht]
  have hts : t.subs = u.subs := by
    rw [ht]
    exact (processHeadCore_spec hu.ok).2.1.subs
  have hle := (matching_list hu.ok hm).1
  have hp := (matchingEntry_iff.mp hm).1.2.2.2.1
  have hmem : e ∈ u.toQueue.list := by rw [hle]; simp
  have hk : k < t.subs := by
    rw [hts, ← he]
    exact (hun.range e.sub (mem_placeSubs hmem hp)).2
  by_cases hc : (u.passWalk e.params).halt = .hitCapWithMore
  · obtain ⟨h1, -, -⟩ := capped_pass hu.ok hm hc
    refine .inside _ _ hk (htl.trans h1) ⟨hp, he⟩ ⟨rfl, ?_⟩ ?_
    · have := (openOrder_spec (K := 0) e hu.ok.book hu.ok.pos (hu.ok.amount e hmem hp)
        (hu.ok.head e (by rw [hle]; rfl) hp)).2.2.1
      exact this.1.ne'
    · rw [ht]
      exact hj hc
  · refine .behind hk fun x hx => ?_
    rw [htl, uncapped_pass hu.ok hm hc] at hx
    have hsorted := hun.sorted
    rw [hle, placeSubs, List.filter_cons_of_pos (by simp [hp]), List.map_cons,
      List.pairwise_cons] at hsorted
    rw [← he]
    exact hsorted.1 x hx

/-- Induction over the match passes of every placement of a run: `I` holds of all of them when
each pass, whose condition `C` is met, extends it from what `J` says of the passes before. -/
theorem passes_induction {market : MarketId} {resultStart numOutcomes : ℕ}
    {tr : List (Call × OrderBook)}
    (h : Run step (OrderBook.init market resultStart numOutcomes) tr s)
    (C : OrderBook → QueueEntry → Prop) (I : List OrderBook → Prop)
    (J : List OrderBook → Book → ℕ → PlaceParams → Prop) (hnil : I [])
    (hstep : ∀ us u e, u.Ok → u.matchingEntry = some e → C u e → I us →
      (us ≠ [] → J us u.toBook u.nextOrderId e.params) → I (us ++ [u]) ∧
      ((u.passWalk e.params).halt = .hitCapWithMore →
        J (us ++ [u]) u.processHeadCore.toBook u.processHeadCore.nextOrderId
          { e.params with amount := (u.passWalk e.params).remaining }))
    (k : ℕ) (hC : ∀ u ∈ passStates k (OrderBook.init market resultStart numOutcomes) tr,
      ∀ e, u.matchingEntry = some e → C u e) :
    I (passStates k (OrderBook.init market resultStart numOutcomes) tr) := by
  set s0 := OrderBook.init market resultStart numOutcomes with hs0
  have hinv : (∀ u ∈ passStates k s0 tr, ∀ e, u.matchingEntry = some e → C u e) →
      I (passStates k s0 tr) ∧ Placing J k (passStates k s0 tr) s := by
    refine h.invariant (fun tr s =>
      (∀ u ∈ passStates k s0 tr, ∀ e, u.matchingEntry = some e → C u e) →
        I (passStates k s0 tr) ∧ Placing J k (passStates k s0 tr) s) ?_ ?_
    · exact fun _ => ⟨hnil, .ahead rfl⟩
    · intro tr s c t hr ih hst hC
      have hn := run_numbered hr
      rw [passStates_snoc k hr] at hC ⊢
      obtain ⟨u, hu, hent, hsame⟩ | ⟨hu, hq, hsubs, hbook⟩ := step_atHead (run_ok hr) hst
      · obtain ⟨hI, hP⟩ := ih fun u hu => hC u (List.mem_append_left _ hu)
        by_cases hm : ∃ e, u.matchingEntry = some e ∧ e.sub = k
        · obtain ⟨e, hm, he⟩ := hm
          have hat : s.passAt k c = [u] := by simp [passAt, hu, hm, he]
          rw [hat] at hC ⊢
          obtain ⟨g1, g2⟩ := hstep _ u e hent.ok hm (hC u (by simp) e hm) hI
            (hP.resume hent hm he)
          exact ⟨g1, placing_after hent hsame hn hm he g2⟩
        · have hat : s.passAt k c = [] := by
            refine List.eq_nil_iff_forall_not_mem.mpr fun v hv => hm ?_
            obtain ⟨hv, e, hve⟩ := mem_passAt.mp hv
            obtain rfl : u = v := Option.some.inj (hu.symm.trans hv)
            exact ⟨e, hve⟩
          rw [hat, List.append_nil]
          exact ⟨hI, hP.skip hent hsame hn fun e hme hek => hm ⟨e, hme, hek⟩⟩
      · have hat : s.passAt k c = [] := by simp [passAt, hu]
        have hql : t.toQueue.list = s.toQueue.list := congrArg Queue.list hq
        rw [hat, List.append_nil] at hC ⊢
        obtain ⟨hI, hP⟩ := ih hC
        refine ⟨hI, ?_⟩
        cases hP with
        | ahead h => exact .ahead h
        | behind hk h => exact .behind (hsubs ▸ hk) (hql ▸ h)
        | inside e rest hk hl he hd hj =>
          have hsz : s.queueSize ≠ 0 := by
            intro h0
            simp [s.toQueue.list_eq_nil_iff.mpr h0] at hl
          obtain ⟨hb, hid⟩ := hbook hsz
          exact .inside e rest (hsubs ▸ hk) (hql ▸ hl) he hd (by rw [hb, hid]; exact hj)
  exact (hinv hC).1

end Dexdo.OrderBook
