import Dexdo.OrderBook.Record

namespace Dexdo

/-- Every resting bid stands below every resting ask of its outcome and epoch. -/
def Book.Uncrossed (b : Book) : Prop :=
  ∀ i j outcomeId epochId, b.Stored i → b.Stored j → (b.core i).key = ⟨outcomeId, true, epochId⟩ →
    (b.core j).key = ⟨outcomeId, false, epochId⟩ → (b.core i).price < (b.core j).price

/-- The best bid of every outcome and epoch is strictly below the best ask. -/
def Book.NeverCrossed (b : Book) : Prop :=
  ∀ outcomeId epochId bid ask, (b.levels ⟨outcomeId, true, epochId⟩).max? = some bid →
    (b.levels ⟨outcomeId, false, epochId⟩).min? = some ask → bid.1 < ask.1

namespace Book

variable {b c : Book} {n outcomeId : ℕ} {A : Index} {fills : List OrderBook.Fill}

theorem Uncrossed.thins (h : b.Uncrossed) (ht : b.Thins c) : c.Uncrossed := by
  intro i j o ep hi hj ki kj
  obtain ⟨hi, ei⟩ := ht i hi
  obtain ⟨hj, ej⟩ := ht j hj
  rw [ei] at ki ⊢
  rw [ej] at kj ⊢
  exact h i j o ep hi hj ki kj

theorem Uncrossed.consumed (h : b.Uncrossed) (hok : b.FillsOk outcomeId fills)
    (hc : b.Consumed c fills) : c.Uncrossed := by
  intro i j o ep hi hj ki kj
  obtain ⟨i1, i2, -⟩ := hc.key_price hok i hi
  obtain ⟨j1, j2, -⟩ := hc.key_price hok j hj
  rw [i1] at ki
  rw [j1] at kj
  rw [i2, j2]
  exact h i j o ep ((hc.stored i).mp hi).1 ((hc.stored j).mp hj).1 ki kj

/-- An order that crosses no opposite order may come to rest. -/
theorem Uncrossed.insert (h : b.Uncrossed) (r : b.Rep n A) (id owner q a f m sub : ℕ)
    (p : PlaceParams)
    (hfree : ∀ j, b.Stored j → (b.core j).key = p.oppKey →
      pricesCross p.isBuy q false (b.core j).price = false) :
    (b.insertIntoBook id owner p q a f m sub).Uncrossed := by
  have hkey : ((b.newOrder owner p q a f m sub).unlinked).key = p.key := rfl
  have hprice : ((b.newOrder owner p q a f m sub).unlinked).price = q := rfl
  intro i j o ep hi hj ki kj
  rw [insertIntoBook_stored _ _ _ _ _ _ _ _ r] at hi hj
  rw [insertIntoBook_core] at ki kj ⊢
  rw [insertIntoBook_core]
  by_cases hii : i = id
  · rw [if_pos hii] at ki ⊢
    rw [hkey] at ki
    by_cases hjj : j = id
    · rw [if_pos hjj, hkey, ki] at kj
      cases kj
    · rw [if_neg hjj] at kj ⊢
      have hb : p.isBuy = true := congrArg LevelKey.isBuy ki
      have hopp : p.oppKey = ⟨o, false, ep⟩ := by
        rw [PlaceParams.oppKey, hb, show p.outcomeId = o from congrArg LevelKey.outcomeId ki,
          show p.epochId = ep from congrArg LevelKey.epochId ki]
        rfl
      have := hfree j (hj.resolve_left hjj) (kj.trans hopp.symm)
      rw [hprice]
      simpa [pricesCross, hb] using this
  · rw [if_neg hii] at ki ⊢
    by_cases hjj : j = id
    · rw [if_pos hjj] at kj ⊢
      rw [hkey] at kj
      have hb : p.isBuy = false := congrArg LevelKey.isBuy kj
      have hopp : p.oppKey = ⟨o, true, ep⟩ := by
        rw [PlaceParams.oppKey, hb, show p.outcomeId = o from congrArg LevelKey.outcomeId kj,
          show p.epochId = ep from congrArg LevelKey.epochId kj]
        rfl
      have := hfree i (hi.resolve_left hii) (ki.trans hopp.symm)
      rw [hprice]
      simpa [pricesCross, hb] using this
    · rw [if_neg hjj] at kj ⊢
      exact h i j o ep (hi.resolve_left hii) (hj.resolve_left hjj) ki kj

theorem Uncrossed.neverCrossed (h : b.Uncrossed) (r : b.Rep n A) : b.NeverCrossed := by
  have hsome : ∀ k q, q ∈ (b.levels k).keys → ∃ i, b.Stored i ∧ (b.core i).key = k ∧
      (b.core i).price = q := by
    intro k q hq
    rw [Dict.mem_keys, r.level_iff] at hq
    obtain ⟨i, l, hl⟩ := List.exists_cons_of_ne_nil hq
    exact ⟨i, (r.mem_price k q i).mp (by rw [hl]; simp)⟩
  intro o ep bid ask hbid hask
  rw [Dict.max?_eq, Option.map_eq_some_iff] at hbid
  rw [Dict.min?_eq, Option.map_eq_some_iff] at hask
  obtain ⟨x, hx, rfl⟩ := hbid
  obtain ⟨y, hy, rfl⟩ := hask
  have hx' := List.mem_reverse.mp (List.mem_of_mem_head? hx)
  obtain ⟨i, hi, ki, rfl⟩ := hsome _ x hx'
  obtain ⟨j, hj, kj, rfl⟩ := hsome _ y (List.mem_of_mem_head? hy)
  exact h i j o ep hi hj ki kj

end Book

namespace OrderBook

variable {s t u : OrderBook} {e : QueueEntry} {rest : List QueueEntry} {H as : List Action}
  {C : List ℕ}

theorem settled_free (hu : u.Ok) (hc : (u.passWalk e.params).halt ≠ .hitCapWithMore)
    (hr : 0 < (u.passWalk e.params).remaining) (hlim : ¬ e.params.isMarket) (j : ℕ)
    (hj : (u.toBook.consumeAll e.params.outcomeId (u.passWalk e.params).fills).Stored j)
    (hk : ((u.toBook.consumeAll e.params.outcomeId (u.passWalk e.params).fills).core j).key =
      e.params.oppKey) :
    Book.pricesCross e.params.isBuy e.params.storedPrice false
      ((u.toBook.consumeAll e.params.outcomeId (u.passWalk e.params).fills).core j).price = false := by
  obtain ⟨A, r⟩ := hu.book.rep
  obtain ⟨hok, -, hcons⟩ := passWalk_consumed hu.book e.params
  have hbase : TradesBase e.params := fun hb => hlim hb.2
  obtain ⟨h1, h2⟩ := walk_limit_exhausted hbase hc hr
  obtain ⟨hs, hnot⟩ := (hcons.stored j).mp hj
  obtain ⟨k1, k2, -⟩ := hcons.key_price hok j hj
  rw [k2]
  by_contra hcross
  rw [Bool.not_eq_false] at hcross
  have hmem : u.maker j ∈ u.crossingMakers e.params := by
    refine (mem_crossingMakers r _).mpr ⟨⟨hs, k1.symm.trans hk, rfl⟩, ?_⟩
    rw [Bool.eq_false_iff.mpr hlim]
    exact hcross
  rw [← h1] at hmem
  obtain ⟨f, hf, hfm⟩ := List.mem_map.mp hmem
  have hid : f.maker.id = j := by rw [hfm]; rfl
  exact hnot f hf ⟨hid, h2 f hf⟩

theorem Turn.uncrossed (hu : u.Ok) (h : u.Uncrossed) (ht : Turn u t as) : t.Uncrossed := by
  cases ht with
  | idle hq hl hb => exact h.thins (.of_eq hb)
  | thinned e rest stay hl he hl' hs hb => exact h.thins hb
  | refused e rest hl hd hl' hb => exact h.thins (.of_eq hb)
  | stopped e rest hl he hc hl' hb => exact h.thins (.of_eq hb)
  | deferred e rest accum lastPrice hl he hc hl' hb => exact h.thins (.of_eq hb)
  | capped e rest hl hm hc hl' hb =>
    obtain ⟨hok, -, hcons⟩ := passWalk_consumed hu.book e.params
    rw [hb]
    exact h.consumed hok hcons
  | settled e rest hl hm hc hl' hb =>
    obtain ⟨hok, ⟨A, r⟩, hcons⟩ := passWalk_consumed hu.book e.params
    rw [hb]
    unfold settledBook
    dsimp only
    split_ifs with hins
    · have hlim : ¬ e.params.isMarket := fun hmk => hins.2 (.inr (.inr hmk))
      exact (h.consumed hok hcons).insert r _ _ _ _ _ _ _ _
        fun j hj hk => settled_free hu hc hins.1 hlim j hj hk
    · exact h.consumed hok hcons

theorem run_uncrossed {market : MarketId} {resultStart numOutcomes : ℕ}
    {tr : List (Call × OrderBook)}
    (h : Run step (OrderBook.init market resultStart numOutcomes) tr s) : s.Uncrossed := by
  refine h.invariant (fun _ s => s.Uncrossed) ?_ ?_
  · intro i j o ep hi
    simp [Book.Stored, OrderBook.init, Book.empty] at hi
  · intro tr s c t hr ih hst
    obtain ⟨u, as, hu, hent, hturn, -⟩ | ⟨-, ha⟩ := step_turn (run_ok hr) hst
    · exact hturn.uncrossed hent.ok (hent.book ▸ ih)
    · exact ih.thins ha.book

/-- A match at the announced price of its maker, within the announced limit of its taker, between
opposite orders of one outcome that were announced once each. -/
def Match.Fair (H : List Action) (m : Match) : Prop :=
  ∃ a a', announced m.makerId H = [a] ∧ announced m.takerId H = [a'] ∧
    a.outcomeId = a'.outcomeId ∧ a.isBuy = !a'.isBuy ∧ a.isMarket = false ∧ m.price = a.price ∧
    Book.pricesCross a'.isBuy a'.price a'.isMarket m.price = true

/-- The fills of `H` are matches, each of them fair. -/
def FairFills (H : List Action) : Prop :=
  ∃ ms : List Match, legs H = ms.flatMap Match.legs ∧ ∀ m ∈ ms, m.Fair H

theorem Turn.announced_old (ht : Turn u t as) {i : ℕ} (hi : i < u.nextOrderId) :
    announced i as = [] := by
  have hopen : ∀ e, announced i (u.openedActions e) = [] := by
    intro e
    rw [announced_openedActions, if_neg]
    exact fun h => absurd h.2 hi.ne'
  cases ht with
  | idle => rfl
  | thinned => rfl
  | refused => rfl
  | stopped => exact hopen _
  | deferred => exact hopen _
  | capped => exact ((matchActions_reports i).1).trans (hopen _)
  | settled => exact ((matchActions_reports i).1).trans (hopen _)

theorem Turn.legs (ht : Turn u t as) : legs as = [] ∨ ∃ e rest, u.toQueue.list = e :: rest ∧
    u.matchingEntry = some e ∧ as = u.matchActions e := by
  cases ht with
  | idle => exact .inl rfl
  | thinned => exact .inl rfl
  | refused => exact .inl rfl
  | stopped => exact .inl legs_openedActions
  | deferred => exact .inl legs_openedActions
  | capped e rest hl hm => exact .inr ⟨e, rest, hl, hm, rfl⟩
  | settled e rest hl hm => exact .inr ⟨e, rest, hl, hm, rfl⟩

theorem mem_matchesOf {takerId seq : ℕ} {fills : List Fill} {m : Match}
    (hm : m ∈ matchesOf takerId seq fills) :
    m.takerId = takerId ∧ ∃ f ∈ fills, m.makerId = f.maker.id ∧ m.price = f.maker.price := by
  induction fills generalizing seq with
  | nil => cases hm
  | cons f fills ih =>
    rcases List.mem_cons.mp hm with rfl | hm
    · exact ⟨rfl, f, by simp, rfl, rfl⟩
    · obtain ⟨h1, g, hg, h2⟩ := ih hm
      exact ⟨h1, g, by simp [hg], h2⟩

/-- The matches of a pass are fair. -/
theorem pass_fair (h : Recorded H C u) (hu : u.Ok) (hl : u.toQueue.list = e :: rest)
    (hm : u.matchingEntry = some e) (hA : ∀ i, announced i as = announced i (u.matchActions e))
    (hF : ∀ i, filledOf i as = filledOf i (u.matchActions e)) {m : Match}
    (hmem : m ∈ matchesOf (u.openOrder e).2 u.matchSeq (u.passWalk e.params).fills) :
    m.Fair (H ++ as) := by
  obtain ⟨A, r⟩ := hu.book.rep
  obtain ⟨htk, f, hf, hmk, hprice⟩ := mem_matchesOf hmem
  have hp : e.entryType = .place := (matchingEntry_iff.mp hm).1.2.2.2.1
  obtain ⟨⟨a', h1, -⟩, -, -⟩ := h.taker hu hl hm hA hF
  have hcm : f.maker ∈ u.crossingMakers e.params :=
    (walk_makers_initial _ _ _ _).subset (List.mem_map_of_mem hf)
  obtain ⟨⟨hs, hk, hmm⟩, hcross⟩ := (mem_crossingMakers r _).mp hcm
  have hne : f.maker.id ≠ (u.openOrder e).2 := ((openOrder_id hu hl hp).1 _ hs).ne
  have hlist := (h.resting _ hs).listed
  have hmprice : f.maker.price = (u.core f.maker.id).price := by
    rw [hmm]
    rfl
  have hmaker : announced m.makerId (H ++ as) = [⟨(u.core f.maker.id).outcomeId,
      (u.core f.maker.id).isBuy, (u.core f.maker.id).flags, (u.core f.maker.id).price,
      (u.core f.maker.id).amount + (u.core f.maker.id).filledAccum⟩] := by
    rw [hmk, announced_append, hlist, hA, (matchActions_reports _).1,
      announced_openedActions_of_ne hne, List.append_nil]
  refine ⟨_, _, hmaker, htk ▸ h1, ?_, ?_, ?_, hprice.trans hmprice, ?_⟩
  · exact congrArg LevelKey.outcomeId hk
  · exact congrArg LevelKey.isBuy hk
  · exact hu.book.limit _ hs
  · rw [hprice, ← hcross]
    change Book.pricesCross e.params.isBuy e.params.price e.params.isMarket _ = _
    unfold Book.pricesCross PlaceParams.storedPrice
    split_ifs <;> rfl

theorem run_fair {market : MarketId} {resultStart numOutcomes : ℕ} {tr : List (Call × OrderBook)}
    (h : Run step (OrderBook.init market resultStart numOutcomes) tr s) :
    FairFills (traceActions tr) := by
  refine h.invariant (fun tr _ => FairFills (traceActions tr)) ⟨[], rfl, by simp⟩ ?_
  rintro tr s c t hr ⟨ms, hms, hfair⟩ hst
  have hrec := run_recorded hr
  have hold : ∀ as : List Action, (∀ i, announced i t.actions = announced i as) →
      (∀ i, i < s.nextOrderId → announced i as = []) →
      ∀ m ∈ ms, m.Fair (traceActions tr ++ t.actions) := by
    intro as hA hnew m hm
    obtain ⟨a, a', h1, h2, hrest⟩ := hfair m hm
    have hkeep : ∀ i x, announced i (traceActions tr) = [x] →
        announced i (traceActions tr ++ t.actions) = [x] := by
      intro i x hx
      have hlt : i < s.nextOrderId := by
        by_contra hge
        rw [(hrec.fresh i (not_lt.mp hge)).1] at hx
        cases hx
      rw [announced_append, hx, hA, hnew i hlt, List.append_nil]
    exact ⟨a, a', hkeep _ _ h1, hkeep _ _ h2, hrest⟩
  rw [traceActions_snoc]
  obtain ⟨u, as, hu, hent, hturn, hh⟩ | ⟨hu, ha⟩ := step_turn (run_ok hr) hst
  · have hA : ∀ i, announced i t.actions = announced i as := by
      intro i
      rw [announced_actions, hh]
    have hF : ∀ i, filledOf i t.actions = filledOf i as := by
      intro i
      rw [filledOf_actions, hh]
    have hL : Dexdo.legs t.actions = Dexdo.legs as := by rw [legs_actions, hh]
    have hprev := hold as hA fun i hi => hturn.announced_old (hent.nextId ▸ hi)
    rcases hturn.legs with hnone | ⟨e, rest, hl, hm, rfl⟩
    · exact ⟨ms, by rw [legs_append, hms, hL, hnone, List.append_nil], hprev⟩
    · obtain ⟨es, hl', hes⟩ := atHead_entrants (run_ok hr) hst hu
      have henter := hrec.enter hent hl' (entrant_fresh hes)
      refine ⟨ms ++ matchesOf (u.openOrder e).2 u.matchSeq (u.passWalk e.params).fills, ?_, ?_⟩
      · rw [legs_append, hms, hL, matchActions, legs_append, legs_openedActions,
          legs_tradeActions, List.nil_append, List.flatMap_append]
      · intro m hmem
        rcases List.mem_append.mp hmem with hmem | hmem
        · exact hprev m hmem
        · exact pass_fair henter hent.ok hl hm hA hF hmem
  · have hA : ∀ i, announced i t.actions = announced i [] := by
      intro i
      rw [announced_actions, ha.history]
    refine ⟨ms, ?_, hold [] hA fun _ _ => rfl⟩
    rw [legs_append, legs_actions, ha.history, hms]
    exact List.append_nil _

/-- Never-crossed book: in every reachable state the best bid of each outcome and epoch is
strictly below the best ask, and every fill was made at the price of its maker, within the limit
of its taker. -/
theorem never_crossed {market : MarketId} {resultStart numOutcomes : ℕ}
    {tr : List (Call × OrderBook)}
    (h : Run step (OrderBook.init market resultStart numOutcomes) tr s) :
    s.NeverCrossed ∧ FairFills (traceActions tr) := by
  obtain ⟨A, r⟩ := (run_ok h).book.rep
  exact ⟨(run_uncrossed h).neverCrossed r, run_fair h⟩

theorem sweep_never_crossed :
    let tr := Run.trace step sampleBook sweepCalls
    (Run.last sampleBook tr).NeverCrossed ∧ FairFills (traceActions tr) :=
  never_crossed (Run.trace_run step sampleBook sweepCalls)

end OrderBook

end Dexdo
