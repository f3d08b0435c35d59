import Dexdo.OrderBook.Placement

namespace Dexdo.OrderBook

/-- Base units a market buy can pay for at an ask. -/
def affordBase (quote : ℕ) (m : Maker) : ℕ :=
  if 0 < m.price then quote * FULL_PERCENT / m.price else m.amount

/-- At the first ask a quote does not pay in full, what is left of it buys nothing more: the
ladder ends there, the next ask is out of reach, or it was the last match of the pass. -/
def DustFree : (left quote : ℕ) → List Maker → Prop
  | _, _, [] => True
  | 0, _, _ => True
  | left + 1, quote, m :: ms =>
    if m.amount ≤ affordBase quote m then DustFree left (quote - notionalOf m.amount m.price) ms
    else left = 0 ∨
      ∀ m' ∈ ms.head?, affordBase (quote - notionalOf (affordBase quote m) m.price) m' = 0

instance decidableDustFree : (left quote : ℕ) → (ms : List Maker) → Decidable (DustFree left quote ms)
  | 0, _, [] => .isTrue trivial
  | _ + 1, _, [] => .isTrue trivial
  | 0, _, _ :: _ => .isTrue trivial
  | left + 1, quote, m :: ms =>
    have := decidableDustFree left (quote - notionalOf m.amount m.price) ms
    inferInstanceAs (Decidable (if m.amount ≤ affordBase quote m then _ else _ ∨ _))

variable {p : PlaceParams}

theorem tradeSize_market (hp : p.isBuy ∧ p.isMarket) (quote : ℕ) (m : Maker) :
    tradeSize p quote m.amount m.price =
      if m.amount ≤ affordBase quote m then m.amount else affordBase quote m := by
  rw [tradeSize, if_pos hp]
  unfold affordBase
  dsimp only
  split_ifs <;> omega

theorem takerSpent_market (hp : p.isBuy ∧ p.isMarket) (trade price : ℕ) :
    takerSpent p trade price = notionalOf trade price := by rw [takerSpent, if_pos hp]

theorem limit_partly_spent (hp : ¬ (p.isBuy ∧ p.isMarket)) {remaining a q : ℕ}
    (h : tradeSize p remaining a q ≠ a) :
    remaining - takerSpent p (tradeSize p remaining a q) q = 0 := by
  rw [takerSpent, if_neg hp]
  rw [tradeSize, if_neg hp] at h ⊢
  split_ifs at h ⊢
  · omega
  · exact absurd rfl h

theorem walk_unaffordable (hp : p.isBuy ∧ p.isMarket) (left quote : ℕ) {ms : List Maker}
    (hpos : ∀ m ∈ ms, 0 < m.amount)
    (h : ∀ m ∈ ms.head?, affordBase quote m = 0) :
    (walk p (left + 1) quote ms).fills = [] ∧
      (walk p (left + 1) quote ms).halt ≠ .hitCapWithMore := by
  cases ms with
  | nil => simp
  | cons m ms =>
    by_cases h0 : quote = 0
    · simp [h0]
    · have ha := h m rfl
      have hm := hpos m (by simp)
      have ht : tradeSize p quote m.amount m.price = 0 := by
        rw [tradeSize_market hp, ha]
        split_ifs <;> omega
      rw [walk_succ _ _ _ _ _ h0, if_pos ⟨hp, ht⟩]
      simp

theorem walk_no_left (p : PlaceParams) (remaining : ℕ) (ms : List Maker) :
    (walk p 0 remaining ms).fills = [] := by
  cases ms with
  | nil => simp
  | cons =>
    by_cases h0 : remaining = 0
    · simp [h0]
    · rw [walk_cap _ _ _ _ h0]

/-- In a dust-free walk every fill but the last takes its maker whole. -/
theorem walk_full {left remaining : ℕ} {ms : List Maker} (hpos : ∀ m ∈ ms, 0 < m.amount)
    (h : p.isBuy ∧ p.isMarket → DustFree left remaining ms) :
    ∀ f ∈ (walk p left remaining ms).fills.dropLast, f.trade = f.maker.amount := by
  induction ms generalizing left remaining with
  | nil => simp
  | cons m ms ih =>
    by_cases h0 : remaining = 0
    · simp [h0]
    cases left with
    | zero => simp [walk_cap _ _ _ _ h0]
    | succ left =>
      have hpos' : ∀ m' ∈ ms, 0 < m'.amount := fun m' hm' => hpos m' (by simp [hm'])
      rw [walk_succ _ _ _ _ _ h0]
      dsimp only
      split_ifs with hd
      · simp
      by_cases hfull : tradeSize p remaining m.amount m.price = m.amount
      · -- the maker is taken whole and the walk goes on
        have hrec : p.isBuy ∧ p.isMarket → DustFree left
            (remaining - takerSpent p (tradeSize p remaining m.amount m.price) m.price) ms := by
          intro hp
          have hle : m.amount ≤ affordBase remaining m := by
            rw [tradeSize_market hp] at hfull
            split_ifs at hfull <;> omega
          have := h hp
          rw [DustFree, if_pos hle] at this
          rwa [takerSpent_market hp, hfull]
        intro f hf
        rcases List.mem_cons.mp (List.mem_of_mem_dropLast hf) with rfl | hm
        · exact hfull
        · rw [List.dropLast_cons_of_ne_nil (List.ne_nil_of_mem hm)] at hf
          rcases List.mem_cons.mp hf with rfl | hf
          · exact hfull
          · exact ih hpos' hrec f hf
      · -- otherwise no fill follows
        have hnone : (walk p left
            (remaining - takerSpent p (tradeSize p remaining m.amount m.price) m.price)
            ms).fills = [] := by
          by_cases hp : p.isBuy ∧ p.isMarket
          · have hle : ¬ m.amount ≤ affordBase remaining m := fun hle =>
              hfull (by rw [tradeSize_market hp, if_pos hle])
            have hdf := h hp
            rw [DustFree, if_neg hle] at hdf
            rw [takerSpent_market hp, tradeSize_market hp, if_neg hle]
            rcases hdf with rfl | hdf
            · exact walk_no_left p _ ms
            · cases left with
              | zero => exact walk_no_left p _ ms
              | succ left => exact (walk_unaffordable hp left _ hpos' hdf).1
          · rw [limit_partly_spent hp hfull]
            simp
        rw [hnone]
        simp

variable {s t u : OrderBook} {e : QueueEntry} {A : Book.Index}

/-- A fill happens only after every resting order with priority over its maker is consumed. -/
def InPriority (u : OrderBook) (p : PlaceParams) (fills : List Fill) : Prop :=
  ∀ pre f post, fills = pre ++ f :: post → ∀ i, u.Stored i → (u.order i).key = p.oppKey →
    (u.maker i).Before p.isBuy f.maker →
    ∃ g ∈ pre, g.maker.id = i ∧ g.trade = (u.order i).amount

/-- A fill that leaves its maker partly filled is followed by fills of that maker only. -/
def SameMaker (f g : Fill) : Prop := f.trade ≠ f.maker.amount → g.maker.id = f.maker.id

theorem crossingMakers_pos (h : u.BookOk) : ∀ m ∈ u.crossingMakers p, 0 < m.amount := by
  obtain ⟨A, r⟩ := h.rep
  intro m hm
  obtain ⟨⟨hs, -, he⟩, -⟩ := (mem_crossingMakers r m).mp hm
  rw [he]
  exact (r.bound m.id hs).2.2

theorem passWalk_split (u : OrderBook) (p : PlaceParams) :
    ∃ rest, u.crossingMakers p = (u.passWalk p).fills.map Fill.maker ++ rest := by
  obtain ⟨rest, h⟩ := walk_makers_initial p MAX_MATCHES_PER_CALL p.amount (u.crossingMakers p)
  exact ⟨rest, h.symm⟩

theorem inPriority_of_full (h : u.BookOk)
    (hfull : ∀ f ∈ (u.passWalk p).fills.dropLast, f.trade = f.maker.amount) :
    u.InPriority p (u.passWalk p).fills := by
  intro pre f post hsplit i hs hk hb
  obtain ⟨A, r⟩ := h.rep
  obtain ⟨rest, hms⟩ := passWalk_split u p
  rw [hsplit, List.map_append, List.map_cons, List.append_assoc, List.cons_append] at hms
  have hsorted := crossingMakers_sorted (s := u) (p := p)
  have hf : f.maker ∈ u.crossingMakers p := by rw [hms]; simp
  have hi := mem_crossingMakers_of_before r hf hs hk hb
  rw [hms] at hi hsorted
  rcases List.mem_append.mp hi with hi | hi
  · obtain ⟨g, hg, hgi⟩ := List.mem_map.mp hi
    have hlast : g ∈ (u.passWalk p).fills.dropLast := by
      rw [hsplit, List.dropLast_append_of_ne_nil (by simp)]
      exact List.mem_append_left _ hg
    refine ⟨g, hg, by rw [hgi]; rfl, ?_⟩
    rw [hfull g hlast, hgi]
    rfl
  · exfalso
    rcases List.mem_cons.mp hi with he | hi
    · rw [he] at hb
      exact hb.asymm hb
    · have hafter := (List.pairwise_cons.mp (List.pairwise_append.mp hsorted).2.1).1 _ hi
      exact hb.asymm hafter

theorem chain_of_full {fills : List Fill}
    (h : ∀ f ∈ fills.dropLast, f.trade = f.maker.amount) : fills.IsChain SameMaker := by
  induction fills with
  | nil => exact .nil
  | cons f fills ih =>
    cases fills with
    | nil => exact .singleton f
    | cons =>
      have hf := h f (by simp)
      refine .cons_cons (fun hne => absurd hf hne) (ih fun x hx => h x ?_)
      rw [List.dropLast_cons_of_ne_nil (by simp)]
      exact List.mem_cons_of_mem _ hx

theorem passWalk_consumed (h : u.BookOk) (p : PlaceParams) :
    Book.FillsOk u.toBook p.outcomeId (u.passWalk p).fills ∧
      (∃ A, (u.toBook.consumeAll p.outcomeId (u.passWalk p).fills).Rep u.nextOrderId A) ∧
      Book.Consumed u.toBook (u.toBook.consumeAll p.outcomeId (u.passWalk p).fills)
        (u.passWalk p).fills := by
  obtain ⟨A, r⟩ := h.rep
  have hok := (crossingMakers_ok h p).fillsOk MAX_MATCHES_PER_CALL p.amount
  exact ⟨hok, Book.consumeAll_spec r hok⟩

/-- A maker left partly filled by the last fill of a pass comes first in the next one. -/
theorem first_after_partly (h : u.BookOk) (hb : t.toBook =
      u.toBook.consumeAll p.outcomeId (u.passWalk p).fills) (hn : u.nextOrderId ≤ t.nextOrderId)
    (hfull : ∀ f ∈ (u.passWalk p).fills.dropLast, f.trade = f.maker.amount) {f : Fill}
    (hlast : (u.passWalk p).fills.getLast? = some f) (hne : f.trade ≠ f.maker.amount) :
    (t.crossingMakers p).head?.map Maker.id = some f.maker.id := by
  obtain ⟨A, r⟩ := h.rep
  obtain ⟨hok, ⟨A', r'⟩, hC⟩ := passWalk_consumed h p
  rw [← hb] at r' hC
  replace r' := r'.mono hn
  obtain ⟨pre, hpre⟩ := List.getLast?_eq_some_iff.mp hlast
  obtain ⟨rest, hms⟩ := passWalk_split u p
  rw [hpre, List.map_append, List.append_assoc] at hms
  have hdrop : ∀ g ∈ pre, g.trade = g.maker.amount := by simpa [hpre] using hfull
  have hsorted := crossingMakers_sorted (s := u) (p := p)
  rw [hms] at hsorted
  have hf : f.maker ∈ u.crossingMakers p := by rw [hms]; simp
  obtain ⟨⟨hfs, hfk, hfm⟩, hfc⟩ := (mem_crossingMakers r _).mp hf
  have hmem : f ∈ (u.passWalk p).fills := by rw [hpre]; simp
  have hfst : t.Stored f.maker.id := by
    refine (hC.stored _).mpr ⟨hfs, fun g hg hgi => ?_⟩
    have hgf : g = f := by
      have hnd := hok.nodup
      exact List.inj_on_of_nodup_map hnd hg hmem hgi.1
    exact hne (hgf ▸ hgi.2)
  obtain ⟨hkey, hprice, -⟩ := hC.key_price hok _ hfst
  have hx : t.maker f.maker.id ∈ t.crossingMakers p := by
    refine (mem_crossingMakers r' _).mpr ⟨⟨hfst, hkey.trans hfk, rfl⟩, ?_⟩
    have : (t.maker f.maker.id).price = f.maker.price := by
      rw [hfm]
      exact hprice
    rw [this]
    exact hfc
  cases hl : t.crossingMakers p with
  | nil => simp [hl] at hx
  | cons m =>
    rw [hl] at hx
    rcases List.mem_cons.mp hx with he | hx
    · simp [← he, maker, makerOf]
    · exfalso
      have hmx := (List.pairwise_cons.mp (hl ▸ crossingMakers_sorted (s := t) (p := p))).1 _ hx
      obtain ⟨⟨hms', hmk, hmm⟩, hmc⟩ := (mem_crossingMakers r' m).mp (by rw [hl]; simp)
      obtain ⟨hkey', hprice', -⟩ := hC.key_price hok _ hms'
      have hup : (u.maker m.id).price = m.price := by
        rw [hmm]
        exact hprice'.symm
      have hum : u.maker m.id ∈ u.crossingMakers p := by
        refine (mem_crossingMakers r _).mpr
          ⟨⟨((hC.stored _).mp hms').1, hkey'.symm.trans hmk, rfl⟩, ?_⟩
        rw [hup]
        exact hmc
      have hbefore : (u.maker m.id).Before p.isBuy f.maker := by
        have h1 : (t.maker f.maker.id).price = f.maker.price := by
          rw [hfm]
          exact hprice
        unfold Maker.Before at hmx ⊢
        rw [hup]
        rw [h1] at hmx
        exact hmx
      rw [hms] at hum
      rcases List.mem_append.mp hum with hg | hg
      · obtain ⟨g, hg, hgm⟩ := List.mem_map.mp hg
        have hgi : g.maker.id = m.id := by rw [hgm]; rfl
        exact ((hC.stored _).mp hms').2 g (by rw [hpre]; simp [hg]) ⟨hgi, hdrop g hg⟩
      · rcases List.mem_cons.mp hg with he | hg
        · rw [he] at hbefore
          exact hbefore.asymm hbefore
        · exact hbefore.asymm
            ((List.pairwise_cons.mp (List.pairwise_append.mp hsorted).2.1).1 _ hg)

/-- A market buy of the pass meets no dust. -/
def DustFreePass (u : OrderBook) (e : QueueEntry) : Prop :=
  e.params.isBuy ∧ e.params.isMarket →
    DustFree MAX_MATCHES_PER_CALL e.params.amount (u.crossingMakers e.params)

/-- Price-time priority over all the match passes of one placement. -/
def PriorityKept (us : List OrderBook) : Prop :=
  (∀ u ∈ us, ∃ e, u.matchingEntry = some e ∧
    (u.openOrder e).1.matchOrder e (u.openOrder e).2 = u.passMatch e ∧
    u.InPriority e.params u.passFills) ∧
  (us.flatMap passFills).IsChain SameMaker

/-- Between two passes of a placement a maker it left partly filled is the first to match. -/
def PartlyFirst (us : List OrderBook) (b : Book) (n : ℕ) (p : PlaceParams) : Prop :=
  ∀ f, (us.flatMap passFills).getLast? = some f → f.trade ≠ f.maker.amount →
    ∃ v : OrderBook, v.toBook = b ∧ v.nextOrderId = n ∧
      (v.crossingMakers p).head?.map Maker.id = some f.maker.id

theorem passFills_eq (hm : u.matchingEntry = some e) : u.passFills = (u.passWalk e.params).fills := by
  rw [passFills, hm]

theorem PriorityKept.step {us : List OrderBook} (hu : u.Ok) (hm : u.matchingEntry = some e)
    (hd : DustFreePass u e) (h : PriorityKept us)
    (hj : us ≠ [] → PartlyFirst us u.toBook u.nextOrderId e.params) :
    PriorityKept (us ++ [u]) ∧ ((u.passWalk e.params).halt = .hitCapWithMore →
      PartlyFirst (us ++ [u]) u.processHeadCore.toBook u.processHeadCore.nextOrderId
        { e.params with amount := (u.passWalk e.params).remaining }) := by
  obtain ⟨A, r⟩ := hu.book.rep
  have hfull : ∀ f ∈ (u.passWalk e.params).fills.dropLast, f.trade = f.maker.amount :=
    walk_full (crossingMakers_pos hu.book) hd
  have hflat : (us ++ [u]).flatMap passFills =
      us.flatMap passFills ++ (u.passWalk e.params).fills := by
    simp [passFills_eq hm]
  refine ⟨⟨fun v hv => ?_, ?_⟩, fun hc => ?_⟩
  · rcases List.mem_append.mp hv with hv | hv
    · exact h.1 v hv
    · rw [List.mem_singleton.mp hv]
      refine ⟨e, hm, matchOrder_passMatch hu.book e, ?_⟩
      rw [passFills_eq hm]
      exact inPriority_of_full hu.book hfull
  · rw [hflat, List.isChain_append]
    refine ⟨h.2, chain_of_full hfull, fun f hf g hg hne => ?_⟩
    have hus : us ≠ [] := by
      rintro rfl
      simp at hf
    obtain ⟨v, hvb, hvn, hvh⟩ := hj hus f hf hne
    have hcm : v.crossingMakers e.params = u.crossingMakers e.params :=
      crossingMakers_congr r hvn.ge hvb rfl ⟨rfl, rfl, rfl⟩
    obtain ⟨rest, hms⟩ := passWalk_split u e.params
    obtain ⟨l, hl⟩ : ∃ l, (u.passWalk e.params).fills = g :: l := by
      cases hl : (u.passWalk e.params).fills with
      | nil => simp [hl] at hg
      | cons x l =>
        obtain rfl : x = g := by simpa [hl] using hg
        exact ⟨l, rfl⟩
    rw [hcm, hms, hl] at hvh
    simpa using hvh
  · intro f hf hne
    obtain ⟨-, hb, hn⟩ := capped_pass hu hm hc
    have hlen := walk_capped_length _ _ _ _ hc
    have hlast : (u.passWalk e.params).fills.getLast? = some f := by
      have hnil : (u.passWalk e.params).fills ≠ [] := by
        intro h0
        rw [passWalk] at h0
        rw [h0] at hlen
        exact absurd hlen (by decide)
      rw [hflat, List.getLast?_append_of_ne_nil _ hnil] at hf
      exact hf
    have hfirst := first_after_partly hu.book hb hn hfull hlast hne
    obtain ⟨A', r'⟩ := (processHeadCore_spec hu).1.book.rep
    refine ⟨u.processHeadCore, rfl, rfl, ?_⟩
    have hcm : u.processHeadCore.crossingMakers
        { e.params with amount := (u.passWalk e.params).remaining } =
        u.processHeadCore.crossingMakers e.params :=
      crossingMakers_congr r' le_rfl rfl rfl ⟨rfl, rfl, rfl⟩
    exact (congrArg (fun l => l.head?.map Maker.id) hcm).trans hfirst

/-- Price-time priority: over all passes of a placement whose market buys meet no dust, a resting
order is filled only after every order with priority over it, and at most one maker is left partly
filled, the last one touched. -/
theorem placement_in_priority {market : MarketId} {resultStart numOutcomes : ℕ}
    {tr : List (Call × OrderBook)}
    (h : Run step (OrderBook.init market resultStart numOutcomes) tr s) (k : ℕ)
    (hd : ∀ u ∈ passStates k (OrderBook.init market resultStart numOutcomes) tr,
      ∀ e, u.matchingEntry = some e → DustFreePass u e) :
    PriorityKept (passStates k (OrderBook.init market resultStart numOutcomes) tr) :=
  passes_induction h DustFreePass PriorityKept PartlyFirst ⟨by simp, by simp⟩
    (fun _ _ _ hu hm hd hI hj => hI.step hu hm hd hj) k hd

/-- Two asks and a market buy whose quote leaves one unit of dust after the first of them. -/
def dustAsk : PlaceParams := ⟨0, false, 0, 3000, 3340000, 0, 0, 0⟩

def dustBuy : PlaceParams := ⟨0, true, FLAG_MARKET, 0, 1000001, 0, 0, 0⟩

def dustCalls : List Call :=
  [.executeBatch (.note 7) 1 7 [dustAsk, dustAsk] [] 1, .processHead,
    .executeBatch (.note 8) 1 8 [dustBuy] [] 1]

theorem dust_fills : (passStates 2 sampleBook (Run.trace step sampleBook dustCalls)).map passFills =
    [[⟨⟨1, 3000, 3340000⟩, 1000001, 3333336⟩, ⟨⟨2, 3000, 3340000⟩, 1, 3⟩]] := by decide +kernel

/-- The second ask is filled while a part of the first still rests. -/
theorem dust_breaks_priority :
    Run step sampleBook (Run.trace step sampleBook dustCalls)
      (Run.last sampleBook (Run.trace step sampleBook dustCalls)) ∧
    ¬ PriorityKept (passStates 2 sampleBook (Run.trace step sampleBook dustCalls)) := by
  refine ⟨Run.trace_run .., fun h => ?_⟩
  have hflat := congrArg List.flatten dust_fills
  rw [← List.flatMap_def] at hflat
  have hchain := h.2
  rw [hflat] at hchain
  simp [SameMaker] at hchain

/-- A market buy that pays the one ask in the book exactly. -/
def exactBuy : PlaceParams := ⟨0, true, FLAG_MARKET, 0, 2000000, 0, 0, 0⟩

def exactCalls : List Call :=
  [.executeBatch (.note 7) 1 7 [sampleAsk] [] 1, .executeBatch (.note 8) 1 8 [exactBuy] [] 1]

theorem exact_passes : ∃ u e, passStates 1 sampleBook (Run.trace step sampleBook exactCalls) = [u] ∧
    u.matchingEntry = some e ∧ e.params = exactBuy ∧
    u.crossingMakers exactBuy = [⟨1, 5000, 4000000⟩] := by
  have h : (passStates 1 sampleBook (Run.trace step sampleBook exactCalls)).map (fun u =>
      (u.matchingEntry.map QueueEntry.params, u.crossingMakers exactBuy)) =
      [(some exactBuy, [⟨1, 5000, 4000000⟩])] := by decide +kernel
  obtain ⟨u, hu, h⟩ := List.map_eq_singleton_iff.mp h
  rw [Prod.mk.injEq, Option.map_eq_some_iff] at h
  obtain ⟨⟨e, he, hp⟩, hms⟩ := h
  exact ⟨u, e, hu, he, hp, hms⟩

theorem exactBuy_in_priority :
    (passStates 1 sampleBook (Run.trace step sampleBook exactCalls)).length = 1 ∧
    PriorityKept (passStates 1 sampleBook (Run.trace step sampleBook exactCalls)) := by
  obtain ⟨u, e, hu, he, hp, hms⟩ := exact_passes
  refine ⟨by rw [hu]; rfl, placement_in_priority (Run.trace_run ..) 1 fun v hv e' he' _ => ?_⟩
  rw [show OrderBook.init sampleMarket 100 2 = sampleBook from rfl, hu] at hv
  obtain rfl := List.mem_singleton.mp hv
  obtain rfl : e = e' := Option.some.inj (he.symm.trans he')
  rw [hp, hms]
  decide

end Dexdo.OrderBook
