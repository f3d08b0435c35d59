import Dexdo.OrderBook.Limit
import Dexdo.OrderBook.Turn

namespace Dexdo.OrderBook

variable {s t u : OrderBook} {e : QueueEntry} {p : PlaceParams} {n : ℕ} {A : Book.Index}
  {done rest : List ℕ}

/-- Base amount resting at a list of prices opposite to an order. -/
def levelTotal (s : OrderBook) (p : PlaceParams) (prices : List ℕ) : ℕ :=
  (prices.map fun q => (s.level p.oppKey q).totalAmount).sum

/-- Base amount of the resting orders that cross an order. -/
def crossTotal (s : OrderBook) (p : PlaceParams) : ℕ := ((s.crossingMakers p).map Maker.amount).sum

theorem split_worse (hp : s.oppPrices p.outcomeId p.isBuy p.epochId = done ++ q :: rest) :
    (∀ x ∈ done ++ [q], Book.worse p.isBuy q x = false) ∧
      ∀ x ∈ rest, Book.worse p.isBuy q x = true := by
  have hsorted := s.oppPrices_sorted p.outcomeId p.isBuy p.epochId
  rw [hp] at hsorted
  constructor
  · intro x hx
    rcases List.mem_append.mp hx with hx | hx
    · have := (List.pairwise_append.mp hsorted).2.2 x hx q (by simp)
      unfold Book.worse at this ⊢
      split_ifs at this ⊢ <;> simp at this ⊢ <;> omega
    · rw [List.mem_singleton.mp hx]
      unfold Book.worse
      split_ifs <;> simp
  · exact (List.pairwise_cons.mp (List.pairwise_append.mp hsorted).2.1).1

theorem nextOpposite_at (hp : s.oppPrices p.outcomeId p.isBuy p.epochId = done ++ q :: rest) :
    s.nextOpposite p.outcomeId p.isBuy p.epochId q =
      rest.head?.map fun q => (q, s.level p.oppKey q) := by
  obtain ⟨h1, h2⟩ := split_worse hp
  have hsplit : s.oppPrices p.outcomeId p.isBuy p.epochId = (done ++ [q]) ++ rest := by
    rw [hp, List.append_assoc]
    rfl
  exact s.nextOpposite_eq _ _ _ hsplit h1 h2

/-- Levels the pre-check has counted: the best ones of the ladder, all of them crossing. -/
structure Counted (s : OrderBook) (p : PlaceParams) (done rest : List ℕ) : Prop where
  split : s.oppPrices p.outcomeId p.isBuy p.epochId = done ++ rest
  cross : ∀ q ∈ done, Book.pricesCross p.isBuy p.storedPrice p.isMarket q = true

/-- What a result of the pre-check walk says about the levels it has counted. -/
def Precheck.Sound (s : OrderBook) (p : PlaceParams) (need : ℕ) : Precheck → Prop
  | .notReached => True
  | .reached => ∃ done rest, s.Counted p done rest ∧ need ≤ s.levelTotal p done
  | .outOfBudget accum lastPrice => ∃ done rest, s.Counted p (done ++ [lastPrice]) rest ∧
      accum = s.levelTotal p (done ++ [lastPrice])

/-- The pre-check walk counts crossing levels only, each of them once. -/
theorem precheckWalk_sound (need budget accum : ℕ) (hc : s.Counted p done rest)
    (ha : accum = s.levelTotal p done) :
    Precheck.Sound s p need (s.precheckWalk p need budget
      (rest.head?.map fun q => (q, s.level p.oppKey q)) accum) := by
  induction budget generalizing done rest accum with
  | zero => exact trivial
  | succ budget ih =>
    cases rest with
    | nil => exact trivial
    | cons q rest =>
      simp only [List.head?_cons, Option.map_some, precheckWalk]
      by_cases hcross : Book.pricesCross p.isBuy p.storedPrice p.isMarket q = true
      · have hcount : s.Counted p (done ++ [q]) rest := by
          refine ⟨by rw [hc.split, List.append_assoc]; rfl, ?_⟩
          intro x hx
          rcases List.mem_append.mp hx with hx | hx
          · exact hc.cross x hx
          · exact List.mem_singleton.mp hx ▸ hcross
        have htotal : accum + (s.level p.oppKey q).totalAmount = s.levelTotal p (done ++ [q]) := by
          simp [levelTotal, ha]
        rw [if_neg (by simp [hcross])]
        by_cases hneed : need ≤ accum + (s.level p.oppKey q).totalAmount
        · rw [if_pos hneed]
          exact ⟨_, _, hcount, htotal ▸ hneed⟩
        · rw [if_neg hneed]
          by_cases hbudget : budget = 0
          · rw [if_pos hbudget]
            exact ⟨done, rest, hcount, htotal⟩
          · rw [if_neg hbudget, nextOpposite_at hc.split]
            exact ih _ hcount htotal
      · rw [if_pos (by simp [hcross])]
        exact trivial

theorem makersAt_total (r : s.toBook.Rep n A) (p : PlaceParams) (q : ℕ) :
    ((s.makersAt n p q).map Maker.amount).sum = (s.level p.oppKey q).totalAmount := by
  rw [r.total, r.atPrice_eq, makersAt, List.map_map]
  rfl

theorem makersAt_levelTotal (r : s.toBook.Rep n A) (p : PlaceParams) (prices : List ℕ) :
    ((prices.flatMap fun q => s.makersAt n p q).map Maker.amount).sum = s.levelTotal p prices := by
  induction prices with
  | nil => rfl
  | cons q prices ih =>
    rw [List.flatMap_cons, List.map_append, List.sum_append, ih, makersAt_total r]
    rfl

theorem Counted.total_le (r : s.toBook.Rep s.nextOrderId A) (hc : s.Counted p done rest) :
    s.levelTotal p done ≤ s.crossTotal p := by
  have htake : done <+: (s.oppPrices p.outcomeId p.isBuy p.epochId).takeWhile
      (Book.pricesCross p.isBuy p.storedPrice p.isMarket) := by
    rw [hc.split, List.takeWhile_append_of_pos hc.cross]
    exact List.prefix_append _ _
  obtain ⟨more, hmore⟩ := htake
  have hsum : s.crossTotal p = s.levelTotal p (done ++ more) := by
    rw [crossTotal, crossingMakers, makers, ← hmore]
    exact makersAt_levelTotal r p _
  rw [hsum]
  simp [levelTotal]

/-- The levels a rewritten head entry has counted so far. -/
def Walked (s : OrderBook) (e : QueueEntry) : Prop :=
  e.precheckAccum ≠ 0 → ∃ done rest, s.Counted e.params (done ++ [e.precheckLastPrice]) rest ∧
    e.precheckAccum = s.levelTotal e.params (done ++ [e.precheckLastPrice])

theorem precheck_sound (hw : s.Walked e) (hn : 0 < minFill e.params) (hd : e.precheckDone = false) :
    Precheck.Sound s e.params (minFill e.params) (s.precheck e) := by
  unfold precheck
  dsimp only
  rw [if_pos ⟨hn, by simp [hd]⟩]
  split_ifs with h0
  · rw [Book.bestOpposite_eq]
    have hnone : s.Counted e.params []
        (s.oppPrices e.params.outcomeId e.params.isBuy e.params.epochId) := ⟨rfl, by simp⟩
    apply precheckWalk_sound _ _ _ hnone
    rw [h0]
    rfl
  · obtain ⟨done, rest, hc, ha⟩ := hw h0
    have hsplit : s.oppPrices e.params.outcomeId e.params.isBuy e.params.epochId =
        done ++ e.precheckLastPrice :: rest := by
      rw [hc.split, List.append_assoc]
      rfl
    rw [nextOpposite_at hsplit]
    exact precheckWalk_sound _ _ _ hc ha

theorem precheck_reached (r : s.toBook.Rep s.nextOrderId A) (hw : s.Walked e)
    (hd : e.precheckDone = false) (hr : s.precheck e = .reached) :
    minFill e.params ≤ s.crossTotal e.params := by
  by_cases hn : 0 < minFill e.params
  · have hs := precheck_sound hw hn hd
    rw [hr] at hs
    obtain ⟨done, rest, hc, hle⟩ := hs
    exact hle.trans (hc.total_le r)
  · omega

theorem precheck_budget_walked (hw : s.Walked e) (orderId : ℕ) {accum lastPrice : ℕ}
    (h : s.precheck e = .outOfBudget accum lastPrice) (ht : t.toBook = s.toBook) :
    e.precheckDone = false ∧ t.Walked (deferred e orderId accum lastPrice) := by
  have hcond : 0 < minFill e.params ∧ ¬ e.precheckDone := by
    by_contra hc
    unfold precheck at h
    dsimp only at h
    rw [if_neg hc] at h
    cases h
  have hd : e.precheckDone = false := by simpa using hcond.2
  refine ⟨hd, fun _ => ?_⟩
  have hs := precheck_sound hw hcond.1 hd
  rw [h] at hs
  obtain ⟨done, rest, hc, ha⟩ := hs
  refine ⟨done, rest, ⟨?_, hc.cross⟩, ?_⟩
  · rw [ht]
    exact hc.split
  · unfold levelTotal at ha ⊢
    rw [ht]
    exact ha

theorem maker_of_core {i : ℕ} (h : t.core i = u.core i) : t.maker i = u.maker i := by
  have hprice : (t.core i).price = (u.core i).price := congrArg Order.price h
  have hamount : (t.core i).amount = (u.core i).amount := congrArg Order.amount h
  simp only [Book.core, Order.unlinked] at hprice hamount
  simp only [maker, makerOf, hprice, hamount]

/-- A limit order's capped pass takes its makers whole and leaves the rest in place. -/
theorem capped_crossing (hu : u.Ok) (hb : TradesBase e.params)
    (hc : (u.passWalk e.params).halt = .hitCapWithMore)
    (ht : t.toBook = u.toBook.consumeAll e.params.outcomeId (u.passWalk e.params).fills)
    (hn : u.nextOrderId ≤ t.nextOrderId) (hp : p.oppKey = e.params.oppKey ∧
      p.isBuy = e.params.isBuy ∧ p.storedPrice = e.params.storedPrice ∧
      p.isMarket = e.params.isMarket) :
    t.crossTotal p + ((u.passWalk e.params).fills.map Fill.trade).sum = u.crossTotal e.params := by
  obtain ⟨A, r⟩ := hu.book.rep
  obtain ⟨hok, ⟨A', r'⟩, hcons⟩ := passWalk_consumed hu.book e.params
  rw [← ht] at r' hcons
  replace r' := r'.mono hn
  have hfull : ∀ f ∈ (u.passWalk e.params).fills, f.trade = f.maker.amount :=
    (walk_steady (crossingMakers_pos hu.book) fun h => absurd h hb).2 hc
  obtain ⟨ms, hms⟩ := passWalk_split u e.params
  have hsorted := crossingMakers_sorted (s := u) (p := e.params)
  rw [hms] at hsorted
  have hms' : t.crossingMakers p = ms := by
    refine crossingMakers_eq_of_mem (hp.2.1 ▸ (List.pairwise_append.mp hsorted).2.1) fun m => ?_
    rw [mem_crossingMakers r', hp.1, hp.2.1, hp.2.2.1, hp.2.2.2]
    have hmu := mem_crossingMakers (p := e.params) r m
    rw [hms, List.mem_append] at hmu
    constructor
    · rintro ⟨⟨hs, hk, hm⟩, hcr⟩
      obtain ⟨hsu, hnot⟩ := (hcons.stored _).mp hs
      have hun : t.core m.id = u.core m.id := hcons.untouched _ fun f hf hid =>
        hnot f hf ⟨hid, hfull f hf⟩
      have hmaker : t.maker m.id = u.maker m.id := maker_of_core hun
      have hku : (u.order m.id).key = e.params.oppKey := (congrArg Order.key hun).symm.trans hk
      rcases hmu.mpr ⟨⟨hsu, hku, hm.trans hmaker⟩, hcr⟩ with hf | hf
      · obtain ⟨f, hf, hfm⟩ := List.mem_map.mp hf
        exact absurd ⟨congrArg Maker.id hfm, hfull f hf⟩ (hnot f hf)
      · exact hf
    · intro hm
      obtain ⟨⟨hsu, hk, hmm⟩, hcr⟩ := hmu.mp (.inr hm)
      have hne : ∀ f ∈ (u.passWalk e.params).fills, f.maker.id ≠ m.id := by
        intro f hf hid
        have hfm : f.maker = m := by
          have hfu := (mem_crossingMakers (p := e.params) r f.maker).mp
            (by rw [hms]; exact List.mem_append_left _ (List.mem_map_of_mem hf))
          rw [hfu.1.2.2, hmm, hid]
        have hafter := (List.pairwise_append.mp hsorted).2.2 _ (List.mem_map_of_mem hf) _ hm
        rw [hfm] at hafter
        exact hafter.asymm hafter
      have hst : t.Stored m.id := (hcons.stored _).mpr ⟨hsu, fun f hf h => hne f hf h.1⟩
      have hun : t.core m.id = u.core m.id := hcons.untouched _ hne
      exact ⟨⟨hst, (congrArg Order.key hun).trans hk, hmm.trans (maker_of_core hun).symm⟩, hcr⟩
  have htr : (u.passWalk e.params).fills.map Fill.trade =
      ((u.passWalk e.params).fills.map Fill.maker).map Maker.amount := by
    rw [List.map_map]
    exact List.map_congr_left hfull
  rw [crossTotal, crossTotal, hms', hms, htr, List.map_append, List.sum_append, Nat.add_comm]

end Dexdo.OrderBook
