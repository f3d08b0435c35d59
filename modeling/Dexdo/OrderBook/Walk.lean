import Dexdo.OrderBook.Consume
import Dexdo.OrderBook.Entry

namespace Dexdo

/-- Key of the side a taker matches against. -/
def PlaceParams.oppKey (p : PlaceParams) : LevelKey := ⟨p.outcomeId, !p.isBuy, p.epochId⟩

namespace Book

/-- Ids of one price level in time order. -/
def levelIds (b : Book) (n : ℕ) (k : LevelKey) (q : ℕ) : List ℕ :=
  (List.range n).filter fun i => decide (b.Stored i ∧ (b.order i).key = k ∧ (b.order i).price = q)

theorem Rep.atPrice_eq {b : Book} {n : ℕ} {A : Index} (r : Rep b n A) (k : LevelKey) (q : ℕ) :
    A.atPrice k q = b.levelIds n k q := by
  have hs : (b.levelIds n k q).Pairwise (· < ·) := List.pairwise_lt_range.filter _
  refine List.Perm.eq_of_pairwise (fun a b _ _ h h' => absurd h' h.not_gt) (r.sorted k q) hs ?_
  refine (List.perm_ext_iff_of_nodup (r.nodup_price k q) (hs.imp ne_of_lt)).mpr fun i => ?_
  rw [r.mem_price]
  simp only [levelIds, List.mem_filter, List.mem_range, decide_eq_true_eq]
  exact ⟨fun h => ⟨(r.bound i h.1).2.1, h⟩, fun h => h.2⟩

/-- Prices with a level opposite to a taker, best first. -/
def oppPrices (b : Book) (outcomeId : ℕ) (newIsBuy : Bool) (epochId : ℕ) : List ℕ :=
  let d := b.levels ⟨outcomeId, !newIsBuy, epochId⟩
  if newIsBuy then d.keys else d.keys.reverse

/-- `x` is a strictly worse price than `q` for a taker. -/
def worse (newIsBuy : Bool) (q x : ℕ) : Bool := if newIsBuy then decide (q < x) else decide (x < q)

section Ladder

variable (b : Book) (outcomeId : ℕ) (newIsBuy : Bool) (epochId : ℕ)

theorem oppPrices_sorted :
    (b.oppPrices outcomeId newIsBuy epochId).Pairwise fun x y => worse newIsBuy x y = true := by
  unfold oppPrices worse
  cases newIsBuy with
  | true => simpa using (b.levels ⟨outcomeId, false, epochId⟩).keys_sorted
  | false =>
    simpa [List.pairwise_reverse] using (b.levels ⟨outcomeId, true, epochId⟩).keys_sorted

theorem mem_oppPrices (q : ℕ) : q ∈ b.oppPrices outcomeId newIsBuy epochId ↔
    ((b.levels ⟨outcomeId, !newIsBuy, epochId⟩).get? q).isSome := by
  unfold oppPrices
  cases newIsBuy <;> simp [Dict.mem_keys]

theorem bestOpposite_eq : b.bestOpposite outcomeId newIsBuy epochId =
    (b.oppPrices outcomeId newIsBuy epochId).head?.map fun q =>
      (q, b.level ⟨outcomeId, !newIsBuy, epochId⟩ q) := by
  unfold bestOpposite oppPrices
  cases newIsBuy with
  | true => exact Dict.min?_eq _
  | false => exact Dict.max?_eq _

theorem nextOpposite_eq {done rest : List ℕ} {q : ℕ}
    (h : b.oppPrices outcomeId newIsBuy epochId = done ++ rest)
    (hd : ∀ x ∈ done, worse newIsBuy q x = false) (hr : ∀ x ∈ rest, worse newIsBuy q x = true) :
    b.nextOpposite outcomeId newIsBuy epochId q =
      rest.head?.map fun q => (q, b.level ⟨outcomeId, !newIsBuy, epochId⟩ q) := by
  have hf : (done ++ rest).find? (worse newIsBuy q) = rest.head? := by
    rw [List.find?_append, List.find?_eq_none.mpr (by simpa using hd), Option.none_or]
    cases rest with
    | nil => rfl
    | cons x => simp [hr x (by simp)]
  rw [← h] at hf
  unfold nextOpposite
  unfold oppPrices at hf
  rw [← hf]
  cases newIsBuy with
  | true => exact Dict.next?_eq _ _
  | false => exact Dict.prev?_eq _ _

end Ladder

end Book

namespace OrderBook

/-- A resting order as the match loop sees it. -/
structure Maker where
  id : ℕ
  price : ℕ
  amount : ℕ
  deriving DecidableEq

/-- One fill: its maker, the taker's remaining before it, and the base units traded. -/
structure Fill where
  maker : Maker
  remaining : ℕ
  trade : ℕ
  deriving DecidableEq

structure Walk where
  fills : List Fill
  remaining : ℕ
  left : ℕ
  halt : Halt

/-- The match loop over the crossing makers in priority order, without the book. -/
def walk (p : PlaceParams) : (left remaining : ℕ) → List Maker → Walk
  | left, remaining, [] => ⟨[], remaining, left, .none⟩
  | left, remaining, m :: ms =>
    if remaining = 0 then ⟨[], remaining, left, .none⟩
    else match left with
      | 0 => ⟨[], remaining, 0, .hitCapWithMore⟩
      | left + 1 =>
        let trade := tradeSize p remaining m.amount m.price
        if (p.isBuy ∧ p.isMarket) ∧ trade = 0 then ⟨[], remaining, left + 1, .marketBuyDust⟩
        else
          let w := walk p left (remaining - takerSpent p trade m.price) ms
          { w with fills := ⟨m, remaining, trade⟩ :: w.fills }

theorem tradeSize_le (p : PlaceParams) (remaining a q : ℕ) : tradeSize p remaining a q ≤ a := by
  unfold tradeSize
  dsimp only
  split_ifs <;> omega

section Equations

variable (p : PlaceParams) (left remaining : ℕ) (m : Maker) (ms : List Maker)

@[simp] theorem walk_nil : walk p left remaining [] = ⟨[], remaining, left, .none⟩ := by
  cases left <;> rfl

@[simp] theorem walk_zero : walk p left 0 ms = ⟨[], 0, left, .none⟩ := by
  cases ms with
  | nil => simp
  | cons => cases left <;> simp [walk]

theorem walk_cap (h : remaining ≠ 0) :
    walk p 0 remaining (m :: ms) = ⟨[], remaining, 0, .hitCapWithMore⟩ := by
  simp [walk, h]

theorem walk_succ (h : remaining ≠ 0) : walk p (left + 1) remaining (m :: ms) =
    if (p.isBuy ∧ p.isMarket) ∧ tradeSize p remaining m.amount m.price = 0 then
      ⟨[], remaining, left + 1, .marketBuyDust⟩
    else
      let trade := tradeSize p remaining m.amount m.price
      let w := walk p left (remaining - takerSpent p trade m.price) ms
      { w with fills := ⟨m, remaining, trade⟩ :: w.fills } := by
  simp [walk, h]

end Equations

theorem walk_append (p : PlaceParams) (left remaining : ℕ) (ms ms' : List Maker) :
    walk p left remaining (ms ++ ms') =
      let w := walk p left remaining ms
      if w.halt = .none then
        let w' := walk p w.left w.remaining ms'
        { w' with fills := w.fills ++ w'.fills }
      else w := by
  induction ms generalizing left remaining with
  | nil => simp
  | cons m ms ih =>
    by_cases h0 : remaining = 0
    · subst h0
      simp
    · cases left with
      | zero => simp [walk_cap _ _ _ _ h0]
      | succ left =>
        simp only [List.cons_append, walk_succ _ _ _ _ _ h0, ih]
        split_ifs <;> simp_all

theorem walk_makers_initial (p : PlaceParams) (left remaining : ℕ) (ms : List Maker) :
    (walk p left remaining ms).fills.map Fill.maker <+: ms := by
  induction ms generalizing left remaining with
  | nil => simp
  | cons m ms ih =>
    by_cases h0 : remaining = 0
    · simp [h0]
    · cases left with
      | zero => simp [walk_cap _ _ _ _ h0]
      | succ =>
        rw [walk_succ _ _ _ _ _ h0]
        split_ifs
        · simp
        · simpa using ih _ _

theorem walk_trade (p : PlaceParams) (left remaining : ℕ) (ms : List Maker) :
    ∀ f ∈ (walk p left remaining ms).fills,
      f.trade = tradeSize p f.remaining f.maker.amount f.maker.price := by
  induction ms generalizing left remaining with
  | nil => simp
  | cons m ms ih =>
    by_cases h0 : remaining = 0
    · simp [h0]
    · cases left with
      | zero => simp [walk_cap _ _ _ _ h0]
      | succ =>
        rw [walk_succ _ _ _ _ _ h0]
        split_ifs
        · simp
        · simpa using ih _ _

/-- Run the fills of a walk against the book. -/
def applyFills (e : QueueEntry) (orderId : ℕ) (s : OrderBook) (fills : List Fill) : OrderBook :=
  fills.foldl (fun s f =>
    s.fillMaker e orderId f.maker.id f.maker.price f.remaining f.trade) s

@[simp] theorem emitMakerFill_toBook (s : OrderBook) (cur : ℕ) (cp : Order) (trade : ℕ) :
    (s.emitMakerFill cur cp trade).toBook = s.toBook := by
  unfold emitMakerFill
  split_ifs <;> rfl

@[simp] theorem processFillTo_toBook (s : OrderBook) (pnHash orderId outcomeId filledAmount
    clearingPrice : ℕ) (isBuy : Bool) (buyerRefund : ℕ) (isTaker isFinal : Bool)
    (clientOrderId matchId sub : ℕ) (cause : Option ℕ) :
    (s.processFillTo pnHash orderId outcomeId filledAmount clearingPrice isBuy buyerRefund isTaker
      isFinal clientOrderId matchId sub cause).toBook = s.toBook := by
  unfold processFillTo
  cases isTaker <;> rfl

@[simp] theorem fillMaker_toBook (s : OrderBook) (e : QueueEntry)
    (orderId cur levelPrice remaining trade : ℕ) :
    (s.fillMaker e orderId cur levelPrice remaining trade).toBook =
      s.toBook.consume e.params.outcomeId cur trade := by
  unfold fillMaker
  simp only [setBook, emitMakerFill_toBook, processFillTo_toBook]

/-- The maker record of a stored order. -/
def makerOf (s : OrderBook) (q i : ℕ) : Maker := ⟨i, q, (s.order i).amount⟩

variable {s : OrderBook} {n : ℕ} {A : Book.Index}

section Loop

variable (e : QueueEntry) (orderId q : ℕ)

theorem matchLevel_stop (left cur remaining acc : ℕ) (h : cur = 0 ∨ remaining = 0) :
    matchLevel e orderId q left cur s remaining acc = ⟨s, remaining, left, acc, .none⟩ := by
  cases left <;> simp [matchLevel, h]

theorem matchLevel_cap (cur remaining acc : ℕ) (h : ¬ (cur = 0 ∨ remaining = 0)) :
    matchLevel e orderId q 0 cur s remaining acc =
      ⟨s, remaining, 0, acc, .hitCapWithMore⟩ := by
  simp [matchLevel, h]

theorem matchLevel_succ (left cur remaining acc : ℕ) (h : ¬ (cur = 0 ∨ remaining = 0)) :
    matchLevel e orderId q (left + 1) cur s remaining acc =
      let trade := tradeSize e.params remaining (s.order cur).amount q
      if (e.params.isBuy ∧ e.params.isMarket) ∧ trade = 0 then
        ⟨s, remaining, left + 1, acc, .marketBuyDust⟩
      else
        matchLevel e orderId q left (s.order cur).nextAtPrice
          (s.fillMaker e orderId cur q remaining trade)
          (remaining - takerSpent e.params trade q) (acc + trade) := by
  simp [matchLevel, h]

end Loop

theorem fill_atPrice (r : s.toBook.Rep n A) (k : LevelKey) (q : ℕ) {u v : List ℕ} {x : ℕ}
    (hl : A.atPrice k q = u ++ x :: v) (trade : ℕ) :
    ∃ u', (A.fill (s.order x) x trade).atPrice k q = u' ++ v := by
  have hx : x ∈ A.atPrice k q := by simp [hl]
  obtain ⟨hs, rfl, rfl⟩ := (r.mem_price _ _ _).mp hx
  unfold Book.Index.fill
  split_ifs
  · refine ⟨u, ?_⟩
    have hxu : x ∉ u := fun hm => by
      have hn := r.nodup_price (s.core x).key (s.core x).price
      rw [hl] at hn
      exact (List.nodup_append.mp hn).2.2 x hm x (by simp) rfl
    have e1 : (s.order x).key = (s.core x).key := rfl
    have e2 : (s.order x).price = (s.core x).price := rfl
    simp only [Book.Index.drop, e1, e2, and_self, if_true, hl]
    rw [List.erase_append_right _ hxu, List.erase_cons_head]
  · exact ⟨u ++ [x], by simpa using hl⟩

/-- The inner match loop runs the walk over the rest of its level. -/
theorem matchLevel_eq (e : QueueEntry) (orderId q : ℕ) (u v : List ℕ) (left remaining acc : ℕ)
    (r : s.toBook.Rep n A) (hl : A.atPrice e.params.oppKey q = u ++ v) :
    matchLevel e orderId q left (v.head?.getD 0) s remaining acc =
      let w := walk e.params left remaining (v.map (s.makerOf q))
      ⟨applyFills e orderId s w.fills, w.remaining, w.left,
        acc + (w.fills.map Fill.trade).sum, w.halt⟩ := by
  induction v generalizing s A u left remaining acc with
  | nil => simp [matchLevel_stop, applyFills]
  | cons x v ih =>
    have hx : x ∈ A.atPrice e.params.oppKey q := by simp [hl]
    obtain ⟨hs, hk, hp⟩ := (r.mem_price _ _ _).mp hx
    have hx0 : x ≠ 0 := (r.bound x hs).1.ne'
    by_cases h0 : remaining = 0
    · subst h0
      simp [matchLevel_stop, applyFills]
    · have hstop : ¬ (x = 0 ∨ remaining = 0) := by simp [hx0, h0]
      cases left with
      | zero => simp [matchLevel_cap _ _ _ _ _ _ hstop, walk_cap _ _ _ _ h0, applyFills]
      | succ left =>
        simp only [List.head?_cons, Option.getD_some, List.map_cons,
          matchLevel_succ _ _ _ _ _ _ _ hstop]
        rw [walk_succ e.params left remaining (s.makerOf q x) _ h0,
          show (s.makerOf q x).amount = (s.order x).amount from rfl,
          show (s.makerOf q x).price = q from rfl]
        have ho : (s.order x).outcomeId = e.params.outcomeId := congrArg LevelKey.outcomeId hk
        set trade := tradeSize e.params remaining (s.order x).amount q with ht
        have r' := r.consume hs ho (tradeSize_le e.params remaining (s.order x).amount q)
        obtain ⟨u', hu'⟩ := fill_atPrice r _ q hl trade
        rw [← ht, ← fillMaker_toBook s e orderId x q remaining trade] at r'
        have hnext := (r.linksP_of_split _ _ hl).1
        have hmk : v.map ((s.fillMaker e orderId x q remaining trade).makerOf q) =
            v.map (s.makerOf q) := by
          refine List.map_congr_left fun y hy => ?_
          have hyx : y ≠ x := by
            rintro rfl
            have hn := r.nodup_price e.params.oppKey q
            rw [hl] at hn
            exact (List.nodup_cons.mp (List.nodup_append.mp hn).2.1).1 hy
          have hc := congrArg Order.amount (Book.consume_core trade r hs ho y)
          rw [if_neg hyx] at hc
          simp only [makerOf, fillMaker_toBook]
          exact congrArg _ hc
        have ih' := ih u' left (remaining - takerSpent e.params trade q) (acc + trade) r' hu'
        by_cases hd : (e.params.isBuy ∧ e.params.isMarket) ∧ trade = 0
        · simp only [if_pos hd]
          simp [applyFills]
        · simp only [if_neg hd]
          rw [hnext, ih', hmk]
          simp [applyFills, makerOf, Nat.add_assoc]

end OrderBook

namespace Book

open OrderBook

/-- The fills name distinct stored makers of one outcome and trade at most what rests. -/
structure FillsOk (b : Book) (outcomeId : ℕ) (fills : List Fill) : Prop where
  nodup : (fills.map fun f => f.maker.id).Nodup
  stored : ∀ f ∈ fills, b.Stored f.maker.id ∧ (b.core f.maker.id).outcomeId = outcomeId ∧
    (b.core f.maker.id).amount = f.maker.amount
  trade_le : ∀ f ∈ fills, f.trade ≤ f.maker.amount

/-- The book after a list of fills. -/
def consumeAll (b : Book) (outcomeId : ℕ) (fills : List Fill) : Book :=
  fills.foldl (fun b f => b.consume outcomeId f.maker.id f.trade) b

/-- What a list of fills does to the stored orders. -/
structure Consumed (b c : Book) (fills : List Fill) : Prop where
  stored : ∀ i, c.Stored i ↔ b.Stored i ∧
    ∀ f ∈ fills, ¬ (f.maker.id = i ∧ f.trade = f.maker.amount)
  untouched : ∀ i, (∀ f ∈ fills, f.maker.id ≠ i) → c.core i = b.core i
  touched : ∀ f ∈ fills, c.core f.maker.id = filledCore (b.core f.maker.id) f.trade

theorem filledCore_core (b : Book) (i x : ℕ) :
    filledCore (b.core i) x = filledCore (b.order i) x := rfl

variable {b : Book} {n : ℕ} {A : Index} {outcomeId : ℕ}

theorem FillsOk.tail {f : Fill} {fills : List Fill} (r : Rep b n A)
    (h : FillsOk b outcomeId (f :: fills)) :
    FillsOk (b.consume outcomeId f.maker.id f.trade) outcomeId fills := by
  have hnd := List.nodup_cons.mp h.nodup
  obtain ⟨hs, ho, ha⟩ := h.stored f (by simp)
  refine ⟨hnd.2, fun g hg => ?_, fun g hg => h.trade_le g (by simp [hg])⟩
  have hne : g.maker.id ≠ f.maker.id := fun e =>
    hnd.1 (List.mem_map.mpr ⟨g, hg, e⟩)
  rw [consume_stored r hs ho, consume_core _ r hs ho, if_neg hne]
  have hg' := h.stored g (by simp [hg])
  exact ⟨⟨hg'.1, fun hh => hne hh.1⟩, hg'.2⟩

theorem consumeAll_spec (r : Rep b n A) {fills : List Fill} (h : FillsOk b outcomeId fills) :
    (∃ A', Rep (b.consumeAll outcomeId fills) n A') ∧
      Consumed b (b.consumeAll outcomeId fills) fills := by
  induction fills generalizing b A with
  | nil => exact ⟨⟨A, r⟩, ⟨fun i => by simp [consumeAll], fun i _ => rfl, fun f hf => by simp at hf⟩⟩
  | cons f fills ih =>
    obtain ⟨hs, ho, ha⟩ := h.stored f (by simp)
    have hle := h.trade_le f (by simp)
    have r' := r.consume hs ho (ha ▸ hle : f.trade ≤ (b.core f.maker.id).amount)
    obtain ⟨hA, hC⟩ := ih r' (h.tail r)
    have hnd := List.nodup_cons.mp h.nodup
    have hne (g) (hg : g ∈ fills) : g.maker.id ≠ f.maker.id := fun e =>
      hnd.1 (List.mem_map.mpr ⟨g, hg, e⟩)
    refine ⟨hA, ⟨fun i => ?_, fun i hi => ?_, fun g hg => ?_⟩⟩
    · have ha' : (b.order f.maker.id).amount = f.maker.amount := ha
      refine (hC.stored i).trans ?_
      rw [consume_stored r hs ho, ha', List.forall_mem_cons]
      grind
    · refine (hC.untouched i fun g hg => hi g (by simp [hg])).trans ?_
      rw [consume_core _ r hs ho, if_neg fun e => hi f (by simp) e.symm]
    · rcases List.mem_cons.mp hg with rfl | hg
      · refine (hC.untouched _ hne).trans ?_
        rw [consume_core _ r hs ho, if_pos rfl, filledCore_core]
      · refine (hC.touched g hg).trans ?_
        rw [consume_core _ r hs ho, if_neg (hne g hg)]

theorem Consumed.key_price {c : Book} {fills : List Fill} (h : Consumed b c fills)
    (hok : FillsOk b outcomeId fills) (i : ℕ) (hi : c.Stored i) :
    (c.core i).key = (b.core i).key ∧ (c.core i).price = (b.core i).price ∧
      (c.core i).depositHash = (b.core i).depositHash := by
  by_cases hf : ∃ f ∈ fills, f.maker.id = i
  · obtain ⟨f, hf, rfl⟩ := hf
    have hnot := ((h.stored _).mp hi).2 f hf
    have ha := (hok.stored f hf).2.2
    rw [h.touched f hf, filledCore, if_neg fun e => hnot ⟨rfl, e.symm.trans ha⟩]
    exact ⟨rfl, rfl, rfl⟩
  · rw [h.untouched i fun f hm e => hf ⟨f, hm, e⟩]
    exact ⟨rfl, rfl, rfl⟩

theorem Consumed.levelIds_eq {c : Book} {fills : List Fill} (h : Consumed b c fills)
    (hok : FillsOk b outcomeId fills) (k : LevelKey) (q : ℕ)
    (hk : ∀ f ∈ fills, ¬ ((b.core f.maker.id).key = k ∧ (b.core f.maker.id).price = q)) :
    c.levelIds n k q = b.levelIds n k q := by
  refine List.filter_congr fun i _ => ?_
  simp only [decide_eq_decide]
  constructor
  · intro hi
    obtain ⟨h1, h2, -⟩ := h.key_price hok i hi.1
    exact ⟨((h.stored i).mp hi.1).1, h1.symm.trans hi.2.1, h2.symm.trans hi.2.2⟩
  · intro hi
    have hn (f) (hf : f ∈ fills) : f.maker.id ≠ i := by
      rintro rfl
      exact hk f hf hi.2
    have hs : c.Stored i := (h.stored i).mpr ⟨hi.1, fun f hf e => hn f hf e.1⟩
    have hc := h.untouched i hn
    exact ⟨hs, (congrArg Order.key hc).trans hi.2.1, (congrArg Order.price hc).trans hi.2.2⟩

theorem Rep.mem_oppPrices_iff (r : Rep b n A) (outcomeId : ℕ) (newIsBuy : Bool) (epochId q : ℕ) :
    q ∈ b.oppPrices outcomeId newIsBuy epochId ↔
      b.levelIds n ⟨outcomeId, !newIsBuy, epochId⟩ q ≠ [] := by
  rw [mem_oppPrices, r.level_iff, r.atPrice_eq]

theorem oppPrices_eq_filter {c : Book} (outcomeId : ℕ) (newIsBuy : Bool) (epochId : ℕ)
    (h : ∀ q ∈ c.oppPrices outcomeId newIsBuy epochId, q ∈ b.oppPrices outcomeId newIsBuy epochId) :
    c.oppPrices outcomeId newIsBuy epochId = (b.oppPrices outcomeId newIsBuy epochId).filter
      fun q => decide (q ∈ c.oppPrices outcomeId newIsBuy epochId) := by
  have hanti (x y : ℕ) : worse newIsBuy x y = true → worse newIsBuy y x = true → x = y := by
    unfold worse
    split_ifs <;> simp <;> omega
  have hnd {l : List ℕ} (hl : l.Pairwise fun x y => worse newIsBuy x y = true) : l.Nodup := by
    refine hl.imp fun {x y} hxy => ?_
    rintro rfl
    unfold worse at hxy
    split_ifs at hxy <;> simp at hxy
  have h1 := c.oppPrices_sorted outcomeId newIsBuy epochId
  have h2 := (b.oppPrices_sorted outcomeId newIsBuy epochId).filter
    fun q => decide (q ∈ c.oppPrices outcomeId newIsBuy epochId)
  refine List.Perm.eq_of_pairwise (fun x y _ _ => hanti x y) h1 h2 ?_
  refine (List.perm_ext_iff_of_nodup (hnd h1) (hnd h2)).mpr fun q => ?_
  simp only [List.mem_filter, decide_eq_true_eq]
  exact ⟨fun hq => ⟨h q hq, hq⟩, fun hq => hq.2⟩

end Book

namespace OrderBook

variable {s : OrderBook} {n : ℕ} {A : Book.Index}

@[simp] theorem applyFills_toBook (e : QueueEntry) (orderId : ℕ) (fills : List Fill) :
    (applyFills e orderId s fills).toBook = s.toBook.consumeAll e.params.outcomeId fills := by
  induction fills generalizing s with
  | nil => rfl
  | cons f fills ih =>
    refine ih.trans ?_
    rw [fillMaker_toBook]
    rfl

/-- Makers of one price, in time order. -/
def makersAt (s : OrderBook) (n : ℕ) (p : PlaceParams) (q : ℕ) : List Maker :=
  (s.levelIds n p.oppKey q).map (s.makerOf q)

/-- Makers an order may match, in priority order. -/
def makers (s : OrderBook) (n : ℕ) (p : PlaceParams) (prices : List ℕ) : List Maker :=
  (prices.takeWhile (Book.pricesCross p.isBuy p.storedPrice p.isMarket)).flatMap (s.makersAt n p)

theorem makersAt_ids (p : PlaceParams) (q : ℕ) :
    (s.makersAt n p q).map Maker.id = s.levelIds n p.oppKey q := by
  simp [makersAt, makerOf, Function.comp_def]

theorem mem_makersAt (p : PlaceParams) (q : ℕ) (m : Maker) (hm : m ∈ s.makersAt n p q) :
    s.Stored m.id ∧ (s.core m.id).key = p.oppKey ∧ (s.core m.id).price = q ∧
      (s.core m.id).amount = m.amount ∧ m.price = q := by
  obtain ⟨i, hi, rfl⟩ := List.mem_map.mp hm
  have hi' := (List.mem_filter.mp hi).2
  simp only [decide_eq_true_eq] at hi'
  exact ⟨hi'.1, hi'.2.1, hi'.2.2, rfl, rfl⟩

theorem walk_fillsOk (p : PlaceParams) (q left remaining : ℕ) :
    s.toBook.FillsOk p.outcomeId (walk p left remaining (s.makersAt n p q)).fills := by
  have hpre := walk_makers_initial p left remaining (s.makersAt n p q)
  have hmem (f) (hf : f ∈ (walk p left remaining (s.makersAt n p q)).fills) :
      f.maker ∈ s.makersAt n p q := hpre.subset (List.mem_map_of_mem hf)
  refine ⟨?_, fun f hf => ?_, fun f hf => ?_⟩
  · have h1 : ((walk p left remaining (s.makersAt n p q)).fills.map fun f => f.maker.id) =
        ((walk p left remaining (s.makersAt n p q)).fills.map Fill.maker).map Maker.id := by simp
    rw [h1]
    refine (hpre.map Maker.id).sublist.nodup ?_
    rw [makersAt_ids]
    exact List.nodup_range.filter _
  · obtain ⟨h1, h2, h3, h4, -⟩ := mem_makersAt p q _ (hmem f hf)
    exact ⟨h1, congrArg LevelKey.outcomeId h2, h4⟩
  · rw [walk_trade p left remaining _ f hf]
    exact tradeSize_le _ _ _ _

/-- After the fills of one level the worse levels stand as they were and come next. -/
theorem after_level (r : s.toBook.Rep n A) (e : QueueEntry) (orderId q left remaining : ℕ)
    {done rest : List ℕ}
    (hp : s.oppPrices e.params.outcomeId e.params.isBuy e.params.epochId = done ++ q :: rest) :
    let t := applyFills e orderId s (walk e.params left remaining (s.makersAt n e.params q)).fills
    (∃ A', t.toBook.Rep n A') ∧
      (∀ x ∈ rest, t.makersAt n e.params x = s.makersAt n e.params x) ∧
      ∃ done', t.oppPrices e.params.outcomeId e.params.isBuy e.params.epochId = done' ++ rest ∧
        ∀ x ∈ done', Book.worse e.params.isBuy q x = false := by
  intro t
  have hok := s.walk_fillsOk (n := n) e.params q left remaining
  obtain ⟨⟨A', r'⟩, hC⟩ := Book.consumeAll_spec r hok
  have htb : t.toBook = s.toBook.consumeAll e.params.outcomeId
    (walk e.params left remaining (s.makersAt n e.params q)).fills := applyFills_toBook _ _ _
  rw [← htb] at hC r'
  have hfq (f) (hf : f ∈ (walk e.params left remaining (s.makersAt n e.params q)).fills) :=
    mem_makersAt e.params q f.maker
      ((walk_makers_initial e.params left remaining _).subset (List.mem_map_of_mem hf))
  have hids (x) (hx : x ≠ q) : t.levelIds n e.params.oppKey x = s.levelIds n e.params.oppKey x :=
    hC.levelIds_eq hok _ _ fun f hf h => hx (h.2.symm.trans (hfq f hf).2.2.1)
  have hsorted := s.oppPrices_sorted e.params.outcomeId e.params.isBuy e.params.epochId
  rw [hp] at hsorted
  have hw (x) (hx : x ∈ rest) : Book.worse e.params.isBuy q x = true :=
    (List.pairwise_cons.mp (List.pairwise_append.mp hsorted).2.1).1 x hx
  have hirr : Book.worse e.params.isBuy q q = false := by unfold Book.worse; split_ifs <;> simp
  have hne (x) (hx : x ∈ rest) : x ≠ q := by
    rintro rfl
    rw [hw x hx] at hirr
    exact absurd hirr (by simp)
  refine ⟨⟨A', r'⟩, fun x hx => ?_, ?_⟩
  · unfold makersAt
    rw [hids x (hne x hx)]
    refine List.map_congr_left fun i hi => ?_
    have hi' := (List.mem_filter.mp hi).2
    simp only [decide_eq_true_eq] at hi'
    have hc := hC.untouched i fun f hf hfi => hne x hx
      (hi'.2.2.symm.trans ((congrArg (fun j => (s.core j).price) hfi.symm).trans (hfq f hf).2.2.1))
    change Maker.mk i x (t.core i).amount = Maker.mk i x (s.core i).amount
    rw [hc]
  · have hmem (x) (hx : x ≠ q) :
        x ∈ t.oppPrices e.params.outcomeId e.params.isBuy e.params.epochId ↔
          x ∈ s.oppPrices e.params.outcomeId e.params.isBuy e.params.epochId := by
      rw [r'.mem_oppPrices_iff, r.mem_oppPrices_iff]
      exact not_congr (by rw [show (⟨_, _, _⟩ : LevelKey) = e.params.oppKey from rfl, hids x hx])
    have hfil := Book.oppPrices_eq_filter (b := s.toBook) (c := t.toBook) e.params.outcomeId
      e.params.isBuy e.params.epochId fun x hx => by
        by_cases hxq : x = q
        · subst hxq; simp [hp]
        · exact (hmem x hxq).mp hx
    rw [hp, show done ++ q :: rest = (done ++ [q]) ++ rest by simp, List.filter_append] at hfil
    have hrest : rest.filter (fun x => decide
        (x ∈ t.oppPrices e.params.outcomeId e.params.isBuy e.params.epochId)) = rest := by
      refine List.filter_eq_self.mpr fun x hx => ?_
      rw [decide_eq_true_eq, hmem x (hne x hx), hp]
      simp [hx]
    rw [hrest] at hfil
    refine ⟨_, hfil, fun x hx => ?_⟩
    rcases List.mem_append.mp (List.mem_filter.mp hx).1 with hx | hx
    · have := (List.pairwise_append.mp hsorted).2.2 x hx q (by simp)
      unfold Book.worse at this ⊢
      split_ifs at this ⊢ <;> simp at this ⊢ <;> omega
    · rw [List.mem_singleton.mp hx]
      exact hirr

theorem matchLevels_none (e : QueueEntry) (orderId fuel : ℕ) (m : MatchState) :
    matchLevels e orderId fuel none m = m := by
  cases fuel <;> rfl

/-- The outer match loop runs the walk over the crossing levels that are left. -/
theorem matchLevels_eq (e : QueueEntry) (orderId fuel left remaining acc : ℕ)
    {done rest : List ℕ} (r : s.toBook.Rep n A)
    (hp : s.oppPrices e.params.outcomeId e.params.isBuy e.params.epochId = done ++ rest)
    (hfuel : rest.length ≤ fuel) :
    matchLevels e orderId fuel (rest.head?.map fun q => (q, s.level e.params.oppKey q))
      ⟨s, remaining, left, acc, .none⟩ =
      let w := walk e.params left remaining (s.makers n e.params rest)
      ⟨applyFills e orderId s w.fills, w.remaining, w.left,
        acc + (w.fills.map Fill.trade).sum, w.halt⟩ := by
  induction rest generalizing s A done left remaining acc fuel with
  | nil => simp [matchLevels_none, makers, applyFills]
  | cons q rest ih =>
    obtain ⟨fuel, rfl⟩ : ∃ k, fuel = k + 1 := ⟨fuel - 1, by simp at hfuel; omega⟩
    simp only [List.head?_cons, Option.map_some, matchLevels]
    by_cases h0 : remaining = 0
    · subst h0
      simp [applyFills]
    by_cases hc : Book.pricesCross e.params.isBuy e.params.storedPrice e.params.isMarket q
    · have hms : s.makers n e.params (q :: rest) =
          s.makersAt n e.params q ++ s.makers n e.params rest := by
        simp [makers, hc]
      have hlevel := matchLevel_eq (s := s) e orderId q [] (s.levelIds n e.params.oppKey q) left
        remaining acc r (by rw [r.atPrice_eq]; rfl)
      rw [← r.atPrice_eq, ← r.priceHead, r.atPrice_eq] at hlevel
      rw [if_neg (by simp [h0, hc]), hlevel, hms, walk_append]
      obtain ⟨⟨A', r'⟩, hmk, done', hp', hd'⟩ := after_level r e orderId q left remaining hp
      rw [show (s.levelIds n e.params.oppKey q).map (s.makerOf q) = s.makersAt n e.params q from
        rfl]
      set w := walk e.params left remaining (s.makersAt n e.params q) with hw
      set t := applyFills e orderId s w.fills with ht
      by_cases hh : w.halt = .none
      · have hsorted := s.oppPrices_sorted e.params.outcomeId e.params.isBuy e.params.epochId
        rw [hp] at hsorted
        have hnext := t.nextOpposite_eq _ _ _ hp' hd'
          (List.pairwise_cons.mp (List.pairwise_append.mp hsorted).2.1).1
        have hmk' : t.makers n e.params rest = s.makers n e.params rest := by
          refine List.flatMap_congr fun x hx => hmk x ?_
          exact (List.takeWhile_prefix _).subset hx
        have := ih fuel w.left w.remaining (acc + (w.fills.map Fill.trade).sum) r' hp'
          (by simpa using hfuel)
        simp only [hh, if_true]
        rw [hnext, show (⟨_, _, _⟩ : LevelKey) = e.params.oppKey from rfl, this, hmk']
        simp [applyFills, ht, Nat.add_assoc, List.foldl_append]
      · simp only [hh, if_false]
    · have hms : s.makers n e.params (q :: rest) = [] := by simp [makers, hc]
      rw [if_pos (by simp [hc]), hms]
      simp [applyFills]

/-- Crossing makers of an order, in priority order. -/
def crossingMakers (s : OrderBook) (p : PlaceParams) : List Maker :=
  s.makers s.nextOrderId p (s.oppPrices p.outcomeId p.isBuy p.epochId)

/-- The walk of one pass over the book. -/
def passWalk (s : OrderBook) (p : PlaceParams) : Walk :=
  walk p MAX_MATCHES_PER_CALL p.amount (s.crossingMakers p)

theorem matchOrder_eq (e : QueueEntry) (orderId : ℕ) (r : s.toBook.Rep s.nextOrderId A) :
    s.matchOrder e orderId =
      let w := s.passWalk e.params
      ⟨applyFills e orderId s w.fills, w.remaining, w.left,
        e.filledAccum + (w.fills.map Fill.trade).sum, w.halt⟩ := by
  unfold matchOrder
  dsimp only
  rw [Book.bestOpposite_eq]
  refine matchLevels_eq e orderId _ _ _ _ r (List.nil_append _).symm ?_
  unfold Book.oppPrices
  split_ifs <;> simp [Dict.keys]

end OrderBook

end Dexdo
