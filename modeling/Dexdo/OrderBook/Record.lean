import Dexdo.OrderBook.Reports
import Dexdo.OrderBook.Entrants
import Dexdo.OrderBook.Limit

namespace Dexdo.OrderBook

variable {s t u : OrderBook} {e : QueueEntry} {rest : List QueueEntry} {H as : List Action}
  {C : List ℕ} {A : Book.Index}

/-- A resting order agrees with what was reported about it; `C` are the orders a pass has
capped. -/
structure OrderRecord (H : List Action) (C : List ℕ) (i : ℕ) (o : Order) : Prop where
  listed : announced i H = [⟨o.outcomeId, o.isBuy, o.flags, o.price, o.amount + o.filledAccum⟩]
  filled : filledOf i H = o.filledAccum
  initial_le : o.initialAmount ≤ o.amount + o.filledAccum
  initial : o.initialAmount = o.amount + o.filledAccum ↔ i ∉ C

/-- A queue entry whose order has id `id` agrees with what was reported about it. -/
structure EntryRecord (H : List Action) (C : List ℕ) (id : ℕ) (e : QueueEntry) : Prop where
  listed : ∃ a, announced id H = [{ e.params.announcement with amount := a }] ∧
    (TradesBase e.params → a = e.params.amount + e.filledAccum)
  filled : filledOf id H = e.filledAccum
  capped : TradesBase e.params → (id ∈ C ↔ 0 < e.filledAccum)

/-- Book and queue agree with the reports `H` of the run. -/
structure Recorded (H : List Action) (C : List ℕ) (s : OrderBook) : Prop where
  fresh : ∀ i, s.nextOrderId ≤ i → announced i H = [] ∧ filledOf i H = 0 ∧ i ∉ C
  resting : ∀ i, s.Stored i → OrderRecord H C i (s.core i)
  waiting : ∀ e ∈ s.toQueue.list, e.entryType = .place → e.targetOrderId = 0 → e.filledAccum = 0
  begun : ∀ e ∈ s.toQueue.list, e.entryType = .place → e.targetOrderId ≠ 0 →
    EntryRecord H C e.targetOrderId e

/-- Id of the order at the head when its pass would meet the match cap. -/
def exceeding (u : OrderBook) : List ℕ :=
  match u.matchingEntry with
  | some e => if u.Exceeds e then [(u.openOrder e).2] else []
  | none => []

/-- Orders a run has met the match cap with, oldest first. -/
def cappedIds (s : OrderBook) (tr : List (Call × OrderBook)) : List ℕ :=
  Run.ghost (fun s c _ ids => ids ++ (s.atHead c).toList.flatMap exceeding) s tr []

theorem Recorded.init (market : MarketId) (resultStart numOutcomes : ℕ) :
    Recorded [] [] (OrderBook.init market resultStart numOutcomes) := by
  refine ⟨fun i _ => ⟨rfl, rfl, by simp⟩, fun i hi => ?_, ?_, ?_⟩
  · simp [Book.Stored, OrderBook.init, Book.empty] at hi
  · simp [OrderBook.init]
  · simp [OrderBook.init]

theorem Recorded.enter (h : Recorded H C s) (hu : Enters s u) {es : List QueueEntry}
    (hl : u.toQueue.list = s.toQueue.list ++ es)
    (hes : ∀ e ∈ es, e.entryType = .place → e.targetOrderId = 0 ∧ e.filledAccum = 0) :
    Recorded H C u := by
  refine ⟨?_, ?_, ?_, ?_⟩
  · rw [hu.nextId]
    exact h.fresh
  · rw [hu.book]
    exact h.resting
  · intro e he hp h0
    rw [hl] at he
    rcases List.mem_append.mp he with he | he
    · exact h.waiting e he hp h0
    · exact (hes e he hp).2
  · intro e he hp h0
    rw [hl] at he
    rcases List.mem_append.mp he with he | he
    · exact h.begun e he hp h0
    · exact absurd (hes e he hp).1 h0

theorem openOrder_id (hu : u.Ok) (hl : u.toQueue.list = e :: rest) (hp : e.entryType = .place) :
    (∀ i, u.Stored i → i < (u.openOrder e).2) ∧
      (u.openOrder e).2 < (u.openOrder e).1.nextOrderId := by
  have hspec := (openOrder_spec (K := 0) e hu.book hu.pos (hu.amount e (by rw [hl]; simp) hp)
    (hu.head e (by rw [hl]; rfl) hp)).2.2.1
  refine ⟨fun i hi => hspec.2.2 i ?_, hspec.2.1⟩
  rw [openOrder_toBook]
  exact hi

theorem Recorded.opened (h : Recorded H C u) (hl : u.toQueue.list = e :: rest)
    (hp : e.entryType = .place) (hA : ∀ i, announced i as = announced i (u.openedActions e))
    (hF : filledOf (u.openOrder e).2 as = 0) : EntryRecord (H ++ as) C (u.openOrder e).2 e := by
  have hmem : e ∈ u.toQueue.list := by rw [hl]; simp
  by_cases h0 : e.targetOrderId = 0
  · have hid : (u.openOrder e).2 = u.nextOrderId := by rw [openOrder, if_pos h0]
    have hacc := h.waiting e hmem hp h0
    obtain ⟨f1, f2, f3⟩ := h.fresh u.nextOrderId le_rfl
    rw [hid] at hF ⊢
    refine ⟨⟨e.params.amount, ?_, fun _ => by omega⟩, ?_, fun _ => ?_⟩
    · rw [announced_append, f1, hA, announced_openedActions, if_pos ⟨h0, rfl⟩]
      rfl
    · rw [filledOf_append, f2, hF, hacc]
    · exact ⟨fun hc => absurd hc f3, fun hpos => absurd hacc hpos.ne'⟩
  · have hid : (u.openOrder e).2 = e.targetOrderId := by rw [openOrder, if_neg h0]
    obtain ⟨⟨a, h1, h2⟩, h3, h4⟩ := h.begun e hmem hp h0
    rw [hid] at hF ⊢
    refine ⟨⟨a, ?_, h2⟩, ?_, h4⟩
    · rw [announced_append, h1, hA, announced_openedActions, if_neg fun hc => h0 hc.1]
      rfl
    · rw [filledOf_append, h3, hF, Nat.add_zero]

theorem announced_openedActions_of_ne {i : ℕ} (hne : i ≠ (u.openOrder e).2) :
    announced i (u.openedActions e) = [] := by
  rw [announced_openedActions, if_neg]
  rintro ⟨h0, rfl⟩
  exact hne (by rw [openOrder, if_pos h0])

theorem Recorded.fresh_after (h : Recorded H C u) (hu : u.Ok) (hl : u.toQueue.list = e :: rest)
    (hp : e.entryType = .place) {C' : List ℕ} (hC : ∀ i ∈ C', i = (u.openOrder e).2)
    (hA : ∀ i, announced i as = announced i (u.openedActions e))
    (hF : ∀ i, i ≠ (u.openOrder e).2 → ¬ u.Stored i → filledOf i as = 0) (i : ℕ)
    (hi : (u.openOrder e).1.nextOrderId ≤ i) :
    announced i (H ++ as) = [] ∧ filledOf i (H ++ as) = 0 ∧ i ∉ C ++ C' := by
  obtain ⟨A, r⟩ := hu.book.rep
  have hle := (openOrder_le (u := u) e).trans hi
  have hne : i ≠ (u.openOrder e).2 := ((openOrder_id hu hl hp).2.trans_le hi).ne'
  have hns : ¬ u.Stored i := fun hs => absurd (r.bound i hs).2.1 (by omega)
  obtain ⟨f1, f2, f3⟩ := h.fresh i hle
  refine ⟨?_, ?_, ?_⟩
  · rw [announced_append, f1, hA, announced_openedActions_of_ne hne]
    rfl
  · rw [filledOf_append, f2, hF i hne hns]
  · intro hc
    rcases List.mem_append.mp hc with hc | hc
    · exact f3 hc
    · exact hne (hC i hc)

theorem OrderRecord.extend {i : ℕ} {o : Order} {C' : List ℕ} (h : OrderRecord H C i o)
    (hA : announced i as = []) (hF : filledOf i as = 0) (hC : i ∉ C') :
    OrderRecord (H ++ as) (C ++ C') i o := by
  refine ⟨?_, ?_, h.initial_le, ?_⟩
  · rw [announced_append, h.listed, hA, List.append_nil]
  · rw [filledOf_append, h.filled, hF, Nat.add_zero]
  · rw [h.initial, List.mem_append, or_iff_left hC]

theorem OrderRecord.fill {i trade : ℕ} {o : Order} {C' : List ℕ} (h : OrderRecord H C i o)
    (hA : announced i as = []) (hF : filledOf i as = trade) (hC : i ∉ C')
    (hle : trade ≤ o.amount) (hne : o.amount ≠ trade) :
    OrderRecord (H ++ as) (C ++ C') i (Book.filledCore o trade) := by
  have hsum : o.amount - trade + (o.filledAccum + trade) = o.amount + o.filledAccum := by omega
  rw [Book.filledCore, if_neg hne]
  refine ⟨?_, ?_, ?_, ?_⟩
  · rw [announced_append, h.listed, hA, List.append_nil]
    change _ = [Announcement.mk _ _ _ _ (o.amount - trade + (o.filledAccum + trade))]
    rw [hsum]
    rfl
  · rw [filledOf_append, h.filled, hF]
  · change o.initialAmount ≤ o.amount - trade + (o.filledAccum + trade)
    rw [hsum]
    exact h.initial_le
  · change o.initialAmount = o.amount - trade + (o.filledAccum + trade) ↔ _
    rw [hsum, h.initial, List.mem_append, or_iff_left hC]

theorem Recorded.consumed (h : Recorded H C u) (hu : u.Ok) (hl : u.toQueue.list = e :: rest)
    (hp : e.entryType = .place) {C' : List ℕ} (hC : ∀ i ∈ C', i = (u.openOrder e).2)
    (hA : ∀ i, announced i as = announced i (u.matchActions e))
    (hF : ∀ i, filledOf i as = filledOf i (u.matchActions e)) (i : ℕ)
    (hi : (u.toBook.consumeAll e.params.outcomeId (u.passWalk e.params).fills).Stored i) :
    OrderRecord (H ++ as) (C ++ C') i
      ((u.toBook.consumeAll e.params.outcomeId (u.passWalk e.params).fills).core i) := by
  obtain ⟨hok, -, hcons⟩ := passWalk_consumed hu.book e.params
  obtain ⟨hs, hnot⟩ := (hcons.stored i).mp hi
  have hne : i ≠ (u.openOrder e).2 := ((openOrder_id hu hl hp).1 i hs).ne
  have hA' : announced i as = [] := by
    rw [hA, (matchActions_reports i).1, announced_openedActions_of_ne hne]
  have hF' : filledOf i as = makerFilled i (u.passWalk e.params).fills := by
    rw [hF, (matchActions_reports i).2, if_neg hne.symm, Nat.add_zero]
  have hC' : i ∉ C' := fun hc => hne (hC i hc)
  by_cases hf : ∃ f ∈ (u.passWalk e.params).fills, f.maker.id = i
  · obtain ⟨f, hf, rfl⟩ := hf
    have hamt : (u.core f.maker.id).amount = f.maker.amount := (hok.stored f hf).2.2
    rw [hcons.touched f hf]
    apply (h.resting _ hs).fill hA' (hF'.trans (makerFilled_of_mem hok.nodup hf)) hC'
    · rw [hamt]
      exact hok.trade_le f hf
    · rw [hamt]
      exact fun he => hnot f hf ⟨rfl, he.symm⟩
  · have hnone : ∀ f ∈ (u.passWalk e.params).fills, f.maker.id ≠ i := fun f hm he => hf ⟨f, hm, he⟩
    rw [hcons.untouched i hnone]
    exact (h.resting i hs).extend hA' (hF'.trans (makerFilled_eq_zero hnone)) hC'

theorem Recorded.behind (h : Recorded H C u) (hu : u.Ok) (hl : u.toQueue.list = e :: rest)
    {x : QueueEntry} (hx : x ∈ rest) (hp : x.entryType = .place) :
    x.targetOrderId = 0 ∧ x.filledAccum = 0 := by
  have h0 := hu.waiting x (by rw [hl]; exact hx) hp
  exact ⟨h0, h.waiting x (by rw [hl]; exact List.mem_cons_of_mem _ hx) hp h0⟩

theorem Recorded.unmatched (h : Recorded H C u) (hl : u.toQueue.list = e :: rest)
    {stay : List QueueEntry} (hl' : t.toQueue.list = stay ++ rest) (hb : u.Thins t.toBook)
    (hn : t.nextOrderId = u.nextOrderId)
    (hA : ∀ i, announced i as = []) (hF : ∀ i, filledOf i as = 0) (hst : ∀ x ∈ stay, x = e) :
    Recorded (H ++ as) C t := by
  have hA' (i : ℕ) : announced i (H ++ as) = announced i H := by
    rw [announced_append, hA, List.append_nil]
  have hF' (i : ℕ) : filledOf i (H ++ as) = filledOf i H := by
    rw [filledOf_append, hF, Nat.add_zero]
  have hmem : ∀ x ∈ t.toQueue.list, x ∈ u.toQueue.list := by
    intro x hx
    rw [hl'] at hx
    rw [hl]
    rcases List.mem_append.mp hx with hx | hx
    · rw [hst x hx]
      exact List.mem_cons_self
    · exact List.mem_cons_of_mem _ hx
  refine ⟨fun i hi => ?_, fun i hi => ?_, fun x hx => ?_, fun x hx hp h0 => ?_⟩
  · rw [hA', hF']
    exact h.fresh i (hn ▸ hi)
  · obtain ⟨h1, h2⟩ := hb i hi
    obtain ⟨g1, g2, g3, g4⟩ := h.resting i h1
    rw [h2]
    exact ⟨(hA' i).trans g1, (hF' i).trans g2, g3, g4⟩
  · exact h.waiting x (hmem x hx)
  · obtain ⟨g1, g2, g3⟩ := h.begun x (hmem x hx) hp h0
    exact ⟨by rw [hA']; exact g1, (hF' _).trans g2, g3⟩

/-- A turn that opens the order at the head and leaves the book alone. -/
theorem Recorded.opens (h : Recorded H C u) (hu : u.Ok) (hl : u.toQueue.list = e :: rest)
    (hp : e.entryType = .place) {stay : List QueueEntry} (hl' : t.toQueue.list = stay ++ rest)
    (hb : t.toBook = u.toBook) (hn : t.nextOrderId = (u.openOrder e).1.nextOrderId)
    (hA : ∀ i, announced i as = announced i (u.openedActions e)) (hF : ∀ i, filledOf i as = 0)
    (hst : ∀ x ∈ stay, x.params = e.params ∧ x.targetOrderId = (u.openOrder e).2 ∧
      x.filledAccum = e.filledAccum) : Recorded (H ++ as) C t := by
  obtain ⟨hid, hlt⟩ := openOrder_id hu hl hp
  have hopen := h.opened hl hp hA (hF _)
  have hC : ∀ i ∈ ([] : List ℕ), i = (u.openOrder e).2 := by simp
  refine ⟨fun i hi => ?_, fun i hi => ?_, fun x hx hp h0 => ?_, fun x hx hp h0 => ?_⟩
  · have := h.fresh_after hu hl hp hC hA (fun i _ _ => hF i) i (hn ▸ hi)
    rwa [List.append_nil] at this
  · rw [hb] at hi ⊢
    have : OrderRecord (H ++ as) (C ++ []) i (u.core i) := (h.resting i hi).extend
      (by rw [hA, announced_openedActions_of_ne (hid i hi).ne]) (hF i) (by simp)
    rwa [List.append_nil] at this
  · rw [hl'] at hx
    rcases List.mem_append.mp hx with hx | hx
    · rw [(hst x hx).2.2]
      apply h.waiting e (by rw [hl]; simp) (by assumption)
      by_contra hne
      have : (u.openOrder e).2 = e.targetOrderId := by rw [openOrder, if_neg hne]
      exact hne (this ▸ (hst x hx).2.1 ▸ h0)
    · exact (h.behind hu hl hx hp).2
  · rw [hl'] at hx
    rcases List.mem_append.mp hx with hx | hx
    · obtain ⟨k1, k2, k3⟩ := hst x hx
      obtain ⟨g1, g2, g3⟩ := hopen
      rw [k2]
      exact ⟨by rw [k1, k3]; exact g1, g2.trans k3.symm, by rw [k1, k3]; exact g3⟩
    · exact absurd (h.behind hu hl hx hp).1 h0

theorem exceeding_eq (hm : u.matchingEntry = some e) :
    u.exceeding = if u.Exceeds e then [(u.openOrder e).2] else [] := by rw [exceeding, hm]

theorem mem_exceeding (hm : u.matchingEntry = some e) : ∀ i ∈ u.exceeding, i = (u.openOrder e).2 := by
  intro i hi
  rw [exceeding_eq hm] at hi
  split_ifs at hi
  · exact List.mem_singleton.mp hi
  · cases hi

theorem filledOf_taker (hu : u.Ok) (hl : u.toQueue.list = e :: rest) (hp : e.entryType = .place) :
    filledOf (u.openOrder e).2 (u.matchActions e) =
      ((u.passWalk e.params).fills.map Fill.trade).sum := by
  have hok := (passWalk_consumed hu.book e.params).1
  rw [(matchActions_reports _).2, if_pos rfl, makerFilled_eq_zero, Nat.zero_add]
  intro f hf
  exact ((openOrder_id hu hl hp).1 _ (hok.stored f hf).1).ne

theorem Recorded.fresh_matched (h : Recorded H C u) (hu : u.Ok) (hl : u.toQueue.list = e :: rest)
    (hm : u.matchingEntry = some e) (hA : ∀ i, announced i as = announced i (u.matchActions e))
    (hF : ∀ i, filledOf i as = filledOf i (u.matchActions e)) (i : ℕ)
    (hi : (u.openOrder e).1.nextOrderId ≤ i) :
    announced i (H ++ as) = [] ∧ filledOf i (H ++ as) = 0 ∧ i ∉ C ++ u.exceeding := by
  apply h.fresh_after hu hl (matchingEntry_iff.mp hm).1.2.2.2.1 (mem_exceeding hm)
    (fun i => (hA i).trans (matchActions_reports i).1) _ i hi
  intro i hne hns
  have hok := (passWalk_consumed hu.book e.params).1
  rw [hF, (matchActions_reports i).2, if_neg hne.symm, makerFilled_eq_zero]
  intro f hf he
  exact hns (he ▸ (hok.stored f hf).1)

/-- The record of the order at the head after its matching pass. -/
structure TakerRecord (H : List Action) (C : List ℕ) (u : OrderBook) (e : QueueEntry) : Prop where
  listed : ∃ a, announced (u.openOrder e).2 H = [{ e.params.announcement with amount := a }] ∧
    (TradesBase e.params → a = e.params.amount + e.filledAccum)
  filled : filledOf (u.openOrder e).2 H =
    e.filledAccum + ((u.passWalk e.params).fills.map Fill.trade).sum
  capped : TradesBase e.params → ((u.openOrder e).2 ∈ C ↔ 0 < e.filledAccum ∨ u.Exceeds e)

theorem Recorded.taker (h : Recorded H C u) (hu : u.Ok) (hl : u.toQueue.list = e :: rest)
    (hm : u.matchingEntry = some e) (hA : ∀ i, announced i as = announced i (u.matchActions e))
    (hF : ∀ i, filledOf i as = filledOf i (u.matchActions e)) :
    TakerRecord (H ++ as) (C ++ u.exceeding) u e := by
  have hp : e.entryType = .place := (matchingEntry_iff.mp hm).1.2.2.2.1
  have hopen : EntryRecord (H ++ u.openedActions e) C (u.openOrder e).2 e := by
    apply h.opened hl hp fun _ => rfl
    rw [filledOf, legs_openedActions]
    rfl
  obtain ⟨⟨a, h1, h2⟩, h3, h4⟩ := hopen
  refine ⟨⟨a, ?_, h2⟩, ?_, fun hb => ?_⟩
  · rw [announced_append, hA, (matchActions_reports _).1, ← announced_append]
    exact h1
  · have hz : filledOf (u.openOrder e).2 (u.openedActions e) = 0 := by
      rw [filledOf, legs_openedActions]
      rfl
    rw [filledOf_append, hz, Nat.add_zero] at h3
    rw [filledOf_append, hF, filledOf_taker hu hl hp, h3]
  · rw [List.mem_append, h4 hb, exceeding_eq hm]
    split_ifs with hx <;> simp [hx]

/-- A capped pass leaves the rewritten head entry with the record of its order. -/
theorem Recorded.capped (h : Recorded H C u) (hu : u.Ok) (hl : u.toQueue.list = e :: rest)
    (hm : u.matchingEntry = some e) (hc : (u.passWalk e.params).halt = .hitCapWithMore)
    (hl' : t.toQueue.list = resumed e (u.openOrder e).2 (u.passMatch e) :: rest)
    (hb : t.toBook = u.toBook.consumeAll e.params.outcomeId (u.passWalk e.params).fills)
    (hn : t.nextOrderId = (u.openOrder e).1.nextOrderId)
    (hA : ∀ i, announced i as = announced i (u.matchActions e))
    (hF : ∀ i, filledOf i as = filledOf i (u.matchActions e)) :
    Recorded (H ++ as) (C ++ u.exceeding) t := by
  have hp : e.entryType = .place := (matchingEntry_iff.mp hm).1.2.2.2.1
  obtain ⟨⟨a, h1, h2⟩, h3, h4⟩ := h.taker hu hl hm hA hF
  refine ⟨fun i hi => h.fresh_matched hu hl hm hA hF i (hn ▸ hi), fun i hi => ?_,
    fun x hx hp h0 => ?_, fun x hx hp h0 => ?_⟩
  · rw [hb] at hi ⊢
    exact h.consumed hu hl (matchingEntry_iff.mp hm).1.2.2.2.1 (mem_exceeding hm) hA hF i hi
  · rw [hl'] at hx
    rcases List.mem_cons.mp hx with rfl | hx
    · have hid := (openOrder_spec (K := 0) e hu.book hu.pos
        (hu.amount e (by rw [hl]; simp) (matchingEntry_iff.mp hm).1.2.2.2.1)
        (hu.head e (by rw [hl]; rfl) (matchingEntry_iff.mp hm).1.2.2.2.1)).2.2.1.1
      exact absurd h0 hid.ne'
    · exact (h.behind hu hl hx hp).2
  · rw [hl'] at hx
    rcases List.mem_cons.mp hx with rfl | hx
    · refine ⟨⟨a, h1, fun hb => ?_⟩, h3, fun hb => ?_⟩
      · have hsum := passWalk_sum (u := u) (p := e.params) hb
        have ha := h2 hb
        change a = (u.passWalk e.params).remaining +
          (e.filledAccum + ((u.passWalk e.params).fills.map Fill.trade).sum)
        omega
      · have hpos := capped_trades hu.book hc
        have hex : u.Exceeds e := (exceeds_iff (u := u) (e := e) hb).mp hc
        change (u.openOrder e).2 ∈ _ ↔
          0 < e.filledAccum + ((u.passWalk e.params).fills.map Fill.trade).sum
        rw [h4 hb]
        exact ⟨fun _ => by omega, fun _ => .inr hex⟩
    · exact absurd (h.behind hu hl hx hp).1 h0

/-- An uncapped pass puts what may rest of its order into the book with a true record. -/
theorem Recorded.settled (h : Recorded H C u) (hu : u.Ok) (hl : u.toQueue.list = e :: rest)
    (hm : u.matchingEntry = some e) (hc : (u.passWalk e.params).halt ≠ .hitCapWithMore)
    (hl' : t.toQueue.list = rest) (hb : t.toBook = u.settledBook e)
    (hn : t.nextOrderId = (u.openOrder e).1.nextOrderId)
    (hA : ∀ i, announced i as = announced i (u.matchActions e))
    (hF : ∀ i, filledOf i as = filledOf i (u.matchActions e)) :
    Recorded (H ++ as) (C ++ u.exceeding) t := by
  have hp : e.entryType = .place := (matchingEntry_iff.mp hm).1.2.2.2.1
  obtain ⟨⟨a, h1, h2⟩, h3, h4⟩ := h.taker hu hl hm hA hF
  obtain ⟨hok, ⟨A', r'⟩, -⟩ := passWalk_consumed hu.book e.params
  have hrest := h.consumed hu hl hp (mem_exceeding hm) hA hF
  refine ⟨fun i hi => ?_, fun i hi => ?_, fun x hx hp h0 => ?_, fun x hx hp h0 => ?_⟩
  · exact h.fresh_matched hu hl hm hA hF i (hn ▸ hi)
  · rw [hb] at hi ⊢
    unfold settledBook at hi ⊢
    dsimp only at hi ⊢
    by_cases hins : 0 < (u.passWalk e.params).remaining ∧
        ¬ (e.params.isIoc ∨ e.params.isFok ∨ e.params.isMarket)
    · rw [if_pos hins] at hi ⊢
      rw [Book.insertIntoBook_core]
      rw [Book.insertIntoBook_stored _ _ _ _ _ _ _ _ r'] at hi
      split_ifs with hid
      · -- the order that comes to rest
        have hlim : ¬ e.params.isMarket := fun hmk => hins.2 (.inr (.inr hmk))
        have hbase : TradesBase e.params := fun hbm => hlim hbm.2
        have hsum := passWalk_sum (u := u) hbase
        have ha := h2 hbase
        have hnx : ¬ u.Exceeds e := fun hx => hc ((exceeds_iff hbase).mpr hx)
        have hcap := h4 hbase
        have hle : (u.passWalk e.params).remaining + (e.filledAccum +
            ((u.passWalk e.params).fills.map Fill.trade).sum) =
            e.params.amount + e.filledAccum := by omega
        rw [hid]
        refine ⟨?_, h3, ?_, ?_⟩
        · rw [h1, ha]
          change [Announcement.mk _ _ _ e.params.price _] = [Announcement.mk _ _ _ e.params.storedPrice
            ((u.passWalk e.params).remaining + (e.filledAccum +
              ((u.passWalk e.params).fills.map Fill.trade).sum))]
          rw [storedPrice_limit hlim, hle]
          rfl
        · change e.params.amount ≤ (u.passWalk e.params).remaining + (e.filledAccum +
            ((u.passWalk e.params).fills.map Fill.trade).sum)
          rw [hle]
          exact Nat.le_add_right _ _
        · change e.params.amount = (u.passWalk e.params).remaining + (e.filledAccum +
            ((u.passWalk e.params).fills.map Fill.trade).sum) ↔ _
          rw [hle, hcap]
          simp only [hnx, or_false]
          constructor
          · exact fun h => by omega
          · exact fun h => by omega
      · exact hrest i (hi.resolve_left hid)
    · rw [if_neg hins] at hi ⊢
      exact hrest i hi
  · rw [hl'] at hx
    exact (h.behind hu hl hx hp).2
  · rw [hl'] at hx
    exact absurd (h.behind hu hl hx hp).1 h0

theorem no_match (hu : u.Ok) (hl : u.toQueue.list = e :: rest) (h : u.matchingEntry ≠ some e) :
    u.matchingEntry = none := by
  cases hm : u.matchingEntry with
  | none => rfl
  | some =>
    have hx := (matching_list hu hm).1
    rw [hl] at hx
    exact absurd ((List.cons.inj hx).1 ▸ hm) h

theorem exceeding_eq_nil (hu : u.Ok) (hl : u.toQueue.list = e :: rest)
    (h : u.matchingEntry ≠ some e) : u.exceeding = [] := by
  rw [exceeding, no_match hu hl h]

/-- Every turn keeps the record. -/
theorem Recorded.turn (h : Recorded H C u) (hu : u.Ok) {bs : List Action} (ht : Turn u t bs)
    (hA : ∀ i, announced i as = announced i bs) (hF : ∀ i, filledOf i as = filledOf i bs) :
    Recorded (H ++ as) (C ++ u.exceeding) t := by
  have hquiet : ∀ i e, filledOf i (u.openedActions e) = 0 := by
    intro i e
    rw [filledOf, legs_openedActions]
    rfl
  cases ht with
  | idle hq hl hb hn =>
    have hno : u.exceeding = [] := by
      have hm : u.matchingEntry = none := by
        rcases hq with hq | hq <;> simp [matchingEntry, hq]
      rw [exceeding, hm]
    rw [hno, List.append_nil]
    refine ⟨?_, ?_, ?_, ?_⟩
    · intro i hi
      rw [announced_append, filledOf_append, hA, hF, hn] at *
      simpa [announced, filledOf, legs] using h.fresh i hi
    · intro i hi
      rw [hb] at hi ⊢
      have : OrderRecord (H ++ as) (C ++ []) i (u.core i) :=
        (h.resting i hi).extend (hA i) (hF i) (by simp)
      rwa [List.append_nil] at this
    · rw [hl]
      exact h.waiting
    · intro x hx hp h0
      rw [hl] at hx
      obtain ⟨g1, g2, g3⟩ := h.begun x hx hp h0
      have hA0 : announced x.targetOrderId as = [] := hA _
      have hF0 : filledOf x.targetOrderId as = 0 := hF _
      refine ⟨?_, ?_, g3⟩
      · rw [announced_append, hA0, List.append_nil]
        exact g1
      · rw [filledOf_append, hF0, g2, Nat.add_zero]
  | thinned e rest stay hl he hl' hs hb hn =>
    rw [exceeding_eq_nil hu hl fun hm => he (matchingEntry_iff.mp hm).1.2.2.2.1, List.append_nil]
    exact h.unmatched hl hl' hb hn hA hF hs
  | refused e rest hl hd hl' hb hn =>
    rw [exceeding_eq_nil hu hl fun hm => (matchingEntry_iff.mp hm).1.2.2.1 ⟨hd.1, by simp [hd.2]⟩,
      List.append_nil]
    exact h.unmatched hl (show t.toQueue.list = [] ++ rest from hl') (.of_eq hb) hn hA hF (by simp)
  | stopped e rest hl he hc hl' hb hn =>
    rw [exceeding_eq_nil hu hl, List.append_nil]
    · exact h.opens hu hl he (show t.toQueue.list = [] ++ rest from hl') hb hn hA
        (fun i => (hF i).trans (hquiet i e)) (by simp)
    · intro hm
      obtain ⟨-, -, -, -, hpo, hpre⟩ := (matchingEntry_iff.mp hm).1
      rcases hc with hc | hc
      · exact hpo hc
      · rw [hc] at hpre
        cases hpre
  | deferred e rest accum lastPrice hl he hc hl' hb hn =>
    rw [exceeding_eq_nil hu hl, List.append_nil]
    · refine h.opens hu hl he (show t.toQueue.list = [_] ++ rest from hl') hb hn hA
        (fun i => (hF i).trans (hquiet i e)) ?_
      intro x hx
      rw [List.mem_singleton.mp hx]
      exact ⟨rfl, rfl, rfl⟩
    · intro hm
      have hpre := (matchingEntry_iff.mp hm).1.2.2.2.2.2
      rw [hc] at hpre
      cases hpre
  | capped e rest hl hm hc hl' hb hn => exact h.capped hu hl hm hc hl' hb hn hA hF
  | settled e rest hl hm hc hl' hb hn => exact h.settled hu hl hm hc hl' hb hn hA hF

theorem Recorded.aside (h : Recorded H C s) (ha : Aside s t) : Recorded (H ++ t.actions) C t := by
  have hA (i : ℕ) : announced i (H ++ t.actions) = announced i H := by
    rw [announced_append, announced_actions, ha.history]
    exact List.append_nil _
  have hF (i : ℕ) : filledOf i (H ++ t.actions) = filledOf i H := by
    rw [filledOf_append, filledOf_actions, ha.history]
    exact Nat.add_zero _
  have hl : t.toQueue.list = s.toQueue.list := congrArg Queue.list ha.queue
  refine ⟨fun i hi => ?_, fun i hi => ?_, ?_, fun x hx hp h0 => ?_⟩
  · rw [hA, hF]
    exact h.fresh i (ha.nextId ▸ hi)
  · obtain ⟨h1, h2⟩ := ha.book i hi
    obtain ⟨g1, g2, g3, g4⟩ := h.resting i h1
    rw [h2]
    exact ⟨(hA i).trans g1, (hF i).trans g2, g3, g4⟩
  · rw [hl]
    exact h.waiting
  · obtain ⟨g1, g2, g3⟩ := h.begun x (hl ▸ hx) hp h0
    exact ⟨by rw [hA]; exact g1, (hF _).trans g2, g3⟩

theorem entrant_fresh {c : Call} {es : List QueueEntry}
    (hes : ∀ e ∈ es, e.entryType = .place → s.Queues c e) :
    ∀ e ∈ es, e.entryType = .place → e.targetOrderId = 0 ∧ e.filledAccum = 0 := by
  intro e he hp
  obtain ⟨i, p, -, -, heq⟩ := hes e he hp
  rw [heq]
  exact ⟨rfl, rfl⟩

theorem run_recorded {market : MarketId} {resultStart numOutcomes : ℕ}
    {tr : List (Call × OrderBook)}
    (h : Run step (OrderBook.init market resultStart numOutcomes) tr s) :
    Recorded (traceActions tr) (cappedIds (OrderBook.init market resultStart numOutcomes) tr) s := by
  refine h.invariant (fun tr s => Recorded (traceActions tr)
    (cappedIds (OrderBook.init market resultStart numOutcomes) tr) s) (.init ..) ?_
  intro tr s c t hr ih hst
  have hcap : cappedIds (OrderBook.init market resultStart numOutcomes) (tr ++ [(c, t)]) =
      cappedIds (OrderBook.init market resultStart numOutcomes) tr ++
        (s.atHead c).toList.flatMap exceeding := by
    unfold cappedIds
    rw [Run.ghost_concat, hr.last_eq]
  rw [traceActions_snoc, hcap]
  obtain ⟨u, as, hu, hent, hturn, hh⟩ | ⟨hu, ha⟩ := step_turn (run_ok hr) hst
  · obtain ⟨es, hl, hes⟩ := atHead_entrants (run_ok hr) hst hu
    have henter := ih.enter hent hl (entrant_fresh hes)
    rw [hu]
    simp only [Option.toList_some, List.flatMap_cons, List.flatMap_nil, List.append_nil]
    refine henter.turn hent.ok hturn (fun i => ?_) fun i => ?_
    · rw [announced_actions, hh]
    · rw [filledOf_actions, hh]
  · rw [hu]
    simpa using ih.aside ha

/-- A resting order's own account of its past agrees with the events of the run. -/
structure OrderLaw (H : List Action) (i : ℕ) (o : Order) : Prop where
  conserved : o.amount + o.filledAccum = o.initialAmount
  placed : ∃ a, announced i H = [a] ∧ o.initialAmount = a.amount
  filled : o.filledAccum = filledOf i H

/-- Order history: the record of a resting order agrees with its announcement and its fills
exactly when none of its passes met the match cap. -/
theorem order_history {market : MarketId} {resultStart numOutcomes : ℕ}
    {tr : List (Call × OrderBook)}
    (h : Run step (OrderBook.init market resultStart numOutcomes) tr s) (i : ℕ) (hs : s.Stored i) :
    OrderLaw (traceActions tr) i (s.order i) ↔
      i ∉ cappedIds (OrderBook.init market resultStart numOutcomes) tr := by
  obtain ⟨h1, h2, -, h4⟩ := (run_recorded h).resting i hs
  have hinit : (s.core i).initialAmount = (s.order i).initialAmount := rfl
  rw [← h4]
  constructor
  · intro hlaw
    exact hlaw.conserved.symm
  · intro heq
    exact ⟨heq.symm, ⟨_, h1, heq⟩, h2.symm⟩

/-- Thirty-two asks of one lot, and a buy for more than all of them at their price. -/
def lotAsk : PlaceParams := ⟨0, false, 0, 5000, 2000000, 0, 0, 0⟩

def sweepBuy : PlaceParams := ⟨0, true, 0, 5000, 80000000, 0, 0, 0⟩

def sweepCalls : List Call :=
  List.replicate 4 (.executeBatch (.note 7) 1 7 (List.replicate 8 lotAsk) [] 1) ++
    List.replicate 32 .processHead ++
    [.executeBatch (.note 8) 1 8 [sweepBuy] [] 1, .processHead]

theorem sweep_rests : (let s := Run.last sampleBook (Run.trace step sampleBook sweepCalls);
    (decide (s.Stored 33), (s.order 33).amount, (s.order 33).filledAccum,
      (s.order 33).initialAmount)) = (true, 16000000, 64000000, 20000000) := by decide +kernel

/-- The rest of the buy keeps as its original size what its last pass began with. -/
theorem sweep_breaks_history :
    Run step sampleBook (Run.trace step sampleBook sweepCalls)
      (Run.last sampleBook (Run.trace step sampleBook sweepCalls)) ∧
    (Run.last sampleBook (Run.trace step sampleBook sweepCalls)).Stored 33 ∧
    ¬ OrderLaw (traceActions (Run.trace step sampleBook sweepCalls)) 33
      ((Run.last sampleBook (Run.trace step sampleBook sweepCalls)).order 33) := by
  have h := sweep_rests
  simp only [Prod.mk.injEq, decide_eq_true_eq] at h
  obtain ⟨h1, h2, h3, h4⟩ := h
  refine ⟨Run.trace_run .., h1, fun hlaw => ?_⟩
  have := hlaw.conserved
  rw [h2, h3, h4] at this
  exact absurd this (by decide)

theorem sample_order_history :
    let tr := Run.trace step sampleBook [sampleCall]
    (Run.last sampleBook tr).Stored 1 ∧
      OrderLaw (traceActions tr) 1 ((Run.last sampleBook tr).order 1) := by
  have hs : (Run.last sampleBook (Run.trace step sampleBook [sampleCall])).Stored 1 := by
    decide +kernel
  refine ⟨hs, (order_history (Run.trace_run step sampleBook [sampleCall]) 1 hs).mpr ?_⟩
  decide +kernel

end Dexdo.OrderBook
