import Dexdo.InferenceBook.Sound

namespace Dexdo.InferenceOrderBook

section Reduce

variable (s : InferenceOrderBook) (cur : ℕ) (mk : Order) (trade cost : ℕ)

/-- The record of a maker once a fill is booked. -/
def Order.booked (mk o : Order) (takerIsBuy : Bool) (trade cost : ℕ) : Order :=
  { o with
    escrow := if takerIsBuy then o.escrow else mk.escrow - cost
    filledAccum := o.filledAccum + trade }

/-- A maker leaves the book when it is an ask, or a bid that is used up. -/
def consumes (takerIsBuy : Bool) (mk : Order) (trade : ℕ) : Prop :=
  takerIsBuy = true ∨ mk.amount = trade

theorem reduceMaker_toBook (takerIsBuy : Bool) (h : (s.order cur).amount ≠ 0)
    (hc : consumes takerIsBuy mk trade) : (s.reduceMaker takerIsBuy cur mk trade cost).toBook =
      (s.toBook.modifyOrder cur fun o => Order.booked mk o takerIsBuy trade cost).removeOrder
        cur := by
  unfold reduceMaker Order.booked
  dsimp only
  cases takerIsBuy with
  | true =>
    simp only [if_true]
    rw [removeFromBook_toBook]
    · rfl
    · simpa using h
  | false =>
    have he := hc.resolve_left (by simp)
    simp only [Bool.false_eq_true, if_false, if_pos he]
    rw [refundAndRemove_toBook]
    · simp [Book.modifyOrder_modifyOrder]
    · simpa using h

theorem reduceMaker_toBook_bid (hne : mk.amount ≠ trade) :
    (s.reduceMaker false cur mk trade cost).toBook = s.toBook.modifyOrder cur fun o =>
      { Order.booked mk o false trade cost with amount := mk.amount - trade } := by
  simp [reduceMaker, Order.booked, hne, Book.modifyOrder_modifyOrder]

end Reduce

section Rounds

variable {now takerId lp cur n : ℕ} {e : QueueEntry} {m m' : MatchState} {s : InferenceOrderBook}

/-- What one round of the inner loop does, at resting order `cur`. -/
structure Visited (e : QueueEntry) (n cur : ℕ) (m m' : MatchState) : Prop where
  sound : m'.book.toBook.Sound n
  backed : Backed e m'.remaining m'.leftover
  clean : Clean m'.book
  kept : Kept m.book m'.book
  thins : m.book.toBook.Thins m'.book.toBook
  others : ∀ i, i ≠ cur → m.book.Stored i →
    m'.book.Stored i ∧ m'.book.core i = m.book.core i

/-- State of a match at order `cur` of level `lp`, begun in book `s`. -/
structure Underway (s : InferenceOrderBook) (e : QueueEntry) (n lp cur : ℕ) (m : MatchState) :
    Prop where
  sound : m.book.toBook.Sound n
  backed : Backed e m.remaining m.leftover
  clean : Clean m.book
  kept : Kept s m.book
  thins : s.toBook.Thins m.book.toBook
  reached : reaches e lp
  position : cur = 0 ∨ (m.book.Stored cur ∧ m.book.key cur = (!e.isBuy, lp))

namespace Underway

variable (h : Underway s e n lp cur m) (hc : cur ≠ 0)

include h hc

theorem stored : m.book.Stored cur := (h.position.resolve_left hc).1

theorem isBuy : (m.book.order cur).isBuy = !e.isBuy :=
  congrArg Prod.fst (h.position.resolve_left hc).2

theorem price : (m.book.order cur).price = lp := congrArg Prod.snd (h.position.resolve_left hc).2

theorem amount_ne : (m.book.order cur).amount ≠ 0 := (h.sound.amount_pos (h.stored hc)).ne'

theorem covered : (m.book.order cur).Covered := h.sound.order_covered (h.stored hc)

theorem next : (m.book.order cur).nextAtPrice = 0 ∨
    (m.book.Stored (m.book.order cur).nextAtPrice ∧
      m.book.key (m.book.order cur).nextAtPrice = (!e.isBuy, lp) ∧
      cur < (m.book.order cur).nextAtPrice) := by
  obtain ⟨A, r⟩ := h.sound.rep
  have hmem := (r.mem_price (!e.isBuy, lp) cur).mpr (h.position.resolve_left hc)
  refine or_iff_not_imp_left.mpr fun h0 => ?_
  have hn := (r.mem_price _ _).mp (r.priceLinks.next_mem hmem h0)
  exact ⟨hn.1, hn.2, r.priceLinks.lt_next (r.sorted _) hmem h0⟩

theorem dropped {t : InferenceOrderBook} (q : Kept m.book t) (hclean : Clean t)
    (hb : t.toBook = m.book.toBook.removeOrder cur) (matched : ℕ) :
    Visited e n cur m { m with book := t, matched := matched } := by
  obtain ⟨hs, hd⟩ := h.sound.remove (h.stored hc)
  rw [← hb] at hs hd
  refine ⟨hs, h.backed, hclean, q, hd.thins, fun i hi hst => ⟨?_, hd.core i hi⟩⟩
  exact (hd.stored i).mpr ⟨hi, hst⟩

theorem visited_expired : Visited e n cur m (dropExpired e cur m) := by
  cases he : e.isBuy with
  | true =>
    have q := m.book.quiet_removeExpiredSell cur
    have := h.dropped hc q.toKept (h.clean.quiet q) (removeExpiredSell_toBook (h.amount_ne hc))
      (m.matched + 1)
    simpa [dropExpired, he] using this
  | false =>
    have q := m.book.quiet_removeExpiredBid cur
    have := h.dropped hc q.toKept (h.clean.quiet q) (removeExpiredBid_toBook (h.amount_ne hc))
      (m.matched + 1)
    simpa [dropExpired, he] using this

theorem visited_dust
    (hv : verdict now e (m.book.order cur) lp m.remaining m.leftover = .dust)
    (h0 : m.remaining ≠ 0) : Visited e n cur m (dropDust cur m) := by
  obtain ⟨he, ht⟩ := verdict_dust hv
  have hk := h.covered hc
  have hside : (m.book.order cur).isBuy = true := by rw [h.isBuy hc, he]; rfl
  have hp : e.price ≤ (m.book.order cur).price := by
    have hr := h.reached
    unfold reaches crosses at hr
    rw [h.price hc]
    simpa [he, h.backed.limit (.inr he)] using hr
  -- the sell taker still wants two ticks, so it is the bid that is too small
  have hsmall : (m.book.order cur).amount < 2 := by
    rw [tradeSize_bid hk hside he h.backed.priced hp] at ht
    have := (h.backed.ask he).resolve_left h0
    omega
  have q := quiet_refundAndRemove { m.book with dust := m.book.dust ++ [m.book.order cur] } cur
    REMOVED_DUST
  have hclean : Clean { m.book with dust := m.book.dust ++ [m.book.order cur] } := by
    refine ⟨h.clean.fills, fun o ho => ?_⟩
    rcases List.mem_append.mp ho with ho | ho
    · exact h.clean.dust o ho
    · rw [List.mem_singleton.mp ho]
      exact ⟨hside, hsmall⟩
  have hb := refundAndRemove_toBook (s := { m.book with dust := m.book.dust ++ [m.book.order cur] })
    REMOVED_DUST (h.amount_ne hc)
  exact h.dropped hc ⟨q.queue, q.nextOrderId, q.modelHash, q.clock, q.prices⟩ (hclean.quiet q) hb _

theorem meets {trade : ℕ} (h0 : m.remaining ≠ 0)
    (hv : verdict now e (m.book.order cur) lp m.remaining m.leftover = .fill trade) :
    Meets now e (m.book.order cur) lp m.remaining m.leftover trade :=
  ⟨h.covered hc, h.isBuy hc, h.price hc, h.reached, h.backed, h0, hv⟩

end Underway

end Rounds

section Fills
variable {now takerId lp cur n : ℕ} {e : QueueEntry} {m m' : MatchState} {s : InferenceOrderBook}
  {trade : ℕ}

/-- What a fill debits, once its casts are undone. -/
def debitOf (e : QueueEntry) (mk : Order) (lp trade : ℕ) : ℕ :=
  trade * unit (clearingOf e lp) + bondAt (buyFlagsOf e mk) (clearingOf e lp)

/-- The record of a fill. -/
def fillOf (e : QueueEntry) (lp cur trade : ℕ) (m : MatchState) : Fill where
  makerId := cur
  maker := m.book.order cur
  takerIsBuy := e.isBuy
  remaining := m.remaining
  budget := budgetOf e (m.book.order cur) m.leftover
  trade := trade
  clearing := clearingOf e lp
  debit := debitOf e (m.book.order cur) lp trade
  dealFlags := buyFlagsOf e (m.book.order cur) &&& DEAL_FLAGS_MASK

/-- The settlement of a fill, from the two sides of the trade. -/
def settlement (e : QueueEntry) (takerId lp cur trade : ℕ) (s : InferenceOrderBook) :
    InferenceOrderBook × ℕ :=
  let mk := s.order cur
  let dealFlags := buyFlagsOf e mk &&& DEAL_FLAGS_MASK
  if e.isBuy then
    s.settleFill cur takerId e.owner mk.note e.buyerPubkey mk.tokenContract trade
      (clearingOf e lp) e.isBuy dealFlags e.clientOrderId
  else
    s.settleFill cur takerId mk.note e.owner mk.buyerPubkey e.tokenContract trade
      (clearingOf e lp) e.isBuy dealFlags e.clientOrderId

theorem settlement_frame (e : QueueEntry) (takerId lp cur trade : ℕ) (s : InferenceOrderBook) :
    (settlement e takerId lp cur trade s).1.toBook = s.toBook ∧
      Kept s (settlement e takerId lp cur trade s).1 ∧
      (settlement e takerId lp cur trade s).1.fills = s.fills ∧
      (settlement e takerId lp cur trade s).1.dust = s.dust := by
  unfold settlement
  dsimp only
  split_ifs <;> exact ⟨rfl, kept_settleFill .., rfl, rfl⟩

theorem settlement_debit
    (h : Meets now e (m.book.order cur) lp m.remaining m.leftover trade) :
    (settlement e takerId lp cur trade m.book).2 = debitOf e (m.book.order cur) lp trade := by
  rw [debitOf, ← h.debit_eq]
  unfold settlement
  by_cases he : e.isBuy = true
  · rw [if_pos he]
    rfl
  · rw [if_neg he]
    rfl

variable (takerId) in
theorem fillMaker_spec
    (h : Meets now e (m.book.order cur) lp m.remaining m.leftover trade) :
    ∃ t : InferenceOrderBook, t.toBook = m.book.toBook ∧ Kept m.book t ∧
      t.dust = m.book.dust ∧ t.fills = m.book.fills ++ [fillOf e lp cur trade m] ∧
      fillMaker e takerId lp cur trade m = { m with
        book := t.reduceMaker e.isBuy cur (m.book.order cur) trade
          (debitOf e (m.book.order cur) lp trade)
        leftover := if e.isBuy then m.leftover - debitOf e (m.book.order cur) lp trade
          else m.leftover
        remaining := if e.isBuy then m.remaining - trade else 0
        matched := m.matched + 1 } := by
  obtain ⟨hb, hk, hf, hd⟩ := settlement_frame e takerId lp cur trade m.book
  refine ⟨{ (settlement e takerId lp cur trade m.book).1 with
    fills := (settlement e takerId lp cur trade m.book).1.fills ++ [fillOf e lp cur trade m] },
    hb, ⟨hk.queue, hk.nextOrderId, hk.modelHash, hk.clock, hk.prices⟩, hd, ?_, ?_⟩
  · rw [← hf]
  · rw [← settlement_debit h]
    unfold fillOf
    rw [← settlement_debit h]
    rfl

theorem Order.booked_alike (mk o : Order) (b : Bool) (trade cost : ℕ) :
    o.Alike (Order.booked mk o b trade cost) := ⟨rfl, rfl, rfl, rfl⟩

namespace Underway

variable (h : Underway s e n lp cur m) (hc : cur ≠ 0)

include h hc

theorem used_up (hu : consumes e.isBuy (m.book.order cur) trade) (cost : ℕ) :
    ∃ c : Book, c.Sound n ∧ m.book.toBook.Drops cur c ∧
      ∀ t : InferenceOrderBook, t.toBook = m.book.toBook →
        (t.reduceMaker e.isBuy cur (m.book.order cur) trade cost).toBook = c := by
  have hs := h.stored hc
  obtain ⟨h1, h2⟩ := h.sound.consume (f := fun o => Order.booked (m.book.order cur) o e.isBuy
    trade cost) hs (Order.booked_alike _ _ _ _ _) (h.sound.amount_pos hs)
  refine ⟨_, h1, h2, fun t ht => ?_⟩
  rw [reduceMaker_toBook t cur _ trade cost e.isBuy (by rw [ht]; exact h.amount_ne hc) hu, ht]

/-- A bid that a fill does not use up stays, smaller. -/
theorem shrinks (he : e.isBuy = false)
    (hm : Meets now e (m.book.order cur) lp m.remaining m.leftover trade)
    (hne : (m.book.order cur).amount ≠ trade) :
    ∃ c : Book, c.Sound n ∧ m.book.toBook.Thins c ∧
      (∀ i, i ≠ cur → m.book.Stored i → c.Stored i ∧ c.core i = m.book.core i) ∧
      ∀ t : InferenceOrderBook, t.toBook = m.book.toBook →
        (t.reduceMaker false cur (m.book.order cur) trade
          (debitOf e (m.book.order cur) lp trade)).toBook = c := by
  have hs := h.stored hc
  have hle := hm.size.2.2.1
  let f : Order → Order := fun o =>
    { Order.booked (m.book.order cur) o false trade (debitOf e (m.book.order cur) lp trade) with
      amount := (m.book.order cur).amount - trade }
  have hst := Book.modifyOrder_stored_of (f := f) hs
  have hsound : (m.book.toBook.modifyOrder cur f).Sound n := by
    refine h.sound.modify hs ⟨rfl, rfl, rfl, rfl⟩ ?_ ?_
    · change 0 < (m.book.order cur).amount - trade
      omega
    · exact hm.maker_after he hne ((m.book.order cur).filledAccum + trade)
  refine ⟨_, hsound, fun i hi => ⟨(hst i).mp hi, ?_⟩, fun i hi hsi => ⟨(hst i).mpr hsi, ?_⟩,
    fun t ht => ?_⟩
  · rw [Book.modifyOrder_core]
    split_ifs with hic
    · rw [hic]
      refine ⟨rfl, Nat.sub_le _ _, fun ha => ?_, fun ha => ?_⟩
      · exact absurd (hm.whole.2 ha).symm hne
      · have hb : (m.book.core cur).isBuy = true := by
          rw [show (m.book.core cur).isBuy = (m.book.order cur).isBuy from rfl, h.isBuy hc, he]
          rfl
        rw [hb] at ha
        cases ha
    · exact .refl _
  · rw [Book.modifyOrder_core, if_neg hi]
  · rw [reduceMaker_toBook_bid t cur _ trade _ hne, ht]

theorem visited_fill (h0 : m.remaining ≠ 0)
    (hv : verdict now e (m.book.order cur) lp m.remaining m.leftover = .fill trade) :
    Visited e n cur m (fillMaker e takerId lp cur trade m) := by
  have hm := h.meets hc h0 hv
  obtain ⟨t, hb, hk, hd, hf, heq⟩ := fillMaker_spec takerId hm
  rw [heq]
  have hq := quiet_reduceMaker t cur trade e.isBuy (m.book.order cur)
    (debitOf e (m.book.order cur) lp trade)
  have hclean : Clean t := by
    refine ⟨fun f hf' => ?_, hd ▸ h.clean.dust⟩
    rw [hf] at hf'
    rcases List.mem_append.mp hf' with hf' | hf'
    · exact h.clean.fills f hf'
    · rw [List.mem_singleton.mp hf']
      exact hm.exact cur
  by_cases hu : consumes e.isBuy (m.book.order cur) trade
  · obtain ⟨c, hc1, hc2, hc3⟩ := h.used_up hc hu (debitOf e (m.book.order cur) lp trade)
    have hbook := hc3 t hb
    refine ⟨by rw [hbook]; exact hc1, hm.taker_after, hclean.quiet hq, hk.trans hq.toKept, ?_, ?_⟩
    · rw [hbook]
      exact hc2.thins
    · intro i hi hs
      rw [hbook]
      exact ⟨(hc2.stored i).mpr ⟨hi, hs⟩, hc2.core i hi⟩
  · unfold consumes at hu
    push Not at hu
    have he : e.isBuy = false := by simpa using hu.1
    obtain ⟨c, hc1, hc2, hc3, hc4⟩ := h.shrinks hc he hm hu.2
    have hbook := hc4 t hb
    rw [← he] at hbook
    refine ⟨by rw [hbook]; exact hc1, hm.taker_after, hclean.quiet hq, hk.trans hq.toKept, ?_, ?_⟩
    · rw [hbook]
      exact hc2
    · intro i hi hs
      rw [hbook]
      exact hc3 i hi hs

theorem visited (h0 : m.remaining ≠ 0) (hv : Visit now e takerId lp cur m m') :
    Visited e n cur m m' := by
  cases hv with
  | skip =>
    exact ⟨h.sound, h.backed, h.clean, .refl _, .refl _, fun i _ hs => ⟨hs, rfl⟩⟩
  | expired => exact h.visited_expired hc
  | dust hv => exact h.visited_dust hc hv h0
  | fill trade hv => exact h.visited_fill hc h0 hv

omit hc in
theorem levelsBehind_le {x : ℕ} (hs : m'.book.toBook.Sound n)
    (ht : m.book.toBook.Thins m'.book.toBook) : levelsBehind e x m' ≤ levelsBehind e x m := by
  obtain ⟨A, r⟩ := h.sound.rep
  obtain ⟨A', r'⟩ := hs.rep
  exact Dict.behind_mono (ht.keys r r' (!e.isBuy))

theorem visit (h0 : m.remaining ≠ 0) (hv : Visit now e takerId lp cur m m') :
    Underway s e n lp (m.book.order cur).nextAtPrice m' ∧
      levelsBehind e lp m' ≤ levelsBehind e lp m := by
  have hd := h.visited hc h0 hv
  refine ⟨⟨hd.sound, hd.backed, hd.clean, h.kept.trans hd.kept, h.thins.trans hd.thins,
    h.reached, ?_⟩, h.levelsBehind_le hd.sound hd.thins⟩
  rcases h.next hc with hn | ⟨hn, hk, hlt⟩
  · exact .inl hn
  · obtain ⟨h1, h2⟩ := hd.others _ hlt.ne' hn
    refine .inr ⟨h1, ?_⟩
    rw [← hk]
    unfold Book.key
    rw [h2]

end Underway

theorem Underway.enter {x : ℕ} (h : Underway s e n lp cur m) (hx : reaches e x) :
    Underway s e n x (m.book.level (!e.isBuy) x).firstOrderId m := by
  refine ⟨h.sound, h.backed, h.clean, h.kept, h.thins, hx, ?_⟩
  obtain ⟨A, r⟩ := h.sound.rep
  refine or_iff_not_imp_left.mpr fun h0 => ?_
  exact (r.mem_price (!e.isBuy, x) _).mp (r.priceLinks.first_mem (k := (!e.isBuy, x)) h0)

theorem Underway.ext {scans : ℕ} {halt : Halt} (h : Underway s e n lp cur m) :
    Underway s e n lp cur { m with scans := scans, halt := halt } :=
  ⟨h.sound, h.backed, h.clean, h.kept, h.thins, h.reached, h.position⟩

end Fills

section Match

variable {now takerId n : ℕ} {e : QueueEntry} {s : InferenceOrderBook} {amount escrow resume : ℕ}

/-- Where a match starts: at the order it is resumed at, or at the best level. -/
structure Starts (s : InferenceOrderBook) (e : QueueEntry) (start lp : ℕ) : Prop where
  level : ∃ l, s.startLevel e start = some (lp, l)
  position : start = 0 ∨ s.Stored start ∧ s.key start = (!e.isBuy, lp)
  best : start = 0 → ∀ x ∈ (s.levels (!e.isBuy)).keys, ¬ ahead e.isBuy x lp

theorem resumePoint_position :
    s.resumePoint e resume = 0 ∨ s.Stored (s.resumePoint e resume) ∧
      s.key (s.resumePoint e resume) = (!e.isBuy, (s.order (s.resumePoint e resume)).price) := by
  unfold resumePoint
  split_ifs with h
  · obtain ⟨_, ha, hb⟩ := h
    refine .inr ⟨?_, Prod.ext ?_ rfl⟩
    · by_contra hst
      rw [Book.order_of_not_stored hst] at ha
      exact ha rfl
    · change (s.order resume).isBuy = !e.isBuy
      revert hb
      cases (s.order resume).isBuy <;> cases e.isBuy <;> simp
  · exact .inl rfl

theorem startLevel_starts (hs : s.toBook.Sound n) {lp : ℕ} {l : PriceLevel}
    (h : s.startLevel e (s.resumePoint e resume) = some (lp, l)) :
    Starts s e (s.resumePoint e resume) lp := by
  refine ⟨⟨l, h⟩, ?_, fun h0 => ?_⟩
  · refine resumePoint_position.imp_right fun hp => ?_
    by_cases h0 : s.resumePoint e resume = 0
    · obtain ⟨A, r⟩ := hs.rep
      exact absurd (r.bound _ hp.1).1 (by omega)
    · unfold startLevel at h
      rw [if_pos h0] at h
      rw [← (Prod.mk.inj (Option.some.inj h)).1]
      exact hp
  · unfold startLevel at h
    rw [h0, if_neg (by simp), bestOpposite_eq] at h
    exact (Dict.best?_some h).2

/-- A match before its first round. -/
def begun (s : InferenceOrderBook) (amount escrow : ℕ) : MatchState :=
  ⟨s, amount, escrow, 0, MAX_SCAN_PER_CALL, .none⟩

/-- Order the walk of a match visits first, when it starts on level `lp`. -/
def firstVisit (s : InferenceOrderBook) (e : QueueEntry) (start lp : ℕ) : ℕ :=
  if start ≠ 0 then start else (s.level (!e.isBuy) lp).firstOrderId

variable (now takerId resume) in
theorem matchOrder_rule {I : ℕ → ℕ → MatchState → Prop} (hs : s.toBook.Sound n)
    (hext : ∀ lp cur m scans halt, I lp cur m → I lp cur { m with scans := scans, halt := halt })
    (hvisit : ∀ lp cur m m', cur ≠ 0 → m.remaining ≠ 0 → I lp cur m →
      Visit now e takerId lp cur m m' → I lp (m.book.order cur).nextAtPrice m' ∧
        levelsBehind e lp m' ≤ levelsBehind e lp m)
    (hnext : ∀ lp m x l, I lp 0 m → m.remaining ≠ 0 →
      m.book.nextOpposite e.isBuy lp = some (x, l) → reaches e x →
      I x (m.book.level (!e.isBuy) x).firstOrderId m)
    (hstart : ∀ lp, Starts s e (s.resumePoint e resume) lp → reaches e lp →
      I lp (firstVisit s e (s.resumePoint e resume) lp) (begun s amount escrow)) :
    WalkEnd now e I (s.matchOrder now e takerId amount escrow resume) ∨
      s.matchOrder now e takerId amount escrow resume = begun s amount escrow ∧
        (amount = 0 ∨ ∀ lp l, s.startLevel e (s.resumePoint e resume) = some (lp, l) →
          ¬ reaches e lp) := by
  unfold matchOrder
  dsimp only
  by_cases hidle : amount = 0 ∨ ∀ lp l,
      s.startLevel e (s.resumePoint e resume) = some (lp, l) → ¬ reaches e lp
  · exact .inr ⟨matchLevels_stop _ _ _ _ hidle, hidle⟩
  · push Not at hidle
    obtain ⟨h0, lp, l, hl, hr⟩ := hidle
    rw [hl]
    refine .inl (matchLevels_rule hext hvisit hnext _ _ lp l _ ?_ rfl ?_ hr)
    · exact hstart lp (startLevel_starts hs hl) hr
    · exact Nat.lt_succ_of_le Dict.behind_le_length

theorem Starts.underway {lp : ℕ} (h : Starts s e (s.resumePoint e resume) lp)
    (hs : s.toBook.Sound n) (hb : Backed e amount escrow) (hc : Clean s) (hr : reaches e lp) :
    Underway s e n lp (firstVisit s e (s.resumePoint e resume) lp) (begun s amount escrow) := by
  refine ⟨hs, hb, hc, .refl s, .refl _, hr, ?_⟩
  unfold firstVisit
  split_ifs with h0
  · exact .inr (h.position.resolve_left h0)
  · obtain ⟨A, r⟩ := hs.rep
    refine or_iff_not_imp_left.mpr fun h1 => ?_
    exact (r.mem_price (!e.isBuy, lp) _).mp (r.priceLinks.first_mem (k := (!e.isBuy, lp)) h1)

/-- What a whole match leaves behind. -/
structure Matched (s : InferenceOrderBook) (e : QueueEntry) (n : ℕ) (m : MatchState) : Prop where
  sound : m.book.toBook.Sound n
  backed : Backed e m.remaining m.leftover
  clean : Clean m.book
  kept : Kept s m.book
  thins : s.toBook.Thins m.book.toBook
  capped : ∀ cur, m.halt = .capped cur → m.remaining ≠ 0

theorem Underway.matched {lp cur : ℕ} {m : MatchState} (h : Underway s e n lp cur m)
    (hc : ∀ cur, m.halt = .capped cur → m.remaining ≠ 0) : Matched s e n m :=
  ⟨h.sound, h.backed, h.clean, h.kept, h.thins, hc⟩

theorem LevelEnd.remaining {lp cur x : ℕ} {m : MatchState} (h : LevelEnd now e lp cur m)
    (hc : m.halt = .capped x) : m.remaining ≠ 0 := by
  cases h with
  | done h => rw [hc] at h; cases h
  | capped _ _ h => exact h
  | stopped _ _ h => exact h

theorem WalkEnd.matched {I : ℕ → ℕ → MatchState → Prop} {m : MatchState} (h : WalkEnd now e I m)
    (hI : ∀ lp cur, I lp cur m → Underway s e n lp cur m) : Matched s e n m := by
  cases h with
  | halted lp cur h _ hl => exact (hI lp cur h).matched fun _ hc => hl.remaining hc
  | filled lp cur h hn =>
    exact (hI lp cur h).matched fun _ hc => by rw [hn] at hc; cases hc
  | swept lp h hn => exact (hI lp 0 h).matched fun _ hc => by rw [hn] at hc; cases hc

theorem begun_matched (hs : s.toBook.Sound n) (hb : Backed e amount escrow) (hc : Clean s) :
    Matched s e n (begun s amount escrow) :=
  ⟨hs, hb, hc, .refl s, .refl _, fun cur h => by cases h⟩

variable (now takerId resume) in
theorem matchOrder_matched (hs : s.toBook.Sound n) (hb : Backed e amount escrow) (hc : Clean s) :
    Matched s e n (s.matchOrder now e takerId amount escrow resume) := by
  have h := matchOrder_rule now takerId resume
    (I := fun lp cur m => Underway s e n lp cur m) hs (fun _ _ _ _ _ h => h.ext)
    (fun _ _ _ _ hc h0 h hv => h.visit hc h0 hv) (fun _ _ _ _ h _ _ hx => h.enter hx)
    fun lp h hr => h.underway hs hb hc hr
  rcases h with h | ⟨h, _⟩
  · exact h.matched fun _ _ => id
  · rw [h]
    exact begun_matched hs hb hc

end Match

end Dexdo.InferenceOrderBook
