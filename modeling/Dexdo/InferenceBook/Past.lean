import Dexdo.InferenceBook.Reach

namespace Dexdo.InferenceOrderBook

/-- Resting orders a taker can meet. -/
def Book.Opposite (b : Book) (isBuy : Bool) (i : ℕ) : Prop :=
  b.Stored i ∧ (b.core i).isBuy = !isBuy

/-- The walk of a taker, now at order `cur` of level `lp`, is past the resting order `i`. -/
def Book.Past (b : Book) (isBuy : Bool) (lp cur i : ℕ) : Prop :=
  ahead isBuy (b.core i).price lp ∨ (b.core i).price = lp ∧ (cur = 0 ∨ i < cur)

theorem reaches_ahead {e : QueueEntry} {x y : ℕ} (h : reaches e x) (hy : ahead e.isBuy y x) :
    reaches e y := by
  unfold reaches crosses ahead at *
  cases he : e.isBuy <;> cases hm : has e.flags FLAG_MARKET <;> simp [he, hm] at h hy ⊢ <;> omega

section Positions

variable {b : Book} {n : ℕ}

theorem next_position (h : b.Sound n) {cur : ℕ} {k : Bool × ℕ} (hs : b.Stored cur)
    (hk : b.key cur = k) : (b.order cur).nextAtPrice = 0 ∨
      (b.Stored (b.order cur).nextAtPrice ∧ b.key (b.order cur).nextAtPrice = k) := by
  obtain ⟨A, r⟩ := h.rep
  refine or_iff_not_imp_left.mpr fun h0 => ?_
  exact (r.mem_price _ _).mp (r.priceLinks.next_mem ((r.mem_price k cur).mpr ⟨hs, hk⟩) h0)

theorem first_position (h : b.Sound n) (k : Bool) (q : ℕ) :
    (b.level k q).firstOrderId = 0 ∨
      (b.Stored (b.level k q).firstOrderId ∧ b.key (b.level k q).firstOrderId = (k, q)) := by
  obtain ⟨A, r⟩ := h.rep
  refine or_iff_not_imp_left.mpr fun h0 => ?_
  exact (r.mem_price _ _).mp (r.priceLinks.first_mem (k := (k, q)) h0)

end Positions

section Order

variable {b : Book} {n lp cur i : ℕ} {isBuy : Bool} (h : b.Sound n)

include h

theorem opposite_key (hi : b.Opposite isBuy i) :
    (b.core i).price ∈ (b.levels (!isBuy)).keys := by
  obtain ⟨A, r⟩ := h.rep
  exact (r.mem_keys _ _).mpr ⟨i, hi.1, Prod.ext hi.2 rfl⟩

theorem not_past_first (hbest : ∀ x ∈ (b.levels (!isBuy)).keys, ¬ ahead isBuy x lp)
    (hi : b.Opposite isBuy i) : ¬ b.Past isBuy lp (b.level (!isBuy) lp).firstOrderId i := by
  obtain ⟨A, r⟩ := h.rep
  rintro (ha | ⟨hp, hc⟩)
  · exact hbest _ (opposite_key h hi) ha
  · have hmem := (r.mem_price (!isBuy, lp) i).mpr ⟨hi.1, Prod.ext hi.2 hp⟩
    rcases hc with hc | hc
    · rw [(r.priceLinks.first_eq_zero (!isBuy, lp)).mp hc] at hmem
      cases hmem
    · have := r.priceLinks.first_le (r.sorted (!isBuy, lp)) hmem
      exact absurd hc (not_lt.mpr this)

theorem past_next (hs : b.Stored cur) (hk : b.key cur = (!isBuy, lp)) (hi : b.Opposite isBuy i)
    (hp : b.Past isBuy lp (b.order cur).nextAtPrice i) : b.Past isBuy lp cur i ∨ i = cur := by
  obtain ⟨A, r⟩ := h.rep
  rcases hp with ha | ⟨hp, hc⟩
  · exact .inl (.inl ha)
  · have hcur := (r.mem_price (!isBuy, lp) cur).mpr ⟨hs, hk⟩
    have hmem := (r.mem_price (!isBuy, lp) i).mpr ⟨hi.1, Prod.ext hi.2 hp⟩
    rcases r.priceLinks.next_least (r.sorted _) hcur hmem with hle | ⟨h0, hle⟩
    · rcases hle.lt_or_eq with hlt | heq
      · exact .inl (.inr ⟨hp, .inr hlt⟩)
      · exact .inr heq
    · rcases hc with hc | hc
      · exact absurd hc h0
      · exact absurd hc (not_lt.mpr hle)

theorem past_enter {x : ℕ} {l : PriceLevel} (hn : b.nextOpposite isBuy lp = some (x, l))
    (hi : b.Opposite isBuy i) (hp : b.Past isBuy x (b.level (!isBuy) x).firstOrderId i) :
    b.Past isBuy lp 0 i := by
  obtain ⟨A, r⟩ := h.rep
  have hn : (b.levels (!isBuy)).after? isBuy lp = some (x, l) := by
    rw [← hn]
    unfold Book.nextOpposite Dict.after?
    cases isBuy <;> rfl
  obtain ⟨hx, hlx, hbetween⟩ := Dict.after?_some hn
  rcases hp with ha | ⟨hp, hc⟩
  · rcases ahead_trichotomy isBuy (b.core i).price lp with h1 | h1 | h1
    · exact .inl h1
    · exact .inr ⟨h1, .inl rfl⟩
    · exact absurd ha (hbetween _ (opposite_key h hi) h1)
  · have hmem := (r.mem_price (!isBuy, x) i).mpr ⟨hi.1, Prod.ext hi.2 hp⟩
    rcases hc with hc | hc
    · rw [(r.priceLinks.first_eq_zero (!isBuy, x)).mp hc] at hmem
      cases hmem
    · have := r.priceLinks.first_le (r.sorted (!isBuy, x)) hmem
      exact absurd hc (not_lt.mpr this)

theorem past_all {e : QueueEntry}
    (hn : ∀ x l, b.nextOpposite e.isBuy lp = some (x, l) → ¬ reaches e x)
    (hi : b.Opposite e.isBuy i) (hr : reaches e (b.core i).price) : b.Past e.isBuy lp 0 i := by
  rcases ahead_trichotomy e.isBuy (b.core i).price lp with h1 | h1 | h1
  · exact .inl h1
  · exact .inr ⟨h1, .inl rfl⟩
  · exfalso
    have hk := opposite_key h hi
    cases hx : b.nextOpposite e.isBuy lp with
    | none =>
      rw [nextOpposite_eq] at hx
      exact Dict.after?_none hx _ hk h1
    | some p =>
      obtain ⟨x, l⟩ := p
      have hnx := hn x l hx
      rw [nextOpposite_eq] at hx
      obtain ⟨-, -, hbetween⟩ := Dict.after?_some hx
      rcases ahead_trichotomy e.isBuy (b.core i).price x with h2 | h2 | h2
      · exact hbetween _ hk h1 h2
      · exact hnx (h2 ▸ hr)
      · exact hnx (reaches_ahead hr h2)

end Order

theorem no_taker_flag {flags mask : UInt8} (h : has flags TAKER_FLAGS = false)
    (hm : TAKER_FLAGS &&& mask = mask) : has flags mask = false := by
  unfold has at *
  rw [bne_eq_false_iff_eq] at *
  rw [← hm, ← UInt8.and_assoc, h, UInt8.zero_and]

theorem not_takerOnly {flags : UInt8} (h : has flags TAKER_FLAGS = false) :
    takerOnly flags = false := by
  unfold takerOnly
  rw [no_taker_flag h (by decide), no_taker_flag h (by decide)]
  rfl

section Barred

variable {now now' lp remaining leftover : ℕ} {e : QueueEntry} {mk : Order}

/-- Taker `e`, with `remaining` ticks to go, cannot trade with `mk` whatever its escrow. -/
def barred (now : ℕ) (e : QueueEntry) (remaining : ℕ) (mk : Order) : Prop :=
  crossesMaker now { e with amount := remaining } mk = false

theorem barred_iff : barred now e remaining mk ↔
    dealCompatible e.isBuy e.flags mk.flags = false ∨ isExpired now mk.deadline = true ∨
      (has e.flags FLAG_AON = true ∧ mk.amount < remaining) ∨
      (has mk.flags FLAG_AON = true ∧ remaining < mk.amount) ∨ mk.amount < 2 := by
  unfold barred crossesMaker
  simp only [Bool.and_eq_false_iff, Bool.not_eq_false', Bool.or_eq_true, Bool.and_eq_true,
    decide_eq_true_eq, decide_eq_false_iff_not, not_le]
  tauto

theorem isExpired_mono {d : ℕ} (hn : now ≤ now') (h : isExpired now d = true) :
    isExpired now' d = true := by
  unfold isExpired at *
  simp only [Bool.and_eq_true, decide_eq_true_eq] at *
  omega

theorem barred.later (h : barred now e remaining mk) (hn : now ≤ now') :
    barred now' e remaining mk := by
  rw [barred_iff] at *
  exact h.imp_right fun h => h.imp_left (isExpired_mono hn)

theorem tradeSize_limit (hb : Backed e remaining leftover) (hr : remaining ≠ 0)
    (hm : has e.flags FLAG_MARKET = false) (hk : mk.Covered) (hside : mk.isBuy = !e.isBuy)
    (hlp : mk.price = lp) (hreach : reaches e lp) :
    tradeSize e mk lp remaining leftover = min remaining mk.amount := by
  unfold reaches crosses at hreach
  rw [hm] at hreach
  cases he : e.isBuy with
  | false =>
    rw [he] at hside
    refine tradeSize_bid hk hside he hb.priced ?_
    rw [hlp]
    simpa [he] using hreach
  | true =>
    have hle : lp ≤ e.price := by simpa [he] using hreach
    have hpos : 0 < lp := hlp ▸ hk.priced
    have hcost (t : ℕ) (ht : t ≤ remaining) : t * unit lp ≤ leftover :=
      ((Nat.mul_le_mul ht (unit_mono hle)).trans (Nat.le_add_right _ _)).trans (hb.bid he hm hr)
    have hlt := hb.bounded he
    unfold tradeSize
    simp only [budgetOf, clearingOf, he, if_true]
    split_ifs with h1 h2 h2
    · exact absurd (le_affordable hlt hpos (hcost _ le_rfl)) (not_le.mpr h2)
    · exact (min_eq_left h1.le).symm
    · exact absurd (le_affordable hlt hpos (hcost _ (not_lt.mp h1))) (not_le.mpr h2)
    · exact (min_eq_right (not_lt.mp h1)).symm

/-- A match does not settle with a barred maker; it stops at none while two ticks remain. -/
theorem verdict_barred (hb : Backed e remaining leftover) (h2 : 2 ≤ remaining)
    (hm : has e.flags FLAG_MARKET = false) (hk : mk.Covered) (hside : mk.isBuy = !e.isBuy)
    (hlp : mk.price = lp) (hreach : reaches e lp) (h : barred now e remaining mk) :
    (∀ trade, verdict now e mk lp remaining leftover ≠ .fill trade) ∧
      verdict now e mk lp remaining leftover ≠ .stop := by
  have htrade := tradeSize_limit hb (by omega) hm hk hside hlp hreach
  have hask : e.isBuy = true → 2 ≤ mk.amount := fun he => (hk.ask (by rw [hside, he]; rfl)).1
  unfold verdict
  dsimp only
  rw [htrade]
  by_cases h3 : dealCompatible e.isBuy e.flags mk.flags = true
  · by_cases h4 : isExpired now mk.deadline = true
    · simp [h3, h4]
    · by_cases h5 : breaksAon e.flags mk (min remaining mk.amount) remaining = true
      · simp [h3, h4, h5]
      · have hsmall : mk.amount < 2 := by
          simp only [breaksAon, Bool.or_eq_true, Bool.and_eq_true, decide_eq_true_eq] at h5
          rw [barred_iff] at h
          rcases h with h | h | ⟨h, hlt⟩ | ⟨h, hlt⟩ | h
          · rw [h3] at h
            cases h
          · exact absurd h h4
          · exact absurd (.inl ⟨h, by omega⟩) h5
          · exact absurd (.inr ⟨h, by omega⟩) h5
          · exact h
        have he : e.isBuy = false := by
          by_contra he
          have := hask (by simpa using he)
          omega
        have hlt : min remaining mk.amount < 2 := by omega
        rw [if_neg (by simp [h3]), if_neg h4, if_neg h5, if_pos hlt, if_neg (by simp [he])]
        simp
  · simp [h3]

end Barred

section Rounds

variable {now takerId lp cur n : ℕ} {e : QueueEntry} {m m' : MatchState}

theorem Visit.unfilled (h : m.book.toBook.Sound n) (hv : Visit now e takerId lp cur m m')
    (hf : ∀ trade, verdict now e (m.book.order cur) lp m.remaining m.leftover ≠ .fill trade) :
    m.book.toBook.Sheds m'.book.toBook ∧ m'.book.fills = m.book.fills ∧
      m'.remaining = m.remaining ∧ m'.leftover = m.leftover := by
  cases hv with
  | skip => exact ⟨fun _ hi => ⟨hi, rfl⟩, rfl, rfl, rfl⟩
  | expired =>
    unfold dropExpired
    dsimp only
    split_ifs
    · have hd := shed_removeExpiredSell h cur
      exact ⟨hd.sheds, hd.quiet.fills, rfl, rfl⟩
    · have hd := shed_removeExpiredBid h cur
      exact ⟨hd.sheds, hd.quiet.fills, rfl, rfl⟩
  | dust =>
    have hd := shed_refundAndRemove (n := n)
      (s := { m.book with dust := m.book.dust ++ [m.book.order cur] }) h cur REMOVED_DUST
    exact ⟨hd.sheds, hd.quiet.fills, rfl, rfl⟩
  | fill trade hv => exact absurd hv (hf trade)

theorem WalkEnd.holds {I : ℕ → ℕ → MatchState → Prop} {r : MatchState} (h : WalkEnd now e I r) :
    ∃ lp cur, I lp cur r := by
  cases h with
  | halted lp cur h => exact ⟨lp, cur, h⟩
  | filled lp cur h => exact ⟨lp, cur, h⟩
  | swept lp h => exact ⟨lp, 0, h⟩

end Rounds

end Dexdo.InferenceOrderBook
