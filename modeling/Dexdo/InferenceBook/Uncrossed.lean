import Dexdo.InferenceBook.Past

namespace Dexdo.InferenceOrderBook

/-- A resting bid and a resting ask that could be settled with each other. -/
structure Executable (now : ℕ) (bid ask : Order) : Prop where
  buys : bid.isBuy = true
  sells : ask.isBuy = false
  price : ask.price ≤ bid.price
  bidLive : isExpired now bid.deadline = false
  askLive : isExpired now ask.deadline = false
  compatible : dealCompatible true bid.flags ask.flags = true
  size : 2 ≤ min bid.amount ask.amount
  bidAon : has bid.flags FLAG_AON = true → bid.amount ≤ ask.amount
  askAon : has ask.flags FLAG_AON = true → ask.amount ≤ bid.amount

/-- No resting bid could be settled with a resting ask. -/
def Uncrossed (now : ℕ) (b : Book) : Prop :=
  ∀ i j, b.Stored i → b.Stored j → ¬ Executable now (b.core i) (b.core j)

section Pairs

variable {now now' n id : ℕ} {b c : Book} {o : Order}

theorem isExpired_before {d : ℕ} (hn : now ≤ now') (h : isExpired now' d = false) :
    isExpired now d = false := by
  by_contra hx
  rw [isExpired_mono hn (by simpa using hx)] at h
  cases h

theorem Uncrossed.later (h : Uncrossed now b) (hn : now ≤ now') : Uncrossed now' b := by
  intro i j hi hj hx
  exact h i j hi hj ⟨hx.buys, hx.sells, hx.price, isExpired_before hn hx.bidLive,
    isExpired_before hn hx.askLive, hx.compatible, hx.size, hx.bidAon, hx.askAon⟩

theorem Executable.grow {x x' y y' : Order} (hx : x.Shrunk x') (hy : y.Shrunk y')
    (h : Executable now x' y') : Executable now x y := by
  have hya : y'.amount = y.amount := by
    refine hy.ask ?_
    rw [← h.sells, hy.same]
  have e1 : x'.isBuy = x.isBuy ∧ x'.price = x.price ∧ x'.deadline = x.deadline ∧
      x'.flags = x.flags := by
    rw [hx.same]
    exact ⟨rfl, rfl, rfl, rfl⟩
  have e2 : y'.isBuy = y.isBuy ∧ y'.price = y.price ∧ y'.deadline = y.deadline ∧
      y'.flags = y.flags := by
    rw [hy.same]
    exact ⟨rfl, rfl, rfl, rfl⟩
  obtain ⟨b1, b2, b3, b4⟩ := e1
  obtain ⟨a1, a2, a3, a4⟩ := e2
  have hle := hx.amount
  have hsize := h.size
  refine ⟨b1 ▸ h.buys, a1 ▸ h.sells, ?_, b3 ▸ h.bidLive, a3 ▸ h.askLive, ?_, ?_, fun ha => ?_,
    fun ha => ?_⟩
  · rw [← a2, ← b2]
    exact h.price
  · rw [← b4, ← a4]
    exact h.compatible
  · omega
  · rw [← hx.aon ha, ← hya]
    exact h.bidAon (by rw [b4]; exact ha)
  · have := h.askAon (by rw [a4]; exact ha)
    omega

theorem Uncrossed.thins (h : Uncrossed now b) (ht : b.Thins c) : Uncrossed now c := by
  intro i j hi hj hx
  obtain ⟨h1, h2⟩ := ht i hi
  obtain ⟨h3, h4⟩ := ht j hj
  exact h i j h1 h3 (hx.grow h2 h4)

theorem Uncrossed.insert (h : Uncrossed now b) (hs : b.Sound n) (hf : ¬ b.Stored id)
    (hbid : ∀ j, b.Stored j → ¬ Executable now o (b.core j))
    (hask : ∀ i, b.Stored i → ¬ Executable now (b.core i) o) :
    Uncrossed now (b.insertOrder id o) := by
  obtain ⟨h1, h2⟩ := hs.inserted hf o
  intro i j hi hj
  rw [h1] at hi hj
  rw [h2, h2]
  split_ifs with hii hjj hjj
  · rintro hx
    have e1 : o.isBuy = true := hx.buys
    have e2 : o.isBuy = false := hx.sells
    rw [e1] at e2
    cases e2
  · intro hx
    exact hbid j (hj.resolve_left hjj) ⟨hx.buys, hx.sells, hx.price, hx.bidLive, hx.askLive,
      hx.compatible, hx.size, hx.bidAon, hx.askAon⟩
  · intro hx
    exact hask i (hi.resolve_left hii) ⟨hx.buys, hx.sells, hx.price, hx.bidLive, hx.askLive,
      hx.compatible, hx.size, hx.bidAon, hx.askAon⟩
  · exact h i j (hi.resolve_left hii) (hj.resolve_left hjj)

end Pairs

section Shut

variable {now now' lp remaining leftover remaining' leftover' trade : ℕ} {e : QueueEntry}
  {mk : Order}

/-- A match of taker `e` would not settle with `mk`. -/
def Shut (now : ℕ) (e : QueueEntry) (remaining leftover : ℕ) (mk : Order) : Prop :=
  ∀ trade, verdict now e mk mk.price remaining leftover ≠ .fill trade

theorem shut_iff : Shut now e remaining leftover mk ↔
    dealCompatible e.isBuy e.flags mk.flags = false ∨ isExpired now mk.deadline = true ∨
      breaksAon e.flags mk (tradeSize e mk mk.price remaining leftover) remaining = true ∨
      tradeSize e mk mk.price remaining leftover < 2 := by
  unfold Shut verdict
  dsimp only
  split_ifs with h1 h2 h3 h4 h5 <;> simp_all

theorem Shut.later (h : Shut now e remaining leftover mk) (hn : now ≤ now') :
    Shut now' e remaining leftover mk := by
  rw [shut_iff] at *
  exact h.imp_right fun h => h.imp_left (isExpired_mono hn)

theorem shut_zero : Shut now e 0 leftover mk := by
  rw [shut_iff]
  have hle : tradeSize e mk mk.price 0 leftover ≤ 0 := tradeSize_le.1
  omega

variable (mk lp) in
theorem tradeSize_mono (he : e.isBuy = true) (hb : leftover < 2 ^ 128) (hr : remaining' ≤ remaining)
    (hl : leftover' ≤ leftover) :
    tradeSize e mk lp remaining' leftover' ≤ tradeSize e mk lp remaining leftover := by
  have hdiv : leftover' / unit lp ≤ leftover / unit lp := Nat.div_le_div_right hl
  have e1 : toUint128 (leftover / unit lp) = leftover / unit lp :=
    toUint128_of_lt ((Nat.div_le_self _ _).trans_lt hb)
  have e2 : toUint128 (leftover' / unit lp) = leftover' / unit lp :=
    toUint128_of_lt ((Nat.div_le_self _ _).trans_lt (hl.trans_lt hb))
  unfold tradeSize affordable
  simp only [budgetOf, clearingOf, he, if_true]
  rw [e1, e2]
  split_ifs <;> omega

theorem Shut.shrink (h : Shut now e remaining leftover mk) (he : e.isBuy = true)
    (hb : leftover < 2 ^ 128) (hr : remaining' ≤ remaining) (hl : leftover' ≤ leftover)
    (haon : has e.flags FLAG_AON = true → remaining' = 0) : Shut now e remaining' leftover' mk := by
  by_cases h0 : remaining' = 0
  · rw [h0]
    exact shut_zero
  · have hle := tradeSize_mono mk.price mk he hb hr hl
    have hna : has e.flags FLAG_AON = false := by
      by_contra ha
      exact h0 (haon (by simpa using ha))
    rw [shut_iff] at *
    simp only [breaksAon, hna, Bool.false_and, Bool.false_or, Bool.and_eq_true,
      decide_eq_true_eq] at *
    rcases h with h | h | ⟨h, hlt⟩ | h
    · exact .inl h
    · exact .inr (.inl h)
    · exact .inr (.inr (.inl ⟨h, hle.trans_lt hlt⟩))
    · exact .inr (.inr (.inr (hle.trans_lt h)))

theorem Shut.barred (h : Shut now e remaining leftover mk) (hb : Backed e remaining leftover)
    (h2 : 2 ≤ remaining) (hm : has e.flags FLAG_MARKET = false) (hk : mk.Covered)
    (hside : mk.isBuy = !e.isBuy) (hreach : reaches e mk.price) :
    barred now e remaining mk := by
  rw [shut_iff, tradeSize_limit hb (by omega) hm hk hside rfl hreach] at h
  rw [barred_iff]
  simp only [breaksAon, Bool.or_eq_true, Bool.and_eq_true, decide_eq_true_eq] at h
  rcases h with h | h | (⟨h, hlt⟩ | ⟨h, hlt⟩) | h
  · exact .inl h
  · exact .inr (.inl h)
  · exact .inr (.inr (.inl ⟨h, by omega⟩))
  · exact .inr (.inr (.inr (.inl ⟨h, by omega⟩)))
  · exact .inr (.inr (.inr (.inr (by omega))))

end Shut

section Match

variable {now takerId lp cur n amount escrow resume i : ℕ} {e : QueueEntry} {m m' : MatchState}
  {s : InferenceOrderBook}

/-- The taker is shut to every resting order before `cur`. -/
def ShutTo (now : ℕ) (e : QueueEntry) (lp cur remaining leftover : ℕ) (b : Book) : Prop :=
  ∀ i, b.Opposite e.isBuy i → b.Past e.isBuy lp cur i → Shut now e remaining leftover (b.core i)

theorem Underway.visit_shut (h : Underway s e n lp cur m) (hc : cur ≠ 0) (h0 : m.remaining ≠ 0)
    (hv : Visit now e takerId lp cur m m') {mk : Order}
    (hs : Shut now e m.remaining m.leftover mk) : Shut now e m'.remaining m'.leftover mk := by
  cases hv with
  | skip => exact hs
  | expired => exact hs
  | dust => exact hs
  | fill trade hv =>
    have hm := h.meets hc h0 hv
    obtain ⟨t, -, -, -, -, heq⟩ := fillMaker_spec takerId hm
    rw [heq]
    dsimp only
    by_cases he : e.isBuy = true
    · rw [if_pos he, if_pos he]
      refine hs.shrink he (h.backed.bounded he) (Nat.sub_le _ _) (Nat.sub_le _ _) fun ha => ?_
      rw [hm.whole.1 ha, Nat.sub_self]
    · rw [if_neg he]
      exact shut_zero

/-- After a round the order it was about is gone, or the taker is shut to it. -/
theorem Underway.visit_current (h : Underway s e n lp cur m) (hc : cur ≠ 0)
    (h0 : m.remaining ≠ 0) (hv : Visit now e takerId lp cur m m') (hs : m'.book.Stored cur) :
    Shut now e m'.remaining m'.leftover (m'.book.core cur) := by
  obtain ⟨-, hd⟩ := h.sound.remove (h.stored hc)
  have hgone : ¬ (m.book.toBook.removeOrder cur).Stored cur := fun hs =>
    ((hd.stored cur).mp hs).1 rfl
  cases hv with
  | skip hv =>
    intro trade
    have hp : (m.book.core cur).price = lp := h.price hc
    rw [hp]
    change verdict now e (m.book.order cur) lp m.remaining m.leftover ≠ .fill trade
    rw [hv]
    simp
  | expired =>
    refine absurd hs ?_
    unfold dropExpired
    dsimp only
    split_ifs
    · rw [removeExpiredSell_toBook (h.amount_ne hc)]
      exact hgone
    · rw [removeExpiredBid_toBook (h.amount_ne hc)]
      exact hgone
  | dust =>
    refine absurd hs ?_
    have hb := refundAndRemove_toBook
      (s := { m.book with dust := m.book.dust ++ [m.book.order cur] }) REMOVED_DUST (h.amount_ne hc)
    unfold dropDust
    dsimp only
    rw [hb]
    exact hgone
  | fill trade hv =>
    have hm := h.meets hc h0 hv
    obtain ⟨t, hb, -, -, -, heq⟩ := fillMaker_spec takerId hm
    rw [heq] at hs ⊢
    dsimp only at hs ⊢
    by_cases he : e.isBuy = true
    · refine absurd hs ?_
      have hu : consumes e.isBuy (m.book.order cur) trade := .inl he
      obtain ⟨c, -, hdrops, hbook⟩ := h.used_up hc hu (debitOf e (m.book.order cur) lp trade)
      rw [hbook t hb]
      exact fun hs => ((hdrops.stored cur).mp hs).1 rfl
    · rw [if_neg he]
      exact shut_zero

theorem Underway.visit_shutTo (h : Underway s e n lp cur m) (hc : cur ≠ 0) (h0 : m.remaining ≠ 0)
    (hv : Visit now e takerId lp cur m m')
    (hs : ShutTo now e lp cur m.remaining m.leftover m.book.toBook) :
    ShutTo now e lp (m.book.order cur).nextAtPrice m'.remaining m'.leftover m'.book.toBook := by
  have hd := h.visited hc h0 hv
  intro i hi hp
  by_cases hic : i = cur
  · subst hic
    exact h.visit_current hc h0 hv hi.1
  · obtain ⟨h1, h2⟩ := hd.thins i hi.1
    obtain ⟨-, h3⟩ := hd.others i hic h1
    have hi' : m.book.Opposite e.isBuy i := ⟨h1, by rw [← h3]; exact hi.2⟩
    have hp' : m.book.Past e.isBuy lp (m.book.order cur).nextAtPrice i := by
      unfold Book.Past at hp ⊢
      rwa [← h3]
    obtain ⟨hst, hk⟩ := h.position.resolve_left hc
    rw [h3]
    refine h.visit_shut hc h0 hv (hs i hi' ?_)
    exact (past_next h.sound hst hk hi' hp').resolve_right hic

/-- Where a match that goes on has stopped: the taker is shut to all orders before the cursor. -/
structure Cursor (now : ℕ) (e : QueueEntry) (lp cur remaining leftover : ℕ) (b : Book) :
    Prop where
  stored : b.Stored cur
  key : b.key cur = (!e.isBuy, lp)
  reached : reaches e lp
  passed : ShutTo now e lp cur remaining leftover b

/-- What a match leaves: a cursor if it was capped, else a taker that is shut to all it reaches
or has nothing left to put to rest. -/
structure Swept (now : ℕ) (s : InferenceOrderBook) (e : QueueEntry) (n : ℕ) (m : MatchState) :
    Prop where
  matched : Matched s e n m
  cursor : ∀ cur, m.halt = .capped cur →
    ∃ lp, Cursor now e lp cur m.remaining m.leftover m.book.toBook
  rest : (∀ cur, m.halt ≠ .capped cur) → has e.flags FLAG_MARKET = false →
    (if e.isBuy then 2 ≤ m.remaining else 0 < m.remaining) → ∀ i, m.book.Opposite e.isBuy i →
      reaches e (m.book.core i).price → Shut now e m.remaining m.leftover (m.book.core i)

theorem Underway.stop_small (h : Underway s e n lp cur m) (hc : cur ≠ 0) (h0 : m.remaining ≠ 0)
    (hm : has e.flags FLAG_MARKET = false)
    (hv : verdict now e (m.book.order cur) lp m.remaining m.leftover = .stop) :
    e.isBuy = true ∧ m.remaining < 2 := by
  have hk := h.covered hc
  have ht := tradeSize_limit h.backed h0 hm hk (h.isBuy hc) (h.price hc) h.reached
  unfold verdict at hv
  dsimp only at hv
  split_ifs at hv with h1 h2 h3 h4 h5
  rw [ht] at h4
  have := (hk.ask (by rw [h.isBuy hc, h5]; rfl)).1
  exact ⟨h5, by omega⟩

theorem matchOrder_swept (hs : s.toBook.Sound n) (hb : Backed e amount escrow) (hc : Clean s)
    (hne : amount ≠ 0)
    (hstart : ∀ lp, Starts s e (s.resumePoint e resume) lp → reaches e lp →
      ShutTo now e lp (firstVisit s e (s.resumePoint e resume) lp) amount escrow s.toBook)
    (hidle : (∀ lp l, s.startLevel e (s.resumePoint e resume) = some (lp, l) → ¬ reaches e lp) →
      ∀ i, s.Opposite e.isBuy i → ¬ reaches e (s.core i).price) :
    Swept now s e n (s.matchOrder now e takerId amount escrow resume) := by
  have hmatched := matchOrder_matched now takerId resume hs hb hc
  let I : ℕ → ℕ → MatchState → Prop := fun lp cur m => Underway s e n lp cur m ∧
    ShutTo now e lp cur m.remaining m.leftover m.book.toBook
  have hvisit (lp cur : ℕ) (m m' : MatchState) (hc : cur ≠ 0) (h0 : m.remaining ≠ 0)
      (h : I lp cur m) (hv : Visit now e takerId lp cur m m') :
      I lp (m.book.order cur).nextAtPrice m' ∧ levelsBehind e lp m' ≤ levelsBehind e lp m := by
    obtain ⟨h1, h2⟩ := h.1.visit hc h0 hv
    exact ⟨⟨h1, h.1.visit_shutTo hc h0 hv h.2⟩, h2⟩
  have hnext (lp : ℕ) (m : MatchState) (x : ℕ) (l : PriceLevel) (h : I lp 0 m)
      (hn : m.book.nextOpposite e.isBuy lp = some (x, l)) (hx : reaches e x) :
      I x (m.book.level (!e.isBuy) x).firstOrderId m :=
    ⟨h.1.enter hx, fun i hi hp => h.2 i hi (past_enter h.1.sound hn hi hp)⟩
  have h := matchOrder_rule now takerId resume (I := I) hs
    (fun _ _ _ _ _ h => ⟨h.1.ext, h.2⟩) hvisit (fun lp m x l h _ hn hx => hnext lp m x l h hn hx)
    fun lp h hr => ⟨h.underway hs hb hc hr, hstart lp h hr⟩
  generalize s.matchOrder now e takerId amount escrow resume = m at h hmatched
  rcases h with h | ⟨rfl, hend⟩
  · refine ⟨hmatched, fun cur hcap => ?_, fun hncap hm hrest => ?_⟩
    · cases h with
      | halted lp cur' hI hh hl =>
        cases hl with
        | done h1 => exact absurd h1 hh
        | stopped h1 =>
          rw [hcap] at h1
          cases h1
        | capped h1 h2 =>
          rw [hcap] at h1
          cases h1
          obtain ⟨hst, hk⟩ := hI.1.position.resolve_left h2
          exact ⟨lp, hst, hk, hI.1.reached, hI.2⟩
      | filled lp cur' hI hh =>
        rw [hcap] at hh
        cases hh
      | swept lp hI hh =>
        rw [hcap] at hh
        cases hh
    · cases h with
      | halted lp cur' hI hh hl =>
        cases hl with
        | done h1 => exact absurd h1 hh
        | capped h1 => exact absurd h1 (hncap cur')
        | stopped _ h2 h3 hv =>
          obtain ⟨he, hlt⟩ := hI.1.stop_small h2 h3 hm hv
          rw [if_pos he] at hrest
          omega
      | filled lp cur' hI hh hr =>
        rw [hr] at hrest
        split_ifs at hrest
        · omega
        · omega
      | swept lp hI hh hx => exact fun i hi hr => hI.2 i hi (past_all hI.1.sound hx hi hr)
  · refine ⟨hmatched, fun cur hcap => ?_, fun _ _ _ i hi hr => ?_⟩
    · cases hcap
    · exact absurd hr (hidle (hend.resolve_left hne) i hi)

end Match

section Orders

variable {now orderId n amount escrow resume : ℕ} {e : QueueEntry} {s t : InferenceOrderBook}

/-- The rest of a taker that is shut to all it reaches can be settled with no resting order. -/
theorem restingOrder_uncrossed {b : Book} {remaining leftover : ℕ} (hs : b.Sound n)
    (hb : Backed e remaining leftover) (ht : takerOnly e.flags = false)
    (hr : if e.isBuy then 2 ≤ remaining else 0 < remaining)
    (hshut : ∀ i, b.Opposite e.isBuy i → reaches e (b.core i).price →
      Shut now e remaining leftover (b.core i)) :
    (∀ j, b.Stored j → ¬ Executable now (restingOrder now e remaining leftover) (b.core j)) ∧
      ∀ i, b.Stored i → ¬ Executable now (b.core i) (restingOrder now e remaining leftover) := by
  have hm : has e.flags FLAG_MARKET = false := by
    have := ht
    unfold takerOnly at this
    exact (Bool.or_eq_false_iff.mp this).1
  have h2 : 2 ≤ remaining := by
    by_cases he : e.isBuy = true
    · rwa [if_pos he] at hr
    · rw [if_neg he] at hr
      exact (hb.ask (by simpa using he)).resolve_left hr.ne'
  have hbar (i : ℕ) (hi : b.Opposite e.isBuy i) (hp : reaches e (b.core i).price) :
      barred now e remaining (b.core i) :=
    (hshut i hi hp).barred hb h2 hm (hs.covered i hi.1) hi.2 hp
  constructor
  · intro j hj hx
    have he : e.isBuy = true := hx.buys
    have hprice : (b.core j).price ≤ e.price := hx.price
    have hcompat : dealCompatible true e.flags (b.core j).flags = true := hx.compatible
    have hsize : 2 ≤ min remaining (b.core j).amount := hx.size
    have hbarred := hbar j ⟨hj, by rw [hx.sells, he]; rfl⟩ (by
      unfold reaches crosses
      simp [he, hm, hprice])
    rw [barred_iff, he, hcompat, hx.askLive] at hbarred
    rcases hbarred with h | h | ⟨h, hlt⟩ | ⟨h, hlt⟩ | h
    · cases h
    · cases h
    · exact absurd (hx.bidAon h) (not_le.mpr hlt)
    · exact absurd (hx.askAon h) (not_le.mpr hlt)
    · omega
  · intro i hi hx
    have he : e.isBuy = false := hx.sells
    have hprice : e.price ≤ (b.core i).price := hx.price
    have hcompat : dealCompatible false e.flags (b.core i).flags = true := by
      have := hx.compatible
      unfold dealCompatible at this ⊢
      exact this
    have hsize : 2 ≤ min (b.core i).amount remaining := hx.size
    have hbarred := hbar i ⟨hi, by rw [hx.buys, he]; rfl⟩ (by
      unfold reaches crosses
      simp [he, hm, hprice])
    rw [barred_iff, he, hcompat, hx.bidLive] at hbarred
    rcases hbarred with h | h | ⟨h, hlt⟩ | ⟨h, hlt⟩ | h
    · cases h
    · cases h
    · exact absurd (hx.askAon h) (not_le.mpr hlt)
    · exact absurd (hx.bidAon h) (not_le.mpr hlt)
    · omega

/-- A match keeps the book uncrossed, also when the rest of its taker comes to rest, and leaves a
true cursor when it goes on. -/
theorem matchPhase_uncrossed (hx : Uncrossed now s.toBook)
    (h : Swept now s e orderId (s.matchOrder now e orderId amount escrow resume)) :
    let r := s.matchPhase now e orderId amount escrow resume
    Uncrossed now r.1.toBook ∧ ∀ e', r.2 = some e' → ∃ lp,
      Cursor now e' lp e'.contScanOrder e'.contRemaining e'.contLeftover r.1.toBook := by
  have hm := h.matched
  have hx' := hx.thins hm.thins
  by_cases hh : ∃ cur, (s.matchOrder now e orderId amount escrow resume).halt = .capped cur
  · obtain ⟨cur, hh⟩ := hh
    obtain ⟨lp, hc⟩ := h.cursor cur hh
    rw [matchPhase_capped hh]
    refine ⟨hx', fun e' he' => ?_⟩
    cases he'
    exact ⟨lp, hc.stored, hc.key, hc.reached, hc.passed⟩
  · push Not at hh
    rw [matchPhase_final hh]
    generalize s.matchOrder now e orderId amount escrow resume = m at h hm hx' hh ⊢
    refine ⟨?_, fun e' he' => ?_⟩
    · rw [finalizeTaker_toBook]
      by_cases hc : (if e.isBuy then 2 ≤ m.remaining else 0 < m.remaining) ∧
          takerOnly e.flags = false
      · rw [if_pos hc]
        have hlimit : has e.flags FLAG_MARKET = false := by
          have := hc.2
          unfold takerOnly at this
          exact (Bool.or_eq_false_iff.mp this).1
        obtain ⟨h1, h2⟩ := restingOrder_uncrossed hm.sound hm.backed hc.2 hc.1
          (h.rest hh hlimit hc.1)
        refine hx'.insert hm.sound (fun hst => ?_) h1 h2
        obtain ⟨A, r⟩ := hm.sound.rep
        exact absurd (r.bound _ hst).2.1 (lt_irrefl _)
      · rw [if_neg hc]
        exact hx'
    · cases he'

variable (now orderId) in
theorem first_swept (hs : s.toBook.Sound n) (hb : Backed e amount escrow) (hc : Clean s)
    (hne : amount ≠ 0) : Swept now s e n (s.matchOrder now e orderId amount escrow 0) := by
  have h0 : s.resumePoint e 0 = 0 := if_neg fun h => h.1 rfl
  refine matchOrder_swept hs hb hc hne (fun lp hl hr i hi hp => ?_) fun hidle i hi hr => ?_
  · rw [h0] at hl hp
    exact absurd hp (not_past_first hs (hl.best rfl) hi)
  · rw [h0] at hidle
    have hkey := opposite_key hs hi
    cases hbest : (s.levels (!e.isBuy)).best? e.isBuy with
    | none =>
      rw [Dict.best?_none hbest] at hkey
      cases hkey
    | some p =>
      have hnr : ¬ reaches e p.1 := hidle p.1 p.2 (by
        unfold startLevel
        rw [if_neg (by simp), bestOpposite_eq, hbest])
      rcases ahead_trichotomy e.isBuy (s.core i).price p.1 with h1 | h1 | h1
      · exact (Dict.best?_some hbest).2 _ hkey h1
      · exact hnr (h1 ▸ hr)
      · exact hnr (reaches_ahead hr h1)

theorem Cursor.swept {lp : ℕ} (h : Cursor now e lp resume amount escrow s.toBook)
    (hs : s.toBook.Sound n) (hb : Backed e amount escrow) (hc : Clean s) (hne : amount ≠ 0) :
    Swept now s e n (s.matchOrder now e orderId amount escrow resume) := by
  have h0 : resume ≠ 0 := by
    obtain ⟨A, r⟩ := hs.rep
    exact (r.bound _ h.stored).1.ne'
  have hside : (s.order resume).isBuy = !e.isBuy := congrArg Prod.fst h.key
  have hprice : (s.order resume).price = lp := congrArg Prod.snd h.key
  have hpoint : s.resumePoint e resume = resume := by
    refine if_pos ⟨h0, (hs.amount_pos h.stored).ne', ?_⟩
    rw [hside]
    cases e.isBuy <;> simp
  have hstart : s.startLevel e resume = some (lp, s.level (!e.isBuy) lp) := by
    unfold startLevel
    rw [if_pos h0, hprice]
  refine matchOrder_swept hs hb hc hne (fun lp' hl hr => ?_) fun hidle => ?_
  · rw [hpoint] at hl ⊢
    obtain ⟨l, hl⟩ := hl.level
    obtain rfl : lp = lp' := (Prod.mk.inj (Option.some.inj (hstart.symm.trans hl))).1
    unfold firstVisit
    rw [if_pos h0]
    exact h.passed
  · rw [hpoint] at hidle
    exact absurd h.reached (hidle lp _ hstart)

end Orders

section Runs

variable {now modelHash : ℕ} {s t u : InferenceOrderBook} {i : Input}
  {tr : List (Input × InferenceOrderBook)}

/-- Nothing executable rests, and a match that goes on has passed nothing it could settle with. -/
structure Balanced (s : InferenceOrderBook) : Prop where
  pairs : Uncrossed s.clock s.toBook
  cursor : ∀ e rest, s.toQueue.list = e :: rest → e.contOrderId ≠ 0 →
    ∃ lp, Cursor s.clock e lp e.contScanOrder e.contRemaining e.contLeftover s.toBook

theorem Cursor.later {now' : ℕ} {e : QueueEntry} {lp cur remaining leftover : ℕ} {b : Book}
    (h : Cursor now e lp cur remaining leftover b) (hn : now ≤ now') :
    Cursor now' e lp cur remaining leftover b :=
  ⟨h.stored, h.key, h.reached, fun i hi hp => (h.passed i hi hp).later hn⟩

theorem Balanced.later (h : Balanced s) (hb : t.toBook = s.toBook)
    (hl : t.toQueue.list = s.toQueue.list) (hn : s.clock ≤ t.clock) : Balanced t := by
  refine ⟨hb ▸ h.pairs.later hn, fun e rest he h0 => ?_⟩
  obtain ⟨lp, hc⟩ := h.cursor e rest (hl ▸ he) h0
  exact ⟨lp, hb ▸ hc.later hn⟩

theorem Queues.balanced (h : Queues s u) (hr : Ready s) (hB : Balanced s) : Balanced u := by
  cases h with
  | nothing => exact hB
  | entry x hx hq =>
    obtain ⟨-, hl⟩ := enqueue_list hr.queue hq x
    refine ⟨hB.pairs, fun e rest he h0 => ?_⟩
    rw [hl] at he
    cases hs : s.toQueue.list with
    | nil =>
      rw [hs] at he
      obtain ⟨rfl, -⟩ := List.cons.inj he
      exact absurd hx.first h0
    | cons y ys =>
      rw [hs] at he
      obtain ⟨rfl, -⟩ := List.cons.inj he
      exact hB.cursor y ys hs h0

theorem Balanced.of_fresh (hx : Uncrossed t.clock t.toBook)
    (hf : ∀ x ∈ t.toQueue.list, x.Fresh) : Balanced t := by
  refine ⟨hx, fun e rest he h0 => ?_⟩
  rw [he] at hf
  exact absurd (hf e List.mem_cons_self).first h0

theorem Book.Sheds.thins {b c : Book} (h : b.Sheds c) : b.Thins c := by
  intro i hi
  obtain ⟨h1, h2⟩ := h i hi
  exact ⟨h1, h2 ▸ .refl _⟩

theorem Turn.balanced (h : Ready s) (hB : Balanced s) (hclock : s.clock = now)
    (ht : Turn now s t) : Balanced t := by
  have hpairs := hB.pairs
  rw [hclock] at hpairs
  cases ht with
  | idle _ h0 => exact h0 ▸ hB
  | shed e rest v hl hk he hd hv hl' =>
    have hrest := (h.phase.runnable hl).2
    refine .of_fresh ?_ fun x hx => ?_
    · rw [hv.clock, hd.quiet.clock, hclock, hv.book]
      exact hpairs.thins hd.sheds.thins
    · rcases hl' with hl' | hl'
      · exact hrest x (hl' ▸ hx)
      · rw [hl'] at hx
        rcases List.mem_cons.mp hx with rfl | hx
        · exact he
        · exact hrest x hx
  | placed e rest r hl hk hrun hp hh hv hl' =>
    have hrest := (h.phase.runnable hl).2
    have htclock : t.clock = now := hv.clock.trans (hh.clock.trans hclock)
    have hgo (hr : Uncrossed now r.1.toBook ∧ ∀ e', r.2 = some e' → ∃ lp,
        Cursor now e' lp e'.contScanOrder e'.contRemaining e'.contLeftover r.1.toBook) :
        Balanced t := by
      obtain ⟨h1, h2⟩ := hr
      refine ⟨?_, fun e' rest' he' h0 => ?_⟩
      · rw [htclock, hv.book]
        exact h1
      · rw [htclock, hv.book]
        cases hr : r.2 with
        | none =>
          rw [hr] at hl'
          have hmem : e' ∈ rest := by
            rw [show rest = e' :: rest' from hl'.symm.trans he']
            exact List.mem_cons_self
          exact absurd (hrest e' hmem).first h0
        | some e'' =>
          rw [hr] at hl'
          obtain ⟨rfl, -⟩ := List.cons.inj (hl'.symm.trans he')
          exact h2 _ hr
    cases hp with
    | refused =>
      refine hgo ⟨?_, fun e' he' => ?_⟩
      · rw [refuse_toBook]
        exact hpairs
      · cases he'
    | lapsed =>
      refine hgo ⟨?_, fun e' he' => ?_⟩
      · rw [expireTaker_toBook]
        exact hpairs
      · cases he'
    | opened hfirst hx hpost hfok =>
      cases hrun with
      | again hc => exact absurd hfirst hc.first
      | first hf hs =>
        have hopen : (s.openOrder e).toBook.Sound s.nextOrderId := hs
        have hsw := first_swept now s.nextOrderId hopen (hf.backed hk) (h.clean.of_eq rfl rfl)
          (by have := hf.amount hk; omega)
        exact hgo (matchPhase_uncrossed (s := s.openOrder e) hpairs hsw)
    | resumed hfirst =>
      cases hrun with
      | first hf => exact absurd hf.first hfirst
      | again hc hs =>
        obtain ⟨lp, hcur⟩ := hB.cursor e rest hl hfirst
        rw [hclock] at hcur
        exact hgo (matchPhase_uncrossed hpairs (hcur.swept hs hc.backed h.clean hc.unfilled))

theorem step_balanced (hr : Ready s) (hB : Balanced s) (h : s.step i = some t) : Balanced t := by
  obtain ⟨hn, hcase⟩ := step_cases h
  have hB' : Balanced (s.begin i.now) := hB.later rfl rfl hn
  rcases hcase with ⟨u, hu, rfl⟩ | hsp
  · have hru := hu.ready (hr.begin i.now)
    exact (hru.turn i.now).2.balanced hru (hu.balanced (hr.begin i.now) hB') hu.fills.2
  · exact hB'.later hsp.book (congrArg Queue.list hsp.queue) hsp.clock.ge

theorem run_balanced (h : Run step (init modelHash) tr s) : Ready s ∧ Balanced s := by
  refine h.state_invariant (fun s => Ready s ∧ Balanced s) ⟨init_ready modelHash, ?_⟩ ?_
  · refine .of_fresh (fun i j hi => ?_) fun x hx => ?_
    · simp [init, Book.empty, Book.Stored] at hi
    · cases hx
  · intro s i t hs hi
    exact ⟨step_ready hs.1 hi, step_balanced hs.1 hs.2 hi⟩

/-- From any reachable state on no resting bid could be settled with a resting ask, and a match
that goes on will skip no maker that it could settle with. -/
theorem no_executable_pair (h : Run step (init modelHash) tr s) (hn : s.clock ≤ now) :
    Uncrossed now s.toBook ∧ ∀ e rest, s.toQueue.list = e :: rest → e.contOrderId ≠ 0 →
      ∃ lp, Cursor now e lp e.contScanOrder e.contRemaining e.contLeftover s.toBook := by
  have hB := (run_balanced h).2
  refine ⟨hB.pairs.later hn, fun e rest hl h0 => ?_⟩
  obtain ⟨lp, hc⟩ := hB.cursor e rest hl h0
  exact ⟨lp, hc.later hn⟩

/-- A bid that insists on the enclave rests above an offer outside it. -/
theorem no_executable_pair_sample : (bookAfter [offerCall, bidCall 4 0x10]).orderCount = 2 ∧
    Uncrossed 9 (bookAfter [offerCall, bidCall 4 0x10]).toBook :=
  ⟨by decide +kernel, (@no_executable_pair 9 _ _ _
    (Run.trace_run step (init 7) [offerCall, bidCall 4 0x10]) (by decide +kernel)).1⟩

end Runs

end Dexdo.InferenceOrderBook
