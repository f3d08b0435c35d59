import Dexdo.InferenceBook.Past

namespace Dexdo.InferenceOrderBook

/-- Ahead of a walk at order `cur` of level `lp`, book `c` still is what `b` was. -/
structure Intact (b c : Book) (isBuy : Bool) (lp cur : ℕ) : Prop where
  thins : b.Thins c
  same : ∀ i, b.Opposite isBuy i → ¬ b.Past isBuy lp cur i → c.Stored i ∧ c.core i = b.core i

namespace Intact

variable {b c d : Book} {isBuy : Bool} {n lp cur : ℕ}

theorem refl (b : Book) (isBuy : Bool) (lp cur : ℕ) : Intact b b isBuy lp cur :=
  ⟨.refl b, fun _ hi _ => ⟨hi.1, rfl⟩⟩

theorem current (h : Intact b c isBuy lp cur) (h0 : cur ≠ 0) (hs : b.Stored cur)
    (hk : b.key cur = (!isBuy, lp)) : c.Stored cur ∧ c.core cur = b.core cur := by
  refine h.same cur ⟨hs, congrArg Prod.fst hk⟩ ?_
  rintro (ha | ⟨-, hc⟩)
  · rw [show (b.core cur).price = lp from congrArg Prod.snd hk] at ha
    exact ahead_irrefl ha
  · exact hc.elim h0 (lt_irrefl cur)

theorem next (h : Intact b c isBuy lp cur) (hb : b.Sound n) (hc : c.Sound n) (h0 : cur ≠ 0)
    (hs : b.Stored cur) (hk : b.key cur = (!isBuy, lp)) :
    (c.order cur).nextAtPrice = (b.order cur).nextAtPrice := by
  obtain ⟨A, r⟩ := hb.rep
  obtain ⟨A', r'⟩ := hc.rep
  obtain ⟨hs', -⟩ := h.current h0 hs hk
  have hk' := (h.thins.key hs').trans hk
  refine r'.priceLinks.next_congr r.priceLinks (r'.sorted (!isBuy, lp)) (r.sorted _)
    ((r'.mem_price _ _).mpr ⟨hs', hk'⟩) ((r.mem_price _ _).mpr ⟨hs, hk⟩) fun y hy => ?_
  rw [r'.mem_price, r.mem_price]
  constructor
  · rintro ⟨h1, h2⟩
    exact ⟨(h.thins y h1).1, (h.thins.key h1).symm.trans h2⟩
  · rintro ⟨h1, h2⟩
    obtain ⟨h3, h4⟩ := h.same y ⟨h1, congrArg Prod.fst h2⟩ <| by
      rintro (ha | ⟨-, hc⟩)
      · rw [show (b.core y).price = lp from congrArg Prod.snd h2] at ha
        exact ahead_irrefl ha
      · exact hc.elim h0 (not_lt.mpr hy.le)
    exact ⟨h3, (h.thins.key h3).trans h2⟩

theorem behind (h : Intact b c isBuy lp 0) {x : ℕ} (hx : ahead isBuy lp x) (y : ℕ) :
    c.Stored y ∧ c.key y = (!isBuy, x) ↔ b.Stored y ∧ b.key y = (!isBuy, x) := by
  constructor
  · rintro ⟨h1, h2⟩
    exact ⟨(h.thins y h1).1, (h.thins.key h1).symm.trans h2⟩
  · rintro ⟨h1, h2⟩
    have hp : (b.core y).price = x := congrArg Prod.snd h2
    obtain ⟨h3, -⟩ := h.same y ⟨h1, congrArg Prod.fst h2⟩ <| by
      rintro (ha | ⟨heq, -⟩)
      · exact not_ahead_of_ahead hx (hp ▸ ha)
      · rw [← hp, heq] at hx
        exact ahead_irrefl hx
    exact ⟨h3, (h.thins.key h3).trans h2⟩

theorem first (h : Intact b c isBuy lp 0) (hb : b.Sound n) (hc : c.Sound n) {x : ℕ}
    (hx : ahead isBuy lp x) :
    (c.level (!isBuy) x).firstOrderId = (b.level (!isBuy) x).firstOrderId := by
  obtain ⟨A, r⟩ := hb.rep
  obtain ⟨A', r'⟩ := hc.rep
  refine r'.priceLinks.first_congr (k := (!isBuy, x)) r.priceLinks (r'.sorted _) (r.sorted _)
    fun y => ?_
  rw [r'.mem_price, r.mem_price]
  exact h.behind hx y

theorem nextOpposite (h : Intact b c isBuy lp 0) (hb : b.Sound n) (hc : c.Sound n) :
    (c.nextOpposite isBuy lp).map Prod.fst = (b.nextOpposite isBuy lp).map Prod.fst := by
  obtain ⟨A, r⟩ := hb.rep
  obtain ⟨A', r'⟩ := hc.rep
  have heq (b : Book) : b.nextOpposite isBuy lp = (b.levels (!isBuy)).after? isBuy lp := by
    unfold Book.nextOpposite Dict.after?
    cases isBuy <;> rfl
  rw [heq, heq]
  refine Dict.after?_congr fun x hx => ?_
  rw [r'.mem_keys, r.mem_keys]
  exact exists_congr (h.behind hx)

theorem advance (h : Intact b c isBuy lp cur) (ht : c.Thins d)
    (hothers : ∀ i, i ≠ cur → c.Stored i → d.Stored i ∧ d.core i = c.core i) {next : ℕ}
    (h0 : cur ≠ 0) (hk : b.key cur = (!isBuy, lp)) (hnext : next = 0 ∨ cur < next) :
    Intact b d isBuy lp next := by
  refine ⟨h.thins.trans ht, fun i hi hp => ?_⟩
  have hpast : ¬ b.Past isBuy lp cur i := by
    rintro (ha | ⟨hprice, hc⟩)
    · exact hp (.inl ha)
    · refine hp (.inr ⟨hprice, ?_⟩)
      have hlt := hc.resolve_left h0
      exact hnext.imp_right hlt.trans
  have hne : i ≠ cur := by
    rintro rfl
    exact hp (.inr ⟨congrArg Prod.snd hk, hnext⟩)
  obtain ⟨h1, h2⟩ := h.same i hi hpast
  obtain ⟨h3, h4⟩ := hothers i hne h1
  exact ⟨h3, h4.trans h2⟩

theorem enter (h : Intact b c isBuy lp 0) {x first : ℕ} (hx : ahead isBuy lp x) :
    Intact b c isBuy x first := by
  refine ⟨h.thins, fun i hi hp => h.same i hi ?_⟩
  rintro (ha | ⟨hprice, -⟩)
  · exact hp (.inl (ahead_trans ha hx))
  · exact hp (.inl (hprice ▸ hx))

end Intact

section Rounds

variable {now lp cur scans : ℕ} {e : QueueEntry} {s : InferenceOrderBook} {f : FokState}

/-- What the simulation makes of a fill. -/
def fokFill (e : QueueEntry) (lp trade : ℕ) (f : FokState) : FokState :=
  { f with
    remaining := f.remaining - trade
    matched := f.matched + 1
    leftEscrow := if e.isBuy
      then f.leftEscrow - toUint128 (trade * unit (clearingOf e lp)) else f.leftEscrow }

theorem fokLevel_succ (h0 : cur ≠ 0) (hr : f.remaining ≠ 0)
    (hm : f.matched < MAX_MATCHES_PER_CALL) :
    fokLevel s now e lp (scans + 1) cur f =
      match verdict now e (s.order cur) lp f.remaining f.leftEscrow with
      | .skip => fokLevel s now e lp scans (s.order cur).nextAtPrice f
      | .expired | .dust =>
        fokLevel s now e lp scans (s.order cur).nextAtPrice { f with matched := f.matched + 1 }
      | .stop => { f with answer := some false }
      | .fill trade =>
        if e.isBuy then fokLevel s now e lp scans (s.order cur).nextAtPrice (fokFill e lp trade f)
        else { fokFill e lp trade f with
          answer := some (decide ((fokFill e lp trade f).remaining = 0)) } := by
  rw [fokLevel, if_neg (by push Not; exact ⟨h0, hr⟩)]
  dsimp only
  rw [if_neg (not_le.mpr hm)]
  unfold verdict
  dsimp only
  split_ifs <;> simp_all [fokFill]

theorem matchLevel_succ {takerId : ℕ} {m : MatchState} (h0 : cur ≠ 0) (hr : m.remaining ≠ 0)
    (hm : m.matched < MAX_MATCHES_PER_CALL) :
    matchLevel now e takerId lp (scans + 1) cur m =
      match verdict now e (m.book.order cur) lp m.remaining m.leftover with
      | .skip => matchLevel now e takerId lp scans (m.book.order cur).nextAtPrice m
      | .expired =>
        matchLevel now e takerId lp scans (m.book.order cur).nextAtPrice (dropExpired e cur m)
      | .stop => { m with scans := scans, halt := .stopped }
      | .dust => matchLevel now e takerId lp scans (m.book.order cur).nextAtPrice (dropDust cur m)
      | .fill trade => matchLevel now e takerId lp scans (m.book.order cur).nextAtPrice
          (fillMaker e takerId lp cur trade m) := by
  rw [matchLevel, if_neg (by push Not; exact ⟨h0, hr⟩)]
  exact if_neg (not_le.mpr hm)

end Rounds

section Simulation

variable {now takerId lp cur n trade : ℕ} {e : QueueEntry} {s u : InferenceOrderBook}
  {f : FokState} {m m' : MatchState}

/-- The simulation has counted what the match has done. -/
structure Counts (f : FokState) (m : MatchState) : Prop where
  remaining : f.remaining = m.remaining
  matched : f.matched = m.matched
  escrow : m.remaining ≠ 0 → f.leftEscrow = m.leftover
  unanswered : f.answer = none

/-- The fills add up to what the taker has no longer to go, and to what it has paid. -/
structure Tally (e : QueueEntry) (m : MatchState) : Prop where
  ticks : (m.book.fills.map Fill.trade).sum + m.remaining = e.amount
  paid : e.isBuy = true → (m.book.fills.map Fill.debit).sum + m.leftover = e.escrow

variable (takerId) in
theorem fillMaker_tally (hm : Meets now e (m.book.order cur) lp m.remaining m.leftover trade)
    (ht : Tally e m) (hw : e.isBuy = true ∨ trade = m.remaining) :
    Tally e (fillMaker e takerId lp cur trade m) := by
  obtain ⟨t, -, -, -, hf, heq⟩ := fillMaker_spec takerId hm
  have hq := quiet_reduceMaker t cur trade e.isBuy (m.book.order cur)
    (debitOf e (m.book.order cur) lp trade)
  have hfills := hq.fills.trans hf
  have hle := hm.size.2.1
  rw [heq]
  refine ⟨?_, fun he => ?_⟩
  · have hticks := ht.ticks
    simp only [hfills, List.map_append, List.sum_append, List.map_singleton, List.sum_singleton,
      fillOf]
    split_ifs with he
    · omega
    · have := hw.resolve_left he
      omega
  · have hpaid := ht.paid he
    have hcost : debitOf e (m.book.order cur) lp trade ≤ m.leftover := by
      have := hm.cost_le
      rwa [budgetOf, if_pos he] at this
    simp only [hfills, List.map_append, List.sum_append, List.map_singleton, List.sum_singleton,
      fillOf, if_pos he]
    omega

theorem fillMaker_counts (hm : Meets now e (m.book.order cur) lp m.remaining m.leftover trade)
    (hc : Counts f m) (he : e.isBuy = true) :
    Counts (fokFill e lp trade f) (fillMaker e takerId lp cur trade m) := by
  obtain ⟨t, -, -, -, -, heq⟩ := fillMaker_spec takerId hm
  have hcost := hm.cost_le
  have hlt := hm.budget_lt
  rw [heq]
  refine ⟨?_, congrArg (· + 1) hc.matched, fun hne => ?_, hc.unanswered⟩
  · simp only [fokFill, he, if_true, hc.remaining]
  · simp only [he, if_true] at hne
    -- a subscription is all-or-none, and then nothing remains
    have hs : has e.flags FLAG_SUBSCRIPTION = false := by
      by_contra hs
      rw [Bool.not_eq_false] at hs
      have := hm.whole.1 (hm.backed.aon hs)
      omega
    simp only [fokFill, he, if_true, debitOf, buyFlagsOf, bondAt, hs, Bool.false_eq_true, if_false,
      Nat.add_zero]
    rw [hc.escrow hm.unfilled, toUint128_of_lt (by omega)]

/-- The walks of the simulation and of the match stand at the same order, with the same ahead. -/
structure Abreast (u s : InferenceOrderBook) (e : QueueEntry) (n lp cur : ℕ) (m : MatchState) :
    Prop where
  underway : Underway s e n lp cur m
  intact : Intact u.toBook m.book.toBook e.isBuy lp cur

namespace Abreast

variable (hu : u.toBook.Sound n) (h : Abreast u s e n lp cur m) (h0 : cur ≠ 0)

include h h0

theorem position : u.Stored cur ∧ u.key cur = (!e.isBuy, lp) := by
  obtain ⟨h1, h2⟩ := h.underway.position.resolve_left h0
  exact ⟨(h.intact.thins cur h1).1, (h.intact.thins.key h1).symm.trans h2⟩

theorem verdict_eq (hc : Counts f m) (hr : m.remaining ≠ 0) :
    verdict now e (u.order cur) lp f.remaining f.leftEscrow =
      verdict now e (m.book.order cur) lp m.remaining m.leftover := by
  obtain ⟨h1, h2⟩ := h.position h0
  obtain ⟨-, h3⟩ := h.intact.current h0 h1 h2
  rw [hc.remaining, hc.escrow hr]
  change verdict now e (u.core cur) lp m.remaining m.leftover =
    verdict now e (m.book.core cur) lp m.remaining m.leftover
  rw [h3]

include hu

theorem next_eq : (m.book.order cur).nextAtPrice = (u.order cur).nextAtPrice := by
  obtain ⟨h1, h2⟩ := h.position h0
  exact h.intact.next hu h.underway.sound h0 h1 h2

theorem visit (hr : m.remaining ≠ 0) (hv : Visit now e takerId lp cur m m') :
    Abreast u s e n lp (u.order cur).nextAtPrice m' := by
  have hd := h.underway.visited h0 hr hv
  rw [← h.next_eq hu h0]
  refine ⟨(h.underway.visit h0 hr hv).1,
    h.intact.advance hd.thins hd.others h0 (h.position h0).2 ?_⟩
  exact (h.underway.next h0).imp_right fun hn => hn.2.2

end Abreast

/-- What a level makes of a simulation and of the match it foretells. -/
inductive LevelSim (u s : InferenceOrderBook) (e : QueueEntry) (n lp : ℕ) (f : FokState)
    (m : MatchState) : Prop
  | refused : f.answer = some false → LevelSim u s e n lp f m
  | filled : m.halt = .none → m.remaining = 0 → Tally e m → LevelSim u s e n lp f m
  | swept : m.halt = .none → m.remaining ≠ 0 → Tally e m → Counts f m → f.scans = m.scans →
      Abreast u s e n lp 0 m → LevelSim u s e n lp f m

variable (now takerId) in
theorem fokLevel_sim (hu : u.toBook.Sound n) (scans : ℕ) (h : Abreast u s e n lp cur m)
    (hc : Counts f m) (ht : Tally e m) (hm : m.halt = .none) :
    LevelSim u s e n lp (fokLevel u now e lp scans cur f)
      (matchLevel now e takerId lp scans cur m) := by
  have hdone (scans cur : ℕ) (f : FokState) (m : MatchState) (h : Abreast u s e n lp cur m)
      (hc : Counts f m) (ht : Tally e m) (hm : m.halt = .none) (hend : cur = 0 ∨ m.remaining = 0) :
      LevelSim u s e n lp { f with scans := scans } { m with scans := scans } := by
    by_cases hr : m.remaining = 0
    · exact .filled hm hr ⟨ht.ticks, ht.paid⟩
    · obtain rfl := hend.resolve_right hr
      exact .swept hm hr ⟨ht.ticks, ht.paid⟩
        ⟨hc.remaining, hc.matched, hc.escrow, hc.unanswered⟩ rfl ⟨h.underway.ext, h.intact⟩
  induction scans generalizing cur f m with
  | zero =>
    have hiff : (cur = 0 ∨ f.remaining = 0) ↔ (cur = 0 ∨ m.remaining = 0) := by rw [hc.remaining]
    unfold fokLevel matchLevel
    by_cases hend : cur = 0 ∨ m.remaining = 0
    · rw [if_pos hend, if_pos (hiff.mpr hend)]
      exact hdone 0 cur f m h hc ht hm hend
    · rw [if_neg (hiff.not.mpr hend)]
      exact .refused rfl
  | succ scans ih =>
    by_cases hend : cur = 0 ∨ m.remaining = 0
    · have hend' : cur = 0 ∨ f.remaining = 0 := by rwa [hc.remaining]
      unfold fokLevel matchLevel
      rw [if_pos hend, if_pos hend']
      exact hdone (scans + 1) cur f m h hc ht hm hend
    · push Not at hend
      obtain ⟨h0, hr⟩ := hend
      by_cases hcap : m.matched < MAX_MATCHES_PER_CALL
      · rw [fokLevel_succ h0 (hc.remaining ▸ hr) (hc.matched ▸ hcap), matchLevel_succ h0 hr hcap,
          h.verdict_eq h0 hc hr, h.next_eq hu h0]
        cases hv : verdict now e (m.book.order cur) lp m.remaining m.leftover with
        | skip =>
          have hvisit : Visit now e takerId lp cur m m := .skip hv
          exact ih (h.visit hu h0 hr hvisit) hc ht hm
        | expired =>
          have hvisit : Visit now e takerId lp cur m _ := .expired hv
          obtain ⟨-, hf, h1, h2⟩ := hvisit.unfilled h.underway.sound (by simp [hv])
          refine ih (h.visit hu h0 hr hvisit) ?_ ?_ hm
          · exact ⟨hc.remaining, congrArg (· + 1) hc.matched, hc.escrow, hc.unanswered⟩
          · exact ⟨hf ▸ ht.ticks, hf ▸ ht.paid⟩
        | dust =>
          have hvisit : Visit now e takerId lp cur m _ := .dust hv
          obtain ⟨-, hf, h1, h2⟩ := hvisit.unfilled h.underway.sound (by simp [hv])
          refine ih (h.visit hu h0 hr hvisit) ?_ ?_ hm
          · exact ⟨hc.remaining, congrArg (· + 1) hc.matched, hc.escrow, hc.unanswered⟩
          · exact ⟨hf ▸ ht.ticks, hf ▸ ht.paid⟩
        | stop => exact .refused rfl
        | fill trade =>
          have hmeets := h.underway.meets h0 hr hv
          have hvisit : Visit now e takerId lp cur m _ := .fill trade hv
          dsimp only
          by_cases he : e.isBuy = true
          · rw [if_pos he]
            exact ih (h.visit hu h0 hr hvisit) (fillMaker_counts hmeets hc he)
              (fillMaker_tally takerId hmeets ht (.inl he)) hm
          · rw [if_neg he]
            by_cases hwhole : trade = m.remaining
            · have hzero : (fillMaker e takerId lp cur trade m).remaining = 0 := by
                simp [fillMaker, he]
              have htally := fillMaker_tally takerId hmeets ht (.inr hwhole)
              unfold matchLevel
              rw [if_pos (.inr hzero)]
              exact .filled hm hzero ⟨htally.ticks, htally.paid⟩
            · refine .refused (congrArg some (decide_eq_false ?_))
              have hle := hmeets.size.2.1
              change f.remaining - trade ≠ 0
              rw [hc.remaining]
              omega
      · unfold fokLevel
        rw [if_neg (by rw [hc.remaining]; push Not; exact ⟨h0, hr⟩)]
        dsimp only
        rw [if_pos (hc.matched ▸ not_lt.mp hcap)]
        exact .refused rfl

/-- A match that has filled its taker. -/
structure Filled (e : QueueEntry) (m : MatchState) : Prop where
  halt : m.halt = .none
  remaining : m.remaining = 0
  tally : Tally e m

theorem fokLevels_stop (left : ℕ) (it : Option (ℕ × PriceLevel))
    (h : ∀ lp l, it = some (lp, l) → ¬ reaches e lp) (hok : fokLevels u now e left it f = true) :
    f.remaining = 0 := by
  cases left with
  | zero => cases hok
  | succ =>
    cases it with
    | none => exact of_decide_eq_true hok
    | some p =>
      unfold fokLevels at hok
      rw [if_pos (.inr (h p.1 p.2 rfl))] at hok
      exact of_decide_eq_true hok

theorem fokLevels_sim (hu : u.toBook.Sound n) (left fuel : ℕ) (l l' : PriceLevel)
    (h : Abreast u s e n lp (u.level (!e.isBuy) lp).firstOrderId m)
    (hfirst : (m.book.level (!e.isBuy) lp).firstOrderId = (u.level (!e.isBuy) lp).firstOrderId)
    (hc : Counts f m) (hs : f.scans = m.scans) (ht : Tally e m) (hm : m.halt = .none)
    (hr : m.remaining ≠ 0) (hfuel : (u.levels (!e.isBuy)).behind e.isBuy lp < fuel)
    (hok : fokLevels u now e left (some (lp, l)) f = true) :
    Filled e (matchLevels now e takerId fuel 0 (some (lp, l')) m) := by
  induction fuel generalizing left lp l l' f m with
  | zero => exact absurd hfuel (Nat.not_lt_zero _)
  | succ fuel ih =>
    cases left with
    | zero => cases hok
    | succ left =>
      have hlp := h.underway.reached
      have hgo : ¬ (m.remaining = 0 ∨
          ¬ crosses e.isBuy e.price (has e.flags FLAG_MARKET) lp = true) := by
        rw [not_or, not_not]
        exact ⟨hr, hlp⟩
      unfold fokLevels at hok
      unfold matchLevels
      rw [hc.remaining, if_neg hgo, hs] at hok
      rw [if_neg hgo]
      simp only [ne_eq, not_true_eq_false, if_false, hfirst]
      have hsim := fokLevel_sim now takerId hu m.scans h hc ht hm
      generalize fokLevel u now e lp m.scans (u.level (!e.isBuy) lp).firstOrderId f = f' at hok hsim
      generalize matchLevel now e takerId lp m.scans (u.level (!e.isBuy) lp).firstOrderId m = m'
        at hsim ⊢
      cases hsim with
      | refused ha =>
        dsimp only at hok
        rw [ha] at hok
        cases hok
      | filled hm' hr' ht' =>
        rw [if_pos hm', matchLevels_stop _ _ _ _ (.inl hr')]
        exact ⟨hm', hr', ht'⟩
      | swept hm' hr' ht' hc' hs' h' =>
        rw [if_pos hm']
        dsimp only at hok
        rw [hc'.unanswered] at hok
        dsimp only at hok
        split_ifs at hok with hleft
        have hnext := h'.intact.nextOpposite hu h'.underway.sound
        by_cases hstop : ∀ x l, u.nextOpposite e.isBuy lp = some (x, l) → ¬ reaches e x
        · exact absurd (hc'.remaining.symm.trans (fokLevels_stop left _ hstop hok)) hr'
        · push Not at hstop
          obtain ⟨x, lx, hx, hreach⟩ := hstop
          rw [hx] at hok hnext
          obtain ⟨⟨x', lx'⟩, hx', hfst⟩ := Option.map_eq_some_iff.mp hnext
          obtain rfl : x' = x := hfst
          rw [hx']
          rw [nextOpposite_eq] at hx
          have hahead := (Dict.after?_some hx).2.1
          have hf := h'.intact.first hu h'.underway.sound hahead
          refine ih left lx lx' ⟨?_, h'.intact.enter hahead⟩ hf hc' hs' ht' hm' hr' ?_ hok
          · exact hf ▸ h'.underway.enter hreach
          · exact Nat.lt_of_lt_of_le (Dict.behind_after hx) (Nat.le_of_lt_succ hfuel)

variable (takerId) in
/-- What the pre-check finds fillable, the match fills. -/
theorem fok_filled (hs : s.toBook.Sound n) (hb : Backed e e.amount e.escrow) (hc : Clean s)
    (h0 : e.amount ≠ 0) (hf : s.fills = []) (hbook : u.toBook = s.toBook)
    (hok : u.fokFullyFillable now e = true) :
    Filled e (s.matchOrder now e takerId e.amount e.escrow 0) := by
  have hstart : s.resumePoint e 0 = 0 := if_neg fun h => h.1 rfl
  unfold matchOrder
  dsimp only
  rw [hstart]
  unfold fokFullyFillable at hok
  rw [hbook] at hok
  unfold startLevel
  rw [if_neg (by simp)]
  by_cases hstop : ∀ lp l, s.bestOpposite e.isBuy = some (lp, l) → ¬ reaches e lp
  · exact absurd (fokLevels_stop _ _ hstop hok) h0
  · push Not at hstop
    obtain ⟨lp, l, hbest, hreach⟩ := hstop
    rw [hbest] at hok ⊢
    have hstarts : Starts s e (s.resumePoint e 0) lp := by
      refine startLevel_starts (l := l) hs ?_
      rw [hstart]
      exact hbest
    have hunder := hstarts.underway hs hb hc hreach
    rw [hstart] at hunder
    have hfirst : (u.level (!e.isBuy) lp).firstOrderId =
        (s.level (!e.isBuy) lp).firstOrderId := by rw [hbook]
    refine fokLevels_sim (u := u) (s := s) (n := n) (hbook ▸ hs) MAX_PRECHECK_LEVELS _ l l
      ⟨?_, ?_⟩ hfirst.symm ⟨rfl, rfl, fun _ => rfl, rfl⟩ rfl ⟨?_, fun _ => ?_⟩ rfl h0 ?_ hok
    · rw [hfirst]
      exact hunder
    · rw [hbook]
      exact .refl _ _ _ _
    · simp [hf]
    · simp [hf]
    · rw [hbook]
      exact Nat.lt_succ_of_le Dict.behind_le_length

end Simulation

section Orders

variable {now modelHash reason : ℕ} {e : QueueEntry} {s t u : InferenceOrderBook} {i : Input}
  {rest : List QueueEntry} {tr : List (Input × InferenceOrderBook)}

/-- The match call of a new entry. -/
def firstMatch (u : InferenceOrderBook) (now : ℕ) (e : QueueEntry) : MatchState :=
  (u.openOrder e).matchOrder now e u.nextOrderId e.amount e.escrow 0

/-- The book is `u` again, and a bid has its whole escrow back, an offer its latch. -/
structure Returned (u t : InferenceOrderBook) (e : QueueEntry) (reason : ℕ) : Prop where
  book : t.toBook = u.toBook
  nextOrderId : t.nextOrderId = u.nextOrderId
  fills : t.fills = u.fills
  bid : e.isBuy = true →
    .note e.owner (.onInferenceRejected e.clientOrderId reason e.escrow) ∈ t.actions
  offer : e.isBuy = false → .deal e.tokenContract .onSellClosed ∈ t.actions

theorem refuse_returned (htc : e.isBuy = false → e.tokenContract ≠ noAddr)
    (h : Requeued (u.refuse e reason (if e.isBuy then e.escrow else 0)) t) :
    Returned u t e reason := by
  have q := u.quiet_refuse e reason (if e.isBuy then e.escrow else 0)
  refine ⟨h.book.trans (refuse_toBook _ _ _ _), h.nextOrderId.trans q.nextOrderId,
    h.fills.trans q.fills, fun he => h.actions.subset ?_, fun he => h.actions.subset ?_⟩
  · simp [refuse, he, emit, toNote, act]
  · simp [refuse, he, closeSell, htc he, emit, toNote, toDeal, act]

/-- The turn of a book whose head is a new FOK order. -/
theorem Turn.fok (h : Ready s) (hl : s.toQueue.list = e :: rest) (hk : e.entryType = .place)
    (h0 : e.contOrderId = 0) (hf : has e.flags FLAG_FOK = true) (hnone : s.fills = [])
    (ht : Turn now s t) : t.toQueue.list = rest ∧
      (isExpired now e.deadline = true → Returned s t e PLACE_REJ_EXPIRED) ∧
      (isExpired now e.deadline = false → s.fokFullyFillable now e = false →
        Returned s t e PLACE_REJ_FOK) ∧
      (isExpired now e.deadline = false → s.fokFullyFillable now e = true →
        Filled e (firstMatch s now e) ∧ Clean (firstMatch s now e).book ∧
          t.toBook = (firstMatch s now e).book.toBook ∧
          t.fills = (firstMatch s now e).book.fills) := by
  obtain ⟨hrun, hrest⟩ := h.phase.runnable hl
  have hsound := hrun.sound
  have hfresh : e.Fresh := by
    cases hrun with
    | first hf => exact hf
    | again hc => exact absurd h0 hc.first
  have hpassive : has e.flags FLAG_POST_ONLY = false := by
    by_contra hp
    have hmaker := hfresh.maker hk (by simpa using hp)
    have hnone : has e.flags FLAG_FOK = false := no_taker_flag hmaker (by decide)
    rw [hf] at hnone
    cases hnone
  cases ht with
  | idle h1 =>
    rw [h1] at hl
    cases hl
  | shed e' rest' v hl' hk' =>
    obtain ⟨rfl, rfl⟩ := List.cons.inj (hl.symm.trans hl')
    exact absurd hk hk'
  | placed e' rest' r hl' _ hr hp hh hq hlist =>
    obtain ⟨rfl, rfl⟩ := List.cons.inj (hl.symm.trans hl')
    cases hp with
    | refused reason hfirst hwhy =>
      have hret := refuse_returned (hfresh.latch hk) hq
      refine ⟨hlist, ?_⟩
      cases hwhy with
      | expired hx =>
        refine ⟨fun _ => hret, fun hx' => ?_, fun hx' => ?_⟩
        · rw [hx] at hx'
          cases hx'
        · rw [hx] at hx'
          cases hx'
      | postOnly _ hp =>
        rw [hpassive] at hp
        cases hp
      | fok hx _ hfill =>
        refine ⟨fun hx' => ?_, fun _ _ => hret, fun _ hfill' => ?_⟩
        · rw [hx] at hx'
          cases hx'
        · rw [hfill] at hfill'
          cases hfill'
    | lapsed hfirst => exact absurd h0 hfirst
    | resumed hfirst => exact absurd h0 hfirst
    | opened hfirst hx _ hfill =>
      have hfill := hfill hf
      have hsound' : (s.openOrder e).toBook.Sound s.nextOrderId := hsound
      have hclean : Clean (s.openOrder e) := h.clean.of_eq rfl rfl
      have hbacked := hfresh.backed hk
      have hm := fok_filled s.nextOrderId (u := s) hsound' hbacked hclean
        (by have := hfresh.amount hk; omega) hnone rfl hfill
      have hmatched := matchOrder_matched now s.nextOrderId 0 hsound' hbacked hclean
      rw [matchPhase_final (by rw [hm.halt]; simp)] at hq hlist
      refine ⟨hlist, fun hx' => ?_, fun _ hno => ?_, fun _ _ => ⟨hm, hmatched.clean, ?_, ?_⟩⟩
      · rw [hx] at hx'
        cases hx'
      · rw [hfill] at hno
        cases hno
      · rw [hq.book, finalizeTaker_toBook, if_neg]
        · rfl
        · rw [hm.remaining]
          simp
      · exact hq.fills.trans (quiet_finalizeTaker _ _ _ _ _ _).fills

end Orders

section Runs

variable {modelHash : ℕ} {e : QueueEntry} {s t u : InferenceOrderBook} {i : Input}
  {rest : List QueueEntry} {tr : List (Input × InferenceOrderBook)}

/-- The pre-check of a FOK order foretells its match. If it answers yes, the match of the same
transaction settles the whole amount within the escrow, is not capped, and leaves nothing; if it
answers no, the book is unchanged and all is given back, and so it is after the deadline. -/
theorem fok_all_or_nothing (h : Run step (init modelHash) tr s) (hi : Runs s i u t)
    (hl : u.toQueue.list = e :: rest) (hk : e.entryType = .place) (h0 : e.contOrderId = 0)
    (hf : has e.flags FLAG_FOK = true) : t.toQueue.list = rest ∧
      (isExpired i.now e.deadline = true → Returned u t e PLACE_REJ_EXPIRED) ∧
      (isExpired i.now e.deadline = false → u.fokFullyFillable i.now e = false →
        Returned u t e PLACE_REJ_FOK) ∧
      (isExpired i.now e.deadline = false → u.fokFullyFillable i.now e = true →
        Filled e (firstMatch u i.now e) ∧ (∀ f ∈ (firstMatch u i.now e).book.fills, f.Exact) ∧
          t.toBook = (firstMatch u i.now e).book.toBook ∧
          t.fills = (firstMatch u i.now e).book.fills) := by
  have hr := run_ready h
  have hru := hi.queues.ready (hr.begin i.now)
  have hturn := (hru.turn i.now).2
  rw [← hi.run] at hturn
  obtain ⟨h1, h2, h3, h4⟩ := hturn.fok hru hl hk h0 hf hi.queues.fills.1
  refine ⟨h1, h2, h3, fun hx hfill => ?_⟩
  obtain ⟨hm, hc, hb, hfills⟩ := h4 hx hfill
  exact ⟨hm, hc.fills, hb, hfills⟩

/-- A FOK bid of ten ticks takes the offer. -/
theorem fok_all_or_nothing_sample :
    ∃ t, (bookAfter [offerCall]).step (bidCall 10 0x02) = some t ∧
      (t.fills.map Fill.trade).sum = 10 := by
  obtain ⟨t, ht⟩ := Option.isSome_iff_exists.mp
    (show ((bookAfter [offerCall]).step (bidCall 10 0x02)).isSome = true by decide +kernel)
  have hl : (((bookAfter [offerCall]).begin 6).enqueue (bidEntry 10 0x02)).toQueue.list =
      [bidEntry 10 0x02] := by decide +kernel
  obtain ⟨-, -, -, h⟩ := fok_all_or_nothing (Run.trace_run step (init 7) [offerCall])
    (placeBuyOrder_runs ht) hl rfl rfl (by decide)
  obtain ⟨hm, -, -, hfills⟩ := h (by decide) (by decide +kernel)
  refine ⟨t, ht, ?_⟩
  rw [hfills]
  have hticks := hm.tally.ticks
  rw [hm.remaining] at hticks
  exact hticks

end Runs

end Dexdo.InferenceOrderBook
