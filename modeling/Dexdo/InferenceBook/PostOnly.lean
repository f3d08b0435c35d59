import Dexdo.InferenceBook.Past

namespace Dexdo.InferenceOrderBook

/-- Taker `e`, with `remaining` ticks to go, could trade with no order it reaches. -/
def Clear (now : ℕ) (e : QueueEntry) (remaining : ℕ) (b : Book) : Prop :=
  ∀ i, b.Opposite e.isBuy i → reaches e (b.core i).price → barred now e remaining (b.core i)

section Clear

variable {now now' remaining n : ℕ} {e : QueueEntry} {b c : Book}

theorem Clear.later (h : Clear now e remaining b) (hn : now ≤ now') : Clear now' e remaining b :=
  fun i hi hr => (h i hi hr).later hn

theorem Clear.sheds (h : Clear now e remaining b) (hs : b.Sheds c) : Clear now e remaining c := by
  intro i hi hr
  obtain ⟨h1, h2⟩ := hs i hi.1
  have h3 := hi.2
  rw [h2] at h3 hr ⊢
  exact h i ⟨h1, h3⟩ hr

end Clear

section Precheck

variable {now n lp : ℕ} {s : InferenceOrderBook} {e : QueueEntry}

/-- Every order before `cur` is barred. -/
def BarredTo (s : InferenceOrderBook) (now : ℕ) (e : QueueEntry) (lp cur : ℕ) : Prop :=
  ∀ i, s.Opposite e.isBuy i → s.Past e.isBuy lp cur i → barred now e e.amount (s.core i)

theorem crossLevel_barred (h : s.toBook.Sound n) (scans cur : ℕ) {scans' : ℕ}
    (hp : cur = 0 ∨ (s.Stored cur ∧ s.key cur = (!e.isBuy, lp))) (hb : BarredTo s now e lp cur)
    (hc : crossLevel s now e scans cur = some scans') : BarredTo s now e lp 0 := by
  induction scans generalizing cur with
  | zero =>
    unfold crossLevel at hc
    split_ifs at hc with h0
    exact h0 ▸ hb
  | succ scans ih =>
    unfold crossLevel at hc
    by_cases h0 : cur = 0
    · exact h0 ▸ hb
    · rw [if_neg h0] at hc
      dsimp only at hc
      by_cases h1 : scans = 0
      · rw [if_pos h1] at hc
        cases hc
      by_cases h2 : crossesMaker now e (s.order cur) = true
      · rw [if_neg h1, if_pos h2] at hc
        cases hc
      rw [if_neg h1, if_neg h2] at hc
      obtain ⟨hs, hk⟩ := hp.resolve_left h0
      refine ih _ (next_position h hs hk) (fun i hi hpast => ?_) hc
      rcases past_next h hs hk hi hpast with hpast | rfl
      · exact hb i hi hpast
      · exact Bool.eq_false_iff.mpr h2

/-- A pre-check that finds no cross has met every order the taker reaches. -/
theorem crossLevels_clear (h : s.toBook.Sound n) (hm : has e.flags FLAG_MARKET = false)
    (left scans : ℕ) (l : PriceLevel)
    (hb : BarredTo s now e lp (s.level (!e.isBuy) lp).firstOrderId)
    (hc : crossLevels s now e left scans (some (lp, l)) = false) :
    Clear now e e.amount s.toBook := by
  induction left generalizing scans lp l with
  | zero =>
    unfold crossLevels at hc
    cases hc
  | succ left ih =>
    unfold crossLevels at hc
    by_cases hr : reaches e lp
    · rw [if_neg (by unfold reaches at hr; rw [hm] at hr; simp [hr])] at hc
      cases hl : crossLevel s now e scans (s.level (!e.isBuy) lp).firstOrderId with
      | none =>
        rw [hl] at hc
        cases hc
      | some scans' =>
        rw [hl] at hc
        dsimp only at hc
        have h0 := crossLevel_barred h scans _ (first_position h _ _) hb hl
        split_ifs at hc
        by_cases hx : ∀ x l, s.nextOpposite e.isBuy lp = some (x, l) → ¬ reaches e x
        · exact fun i hi hri => h0 i hi (past_all h hx hi hri)
        · push Not at hx
          obtain ⟨x, l', hn, -⟩ := hx
          rw [hn] at hc
          exact ih scans' l' (fun i hi hp => h0 i hi (past_enter h hn hi hp)) hc
    · intro i hi hri
      refine hb i hi (.inl ?_)
      rcases ahead_trichotomy e.isBuy (s.core i).price lp with h1 | h1 | h1
      · exact h1
      · exact absurd (h1 ▸ hri) hr
      · exact absurd (reaches_ahead hri h1) hr

theorem executableCrosses_clear (h : s.toBook.Sound n) (hm : has e.flags FLAG_MARKET = false)
    (hc : s.executableCrosses now e = false) : Clear now e e.amount s.toBook := by
  unfold executableCrosses at hc
  rw [bestOpposite_eq] at hc
  cases hb : (s.levels (!e.isBuy)).best? e.isBuy with
  | none =>
    intro i hi hr
    have hk := opposite_key h hi
    rw [Dict.best?_none hb] at hk
    cases hk
  | some p =>
    obtain ⟨lp, l⟩ := p
    rw [hb] at hc
    refine crossLevels_clear h hm _ _ l (fun i hi hp => ?_) hc
    exact absurd hp (not_past_first h (Dict.best?_some hb).2 hi)

end Precheck

section Match

variable {now takerId lp cur n resume : ℕ} {e : QueueEntry} {m m' : MatchState}
  {s t : InferenceOrderBook}

/-- A match of a taker that can trade with no order it reaches. -/
structure Untaken (now : ℕ) (s : InferenceOrderBook) (e : QueueEntry) (n : ℕ) (m : MatchState) :
    Prop where
  matched : Matched s e n m
  remaining : m.remaining = e.amount
  leftover : m.leftover = e.escrow
  fills : m.book.fills = s.fills
  clear : Clear now e e.amount m.book.toBook

variable (now takerId resume) in
theorem matchOrder_untaken (hs : s.toBook.Sound n) (hb : Backed e e.amount e.escrow)
    (h2 : 2 ≤ e.amount) (hm : has e.flags FLAG_MARKET = false) (hc : Clean s)
    (hclear : Clear now e e.amount s.toBook) :
    Untaken now s e n (s.matchOrder now e takerId e.amount e.escrow resume) := by
  have hmatched := matchOrder_matched now takerId resume hs hb hc
  let I : ℕ → ℕ → MatchState → Prop := fun lp cur m => Underway s e n lp cur m ∧
    m.remaining = e.amount ∧ m.leftover = e.escrow ∧ m.book.fills = s.fills ∧
      Clear now e e.amount m.book.toBook
  have hvisit (lp cur : ℕ) (m m' : MatchState) (hc : cur ≠ 0) (h0 : m.remaining ≠ 0)
      (h : I lp cur m) (hv : Visit now e takerId lp cur m m') :
      I lp (m.book.order cur).nextAtPrice m' ∧ levelsBehind e lp m' ≤ levelsBehind e lp m := by
    obtain ⟨hu, hr, hl, hf, hcl⟩ := h
    have hbar : barred now e m.remaining (m.book.order cur) := by
      rw [hr]
      refine hcl cur ⟨hu.stored hc, hu.isBuy hc⟩ ?_
      rw [show (m.book.core cur).price = lp from hu.price hc]
      exact hu.reached
    have hno := (verdict_barred hu.backed (hr ▸ h2) hm (hu.covered hc) (hu.isBuy hc)
      (hu.price hc) hu.reached hbar).1
    obtain ⟨hsh, hf', hr', hl'⟩ := hv.unfilled hu.sound hno
    obtain ⟨h1, h3⟩ := hu.visit hc h0 hv
    exact ⟨⟨h1, hr'.trans hr, hl'.trans hl, hf'.trans hf, hcl.sheds hsh⟩, h3⟩
  have h := matchOrder_rule now takerId resume (I := I) hs
    (fun _ _ _ _ _ h => ⟨h.1.ext, h.2⟩) hvisit (fun _ _ _ _ h _ _ hx => ⟨h.1.enter hx, h.2⟩)
    fun lp h hr => ⟨h.underway hs hb hc hr, rfl, rfl, rfl, hclear⟩
  rcases h with h | ⟨h, -⟩
  · obtain ⟨lp, cur, -, h1, h2, h3, h4⟩ := h.holds
    exact ⟨hmatched, h1, h2, h3, h4⟩
  · rw [h] at hmatched ⊢
    exact ⟨hmatched, rfl, rfl, rfl, hclear⟩

end Match

section Orders

variable {now orderId resume : ℕ} {e : QueueEntry} {s t u v : InferenceOrderBook}
  {rest : List QueueEntry}

/-- Entry `e` at the head, its match under way as order `orderId`, and nothing of it taken. -/
def heldEntry (e : QueueEntry) (orderId cur : ℕ) : QueueEntry :=
  { e with
    contOrderId := orderId
    contRemaining := e.amount
    contLeftover := e.escrow
    contScanOrder := cur }

/-- The order of entry `e` waits at the head for its match to go on, whole. -/
def Held (e : QueueEntry) (orderId : ℕ) (s : InferenceOrderBook) : Prop :=
  ∃ cur rest, s.toQueue.list = heldEntry e orderId cur :: rest

/-- Where an order stands once its entry has been run: nothing of it is taken. -/
inductive Whole (e : QueueEntry) (orderId now : ℕ) (s : InferenceOrderBook) : Prop
  | held : Held e orderId s → Whole e orderId now s
  | rests : s.Stored orderId → s.core orderId = restingOrder now e e.amount e.escrow →
      Whole e orderId now s
  | lapsed : isExpired now e.deadline = true → Whole e orderId now s

variable (now resume) in
/-- A match that takes nothing puts the whole order to rest, or goes on with the whole of it. -/
theorem matchPhase_whole (hs : s.toBook.Sound orderId) (hb : Backed e e.amount e.escrow)
    (h2 : 2 ≤ e.amount) (hf : has e.flags TAKER_FLAGS = false) (hc : Clean s)
    (hclear : Clear now e e.amount s.toBook) :
    let r := s.matchPhase now e orderId e.amount e.escrow resume
    r.1.fills = s.fills ∧
      (r.2 = none → r.1.Stored orderId ∧
        r.1.core orderId = restingOrder now e e.amount e.escrow) ∧
      ∀ e', r.2 = some e' →
        Clear now e e.amount r.1.toBook ∧ ∃ cur, e' = heldEntry e orderId cur := by
  have h := matchOrder_untaken now orderId resume hs hb h2 (no_taker_flag hf (by decide)) hc hclear
  by_cases hh : ∃ cur, (s.matchOrder now e orderId e.amount e.escrow resume).halt = .capped cur
  · obtain ⟨cur, hh⟩ := hh
    rw [matchPhase_capped hh]
    refine ⟨h.fills, fun hn => ?_, fun e' he' => ⟨h.clear, cur, ?_⟩⟩
    · cases hn
    · rw [← Option.some.inj he', continued, h.remaining, h.leftover]
      rfl
  · push Not at hh
    rw [matchPhase_final hh]
    generalize s.matchOrder now e orderId e.amount e.escrow resume = m at h ⊢
    have q := quiet_finalizeTaker m.book orderId now e m.remaining m.leftover
    refine ⟨q.fills.trans h.fills, fun _ => ?_, fun e' he' => ?_⟩
    · have hnew : ¬ m.book.Stored orderId := by
        intro hst
        obtain ⟨A, r⟩ := h.matched.sound.rep
        exact absurd (r.bound _ hst).2.1 (lt_irrefl _)
      have hrest : (if e.isBuy then 2 ≤ m.remaining else 0 < m.remaining) ∧
          takerOnly e.flags = false := by
        refine ⟨?_, not_takerOnly hf⟩
        rw [h.remaining]
        split_ifs <;> omega
      have hbook := finalizeTaker_toBook m.book orderId now e m.remaining m.leftover
      rw [if_pos hrest, h.remaining, h.leftover] at hbook
      obtain ⟨h1, h3⟩ := h.matched.sound.inserted hnew (restingOrder now e e.amount e.escrow)
      rw [h.remaining, h.leftover, hbook, h3, if_pos rfl]
      exact ⟨(h1 orderId).mpr (.inl rfl), rfl⟩
    · cases he'

/-- An accepted POST_ONLY entry. -/
structure Passive (e : QueueEntry) : Prop where
  kind : e.entryType = .place
  amount : 2 ≤ e.amount
  maker : has e.flags TAKER_FLAGS = false
  backed : Backed e e.amount e.escrow

/-- What is known of an order whose entry has been run: it is still at the head, and nothing it
reaches could trade with it, or its id is not that of the head. -/
structure Tracked (e : QueueEntry) (orderId : ℕ) (s : InferenceOrderBook) : Prop where
  ids : 0 < orderId ∧ orderId < s.nextOrderId
  phase : (Held e orderId s ∧ Clear s.clock e e.amount s.toBook) ∨
    ∀ x rest, s.toQueue.list = x :: rest → x.contOrderId ≠ orderId

theorem matchPhase_some {amount escrow : ℕ} {e' : QueueEntry}
    (h : (s.matchPhase now e orderId amount escrow resume).2 = some e') :
    e'.contOrderId = orderId := by
  by_cases hh : ∃ cur, (s.matchOrder now e orderId amount escrow resume).halt = .capped cur
  · obtain ⟨cur, hh⟩ := hh
    rw [matchPhase_capped hh] at h
    cases h
    rfl
  · push Not at hh
    rw [matchPhase_final hh] at h
    cases h

/-- The run of a whole order leaves it whole. -/
theorem whole_after {r : InferenceOrderBook × Option QueueEntry}
    (hw : r.1.fills = s.fills ∧ (r.2 = none → r.1.Stored orderId ∧
      r.1.core orderId = restingOrder now e e.amount e.escrow) ∧
      ∀ e', r.2 = some e' →
        Clear now e e.amount r.1.toBook ∧ ∃ cur, e' = heldEntry e orderId cur)
    (hclock : r.1.clock = now) (ht : Requeued r.1 t) (hl : t.toQueue.list = r.2.toList ++ rest)
    (hrest : ∀ x ∈ rest, x.Fresh) (hid : 0 < orderId ∧ orderId < t.nextOrderId) :
    t.fills = s.fills ∧ Whole e orderId now t ∧ Tracked e orderId t := by
  obtain ⟨hf, hnone, hsome⟩ := hw
  cases hr : r.2 with
  | none =>
    rw [hr] at hl
    obtain ⟨h1, h2⟩ := hnone hr
    refine ⟨ht.fills.trans hf, .rests ?_ ?_, hid, .inr fun x rest' hx => ?_⟩
    · rw [ht.book]
      exact h1
    · rw [ht.book]
      exact h2
    · have hx : x ∈ rest := by
        rw [show rest = x :: rest' from hl.symm.trans hx]
        exact List.mem_cons_self
      rw [(hrest x hx).first]
      exact hid.1.ne
  | some e' =>
    rw [hr] at hl
    obtain ⟨h1, cur, rfl⟩ := hsome e' hr
    have hheld : Held e orderId t := ⟨cur, rest, hl⟩
    refine ⟨ht.fills.trans hf, .held hheld, hid, .inl ⟨hheld, ?_⟩⟩
    rw [ht.clock, hclock, ht.book]
    exact h1

/-- The first run of a POST_ONLY entry that the pre-check lets pass. -/
theorem Turn.first (h : Ready s) (he : Passive e) (hl : s.toQueue.list = e :: rest)
    (h0 : e.contOrderId = 0) (hc : s.executableCrosses now e = false) (hclock : s.clock = now)
    (ht : Turn now s t) : t.fills = s.fills ∧ Whole e s.nextOrderId now t ∧
      (isExpired now e.deadline = false → Tracked e s.nextOrderId t) := by
  obtain ⟨hrun, hrest⟩ := h.phase.runnable hl
  have hsound := hrun.sound
  cases ht with
  | idle h1 =>
    rw [h1] at hl
    cases hl
  | shed e' rest' v hl' hk =>
    obtain ⟨rfl, rfl⟩ := List.cons.inj (hl.symm.trans hl')
    exact absurd he.kind hk
  | placed e' rest' r hl' hk hr hp hh hq hlist =>
    obtain ⟨rfl, rfl⟩ := List.cons.inj (hl.symm.trans hl')
    cases hp with
    | refused reason hfirst hwhy =>
      have hx : isExpired now e.deadline = true := by
        cases hwhy with
        | expired hx => exact hx
        | postOnly _ _ hx =>
          rw [hc] at hx
          cases hx
        | fok _ hx =>
          rw [no_taker_flag he.maker (by decide)] at hx
          cases hx
      refine ⟨hq.fills.trans (s.quiet_refuse e _ _).fills, .lapsed hx, fun hx' => ?_⟩
      rw [hx] at hx'
      cases hx'
    | lapsed hfirst => exact absurd h0 hfirst
    | opened =>
      have hm : has e.flags FLAG_MARKET = false := no_taker_flag he.maker (by decide)
      have hclear := executableCrosses_clear hsound hm hc
      have hopen : (s.openOrder e).toBook.Sound s.nextOrderId := hsound
      have hclean : (s.openOrder e).Clean := h.clean.of_eq rfl rfl
      have hw := matchPhase_whole now 0 hopen he.backed he.amount he.maker hclean hclear
      have hids := (matchPhase_handled now 0 hopen h.ids rfl he.kind he.backed hclean).ids
      obtain ⟨h1, h2, h3⟩ := whole_after hw (hh.clock.trans hclock) hq hlist hrest
        ⟨h.ids, hq.nextOrderId ▸ hids⟩
      exact ⟨h1, h2, fun _ => h3⟩
    | resumed hfirst => exact absurd h0 hfirst

/-- Every later run of the queue. -/
theorem Turn.tracked (h : Ready s) (he : Passive e) (hT : Tracked e orderId s)
    (hclock : s.clock = now) (ht : Turn now s t) : Tracked e orderId t ∧
      (Held e orderId s → t.fills = s.fills ∧ Whole e orderId now t) := by
  have hfresh (x : QueueEntry) (hx : x.Fresh) : x.contOrderId ≠ orderId := by
    rw [hx.first]
    exact hT.ids.1.ne
  cases ht with
  | idle h1 h2 =>
    subst h2
    refine ⟨hT, fun hheld => ?_⟩
    obtain ⟨cur, rest, hl⟩ := hheld
    rw [h1] at hl
    cases hl
  | shed e' rest v hl hk hf hd hv hl' =>
    obtain ⟨hrun, hrest⟩ := h.phase.runnable hl
    refine ⟨⟨⟨hT.ids.1, ?_⟩, .inr fun x rest' hx => ?_⟩, fun hheld => ?_⟩
    · rw [hv.nextOrderId, hd.quiet.nextOrderId]
      exact hT.ids.2
    · rcases hl' with hl' | hl'
      · apply hfresh x (hrest x _)
        rw [show rest = x :: rest' from hl'.symm.trans hx]
        exact List.mem_cons_self
      · obtain ⟨rfl, -⟩ := List.cons.inj (hl'.symm.trans hx)
        exact hfresh _ hf
    · obtain ⟨cur, rest', hl'⟩ := hheld
      obtain ⟨rfl, -⟩ := List.cons.inj (hl.symm.trans hl')
      exact absurd he.kind hk
  | placed e' rest r hl hk hrun hp hh hq hlist =>
    have hrest := (h.phase.runnable hl).2
    have hids : orderId < t.nextOrderId := by
      rw [hq.nextOrderId]
      exact hT.ids.2.trans_le hh.ids
    rcases hT.phase with ⟨⟨cur, rest', hl'⟩, hclear⟩ | hne
    · obtain ⟨rfl, rfl⟩ := List.cons.inj (hl'.symm.trans hl)
      rw [hclock] at hclear
      cases hp with
      | refused reason hfirst => exact absurd hfirst hT.ids.1.ne'
      | lapsed hfirst hx =>
        have hx : isExpired now e.deadline = true := hx
        refine ⟨⟨⟨hT.ids.1, hids⟩, .inr fun x rest'' hx' => ?_⟩, fun _ => ⟨?_, .lapsed hx⟩⟩
        · apply hfresh x (hrest x _)
          rw [show rest' = x :: rest'' from hlist.symm.trans hx']
          exact List.mem_cons_self
        · exact hq.fills.trans (s.quiet_expireTaker _ _).fills
      | opened hfirst => exact absurd hfirst hT.ids.1.ne'
      | resumed hfirst =>
        cases hrun with
        | first hf => exact absurd hf.first hfirst
        | again hcont hsound =>
          have hw := matchPhase_whole now cur hsound hcont.backed he.amount he.maker h.clean hclear
          obtain ⟨h1, h2, h3⟩ := whole_after (e := e) hw (hh.clock.trans hclock) hq hlist hrest
            ⟨hT.ids.1, hids⟩
          exact ⟨h3, fun _ => ⟨h1, h2⟩⟩
    · refine ⟨⟨⟨hT.ids.1, hids⟩, .inr fun x rest' hx => ?_⟩, fun hheld => ?_⟩
      · cases hr : r.2 with
        | none =>
          rw [hr] at hlist
          apply hfresh x (hrest x _)
          rw [show rest = x :: rest' from hlist.symm.trans hx]
          exact List.mem_cons_self
        | some e'' =>
          rw [hr] at hlist
          obtain ⟨rfl, -⟩ := List.cons.inj (hlist.symm.trans hx)
          cases hp with
          | refused => cases hr
          | lapsed => cases hr
          | opened =>
            rw [matchPhase_some hr]
            exact hT.ids.2.ne'
          | resumed =>
            rw [matchPhase_some hr]
            exact hne _ _ hl
      · obtain ⟨cur, rest', hl'⟩ := hheld
        exact absurd rfl (hne _ _ hl')

end Orders

section Runs

variable {orderId modelHash : ℕ} {e : QueueEntry} {s t u v : InferenceOrderBook} {i : Input}
  {rest : List QueueEntry} {tr tr' : List (Input × InferenceOrderBook)}

theorem Queues.tracked (h : Queues s u) (hr : Ready s) (hT : Tracked e orderId s) :
    Tracked e orderId u ∧ (Held e orderId s → Held e orderId u) := by
  cases h with
  | nothing => exact ⟨hT, id⟩
  | entry x hx hq =>
    obtain ⟨-, hl⟩ := enqueue_list hr.queue hq x
    have hheld (h : Held e orderId s) : Held e orderId (s.enqueue x) := by
      obtain ⟨cur, rest, hc⟩ := h
      refine ⟨cur, rest ++ [x], ?_⟩
      rw [hl, hc, List.cons_append]
    refine ⟨⟨hT.ids, ?_⟩, hheld⟩
    refine hT.phase.imp (fun h => ⟨hheld h.1, h.2⟩) fun h y rest hy => ?_
    rw [hl] at hy
    cases hs : s.toQueue.list with
    | nil =>
      rw [hs] at hy
      obtain ⟨rfl, -⟩ := List.cons.inj hy
      rw [hx.first]
      exact hT.ids.1.ne
    | cons z zs =>
      rw [hs] at hy
      obtain ⟨rfl, -⟩ := List.cons.inj hy
      exact h z zs hs

theorem Tracked.begin (hT : Tracked e orderId s) {now : ℕ} (hn : s.clock ≤ now) :
    Tracked e orderId (s.begin now) :=
  ⟨hT.ids, hT.phase.imp_left fun h => ⟨h.1, h.2.later hn⟩⟩

theorem step_tracked (hr : Ready s) (he : Passive e) (hT : Tracked e orderId s)
    (h : s.step i = some t) : Tracked e orderId t ∧
      (Held e orderId s → t.fills = [] ∧ Whole e orderId i.now t) := by
  obtain ⟨hn, hcase⟩ := step_cases h
  have hT' := hT.begin hn
  rcases hcase with ⟨u, hu, rfl⟩ | hsp
  · obtain ⟨hTu, hheld⟩ := hu.tracked (hr.begin i.now) hT'
    have hru := hu.ready (hr.begin i.now)
    obtain ⟨h1, h2⟩ := (hru.turn i.now).2.tracked hru he hTu hu.fills.2
    refine ⟨h1, fun hs => ?_⟩
    obtain ⟨h3, h4⟩ := h2 (hheld hs)
    exact ⟨h3.trans hu.fills.1, h4⟩
  · have hheld (hs : Held e orderId s) : Held e orderId t := by
      obtain ⟨cur, rest, hc⟩ := hs
      exact ⟨cur, rest, (congrArg Queue.list hsp.queue).trans hc⟩
    refine ⟨⟨?_, ?_⟩, fun hs => ⟨hsp.fills, .held (hheld hs)⟩⟩
    · rw [hsp.nextOrderId]
      exact hT.ids
    · rw [hsp.queue, hsp.clock, hsp.book]
      exact hT'.phase.imp_left fun h => ⟨hheld h.1, h.2⟩

/-- A POST_ONLY order whose pre-check finds no cross never takes. The transaction that first runs
its entry settles nothing, nor does any later one that runs its match; after each the order is
whole: at the head, or at rest, or closed by its deadline. -/
theorem postOnly_never_takes (h : Run step (init modelHash) tr s) (hi : Runs s i u t)
    (hl : u.toQueue.list = e :: rest) (hk : e.entryType = .place) (h0 : e.contOrderId = 0)
    (hp : has e.flags FLAG_POST_ONLY = true) (hc : u.executableCrosses i.now e = false)
    (h' : Run step t tr' v) :
    t.fills = [] ∧ Whole e u.nextOrderId i.now t ∧
      (isExpired i.now e.deadline = false → Run.Each (fun a j b => Held e u.nextOrderId a →
        b.fills = [] ∧ Whole e u.nextOrderId j.now b) t tr') := by
  have hr := run_ready h
  have hru := hi.queues.ready (hr.begin i.now)
  have he : Passive e := by
    cases (hru.phase.runnable hl).1 with
    | first hf => exact ⟨hk, hf.amount hk, hf.maker hk hp, hf.backed hk⟩
    | again hf => exact absurd h0 hf.first
  have hturn := (hru.turn i.now).2
  rw [← hi.run] at hturn
  obtain ⟨h1, h2, h3⟩ := hturn.first hru he hl h0 hc hi.queues.fills.2
  refine ⟨h1.trans hi.queues.fills.1, h2, fun hx => ?_⟩
  have hall := h'.invariant (fun tr' v => Ready v ∧ Tracked e u.nextOrderId v ∧
    Run.Each (fun a j b => Held e u.nextOrderId a →
      b.fills = [] ∧ Whole e u.nextOrderId j.now b) t tr')
    ⟨step_ready hr hi.step, h3 hx, trivial⟩ fun tr'' a j b hrun hI hstep => by
      obtain ⟨ha, hTa, hE⟩ := hI
      obtain ⟨hTb, hb⟩ := step_tracked ha he hTa hstep
      refine ⟨step_ready ha hstep, hTb, Run.each_concat.mpr ⟨hE, ?_⟩⟩
      rw [hrun.last_eq]
      exact hb
  exact hall.2.2

/-- A bid that insists on the enclave rests above the offer. -/
theorem postOnly_never_takes_sample :
    ∃ t, (bookAfter [offerCall]).step (bidCall 4 0x18) = some t ∧ t.fills = [] ∧
      Whole (bidEntry 4 0x18) 2 6 t ∧
      Run.Each (fun a j b => Held (bidEntry 4 0x18) 2 a →
        b.fills = [] ∧ Whole (bidEntry 4 0x18) 2 j.now b) t
        (Run.trace step t [⟨.ext 0, 7, .processHead⟩]) := by
  obtain ⟨t, ht⟩ := Option.isSome_iff_exists.mp
    (show ((bookAfter [offerCall]).step (bidCall 4 0x18)).isSome = true by decide +kernel)
  have hl : (((bookAfter [offerCall]).begin 6).enqueue (bidEntry 4 0x18)).toQueue.list =
      [bidEntry 4 0x18] := by decide +kernel
  obtain ⟨h1, h2, h3⟩ := postOnly_never_takes (Run.trace_run step (init 7) [offerCall])
    (placeBuyOrder_runs ht) hl rfl rfl (by decide) (by decide +kernel)
    (Run.trace_run step t [⟨.ext 0, 7, .processHead⟩])
  exact ⟨t, ht, h1, h2, h3 (by decide)⟩

end Runs

end Dexdo.InferenceOrderBook
