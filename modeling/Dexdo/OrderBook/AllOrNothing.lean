import Dexdo.OrderBook.Entrants
import Dexdo.OrderBook.Precheck
import Dexdo.OrderBook.Progress
import Dexdo.OrderBook.Reports

namespace Dexdo

/-- Amount a fill callback reports. -/
def Callback.filled? : Callback → Option ℕ
  | .onOrderFilled _ filledAmount _ _ _ _ _ _ _ _ _ => some filledAmount
  | _ => none

/-- Amount the callbacks `os` fill for submission `k`. -/
def filledFor (k : ℕ) (os : List Out) : ℕ :=
  (os.filterMap fun o => if o.sub = k then o.cb.filled? else none).sum

@[simp] theorem filledFor_nil (k : ℕ) : filledFor k [] = 0 := rfl

theorem filledFor_cons (k : ℕ) (o : Out) (os : List Out) :
    filledFor k (o :: os) = (if o.sub = k then o.cb.filled?.getD 0 else 0) + filledFor k os := by
  unfold filledFor
  rw [List.filterMap_cons]
  by_cases h : o.sub = k
  · rw [if_pos h, if_pos h]
    cases o.cb.filled? <;> simp
  · rw [if_neg h, if_neg h, Nat.zero_add]

theorem filledFor_append (k : ℕ) (os os' : List Out) :
    filledFor k (os ++ os') = filledFor k os + filledFor k os' := by
  simp [filledFor]

theorem filledFor_eq_zero {k : ℕ} {os : List Out}
    (h : ∀ o ∈ os, o.cb.isAck = false → o.sub ≠ k) : filledFor k os = 0 := by
  have hnil : os.filterMap (fun o => if o.sub = k then o.cb.filled? else none) = [] := by
    apply List.filterMap_eq_nil_iff.mpr
    intro o ho
    by_cases hk : o.sub = k
    · have hack : o.cb.isAck = true := by
        by_contra hn
        exact h o ho (Bool.eq_false_iff.mpr hn) hk
      rw [if_pos hk]
      cases hc : o.cb <;> simp [hc, Callback.isAck, Callback.filled?] at hack ⊢
    · exact if_neg hk
  rw [filledFor, hnil, List.sum_nil]

theorem filledFor_outs (k : ℕ) (s : OrderBook) :
    filledFor k s.outs = filledFor k (outsOf s.history) := by
  unfold filledFor OrderBook.outs outsOf
  rw [List.filterMap_filterMap, List.filterMap_filterMap]
  apply congrArg List.sum
  apply filterMap_history
  intro a ha
  cases a with
  | callback dest cb =>
    cases cb <;> simp [Action.isTrade, Action.out?, Callback.filled?] at ha ⊢
  | _ => rfl

theorem LedgerPath.fills_pos {N : ℕ} {M M' : Multiset Item} {os : List Out}
    (h : LedgerPath N M os M') : ∀ o ∈ os, ∀ a, o.cb.filled? = some a → 0 < a := by
  induction h with
  | refl => simp
  | snoc _ hs ih =>
    intro o ho a ha
    rcases List.mem_append.mp ho with ho | ho
    · exact ih o ho a ha
    · cases hs with
      | fill t m M trade c h h0 =>
        have hcb : o.cb.filled? = some trade := by
          rcases List.mem_cons.mp ho with rfl | ho
          · rfl
          · rw [List.mem_singleton.mp ho]
            rfl
        exact Option.some.inj (hcb.symm.trans ha) ▸ h0
      | _ =>
        rw [List.mem_singleton.mp ho] at ha
        cases ha

theorem answers_not_filled {k : ℕ} {os : List Out}
    (hpos : ∀ o ∈ os, ∀ a, o.cb.filled? = some a → 0 < a) (h0 : filledFor k os = 0) {h : Party}
    (id : ℕ) (b : Bool) : (h, Answer.filled id b) ∉ answers k os := by
  intro hmem
  obtain ⟨o, ho, hans⟩ := List.mem_filterMap.mp hmem
  by_cases hk : o.sub = k
  · rw [if_pos hk] at hans
    cases hc : o.cb with
    | onOrderFilled outcomeId amount price isBuy refund fee isRebate id' isFinal N cid =>
      have hfilled : o.cb.filled? = some amount := by
        rw [hc]
        rfl
      have hin : amount ∈ os.filterMap fun o => if o.sub = k then o.cb.filled? else none :=
        List.mem_filterMap.mpr ⟨o, ho, by rw [if_pos hk, hfilled]⟩
      have hle := List.single_le_sum (by simp) _ hin
      have := hpos o ho amount hfilled
      rw [filledFor] at h0
      omega
    | _ => simp [hc, Callback.answer?] at hans
  · rw [if_neg hk] at hans
    cases hans

/-- An order is over without ever having been filled. -/
def Refused (h : Party) (as : List (Party × Answer)) : Prop :=
  as = [(h, .rejected)] ∨ ∃ id, as = [(h, .placed id), (h, .cancelled id)]

theorem Closed.refused {h : Party} {as : List (Party × Answer)} (hc : Closed h as)
    (hn : ∀ id b, (h, Answer.filled id b) ∉ as) : Refused h as := by
  obtain h1 | ⟨id, fills, a, ha, h1⟩ := hc
  · exact .inl h1
  · have hfills : fills = 0 := by
      by_contra hne
      apply hn id false
      obtain ⟨m, rfl⟩ := Nat.exists_eq_succ_of_ne_zero hne
      simp [h1, opening]
    rcases ha with rfl | rfl
    · exact absurd (by simp [h1]) (hn id true)
    · exact .inr ⟨id, by rw [h1, hfills]; rfl⟩

namespace OrderBook

variable {s t u : OrderBook} {e : QueueEntry} {rest stay : List QueueEntry} {p : PlaceParams}
  {b : Book} {k orderId N seq : ℕ} {fills : List Fill}

/-- Amount the fills take from resting orders of submission `k`. -/
def subFilled (b : Book) (k : ℕ) (fills : List Fill) : ℕ :=
  (fills.map fun f => if (b.core f.maker.id).sub = k then f.trade else 0).sum

theorem subFilled_eq_zero (h : ∀ f ∈ fills, (b.core f.maker.id).sub ≠ k) :
    subFilled b k fills = 0 := by
  unfold subFilled
  apply List.sum_eq_zero
  intro x hx
  obtain ⟨f, hf, rfl⟩ := List.mem_map.mp hx
  exact if_neg (h f hf)

theorem filledFor_openedActions : filledFor k (outsOf (u.openedActions e)) = 0 := by
  unfold openedActions
  split_ifs
  · simp [placedActions, filledFor_cons, Callback.filled?]
  · rfl

theorem filledFor_tradeActions : filledFor k (outsOf (tradeActions b e orderId N seq fills)) =
    subFilled b k fills + if e.sub = k then (fills.map Fill.trade).sum else 0 := by
  induction fills generalizing seq with
  | nil => simp [tradeActions, subFilled]
  | cons f fills ih =>
    have hone : filledFor k (outsOf (fillActions e orderId (b.core f.maker.id) f N (seq + 1))) =
        (if (b.core f.maker.id).sub = k then f.trade else 0) + if e.sub = k then f.trade else 0 := by
      simp [fillActions, filledFor_cons, Callback.filled?]
    rw [tradeActions, outsOf_append, filledFor_append, hone, ih]
    unfold subFilled
    rw [List.map_cons, List.map_cons, List.sum_cons, List.sum_cons]
    split_ifs <;> omega

theorem filledFor_matchActions : filledFor k (outsOf (u.matchActions e)) =
    subFilled u.toBook k (u.passWalk e.params).fills +
      if e.sub = k then ((u.passWalk e.params).fills.map Fill.trade).sum else 0 := by
  unfold matchActions
  rw [outsOf_append, filledFor_append, filledFor_openedActions, filledFor_tradeActions, Nat.zero_add]

/-- No resting order stems from submission `k`. -/
def NoneRests (s : OrderBook) (k : ℕ) : Prop := ∀ i, s.Stored i → (s.core i).sub ≠ k

theorem filledFor_pass (hu : u.Ok) (hk : u.NoneRests k) : filledFor k (outsOf (u.matchActions e)) =
    if e.sub = k then ((u.passWalk e.params).fills.map Fill.trade).sum else 0 := by
  have hok := (passWalk_consumed hu.book e.params).1
  rw [filledFor_matchActions, subFilled_eq_zero, Nat.zero_add]
  intro f hf
  exact hk _ (hok.stored f hf).1

/-- A queued order `e` of submission `p` in the middle of its placement: `F` is what each
submission has been filled. -/
structure InHand (F : ℕ → ℕ) (s : OrderBook) (p : PlaceParams) (e : QueueEntry) : Prop where
  limit : p.isMarket = false
  params : e.params = { p with amount := e.params.amount }
  amount : F e.sub + e.params.amount = p.amount
  need : minFill p ≤ p.amount
  unmatched : e.precheckDone = false → F e.sub = 0
  fresh : e.targetOrderId = 0 → e.precheckDone = false ∧ e.precheckAccum = 0
  walked : s.Walked e
  enough : e.precheckDone = true → minFill p ≤ F e.sub + s.crossTotal e.params

/-- The placement of submission `k` is over: nothing came of it, or it was filled as asked. -/
inductive Over (F : ℕ → ℕ) (s : OrderBook) (k : ℕ) (p : PlaceParams) : Prop
  | refused (h0 : F k = 0) (hn : s.NoneRests k)
  | filled (hmin : minFill p ≤ F k) (hfok : p.isFok = true → F k = p.amount ∧ s.NoneRests k)

/-- Every limit order submitted so far is in hand or over. -/
structure Served (Q : List (ℕ × PlaceParams)) (F : ℕ → ℕ) (s : OrderBook) : Prop where
  apart : ∀ e ∈ s.toQueue.list, e.entryType = .place → s.NoneRests e.sub
  queued : ∀ e ∈ s.toQueue.list, e.entryType = .place → ∃ h p, Q[e.sub]? = some (h, p) ∧
    (p.isMarket = false → InHand F s p e)
  gone : ∀ k h p, Q[k]? = some (h, p) → p.isMarket = false → k ∉ placeSubs s.toQueue.list →
    Over F s k p

variable {Q : List (ℕ × PlaceParams)} {F F' : ℕ → ℕ}

theorem InHand.waiting (h : InHand F u p e) (h0 : e.targetOrderId = 0) (hF : F' e.sub = F e.sub) :
    InHand F' t p e := by
  obtain ⟨hd, ha⟩ := h.fresh h0
  refine ⟨h.limit, h.params, hF ▸ h.amount, h.need, ?_, h.fresh, ?_, ?_⟩
  · rw [hF]
    exact h.unmatched
  · exact fun hne => absurd ha hne
  · intro hdone
    rw [hd] at hdone
    cases hdone

theorem crossTotal_congr (hb : t.toBook = u.toBook) (hn : t.nextOrderId = u.nextOrderId)
    (p : PlaceParams) : t.crossTotal p = u.crossTotal p := by
  unfold crossTotal crossingMakers makers makersAt makerOf
  rw [hb, hn]

theorem Walked.congr (h : u.Walked e) (hb : t.toBook = u.toBook) : t.Walked e := by
  intro hne
  obtain ⟨done, rest, hc, ha⟩ := h hne
  refine ⟨done, rest, ⟨?_, hc.cross⟩, ?_⟩
  · rw [hb]
    exact hc.split
  · unfold levelTotal at ha ⊢
    rw [hb]
    exact ha

theorem InHand.congr (h : InHand F u p e) (hb : t.toBook = u.toBook)
    (hn : t.nextOrderId = u.nextOrderId) : InHand F t p e :=
  { h with
    walked := h.walked.congr hb
    enough := fun hd => by
      rw [crossTotal_congr hb hn]
      exact h.enough hd }

theorem NoneRests.thins (h : u.NoneRests k) (ht : u.Thins t.toBook) : t.NoneRests k := by
  intro i hi
  obtain ⟨h1, h2⟩ := ht i hi
  rw [h2]
  exact h i h1

theorem Over.mono (h : Over F u k p) (hle : F k ≤ F' k) (hF : u.NoneRests k → F' k = F k)
    (hs : u.NoneRests k → t.NoneRests k) : Over F' t k p := by
  cases h with
  | refused h0 hn => exact .refused ((hF hn).trans h0) (hs hn)
  | filled hmin hfok =>
    apply Over.filled (hmin.trans hle)
    intro hf
    obtain ⟨h1, h2⟩ := hfok hf
    exact ⟨(hF h2).trans h1, hs h2⟩

/-- What one pass over head entry `e` does to the fills, the queue and the resting orders. -/
structure Passes (F F' : ℕ → ℕ) (u t : OrderBook) (e : QueueEntry) (stay rest : List QueueEntry) :
    Prop where
  before : u.toQueue.list = e :: rest
  after : t.toQueue.list = stay ++ rest
  same : ∀ x ∈ stay, x.entryType = e.entryType ∧ x.sub = e.sub
  grows : ∀ k, F k ≤ F' k
  others : ∀ k, (e.entryType = .place → e.sub ≠ k) → u.NoneRests k → F' k = F k
  rests : ∀ i, t.Stored i → (u.Stored i ∧ (t.core i).sub = (u.core i).sub) ∨
    (e.entryType = .place ∧ stay = [] ∧ (t.core i).sub = e.sub)

theorem Passes.noneRests (h : Passes F F' u t e stay rest)
    (hk : e.entryType = .place → stay = [] → e.sub ≠ k) (hu : u.NoneRests k) : t.NoneRests k := by
  intro i hi
  obtain ⟨h1, h2⟩ | ⟨h1, h2, h3⟩ := h.rests i hi
  · rw [h2]
    exact hu i h1
  · rw [h3]
    exact hk h1 h2

theorem mem_placeSubs_iff {es : List QueueEntry} : k ∈ placeSubs es ↔
    ∃ e ∈ es, e.entryType = .place ∧ e.sub = k := by
  simp [placeSubs, and_assoc]

/-- A pass keeps the orders in hand or over when it does so with the one at the head. -/
theorem Served.pass (h : Served Q F u) (hp : Passes F F' u t e stay rest)
    (hw : ∀ x ∈ rest, x.entryType = .place → x.targetOrderId = 0)
    (hn : e.entryType = .place → ∀ x ∈ rest, x.entryType = .place → x.sub ≠ e.sub)
    (hstay : e.entryType = .place → ∀ x ∈ stay, ∀ p, InHand F u p e → InHand F' t p x)
    (hgone : e.entryType = .place → stay = [] → ∀ p, InHand F u p e → Over F' t e.sub p) :
    Served Q F' t := by
  have hrest : ∀ x ∈ rest, x ∈ u.toQueue.list := by
    intro x hx
    rw [hp.before]
    exact List.mem_cons_of_mem _ hx
  have hhead : e ∈ u.toQueue.list := by
    rw [hp.before]
    exact List.mem_cons_self
  refine ⟨fun x hx hpl => ?_, fun x hx hpl => ?_, fun k o p hk hm hgo => ?_⟩
  · rw [hp.after] at hx
    rcases List.mem_append.mp hx with hx | hx
    · obtain ⟨h1, h2⟩ := hp.same x hx
      rw [h2]
      apply hp.noneRests _ (h.apart e hhead (h1.symm.trans hpl))
      intro _ hnil
      rw [hnil] at hx
      cases hx
    · exact hp.noneRests (fun he _ => (hn he x hx hpl).symm) (h.apart x (hrest x hx) hpl)
  · rw [hp.after] at hx
    rcases List.mem_append.mp hx with hx | hx
    · obtain ⟨h1, h2⟩ := hp.same x hx
      have he := h1.symm.trans hpl
      obtain ⟨o, p, hk, hin⟩ := h.queued e hhead he
      exact ⟨o, p, h2 ▸ hk, fun hm => hstay he x hx p (hin hm)⟩
    · obtain ⟨o, p, hk, hin⟩ := h.queued x (hrest x hx) hpl
      refine ⟨o, p, hk, fun hm => (hin hm).waiting (hw x hx hpl) ?_⟩
      exact hp.others _ (fun he => (hn he x hx hpl).symm) (h.apart x (hrest x hx) hpl)
  · by_cases hek : e.entryType = .place ∧ e.sub = k
    · obtain ⟨he, rfl⟩ := hek
      have hnil : stay = [] := by
        by_contra hne
        obtain ⟨x, hx⟩ := List.exists_mem_of_ne_nil _ hne
        obtain ⟨h1, h2⟩ := hp.same x hx
        exact hgo (mem_placeSubs_iff.mpr ⟨x, by rw [hp.after]; simp [hx], h1.trans he, h2⟩)
      obtain ⟨o', p', hk', hin⟩ := h.queued e hhead he
      have hop : (o, p) = (o', p') := Option.some.inj (hk.symm.trans hk')
      obtain ⟨rfl, rfl⟩ := Prod.mk.inj hop
      exact hgone he hnil p (hin hm)
    · have hne : e.entryType = .place → e.sub ≠ k := fun he hs => hek ⟨he, hs⟩
      have hold : k ∉ placeSubs u.toQueue.list := by
        intro hmem
        obtain ⟨x, hx, h1, h2⟩ := mem_placeSubs_iff.mp hmem
        rw [hp.before] at hx
        rcases List.mem_cons.mp hx with rfl | hx
        · exact hne h1 h2
        · exact hgo (mem_placeSubs_iff.mpr ⟨x, by rw [hp.after]; simp [hx], h1, h2⟩)
      exact (h.gone k o p hk hm hold).mono (hp.grows k) (hp.others k hne)
        (hp.noneRests fun he _ => hne he)

theorem InHand.base (h : InHand F u p e) : TradesBase e.params := by
  intro hb
  have hm := hb.2
  rw [h.params] at hm
  exact absurd (hm.symm.trans h.limit) (by simp)

theorem InHand.reached (h : InHand F u p e) (hu : u.Ok) (hr : u.precheck e = .reached) :
    minFill p ≤ F e.sub + u.crossTotal e.params := by
  cases hd : e.precheckDone with
  | true => exact h.enough hd
  | false =>
    have hp : e.params = p := by
      have h1 := h.unmatched hd
      have h2 := h.amount
      rw [h.params, show e.params.amount = p.amount by omega]
    obtain ⟨A, r⟩ := hu.book.rep
    have hle := precheck_reached r h.walked hd hr
    rw [hp] at hle ⊢
    exact hle.trans (Nat.le_add_left _ _)

theorem InHand.settled (h : InHand F u p e) (hu : u.Ok) (hr : u.precheck e = .reached)
    (hc : (u.passWalk e.params).halt ≠ .hitCapWithMore)
    (hF : F' e.sub = F e.sub + ((u.passWalk e.params).fills.map Fill.trade).sum)
    (hs : p.isFok = true → t.NoneRests e.sub) : Over F' t e.sub p := by
  have htotal : ((u.passWalk e.params).fills.map Fill.trade).sum =
      min e.params.amount (u.crossTotal e.params) := walk_limit_total h.base hc
  have hreach := h.reached hu hr
  have hamount := h.amount
  have hneed := h.need
  apply Over.filled
  · omega
  · intro hf
    have hmin : minFill p = p.amount := if_pos hf
    exact ⟨by omega, hs hf⟩

theorem InHand.capped (h : InHand F u p e) (hu : u.Ok) (hr : u.precheck e = .reached)
    (hc : (u.passWalk e.params).halt = .hitCapWithMore)
    (hb : t.toBook = u.toBook.consumeAll e.params.outcomeId (u.passWalk e.params).fills)
    (hn : u.nextOrderId ≤ t.nextOrderId) (hid : orderId ≠ 0)
    (hF : F' e.sub = F e.sub + ((u.passWalk e.params).fills.map Fill.trade).sum) :
    InHand F' t p (resumed e orderId (u.passMatch e)) := by
  have hsum := passWalk_sum (u := u) h.base
  have hreach := h.reached hu hr
  have hamount := h.amount
  refine ⟨h.limit, ?_, ?_, h.need, ?_, ?_, ?_, fun _ => ?_⟩
  · have hparams (a : ℕ) : { e.params with amount := a } = { p with amount := a } := by
      rw [h.params]
    exact hparams _
  · change F' e.sub + (u.passWalk e.params).remaining = p.amount
    omega
  · intro hd
    cases hd
  · intro h0
    exact absurd h0 hid
  · intro hne
    exact absurd rfl hne
  · have hcross := capped_crossing (p := (resumed e orderId (u.passMatch e)).params) hu h.base hc hb
      hn ⟨rfl, rfl, rfl, rfl⟩
    change minFill p ≤ F' e.sub + _
    omega

theorem InHand.deferred (h : InHand F u p e) {accum lastPrice : ℕ}
    (hr : u.precheck e = .outOfBudget accum lastPrice) (hb : t.toBook = u.toBook)
    (hid : orderId ≠ 0) (hF : F' e.sub = F e.sub) :
    InHand F' t p (OrderBook.deferred e orderId accum lastPrice) := by
  obtain ⟨hd, hw⟩ := precheck_budget_walked h.walked orderId hr hb
  refine ⟨h.limit, h.params, ?_, h.need, fun _ => ?_, ?_, hw, ?_⟩
  · exact (congrArg (· + e.params.amount) hF).trans h.amount
  · exact hF.trans (h.unmatched hd)
  · intro h0
    exact absurd h0 hid
  · intro hdone
    cases hdone

theorem Consumed.sub {c : Book} (h : Book.Consumed b c fills) {outcomeId : ℕ}
    (hok : Book.FillsOk b outcomeId fills) {i : ℕ} (hi : c.Stored i) :
    (c.core i).sub = (b.core i).sub := by
  by_cases hf : ∃ f ∈ fills, f.maker.id = i
  · obtain ⟨f, hf, rfl⟩ := hf
    have hnot := ((h.stored _).mp hi).2 f hf
    have hamt := (hok.stored f hf).2.2
    rw [h.touched f hf, Book.filledCore, if_neg fun he => hnot ⟨rfl, he.symm.trans hamt⟩]
    rfl
  · rw [h.untouched i fun f hm he => hf ⟨f, hm, he⟩]

theorem settledBook_rests (hu : u.Ok) {i : ℕ} (hi : (u.settledBook e).Stored i) :
    (u.Stored i ∧ ((u.settledBook e).core i).sub = (u.core i).sub) ∨
      (e.params.isFok = false ∧ ((u.settledBook e).core i).sub = e.sub) := by
  obtain ⟨hok, ⟨A, r⟩, hcons⟩ := passWalk_consumed hu.book e.params
  unfold settledBook at hi ⊢
  dsimp only at hi ⊢
  split_ifs at hi ⊢ with hins
  · rw [Book.insertIntoBook_stored _ _ _ _ _ _ _ _ r] at hi
    rw [Book.insertIntoBook_core]
    split_ifs with hid
    · exact .inr ⟨by simpa using fun hf => hins.2 (.inr (.inl hf)), rfl⟩
    · have hi := hi.resolve_left hid
      exact .inl ⟨((hcons.stored i).mp hi).1, Consumed.sub hcons hok hi⟩
  · exact .inl ⟨((hcons.stored i).mp hi).1, Consumed.sub hcons hok hi⟩

theorem Served.same (h : Served Q F u) (hl : t.toQueue.list = u.toQueue.list)
    (hb : t.toBook = u.toBook) (hn : t.nextOrderId = u.nextOrderId) : Served Q F t := by
  have hnone : ∀ k, u.NoneRests k → t.NoneRests k := fun k hk => hk.thins (.of_eq hb)
  refine ⟨?_, ?_, ?_⟩
  · rw [hl]
    exact fun e he hp => hnone _ (h.apart e he hp)
  · rw [hl]
    intro e he hp
    obtain ⟨o, p, hk, hin⟩ := h.queued e he hp
    exact ⟨o, p, hk, fun hm => (hin hm).congr hb hn⟩
  · rw [hl]
    intro k o p hk hm hgo
    exact (h.gone k o p hk hm hgo).mono le_rfl (fun _ => rfl) (hnone k)

theorem openOrder_pos (hu : u.Ok) (hl : u.toQueue.list = e :: rest) (hp : e.entryType = .place) :
    (u.openOrder e).2 ≠ 0 :=
  (openOrder_spec (K := 0) e hu.book hu.pos (hu.amount e (by rw [hl]; simp) hp)
    (hu.head e (by rw [hl]; rfl) hp)).2.2.1.1.ne'

theorem precheck_notReached (h : u.precheck e = .notReached) : e.precheckDone = false := by
  by_contra hd
  unfold precheck at h
  dsimp only at h
  rw [if_neg fun hc => hc.2 (by simpa using hd)] at h
  cases h

/-- Every turn keeps the orders in hand or over. -/
theorem Served.turn (h : Served Q F u) (hu : u.Ok) {hi : ℕ} (hn : Numbered 0 hi u.toQueue.list)
    {as : List Action} (ht : Turn u t as) (hF : ∀ k, F' k = F k + filledFor k (outsOf as)) :
    Served Q F' t := by
  have hgrows : ∀ k, F k ≤ F' k := fun k => hF k ▸ Nat.le_add_right _ _
  have hwait : ∀ {e rest}, u.toQueue.list = e :: rest → ∀ x ∈ rest, x.entryType = .place →
      x.targetOrderId = 0 := by
    intro e rest hl x hx
    exact hu.waiting x (by rw [hl]; exact hx)
  have hnum : ∀ {e rest}, u.toQueue.list = e :: rest → e.entryType = .place →
      ∀ x ∈ rest, x.entryType = .place → x.sub ≠ e.sub := by
    intro e rest hl he x hx hp
    have hsorted := hn.sorted
    rw [hl, placeSubs, List.filter_cons_of_pos (by simp [he]), List.map_cons,
      List.pairwise_cons] at hsorted
    exact (hsorted.1 _ (mem_placeSubs hx hp)).ne'
  have hthin : u.Thins t.toBook → ∀ i, t.Stored i → u.Stored i ∧ (t.core i).sub = (u.core i).sub := by
    intro hb i hi
    obtain ⟨h1, h2⟩ := hb i hi
    exact ⟨h1, congrArg Order.sub h2⟩
  have hhead : ∀ {e rest}, u.toQueue.list = e :: rest → e ∈ u.toQueue.list := by
    intro e rest hl
    rw [hl]
    exact List.mem_cons_self
  have hquiet : ∀ e : QueueEntry, as = u.openedActions e → F' = F := by
    intro e has
    funext k
    rw [hF, has, filledFor_openedActions, Nat.add_zero]
  have hmatch : ∀ e : QueueEntry, as = u.matchActions e → ∀ k, u.NoneRests k →
      F' k = F k + if e.sub = k then ((u.passWalk e.params).fills.map Fill.trade).sum else 0 := by
    intro e has k hk
    rw [hF, has, filledFor_pass hu hk]
  have hfills : ∀ e : QueueEntry, as = u.matchActions e → ∀ k, e.sub ≠ k → u.NoneRests k →
      F' k = F k := by
    intro e has k hne hk
    rw [hmatch e has k hk, if_neg hne, Nat.add_zero]
  cases ht with
  | idle hq hl hb hn' =>
    obtain rfl : F' = F := funext fun k => hF k
    exact h.same hl hb hn'
  | thinned e rest stay hl he hl' hs hb =>
    obtain rfl : F' = F := funext fun k => hF k
    have hp : Passes F' F' u t e stay rest := by
      refine ⟨hl, hl', ?_, fun _ => le_rfl, fun _ _ _ => rfl, fun i hi => .inl (hthin hb i hi)⟩
      intro x hx
      rw [hs x hx]
      exact ⟨rfl, rfl⟩
    exact h.pass hp (hwait hl) (hnum hl) (fun hp => absurd hp he) fun hp => absurd hp he
  | refused e rest hl hd hl' hb =>
    obtain rfl : F' = F := funext fun k => hF k
    have hp : Passes F' F' u t e [] rest := ⟨hl, hl', by simp, fun _ => le_rfl, fun _ _ _ => rfl,
      fun i hi => .inl (hthin (.of_eq hb) i hi)⟩
    apply h.pass hp (hwait hl) (hnum hl) (by simp)
    intro he _ p hp
    exact .refused (hp.unmatched hd.2) ((h.apart e (hhead hl) he).thins (.of_eq hb))
  | stopped e rest hl he hc hl' hb =>
    obtain rfl := hquiet e rfl
    have hp : Passes F' F' u t e [] rest := ⟨hl, hl', by simp, fun _ => le_rfl, fun _ _ _ => rfl,
      fun i hi => .inl (hthin (.of_eq hb) i hi)⟩
    apply h.pass hp (hwait hl) (hnum hl) (by simp)
    intro _ _ p hp
    apply Over.refused _ ((h.apart e (hhead hl) he).thins (.of_eq hb))
    rcases hc with hc | hc
    · exact hp.unmatched (hp.fresh hc.1).1
    · exact hp.unmatched (precheck_notReached hc)
  | deferred e rest accum lastPrice hl he hc hl' hb =>
    obtain rfl := hquiet e rfl
    have hid := openOrder_pos hu hl he
    have hp : Passes F' F' u t e [OrderBook.deferred e (u.openOrder e).2 accum lastPrice] rest := by
      refine ⟨hl, hl', ?_, fun _ => le_rfl, fun _ _ _ => rfl,
        fun i hi => .inl (hthin (.of_eq hb) i hi)⟩
      intro x hx
      rw [List.mem_singleton.mp hx]
      exact ⟨rfl, rfl⟩
    apply h.pass hp (hwait hl) (hnum hl) _ (by simp)
    intro _ x hx p hp
    rw [List.mem_singleton.mp hx]
    exact hp.deferred hc hb hid rfl
  | capped e rest hl hm hc hl' hb hn' =>
    obtain ⟨-, -, -, he, -, hpre⟩ := (matchingEntry_iff.mp hm).1
    have hid := openOrder_pos hu hl he
    have hown := hmatch e rfl e.sub (h.apart e (hhead hl) he)
    rw [if_pos rfl] at hown
    obtain ⟨hok, -, hcons⟩ := passWalk_consumed hu.book e.params
    have hp : Passes F F' u t e [resumed e (u.openOrder e).2 (u.passMatch e)] rest := by
      refine ⟨hl, hl', ?_, hgrows, fun k hne => hfills e rfl k (hne he), fun i hi => .inl ?_⟩
      · intro x hx
        rw [List.mem_singleton.mp hx]
        exact ⟨rfl, rfl⟩
      · rw [hb] at hi ⊢
        exact ⟨((hcons.stored i).mp hi).1, Consumed.sub hcons hok hi⟩
    apply h.pass hp (hwait hl) (hnum hl) _ (by simp)
    intro _ x hx p hp
    rw [List.mem_singleton.mp hx]
    exact hp.capped hu hpre hc hb (hn' ▸ openOrder_le e) hid hown
  | settled e rest hl hm hc hl' hb =>
    obtain ⟨-, -, -, he, -, hpre⟩ := (matchingEntry_iff.mp hm).1
    have hnone := h.apart e (hhead hl) he
    have hown := hmatch e rfl e.sub hnone
    rw [if_pos rfl] at hown
    have hrests : ∀ i, t.Stored i → (u.Stored i ∧ (t.core i).sub = (u.core i).sub) ∨
        (e.params.isFok = false ∧ (t.core i).sub = e.sub) := by
      intro i hi
      rw [hb] at hi ⊢
      exact settledBook_rests hu hi
    have hp : Passes F F' u t e [] rest := by
      refine ⟨hl, hl', by simp, hgrows, fun k hne => hfills e rfl k (hne he), fun i hi => ?_⟩
      exact (hrests i hi).imp id fun hr => ⟨he, rfl, hr.2⟩
    apply h.pass hp (hwait hl) (hnum hl) (by simp)
    intro _ _ p hp
    apply hp.settled hu hpre hc hown
    intro hf i hi
    obtain ⟨h1, h2⟩ | ⟨h1, -⟩ := hrests i hi
    · rw [h2]
      exact hnone i h1
    · rw [hp.params] at h1
      exact absurd (h1.symm.trans hf) (by simp)

theorem valid_minFill {tokenType : ℕ} (h : p.valid tokenType = true) (hm : p.isMarket = false) :
    minFill p ≤ p.amount := by
  unfold minFill
  split_ifs with hf
  · exact le_rfl
  · by_contra hlt
    rw [not_le] at hlt
    simp [PlaceParams.valid, hm, hlt] at h

/-- Queueing the orders of a call leaves the orders in hand or over. -/
theorem Served.enter (h : Served Q F s) (hu : Enters s u) {c : Call} {es : List QueueEntry}
    (hl : u.toQueue.list = s.toQueue.list ++ es)
    (hes : ∀ e ∈ es, e.entryType = .place → s.Queues c e) (hQ : s.subs = Q.length)
    (hF : ∀ k, s.subs ≤ k → F k = 0) (hs : ∀ k, s.subs ≤ k → s.NoneRests k) :
    Served (Q ++ c.orders) F u := by
  have hnone : ∀ k, s.NoneRests k → u.NoneRests k := fun k hk => hk.thins (.of_eq hu.book)
  refine ⟨fun e he hp => ?_, fun e he hp => ?_, fun k o p hk hm hgo => ?_⟩
  · rw [hl] at he
    rcases List.mem_append.mp he with he | he
    · exact hnone _ (h.apart e he hp)
    · obtain ⟨i, p, -, -, heq⟩ := hes e he hp
      exact hnone _ (hs _ (by rw [heq]; exact Nat.le_add_right _ _))
  · rw [hl] at he
    rcases List.mem_append.mp he with he | he
    · obtain ⟨o, p, hk, hin⟩ := h.queued e he hp
      refine ⟨o, p, ?_, fun hm => (hin hm).congr hu.book hu.nextId⟩
      rw [List.getElem?_append_left (List.getElem?_eq_some_iff.mp hk).1]
      exact hk
    · obtain ⟨i, p, hi, hv, heq⟩ := hes e he hp
      have hsub : e.sub = Q.length + i := by
        rw [heq, ← hQ]
        rfl
      have h0 : F e.sub = 0 := hF _ (by omega)
      refine ⟨e.depositHash, p, ?_, fun hm => ?_⟩
      · rw [hsub, List.getElem?_append_right (Nat.le_add_right _ _), Nat.add_sub_cancel_left]
        exact hi
      · have hpar : e.params = p := by
          rw [heq]
          rfl
        have hdone : e.precheckDone = false := by
          rw [heq]
          rfl
        have haccum : e.precheckAccum = 0 := by
          rw [heq]
          rfl
        refine ⟨hm, by rw [hpar], by rw [h0, hpar, Nat.zero_add], valid_minFill hv hm,
          fun _ => h0, fun _ => ⟨hdone, haccum⟩, fun hne => absurd haccum hne, fun hd => ?_⟩
        rw [hdone] at hd
        cases hd
  · have hold : k ∉ placeSubs s.toQueue.list := by
      intro hmem
      obtain ⟨x, hx, h1, h2⟩ := mem_placeSubs_iff.mp hmem
      exact hgo (mem_placeSubs_iff.mpr ⟨x, by rw [hl]; simp [hx], h1, h2⟩)
    by_cases hlt : k < s.subs
    · rw [List.getElem?_append_left (hQ ▸ hlt)] at hk
      exact (h.gone k o p hk hm hold).mono le_rfl (fun _ => rfl) (hnone k)
    · exact .refused (hF k (not_lt.mp hlt)) (hnone k (hs k (not_lt.mp hlt)))

theorem Served.aside (h : Served Q F s) (ha : Aside s t) : Served Q F t := by
  have hl : t.toQueue.list = s.toQueue.list := congrArg Queue.list ha.queue
  by_cases hq : s.queueSize = 0
  · have hnil : s.toQueue.list = [] := s.toQueue.list_eq_nil_iff.mpr hq
    refine ⟨by simp [hl, hnil], by simp [hl, hnil], fun k o p hk hm _ => ?_⟩
    apply (h.gone k o p hk hm (by simp [hnil, placeSubs])).mono le_rfl fun _ => rfl
    exact fun hk => hk.thins ha.book
  · exact h.same hl (ha.frozen hq) ha.nextId

theorem stored_mem_items (hs : s.Ok) {i : ℕ} (hi : s.Stored i) :
    Item.ofOrder i (s.core i) ∈ s.items := by
  obtain ⟨A, r⟩ := hs.book.rep
  apply Multiset.mem_add.mpr
  right
  rw [Book.resting_split hi (r.bound i hi).2.1]
  exact Multiset.mem_cons_self _ _

theorem orders_of_atHead_none {c : Call} (h : s.atHead c = none) : c.orders = [] := by
  cases c <;> simp [atHead, Call.orders] at h ⊢

/-- In every reachable state every limit order submitted so far is in hand or over. -/
theorem run_served {market : MarketId} {resultStart numOutcomes : ℕ}
    {tr : List (Call × OrderBook)}
    (h : Run step (OrderBook.init market resultStart numOutcomes) tr s) :
    Served (submissions tr) (fun k => filledFor k (traceOuts tr)) s := by
  refine h.invariant (fun tr s => Served (submissions tr) (fun k => filledFor k (traceOuts tr)) s)
    ?_ ?_
  · exact ⟨by simp [OrderBook.init], by simp [OrderBook.init], by simp [submissions]⟩
  · intro tr s c t hr ih hst
    have hF : ∀ k, filledFor k (traceOuts (tr ++ [(c, t)])) =
        filledFor k (traceOuts tr) + filledFor k (outsOf t.history) := by
      intro k
      rw [traceOuts_snoc, filledFor_append, filledFor_outs]
    rw [submissions_snoc]
    obtain ⟨u, as, hu, hent, hturn, hh⟩ | ⟨hu, ha⟩ := step_turn (run_ok hr) hst
    · obtain ⟨es, hl, hes⟩ := atHead_entrants (run_ok hr) hst hu
      have htr := (run_tracked hr).1
      have henter := ih.enter hent hl hes htr.count
        (fun k hk => filledFor_eq_zero fun o ho hack => by
          have := htr.outs o ho hack
          omega)
        (fun k hk i hi hsub => by
          have := htr.items _ (stored_mem_items (run_ok hr) hi)
          have : (Item.ofOrder i (s.core i)).sub = k := hsub
          omega)
      refine henter.turn hent.ok (hent.numbered (run_numbered hr)) hturn fun k => ?_
      rw [hF, hh]
    · have hquiet : (fun k => filledFor k (traceOuts (tr ++ [(c, t)]))) =
          fun k => filledFor k (traceOuts tr) := by
        funext k
        rw [hF, ha.history]
        rfl
      rw [orders_of_atHead_none hu, List.append_nil, hquiet]
      exact ih.aside ha

theorem run_fills_pos {market : MarketId} {resultStart numOutcomes : ℕ}
    {tr : List (Call × OrderBook)}
    (h : Run step (OrderBook.init market resultStart numOutcomes) tr s) :
    ∀ o ∈ traceOuts tr, ∀ a, o.cb.filled? = some a → 0 < a := by
  refine h.invariant (fun tr _ => ∀ o ∈ traceOuts tr, ∀ a, o.cb.filled? = some a → 0 < a) ?_ ?_
  · simp [traceOuts]
  · intro tr s c t hr ih hst o ho
    rw [traceOuts_snoc] at ho
    rcases List.mem_append.mp ho with ho | ho
    · exact ih o ho
    · exact (step_moves (run_ok hr) hst).path.fills_pos o ho

theorem items_of_eq_zero (hq : k ∉ placeSubs s.toQueue.list) (hn : s.NoneRests k) :
    Item.of k s.items = 0 := by
  apply Item.of_eq_zero
  intro x hx hsub
  rcases Multiset.mem_add.mp hx with hx | hx
  · obtain ⟨e, he, rfl⟩ := List.mem_map.mp (Multiset.mem_coe.mp hx)
    exact hq (List.mem_map.mpr ⟨e, he, hsub⟩)
  · obtain ⟨i, hi, rfl⟩ := Multiset.mem_map.mp hx
    exact hn i (Finset.mem_filter.mp (Finset.mem_def.mpr hi)).2 hsub

/-- Fill-or-kill and minimum amounts: once the placement of a limit order is over, the order has
been refused without a fill or filled at least as far as it asks, a fill-or-kill order
completely. Pokes of the queue bring every placement there, the orders being those of notes, which
have made the sums of their locks. -/
theorem all_or_nothing {market : MarketId} {resultStart numOutcomes : ℕ}
    {tr : List (Call × OrderBook)}
    (h : Run step (OrderBook.init market resultStart numOutcomes) tr s) (k owner : ℕ)
    (p : PlaceParams) (hk : (submissions tr)[k]? = some (owner, p)) (hm : p.isMarket = false) :
    (k ∉ placeSubs s.toQueue.list →
      (filledFor k (traceOuts tr) = 0 ∧
        Refused ⟨owner, p.clientOrderId⟩ (answers k (traceOuts tr))) ∨
      (minFill p ≤ filledFor k (traceOuts tr) ∧
        (p.isFok = true → filledFor k (traceOuts tr) = p.amount))) ∧
    (Sent tr → ∃ tr' t, Run step (OrderBook.init market resultStart numOutcomes) (tr ++ tr') t ∧
      (∀ x ∈ tr', x.1 = .processHead) ∧ t.queueSize = 0) := by
  refine ⟨fun hgone => ?_, fun hn => ?_⟩
  swap
  · obtain ⟨tr', t, hr, hall, hq⟩ := exists_drain s (run_ok h) (run_checked h hn)
    exact ⟨tr', t, h.append hr, hall, hq⟩
  cases (run_served h).gone k owner p hk hm hgone with
  | refused h0 hn =>
    left
    refine ⟨h0, ?_⟩
    have hitems : Item.of k s.items = 0 := items_of_eq_zero hgone hn
    cases (run_tracked h).1.answered k owner p hk with
    | waiting x hF => simp [hitems] at hF
    | live x fills hF => simp [hitems] at hF
    | gone _ has => exact has.refused fun id b => answers_not_filled (run_fills_pos h) h0 id b
  | filled hmin hfok => exact .inr ⟨hmin, fun hf => (hfok hf).1⟩

/-- A fill-or-kill buy of more than the one ask at its price. -/
def killedBuy : PlaceParams := ⟨0, true, FLAG_FOK, 5000, 6000000, 0, 0, 0⟩

def killedCalls : List Call :=
  [.executeBatch (.note 7) 1 7 [sampleAsk] [] 1, .executeBatch (.note 8) 1 8 [killedBuy] [] 1]

theorem killedBuy_all_or_nothing :
    let tr := Run.trace step sampleBook killedCalls
    (submissions tr)[1]? = some (8, killedBuy) ∧
      ((filledFor 1 (traceOuts tr) = 0 ∧ Refused ⟨8, 0⟩ (answers 1 (traceOuts tr))) ∨
        (6000000 ≤ filledFor 1 (traceOuts tr) ∧
          (killedBuy.isFok = true → filledFor 1 (traceOuts tr) = killedBuy.amount))) := by
  have hk : (submissions (Run.trace step sampleBook killedCalls))[1]? = some (8, killedBuy) := by
    decide +kernel
  have hall := all_or_nothing (Run.trace_run step sampleBook killedCalls) 1 8 killedBuy hk
    (by decide)
  exact ⟨hk, hall.1 (by decide +kernel)⟩

end OrderBook

end Dexdo
