import Dexdo.Indexer.BookLog
import Dexdo.OrderBook.Lives

namespace Dexdo

open ReadModel

/-- The decoded event of a report. -/
def Report.prediction : Report → PredictionEvent
  | .placed orderId a clientOrderId =>
    .OrderPlaced orderId a.outcomeId a.isBuy a.price a.amount (some clientOrderId)
  | .filled orderId amount price isTaker => .OrderFilled orderId amount price isTaker
  | .cancelled orderId => .OrderCancelled orderId

theorem published_prediction (as : List Action) : (published as).map Report.prediction =
    (as.filterMap Action.prediction?).filter fun event => decide (event ≠ .other) := by
  induction as with
  | nil => rfl
  | cons a as ih =>
    have hpub : published (a :: as) = published [a] ++ published as := published_append [a] as
    have hlog : (a :: as).filterMap Action.prediction? =
        [a].filterMap Action.prediction? ++ as.filterMap Action.prediction? :=
      List.filterMap_append (l := [a])
    rw [hpub, hlog, List.map_append, List.filter_append, ih]
    congr 1
    cases a with
    | event ev => cases ev <;> rfl
    | _ => rfl

/-- The row of an order shows its life. -/
def OrderLife.Shows : OrderLife → Option LiveOrder → Prop
  | .unplaced, row => row = none
  | .live asked sum, row => ∃ o, row = some o ∧ o.status = .OPEN ∧ o.amountInitial = asked ∧
      0 < o.amountRemaining ∧ o.amountRemaining + sum = asked
  | .filled asked, row => ∃ o, row = some o ∧ o.status = .FILLED ∧ o.amountInitial = asked ∧
      o.amountRemaining = 0
  | .cancelled asked sum, row => ∃ o, row = some o ∧ o.status = .CANCELLED ∧
      o.amountInitial = asked ∧ o.amountRemaining + sum = asked

/-- The outcome ids of the orders that are placed parse. -/
def Parses (rs : List Report) : Prop :=
  ∀ orderId a cid, Report.placed orderId a cid ∈ rs → a.outcomeId ≤ I32_MAX

variable {id : ℕ} {l l' : OrderLife} {r : Report} {row : Option LiveOrder} {node : EventNode}
  {ob : Addr} {rs : List Report} {log : List (EventNode × PredictionEvent)}

theorem not_terminal {o : LiveOrder} (h : o.status = .OPEN) : ¬ o.isTerminal := by
  rintro (h' | h' | h') <;> rw [h] at h' <;> cases h'

/-- The projector follows a report that fits the life of its order. -/
theorem OrderLife.Shows.next (h : l.Shows row) (hn : l.next r = some l') (hid : r.orderId = id)
    (hp : Parses [r]) (hsrc : node.src = ob) : l'.Shows (r.prediction.row node ob id row) := by
  subst hid hsrc
  cases r with
  | placed orderId a cid =>
    have hout : a.outcomeId ≤ I32_MAX := hp orderId a cid (List.mem_singleton_self _)
    cases l with
    | unplaced =>
      rw [OrderLife.next] at hn
      split_ifs at hn with hpos
      cases hn
      cases (h : row = none)
      refine ⟨LiveOrder.placed a.outcomeId a.isBuy a.price a.amount (some cid) node, ?_, rfl, rfl,
        hpos, rfl⟩
      exact if_pos ⟨⟨rfl, rfl⟩, hout⟩
    | live => cases hn
    | filled => cases hn
    | cancelled => cases hn
  | filled orderId amount price isTaker =>
    cases l with
    | live asked filled =>
      obtain ⟨o, rfl, hopen, hinit, hpos, hsum⟩ := h
      have hrow : (Report.filled orderId amount price isTaker).prediction.row node node.src orderId
          (some o) = some (o.filled amount node) := if_pos ⟨rfl, rfl⟩
      have hterm := not_terminal hopen
      rw [OrderLife.next] at hn
      change l'.Shows _
      rw [show (Report.filled orderId amount price isTaker).orderId = orderId from rfl, hrow]
      split_ifs at hn with hlt heq
      · cases hn
        refine ⟨_, rfl, ?_, ?_, ?_, ?_⟩
        · rw [LiveOrder.filled, if_neg hterm]
          dsimp only
          rw [if_neg hpos.ne', if_neg (by omega)]
          exact hopen
        · rw [LiveOrder.initial_filled]
          exact hinit
        · rw [LiveOrder.filled, if_neg hterm]
          dsimp only
          omega
        · rw [LiveOrder.filled, if_neg hterm]
          dsimp only
          omega
      · cases hn
        refine ⟨_, rfl, ?_, ?_, ?_⟩
        · rw [LiveOrder.filled, if_neg hterm]
          dsimp only
          rw [if_neg hpos.ne', if_pos (by omega)]
        · rw [LiveOrder.initial_filled]
          exact hinit
        · rw [LiveOrder.filled, if_neg hterm]
          dsimp only
          omega
    | unplaced => cases hn
    | filled => cases hn
    | cancelled => cases hn
  | cancelled =>
    cases l with
    | live =>
      cases hn
      obtain ⟨o, rfl, hopen, hinit, -, hsum⟩ := h
      refine ⟨o.cancelled node, if_pos ⟨rfl, rfl⟩, ?_, ?_, ?_⟩
      · rw [LiveOrder.cancelled, if_neg (not_terminal hopen)]
      · rw [LiveOrder.initial_cancelled]
        exact hinit
      · rw [LiveOrder.remaining_cancelled]
        exact hsum
    | unplaced => cases hn
    | filled => cases hn
    | cancelled => cases hn

theorem OrderLife.Shows.confirmed (h : l.Shows row) (note : Addr) :
    l.Shows (row.map (·.confirmed note)) := by
  cases l with
  | unplaced =>
    cases (h : row = none)
    rfl
  | live =>
    obtain ⟨o, rfl, hrest⟩ := h
    exact ⟨_, rfl, hrest⟩
  | filled =>
    obtain ⟨o, rfl, hrest⟩ := h
    exact ⟨_, rfl, hrest⟩
  | cancelled =>
    obtain ⟨o, rfl, hrest⟩ := h
    exact ⟨_, rfl, hrest⟩

theorem OrderLife.Shows.elsewhere {event : PredictionEvent} (h : l.Shows row) (hsrc : node.src ≠ ob) :
    l.Shows (event.row node ob id row) := by
  cases event with
  | OrderPlaced orderId outcomeId =>
    have hno : ¬ ((ob = node.src ∧ id = orderId) ∧ outcomeId ≤ I32_MAX) := fun hc =>
      hsrc hc.1.1.symm
    rw [PredictionEvent.row, if_neg hno]
    exact h
  | OrderPlacedConfirmed =>
    rw [PredictionEvent.row]
    split_ifs
    · exact h.confirmed node.src
    · exact h
  | OrderFilled =>
    rw [PredictionEvent.row, if_neg fun hc => hsrc hc.1.symm]
    exact h
  | OrderCancelled =>
    rw [PredictionEvent.row, if_neg fun hc => hsrc hc.1.symm]
    exact h
  | other => exact h

theorem row_of_ne (h : r.orderId ≠ id) : r.prediction.row node ob id row = row := by
  cases r with
  | placed orderId =>
    have hne : orderId ≠ id := h
    exact if_neg fun hc => hne hc.1.2.symm
  | filled orderId =>
    have hne : orderId ≠ id := h
    exact if_neg fun hc => hne hc.2.symm
  | cancelled orderId =>
    have hne : orderId ≠ id := h
    exact if_neg fun hc => hne hc.2.symm

/-- Events of book `ob` in a log, without those that write neither table. -/
def bookEvents (ob : Addr) (log : List (EventNode × PredictionEvent)) : List PredictionEvent :=
  ((log.filter fun x => decide (x.1.src = ob)).map Prod.snd).filter fun event =>
    decide (event ≠ .other)

theorem bookEvents_append (log log' : List (EventNode × PredictionEvent)) :
    bookEvents ob (log ++ log') = bookEvents ob log ++ bookEvents ob log' := by
  simp [bookEvents]

/-- After a log whose book events are the reports `rs`, each row shows the life of its order. -/
theorem rowAfter_shows (hlog : bookEvents ob log = rs.map Report.prediction) (hp : Parses rs)
    (hl : lifeOf id rs = some l) : l.Shows (rowAfter log ob id) := by
  induction log using List.reverseRecOn generalizing rs l with
  | nil =>
    obtain rfl : rs = [] := List.map_eq_nil_iff.mp hlog.symm
    cases hl
    rfl
  | append_singleton log x ih =>
    rw [rowAfter_concat]
    rw [bookEvents_append] at hlog
    by_cases hsrc : x.1.src = ob
    · by_cases hother : x.2 = .other
      · have hx : bookEvents ob [x] = [] := by simp [bookEvents, hsrc, hother]
        rw [hx, List.append_nil] at hlog
        rw [hother]
        exact ih hlog hp hl
      · have hx : bookEvents ob [x] = [x.2] := by simp [bookEvents, hsrc, hother]
        rw [hx] at hlog
        obtain ⟨rs', rest, rfl, hbefore, hlast⟩ := List.map_eq_append_iff.mp hlog.symm
        obtain ⟨r, hr, hrx⟩ := List.map_eq_singleton_iff.mp hlast
        subst hr
        rw [← hrx]
        have hp' : Parses rs' := fun orderId a cid hmem =>
          hp orderId a cid (List.mem_append_left _ hmem)
        rw [lifeOf_concat] at hl
        split_ifs at hl with hid
        · obtain ⟨l₀, h₀, hn⟩ := of_bind hl
          exact (ih hbefore.symm hp' h₀).next hn hid
            (fun orderId a cid hmem => hp orderId a cid (List.mem_append_right _ hmem)) hsrc
        · rw [row_of_ne hid]
          exact ih hbefore.symm hp' hl
    · apply OrderLife.Shows.elsewhere _ hsrc
      apply ih _ hp hl
      rw [← hlog]
      simp [bookEvents, hsrc]

/-- A report that fits is taken as it is. -/
theorem OrderLife.Shows.smooth {db : LiveDb} (h : l.Shows (db.liveOrders ob r.orderId))
    (hn : l.next r = some l') (hp : Parses [r]) (hsrc : node.src = ob) :
    r.prediction.Smooth node db := by
  subst hsrc
  cases r with
  | placed orderId a cid =>
    cases l with
    | unplaced => exact ⟨h, hp orderId a cid (List.mem_singleton_self _)⟩
    | live => cases hn
    | filled => cases hn
    | cancelled => cases hn
  | filled orderId amount price isTaker =>
    cases l with
    | live asked filled =>
      obtain ⟨o, ho, hopen, hinit, hpos, hsum⟩ := h
      have hle : amount ≤ o.amountRemaining := by
        rw [OrderLife.next] at hn
        split_ifs at hn
        · omega
        · omega
      refine ⟨o, ho, not_terminal hopen, ?_, ?_⟩
      · exact decide_eq_false fun hc => absurd hc.2.2 (by omega)
      · exact decide_eq_false fun hc => hpos.ne' hc.2
    | unplaced => cases hn
    | filled => cases hn
    | cancelled => cases hn
  | cancelled =>
    cases l with
    | live =>
      obtain ⟨o, ho, hopen, -⟩ := h
      exact ⟨o, ho, not_terminal hopen⟩
    | unplaced => cases hn
    | filled => cases hn
    | cancelled => cases hn

theorem log_smooth (hlog : bookEvents ob log = rs.map Report.prediction) (hp : Parses rs)
    (hl : ∀ id, ∃ l, lifeOf id rs = some l) {log₁ log₂ : List (EventNode × PredictionEvent)}
    {x : EventNode × PredictionEvent} (hx : log = log₁ ++ x :: log₂) (hsrc : x.1.src = ob) :
    x.2.Smooth x.1 (projectAll log₁) := by
  by_cases hother : x.2 = .other
  · rw [hother]
    exact trivial
  have hone : bookEvents ob [x] = [x.2] := by simp [bookEvents, hsrc, hother]
  rw [hx, List.append_cons, bookEvents_append, bookEvents_append, hone] at hlog
  obtain ⟨front, rs₂, rfl, hfront, -⟩ := List.map_eq_append_iff.mp hlog.symm
  obtain ⟨rs₁, mid, rfl, hbefore, hmid⟩ := List.map_eq_append_iff.mp hfront
  obtain ⟨r, rfl, hr⟩ := List.map_eq_singleton_iff.mp hmid
  rw [← hr]
  obtain ⟨l, hl⟩ := hl r.orderId
  obtain ⟨l', hl'⟩ := lifeOf_left hl
  have hnext := hl'
  rw [lifeOf_concat, if_pos rfl] at hnext
  obtain ⟨l₀, h₀, hn⟩ := of_bind hnext
  have hbefore' : Parses rs₁ := fun orderId a cid hmem => hp orderId a cid (by simp [hmem])
  have hshow : l₀.Shows ((projectAll log₁).liveOrders ob r.orderId) :=
    rowAfter_shows hbefore.symm hbefore' h₀
  exact hshow.smooth hn (fun orderId a cid hmem => hp orderId a cid (by
    rw [List.mem_singleton.mp hmem]
    simp)) hsrc

namespace OrderBook

variable {s t u : OrderBook} {market : MarketId} {resultStart numOutcomes : ℕ}
  {tr : List (Call × OrderBook)} {H bs : List Action} {c : Call} {e : QueueEntry}
  {rest : List QueueEntry}

/-- The order a pass opens: the head of the queue, where it runs and has no id yet. -/
def openingEntry (u : OrderBook) : Option QueueEntry :=
  u.toQueue.list.head?.filter fun e => decide (e.entryType = .place ∧ e.targetOrderId = 0 ∧
    ¬ (u.shutdownPending = true ∧ e.precheckDone = false))

/-- The read model can follow a pass: the outcome id of an order it opens parses, and a market buy
buys as announced. -/
structure Followed (H : List Action) (u : OrderBook) : Prop where
  outcome : ∀ e ∈ u.openingEntry, e.params.outcomeId ≤ I32_MAX
  market : u.BuysAsAnnounced H

instance (H : List Action) (u : OrderBook) : Decidable (u.Followed H) :=
  decidable_of_iff ((∀ e ∈ u.openingEntry, e.params.outcomeId ≤ I32_MAX) ∧ u.BuysAsAnnounced H)
    ⟨fun h => ⟨h.1, h.2⟩, fun h => ⟨h.1, h.2⟩⟩

def CallFollowed (H : List Action) (s : OrderBook) (c : Call) : Prop :=
  ∀ u ∈ s.atHead c, u.Followed H

instance (H : List Action) (s : OrderBook) (c : Call) : Decidable (CallFollowed H s c) :=
  inferInstanceAs (Decidable (∀ u ∈ s.atHead c, u.Followed H))

theorem refused_nextOrderId (hu : u.Ok) (hl : u.toQueue.list = e :: rest)
    (hd : u.shutdownPending = true ∧ e.precheckDone = false) :
    u.processHeadCore.nextOrderId = u.nextOrderId := by
  have hsize : u.queueSize ≠ 0 := by
    intro h0
    rw [(u.toQueue.list_eq_nil_iff).mpr h0] at hl
    cases hl
  have hup : ¬ u.shuttingDown = true := fun hs => hsize (hu.down hs).1
  have hhead : u.queue u.queueHead = e := by
    have hcons := hu.list_cons hsize
    rw [hl] at hcons
    exact (List.cons.inj hcons).1.symm
  have hp : u.processHeadCore = ((u.refuse e).leaveHead e none).pokeNext := by
    unfold processHeadCore
    dsimp only
    rw [if_neg hup, if_neg hsize, hhead, if_pos ⟨hd.1, by simp [hd.2]⟩, refuseHead_eq]
  obtain ⟨-, g2⟩ := refuse_fields (s := u) (e := e)
  obtain ⟨-, k2, -⟩ := leaveHead_fields (u.refuse e) e none
  obtain ⟨-, -, hpk⟩ := pokeNext_fields (u := (u.refuse e).leaveHead e none)
  rw [hp, hpk, k2, g2]

/-- What a turn announces is the order it opens. -/
theorem Turn.opening (ht : Turn u t bs) (hu : u.Ok) (hs : SameStore u.processHeadCore t) {i : ℕ}
    {a : Announcement} (ha : a ∈ announced i bs) :
    ∃ e ∈ u.openingEntry, a = e.params.announcement := by
  have hnext : t.nextOrderId = u.processHeadCore.nextOrderId := by rw [hs]
  have hopened : ∀ e rest, u.toQueue.list = e :: rest → e.entryType = .place →
      t.nextOrderId = (u.openOrder e).1.nextOrderId → a ∈ announced i (u.openedActions e) →
      ∃ e ∈ u.openingEntry, a = e.params.announcement := by
    intro e rest hl he hn ha
    rw [announced_openedActions] at ha
    split_ifs at ha with hnew
    · refine ⟨e, ?_, List.mem_singleton.mp ha⟩
      have hrun : ¬ (u.shutdownPending = true ∧ e.precheckDone = false) := by
        intro hd
        have hsame := hnext.trans (refused_nextOrderId hu hl hd)
        have hstep : (u.openOrder e).1.nextOrderId = u.nextOrderId + 1 := by
          rw [openOrder, if_pos hnew.1]
          rfl
        omega
      rw [openingEntry, hl]
      simp only [List.head?_cons, Option.mem_def, Option.filter_eq_some_iff, decide_eq_true_eq]
      exact ⟨trivial, he, hnew.1, hrun⟩
    · cases ha
  cases ht with
  | idle => cases ha
  | thinned => cases ha
  | refused => cases ha
  | stopped e rest hl he _ _ _ hn => exact hopened e rest hl he hn ha
  | deferred e rest _ _ hl he _ _ _ hn => exact hopened e rest hl he hn ha
  | capped e rest hl hm _ _ _ hn =>
    rw [(matchActions_reports i).1] at ha
    exact hopened e rest hl (matchingEntry_iff.mp hm).1.2.2.2.1 hn ha
  | settled e rest hl hm _ _ _ hn =>
    rw [(matchActions_reports i).1] at ha
    exact hopened e rest hl (matchingEntry_iff.mp hm).1.2.2.2.1 hn ha

/-- The outcome ids a followed run announces parse. -/
theorem run_parses (h : Run step (OrderBook.init market resultStart numOutcomes) tr s)
    (hc : EachAfter CallFollowed [] (OrderBook.init market resultStart numOutcomes) tr) :
    Parses (published (traceActions tr)) := by
  induction h with
  | nil =>
    intro orderId a cid hmem
    cases hmem
  | @snoc tr s t c hr hs ih =>
    obtain ⟨hbefore, hnow⟩ := eachAfter_concat.mp hc
    rw [hr.last_eq, List.nil_append] at hnow
    intro orderId a cid hmem
    rw [traceActions_snoc, published_append] at hmem
    rcases List.mem_append.mp hmem with hmem | hmem
    · exact ih hbefore orderId a cid hmem
    have hann : a ∈ announced orderId t.history := by
      rw [← announced_actions, announced_published]
      exact List.mem_filterMap.mpr ⟨_, hmem, if_pos rfl⟩
    have hok := run_ok hr
    obtain ⟨u, bs, hu, hent, hturn, hh⟩ | ⟨-, ha⟩ := step_turn hok hs
    · obtain ⟨v, hv, -, hsame⟩ | ⟨hv, -⟩ := step_atHead hok hs
      · have huv : v = u := Option.some.inj (hv.symm.trans hu)
        subst huv
        rw [hh] at hann
        obtain ⟨e, he, rfl⟩ := hturn.opening hent.ok hsame hann
        exact (hnow v hu).outcome e he
      · rw [hu] at hv
        cases hv
    · rw [ha.history] at hann
      cases hann

theorem EachAfter.imp {P Q : List Action → OrderBook → Call → Prop}
    (hPQ : ∀ H s c, P H s c → Q H s c) (h : EachAfter P H s tr) : EachAfter Q H s tr := by
  induction tr generalizing H s with
  | nil => exact trivial
  | cons x tr ih => exact ⟨hPQ _ _ _ h.1, ih h.2⟩

theorem items_resting (hs : s.Ok) (hq : s.queueSize = 0) (id : ℕ) :
    Item.placedAs id s.items = if s.Stored id then {Item.ofOrder id (s.core id)} else 0 := by
  obtain ⟨A, r⟩ := hs.book.rep
  have hnil : s.toQueue.list = [] := s.toQueue.list_eq_nil_iff.mpr hq
  have hitems : s.items = s.resting s.nextOrderId := by
    rw [items, hnil]
    simp [placeItems]
  have hothers : Item.placedAs id (s.restingExcept s.nextOrderId id) = 0 := by
    apply Item.placedAs_eq_zero
    intro y hy hc
    obtain ⟨i, hi, rfl⟩ := Multiset.mem_map.mp hy
    exact Finset.ne_of_mem_erase (Finset.mem_def.mpr hi) hc.2
  rw [hitems]
  split_ifs with hst
  · obtain ⟨hpos, hlt, -⟩ := r.bound id hst
    have hown : Item.placedAs id (Item.ofOrder id (s.core id) ::ₘ s.restingExcept s.nextOrderId id) =
        Item.ofOrder id (s.core id) ::ₘ Item.placedAs id (s.restingExcept s.nextOrderId id) :=
      Item.placedAs_own hpos.ne' rfl
    rw [Book.resting_split hst hlt, hown, hothers]
    rfl
  · rw [← Book.restingExcept_of_not hst]
    exact hothers

end OrderBook

/-- The row of order `id` says what a run left of the order. -/
structure Mirrors (tr : List (Call × OrderBook)) (s : OrderBook) (id : ℕ)
    (row : Option LiveOrder) : Prop where
  once : (announced id (traceActions tr)).length ≤ 1
  placed : row.isSome = true ↔ announced id (traceActions tr) ≠ []
  resting : (∃ o, row = some o ∧ o.status = .OPEN) ↔ s.Stored id
  remaining : ∀ o, row = some o → s.Stored id → o.amountRemaining = (s.order id).amount
  initial : ∀ o, row = some o → ∀ a ∈ announced id (traceActions tr), o.amountInitial = a.amount
  fills : ∀ o, row = some o →
    o.amountInitial = o.amountRemaining + filledOf id (traceActions tr)
  filled : ∀ o, row = some o → (o.status = .FILLED ↔ Ended id (traceOuts tr))
  cancelled : ∀ o, row = some o →
    (o.status = .CANCELLED ↔ ¬ s.Stored id ∧ ¬ Ended id (traceOuts tr))

/-- The projector takes every event of the book as it is, and once the queue is empty each row
mirrors its order. -/
structure Simulates (tr : List (Call × OrderBook)) (s : OrderBook) (ob : Addr)
    (log : List (EventNode × PredictionEvent)) : Prop where
  smooth : ∀ log₁ x log₂, log = log₁ ++ x :: log₂ → x.1.src = ob →
    x.2.Smooth x.1 (projectAll log₁)
  mirrors : s.queueSize = 0 → ∀ id, Mirrors tr s id ((projectAll log).liveOrders ob id)

section Mirrors

variable {s : OrderBook} {tr : List (Call × OrderBook)} {F : Multiset Item}

/-- The row of an order that was announced. -/
theorem mirrors_some {o : LiveOrder} {a : Announcement} (hann : announced id (traceActions tr) = [a])
    (hinit : o.amountInitial = a.amount)
    (hfills : o.amountInitial = o.amountRemaining + filledOf id (traceActions tr))
    (hopen : o.status = .OPEN ↔ s.Stored id)
    (hrest : s.Stored id → o.amountRemaining = (s.order id).amount)
    (hfilled : o.status = .FILLED ↔ Ended id (traceOuts tr))
    (hcancelled : o.status = .CANCELLED ↔ ¬ s.Stored id ∧ ¬ Ended id (traceOuts tr)) :
    Mirrors tr s id (some o) := by
  refine ⟨?_, ?_, ?_, ?_, ?_, ?_, ?_, ?_⟩
  · rw [hann]
    exact le_rfl
  · simp [hann]
  · simpa using hopen
  · intro o' ho' hst
    cases ho'
    exact hrest hst
  · intro o' ho' a' ha'
    cases ho'
    rw [hann, List.mem_singleton] at ha'
    rw [ha', hinit]
  · intro o' ho'
    cases ho'
    exact hfills
  · intro o' ho'
    cases ho'
    exact hfilled
  · intro o' ho'
    cases ho'
    exact hcancelled

/-- A row that shows the life of an order mirrors it. -/
theorem Stands.mirrors (hs : s.Ok)
    (hst : Stands id (if s.Stored id then {Item.ofOrder id (s.core id)} else 0) (traceOuts tr))
    (hpub : published (traceActions tr) = told (traceOuts tr))
    (hshow : ∀ l, lifeOf id (published (traceActions tr)) = some l → l.Shows row) :
    Mirrors tr s id row := by
  rw [hpub] at hshow
  have hann : (told (traceOuts tr)).filterMap (Report.announces? id) =
      announced id (traceActions tr) := by
    rw [OrderBook.announced_published, hpub]
  have hfill : ((told (traceOuts tr)).map (Report.filledFor id)).sum =
      filledOf id (traceActions tr) := by
    rw [OrderBook.filledOf_published, hpub]
  have hgone : (if s.Stored id then {Item.ofOrder id (s.core id)} else (0 : Multiset Item)) = 0 →
      ¬ s.Stored id := by
    intro hF hstored
    rw [if_pos hstored] at hF
    exact absurd hF (Multiset.singleton_ne_zero _)
  cases hst with
  | unplaced hF hl =>
    obtain ⟨h1, -⟩ := lifeOf_sums hl
    rw [hann] at h1
    have hrow : row = none := hshow _ hl
    subst hrow
    have hno := hgone hF
    refine ⟨?_, ?_, ?_, ?_, ?_, ?_, ?_, ?_⟩
    · rw [h1]
      exact Nat.zero_le _
    · simp [h1]
    · simpa using hno
    all_goals
      intro o ho
      cases ho
  | live x asked filled hF hl he hx =>
    obtain ⟨⟨a, h1, h2⟩, h3, -⟩ := lifeOf_sums hl
    rw [hann] at h1
    rw [hfill] at h3
    obtain ⟨o, rfl, hopen, hinit, hpos, hsum⟩ := hshow _ hl
    have hstored : s.Stored id := by
      by_contra hno
      rw [if_neg hno] at hF
      exact absurd hF.symm (Multiset.singleton_ne_zero _)
    rw [if_pos hstored] at hF
    have hxo : x = Item.ofOrder id (s.core id) := (Multiset.singleton_inj.mp hF).symm
    -- a resting order is no market order, so its amount is in base
    have hbase : x.TradesBase := by
      intro hc
      have hlimit : (s.makerItem id).isMarket = false := hs.book.limit id hstored
      rw [hxo] at hc
      exact absurd (hc.2.symm.trans hlimit) (by decide)
    have hasked := hx.base hbase
    have hamount : x.amount = (s.order id).amount := by
      rw [hxo]
      rfl
    apply mirrors_some h1 (hinit.trans h2.symm)
    · omega
    · exact ⟨fun _ => hstored, fun _ => hopen⟩
    · intro _
      omega
    · rw [hopen]
      exact ⟨fun hc => LiveStatus.noConfusion hc, fun hc => absurd hc he⟩
    · rw [hopen]
      exact ⟨fun hc => LiveStatus.noConfusion hc, fun hc => absurd hstored hc.1⟩
  | filled asked hF hl he =>
    obtain ⟨⟨a, h1, h2⟩, h3⟩ := lifeOf_sums hl
    rw [hann] at h1
    rw [hfill] at h3
    obtain ⟨o, rfl, hstatus, hinit, hzero⟩ := hshow _ hl
    have hno := hgone hF
    apply mirrors_some h1 (hinit.trans h2.symm)
    · omega
    · rw [hstatus]
      exact ⟨fun hc => LiveStatus.noConfusion hc, fun hc => absurd hc hno⟩
    · exact fun hc => absurd hc hno
    · exact ⟨fun _ => he, fun _ => hstatus⟩
    · rw [hstatus]
      exact ⟨fun hc => LiveStatus.noConfusion hc, fun hc => absurd he hc.2⟩
  | cancelled asked filled hF hl he =>
    obtain ⟨⟨a, h1, h2⟩, h3, -⟩ := lifeOf_sums hl
    rw [hann] at h1
    rw [hfill] at h3
    obtain ⟨o, rfl, hstatus, hinit, hsum⟩ := hshow _ hl
    have hno := hgone hF
    apply mirrors_some h1 (hinit.trans h2.symm)
    · omega
    · rw [hstatus]
      exact ⟨fun hc => LiveStatus.noConfusion hc, fun hc => absurd hc hno⟩
    · exact fun hc => absurd hc hno
    · rw [hstatus]
      exact ⟨fun hc => LiveStatus.noConfusion hc, fun hc => absurd hc he⟩
    · exact ⟨fun _ => ⟨hno, he⟩, fun _ => hstatus⟩

theorem Stands.life (h : Stands id F os) : ∃ l, lifeOf id (told os) = some l := by
  cases h with
  | unplaced _ hl _ => exact ⟨_, hl⟩
  | live _ _ _ _ hl _ _ => exact ⟨_, hl⟩
  | filled _ _ hl _ => exact ⟨_, hl⟩
  | cancelled _ _ _ hl _ => exact ⟨_, hl⟩

end Mirrors

/-- The read model simulates every run whose orders it can follow, whatever other contracts emit
in between. -/
theorem read_model_simulates {market : MarketId} {resultStart numOutcomes : ℕ}
    {tr : List (Call × OrderBook)} {s : OrderBook}
    (h : Run OrderBook.step (OrderBook.init market resultStart numOutcomes) tr s)
    (hc : OrderBook.EachAfter OrderBook.CallFollowed []
      (OrderBook.init market resultStart numOutcomes) tr)
    (ob : Addr) (log : List (EventNode × PredictionEvent))
    (hlog : (log.filter fun x => decide (x.1.src = ob)).map Prod.snd = bookLog tr) :
    Simulates tr s ob log := by
  have hbuy : OrderBook.EachAfter OrderBook.CallBuysAsAnnounced []
      (OrderBook.init market resultStart numOutcomes) tr :=
    hc.imp fun H s c hstep u hu => (hstep u hu).market
  have hstands (id : ℕ) : Stands id (Item.placedAs id s.items) (traceOuts tr) :=
    OrderBook.run_stands h (OrderBook.run_lawful h hbuy id)
  have hparses := OrderBook.run_parses h hc
  have hpub := OrderBook.run_paired h
  have hevents : bookEvents ob log = (published (traceActions tr)).map Report.prediction := by
    rw [bookEvents, hlog, published_prediction]
    rfl
  refine ⟨fun log₁ x log₂ hx hsrc => ?_, fun hq id => ?_⟩
  · refine log_smooth hevents hparses (fun id => ?_) hx hsrc
    rw [hpub]
    exact (hstands id).life
  · have hok := OrderBook.run_ok h
    have hst := hstands id
    rw [OrderBook.items_resting hok hq] at hst
    exact hst.mirrors hok hpub fun l hl => rowAfter_shows hevents hparses hl

section Samples

/-- A market buy of note 8 over the ask of note 7. -/
def marketBuy (quote : ℕ) : PlaceParams := ⟨0, true, FLAG_MARKET, 0, quote, 0, 0, 0⟩

def marketBuyTrace (quote : ℕ) : List (Call × OrderBook) :=
  Run.trace OrderBook.step OrderBook.sampleBook
    [.executeBatch (.note 7) 1 7 [OrderBook.sampleAsk] [] 1,
      .executeBatch (.note 8) 1 8 [marketBuy quote] [] 1]

def marketBuyBook (quote : ℕ) : OrderBook := Run.last OrderBook.sampleBook (marketBuyTrace quote)

/-- Address of the book of the sample market. -/
def sampleBookAddr : Addr := .orderBook OrderBook.sampleMarket

/-- The log of the run as the indexer gets it. -/
def marketBuyLog (quote : ℕ) : List (EventNode × PredictionEvent) :=
  (bookLog (marketBuyTrace quote)).zipIdx.map fun x => (⟨sampleBookAddr, x.2, none⟩, x.1)

theorem marketBuy_run (quote : ℕ) :
    Run OrderBook.step OrderBook.sampleBook (marketBuyTrace quote) (marketBuyBook quote) :=
  Run.trace_run ..

/-- Ten million of quote buy all of an ask of four million units. -/
theorem read_model_simulates_sample :
    (marketBuyBook 10000000).queueSize = 0 ∧
      Simulates (marketBuyTrace 10000000) (marketBuyBook 10000000) sampleBookAddr
        (marketBuyLog 10000000) := by
  refine ⟨by decide +kernel, ?_⟩
  exact read_model_simulates (marketBuy_run 10000000) (by decide +kernel) sampleBookAddr
    (marketBuyLog 10000000) (by decide +kernel)

/-- Two million of quote buy them as well, twice what the order announced. -/
theorem market_buy_not_simulated :
    Run OrderBook.step OrderBook.sampleBook (marketBuyTrace 2000000) (marketBuyBook 2000000) ∧
      ((marketBuyLog 2000000).filter fun x => decide (x.1.src = sampleBookAddr)).map Prod.snd =
        bookLog (marketBuyTrace 2000000) ∧
      ¬ Simulates (marketBuyTrace 2000000) (marketBuyBook 2000000) sampleBookAddr
        (marketBuyLog 2000000) := by
  refine ⟨marketBuy_run 2000000, by decide +kernel, fun hsim => ?_⟩
  have hfills := (hsim.mirrors (by decide +kernel) 2).fills
  have hoff : ((projectAll (marketBuyLog 2000000)).liveOrders sampleBookAddr 2).any (fun o =>
      decide (o.amountInitial ≠
        o.amountRemaining + filledOf 2 (traceActions (marketBuyTrace 2000000)))) = true := by
    decide +kernel
  obtain ⟨o, ho, hne⟩ := (Option.any_eq_true _ _).mp hoff
  exact of_decide_eq_true hne (hfills o ho)

end Samples

end Dexdo
