import Dexdo.OrderBook.History
import Dexdo.OrderBook.Priority

namespace Dexdo

namespace Book

/-- Every order of `c` rests just the same in `b`. -/
def Thins (b c : Book) : Prop := ∀ i, c.Stored i → b.Stored i ∧ c.core i = b.core i

theorem Thins.refl (b : Book) : b.Thins b := fun _ hi => ⟨hi, rfl⟩

theorem Thins.of_eq {b c : Book} (h : c = b) : b.Thins c := h ▸ .refl b

theorem Thins.trans {b c d : Book} (h : b.Thins c) (h' : c.Thins d) : b.Thins d := by
  intro i hi
  obtain ⟨h1, h2⟩ := h' i hi
  exact ⟨(h i h1).1, h2.trans (h i h1).2⟩

theorem Rep.thins_remove {b : Book} {n id : ℕ} {A : Index} (r : b.Rep n A) (hs : b.Stored id) :
    b.Thins (b.removeFromBook id) := by
  intro i hi
  obtain ⟨hne, hi⟩ := (removeFromBook_stored r hs i).mp hi
  rw [removeFromBook_core r hs, if_neg hne]
  exact ⟨hi, rfl⟩

end Book

namespace OrderBook

variable {s t u v : OrderBook} {e : QueueEntry} {rest : List QueueEntry} {K : Multiset Item}
  {c : Option ℕ} {A : Book.Index}

section Cancelling

theorem cancelResting_thins (h : s.BookOk) (pnHash id opNonce : ℕ) (hs : s.Stored id) :
    s.Thins (s.cancelResting pnHash id opNonce c).toBook := by
  obtain ⟨A, r⟩ := h.rep
  exact r.thins_remove hs

theorem doCancel_thins (h : s.BookOk) (callerHash id opNonce batch : ℕ) :
    s.Thins (s.doCancel callerHash id opNonce batch).toBook := by
  unfold doCancel
  dsimp only
  split_ifs with h1 h2
  · exact .refl _
  · exact .refl _
  · apply cancelResting_thins h
    by_contra hs
    apply h1
    rw [not_stored_order hs]
    exact ⟨rfl, rfl⟩

theorem doCancelAll_thins (h : s.BookOk) (callerHash opNonce batch : ℕ) :
    s.Thins (s.doCancelAll callerHash opNonce batch).1.toBook :=
  doCancelAll_rule (R := fun s t => s.Thins t.toBook) (fun _ _ => .refl _) (fun _ _ _ => .trans)
    callerHash opNonce batch (fun _ id h hs _ => cancelResting_thins h callerHash id opNonce hs) h

theorem drain_thins (ids : List ℕ) (h : s.BookOk) (hn : ids.Nodup) (hs : ∀ i ∈ ids, s.Stored i) :
    s.Thins (ids.foldl (fun s oid =>
      s.cancelResting (s.order oid).depositHash oid 0 none) s).toBook :=
  (drain_rule (R := fun s t => s.Thins t.toBook) (fun _ _ => .refl _) (fun _ _ _ => .trans)
    (fun _ id h hs => cancelResting_thins h _ id 0 hs) ids h hn hs).1

theorem drainPass_thins (hs : s.Ok) : s.Thins s.drainPass.toBook := by
  rw [drainPass_eq, drainClose_fields.1]
  apply drain_thins (s := s.drainOpen) _ (hs.book.of_toBook rfl le_rfl)
  · exact (List.nodup_range' ..).filter _
  · intro i hi
    rw [scan_filter hs] at hi
    exact of_decide_eq_true (List.mem_filter.mp hi).2

end Cancelling

/-- The book an uncapped match leaves: what was filled is gone, and a remainder that may rest
is in. -/
def settledBook (u : OrderBook) (e : QueueEntry) : Book :=
  let p := e.params
  let w := u.passWalk p
  let b := u.toBook.consumeAll p.outcomeId w.fills
  if 0 < w.remaining ∧ ¬ (p.isIoc ∨ p.isFok ∨ p.isMarket) then
    b.insertIntoBook (u.openOrder e).2 e.depositHash p p.storedPrice w.remaining
      (e.filledAccum + (w.fills.map Fill.trade).sum) e.opNonce e.sub
  else b

/-- The head entry an unfinished pre-check leaves. -/
def deferred (e : QueueEntry) (orderId accum lastPrice : ℕ) : QueueEntry :=
  { e with targetOrderId := orderId, precheckDone := false,
           precheckAccum := accum, precheckLastPrice := lastPrice }

/-- Placement and fills a matching pass over entry `e` reports. -/
def matchActions (u : OrderBook) (e : QueueEntry) : List Action :=
  u.openedActions e ++ tradeActions u.toBook e (u.openOrder e).2 u.numOutcomes u.matchSeq
    (u.passWalk e.params).fills

/-- What one call of `_processHeadCore` does to the resting orders, the queue and the order ids,
and the placement and fills it reports. -/
inductive Turn (u t : OrderBook) : List Action → Prop
  | idle (hq : u.shuttingDown = true ∨ u.queueSize = 0) (hl : t.toQueue.list = u.toQueue.list)
      (hb : t.toBook = u.toBook) (hn : t.nextOrderId = u.nextOrderId) : Turn u t []
  | thinned (e : QueueEntry) (rest stay : List QueueEntry) (hl : u.toQueue.list = e :: rest)
      (he : e.entryType ≠ .place) (hl' : t.toQueue.list = stay ++ rest) (hs : ∀ x ∈ stay, x = e)
      (hb : u.Thins t.toBook) (hn : t.nextOrderId = u.nextOrderId) : Turn u t []
  | refused (e : QueueEntry) (rest : List QueueEntry) (hl : u.toQueue.list = e :: rest)
      (hd : u.shutdownPending = true ∧ e.precheckDone = false) (hl' : t.toQueue.list = rest)
      (hb : t.toBook = u.toBook) (hn : t.nextOrderId = u.nextOrderId) : Turn u t []
  | stopped (e : QueueEntry) (rest : List QueueEntry) (hl : u.toQueue.list = e :: rest)
      (he : e.entryType = .place)
      (hc : (e.targetOrderId = 0 ∧ u.postOnlyCrosses e.params = true) ∨ u.precheck e = .notReached)
      (hl' : t.toQueue.list = rest) (hb : t.toBook = u.toBook)
      (hn : t.nextOrderId = (u.openOrder e).1.nextOrderId) : Turn u t (u.openedActions e)
  | deferred (e : QueueEntry) (rest : List QueueEntry) (accum lastPrice : ℕ)
      (hl : u.toQueue.list = e :: rest) (he : e.entryType = .place)
      (hc : u.precheck e = .outOfBudget accum lastPrice)
      (hl' : t.toQueue.list = deferred e (u.openOrder e).2 accum lastPrice :: rest)
      (hb : t.toBook = u.toBook) (hn : t.nextOrderId = (u.openOrder e).1.nextOrderId) :
      Turn u t (u.openedActions e)
  | capped (e : QueueEntry) (rest : List QueueEntry) (hl : u.toQueue.list = e :: rest)
      (hm : u.matchingEntry = some e) (hc : (u.passWalk e.params).halt = .hitCapWithMore)
      (hl' : t.toQueue.list = resumed e (u.openOrder e).2 (u.passMatch e) :: rest)
      (hb : t.toBook = u.toBook.consumeAll e.params.outcomeId (u.passWalk e.params).fills)
      (hn : t.nextOrderId = (u.openOrder e).1.nextOrderId) : Turn u t (u.matchActions e)
  | settled (e : QueueEntry) (rest : List QueueEntry) (hl : u.toQueue.list = e :: rest)
      (hm : u.matchingEntry = some e) (hc : (u.passWalk e.params).halt ≠ .hitCapWithMore)
      (hl' : t.toQueue.list = rest) (hb : t.toBook = u.settledBook e)
      (hn : t.nextOrderId = (u.openOrder e).1.nextOrderId) : Turn u t (u.matchActions e)

theorem processHeadCore_place (h1 : u.shuttingDown = false) (h2 : u.queueSize ≠ 0)
    (hq : u.queue u.queueHead = e) (h3 : ¬ (u.shutdownPending ∧ ¬ e.precheckDone))
    (h4 : e.entryType = .place) :
    u.processHeadCore = ((u.doPlace e).1.leaveHead e (u.doPlace e).2).pokeNext := by
  unfold processHeadCore
  dsimp only
  rw [if_neg (by simp [h1]), if_neg h2, hq, if_neg h3]
  simp only [runHead, h4, reduceCtorEq, if_false]
  rcases u.doPlace e with ⟨v, _ | e'⟩ <;> rfl

theorem settleTaker_fields (m : MatchState) (e : QueueEntry) (orderId : ℕ) :
    (settleTaker m e orderId).toBook = (settleRest m e orderId).toBook ∧
      (settleTaker m e orderId).nextOrderId = m.book.nextOrderId := by
  have hn : (settleRest m e orderId).nextOrderId = m.book.nextOrderId := by
    unfold settleRest
    dsimp only
    split_ifs <;> rfl
  obtain ⟨evs, hev⟩ := settleTaker_eq m e orderId
  obtain ⟨h1, h2⟩ := emit_all_toBook (s := settleRest m e orderId) evs
  rw [hev]
  exact ⟨h1, h2.trans hn⟩

theorem settleRest_toBook (m : MatchState) (e : QueueEntry) (orderId : ℕ) :
    (settleRest m e orderId).toBook =
      if 0 < m.remaining ∧ ¬ (e.params.isIoc ∨ e.params.isFok ∨ e.params.isMarket) then
        m.book.toBook.insertIntoBook orderId e.depositHash e.params e.params.storedPrice
          m.remaining m.filledAccum e.opNonce e.sub
      else m.book.toBook := by
  unfold settleRest
  dsimp only
  by_cases h0 : 0 < m.remaining
  · by_cases hc : e.params.isIoc ∨ e.params.isFok ∨ e.params.isMarket
    · rw [if_pos h0, if_pos hc, if_neg (not_and_not_right.mpr fun _ => hc)]
      rfl
    · rw [if_pos h0, if_neg hc, if_pos ⟨h0, hc⟩]
      rfl
  · rw [if_neg h0, if_neg fun h => h0 h.1]

theorem passMatch_history (h : u.BookOk) (e : QueueEntry) :
    (u.passMatch e).book.history = u.history ++ u.matchActions e := by
  obtain ⟨A, r⟩ := h.rep
  have hb := openOrder_toBook (u := u) e
  have hok : (u.openOrder e).1.FillsOk e.params.outcomeId (u.passWalk e.params).fills :=
    hb ▸ (passWalk_consumed h e.params).1
  have hN : (u.openOrder e).1.numOutcomes = u.numOutcomes ∧
      (u.openOrder e).1.matchSeq = u.matchSeq := by
    unfold openOrder
    split_ifs <;> exact ⟨rfl, rfl⟩
  unfold passMatch matchActions
  dsimp only
  rw [applyFills_history e _ (hb ▸ r.mono (openOrder_le e)) hok, openOrder_history, hb, hN.1, hN.2,
    List.append_assoc]

/-- The PLACE entry at the head takes one of four turns. -/
theorem doPlace_turn (h : u.Ok) (hl : u.toQueue.list = e :: rest) (he : e.entryType = .place)
    (hrun : u.shuttingDown = false ∧ u.queueSize ≠ 0 ∧ ¬ (u.shutdownPending ∧ ¬ e.precheckDone))
    (hq : u.queue u.queueHead = e) (hl' : t.toQueue.list = (u.doPlace e).2.toList ++ rest)
    (hb : t.toBook = (u.doPlace e).1.toBook) (hn : t.nextOrderId = (u.doPlace e).1.nextOrderId) :
    ∃ as, Turn u t as ∧ (u.doPlace e).1.history = u.history ++ as := by
  have hob := openOrder_toBook (u := u) e
  by_cases hstop : (e.targetOrderId = 0 ∧ u.postOnlyCrosses e.params = true) ∨
      u.precheck e = .notReached
  · have hdp : u.doPlace e = ((u.openOrder e).1.cancelTaker e (u.openOrder e).2
        (Book.collateralFor e.params.isBuy e.params.storedPrice e.params.amount), none) := by
      unfold doPlace placePhases
      dsimp only
      rw [postOnlyCrosses_congr hob, precheck_congr hob]
      by_cases hpo : e.targetOrderId = 0 ∧ u.postOnlyCrosses e.params = true
      · rw [if_pos hpo]
      · rw [if_neg hpo, hstop.resolve_left hpo]
    rw [hdp] at hl' hb hn ⊢
    refine ⟨_, .stopped e rest hl he hstop hl' (hb.trans hob) hn, ?_⟩
    rw [cancelTaker_history, openOrder_history]
  obtain ⟨hpo, hnr⟩ := not_or.mp hstop
  cases hpre : u.precheck e with
  | notReached => exact absurd hpre hnr
  | outOfBudget accum lastPrice =>
    have hdp : u.doPlace e = ((u.openOrder e).1, some (OrderBook.deferred e (u.openOrder e).2 accum
        lastPrice)) := by
      unfold doPlace placePhases
      dsimp only
      rw [postOnlyCrosses_congr hob, precheck_congr hob, if_neg hpo, hpre]
      rfl
    rw [hdp] at hl' hb hn ⊢
    exact ⟨_, .deferred e rest accum lastPrice hl he hpre hl' (hb.trans hob) hn,
      openOrder_history e⟩
  | reached =>
    have hm : u.matchingEntry = some e :=
      matchingEntry_iff.mpr ⟨⟨hrun.1, hrun.2.1, hrun.2.2, he, hpo, hpre⟩, hq⟩
    have hdp := doPlace_matching h.book hm
    have hseq : (u.passMatch e).book.nextOrderId = (u.openOrder e).1.nextOrderId :=
      applyFills_nextOrderId ..
    by_cases hc : (u.passWalk e.params).halt = .hitCapWithMore
    · rw [if_pos (show (u.passMatch e).halt = .hitCapWithMore from hc)] at hdp
      rw [hdp] at hl' hb hn ⊢
      exact ⟨_, .capped e rest hl hm hc hl' (hb.trans (passMatch_toBook e)) (hn.trans hseq),
        passMatch_history h.book e⟩
    · rw [if_neg (show (u.passMatch e).halt ≠ .hitCapWithMore from hc)] at hdp
      rw [hdp] at hl' hb hn ⊢
      obtain ⟨g1, g2⟩ := settleTaker_fields (u.passMatch e) e (u.openOrder e).2
      refine ⟨_, .settled e rest hl hm hc hl' ?_ (hn.trans (g2.trans hseq)), ?_⟩
      · rw [hb, g1, settleRest_toBook, passMatch_toBook]
        rfl
      · rw [settleTaker_history, passMatch_history h.book]

/-- Every call of `_processHeadCore` is a turn. -/
theorem processHeadCore_turn (h : u.Ok) :
    ∃ as, Turn u u.processHeadCore as ∧ u.processHeadCore.history = u.history ++ as := by
  by_cases h1 : u.shuttingDown = true
  · have hp : u.processHeadCore = u := by simp [processHeadCore, h1]
    rw [hp]
    exact ⟨[], .idle (.inl h1) rfl rfl rfl, (List.append_nil _).symm⟩
  have h1' := Bool.eq_false_iff.mpr h1
  by_cases h2 : u.queueSize = 0
  · have hp : u.processHeadCore = if u.shutdownPending then u.act .shutdown else u := by
      simp [processHeadCore, h1', h2]
    rw [hp]
    split_ifs
    · refine ⟨[], .idle (.inr h2) rfl rfl rfl, ?_⟩
      rw [act_history_silent rfl, List.append_nil]
    · exact ⟨[], .idle (.inr h2) rfl rfl rfl, (List.append_nil _).symm⟩
  obtain ⟨e, hq⟩ : ∃ e, u.queue u.queueHead = e := ⟨_, rfl⟩
  obtain ⟨rest, hl⟩ : ∃ rest, u.toQueue.list = e :: rest := ⟨_, hq ▸ h.list_cons h2⟩
  obtain ⟨hpk1, hpk2, hpk3⟩ := pokeNext_fields (u := (u.refuse e).leaveHead e none)
  by_cases h3 : u.shutdownPending ∧ ¬ e.precheckDone
  · have hp : u.processHeadCore = ((u.refuse e).leaveHead e none).pokeNext := by
      unfold processHeadCore
      dsimp only
      rw [if_neg h1, if_neg h2, hq, if_pos h3, refuseHead_eq]
    obtain ⟨g1, g2⟩ := refuse_fields (s := u) (e := e)
    obtain ⟨k1, k2, -⟩ := leaveHead_fields (u.refuse e) e none
    have hf := (refuse_emits (s := u) (e := e) 0).1
    have hlist := (leaveHead_list (hf.toQueue ▸ h.queue) (hf.toQueue ▸ hl) none).2
    rw [hp]
    refine ⟨[], .refused e _ hl ⟨h3.1, by simpa using h3.2⟩ ?_ ?_ ?_, by simp⟩
    · rw [hpk1]
      exact hlist
    · rw [hpk2, k1, g1]
    · rw [hpk3, k2, g2]
  cases ht : e.entryType with
  | none => exact absurd ht (h.typed e (by rw [hl]; simp))
  | place =>
    have hp := processHeadCore_place h1' h2 hq h3 ht
    have hf : Frame u (u.doPlace e).1 :=
      (doPlace_spec (K := 0) e h.book h.pos (h.amount e (by rw [hl]; simp) ht)
        (h.head e (by rw [hl]; rfl) ht)).emits.1
    have hlist := (leaveHead_list (hf.toQueue ▸ h.queue) (hf.toQueue ▸ hl) (u.doPlace e).2).2
    obtain ⟨g1, g2, g3⟩ := pokeNext_fields (u := (u.doPlace e).1.leaveHead e (u.doPlace e).2)
    obtain ⟨k1, k2, -⟩ := leaveHead_fields (u.doPlace e).1 e (u.doPlace e).2
    obtain ⟨as, hturn, hh⟩ := doPlace_turn (t := u.processHeadCore) h hl ht ⟨h1', h2, h3⟩ hq
      (by rw [hp, g1, hlist]) (by rw [hp, g2, k1]) (by rw [hp, g3, k2])
    refine ⟨as, hturn, ?_⟩
    rw [hp, pokeNext_history, leaveHead_history, hh]
  | cancel =>
    have hp : u.processHeadCore =
        ((u.doCancel e.depositHash e.targetOrderId e.opNonce e.batch).leaveHead e none).pokeNext := by
      unfold processHeadCore
      dsimp only
      rw [if_neg h1, if_neg h2, hq, if_neg h3]
      simp [runHead, ht, leaveHead]
    have hc := doCancel_spec (K := 0) h.book e.depositHash e.targetOrderId e.opNonce e.batch
    have hf := hc.emits.1
    have hlist := (leaveHead_list (hf.toQueue ▸ h.queue) (hf.toQueue ▸ hl) none).2
    obtain ⟨g1, g2, g3⟩ := pokeNext_fields
      (u := (u.doCancel e.depositHash e.targetOrderId e.opNonce e.batch).leaveHead e none)
    obtain ⟨k1, k2, -⟩ := leaveHead_fields
      (u.doCancel e.depositHash e.targetOrderId e.opNonce e.batch) e none
    rw [hp]
    refine ⟨[], .thinned e _ [] hl (by simp [ht]) (by rw [g1]; exact hlist) (by simp) ?_ ?_, ?_⟩
    · rw [g2, k1]
      exact doCancel_thins h.book _ _ _ _
    · rw [g3, k2, hc.nextId]
    · rw [pokeNext_history, leaveHead_history, doCancel_history, List.append_nil]
  | cancelAll =>
    set r := u.doCancelAll e.depositHash e.opNonce e.batch with hr
    have hc := doCancelAll_spec (K := 0) h.book e.depositHash e.opNonce e.batch
    rw [← hr] at hc
    have hf := hc.emits.1
    obtain ⟨y, hy, hp⟩ : ∃ y : Option QueueEntry, (y = none ∨ y = some e) ∧
        u.processHeadCore = (r.1.leaveHead e y).pokeNext := by
      have hcore : u.processHeadCore =
          (if MAX_CANCEL_ALL_PER_CALL ≤ r.2 then r.1 else r.1.finishHead e).pokeNext := by
        unfold processHeadCore
        dsimp only
        rw [if_neg h1, if_neg h2, hq, if_neg h3]
        simp [runHead, ht, hr]
      by_cases hmore : MAX_CANCEL_ALL_PER_CALL ≤ r.2
      · refine ⟨some e, .inr rfl, ?_⟩
        rw [hcore, if_pos hmore, leaveHead_self hf hq]
      · refine ⟨none, .inl rfl, ?_⟩
        rw [hcore, if_neg hmore]
        rfl
    have hlist := (leaveHead_list (hf.toQueue ▸ h.queue) (hf.toQueue ▸ hl) y).2
    obtain ⟨g1, g2, g3⟩ := pokeNext_fields (u := r.1.leaveHead e y)
    obtain ⟨k1, k2, -⟩ := leaveHead_fields r.1 e y
    rw [hp]
    refine ⟨[], .thinned e _ y.toList hl (by simp [ht]) (by rw [g1]; exact hlist) ?_ ?_ ?_, ?_⟩
    · intro x hx
      rw [Option.mem_toList] at hx
      rcases hy with rfl | rfl
      · cases hx
      · exact (Option.some.inj hx).symm
    · rw [g2, k1]
      exact doCancelAll_thins h.book _ _ _
    · rw [g3, k2, hc.nextId]
    · rw [pokeNext_history, leaveHead_history, hr, doCancelAll_history, List.append_nil]

theorem Turn.of_same {as : List Action} (h : Turn u t as) (hs : SameStore t v) : Turn u v as := by
  have h1 : v.toQueue = t.toQueue := by rw [hs]
  have h2 : v.toBook = t.toBook := by rw [hs]
  have h3 : v.nextOrderId = t.nextOrderId := by rw [hs]
  cases h with
  | idle hq hl hb hn => exact .idle hq (h1 ▸ hl) (h2.trans hb) (h3.trans hn)
  | thinned e rest stay hl he hl' hs hb hn =>
    exact .thinned e rest stay hl he (h1 ▸ hl') hs (h2 ▸ hb) (h3.trans hn)
  | refused e rest hl hd hl' hb hn =>
    exact .refused e rest hl hd (h1 ▸ hl') (h2.trans hb) (h3.trans hn)
  | stopped e rest hl he hc hl' hb hn =>
    exact .stopped e rest hl he hc (h1 ▸ hl') (h2.trans hb) (h3.trans hn)
  | deferred e rest accum lastPrice hl he hc hl' hb hn =>
    exact .deferred e rest accum lastPrice hl he hc (h1 ▸ hl') (h2.trans hb) (h3.trans hn)
  | capped e rest hl hm hc hl' hb hn =>
    exact .capped e rest hl hm hc (h1 ▸ hl') (h2.trans hb) (h3.trans hn)
  | settled e rest hl hm hc hl' hb hn =>
    exact .settled e rest hl hm hc (h1 ▸ hl') (h2.trans hb) (h3.trans hn)

/-- A transaction that does not reach the head of the queue drops orders at most and reports
nothing. -/
structure Aside (s t : OrderBook) : Prop where
  queue : t.toQueue = s.toQueue
  book : s.Thins t.toBook
  nextId : t.nextOrderId = s.nextOrderId
  history : t.history = []
  frozen : s.queueSize ≠ 0 → t.toBook = s.toBook

theorem drainPass_aside (hs : s.Ok) (hq : s.queueSize = 0) (h0 : s.history = []) :
    Aside s s.drainPass := by
  have hquiet := (drainCancel_spec hs).1
  refine ⟨?_, drainPass_thins hs, ?_, ?_, fun hne => absurd hq hne⟩
  · rw [drainPass_eq, drainClose_fields.2.1]
    exact hquiet.emits.1.toQueue
  · rw [drainPass_eq, drainClose_fields.2.2.1, hquiet.nextId]
    rfl
  · rw [drainPass_eq, drainClose_history, drainCancel_history, h0]

/-- What a transaction does: it takes a turn at the head of the queue, or stays aside. -/
theorem step_turn (hs : s.Ok) {c : Call} (h : s.step c = some t) :
    (∃ u as, s.atHead c = some u ∧ Enters s u ∧ Turn u t as ∧ t.history = as) ∨
    (s.atHead c = none ∧ Aside s t) := by
  have hturn : ∀ u, s.atHead c = some u → Enters s u → SameStore u.processHeadCore t →
      u.history = [] → t.history = u.processHeadCore.history →
      ∃ u as, s.atHead c = some u ∧ Enters s u ∧ Turn u t as ∧ t.history = as := by
    intro u hu hent hsame h0 hh
    obtain ⟨as, hturn, has⟩ := processHeadCore_turn hent.ok
    rw [h0, List.nil_append] at has
    exact ⟨u, as, hu, hent, hturn.of_same hsame, hh.trans has⟩
  have hbegin : s.begin.history = [] := rfl
  have hat := step_atHead hs h
  have hstep := h
  replace h := step_body h
  unfold body at h
  split_ifs at h with hd
  cases c with
  | executeBatch =>
    left
    obtain ⟨u, hu, hent, hsame⟩ | ⟨hu, -⟩ := hat
    · obtain rfl := Option.some.inj hu
      refine hturn _ hu hent hsame (enqueueBatch_history ..) ?_
      simp only [executeBatch, bind_iff, pure_iff] at h
      obtain ⟨-, -, -, -, -, rfl⟩ := h
      exact closeBatch_history ..
    · simp [atHead] at hu
  | cancelAllOrders sender now hh o =>
    left
    obtain ⟨u, hu, hent, hsame⟩ | ⟨hu, -⟩ := hat
    · obtain rfl := Option.some.inj hu
      refine hturn _ hu hent hsame (enqueuedCancelAll_history ..) ?_
      simp only [cancelAllOrders, bind_iff, pure_iff] at h
      obtain ⟨-, -, -, rfl⟩ := h
      exact closeBatch_history (s.begin.enqueuedCancelAll hh o) ..
    · simp [atHead] at hu
  | processHead =>
    left
    obtain ⟨u, hu, hent, hsame⟩ | ⟨hu, -⟩ := hat
    · obtain rfl := Option.some.inj hu
      refine hturn _ hu hent hsame hbegin ?_
      rw [← Option.some.inj h]
      rfl
    · simp [atHead] at hu
  | setResultStart =>
    right
    simp only [setResultStart, bind_iff, pure_iff] at h
    obtain ⟨-, -, -, rfl⟩ := h
    exact ⟨rfl, rfl, .refl _, rfl, rfl, fun _ => rfl⟩
  | shutdown =>
    right
    simp only [shutdown, bind_iff, pure_iff] at h
    obtain ⟨-, rfl⟩ := h
    refine ⟨rfl, ?_⟩
    by_cases hq : 0 < s.begin.queueSize ∧ ¬ s.begin.shuttingDown
    · rw [if_pos hq]
      exact ⟨rfl, .refl _, rfl, rfl, fun _ => rfl⟩
    · rw [if_neg hq]
      have hempty : s.begin.queueSize = 0 := by
        cases hsd : s.begin.shuttingDown with
        | true => exact ((begin_ok hs).down hsd).1
        | false => simpa [hsd] using hq
      have hd := drainPass_aside (begin_ok hs) hempty hbegin
      exact ⟨hd.queue, hd.book, hd.nextId, hd.history, hd.frozen⟩

end OrderBook

end Dexdo
