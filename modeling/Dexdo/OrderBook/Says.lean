import Dexdo.OrderBook.Acks

namespace Dexdo

/-- What a callback tells its note about the operation behind it, or about an order. -/
inductive Notice
  | placed (opNonce : ℕ)
  | rejected (opNonce : ℕ)
  | cancelled (opNonce : ℕ)
  | filled (isFinal : Bool)
  | complete (opNonce : ℕ)
  deriving DecidableEq

def Callback.notice : Callback → Notice
  | .onOrderPlaced _ _ _ _ _ _ _ _ _ n => .placed n
  | .onOrderRejected _ _ _ _ _ _ _ n => .rejected n
  | .onOrderCancelled _ _ _ _ _ n => .cancelled n
  | .onOrderFilled _ _ _ _ _ _ _ _ isFinal _ _ => .filled isFinal
  | .onBatchComplete n => .complete n

/-- A PLACE entry the book has not answered yet. -/
def QueueEntry.Waits (e : QueueEntry) : Prop := e.entryType = .place ∧ e.targetOrderId = 0

instance (e : QueueEntry) : Decidable e.Waits := inferInstanceAs (Decidable (_ ∧ _))

namespace Out

/-- A fill of any order, or a cancellation that entry `e` of its note brings about. -/
def After (e : QueueEntry) (o : Out) : Prop :=
  (∃ b, o.cb.notice = .filled b) ∨ o.dest = e.depositHash ∧ o.cb.notice = .cancelled e.opNonce

/-- A refusal of the call of note `h` with nonce `n`. -/
def Refuses (h n : ℕ) (o : Out) : Prop := o.dest = h ∧ o.cb.notice = .rejected n

/-- A cancellation nobody asked for. -/
def Drained (o : Out) : Prop := o.cb.notice = .cancelled 0

end Out

/-- What a pass over head entry `e` sends, its acknowledgement apart: the answer to an entry that
waits for one comes first, and a refusal is the last word. -/
inductive Tells (e : QueueEntry) (stays : Bool) : List Out → Prop
  | later {os : List Out} (hw : ¬ e.Waits) (h : ∀ o ∈ os, o.After e) : Tells e stays os
  | placed {o : Out} {os : List Out} (hw : e.Waits) (hd : o.dest = e.depositHash)
      (hn : o.cb.notice = .placed e.opNonce) (h : ∀ o ∈ os, o.After e) : Tells e stays (o :: os)
  | rejected {o : Out} (hw : e.Waits) (hd : o.dest = e.depositHash)
      (hn : o.cb.notice = .rejected e.opNonce) (hs : stays = false) : Tells e stays [o]

namespace OrderBook

/-- Between `s` and `t` the book sends callbacks of kind `P` alone. -/
def Speaks (P : Out → Prop) (s t : OrderBook) : Prop :=
  ∃ os, t.outs = s.outs ++ os ∧ ∀ o ∈ os, P o

variable {P : Out → Prop} {s t u : OrderBook} {e : QueueEntry}

theorem Speaks.silent (P : Out → Prop) (h : t.outs = s.outs) : Speaks P s t :=
  ⟨[], by rw [h, List.append_nil], by simp⟩

theorem Speaks.trans (h : Speaks P s t) (h' : Speaks P t u) : Speaks P s u := by
  obtain ⟨os, ho, hP⟩ := h
  obtain ⟨os', ho', hP'⟩ := h'
  refine ⟨os ++ os', by rw [ho', ho, List.append_assoc], ?_⟩
  intro o hm
  rcases List.mem_append.mp hm with hm | hm
  · exact hP o hm
  · exact hP' o hm

theorem Speaks.then (h : Speaks P s t) (hu : u.outs = t.outs) : Speaks P s u :=
  h.trans (.silent P hu)

theorem callback_speaks {dest sub : ℕ} {cb : Callback} {c : Option ℕ}
    (h : P ⟨dest, cb, sub, c⟩) : Speaks P s (s.act (.callback dest cb sub c)) := by
  refine ⟨[⟨dest, cb, sub, c⟩], act_outs s _, ?_⟩
  simpa using h

theorem notifyCancelled_speaks {dest id k r cid n sub : ℕ} {b : Bool} {c : Option ℕ}
    (h : P ⟨dest, .onOrderCancelled id k b r cid n, sub, c⟩) :
    Speaks P s (s.notifyCancelled dest id k b r cid n sub c) :=
  (Speaks.silent P (emit_outs s _)).trans (callback_speaks h)

theorem processFillTo_speaks (dest id k a q : ℕ) (b : Bool) (r : ℕ) (isTaker isFinal : Bool)
    (cid i sub : ℕ) (c : Option ℕ) : Speaks (Out.After e) s
      (s.processFillTo dest id k a q b r isTaker isFinal cid i sub c) := by
  refine ⟨_, processFillTo_outs dest id k a q b r isTaker isFinal cid i sub c, ?_⟩
  intro o ho
  rw [List.mem_singleton.mp ho]
  exact .inl ⟨isFinal, rfl⟩

theorem fillMaker_speaks (x : QueueEntry) (id cur q remaining trade : ℕ) :
    Speaks (Out.After e) s (s.fillMaker x id cur q remaining trade) := by
  unfold fillMaker
  dsimp only
  refine Speaks.then ?_ (setBook_outs _ _)
  refine Speaks.then ?_ (emitMakerFill_outs _ _ _)
  refine Speaks.trans ?_ (processFillTo_speaks ..)
  refine Speaks.trans ?_ (processFillTo_speaks ..)
  exact .silent _ rfl

theorem matchLevel_speaks (x : QueueEntry) (id q left cur : ℕ) (s : OrderBook)
    (remaining acc : ℕ) :
    Speaks (Out.After e) s (matchLevel x id q left cur s remaining acc).book := by
  induction left generalizing cur s remaining acc with
  | zero =>
    unfold matchLevel
    split_ifs <;> exact .silent _ rfl
  | succ left ih =>
    unfold matchLevel
    split_ifs with h
    · exact .silent _ rfl
    · dsimp only
      split_ifs
      · exact .silent _ rfl
      · exact (fillMaker_speaks x id cur q remaining _).trans (ih ..)

theorem matchLevels_speaks (x : QueueEntry) (id fuel : ℕ) (l : Option (ℕ × PriceLevel))
    (m : MatchState) : Speaks (Out.After e) m.book (matchLevels x id fuel l m).book := by
  induction fuel generalizing l m with
  | zero => exact .silent _ rfl
  | succ fuel ih =>
    cases l with
    | none => exact .silent _ rfl
    | some l =>
      unfold matchLevels
      dsimp only
      have hl := matchLevel_speaks (e := e) x id l.1 m.left l.2.firstOrderId m.book m.remaining
        m.filledAccum
      split_ifs
      · exact .silent _ rfl
      · exact hl.trans (ih ..)
      · exact hl

theorem matchOrder_speaks (x : QueueEntry) (id : ℕ) :
    Speaks (Out.After e) s (s.matchOrder x id).book :=
  matchLevels_speaks x id _ _ _

theorem cancelTaker_speaks (id ret : ℕ) : Speaks (Out.After e) s (s.cancelTaker e id ret) :=
  notifyCancelled_speaks (.inr ⟨rfl, rfl⟩)

theorem settleRest_speaks (m : MatchState) (id : ℕ) :
    Speaks (Out.After e) m.book (settleRest m e id) := by
  unfold settleRest
  dsimp only
  split_ifs
  · exact cancelTaker_speaks id _
  · exact cancelTaker_speaks id _
  · exact .silent _ (setBook_outs _ _)
  · exact .silent _ rfl

theorem settleTaker_speaks (m : MatchState) (id : ℕ) :
    Speaks (Out.After e) m.book (settleTaker m e id) := by
  unfold settleTaker
  split_ifs
  · exact (settleRest_speaks m id).then (emit_outs _ _)
  · exact (settleRest_speaks m id).then (emit_outs _ _)
  · exact settleRest_speaks m id

theorem matchPhase_speaks (id : ℕ) : Speaks (Out.After e) s (s.matchPhase e id).1 := by
  unfold matchPhase
  dsimp only
  split_ifs
  · exact matchOrder_speaks e id
  · exact (matchOrder_speaks e id).trans (settleTaker_speaks _ id)

theorem placePhases_speaks (id : ℕ) : Speaks (Out.After e) s (s.placePhases e id).1 := by
  unfold placePhases
  dsimp only
  split_ifs
  · exact cancelTaker_speaks id _
  · cases s.precheck e with
    | reached => exact matchPhase_speaks id
    | notReached => exact cancelTaker_speaks id _
    | outOfBudget => exact .silent _ rfl

theorem emitOrderPlacedTo_says (id : ℕ) : ∃ o, (s.emitOrderPlacedTo e id).outs = s.outs ++ [o] ∧
    o.dest = e.depositHash ∧ o.cb.notice = .placed e.opNonce := by
  unfold emitOrderPlacedTo
  rw [act_outs, emit_outs]
  exact ⟨_, rfl, rfl, rfl⟩

theorem doPlace_tells (hp : e.entryType = .place) (stays : Bool) :
    ∃ os, (s.doPlace e).1.outs = s.outs ++ os ∧ Tells e stays os := by
  obtain ⟨os, ho, h⟩ := placePhases_speaks (s := (s.openOrder e).1) (e := e) (s.openOrder e).2
  change (s.doPlace e).1.outs = (s.openOrder e).1.outs ++ os at ho
  by_cases h0 : e.targetOrderId = 0
  · obtain ⟨o, hs, hd, hn⟩ := emitOrderPlacedTo_says (e := e)
      (s := { s with nextOrderId := s.nextOrderId + 1 }) s.nextOrderId
    have hopen : (s.openOrder e).1 =
        { s with nextOrderId := s.nextOrderId + 1 }.emitOrderPlacedTo e s.nextOrderId := by
      rw [openOrder, if_pos h0]
    refine ⟨o :: os, ?_, .placed ⟨hp, h0⟩ hd hn h⟩
    rw [ho, hopen, hs, List.append_assoc]
    rfl
  · rw [show (s.openOrder e).1 = s by rw [openOrder, if_neg h0]] at ho
    exact ⟨os, ho, .later (fun hw => h0 hw.2) h⟩

theorem cancelResting_speaks (id : ℕ) (c : Option ℕ) :
    Speaks (Out.After e) s (s.cancelResting e.depositHash id e.opNonce c) := by
  unfold cancelResting
  refine (Speaks.silent _ (setBook_outs s _)).trans (notifyCancelled_speaks ?_)
  exact .inr ⟨rfl, rfl⟩

theorem doCancel_speaks (id batch : ℕ) :
    Speaks (Out.After e) s (s.doCancel e.depositHash id e.opNonce batch) := by
  unfold doCancel
  dsimp only
  split_ifs
  · exact .silent _ rfl
  · exact .silent _ rfl
  · exact cancelResting_speaks id _

theorem cancelAllWalk_speaks (batch left cur : ℕ) (s : OrderBook) :
    Speaks (Out.After e) s (cancelAllWalk e.depositHash e.opNonce batch left cur s).1 := by
  induction left generalizing cur s with
  | zero => exact .silent _ rfl
  | succ left ih =>
    unfold cancelAllWalk
    split_ifs
    · exact .silent _ rfl
    · exact (cancelResting_speaks cur _).trans (ih ..)

theorem doCancelAll_speaks (batch : ℕ) :
    Speaks (Out.After e) s (s.doCancelAll e.depositHash e.opNonce batch).1 :=
  cancelAllWalk_speaks batch _ _ s

theorem Speaks.tells (h : Speaks (Out.After e) s t) (hw : ¬ e.Waits) (stays : Bool) :
    ∃ os, t.outs = s.outs ++ os ∧ Tells e stays os := by
  obtain ⟨os, ho, h⟩ := h
  exact ⟨os, ho, .later hw h⟩

theorem runHead_tells (ht : e.entryType ≠ .none) :
    ∃ os, (s.runHead e).1.outs = s.outs ++ os ∧ Tells e (s.runHead e).2 os := by
  unfold runHead
  cases hp : e.entryType with
  | none => exact absurd hp ht
  | cancel =>
    have hw : ¬ e.Waits := fun hw => EntryType.noConfusion (hp.symm.trans hw.1)
    simpa using (doCancel_speaks e.targetOrderId e.batch).tells hw false
  | cancelAll =>
    have hw : ¬ e.Waits := fun hw => EntryType.noConfusion (hp.symm.trans hw.1)
    simpa using (doCancelAll_speaks e.batch).tells hw _
  | place =>
    have h := doPlace_tells (s := s) hp
    rcases hd : s.doPlace e with ⟨t, _ | e'⟩
    · rw [hd] at h
      exact h false
    · rw [hd] at h
      exact h true

theorem refuse_tells : ∃ os, (s.refuse e).outs = s.outs ++ os ∧ Tells e false os := by
  unfold refuse
  split_ifs with hp h0
  · refine ⟨[⟨e.depositHash, _, e.sub, some e.batch⟩], act_outs s _, ?_⟩
    exact .rejected ⟨hp, h0⟩ rfl rfl rfl
  · exact (cancelTaker_speaks e.targetOrderId _).tells (fun hw => h0 hw.2) false
  · exact (Speaks.silent _ rfl).tells (fun hw => hp hw.1) false

theorem HeadPass.tells {rest : List QueueEntry} {stay : Option QueueEntry} {os os' : List Out}
    {stays : Bool} (h : HeadPass s t e rest stay os) (hst : stay.isSome = stays)
    (ho : t.outs = s.outs ++ os' ++ if stays = false ∧ e.isBatchEnd then [ackOut e] else [])
    (ht : Tells e stays os') : Tells e stay.isSome os := by
  have hc : (stay = none ∧ e.isBatchEnd = true) ↔ (stays = false ∧ e.isBatchEnd = true) := by
    rw [← hst]
    cases stay <;> simp
  have houts := h.outs
  rw [ho, if_congr hc rfl rfl] at houts
  have he := List.append_cancel_left (List.append_cancel_right houts)
  rw [hst, ← he]
  exact ht

/-- One call of `_processHeadCore`, with what it tells. -/
theorem processHeadCore_tells (h : s.Ok) :
    (SameStore s s.processHeadCore ∧ s.processHeadCore.outs = s.outs) ∨
      ∃ e rest stay os, HeadPass s s.processHeadCore e rest stay os ∧ Tells e stay.isSome os := by
  unfold processHeadCore
  dsimp only
  by_cases h1 : s.shuttingDown
  · rw [if_pos h1]
    exact .inl ⟨rfl, rfl⟩
  rw [if_neg h1]
  by_cases h2 : s.queueSize = 0
  · rw [if_pos h2]
    split_ifs
    · exact .inl ⟨rfl, by simp [act_outs, Action.out?]⟩
    · exact .inl ⟨rfl, rfl⟩
  rw [if_neg h2]
  have hd := Bool.eq_false_iff.mpr h1
  by_cases h3 : s.shutdownPending ∧ ¬ (s.queue s.queueHead).precheckDone
  · rw [if_pos h3]
    obtain ⟨-, -, os, hp⟩ := refuseHead_spec h (h.list_cons h2) hd
    obtain ⟨os', ho, ht⟩ := refuse_tells (s := s) (e := s.queue s.queueHead)
    refine .inr ⟨_, _, none, os, hp, hp.tells rfl ?_ ht⟩
    rw [refuseHead_eq, pokeNext_outs, leaveHead_outs, ho]
    simp
  · rw [if_neg h3]
    obtain ⟨stay, os, ⟨-, -, hp⟩, hst⟩ := runHead_spec h h2 hd
    have htyped := h.typed (s.queue s.queueHead) (by rw [h.list_cons h2]; simp)
    obtain ⟨os', ho, ht⟩ := runHead_tells (s := s) htyped
    refine .inr ⟨_, _, stay, os, hp, hp.tells hst ?_ ht⟩
    rw [pokeNext_outs]
    cases (s.runHead (s.queue s.queueHead)).2 with
    | true => simp [ho]
    | false => simp [finishHead_outs, ho]

section Submission

variable {h o b : ℕ} {m : Option ℕ}

theorem enqueueCancelEntry_outs (type : EntryType) (target : ℕ) :
    (s.enqueueCancelEntry type h target o b).1.outs = s.outs := by
  unfold enqueueCancelEntry
  split_ifs
  · exact enqueue_outs _
  · exact emit_outs s _

theorem batchCancels_outs (ids : List ℕ) :
    (ids.foldl (batchCancel h o b) (s, m)).1.outs = s.outs := by
  induction ids generalizing s m with
  | nil => rfl
  | cons id ids ih =>
    rw [List.foldl_cons]
    exact (ih (s := (batchCancel h o b (s, m) id).1)).trans (enqueueCancelEntry_outs .cancel id)

theorem batchPlace_speaks (p : PlaceParams) :
    Speaks (Out.Refuses h o) s (batchPlace h o b (s, m) p).1 := by
  have hr {u : OrderBook} (k : ℕ) :
      Speaks (Out.Refuses h o) u (u.notifyRejectedPlace h p o k (some b)) :=
    callback_speaks ⟨rfl, rfl⟩
  unfold batchPlace
  dsimp only
  split_ifs with hv hq
  · refine .silent _ ?_
    unfold enqueuePlace
    split_ifs
    · exact enqueue_outs _
    · exact emit_outs _ _
  · refine Speaks.trans (.silent _ ?_) (hr s.subs)
    unfold enqueuePlace
    split_ifs
    · exact enqueue_outs _
    · exact emit_outs _ _
  · exact Speaks.trans (.silent _ (emit_outs _ _)) (hr s.subs)

theorem batchPlaces_speaks (ops : List PlaceParams) :
    Speaks (Out.Refuses h o) s (ops.foldl (batchPlace h o b) (s, m)).1 := by
  induction ops generalizing s m with
  | nil => exact .silent _ rfl
  | cons p ops ih =>
    rw [List.foldl_cons]
    exact (batchPlace_speaks p).trans (ih (m := (batchPlace h o b (s, m) p).2))

end Submission

theorem drainCancels_speaks (ids : List ℕ) : Speaks Out.Drained s
    (ids.foldl (fun s id => s.cancelResting (s.order id).depositHash id 0 none) s) := by
  induction ids generalizing s with
  | nil => exact .silent _ rfl
  | cons id ids ih =>
    rw [List.foldl_cons]
    refine Speaks.trans ?_ (ih (s := s.cancelResting (s.order id).depositHash id 0 none))
    exact (Speaks.silent _ (setBook_outs s _)).trans (notifyCancelled_speaks rfl)

theorem shutdown_speaks {sender : Addr} (h : s.shutdown sender = some t) :
    Speaks Out.Drained s t := by
  replace h := of_pass h
  cases h
  split_ifs
  · exact .silent _ rfl
  · rw [drainPass_eq]
    refine Speaks.then ?_ drainClose_outs
    exact (Speaks.silent _ rfl).trans (drainCancels_speaks _)

theorem Speaks.begun (h : Speaks P s.begin t) : ∀ o ∈ t.outs, P o := by
  obtain ⟨os, ho, h⟩ := h
  rw [ho]
  exact h

/-- The pass part of a call, with what it tells. -/
def PassTells (u v : OrderBook) : Prop :=
  (SameStore u v ∧ v.outs = u.outs) ∨
    ∃ e rest stay os, HeadPass u v e rest stay os ∧ Tells e stay.isSome os

end OrderBook

/-- Entries a call brings to the queue, at most. -/
def Call.entries : Call → ℕ
  | .executeBatch _ _ _ orders cancelIds _ => orders.length + cancelIds.length
  | .cancelAllOrders .. => 1
  | _ => 0

namespace OrderBook

variable {s t u v : OrderBook} {c : Call} {h o : ℕ}

theorem marked_outs (r : OrderBook × Option ℕ) : (marked r).outs = r.1.outs := by
  unfold marked
  split <;> rfl

theorem marked_size (r : OrderBook × Option ℕ) : (marked r).queueSize = r.1.queueSize := by
  unfold marked
  split <;> rfl

theorem atHead_refuses (hc : c.accepted? = some (h, o)) (hu : s.atHead c = some u) :
    ∀ x ∈ u.outs, x.Refuses h o := by
  cases c with
  | executeBatch sender now d orders ids =>
    cases hc
    rw [← Option.some.inj hu, marked_outs]
    refine Speaks.begun (s := s) (Speaks.trans (.silent _ ?_) (batchPlaces_speaks orders))
    exact batchCancels_outs (s := { s.begin with batches := s.begin.batches + 1 }) ids
  | cancelAllOrders =>
    rw [← Option.some.inj hu, marked_outs]
    refine Speaks.begun (s := s) (.silent _ ?_)
    exact enqueueCancelEntry_outs (s := { s.begin with batches := s.begin.batches + 1 })
      .cancelAll 0
  | _ => exact absurd hc (by simp [Call.accepted?])

section Size

variable {b : ℕ} {m : Option ℕ}

theorem enqueueCancelEntry_size (type : EntryType) (target : ℕ) :
    (s.enqueueCancelEntry type h target o b).1.queueSize ≤ s.queueSize + 1 := by
  unfold enqueueCancelEntry
  split_ifs
  · exact le_rfl
  · exact Nat.le_succ _

theorem batchCancels_size (ids : List ℕ) :
    (ids.foldl (batchCancel h o b) (s, m)).1.queueSize ≤ s.queueSize + ids.length := by
  induction ids generalizing s m with
  | nil => exact le_rfl
  | cons id ids ih =>
    have h1 := enqueueCancelEntry_size (s := s) (h := h) (o := o) (b := b) .cancel id
    have h2 := ih (s := (batchCancel h o b (s, m) id).1) (m := (batchCancel h o b (s, m) id).2)
    rw [List.foldl_cons, List.length_cons]
    change _ ≤ (s.enqueueCancelEntry .cancel h id o b).1.queueSize + _ at h2
    exact h2.trans (by omega)

theorem batchPlace_size (p : PlaceParams) :
    (batchPlace h o b (s, m) p).1.queueSize ≤ s.queueSize + 1 := by
  have hq (u : OrderBook) (k : ℕ) : (u.enqueuePlace h p o k b).1.queueSize ≤ u.queueSize + 1 := by
    unfold enqueuePlace
    split_ifs
    · exact le_rfl
    · exact Nat.le_succ _
  unfold batchPlace
  dsimp only
  split_ifs
  · exact hq _ _
  · exact hq _ _
  · exact Nat.le_succ _

theorem batchPlaces_size (ops : List PlaceParams) :
    (ops.foldl (batchPlace h o b) (s, m)).1.queueSize ≤ s.queueSize + ops.length := by
  induction ops generalizing s m with
  | nil => exact le_rfl
  | cons p ops ih =>
    have h1 := batchPlace_size (s := s) (h := h) (o := o) (b := b) (m := m) p
    have h2 := ih (s := (batchPlace h o b (s, m) p).1) (m := (batchPlace h o b (s, m) p).2)
    rw [List.foldl_cons, List.length_cons]
    exact h2.trans (by omega)

end Size

theorem atHead_size (hc : c.accepted? = some (h, o)) (hu : s.atHead c = some u) :
    u.toQueue.list.length ≤ s.toQueue.list.length + c.entries := by
  rw [Queue.list_length, Queue.list_length]
  cases c with
  | executeBatch sender now d orders ids n =>
    rw [← Option.some.inj hu, marked_size]
    have h1 := batchCancels_size (h := d) (o := n) (b := s.batches) (m := none)
      (s := { s.begin with batches := s.batches + 1 }) ids
    have h2 := batchPlaces_size (h := d) (o := n) (b := s.batches)
      (s := (ids.foldl (batchCancel d n s.batches)
        ({ s.begin with batches := s.batches + 1 }, none)).1)
      (m := (ids.foldl (batchCancel d n s.batches)
        ({ s.begin with batches := s.batches + 1 }, none)).2) orders
    refine h2.trans ?_
    change _ ≤ s.queueSize + (orders.length + ids.length)
    change _ ≤ s.queueSize + ids.length at h1
    omega
  | cancelAllOrders =>
    rw [← Option.some.inj hu, marked_size]
    exact enqueueCancelEntry_size (s := { s.begin with batches := s.begin.batches + 1 })
      .cancelAll 0
  | _ => exact absurd hc (by simp [Call.accepted?])

/-- What a transaction of the book says. -/
inductive Spoken (c : Call) (s t : OrderBook) : Prop
  | accepted (h o : ℕ) (es : List QueueEntry) (u v : OrderBook)
      (hc : c.accepted? = some (h, o))
      (ha : Accepts h o (c.submitted s.subs) c.submittedCount s.begin es u v t)
      (hr : ∀ x ∈ u.outs, x.Refuses h o) (hn : es.length ≤ c.entries) (hp : PassTells u v)
  | poked (hc : c = .processHead) (hp : PassTells s.begin t)
  | quiet (hc : c.accepted? = none) (hX : c.submitted s.subs = 0) (hq : Quiet s.begin t)
      (hd : ∀ x ∈ t.outs, x.Drained)

theorem step_spoken (hs : s.Ok) (h : s.step c = some t) : Spoken c s t := by
  obtain ⟨hh, o, es, u, v, hc, hu, ha⟩ | ⟨rfl, rfl⟩ | ⟨⟨hc, hu⟩, -, hX, hq⟩ := step_cases hs h
  · refine .accepted hh o es u v hc ha (atHead_refuses hc hu) ?_ ?_
    · have hlen := atHead_size hc hu
      have hcl : (closeLast es).length = es.length := by
        rcases List.eq_nil_or_concat' es with rfl | ⟨es, e, rfl⟩
        · rfl
        · rw [closeLast_concat, List.length_append, List.length_append]
          rfl
      rw [ha.list, List.length_append, hcl] at hlen
      exact Nat.le_of_add_le_add_left hlen
    · rw [PassTells, ha.pass_eq]
      exact processHeadCore_tells ha.ok.1
  · exact .poked rfl (processHeadCore_tells (begin_ok hs))
  · refine .quiet hc hX hq ?_
    replace h := step_body h
    unfold body at h
    split_ifs at h
    cases c with
    | setResultStart =>
      replace h := of_pass (of_pass (of_pass h))
      cases h
      exact fun x hx => absurd hx List.not_mem_nil
    | shutdown => exact (shutdown_speaks h).begun
    | processHead => exact absurd hu (by simp [atHead])
    | _ => exact absurd hc (by simp [Call.accepted?])

end OrderBook

end Dexdo
