import Dexdo.Indexer.Markets

namespace Dexdo

namespace Marks

def timings (m : Marks) : Option ReadModel.Timings :=
  if m.approved then some ⟨m.stakeStart, m.stakeEnd, m.resultStart, m.resultStart + GRACE_PERIOD⟩
  else none

/-- The time something was first so, which is `now` when it was not so before. -/
def firstAt (was is : Bool) (now : ℕ) (t : Option ℕ) : Option ℕ :=
  if is && !was then some now else t

theorem firstAt_self (b : Bool) (now : ℕ) (t : Option ℕ) : firstAt b b now t = t := by
  simp [firstAt]

theorem isSome_firstAt {was is : Bool} {t : Option ℕ} (now : ℕ) (h : was = true → is = true)
    (ht : t.isSome = was) : (firstAt was is now t).isSome = is := by
  cases was with
  | true =>
    rw [h rfl, firstAt_self]
    exact ht
  | false =>
    cases is with
    | true => rfl
    | false => exact ht

/-- The lifecycle columns after a transaction at `now` that led from `m` to `n`. -/
def stamp (m n : Marks) (now : ℕ) (l : ReadModel.Lifecycle) : ReadModel.Lifecycle where
  approved := n.approved
  isCancelled := n.isCancelled
  cancelledAt := firstAt m.isCancelled n.isCancelled now l.cancelledAt
  timings := n.timings
  frozenAt := firstAt m.frozen n.frozen now l.frozenAt
  resolvedAt := firstAt m.resolvedOutcome.isSome n.resolvedOutcome.isSome now l.resolvedAt
  resolvedOutcomeId := n.resolvedOutcome

/-- Columns that agree with the storage of the PMP. -/
structure Shown (m : Marks) (l : ReadModel.Lifecycle) : Prop where
  approved : l.approved = m.approved
  isCancelled : l.isCancelled = m.isCancelled
  cancelledAt : l.cancelledAt.isSome = m.isCancelled
  timings : l.timings = m.timings
  frozenAt : l.frozenAt.isSome = m.frozen
  resolvedAt : l.resolvedAt.isSome = m.resolvedOutcome.isSome
  resolvedOutcomeId : l.resolvedOutcomeId = m.resolvedOutcome

variable {m n : Marks} {l : ReadModel.Lifecycle} {now : ℕ}

theorem Goes.kept (h : m.Goes n) : (m.frozen = true → n.frozen = true) ∧
    (m.isCancelled = true → n.isCancelled = true) ∧
      (m.resolvedOutcome.isSome = true → n.resolvedOutcome.isSome = true) := by
  induction h with
  | refl => exact ⟨id, id, id⟩
  | time _ _ _ ih => exact ih
  | freeze _ _ _ ih => exact ⟨fun _ => rfl, ih.2⟩
  | cancel _ _ ih => exact ⟨ih.1, fun _ => rfl, ih.2.2⟩
  | resolve _ _ _ ih => exact ⟨ih.1, ih.2.1, fun _ => rfl⟩

theorem was_not {was is : Bool} (h : was = true → is = true) (his : is = false) :
    was = false := by
  cases was with
  | true => exact absurd (h rfl) (by simp [his])
  | false => rfl

theorem none_of_isSome {t : Option ℕ} {b : Bool} (h : t.isSome = b) (hb : b = false) :
    t = none := by
  rw [← Option.isNone_iff_eq_none, ← Option.not_isSome, h, hb]
  rfl

/-- The events of a transaction as the indexer gets them. -/
def log (m : Marks) (now : ℕ) : ReadModel.MarketLog := m.events.map fun e => (now, .pmp e)

theorem log_tell (e : PmpEvent) : (m.tell e).log now = m.log now ++ [(now, .pmp e)] := by
  simp [log, tell]

theorem replayed_tell {l' : ReadModel.Lifecycle} (e : PmpEvent) (he : m.events = n.events)
    (h : l.replayed (n.log now) = l') :
    l.replayed ((m.tell e).log now) = l'.after (some now) (.pmp e) := by
  have hlog : m.log now = n.log now := by rw [log, log, he]
  rw [log_tell, hlog, ReadModel.Lifecycle.replayed, List.foldl_append, ← h]
  rfl

/-- Projected one after another, the events of a transaction lead the columns along with the
storage. -/
theorem Goes.replayed (h : m.Goes n) (hm : m.events = []) (hl : m.Shown l) :
    l.replayed (n.log now) = m.stamp n now l := by
  induction h with
  | refl =>
    have hlog : l.replayed (m.log now) = l := by
      rw [log, hm]
      rfl
    rw [hlog]
    obtain ⟨h1, h2, -, h4, -, -, h7⟩ := hl
    simp only [stamp, firstAt_self, ← h1, ← h2, ← h4, ← h7]
  | @time n a r _ ih =>
    exact replayed_tell (m := n.time a r) (n.time a r).told rfl ih
  | @freeze n base h hf ih =>
    have hwas := was_not h.kept.1 hf
    have hnone := none_of_isSome hl.frozenAt hwas
    have hfreeze : ReadModel.coalesce (firstAt m.frozen n.frozen now l.frozenAt) (some now) =
        firstAt m.frozen true now l.frozenAt := by
      rw [hf, hwas, hnone]
      rfl
    exact (replayed_tell (.poolsFrozen base) rfl ih).trans
      (congrArg (fun t => { m.stamp n now l with frozenAt := t }) hfreeze)
  | @cancel n h hc ih =>
    have hwas := was_not h.kept.2.1 hc
    have hnone := none_of_isSome hl.cancelledAt hwas
    have hcancel : ReadModel.coalesce (firstAt m.isCancelled n.isCancelled now l.cancelledAt)
        (some now) = firstAt m.isCancelled true now l.cancelledAt := by
      rw [hc, hwas, hnone]
      rfl
    exact (replayed_tell .eventCancelled rfl ih).trans (congrArg
      (fun t => { m.stamp n now l with isCancelled := true, cancelledAt := t }) hcancel)
  | @resolve n k h hr ih =>
    have hwas := was_not h.kept.2.2 (Option.isSome_eq_false_iff.mpr (by rw [hr]; rfl))
    have hnone := none_of_isSome hl.resolvedAt hwas
    have hresolve : ReadModel.coalesce (firstAt m.resolvedOutcome.isSome n.resolvedOutcome.isSome
        now l.resolvedAt) (some now) = firstAt m.resolvedOutcome.isSome true now l.resolvedAt := by
      rw [hr, hwas, hnone]
      rfl
    exact (replayed_tell (.resolved k) rfl ih).trans (congrArg
      (fun t => { m.stamp n now l with resolvedOutcomeId := some k, resolvedAt := t }) hresolve)

theorem Goes.shown (h : m.Goes n) (hl : m.Shown l) : n.Shown (m.stamp n now l) where
  approved := rfl
  isCancelled := rfl
  cancelledAt := isSome_firstAt now h.kept.2.1 hl.cancelledAt
  timings := rfl
  frozenAt := isSome_firstAt now h.kept.1 hl.frozenAt
  resolvedAt := isSome_firstAt now h.kept.2.2 hl.resolvedAt
  resolvedOutcomeId := rfl

end Marks

namespace ReadModel

/-- A PMP on chain with the times of the transactions that cancelled, froze and resolved it. -/
structure Instance where
  pmp : PMP
  cancelledAt : Option ℕ
  frozenAt : Option ℕ
  resolvedAt : Option ℕ

namespace Instance

def timings (x : Instance) : Option Timings :=
  if x.pmp.approved then some ⟨x.pmp.stakeStart, x.pmp.computeStakeEnd, x.pmp.resultStart,
    x.pmp.resultStart + GRACE_PERIOD⟩
  else none

/-- The columns a row about this PMP should have. -/
def lifecycle (x : Instance) : Lifecycle where
  approved := x.pmp.approved
  isCancelled := x.pmp.isCancelled
  cancelledAt := x.cancelledAt
  timings := x.timings
  frozenAt := x.frozenAt
  resolvedAt := x.resolvedAt
  resolvedOutcomeId := x.pmp.resolvedOutcome

/-- A transaction at `now` left the PMP as `t`. -/
def after (x : Instance) (t : PMP) (now : ℕ) : Instance where
  pmp := t
  cancelledAt := Marks.firstAt x.pmp.isCancelled t.isCancelled now x.cancelledAt
  frozenAt := Marks.firstAt x.pmp.frozen t.frozen now x.frozenAt
  resolvedAt :=
    Marks.firstAt x.pmp.resolvedOutcome.isSome t.resolvedOutcome.isSome now x.resolvedAt

end Instance

/-- What the getters say of a PMP. -/
def getDetails (s : PMP) : PmpDetails where
  oracleListHash := s.market.oracleListHash
  approved := s.approved
  isCancelled := s.isCancelled
  numOutcomes := s.numOutcomes
  orderBookAddress := .orderBook s.market

/-- A constructor message of a PMP on its way. -/
structure PmpDeploy where
  depositIdentifierHash : ℕ
  oracleEventLists : List Addr
  initialStakes : List ℕ
  deriving DecidableEq

/-- One PMP address: the PMP that is there, constructor messages under way, the events that are
not projected yet, its row, and what the reconciler has read for its pass. -/
structure MarketWatch where
  onChain : Option Instance
  arriving : List PmpDeploy
  log : MarketLog
  row : Option MarketRow
  snapshot : Option PmpDetails

/-- A note announces a PMP at `now` and sends its constructor; constructors arrive in any order.
The gateway gives the next event with its time or without it. `fetch` reads the account, at any
moment; `write` and `fail` end the pass. -/
inductive MarketMove
  | deployPMP (now : ℕ) (deploy : PmpDeploy) (oracleFee : List ℕ)
  | construct (k : ℕ)
  | transact (i : PMP.Input)
  | project (tokenCode : Option String) (timed : Bool)
  | fetch
  | write (now : ℕ)
  | fail (now : ℕ)
  deriving DecidableEq

namespace MarketWatch

def init : MarketWatch := ⟨none, [], [], none, none⟩

/-- The row the reconciler may select. -/
def pending (s : MarketWatch) : Option MarketRow := s.row.filter fun r => r.lastReconciledAt.isNone

def step (market : MarketId) (s : MarketWatch) : MarketMove → Option MarketWatch
  | .deployPMP now d oracleFee => some { s with
      arriving := s.arriving ++ [d]
      log := s.log ++
        [(now, .pmpDeployed market.eventId market.tokenType d.oracleEventLists oracleFee)] }
  | .construct k =>
    match s.arriving[k]?, s.onChain with
    | none, _ => none
    -- the message bounces off a PMP that is there already
    | some _, some _ => some { s with arriving := s.arriving.eraseIdx k }
    | some d, none => some { s with
        arriving := s.arriving.eraseIdx k
        onChain := some ⟨PMP.init market d.depositIdentifierHash d.oracleEventLists
          d.initialStakes, none, none, none⟩ }
  | .transact i =>
    match s.onChain with
    | none => none
    | some x =>
      match x.pmp.step i with
      | none => none
      | some t => some { s with
          onChain := if t.destroyed then none else some (x.after t i.now)
          log := s.log ++ (t.actions.filterMap PmpAction.event?).map fun e => (i.now, .pmp e) }
  | .project tokenCode timed =>
    match s.log with
    | [] => none
    | (blockUnix, e) :: log =>
      match projectMarketEvent s.row tokenCode (if timed then some blockUnix else none) e with
      | (_, .Deferred) => some s
      | (row, _) => some { s with row := row, log := log }
  | .fetch => s.onChain.map fun x => { s with snapshot := some (getDetails x.pmp) }
  | .write now =>
    match s.pending, s.snapshot with
    | some r, some details => some { s with
        row := some (reconcile r details now)
        snapshot := none }
    | _, _ => none
  | .fail now => s.pending.map fun r => { s with
      row := some (stampFailure r now)
      snapshot := none }

/-- Once every event is projected, the row shows the PMP that is on chain. -/
def Follows (s : MarketWatch) : Prop :=
  s.log = [] → ∀ x, s.onChain = some x → ∃ r, s.row = some r ∧ r.toLifecycle = x.lifecycle

/-- The row's lifecycle columns once the pending events are projected. -/
def replayed (s : MarketWatch) : Option Lifecycle := replay (s.row.map (·.toLifecycle)) s.log

/-- A PMP is only created where no earlier one has left a mark, an event whose time a column takes
comes with it, and a pass about a PMP that is on chain takes back no flag the row has (unless an
event that sets it again is pending) and does not put its own clock for the time of a
cancellation. -/
def Safe (s : MarketWatch) : MarketMove → Prop
  | .construct _ => s.onChain.isSome = true ∨ ∀ l ∈ s.replayed, l = Lifecycle.blank
  | .project _ timed => timed = true ∨ ∀ x ∈ s.log.head?, x.2.stamped = false
  | .write now => ∀ x ∈ s.onChain, ∀ r ∈ s.row, ∀ d ∈ s.snapshot,
    (r.approved = true → d.approved = true ∨ s.log.timings = true) ∧
    (r.isCancelled = true → d.isCancelled = true ∨ s.log.cancellation = true) ∧
    (d.isCancelled = true → r.cancelledAt.isSome = true ∨ x.cancelledAt = some now)
  | _ => True

instance (s : MarketWatch) : ∀ i, Decidable (s.Safe i)
  | .construct _ =>
    inferInstanceAs (Decidable (s.onChain.isSome = true ∨ ∀ l ∈ s.replayed, l = Lifecycle.blank))
  | .project _ timed =>
    inferInstanceAs (Decidable (timed = true ∨ ∀ x ∈ s.log.head?, x.2.stamped = false))
  | .write now => inferInstanceAs (Decidable (∀ x ∈ s.onChain, ∀ r ∈ s.row, ∀ d ∈ s.snapshot,
      (r.approved = true → d.approved = true ∨ s.log.timings = true) ∧
      (r.isCancelled = true → d.isCancelled = true ∨ s.log.cancellation = true) ∧
      (d.isCancelled = true → r.cancelledAt.isSome = true ∨ x.cancelledAt = some now)))
  | .deployPMP .. | .transact _ | .fetch | .fail _ => isTrue trivial

/-- What holds in every safe run: the replayed columns are those of the PMP on chain, and whatever
a snapshot says was once told by an event. -/
structure Tracks (s : MarketWatch) : Prop where
  announced : s.arriving ≠ [] → s.replayed.isSome = true
  shown : ∀ x, s.onChain = some x → x.pmp.marks.Shown x.lifecycle
  agrees : ∀ x, s.onChain = some x → s.replayed = some x.lifecycle
  told : ∀ d, s.snapshot = some d → ∃ l, s.replayed = some l ∧
    (d.approved = true → l.timings.isSome = true) ∧
    (d.isCancelled = true → l.cancelledAt.isSome = true)

variable {market : MarketId} {s t : MarketWatch} {x : Instance}

theorem after_of_not_mark {e : PmpEvent} (h : e.isMark = false) (l : Lifecycle) (now : ℕ) :
    l.after (some now) (.pmp e) = l := by
  cases e <;> first | rfl | exact absurd h Bool.noConfusion

theorem replayed_events (l : Lifecycle) (now : ℕ) (as : List PmpAction) :
    l.replayed ((as.filterMap PmpAction.event?).map fun e => (now, .pmp e)) =
      l.replayed ((as.filterMap PmpAction.mark?).map fun e => (now, .pmp e)) := by
  induction as generalizing l with
  | nil => rfl
  | cons a as ih =>
    cases he : a.event? with
    | none =>
      have hm : a.mark? = none := by simp [PmpAction.mark?, he]
      rw [List.filterMap_cons_none he, List.filterMap_cons_none hm]
      exact ih l
    | some e =>
      rw [List.filterMap_cons_some he]
      cases hk : e.isMark with
      | true =>
        have hm : a.mark? = some e := by simp [PmpAction.mark?, he, hk, Option.filter]
        rw [List.filterMap_cons_some hm]
        exact ih _
      | false =>
        have hm : a.mark? = none := by simp [PmpAction.mark?, he, hk, Option.filter]
        rw [List.filterMap_cons_none hm]
        refine Eq.trans ?_ (ih l)
        exact congrArg (Lifecycle.replayed · _) (after_of_not_mark hk l now)

theorem transact_replayed {i : PMP.Input} {p : PMP} (hx : x.pmp.marks.Shown x.lifecycle)
    (h : x.pmp.step i = some p) (hp : p.destroyed = false) :
    x.lifecycle.replayed ((p.actions.filterMap PmpAction.event?).map fun e => (i.now, .pmp e)) =
        (x.after p i.now).lifecycle ∧
      p.marks.Shown (x.after p i.now).lifecycle := by
  have hgoes : Marks.Goes { x.pmp.marks with events := [] } p.marks := by
    rcases PMP.step_marks h with hd | hg
    · exact absurd hd (by simp [hp])
    · exact hg
  have hshown : Marks.Shown { x.pmp.marks with events := [] } x.lifecycle :=
    ⟨hx.approved, hx.isCancelled, hx.cancelledAt, hx.timings, hx.frozenAt, hx.resolvedAt,
      hx.resolvedOutcomeId⟩
  refine ⟨?_, hgoes.shown hshown⟩
  rw [replayed_events]
  exact hgoes.replayed rfl hshown

theorem replay_announced (l : Option Lifecycle) (now eventId tokenType : ℕ) (lists : List Addr)
    (fee : List ℕ) :
    replay l [(now, .pmpDeployed eventId tokenType lists fee)] = some (l.getD .blank) := by
  cases l <;> rfl

/-- A pass that takes nothing back and sets nothing new leaves the replayed columns alone. -/
theorem reconcile_replayed {r : MarketRow} {d : PmpDetails} {now : ℕ} {l : Lifecycle}
    {log : MarketLog} (hl : r.toLifecycle.replayed log = l)
    (ha : d.approved = true → l.approved = true) (hc : d.isCancelled = true → l.isCancelled = true)
    (ha' : r.approved = true → d.approved = true ∨ log.timings = true)
    (hc' : r.isCancelled = true → d.isCancelled = true ∨ log.cancellation = true)
    (ht : d.isCancelled = true → r.cancelledAt.isSome = true ∨ l.cancelledAt = some now) :
    (reconcile r d now).toLifecycle.replayed log = l := by
  have hla := r.toLifecycle.replayed_approved log
  have hlc := r.toLifecycle.replayed_isCancelled log
  rw [hl] at hla hlc
  have hflags : (r.toLifecycle.setFlags d.approved d.isCancelled).replayed log = l := by
    have h1 : (d.approved || log.timings) = l.approved := by
      rw [hla]
      cases hd : d.approved with
      | true => rw [← hla, ha hd, Bool.true_or]
      | false =>
        cases hr : r.approved with
        | false => rfl
        | true =>
          rcases ha' hr with h | h
          · exact absurd h (by simp [hd])
          · rw [h]
            rfl
    have h2 : (d.isCancelled || log.cancellation) = l.isCancelled := by
      rw [hlc]
      cases hd : d.isCancelled with
      | true => rw [← hlc, hc hd, Bool.true_or]
      | false =>
        cases hr : r.isCancelled with
        | false => rfl
        | true =>
          rcases hc' hr with h | h
          · exact absurd h (by simp [hd])
          · rw [h]
            rfl
    rw [Lifecycle.replayed_setFlags, hl, h1, h2]
    rfl
  by_cases hd : d.isCancelled = true ∧ r.cancelledAt = none
  · -- the clock of the pass happens to be the time of the cancellation
    have hnow : l.cancelledAt = some now := by
      rcases ht hd.1 with h | h
      · rw [hd.2] at h
        exact absurd h Bool.false_ne_true
      · exact h
    have hrow : (reconcile r d now).toLifecycle =
        { r.toLifecycle.setFlags d.approved d.isCancelled with cancelledAt := some now } := by
      simp [reconcile, writeMarketState, Lifecycle.setFlags, hd]
    rw [hrow, Lifecycle.replayed_setCancelledAt, hflags, ← hnow]
  · have hrow : (reconcile r d now).toLifecycle =
        r.toLifecycle.setFlags d.approved d.isCancelled := by
      simp [reconcile, writeMarketState, Lifecycle.setFlags, if_neg hd]
    rw [hrow, hflags]

theorem pending_row {r : MarketRow} (h : s.pending = some r) : s.row = some r :=
  (Option.filter_eq_some_iff.mp h).1

theorem replayed_of_row {r : MarketRow} (h : s.row = some r) :
    s.replayed = some (r.toLifecycle.replayed s.log) := by
  rw [replayed, h]
  exact replay_some _ _

theorem init_tracks : init.Tracks where
  announced h := absurd rfl h
  shown _ h := absurd h (Option.some_ne_none _).symm
  agrees _ h := absurd h (Option.some_ne_none _).symm
  told _ h := absurd h (Option.some_ne_none _).symm

theorem Tracks.deployPMP (h : s.Tracks) {now : ℕ} {d : PmpDeploy} {fee : List ℕ}
    (hi : s.step market (.deployPMP now d fee) = some t) : t.Tracks := by
  cases hi
  have hreplayed : ∀ l, s.replayed = some l → replay (s.row.map (·.toLifecycle)) (s.log ++
      [(now, .pmpDeployed market.eventId market.tokenType d.oracleEventLists fee)]) =
        some l := by
    intro l hl
    rw [replay_append, replay_announced]
    exact congrArg (fun o : Option Lifecycle => some (o.getD .blank)) hl
  refine ⟨fun _ => ?_, h.shown, fun x hx => hreplayed _ (h.agrees x hx), fun d hd => ?_⟩
  · rw [replayed, replay_append, replay_announced]
    rfl
  · obtain ⟨l, hl, htold⟩ := h.told d hd
    exact ⟨l, hreplayed l hl, htold⟩

theorem Tracks.construct (h : s.Tracks) {k : ℕ} (hsafe : s.Safe (.construct k))
    (hi : s.step market (.construct k) = some t) : t.Tracks := by
  simp only [step] at hi
  split at hi
  · cases hi
  · next d x hk hx =>
    cases hi
    refine ⟨fun harr => h.announced fun hnil => harr ?_, h.shown, h.agrees, h.told⟩
    rw [hnil]
    rfl
  · next d hk hx =>
    cases hi
    have harr : s.arriving ≠ [] := by
      intro hnil
      rw [hnil] at hk
      cases hk
    obtain ⟨l, hl⟩ := Option.isSome_iff_exists.mp (h.announced harr)
    have hblank : l = .blank := by
      rcases hsafe with hs | hs
      · rw [hx] at hs
        exact absurd hs Bool.false_ne_true
      · exact hs l hl
    refine ⟨fun harr => h.announced fun hnil => harr ?_, ?_, ?_, h.told⟩
    · rw [hnil]
      rfl
    · intro x hx
      cases hx
      exact ⟨rfl, rfl, rfl, rfl, rfl, rfl, rfl⟩
    · intro x hx
      cases hx
      rw [hblank] at hl
      exact hl

theorem Tracks.transact (h : s.Tracks) {i : PMP.Input}
    (hi : s.step market (.transact i) = some t) : t.Tracks := by
  simp only [step] at hi
  split at hi
  · cases hi
  next x hx =>
  split at hi
  · cases hi
  next p hp =>
  cases hi
  have hl := h.agrees x hx
  generalize hlog : ((p.actions.filterMap PmpAction.event?).map fun e =>
    ((i.now, .pmp e) : ℕ × MarketEvent)) = log
  have hreplayed : replay (s.row.map (·.toLifecycle)) (s.log ++ log) =
      some (x.lifecycle.replayed log) := by
    rw [replay_append, ← replay_some]
    exact congrArg (replay · log) hl
  refine ⟨fun _ => ?_, ?_, ?_, ?_⟩
  · exact (congrArg Option.isSome hreplayed).trans rfl
  · intro y hy
    cases hd : p.destroyed with
    | true => simp [hd] at hy
    | false =>
      simp only [hd, Bool.false_eq_true, if_false, Option.some.injEq] at hy
      rw [← hy]
      exact (transact_replayed (h.shown x hx) hp hd).2
  · intro y hy
    cases hd : p.destroyed with
    | true => simp [hd] at hy
    | false =>
      simp only [hd, Bool.false_eq_true, if_false, Option.some.injEq] at hy
      have hlife := (transact_replayed (h.shown x hx) hp hd).1
      rw [hlog] at hlife
      rw [← hy, ← hlife]
      exact hreplayed
  · intro d hsnap
    obtain ⟨l, hl', ha, hc⟩ := h.told d hsnap
    cases hl.symm.trans hl'
    refine ⟨_, hreplayed, fun hd => x.lifecycle.replayed_timings log (ha hd), fun hd => ?_⟩
    obtain ⟨c, hc⟩ := Option.isSome_iff_exists.mp (hc hd)
    rw [x.lifecycle.replayed_cancelledAt log hc]
    rfl

theorem Tracks.project (h : s.Tracks) {tokenCode : Option String} {timed : Bool}
    (hsafe : s.Safe (.project tokenCode timed))
    (hi : s.step market (.project tokenCode timed) = some t) : t.Tracks := by
  simp only [step] at hi
  split at hi
  · cases hi
  next blockUnix e log hlog =>
  have htimed : projectMarketEvent s.row tokenCode (if timed then some blockUnix else none) e =
      projectMarketEvent s.row tokenCode (some blockUnix) e := by
    rcases hsafe with rfl | hsafe
    · rfl
    · exact projectMarketEvent_untimed (hsafe (blockUnix, e) (by rw [hlog]; rfl)) _ _
  rw [htimed] at hi
  split at hi
  · cases hi
    exact h
  next row o ho hproject =>
  cases hi
  have hreplayed : replay (row.map (·.toLifecycle)) log = s.replayed := by
    rw [replayed, hlog]
    exact projected_lifecycle log hproject ho
  exact ⟨fun ha => (congrArg Option.isSome hreplayed).trans (h.announced ha), h.shown,
    fun x hx => hreplayed.trans (h.agrees x hx), fun d hd =>
      (h.told d hd).imp fun l hl => ⟨hreplayed.trans hl.1, hl.2⟩⟩

theorem Tracks.fetch (h : s.Tracks) (hi : s.step market .fetch = some t) : t.Tracks := by
  obtain ⟨x, hx, rfl⟩ := Option.map_eq_some_iff.mp hi
  refine ⟨h.announced, h.shown, h.agrees, fun d hd => ⟨_, h.agrees x hx, ?_, ?_⟩⟩
  · cases hd
    intro ha
    have ha : x.pmp.approved = true := ha
    show x.timings.isSome = true
    rw [Instance.timings, if_pos ha]
    rfl
  · cases hd
    exact fun hc => (h.shown x hx).cancelledAt.trans hc

theorem Tracks.write (h : s.Tracks) {now : ℕ} (hsafe : s.Safe (.write now))
    (hi : s.step market (.write now) = some t) : t.Tracks := by
  simp only [step] at hi
  split at hi
  next r d hr hd =>
    cases hi
    have hrow := pending_row hr
    have hwritten : replay ((some (reconcile r d now)).map (·.toLifecycle)) s.log =
        some ((reconcile r d now).toLifecycle.replayed s.log) := replay_some _ _
    refine ⟨fun _ => congrArg Option.isSome hwritten, h.shown, fun x hx => ?_,
      fun d h => absurd h (Option.some_ne_none d).symm⟩
    have hl : r.toLifecycle.replayed s.log = x.lifecycle :=
      Option.some.inj ((replayed_of_row hrow).symm.trans (h.agrees x hx))
    obtain ⟨l, hl', ha, hc⟩ := h.told d hd
    cases hl'.symm.trans (h.agrees x hx)
    obtain ⟨h1, h2, h3⟩ := hsafe x hx r hrow d hd
    refine hwritten.trans (congrArg some (reconcile_replayed hl ?_ ?_ h1 h2 h3))
    · intro hda
      have ht := ha hda
      have ht : x.timings.isSome = true := ht
      rw [Instance.timings] at ht
      split_ifs at ht with happ
      · exact happ
      · cases ht
    · exact fun hdc => (h.shown x hx).cancelledAt.symm.trans (hc hdc)
  · cases hi

theorem Tracks.fail (h : s.Tracks) {now : ℕ} (hi : s.step market (.fail now) = some t) :
    t.Tracks := by
  obtain ⟨r, hr, rfl⟩ := Option.map_eq_some_iff.mp hi
  have hreplayed : replay ((some (stampFailure r now)).map (·.toLifecycle)) s.log =
      s.replayed := by
    rw [replayed, pending_row hr]
    rfl
  exact ⟨fun ha => (congrArg Option.isSome hreplayed).trans (h.announced ha), h.shown,
    fun x hx => hreplayed.trans (h.agrees x hx),
    fun d h => absurd h (Option.some_ne_none d).symm⟩

theorem Tracks.step (h : s.Tracks) {i : MarketMove} (hsafe : s.Safe i)
    (hi : s.step market i = some t) : t.Tracks := by
  cases i with
  | deployPMP => exact h.deployPMP hi
  | construct => exact h.construct hsafe hi
  | transact => exact h.transact hi
  | project => exact h.project hsafe hi
  | fetch => exact h.fetch hi
  | write => exact h.write hsafe hi
  | fail => exact h.fail hi

theorem Tracks.follows (h : s.Tracks) : s.Follows := by
  intro hlog x hx
  have hl := h.agrees x hx
  rw [replayed, hlog] at hl
  exact Option.map_eq_some_iff.mp hl

/-- In a run of safe moves the row follows the PMP on chain. -/
theorem row_follows {tr : List (MarketMove × MarketWatch)}
    (h : Run (step market) init tr s) (hsafe : Run.Each (fun s i _ => s.Safe i) init tr) :
    s.Follows := by
  have htracks : s.Tracks := h.invariant_each (fun _ s => s.Tracks) init_tracks
    (fun _ _ _ _ _ ht hs hi => ht.step hs hi) hsafe
  exact htracks.follows

def sampleMarket : MarketId := ⟨7, 11, 1⟩

def sampleList : Addr := .oracleEventList 3 0

def sampleDeploy : PmpDeploy := ⟨5, [sampleList], [10, 10]⟩

def sampleOpening : List MarketMove :=
  [.deployPMP 100 sampleDeploy [1], .construct 0, .project (some "USDC") true,
    .transact ⟨sampleList, 110, .approveEvent 42 2 none⟩, .project none true]

def sampleTimings : List MarketMove :=
  [.transact ⟨.ext 0, 120, .submitSetTimings (.external 42) 1000000⟩, .project none true, .project none true]

/-- The pass reads the account after the timings are set, and an oracle cancels later. -/
def sampleMoves : List MarketMove :=
  sampleOpening ++ sampleTimings ++ [.fetch, .write 130,
    .transact ⟨.ext 0, 140, .submitCancelEvent (.external 42)⟩, .project none true]

/-- The run of a list of moves. -/
def sample (moves : List MarketMove) : List (MarketMove × MarketWatch) :=
  Run.trace (step sampleMarket) init moves

theorem row_follows_sample :
    (Run.last init (sample sampleMoves)).Follows ∧
    (Run.last init (sample sampleMoves)).log = [] ∧
    (Run.last init (sample sampleMoves)).row.map (·.cancelledAt) = some (some 140) ∧
    (Run.last init (sample sampleMoves)).onChain.isSome = true :=
  ⟨row_follows (Run.trace_run _ _ _) (by decide +kernel), by decide +kernel, by decide +kernel,
    by decide +kernel⟩

/-- The pass reads the account before the timings are set, and writes after. -/
def staleMoves : List MarketMove := sampleOpening ++ [.fetch] ++ sampleTimings ++ [.write 130]

/-- The first PMP is rejected by its oracle list, a second one is deployed. -/
def redeployedMoves : List MarketMove :=
  [.deployPMP 100 sampleDeploy [1], .construct 0, .project (some "USDC") true,
    .transact ⟨sampleList, 110, .rejectEvent⟩, .project none true,
    .deployPMP 200 sampleDeploy [1], .construct 0, .project (some "USDC") true]

/-- A late write takes the approval back, and a market that is alive shows as cancelled. -/
theorem row_left_behind :
    ¬ (∀ (market : MarketId) (tr : List (MarketMove × MarketWatch)) (s : MarketWatch),
      Run (step market) init tr s → s.Follows) ∧
    (Run.last init (sample staleMoves)).log = [] ∧
    (Run.last init (sample staleMoves)).onChain.map (·.pmp.approved) = some true ∧
    (Run.last init (sample staleMoves)).row.map (·.approved) = some false ∧
    (Run.last init (sample redeployedMoves)).log = [] ∧
    (Run.last init (sample redeployedMoves)).onChain.map (computeStatus ·.lifecycle 300) =
      some .Pending ∧
    (Run.last init (sample redeployedMoves)).row.map (computeStatus ·.toLifecycle 300) =
      some .Cancelled := by
  refine ⟨fun hall => ?_, by decide +kernel, by decide +kernel, by decide +kernel,
    by decide +kernel, by decide +kernel, by decide +kernel⟩
  have hfollows := hall sampleMarket _ _ (Run.trace_run _ init staleMoves)
  have hlog : (Run.last init (sample staleMoves)).log = [] := by decide +kernel
  have happroved : (Run.last init (sample staleMoves)).onChain.map (·.pmp.approved) = some true := by
    decide +kernel
  have hrow : (Run.last init (sample staleMoves)).row.map (·.approved) = some false := by
    decide +kernel
  obtain ⟨x, hx, hax⟩ := Option.map_eq_some_iff.mp happroved
  obtain ⟨r, hr, har⟩ := Option.map_eq_some_iff.mp hrow
  obtain ⟨q, hq, hqx⟩ := hfollows hlog x hx
  cases hr.symm.trans hq
  have hagree : r.approved = x.pmp.approved := congrArg Lifecycle.approved hqx
  rw [har, hax] at hagree
  cases hagree

end MarketWatch

end ReadModel

end Dexdo
