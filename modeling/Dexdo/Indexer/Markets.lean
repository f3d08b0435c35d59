import Dexdo.Indexer.Tables
import Dexdo.PMP.Marks
import Dexdo.Lib.Sql

namespace Dexdo

namespace ReadModel

inductive CancelReason
  | EVENT_CANCELLED
  | PMP_REJECTED_BY_ORACLE
  deriving DecidableEq

structure Timings where
  stakeStart : ℕ
  stakeEnd : ℕ
  resultStart : ℕ
  resultEnd : ℕ
  deriving DecidableEq

/-- The columns of `markets` that follow the life of a PMP. The four timing columns are only
written together. -/
structure Lifecycle where
  approved : Bool
  isCancelled : Bool
  cancelledAt : Option ℕ
  timings : Option Timings
  frozenAt : Option ℕ
  resolvedAt : Option ℕ
  resolvedOutcomeId : Option ℕ
  deriving DecidableEq

/-- The columns `PMPDeployed` fills in. -/
structure Listing where
  eventId : ℕ
  tokenType : ℕ
  tokenCode : String
  oracleEventLists : List Addr
  oracleFee : List ℕ
  deriving DecidableEq

/-- The columns only the reconciler fills in. -/
structure Reconciled where
  oracleListHash : ℕ
  numOutcomes : ℕ
  orderbookAddress : Addr
  deriving DecidableEq

/-- Row of `markets`. -/
structure MarketRow extends Lifecycle where
  listing : Listing
  cancelReason : Option CancelReason
  reconciled : Option Reconciled
  lastReconciledAt : Option ℕ
  lastReconcileFailedAt : Option ℕ
  reconcileAttempts : ℕ
  deriving DecidableEq

/-- What `getDetails` and `getOrderBookAddress` say of a PMP. -/
structure PmpDetails where
  oracleListHash : ℕ
  approved : Bool
  isCancelled : Bool
  numOutcomes : ℕ
  orderBookAddress : Addr
  deriving DecidableEq

/-- Events about one PMP address: a note's `PMPDeployed`, or an event of the PMP itself. -/
inductive MarketEvent
  | pmpDeployed (eventId tokenType : ℕ) (oracleEventLists : List Addr) (oracleFee : List ℕ)
  | pmp (event : PmpEvent)
  deriving DecidableEq

/-- SQL `coalesce`. -/
def coalesce {α : Type} (x y : Option α) : Option α := x.or y

namespace Lifecycle

/-- The defaults of the columns. -/
def blank : Lifecycle where
  approved := false
  isCancelled := false
  cancelledAt := none
  timings := none
  frozenAt := none
  resolvedAt := none
  resolvedOutcomeId := none

def timingsSet (l : Lifecycle) (stakeStart stakeEnd resultStart resultEnd : ℕ) : Lifecycle :=
  { l with timings := some ⟨stakeStart, stakeEnd, resultStart, resultEnd⟩, approved := true }

def poolsFrozen (l : Lifecycle) (blockUnix : Option ℕ) : Lifecycle :=
  { l with frozenAt := coalesce l.frozenAt blockUnix }

def resolved (l : Lifecycle) (blockUnix : Option ℕ) (outcomeId : ℕ) : Lifecycle :=
  { l with
    resolvedAt := coalesce l.resolvedAt blockUnix
    resolvedOutcomeId := some outcomeId }

def cancelled (l : Lifecycle) (blockUnix : Option ℕ) : Lifecycle :=
  { l with isCancelled := true, cancelledAt := coalesce l.cancelledAt blockUnix }

end Lifecycle

inductive MarketStatus
  | Cancelled
  | Resolved
  | Pending
  | Upcoming
  | Staking
  | AwaitingFreeze
  | Trading
  | Resolving
  | Expired
  deriving DecidableEq

def computeStatus (l : Lifecycle) (now : ℕ) : MarketStatus :=
  if l.cancelledAt.isSome ∨ l.isCancelled then .Cancelled
  else if l.resolvedAt.isSome then .Resolved
  else match l.timings with
    | none => .Pending
    | some t =>
      if l.frozenAt.isNone then
        if t.stakeEnd ≤ now then .AwaitingFreeze
        else if t.stakeStart ≤ now then .Staking
        else .Upcoming
      else if t.resultEnd ≤ now then .Expired
      else if t.resultStart ≤ now then .Resolving
      else .Trading

/-- The row a `PMPDeployed` leads to. One that is there keeps every column but its listing. -/
def applyPmpDeployed (row : Option MarketRow) (tokenCode : Option String)
    (eventId tokenType : ℕ) (oracleEventLists : List Addr) (oracleFee : List ℕ) :
    Option MarketRow × ProjectionOutcome :=
  match tokenCode with
  | none => (row, .Deferred)
  | some tokenCode =>
    let listing : Listing := ⟨eventId, tokenType, tokenCode, oracleEventLists, oracleFee⟩
    match row with
    | none => (some {
        toLifecycle := .blank
        listing := listing
        cancelReason := none
        reconciled := none
        lastReconciledAt := none
        lastReconcileFailedAt := none
        reconcileAttempts := 0 }, .Applied)
    | some r => (some { r with listing := listing }, .Applied)

/-- `update markets ... where pmp_address = $n`, deferred when there is no row. -/
def updateMarket (row : Option MarketRow) (f : MarketRow → MarketRow) :
    Option MarketRow × ProjectionOutcome :=
  match row with
  | none => (none, .Deferred)
  | some r => (some (f r), .Applied)

def applyTimingsSet (row : Option MarketRow) (stakeStart stakeEnd resultStart resultEnd : ℕ) :
    Option MarketRow × ProjectionOutcome :=
  updateMarket row fun r =>
    { r with toLifecycle := r.timingsSet stakeStart stakeEnd resultStart resultEnd }

def applyPoolsFrozen (row : Option MarketRow) (blockUnix : Option ℕ) :
    Option MarketRow × ProjectionOutcome :=
  updateMarket row fun r => { r with toLifecycle := r.poolsFrozen blockUnix }

def applyResolved (row : Option MarketRow) (blockUnix : Option ℕ) (outcomeId : ℕ) :
    Option MarketRow × ProjectionOutcome :=
  updateMarket row fun r => { r with toLifecycle := r.resolved blockUnix outcomeId }

def applyPmpCancellation (row : Option MarketRow) (blockUnix : Option ℕ) (reason : CancelReason) :
    Option MarketRow × ProjectionOutcome :=
  updateMarket row fun r => { r with
    toLifecycle := r.cancelled blockUnix
    cancelReason := coalesce r.cancelReason (some reason) }

/-- The arms of `project_event` for a PMP. `tokenCode` is what `ref_tokens` has for the token. -/
def projectMarketEvent (row : Option MarketRow) (tokenCode : Option String)
    (blockUnix : Option ℕ) : MarketEvent → Option MarketRow × ProjectionOutcome
  | .pmpDeployed eventId tokenType lists fee =>
    applyPmpDeployed row tokenCode eventId tokenType lists fee
  | .pmp (.timingsSet a b c d) => applyTimingsSet row a b c d
  | .pmp (.poolsFrozen _) => applyPoolsFrozen row blockUnix
  | .pmp (.resolved k) => applyResolved row blockUnix k
  | .pmp .eventCancelled => applyPmpCancellation row blockUnix .EVENT_CANCELLED
  | .pmp .pmpRejected => applyPmpCancellation row blockUnix .PMP_REJECTED_BY_ORACLE
  | .pmp (.stakeAccepted ..) | .pmp (.mergeProcessed ..) | .pmp (.stakeForfeited ..) =>
    (row, .Applied)
  | .pmp _ => (row, .Unknown)

/-- The columns `write_market_state` sets. A cancellation it is the first to see is stamped with
its own clock. -/
def writeMarketState (r : MarketRow) (details : PmpDetails) (now : ℕ) : MarketRow :=
  { r with
    approved := details.approved
    isCancelled := details.isCancelled
    cancelledAt := if details.isCancelled ∧ r.cancelledAt = none then some now else r.cancelledAt
    reconciled := some ⟨details.oracleListHash, details.numOutcomes, details.orderBookAddress⟩ }

/-- A pass of `reconcile_one` that succeeds. -/
def reconcile (r : MarketRow) (details : PmpDetails) (now : ℕ) : MarketRow :=
  { writeMarketState r details now with
    lastReconciledAt := some now
    lastReconcileFailedAt := none }

def stampFailure (r : MarketRow) (now : ℕ) : MarketRow :=
  { r with lastReconcileFailedAt := some now, reconcileAttempts := r.reconcileAttempts + 1 }

/-- What one event does to the lifecycle columns. -/
def Lifecycle.after (l : Lifecycle) (blockUnix : Option ℕ) : MarketEvent → Lifecycle
  | .pmp (.timingsSet a b c d) => l.timingsSet a b c d
  | .pmp (.poolsFrozen _) => l.poolsFrozen blockUnix
  | .pmp (.resolved k) => l.resolved blockUnix k
  | .pmp .eventCancelled | .pmp .pmpRejected => l.cancelled blockUnix
  | _ => l

/-- A column takes the time of the event. -/
def MarketEvent.stamped : MarketEvent → Bool
  | .pmp (.poolsFrozen _) | .pmp (.resolved _) | .pmp .eventCancelled | .pmp .pmpRejected => true
  | _ => false

theorem projectMarketEvent_untimed {row : Option MarketRow} {tokenCode : Option String}
    {e : MarketEvent} (he : e.stamped = false) (blockUnix blockUnix' : Option ℕ) :
    projectMarketEvent row tokenCode blockUnix e = projectMarketEvent row tokenCode blockUnix' e := by
  cases e with
  | pmpDeployed => rfl
  | pmp e =>
    cases e with
    | poolsFrozen | resolved | eventCancelled | pmpRejected => exact Bool.noConfusion he
    | _ => rfl

/-- An event of the log with the chain time of its transaction. -/
abbrev MarketLog := List (ℕ × MarketEvent)

def Lifecycle.replayed (l : Lifecycle) (log : MarketLog) : Lifecycle :=
  log.foldl (fun l x => l.after (some x.1) x.2) l

/-- The lifecycle columns once the rest of the log is projected. -/
def replay (l : Option Lifecycle) : MarketLog → Option Lifecycle
  | [] => l
  | (blockUnix, e) :: log =>
    match l, e with
    | none, .pmpDeployed .. => replay (some .blank) log
    | none, .pmp _ => replay none log
    | some l, e => replay (some (l.after (some blockUnix) e)) log

/-- An event that is projected does to its row what the replay says. -/
theorem projected_lifecycle {row row' : Option MarketRow} {tokenCode : Option String}
    {blockUnix : ℕ} {e : MarketEvent} {o : ProjectionOutcome} (log : MarketLog)
    (h : projectMarketEvent row tokenCode (some blockUnix) e = (row', o)) (ho : o ≠ .Deferred) :
    replay (row'.map (·.toLifecycle)) log =
      replay (row.map (·.toLifecycle)) ((blockUnix, e) :: log) := by
  have hupdate : ∀ f : MarketRow → MarketRow, updateMarket row f = (row', o) →
      ∃ r, row = some r ∧ row' = some (f r) := by
    intro f hf
    cases row with
    | none => exact absurd (Prod.mk.inj hf).2.symm ho
    | some r => exact ⟨r, rfl, (Prod.mk.inj hf).1.symm⟩
  cases e with
  | pmpDeployed =>
    cases tokenCode with
    | none => exact absurd (Prod.mk.inj h).2.symm ho
    | some =>
      cases row with
      | none =>
        obtain ⟨rfl, -⟩ := Prod.mk.inj h
        rfl
      | some =>
        obtain ⟨rfl, -⟩ := Prod.mk.inj h
        rfl
  | pmp e =>
    have hsame : (row, ProjectionOutcome.Applied) = (row', o) ∨
        (row, ProjectionOutcome.Unknown) = (row', o) → (∀ l : Lifecycle,
          l.after (some blockUnix) (.pmp e) = l) →
        replay (row'.map (·.toLifecycle)) log =
          replay (row.map (·.toLifecycle)) ((blockUnix, .pmp e) :: log) := by
      intro hrow hl
      have hr : row = row' := hrow.elim (fun h => (Prod.mk.inj h).1) fun h => (Prod.mk.inj h).1
      rw [← hr]
      cases row with
      | none => rfl
      | some r => exact congrArg (fun x => replay (some x) log) (hl r.toLifecycle).symm
    cases e with
    | timingsSet =>
      obtain ⟨r, rfl, rfl⟩ := hupdate _ h
      rfl
    | poolsFrozen =>
      obtain ⟨r, rfl, rfl⟩ := hupdate _ h
      rfl
    | resolved =>
      obtain ⟨r, rfl, rfl⟩ := hupdate _ h
      rfl
    | eventCancelled =>
      obtain ⟨r, rfl, rfl⟩ := hupdate _ h
      rfl
    | pmpRejected =>
      obtain ⟨r, rfl, rfl⟩ := hupdate _ h
      rfl
    | stakeAccepted => exact hsame (.inl h) fun _ => rfl
    | mergeProcessed => exact hsame (.inl h) fun _ => rfl
    | stakeForfeited => exact hsame (.inl h) fun _ => rfl
    | approvedByOracle => exact hsame (.inr h) fun _ => rfl
    | claimProcessed => exact hsame (.inr h) fun _ => rfl
    | networkFeeBurned => exact hsame (.inr h) fun _ => rfl
    | creatorFeeCollected => exact hsame (.inr h) fun _ => rfl
    | splitProcessed => exact hsame (.inr h) fun _ => rfl

theorem replay_append (l : Option Lifecycle) (log log' : MarketLog) :
    replay l (log ++ log') = replay (replay l log) log' := by
  induction log generalizing l with
  | nil => rfl
  | cons x log ih =>
    obtain ⟨blockUnix, e⟩ := x
    cases l with
    | none =>
      cases e with
      | pmpDeployed => exact ih _
      | pmp => exact ih _
    | some => exact ih _

theorem replay_some (l : Lifecycle) (log : MarketLog) :
    replay (some l) log = some (l.replayed log) := by
  induction log generalizing l with
  | nil => rfl
  | cons x log ih => exact ih _

namespace MarketEvent

/-- A `TimingsSet`. -/
def isTimings : MarketEvent → Bool
  | .pmp (.timingsSet ..) => true
  | _ => false

/-- A cancellation event. -/
def isCancellation : MarketEvent → Bool
  | .pmp .eventCancelled | .pmp .pmpRejected => true
  | _ => false

end MarketEvent

def MarketLog.timings (log : MarketLog) : Bool := log.any fun x => x.2.isTimings

def MarketLog.cancellation (log : MarketLog) : Bool := log.any fun x => x.2.isCancellation

namespace Lifecycle

/-- The flags of a row play no part in what an event does to its other columns. -/
def setFlags (l : Lifecycle) (approved isCancelled : Bool) : Lifecycle :=
  { l with approved := approved, isCancelled := isCancelled }

theorem after_setFlags (l : Lifecycle) (a c : Bool) (t : Option ℕ) (e : MarketEvent) :
    (l.setFlags a c).after t e =
      (l.after t e).setFlags (a || e.isTimings) (c || e.isCancellation) := by
  cases e with
  | pmpDeployed => simp [after, setFlags, MarketEvent.isTimings, MarketEvent.isCancellation]
  | pmp e =>
    cases e <;> simp [after, setFlags, timingsSet, poolsFrozen, resolved, cancelled,
      MarketEvent.isTimings, MarketEvent.isCancellation]

theorem replayed_setFlags (l : Lifecycle) (a c : Bool) (log : MarketLog) :
    (l.setFlags a c).replayed log =
      (l.replayed log).setFlags (a || log.timings) (c || log.cancellation) := by
  induction log generalizing l a c with
  | nil => simp [replayed, MarketLog.timings, MarketLog.cancellation, setFlags]
  | cons x log ih =>
    have h := ih (l.after (some x.1) x.2) (a || x.2.isTimings) (c || x.2.isCancellation)
    rw [← after_setFlags] at h
    simpa [replayed, MarketLog.timings, MarketLog.cancellation, Bool.or_assoc] using h

theorem setFlags_self (l : Lifecycle) : l.setFlags l.approved l.isCancelled = l := rfl

theorem replayed_approved (l : Lifecycle) (log : MarketLog) :
    (l.replayed log).approved = (l.approved || log.timings) := by
  have h := l.replayed_setFlags l.approved l.isCancelled log
  rw [setFlags_self] at h
  exact congrArg approved h

theorem replayed_isCancelled (l : Lifecycle) (log : MarketLog) :
    (l.replayed log).isCancelled = (l.isCancelled || log.cancellation) := by
  have h := l.replayed_setFlags l.approved l.isCancelled log
  rw [setFlags_self] at h
  exact congrArg isCancelled h

theorem after_timings (l : Lifecycle) (t : Option ℕ) (e : MarketEvent)
    (h : l.timings.isSome = true) : (l.after t e).timings.isSome = true := by
  cases e with
  | pmpDeployed => exact h
  | pmp e => cases e <;> first | exact h | rfl

theorem replayed_timings (l : Lifecycle) (log : MarketLog) (h : l.timings.isSome = true) :
    (l.replayed log).timings.isSome = true := by
  induction log generalizing l with
  | nil => exact h
  | cons x log ih => exact ih _ (l.after_timings _ _ h)

theorem after_cancelledAt (l : Lifecycle) (t : Option ℕ) (e : MarketEvent) {c : ℕ}
    (h : l.cancelledAt = some c) : (l.after t e).cancelledAt = some c := by
  cases e with
  | pmpDeployed => exact h
  | pmp e => cases e <;> simp [after, timingsSet, poolsFrozen, resolved, cancelled, coalesce, h]

theorem replayed_cancelledAt (l : Lifecycle) (log : MarketLog) {c : ℕ}
    (h : l.cancelledAt = some c) : (l.replayed log).cancelledAt = some c := by
  induction log generalizing l with
  | nil => exact h
  | cons x log ih => exact ih _ (l.after_cancelledAt _ _ h)

theorem after_setCancelledAt (l : Lifecycle) (c : ℕ) (t : Option ℕ) (e : MarketEvent) :
    ({ l with cancelledAt := some c } : Lifecycle).after t e =
      { l.after t e with cancelledAt := some c } := by
  cases e with
  | pmpDeployed => rfl
  | pmp e => cases e <;> rfl

theorem replayed_setCancelledAt (l : Lifecycle) (c : ℕ) (log : MarketLog) :
    ({ l with cancelledAt := some c } : Lifecycle).replayed log =
      { l.replayed log with cancelledAt := some c } := by
  induction log generalizing l with
  | nil => rfl
  | cons x log ih =>
    have h := ih (l.after (some x.1) x.2)
    rw [← after_setCancelledAt] at h
    exact h

end Lifecycle

end ReadModel

end Dexdo

namespace Dexdo.ReadModel

namespace MarketStatus

def asStr : MarketStatus → String
  | .Pending => "PENDING"
  | .Upcoming => "UPCOMING"
  | .Staking => "STAKING"
  | .AwaitingFreeze => "AWAITING_FREEZE"
  | .Trading => "TRADING"
  | .Resolving => "RESOLVING"
  | .Resolved => "RESOLVED"
  | .Cancelled => "CANCELLED"
  | .Expired => "EXPIRED"

theorem asStr_inj {a b : MarketStatus} (h : a.asStr = b.asStr) : a = b := by
  cases a <;> cases b <;> first | rfl | exact absurd h (by decide)

end MarketStatus

/-- The columns of `markets` a status is read from; only `is_cancelled` is never NULL. -/
structure StatusColumns where
  cancelledAt : Option ℤ
  isCancelled : Bool
  resolvedAt : Option ℤ
  stakeStart : Option ℤ
  stakeEnd : Option ℤ
  resultStart : Option ℤ
  resultEnd : Option ℤ
  frozenAt : Option ℤ

namespace StatusColumns

/-- The timing columns are all there or all missing. -/
def Together (m : StatusColumns) : Prop :=
  (m.stakeStart = none ∧ m.stakeEnd = none ∧ m.resultStart = none ∧ m.resultEnd = none) ∨
    (m.stakeStart.isSome ∧ m.stakeEnd.isSome ∧ m.resultStart.isSome ∧ m.resultEnd.isSome)

/-- The status as the listing filter derives it; the arms are tried in order. -/
def STATUS_CASE (m : StatusColumns) (now : ℤ) : String :=
  Sql.caseWhen "TRADING"
    [(Sql.or (Sql.isNotNull m.cancelledAt) (some m.isCancelled), "CANCELLED"),
      (Sql.isNotNull m.resolvedAt, "RESOLVED"),
      (Sql.isNull m.stakeStart, "PENDING"),
      (Sql.and (Sql.isNull m.frozenAt) (Sql.ge (some now) m.stakeEnd), "AWAITING_FREEZE"),
      (Sql.and (Sql.isNull m.frozenAt) (Sql.ge (some now) m.stakeStart), "STAKING"),
      (Sql.isNull m.frozenAt, "UPCOMING"),
      (Sql.ge (some now) m.resultEnd, "EXPIRED"),
      (Sql.ge (some now) m.resultStart, "RESOLVING")]

/-- The status as the response derives it: a missing boundary falls back on the one before. -/
def computeStatus (m : StatusColumns) (now : ℤ) : MarketStatus :=
  if m.cancelledAt.isSome ∨ m.isCancelled then .Cancelled
  else if m.resolvedAt.isSome then .Resolved
  else match m.stakeStart with
    | none => .Pending
    | some stakeStart =>
      let stakeEnd := m.stakeEnd.getD stakeStart
      let resultStart := m.resultStart.getD stakeEnd
      let resultEnd := m.resultEnd.getD resultStart
      if m.frozenAt.isNone then
        if stakeEnd ≤ now then .AwaitingFreeze
        else if stakeStart ≤ now then .Staking
        else .Upcoming
      else if resultEnd ≤ now then .Expired
      else if resultStart ≤ now then .Resolving
      else .Trading

/-- The `?status=` filter of the listing. -/
def matchesStatuses (m : StatusColumns) (now : ℤ) (statuses : List MarketStatus) : Sql.Truth :=
  if statuses = [] then some true
  else Sql.eqAny (m.STATUS_CASE now) (statuses.map MarketStatus.asStr)

variable {m : StatusColumns}

theorem statusCase_eq (h : m.Together) (now : ℤ) :
    m.STATUS_CASE now = (m.computeStatus now).asStr := by
  obtain ⟨cancelledAt, isCancelled, resolvedAt, stakeStart, stakeEnd, resultStart, resultEnd,
    frozenAt⟩ := m
  simp only [STATUS_CASE, computeStatus, Sql.caseWhen, Sql.or_eq_true, Sql.and_eq_true,
    Sql.isNull_eq_true, Sql.isNotNull_eq_true, Option.some.injEq]
  by_cases hc : cancelledAt.isSome = true ∨ isCancelled = true
  · rw [if_pos hc, if_pos hc]
    rfl
  rw [if_neg hc, if_neg hc]
  by_cases hr : resolvedAt.isSome = true
  · rw [if_pos hr, if_pos hr]
    rfl
  rw [if_neg hr, if_neg hr]
  rcases h with ⟨rfl, rfl, rfl, rfl⟩ | ⟨h1, h2, h3, h4⟩
  · rfl
  · obtain ⟨a, rfl⟩ := Option.isSome_iff_exists.mp h1
    obtain ⟨b, rfl⟩ := Option.isSome_iff_exists.mp h2
    obtain ⟨c, rfl⟩ := Option.isSome_iff_exists.mp h3
    obtain ⟨d, rfl⟩ := Option.isSome_iff_exists.mp h4
    simp only [Sql.ge_some, Option.getD_some]
    cases frozenAt with
    | none =>
      simp only [Option.isNone_none, true_and, if_true, reduceCtorEq, if_false]
      split_ifs <;> rfl
    | some =>
      simp only [Option.isNone_some, reduceCtorEq, false_and, if_false, Bool.false_eq_true]
      split_ifs <;> rfl

theorem matchesStatuses_iff (h : m.Together) (now : ℤ) {statuses : List MarketStatus}
    (hne : statuses ≠ []) :
    m.matchesStatuses now statuses = some true ↔ m.computeStatus now ∈ statuses := by
  rw [matchesStatuses, if_neg hne, Sql.eqAny_eq_true, statusCase_eq h, List.mem_map]
  constructor
  · rintro ⟨s, hs, he⟩
    exact MarketStatus.asStr_inj he ▸ hs
  · exact fun hs => ⟨_, hs, rfl⟩

end StatusColumns

/-- The status columns of a row the indexer writes. -/
def Lifecycle.columns (l : Lifecycle) : StatusColumns where
  cancelledAt := l.cancelledAt.map Int.ofNat
  isCancelled := l.isCancelled
  resolvedAt := l.resolvedAt.map Int.ofNat
  stakeStart := l.timings.map fun t => (t.stakeStart : ℤ)
  stakeEnd := l.timings.map fun t => (t.stakeEnd : ℤ)
  resultStart := l.timings.map fun t => (t.resultStart : ℤ)
  resultEnd := l.timings.map fun t => (t.resultEnd : ℤ)
  frozenAt := l.frozenAt.map Int.ofNat

theorem Lifecycle.together (l : Lifecycle) : l.columns.Together := by
  unfold StatusColumns.Together columns
  cases l.timings with
  | none => exact .inl ⟨rfl, rfl, rfl, rfl⟩
  | some => exact .inr ⟨rfl, rfl, rfl, rfl⟩

theorem Lifecycle.computeStatus_columns (l : Lifecycle) (now : ℕ) :
    l.columns.computeStatus now = computeStatus l now := by
  unfold StatusColumns.computeStatus computeStatus columns
  cases l.timings with
  | none => simp
  | some => simp

end Dexdo.ReadModel
