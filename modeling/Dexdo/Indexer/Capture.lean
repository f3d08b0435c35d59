import Dexdo.Lib.Run
import Mathlib.Data.List.MinMax
import Mathlib.Data.List.ReduceOption
import Mathlib.Order.Basic

namespace Dexdo

namespace Capture

inductive CaptureSource
  | dexDapp
  | rootPn
  deriving DecidableEq

def CaptureSource.other : CaptureSource → CaptureSource
  | .dexDapp => .rootPn
  | .rootPn => .dexDapp

/-- `MAX_PAGES_PER_TICK`. -/
def maxPagesPerTick : ℕ := 100

variable {κ : Type}

/-- An event as its stream serves it; an event `inScope` passes the ingest filters. -/
structure EventEdge (κ : Type) where
  source : CaptureSource
  chainOrder : κ
  inScope : Bool
  deriving DecidableEq

structure EventsPage (κ : Type) where
  edges : List (EventEdge κ)
  endCursor : Option κ
  hasNextPage : Bool

/-- A row of `indexer_cursors`. -/
structure CursorRow (κ : Type) where
  cursor : Option κ
  atHead : Bool

structure CaptureBarrier (κ : Type) where
  cursor : Option κ
  atHead : Bool

/-- The tables of the capture: the source streams and the aggregate one have rows of their own in
`indexer_cursors`, and `processed` are the rows of `rawEvents` with a `processed_at`. -/
structure Db (κ : Type) where
  rawEvents : List (EventEdge κ)
  processed : List (EventEdge κ)
  streams : CaptureSource → Option (CursorRow κ)
  barrier : Option (CursorRow κ)

def loadCursor (row : Option (CursorRow κ)) : Option κ := row.bind (·.cursor)

def insertNew [DecidableEq κ] (rows : List (EventEdge κ)) (edges : List (EventEdge κ)) :
    List (EventEdge κ) :=
  edges.foldl (fun rows e => if e ∈ rows then rows else rows ++ [e]) rows

namespace Db

variable (db : Db κ)

def setCaptureBarrier (cursor : Option κ) (atHead : Bool) : Db κ :=
  { db with barrier := some ⟨cursor, atHead⟩ }

def initializeCaptureBarrier : Db κ :=
  let cursor := if (db.streams .dexDapp).isSome && (db.streams .rootPn).isSome then
    loadCursor db.barrier else none
  db.setCaptureBarrier cursor false

def persistPage [DecidableEq κ] (source : CaptureSource) (edges : List (EventEdge κ))
    (endCursor : Option κ) (atHead : Bool) : Db κ :=
  { db with
    rawEvents := insertNew db.rawEvents edges
    streams := Function.update db.streams source
      (some ⟨endCursor.or (loadCursor (db.streams source)), atHead⟩) }

end Db

section Barrier

variable [LinearOrder κ]

def synchronizedCaptureBarrier (states : List (Option κ × Bool)) : CaptureBarrier κ :=
  let atHead := states.all (·.2)
  let cursor :=
    if atHead then (states.filterMap (·.1)).max?
    else
      let limiting := (states.filter fun x => !x.2).map (·.1)
      if limiting.any (·.isNone) then none else limiting.reduceOption.min?
  ⟨cursor, atHead⟩

/-- What is published for a candidate, and the candidate that then waits for the next poll. -/
def stabilizedCaptureBarrier (candidate : CaptureBarrier κ) (publishedCursor : Option κ)
    (pendingHead : Option (CaptureBarrier κ)) : CaptureBarrier κ × Option (CaptureBarrier κ) :=
  if !candidate.atHead then (candidate, none)
  else (⟨(pendingHead.bind (·.cursor)).or publishedCursor, true⟩, some candidate)

end Barrier

/-- Where `drain_events` of one source stands in the present tick. -/
inductive Drain (κ : Type)
  | fetching (pages : ℕ)
  | holding (pages : ℕ) (page : EventsPage κ)
  | finished (atHead : Bool)
  | failed

/-- The variables of the capture loop. -/
structure Proc (κ : Type) where
  cursors : CaptureSource → Option κ
  publishedBarrierCursor : Option κ
  pendingHeadBarrier : Option (CaptureBarrier κ)
  drains : CaptureSource → Drain κ

/-- The visible events in the order in which they became visible, the tables, the capture loop if
it runs, and the ceiling of the projector. `asked` is how many events were visible when the last
page of a source was fetched, or at the beginning. -/
structure World (κ : Type) where
  log : List (EventEdge κ)
  db : Db κ
  proc : Option (Proc κ)
  ceiling : Option κ
  asked : CaptureSource → ℕ

/-- How a write of the database ends for the program that asked for it. -/
inductive Outcome
  | done
  /-- committed, and reported as an error -/
  | lost
  | refused
  deriving DecidableEq

inductive Move (κ : Type)
  | grow (e : EventEdge κ)
  | start
  | crash
  | fetch (source : CaptureSource) (page : Option (EventsPage κ))
  | persist (source : CaptureSource) (outcome : Outcome)
  | publish (outcome : Outcome)
  | ceiling
  | project (e : EventEdge κ)

/-- The events of a stream after a cursor; no cursor stands for the earliest one. -/
def after [LinearOrder κ] (log : List (EventEdge κ)) (source : CaptureSource)
    (cursor : Option κ) : List (EventEdge κ) :=
  log.filter fun e => decide (e.source = source) && cursor.all fun c => decide (c < e.chainOrder)

/-- What a stream may answer: its next events after the cursor, the last one's order as the end of
the page, and `hasNextPage = false` only if nothing follows. -/
def Served [LinearOrder κ] (log : List (EventEdge κ)) (source : CaptureSource) (cursor : Option κ)
    (page : EventsPage κ) : Prop :=
  page.edges <+: after log source cursor ∧
    (page.endCursor = none ∨ page.endCursor = page.edges.getLast?.map (·.chainOrder)) ∧
    (page.hasNextPage = false → page.edges = after log source cursor)

instance [LinearOrder κ] (log : List (EventEdge κ)) (source : CaptureSource) (cursor : Option κ)
    (page : EventsPage κ) : Decidable (Served log source cursor page) := by
  unfold Served
  infer_instance

namespace Proc

variable (p : Proc κ)

def setDrain (source : CaptureSource) (d : Drain κ) : Proc κ :=
  { p with drains := Function.update p.drains source d }

/-- The page that is held has been stored. -/
def stored (source : CaptureSource) (pages : ℕ) (page : EventsPage κ) : Proc κ :=
  { p with
    cursors := Function.update p.cursors source (page.endCursor.or (p.cursors source))
    drains := Function.update p.drains source
      (if !page.hasNextPage then .finished true
        else if pages + 1 < maxPagesPerTick then .fetching (pages + 1)
        else .finished false) }

def nextTick : Proc κ := { p with drains := fun _ => .fetching 0 }

/-- The two sources' `at_head`, once both drains of the tick have succeeded. -/
def results : Option (Bool × Bool) :=
  match p.drains .dexDapp, p.drains .rootPn with
  | .finished a, .finished b => some (a, b)
  | _, _ => none

/-- The barrier at the end of a tick whose drains both succeeded: what is published, and what waits
for the next poll. -/
def barrier [LinearOrder κ] (a b : Bool) : CaptureBarrier κ × Option (CaptureBarrier κ) :=
  stabilizedCaptureBarrier
    (synchronizedCaptureBarrier [(p.cursors .dexDapp, a), (p.cursors .rootPn, b)])
    p.publishedBarrierCursor p.pendingHeadBarrier

end Proc

def Drain.ended : Drain κ → Bool
  | .finished _ | .failed => true
  | _ => false

namespace World

variable [LinearOrder κ] (w : World κ)

/-- A start of the process, up to its first tick. -/
def boot : World κ :=
  let db := w.db.initializeCaptureBarrier
  { w with
    db := db
    ceiling := none
    proc := some
      { cursors := fun s => loadCursor (db.streams s)
        publishedBarrierCursor := loadCursor db.barrier
        pendingHeadBarrier := none
        drains := fun _ => .fetching 0 } }

/-- `max_projectable_chain_order`. -/
def maxProjectable : Option κ :=
  ((w.db.rawEvents.filter fun e => decide (e ∉ w.db.processed) &&
    (loadCursor w.db.barrier).any fun c => decide (e.chainOrder ≤ c)).map (·.chainOrder)).max?

def grow (e : EventEdge κ) : Option (World κ) := do
  guard (∀ f ∈ w.log, f.chainOrder < e.chainOrder)
  pure { w with log := w.log ++ [e] }

/-- A page is asked for and answered, or the request fails. -/
def fetch (source : CaptureSource) (page : Option (EventsPage κ)) : Option (World κ) := do
  let p ← w.proc
  match p.drains source, page with
  | .fetching _, none => pure { w with proc := some (p.setDrain source .failed) }
  | .fetching pages, some page =>
    guard (Served w.log source (p.cursors source) page)
    pure { w with
      proc := some (p.setDrain source (.holding pages page))
      asked := Function.update w.asked source w.log.length }
  | _, _ => none

def persist (source : CaptureSource) (outcome : Outcome) : Option (World κ) := do
  let p ← w.proc
  match p.drains source with
  | .holding pages page =>
    let db := w.db.persistPage source (page.edges.filter (·.inScope)) page.endCursor
      (!page.hasNextPage)
    match outcome with
    | .done => pure { w with db := db, proc := some (p.stored source pages page) }
    | .lost => pure { w with db := db, proc := some (p.setDrain source .failed) }
    | .refused => pure { w with proc := some (p.setDrain source .failed) }
  | _ => none

/-- The end of a tick: both drains are over, and the barrier moves if both succeeded. -/
def publish (outcome : Outcome) : Option (World κ) := do
  let p ← w.proc
  guard ((p.drains .dexDapp).ended && (p.drains .rootPn).ended)
  match p.results with
  | none => pure { w with proc := some p.nextTick }
  | some (a, b) =>
    let (publishable, pending) := p.barrier a b
    let db := w.db.setCaptureBarrier publishable.cursor publishable.atHead
    let waits := { p.nextTick with pendingHeadBarrier := pending }
    match outcome with
    | .done => pure { w with
        db := db
        proc := some { waits with publishedBarrierCursor := publishable.cursor } }
    | .lost => pure { w with db := db, proc := some waits }
    | .refused => pure { w with proc := some waits }

/-- A pending row up to the projector's ceiling is applied. -/
def project (e : EventEdge κ) : Option (World κ) := do
  let c ← w.ceiling
  guard (e ∈ w.db.rawEvents ∧ e ∉ w.db.processed ∧ e.chainOrder ≤ c)
  pure { w with db := { w.db with processed := w.db.processed ++ [e] } }

end World

def step [LinearOrder κ] (w : World κ) : Move κ → Option (World κ)
  | .grow e => w.grow e
  | .start => if w.proc.isNone then some w.boot else none
  | .crash => some { w with proc := none, ceiling := none }
  | .fetch source page => w.fetch source page
  | .persist source outcome => w.persist source outcome
  | .publish outcome => w.publish outcome
  | .ceiling => if w.proc.isSome then some { w with ceiling := w.maxProjectable } else none
  | .project e => w.project e

/-- Before the first start: what is visible, the rows an earlier capture left, and the cursor of
its one stream. -/
def initial (log raw : List (EventEdge κ)) (legacy : Option κ) : World κ :=
  { log := log
    db := { rawEvents := raw, processed := [], streams := fun _ => none,
            barrier := some ⟨legacy, false⟩ }
    proc := none
    ceiling := none
    asked := fun _ => log.length }

end Capture

end Dexdo
