import Dexdo.Indexer.Barrier

namespace Dexdo

namespace Capture

variable {κ : Type} [LinearOrder κ] {w w' t u : World κ} {p : Proc κ} {s : CaptureSource}
  {m : Move κ} {tr : List (Move κ × World κ)}

section Ends

omit [LinearOrder κ] in
theorem results_inv {a b : Bool} (h : p.results = some (a, b)) :
    p.drains .dexDapp = .finished a ∧ p.drains .rootPn = .finished b := by
  unfold Proc.results at h
  split at h
  · rename_i ha hb
    cases h
    exact ⟨ha, hb⟩
  · cases h

theorem publish_inv {outcome : Outcome} (hm : w.publish outcome = some w') :
    ∃ p, w.proc = some p ∧
      ((p.results = none ∧ w' = { w with proc := some p.nextTick }) ∨
        ∃ a b published, p.results = some (a, b) ∧
          (published = p.publishedBarrierCursor ∨ published = (p.barrier a b).1.cursor) ∧
          (outcome = .refused → published = p.publishedBarrierCursor) ∧
          w' = { w with
            db := if outcome = .refused then w.db else
              w.db.setCaptureBarrier (p.barrier a b).1.cursor (p.barrier a b).1.atHead
            proc := some { p.nextTick with
              pendingHeadBarrier := (p.barrier a b).2
              publishedBarrierCursor := published } }) := by
  unfold World.publish at hm
  simp only [Option.bind_eq_bind, Option.bind_eq_some_iff, Option.guard_eq_some',
    exists_const] at hm
  obtain ⟨p, hp, -, hm⟩ := hm
  refine ⟨p, hp, ?_⟩
  split at hm
  · rename_i hr
    exact .inl ⟨hr, (Option.some.inj hm).symm⟩
  · rename_i a b hr
    right
    cases outcome with
    | done => exact ⟨a, b, _, hr, .inr rfl, nofun, (Option.some.inj hm).symm⟩
    | lost => exact ⟨a, b, _, hr, .inl rfl, nofun, (Option.some.inj hm).symm⟩
    | refused => exact ⟨a, b, _, hr, .inl rfl, fun _ => rfl, (Option.some.inj hm).symm⟩

theorem barrier_waiting {a b : Bool} {c : κ} (h : (p.barrier a b).2.bind (·.cursor) = some c) :
    ∃ s, p.cursors s = some c := by
  unfold Proc.barrier stabilizedCaptureBarrier at h
  rw [synchronized_atHead] at h
  split_ifs at h with hab
  · cases h
  · have hab' : a = true ∧ b = true := by
      rw [Bool.not_eq_true, Bool.not_eq_false'] at hab
      exact Bool.and_eq_true_iff.mp hab
    obtain ⟨rfl, rfl⟩ := hab'
    rcases synchronized_heads h with hc | hc
    · exact ⟨_, hc⟩
    · exact ⟨_, hc⟩

theorem publish_consistent {outcome : Outcome} (h : Consistent w)
    (hm : w.publish outcome = some w') : Consistent w' := by
  obtain ⟨p, hp, hcases⟩ := publish_inv hm
  have hok := h.proc p hp
  rcases hcases with ⟨-, rfl⟩ | ⟨a, b, published, -, -, -, rfl⟩
  · refine ⟨h.sorted, h.asked, h.seen, h.rows, ?_⟩
    intro q hq
    cases hq
    refine ⟨hok.cursors, ?_, ?_, hok.waiting⟩
    · intro s n page hd
      cases hd
    · intro s hd
      cases hd
  · have hraw : (if outcome = .refused then w.db else
        w.db.setCaptureBarrier (p.barrier a b).1.cursor (p.barrier a b).1.atHead).rawEvents =
        w.db.rawEvents := by
      split_ifs
      · rfl
      · rfl
    have hrows : (if outcome = .refused then w.db else
        w.db.setCaptureBarrier (p.barrier a b).1.cursor (p.barrier a b).1.atHead).streams =
        w.db.streams := by
      split_ifs
      · rfl
      · rfl
    refine ⟨h.sorted, h.asked, ?_, ?_, ?_⟩
    · rw [hraw]
      exact h.seen
    · rw [hrows]
      intro s c hc
      obtain ⟨hv, hcomp⟩ := h.rows s c hc
      exact ⟨hv, hcomp.stores rfl fun e he => hraw ▸ he⟩
    · intro q hq
      cases hq
      refine ⟨?_, ?_, ?_, ?_⟩
      · intro s c hc
        obtain ⟨hv, hcomp⟩ := hok.cursors s c hc
        exact ⟨hv, hcomp.stores rfl fun e he => hraw ▸ he⟩
      · intro s n page hd
        cases hd
      · intro s hd
        cases hd
      · intro c hc
        obtain ⟨s, hs⟩ := barrier_waiting hc
        exact (hok.cursors s c hs).1

end Ends

theorem step_consistent (h : Consistent w) (hm : step w m = some w') : Consistent w' := by
  cases m with
  | grow => exact grow_consistent h hm
  | start =>
    change (if w.proc.isNone then some w.boot else none) = some w' at hm
    split_ifs at hm
    cases hm
    exact boot_consistent h
  | crash =>
    cases hm
    refine ⟨h.sorted, h.asked, h.seen, h.rows, ?_⟩
    intro p hp
    cases hp
  | fetch => exact fetch_consistent h hm
  | persist => exact persist_consistent h hm
  | publish => exact publish_consistent h hm
  | ceiling =>
    change (if w.proc.isSome then some { w with ceiling := w.maxProjectable } else none) =
      some w' at hm
    split_ifs at hm
    cases hm
    exact ⟨h.sorted, h.asked, h.seen, h.rows, fun p hp =>
      ⟨(h.proc p hp).cursors, fun s n page hd =>
        ((h.proc p hp).held s n page hd).stores rfl rfl (fun _ he => he) rfl,
        (h.proc p hp).head, (h.proc p hp).waiting⟩⟩
  | project =>
    simp only [step, World.project, Option.bind_eq_bind, Option.bind_eq_some_iff,
      Option.guard_eq_some', exists_const, Option.pure_def, Option.some.injEq] at hm
    obtain ⟨c, -, -, rfl⟩ := hm
    exact ⟨h.sorted, h.asked, h.seen, h.rows, fun p hp =>
      ⟨(h.proc p hp).cursors, fun s n page hd =>
        ((h.proc p hp).held s n page hd).stores rfl rfl (fun _ he => he) rfl,
        (h.proc p hp).head, (h.proc p hp).waiting⟩⟩

/-- The published barrier covers both streams. -/
def Sound (w : World κ) : Prop := ∀ c, loadCursor w.db.barrier = some c → Covers w c

/-- A row is applied only when no earlier event is missing. -/
def InOrder (w : World κ) : Move κ → Prop
  | .project e => ∀ f ∈ w.log, f.inScope = true → f.chainOrder < e.chainOrder →
      f ∈ w.db.rawEvents
  | _ => True

/-- When a tick that is published ends with one stream at its head and the other not, no event in
scope of the former has become visible since its last page with an order up to the cursor of the
latter. -/
def Settled (w : World κ) : Move κ → Prop
  | .publish outcome => outcome ≠ .refused → ∀ p, w.proc = some p → ∀ s : CaptureSource,
      p.drains s = .finished true → p.drains s.other = .finished false →
      ∀ c, p.cursors s.other = some c → ∀ e ∈ w.log.drop (w.asked s), e.source = s →
        e.inScope = true → c < e.chainOrder
  | _ => True

/-- A cursor that covers both streams, now and later. -/
def Safe (w : World κ) (cursor : Option κ) : Prop :=
  ∀ c, cursor = some c → Visible w.log c ∧ Covers w c

/-- What is safe as long as every tick is settled. -/
structure Guarded (w : World κ) : Prop where
  barrier : Safe w (loadCursor w.db.barrier)
  published : ∀ p, w.proc = some p → Safe w p.publishedBarrierCursor
  ceiling : Safe w w.ceiling

theorem Safe.stores {cursor : Option κ} (h : Safe w cursor) (hlog : w'.log = w.log)
    (hraw : ∀ e ∈ w.db.rawEvents, e ∈ w'.db.rawEvents) : Safe w' cursor := by
  intro c hc
  obtain ⟨hv, hcov⟩ := h c hc
  refine ⟨hlog ▸ hv, covers_iff.mpr fun s => ?_⟩
  exact (covers_iff.mp hcov s).stores hlog hraw

theorem Safe.grow {cursor : Option κ} {e : EventEdge κ} (h : Safe w cursor)
    (hm : w.grow e = some w') : Safe w' cursor := by
  simp only [World.grow, Option.bind_eq_bind, Option.bind_eq_some_iff, Option.guard_eq_some',
    exists_const, Option.pure_def, Option.some.injEq] at hm
  obtain ⟨he, rfl⟩ := hm
  intro c hc
  obtain ⟨hv, hcov⟩ := h c hc
  refine ⟨hv.mono fun f hf => List.mem_append_left _ hf, covers_iff.mpr fun s => ?_⟩
  exact (covers_iff.mp hcov s).grow hv rfl he rfl

theorem Guarded.stores (h : Guarded w) (hlog : w'.log = w.log)
    (hraw : ∀ e ∈ w.db.rawEvents, e ∈ w'.db.rawEvents) (hb : w'.db.barrier = w.db.barrier)
    (hp : ∀ p, w'.proc = some p → ∃ q, w.proc = some q ∧
      p.publishedBarrierCursor = q.publishedBarrierCursor)
    (hc : w'.ceiling = w.ceiling) : Guarded w' where
  barrier := by
    rw [hb]
    exact h.barrier.stores hlog hraw
  published := by
    intro p hp'
    obtain ⟨q, hq, heq⟩ := hp p hp'
    rw [heq]
    exact (h.published q hq).stores hlog hraw
  ceiling := by
    rw [hc]
    exact h.ceiling.stores hlog hraw

/-- The stream at its head covers the other one's cursor unless an event has slipped in. -/
theorem mixed_covers {c : κ} (h : Consistent w) (hp : w.proc = some p)
    (hd : p.drains s = .finished true) (hc : p.cursors s.other = some c) :
    Covers w c ↔ ∀ e ∈ w.log.drop (w.asked s), e.source = s → e.inScope = true →
      c < e.chainOrder := by
  have hok := h.proc p hp
  have hdrained := (hok.head s hd).1
  have hcomp := (hok.cursors s.other c hc).2
  constructor
  · intro hcov e he hes hei
    by_contra hlt
    have hraw := hcov e (List.mem_of_mem_drop he) hei (le_of_not_gt hlt)
    have htake := h.seen e hraw
    rw [hes] at htake
    -- no event is on both sides of the cut
    have hnd : (w.log.take (w.asked s) ++ w.log.drop (w.asked s)).Pairwise
        fun a b => a.chainOrder < b.chainOrder := by
      rw [List.take_append_drop]
      exact h.sorted
    exact lt_irrefl _ ((List.pairwise_append.mp hnd).2.2 e htake e he)
  · intro hlate
    refine covers_iff.mpr fun s' e he hes hei hle => ?_
    by_cases hs : s' = s
    · subst hs
      have hmem : e ∈ w.log.take (w.asked s') := by
        rw [← List.take_append_drop (w.asked s') w.log] at he
        refine (List.mem_append.mp he).resolve_right fun hin => ?_
        exact absurd hle (hlate e hin hes hei).not_ge
      exact (hdrained e hmem hes hei).resolve_right List.not_mem_nil
    · have hother : s' = s.other := by
        cases s <;> cases s' <;> first | rfl | exact absurd rfl hs
      subst hother
      exact hcomp e he hes hei hle

section Publishing

theorem barrier_heads : (p.barrier true true).1.cursor = p.waiting.or p.publishedBarrierCursor := by
  unfold Proc.barrier stabilizedCaptureBarrier
  rw [synchronized_atHead]
  rfl

theorem barrier_mixed {a b : Bool} (hr : p.results = some (a, b))
    (hs : p.drains s = .finished true) (ho : p.drains s.other = .finished false) :
    (p.barrier a b).1.cursor = p.cursors s.other := by
  obtain ⟨ha, hb⟩ := results_inv hr
  unfold Proc.barrier stabilizedCaptureBarrier
  cases s with
  | dexDapp =>
    obtain rfl : a = true := by
      rw [ha] at hs
      injection hs
    obtain rfl : b = false := by
      change p.drains .rootPn = _ at ho
      rw [hb] at ho
      injection ho
    rw [synchronized_first]
    rfl
  | rootPn =>
    obtain rfl : b = true := by
      rw [hb] at hs
      injection hs
    obtain rfl : a = false := by
      change p.drains .dexDapp = _ at ho
      rw [ha] at ho
      injection ho
    rw [synchronized_second]
    rfl

theorem barrier_behind {c : κ} (h : (p.barrier false false).1.cursor = some c) (s : CaptureSource) :
    ∃ d, p.cursors s = some d ∧ c ≤ d := by
  unfold Proc.barrier stabilizedCaptureBarrier at h
  rw [synchronized_atHead] at h
  obtain ⟨a, b, ha, hb, hca, hcb⟩ := synchronized_behind h
  cases s with
  | dexDapp => exact ⟨a, ha, hca⟩
  | rootPn => exact ⟨b, hb, hcb⟩

/-- In a settled tick the published cursor covers both streams. -/
theorem barrier_safe {a b : Bool} (h : Consistent w) (hp : w.proc = some p)
    (hg : Safe w p.publishedBarrierCursor) (hr : p.results = some (a, b))
    (hs : ∀ s : CaptureSource, p.drains s = .finished true → p.drains s.other = .finished false →
      ∀ c, p.cursors s.other = some c → ∀ e ∈ w.log.drop (w.asked s), e.source = s →
        e.inScope = true → c < e.chainOrder) :
    Safe w (p.barrier a b).1.cursor := by
  have hok := h.proc p hp
  obtain ⟨ha, hb⟩ := results_inv hr
  intro c hc
  have hmixed : ∀ s : CaptureSource, p.drains s = .finished true →
      p.drains s.other = .finished false → Visible w.log c ∧ Covers w c := by
    intro s h1 h2
    rw [barrier_mixed hr h1 h2] at hc
    exact ⟨(hok.cursors _ c hc).1, (mixed_covers h hp h1 hc).mpr (hs s h1 h2 c hc)⟩
  cases a with
  | true =>
    cases b with
    | true =>
      rw [barrier_heads, Option.or_eq_some_iff] at hc
      rcases hc with hc | ⟨-, hc⟩
      · -- both streams have been drained to their heads since `c` was visible
        refine ⟨hok.waiting c hc, covers_iff.mpr fun s => ?_⟩
        have hhead : p.drains s = .finished true := by
          cases s with
          | dexDapp => exact ha
          | rootPn => exact hb
        obtain ⟨h1, h2⟩ := hok.head s hhead
        exact h1.complete h (h2 c hc)
      · exact hg c hc
    | false => exact hmixed .dexDapp ha hb
  | false =>
    cases b with
    | true => exact hmixed .rootPn hb ha
    | false =>
      refine ⟨?_, covers_iff.mpr fun s => ?_⟩
      · obtain ⟨d, hd, hle⟩ := barrier_behind hc .dexDapp
        obtain ⟨f, hf, hdf⟩ := (hok.cursors _ d hd).1
        exact ⟨f, hf, hle.trans hdf⟩
      · obtain ⟨d, hd, hle⟩ := barrier_behind hc s
        exact (hok.cursors s d hd).2.of_le hle

theorem publish_guarded {outcome : Outcome} (h : Consistent w) (hg : Guarded w)
    (hs : Settled w (.publish outcome)) (hm : w.publish outcome = some w') : Guarded w' := by
  obtain ⟨p, hp, ⟨-, rfl⟩ | ⟨a, b, published, hr, hpub, href, rfl⟩⟩ :=
    publish_inv hm
  · refine hg.stores rfl (fun _ he => he) rfl ?_ rfl
    intro q hq
    cases hq
    exact ⟨p, hp, rfl⟩
  · have hraw : ∀ e ∈ w.db.rawEvents, e ∈ (if outcome = .refused then w.db else
        w.db.setCaptureBarrier (p.barrier a b).1.cursor (p.barrier a b).1.atHead).rawEvents := by
      intro e he
      split_ifs
      · exact he
      · exact he
    by_cases ho : outcome = .refused
    · subst ho
      obtain rfl := href rfl
      refine ⟨hg.barrier.stores rfl hraw, ?_, hg.ceiling.stores rfl hraw⟩
      intro q hq
      cases hq
      exact (hg.published p hp).stores rfl hraw
    · have hsafe := barrier_safe h hp (hg.published p hp) hr (hs ho p hp)
      refine ⟨?_, ?_, hg.ceiling.stores rfl hraw⟩
      · dsimp only
        rw [if_neg ho]
        exact hsafe.stores rfl fun _ he => he
      · intro q hq
        cases hq
        rcases hpub with rfl | rfl
        · exact (hg.published p hp).stores rfl hraw
        · exact hsafe.stores rfl hraw

theorem maxProjectable_safe (hg : Guarded w) : Safe w w.maxProjectable := by
  intro c hc
  obtain ⟨e, he, rfl⟩ := List.mem_map.mp (List.max?_mem hc)
  simp only [List.mem_filter, Bool.and_eq_true, decide_eq_true_eq, Option.any_eq_true] at he
  obtain ⟨-, -, d, hd, hle⟩ := he
  obtain ⟨⟨f, hf, hdf⟩, hcov⟩ := hg.barrier d hd
  exact ⟨⟨f, hf, hle.trans hdf⟩, fun g hg hi hc => hcov g hg hi (hc.trans hle)⟩

theorem step_guarded (h : Consistent w) (hg : Guarded w) (hs : Settled w m)
    (hm : step w m = some w') : Guarded w' ∧ InOrder w m := by
  cases m with
  | grow e =>
    change w.grow e = some w' at hm
    have hm' := hm
    simp only [World.grow, Option.bind_eq_bind, Option.bind_eq_some_iff, Option.guard_eq_some',
      exists_const, Option.pure_def, Option.some.injEq] at hm
    obtain ⟨-, rfl⟩ := hm
    exact ⟨⟨hg.barrier.grow hm', fun p hp => (hg.published p hp).grow hm', hg.ceiling.grow hm'⟩,
      trivial⟩
  | start =>
    change (if w.proc.isNone then some w.boot else none) = some w' at hm
    split_ifs at hm
    cases hm
    have hsafe : Safe w (loadCursor w.boot.db.barrier) := by
      change Safe w (if (w.db.streams .dexDapp).isSome && (w.db.streams .rootPn).isSome then
        loadCursor w.db.barrier else none)
      split_ifs
      · exact hg.barrier
      · intro c hc
        cases hc
    refine ⟨⟨hsafe.stores rfl fun _ he => he, ?_, fun c hc => ?_⟩, trivial⟩
    · intro p hp
      cases hp
      exact hsafe.stores rfl fun _ he => he
    · cases hc
  | crash =>
    cases hm
    refine ⟨⟨hg.barrier.stores rfl fun _ he => he, fun p hp => ?_, fun c hc => ?_⟩, trivial⟩
    · cases hp
    · cases hc
  | fetch s page =>
    refine ⟨?_, trivial⟩
    change w.fetch s page = some w' at hm
    unfold World.fetch at hm
    obtain ⟨p, hp, hm⟩ := Option.bind_eq_some_iff.mp hm
    split at hm
    · cases hm
      refine hg.stores rfl (fun _ he => he) rfl ?_ rfl
      intro q hq
      cases hq
      exact ⟨p, hp, rfl⟩
    · simp only [Option.bind_eq_bind, Option.bind_eq_some_iff, Option.guard_eq_some',
        exists_const, Option.pure_def, Option.some.injEq] at hm
      obtain ⟨-, rfl⟩ := hm
      refine hg.stores rfl (fun _ he => he) rfl ?_ rfl
      intro q hq
      cases hq
      exact ⟨p, hp, rfl⟩
    · cases hm
  | persist s outcome =>
    refine ⟨?_, trivial⟩
    change w.persist s outcome = some w' at hm
    unfold World.persist at hm
    obtain ⟨p, hp, hm⟩ := Option.bind_eq_some_iff.mp hm
    split at hm
    · have hraw : ∀ n page b, p.drains s = .holding n page → ∀ e ∈ w.db.rawEvents,
          e ∈ (w.db.persistPage s (page.edges.filter (·.inScope)) page.endCursor b).rawEvents :=
        fun _ _ _ _ e he => mem_persistPage.mpr (.inl he)
      have hproc : ∀ q : Proc κ, q.publishedBarrierCursor = p.publishedBarrierCursor →
          ∀ r, some q = some r → ∃ p', w.proc = some p' ∧
            r.publishedBarrierCursor = p'.publishedBarrierCursor := by
        rintro q hq r hr
        cases hr
        exact ⟨p, hp, hq⟩
      cases outcome with
      | done =>
        cases hm
        exact hg.stores rfl (hraw _ _ _ ‹_›) rfl (hproc _ rfl) rfl
      | lost =>
        cases hm
        exact hg.stores rfl (hraw _ _ _ ‹_›) rfl (hproc _ rfl) rfl
      | refused =>
        cases hm
        exact hg.stores rfl (fun _ he => he) rfl (hproc _ rfl) rfl
    · cases hm
  | publish => exact ⟨publish_guarded h hg hs hm, trivial⟩
  | ceiling =>
    change (if w.proc.isSome then some { w with ceiling := w.maxProjectable } else none) =
      some w' at hm
    split_ifs at hm
    cases hm
    exact ⟨⟨hg.barrier.stores rfl fun _ he => he,
      fun p hp => (hg.published p hp).stores rfl fun _ he => he,
      (maxProjectable_safe hg).stores rfl fun _ he => he⟩, trivial⟩
  | project e =>
    change w.project e = some w' at hm
    simp only [World.project, Option.bind_eq_bind, Option.bind_eq_some_iff,
      Option.guard_eq_some', exists_const, Option.pure_def, Option.some.injEq] at hm
    obtain ⟨c, hc, ⟨-, -, hle⟩, rfl⟩ := hm
    refine ⟨hg.stores rfl (fun _ he => he) rfl (fun p hp => ⟨p, hp, rfl⟩) rfl, ?_⟩
    intro f hf hi hlt
    exact (hg.ceiling c hc).2 f hf hi (hlt.le.trans hle)

theorem settled_of_sound {outcome : Outcome} (h : Consistent w)
    (hm : w.publish outcome = some w') (hsound : Sound w') : Settled w (.publish outcome) := by
  intro ho p hp s hs hother c hc
  refine (mixed_covers h hp hs hc).mp ?_
  obtain ⟨p', hp', ⟨hr, -⟩ | ⟨a, b, published, hr, -, -, rfl⟩⟩ := publish_inv hm
  · cases hp.symm.trans hp'
    unfold Proc.results at hr
    cases s with
    | dexDapp =>
      change p.drains .rootPn = _ at hother
      rw [hs, hother] at hr
      cases hr
    | rootPn =>
      change p.drains .dexDapp = _ at hother
      rw [hs, hother] at hr
      cases hr
  · cases hp.symm.trans hp'
    have hb : loadCursor (if outcome = .refused then w.db else
        w.db.setCaptureBarrier (p.barrier a b).1.cursor (p.barrier a b).1.atHead).barrier =
        some c := by
      rw [if_neg ho, ← hc]
      exact barrier_mixed hr hs hother
    intro e he hi hle
    have hmem := hsound c hb e he hi hle
    dsimp only at hmem
    rw [if_neg ho] at hmem
    exact hmem

theorem settled_of_heads {outcome : Outcome} (h : w.proc.bind Proc.results = some (true, true)) :
    Settled w (.publish outcome) := by
  intro _ p hp s _ hother
  rw [hp] at h
  obtain ⟨ha, hb⟩ := results_inv h
  cases s with
  | dexDapp =>
    change p.drains .rootPn = _ at hother
    rw [hb] at hother
    cases hother
  | rootPn =>
    change p.drains .dexDapp = _ at hother
    rw [ha] at hother
    cases hother

end Publishing

variable {log raw : List (EventEdge κ)} {legacy : Option κ}

theorem initial_consistent (hlog : log.Pairwise fun a b => a.chainOrder < b.chainOrder)
    (hraw : ∀ e ∈ raw, e ∈ log) : Consistent (initial log raw legacy) where
  sorted := hlog
  asked := fun _ => le_rfl
  seen := by
    intro e he
    change e ∈ log.take log.length
    rw [List.take_length]
    exact hraw e he
  rows := by
    intro s c hc
    cases hc
  proc := by
    intro p hp
    cases hp

theorem boot_guarded : Guarded (initial log raw legacy).boot where
  barrier := by
    intro c hc
    cases hc
  published := by
    intro p hp c hc
    cases hp
    cases hc
  ceiling := by
    intro c hc
    cases hc

/-- Whatever is published covers both streams, and rows are applied in order, in every state of a
run exactly when the run's ticks are settled. -/
theorem barrier_sound_iff (hlog : log.Pairwise fun a b => a.chainOrder < b.chainOrder)
    (hraw : ∀ e ∈ raw, e ∈ log) (h : Run step (initial log raw legacy).boot tr w) :
    Run.Each (fun t m u => Sound u ∧ InOrder t m) (initial log raw legacy).boot tr ↔
      Run.Each (fun t m _ => Settled t m) (initial log raw legacy).boot tr := by
  constructor
  · intro hsound
    refine (h.invariant_each (fun tr t => Consistent t ∧
      Run.Each (fun t m _ => Settled t m) (initial log raw legacy).boot tr) ?_ ?_ hsound).2
    · exact ⟨boot_consistent (initial_consistent hlog hraw), trivial⟩
    · rintro tr t m u hr ⟨ht, heach⟩ ⟨hu, -⟩ hm
      refine ⟨step_consistent ht hm, Run.each_concat.mpr ⟨heach, ?_⟩⟩
      rw [hr.last_eq]
      cases m with
      | publish => exact settled_of_sound ht hm hu
      | _ => trivial
  · intro hsettled
    refine (h.invariant_each (fun tr t => (Consistent t ∧ Guarded t) ∧
      Run.Each (fun t m u => Sound u ∧ InOrder t m) (initial log raw legacy).boot tr) ?_ ?_
      hsettled).2
    · exact ⟨⟨boot_consistent (initial_consistent hlog hraw), boot_guarded⟩, trivial⟩
    · rintro tr t m u hr ⟨⟨ht, hg⟩, heach⟩ hs hm
      obtain ⟨hgu, hord⟩ := step_guarded ht hg hs hm
      refine ⟨⟨step_consistent ht hm, hgu⟩, Run.each_concat.mpr ⟨heach, ?_⟩⟩
      rw [hr.last_eq]
      exact ⟨fun c hc => (hgu.barrier c hc).2, hord⟩

section Samples

/-- The moves that fetch and store one page. -/
def drainPage (s : CaptureSource) (edges : List (EventEdge ℕ)) (hasNextPage : Bool) :
    List (Move ℕ) :=
  [.fetch s (some ⟨edges, edges.getLast?.map (·.chainOrder), hasNextPage⟩), .persist s .done]

def dappEvent (k : ℕ) : EventEdge ℕ := ⟨.dexDapp, k, true⟩

def rootEvent (k : ℕ) : EventEdge ℕ := ⟨.rootPn, k, true⟩

/-- Two polls that both find the heads, the second after an event of either stream. -/
def twoPolls : List (Move ℕ) :=
  drainPage .dexDapp [dappEvent 1] false ++ drainPage .rootPn [] false ++
    [.publish .done, .grow (rootEvent 2), .grow (dappEvent 3)] ++
    drainPage .rootPn [rootEvent 2] false ++ drainPage .dexDapp [dappEvent 3] false ++
    [.publish .done, .ceiling, .project (dappEvent 1)]

theorem barrier_sound_sample :
    Run.Each (fun t m u => Sound u ∧ InOrder t m) (initial [dappEvent 1] [] none).boot
      (Run.trace step (initial [dappEvent 1] [] none).boot twoPolls) := by
  refine (barrier_sound_iff (by decide) (by decide) (Run.trace_run _ _ _)).mpr ?_
  refine ⟨trivial, trivial, trivial, trivial, ?_, trivial, trivial, trivial, trivial, trivial,
    trivial, ?_, trivial, trivial, trivial⟩
  · exact settled_of_heads (by decide)
  · exact settled_of_heads (by decide)

/-- The dApp stream has 99 events to catch up with. -/
def backlog : List (EventEdge ℕ) := (List.range 99).map fun k => dappEvent (k + 1)

/-- RootPN is found at its head, the dApp stream is read in pages of one event; before its last page
one event of RootPN becomes visible, and two of the dApp after it. -/
def slipped : List (Move ℕ) :=
  drainPage .rootPn [] false ++ backlog.flatMap (fun e => drainPage .dexDapp [e] true) ++
    [.grow (rootEvent 100), .grow (dappEvent 101), .grow (dappEvent 102)] ++
    drainPage .dexDapp [dappEvent 101] true ++ [.publish .done]

/-- The barrier is published past an event that is not stored. -/
theorem barrier_outruns_stream :
    (Run.trace step (initial backlog [] none).boot slipped).length = slipped.length ∧
      ¬ Sound (Run.last (initial backlog [] none).boot
        (Run.trace step (initial backlog [] none).boot slipped)) := by
  have hrun : (Run.trace step (initial backlog [] none).boot slipped).length = slipped.length ∧
      loadCursor (Run.last (initial backlog [] none).boot
        (Run.trace step (initial backlog [] none).boot slipped)).db.barrier = some 101 ∧
      rootEvent 100 ∈ (Run.last (initial backlog [] none).boot
        (Run.trace step (initial backlog [] none).boot slipped)).log ∧
      rootEvent 100 ∉ (Run.last (initial backlog [] none).boot
        (Run.trace step (initial backlog [] none).boot slipped)).db.rawEvents := by
    decide +kernel
  obtain ⟨hlen, hbarrier, hlog, hraw⟩ := hrun
  exact ⟨hlen, fun h => hraw (h 101 hbarrier _ hlog rfl (by decide))⟩

end Samples

end Capture

end Dexdo
