import Dexdo.Indexer.Capture
import Mathlib.Tactic

namespace Dexdo

namespace Capture

variable {κ : Type} [LinearOrder κ]

section Lists

theorem mem_insertNew {rows edges : List (EventEdge κ)} {e : EventEdge κ} :
    e ∈ insertNew rows edges ↔ e ∈ rows ∨ e ∈ edges := by
  induction edges generalizing rows with
  | nil => simp [insertNew]
  | cons f edges ih =>
    have hstep : insertNew rows (f :: edges) =
      insertNew (if f ∈ rows then rows else rows ++ [f]) edges := rfl
    rw [hstep, ih]
    split_ifs with hf
    · rw [List.mem_cons]
      constructor
      · rintro (h | h)
        · exact .inl h
        · exact .inr (.inr h)
      · rintro (h | rfl | h)
        · exact .inl h
        · exact .inl hf
        · exact .inr h
    · simp only [List.mem_append, List.mem_cons, List.not_mem_nil, or_false]
      tauto

theorem mem_after {log : List (EventEdge κ)} {s : CaptureSource} {cursor : Option κ}
    {e : EventEdge κ} :
    e ∈ after log s cursor ↔
      e ∈ log ∧ e.source = s ∧ ∀ c, cursor = some c → c < e.chainOrder := by
  cases cursor <;> simp [after]

theorem mem_prefix {xs ys : List (EventEdge κ)} {x e : EventEdge κ} (h : xs <+: ys)
    (hys : ys.Pairwise fun a b => a.chainOrder < b.chainOrder) (hx : x ∈ xs) (he : e ∈ ys)
    (hle : e.chainOrder ≤ x.chainOrder) : e ∈ xs := by
  obtain ⟨zs, rfl⟩ := h
  rcases List.mem_append.mp he with he | he
  · exact he
  · exact absurd ((List.pairwise_append.mp hys).2.2 x hx e he) hle.not_gt

end Lists

section Candidates

variable {x y : Option κ} {c : κ}

theorem synchronized_heads
    (h : (synchronizedCaptureBarrier [(x, true), (y, true)]).cursor = some c) :
    x = some c ∨ y = some c := by
  cases x with
  | none => cases y <;> simp_all [synchronizedCaptureBarrier]
  | some a =>
    cases y with
    | none => simp_all [synchronizedCaptureBarrier]
    | some b =>
      have h' : max a b = c := by simpa [synchronizedCaptureBarrier, List.max?] using h
      rcases max_choice a b with hm | hm
      · exact .inl (congrArg some (hm.symm.trans h'))
      · exact .inr (congrArg some (hm.symm.trans h'))

theorem synchronized_first :
    synchronizedCaptureBarrier [(x, true), (y, false)] = ⟨y, false⟩ := by
  cases y <;> simp [synchronizedCaptureBarrier, List.reduceOption, List.min?]

theorem synchronized_second :
    synchronizedCaptureBarrier [(x, false), (y, true)] = ⟨x, false⟩ := by
  cases x <;> simp [synchronizedCaptureBarrier, List.reduceOption, List.min?]

theorem synchronized_behind
    (h : (synchronizedCaptureBarrier [(x, false), (y, false)]).cursor = some c) :
    ∃ a b, x = some a ∧ y = some b ∧ c ≤ a ∧ c ≤ b := by
  cases x with
  | none => simp [synchronizedCaptureBarrier] at h
  | some a =>
    cases y with
    | none => simp [synchronizedCaptureBarrier] at h
    | some b =>
      have h' : min a b = c := by
        simpa [synchronizedCaptureBarrier, List.reduceOption, List.min?] using h
      exact ⟨a, b, rfl, rfl, h' ▸ min_le_left a b, h' ▸ min_le_right a b⟩

theorem synchronized_atHead {a b : Bool} :
    (synchronizedCaptureBarrier [(x, a), (y, b)]).atHead = (a && b) := by
  simp [synchronizedCaptureBarrier]

end Candidates

/-- Every event in scope of a stream up to `c` is stored. -/
def Complete (w : World κ) (s : CaptureSource) (c : κ) : Prop :=
  ∀ e ∈ w.log, e.source = s → e.inScope = true → e.chainOrder ≤ c → e ∈ w.db.rawEvents

/-- Every event in scope of either stream up to `c` is stored. -/
def Covers (w : World κ) (c : κ) : Prop :=
  ∀ e ∈ w.log, e.inScope = true → e.chainOrder ≤ c → e ∈ w.db.rawEvents

/-- Some event visible now is as late as `c`. -/
def Visible (log : List (EventEdge κ)) (c : κ) : Prop := ∃ f ∈ log, c ≤ f.chainOrder

/-- The events of a source that were visible at its last page are stored, or are in `page`. -/
def Drained (w : World κ) (s : CaptureSource) (page : List (EventEdge κ)) : Prop :=
  ∀ e ∈ w.log.take (w.asked s), e.source = s → e.inScope = true →
    e ∈ w.db.rawEvents ∨ e ∈ page

/-- The head candidate that waits for another poll. -/
def Proc.waiting (p : Proc κ) : Option κ := p.pendingHeadBarrier.bind (·.cursor)

/-- A page between its answer and its storing. -/
structure Held (w : World κ) (p : Proc κ) (s : CaptureSource) (page : EventsPage κ) : Prop where
  seen : ∀ e ∈ page.edges, e.source = s ∧ e ∈ w.log.take (w.asked s)
  visible : ∀ c, page.endCursor = some c → Visible w.log c
  upto : ∀ c, page.endCursor = some c → ∀ e ∈ w.log, e.source = s → e.inScope = true →
    e.chainOrder ≤ c → e ∈ w.db.rawEvents ∨ e ∈ page.edges
  head : page.hasNextPage = false → Drained w s page.edges
  waiting : ∀ c, p.waiting = some c → Visible (w.log.take (w.asked s)) c

/-- What holds of the capture loop in every run. -/
structure ProcOk (w : World κ) (p : Proc κ) : Prop where
  cursors : ∀ s c, p.cursors s = some c → Visible w.log c ∧ Complete w s c
  held : ∀ s n page, p.drains s = .holding n page → Held w p s page
  head : ∀ s, p.drains s = .finished true →
    Drained w s [] ∧ ∀ c, p.waiting = some c → Visible (w.log.take (w.asked s)) c
  waiting : ∀ c, p.waiting = some c → Visible w.log c

/-- What holds of events, tables and cursors in every run. -/
structure Consistent (w : World κ) : Prop where
  sorted : w.log.Pairwise fun a b => a.chainOrder < b.chainOrder
  asked : ∀ s, w.asked s ≤ w.log.length
  seen : ∀ e ∈ w.db.rawEvents, e ∈ w.log.take (w.asked e.source)
  rows : ∀ s c, loadCursor (w.db.streams s) = some c → Visible w.log c ∧ Complete w s c
  proc : ∀ p, w.proc = some p → ProcOk w p

section Facts

variable {w w' : World κ} {s : CaptureSource} {c : κ}

theorem Visible.mono {log log' : List (EventEdge κ)} (h : Visible log c)
    (hsub : ∀ e ∈ log, e ∈ log') : Visible log' c := by
  obtain ⟨f, hf, hle⟩ := h
  exact ⟨f, hsub f hf, hle⟩

theorem Complete.of_le {d : κ} (h : Complete w s d) (hle : c ≤ d) : Complete w s c :=
  fun e he hs hi hc => h e he hs hi (hc.trans hle)

theorem covers_iff : Covers w c ↔ ∀ s, Complete w s c :=
  ⟨fun h _ e he _ hi hc => h e he hi hc, fun h e he hi hc => h e.source e he rfl hi hc⟩

theorem Complete.stores (h : Complete w s c) (hlog : w'.log = w.log)
    (hraw : ∀ e ∈ w.db.rawEvents, e ∈ w'.db.rawEvents) : Complete w' s c := by
  intro e he hs hi hc
  rw [hlog] at he
  exact hraw e (h e he hs hi hc)

omit [LinearOrder κ] in
theorem Drained.stores {page : List (EventEdge κ)} (h : Drained w s page)
    (hlog : w'.log = w.log) (hasked : w'.asked s = w.asked s)
    (hraw : ∀ e ∈ w.db.rawEvents, e ∈ w'.db.rawEvents) : Drained w' s page := by
  intro e he hs hi
  rw [hlog, hasked] at he
  exact (h e he hs hi).imp_left (hraw e)

theorem Complete.grow {e : EventEdge κ} (h : Complete w s c) (hv : Visible w.log c)
    (hlog : w'.log = w.log ++ [e]) (he : ∀ f ∈ w.log, f.chainOrder < e.chainOrder)
    (hraw : w'.db.rawEvents = w.db.rawEvents) : Complete w' s c := by
  intro g hg hs hi hc
  rw [hraw]
  rw [hlog] at hg
  rcases List.mem_append.mp hg with hg | hg
  · exact h g hg hs hi hc
  · obtain rfl := List.mem_singleton.mp hg
    obtain ⟨f, hf, hle⟩ := hv
    exact absurd (hc.trans hle) (he f hf).not_ge

theorem Drained.complete (h : Drained w s []) (hw : Consistent w)
    (hv : Visible (w.log.take (w.asked s)) c) : Complete w s c := by
  intro e he hs hi hc
  have hmem : e ∈ w.log.take (w.asked s) := by
    obtain ⟨f, hf, hle⟩ := hv
    exact mem_prefix (List.take_prefix _ _) hw.sorted hf he (hc.trans hle)
  exact (h e hmem hs hi).resolve_right List.not_mem_nil

end Facts

section Steps

variable {w w' : World κ} {p : Proc κ} {s : CaptureSource} {tr : List (Move κ × World κ)}

theorem Held.stores {p' : Proc κ} {page : EventsPage κ} (h : Held w p s page)
    (hlog : w'.log = w.log) (hasked : w'.asked s = w.asked s)
    (hraw : ∀ e ∈ w.db.rawEvents, e ∈ w'.db.rawEvents) (hp : p'.waiting = p.waiting) :
    Held w' p' s page where
  seen := by
    rw [hlog, hasked]
    exact h.seen
  visible := by
    rw [hlog]
    exact h.visible
  upto := by
    intro c hc e he hs hi hle
    rw [hlog] at he
    exact (h.upto c hc e he hs hi hle).imp_left (hraw e)
  head := fun hn => (h.head hn).stores hlog hasked hraw
  waiting := by
    rw [hlog, hasked, hp]
    exact h.waiting

theorem grow_consistent {e : EventEdge κ} (h : Consistent w) (hm : w.grow e = some w') :
    Consistent w' := by
  simp only [World.grow, Option.bind_eq_bind, Option.bind_eq_some_iff, Option.guard_eq_some',
    exists_const, Option.pure_def, Option.some.injEq] at hm
  obtain ⟨he, rfl⟩ := hm
  have htake : ∀ s, (w.log ++ [e]).take (w.asked s) = w.log.take (w.asked s) := fun s =>
    List.take_append_of_le_length (h.asked s)
  have hsub : ∀ f ∈ w.log, f ∈ w.log ++ [e] := fun f hf => List.mem_append_left _ hf
  have hdrained : ∀ s page, Drained w s page →
      Drained { w with log := w.log ++ [e] } s page := by
    intro s page hd f hf
    rw [htake] at hf
    exact hd f hf
  refine ⟨?_, ?_, ?_, ?_, ?_⟩
  · rw [List.pairwise_append]
    refine ⟨h.sorted, List.pairwise_singleton _ _, fun f hf g hg => ?_⟩
    obtain rfl := List.mem_singleton.mp hg
    exact he f hf
  · intro s
    exact (h.asked s).trans (by simp)
  · intro f hf
    rw [htake]
    exact h.seen f hf
  · intro s c hc
    obtain ⟨hv, hcomp⟩ := h.rows s c hc
    exact ⟨hv.mono hsub, hcomp.grow hv rfl he rfl⟩
  · intro p hp
    have hok := h.proc p hp
    refine ⟨?_, ?_, ?_, ?_⟩
    · intro s c hc
      obtain ⟨hv, hcomp⟩ := hok.cursors s c hc
      exact ⟨hv.mono hsub, hcomp.grow hv rfl he rfl⟩
    · intro s n page hd
      have hh := hok.held s n page hd
      refine ⟨?_, fun c hc => (hh.visible c hc).mono hsub, ?_, fun hn => hdrained _ _ (hh.head hn), ?_⟩
      · rw [htake]
        exact hh.seen
      · intro c hc f hf hs hi hle
        rcases List.mem_append.mp hf with hf | hf
        · exact hh.upto c hc f hf hs hi hle
        · obtain rfl := List.mem_singleton.mp hf
          obtain ⟨g, hg, hcg⟩ := hh.visible c hc
          exact absurd (hle.trans hcg) (he g hg).not_ge
      · rw [htake]
        exact hh.waiting
    · intro s hd
      obtain ⟨h1, h2⟩ := hok.head s hd
      rw [htake]
      exact ⟨hdrained _ _ h1, h2⟩
    · exact fun c hc => (hok.waiting c hc).mono hsub

theorem boot_consistent (h : Consistent w) : Consistent w.boot where
  sorted := h.sorted
  asked := h.asked
  seen := h.seen
  rows := h.rows
  proc := by
    intro p hp
    cases hp
    refine ⟨fun s c hc => h.rows s c hc, ?_, ?_, ?_⟩
    · intro s n page hd
      cases hd
    · intro s hd
      cases hd
    · intro c hc
      cases hc

/-- A request that was answered: the page holds what the stream has up to its end. -/
theorem Served.held {page : EventsPage κ} (hs : Served w.log s (p.cursors s) page)
    (h : Consistent w) (hp : w.proc = some p) (ha : w'.asked s = w.log.length)
    (hlog : w'.log = w.log) (hraw : w'.db.rawEvents = w.db.rawEvents) {p' : Proc κ}
    (hw : p'.waiting = p.waiting) : Held w' p' s page := by
  obtain ⟨hpre, hend, hhead⟩ := hs
  have hok := h.proc p hp
  have hsorted : (after w.log s (p.cursors s)).Pairwise fun a b => a.chainOrder < b.chainOrder :=
    h.sorted.filter _
  have hmem : ∀ e ∈ page.edges, e.source = s ∧ e ∈ w.log := by
    intro e he
    obtain ⟨h1, h2, -⟩ := mem_after.mp (hpre.subset he)
    exact ⟨h2, h1⟩
  -- an event not after the cursor has been stored
  have hsplit : ∀ e ∈ w.log, e.source = s → e.inScope = true →
      e ∈ w.db.rawEvents ∨ e ∈ after w.log s (p.cursors s) := by
    intro e he hes hei
    by_cases hc : ∃ c, p.cursors s = some c ∧ e.chainOrder ≤ c
    · obtain ⟨c, hc, hle⟩ := hc
      exact .inl ((hok.cursors s c hc).2 e he hes hei hle)
    · right
      refine mem_after.mpr ⟨he, hes, fun c hc' => ?_⟩
      by_contra hlt
      exact hc ⟨c, hc', le_of_not_gt hlt⟩
  have hlast : ∀ c, page.endCursor = some c → ∃ x ∈ page.edges, x.chainOrder = c := by
    intro c hc
    rcases hend with hn | hn
    · rw [hn] at hc
      cases hc
    · rw [hn, Option.map_eq_some_iff] at hc
      obtain ⟨x, hx, rfl⟩ := hc
      exact ⟨x, List.mem_of_getLast? hx, rfl⟩
  have htake : w'.log.take (w'.asked s) = w.log := by
    rw [ha, hlog, List.take_length]
  refine ⟨?_, ?_, ?_, ?_, ?_⟩
  · rw [htake]
    exact hmem
  · intro c hc
    obtain ⟨x, hx, rfl⟩ := hlast c hc
    rw [hlog]
    exact ⟨x, (hmem x hx).2, le_rfl⟩
  · intro c hc e he hes hei hle
    rw [hlog] at he
    rw [hraw]
    obtain ⟨x, hx, rfl⟩ := hlast c hc
    exact (hsplit e he hes hei).imp_right fun ha => mem_prefix hpre hsorted hx ha hle
  · intro hn e he hes hei
    rw [htake] at he
    rw [hraw, hhead hn]
    exact hsplit e he hes hei
  · intro c hc
    rw [htake]
    rw [hw] at hc
    exact hok.waiting c hc

omit [LinearOrder κ] in
theorem drains_setDrain_self (d : Drain κ) : (p.setDrain s d).drains s = d :=
  Function.update_self ..

omit [LinearOrder κ] in
theorem drains_setDrain_of_ne (d : Drain κ) {s' : CaptureSource} (h : s' ≠ s) :
    (p.setDrain s d).drains s' = p.drains s' :=
  Function.update_of_ne h ..

/-- A drain that moves on without holding a page or having reached its head owes nothing. -/
theorem ProcOk.setDrain {d : Drain κ} (h : ProcOk w p) (hlog : w'.log = w.log)
    (hasked : ∀ s', s' ≠ s → w'.asked s' = w.asked s')
    (hraw : ∀ e ∈ w.db.rawEvents, e ∈ w'.db.rawEvents)
    (hheld : ∀ n page, d = .holding n page → Held w' (p.setDrain s d) s page)
    (hhead : d ≠ .finished true) : ProcOk w' (p.setDrain s d) where
  cursors := by
    intro s' c hc
    obtain ⟨hv, hcomp⟩ := h.cursors s' c hc
    rw [hlog]
    exact ⟨hv, hcomp.stores hlog hraw⟩
  held := by
    intro s' n page hd
    by_cases hs : s' = s
    · subst hs
      rw [drains_setDrain_self] at hd
      exact hheld n page hd
    · rw [drains_setDrain_of_ne d hs] at hd
      exact (h.held s' n page hd).stores hlog (hasked s' hs) hraw rfl
  head := by
    intro s' hd
    by_cases hs : s' = s
    · subst hs
      rw [drains_setDrain_self] at hd
      exact absurd hd hhead
    · rw [drains_setDrain_of_ne d hs] at hd
      obtain ⟨h1, h2⟩ := h.head s' hd
      refine ⟨h1.stores hlog (hasked s' hs) hraw, ?_⟩
      rw [hlog, hasked s' hs]
      exact h2
  waiting := by
    rw [hlog]
    exact h.waiting

theorem fetch_consistent {page : Option (EventsPage κ)} (h : Consistent w)
    (hm : w.fetch s page = some w') : Consistent w' := by
  unfold World.fetch at hm
  obtain ⟨p, hp, hm⟩ := Option.bind_eq_some_iff.mp hm
  have hok := h.proc p hp
  split at hm
  · cases hm
    refine ⟨h.sorted, h.asked, h.seen, h.rows, ?_⟩
    intro p' hp'
    cases hp'
    refine hok.setDrain rfl (fun _ _ => rfl) (fun _ he => he) ?_ ?_
    · intro n page hd
      cases hd
    · intro hd
      cases hd
  · rename_i n page hd
    simp only [Option.bind_eq_bind, Option.bind_eq_some_iff, Option.guard_eq_some', exists_const,
      Option.pure_def, Option.some.injEq] at hm
    obtain ⟨hserved, rfl⟩ := hm
    have hself : Function.update w.asked s w.log.length s = w.log.length := Function.update_self ..
    have hother : ∀ s', s' ≠ s → Function.update w.asked s w.log.length s' = w.asked s' :=
      fun s' hs => Function.update_of_ne hs ..
    refine ⟨h.sorted, ?_, ?_, h.rows, ?_⟩
    · intro s'
      by_cases hs : s' = s
      · subst hs
        exact hself.le
      · exact (hother s' hs).trans_le (h.asked s')
    · intro e he
      dsimp only at he ⊢
      by_cases hs : e.source = s
      · rw [hs, hself, List.take_length]
        exact List.mem_of_mem_take (h.seen e he)
      · rw [hother _ hs]
        exact h.seen e he
    · intro p' hp'
      cases hp'
      refine hok.setDrain rfl hother (fun _ he => he) ?_ ?_
      · intro m page' hd'
        injection hd' with _ hpage
        subst hpage
        apply Served.held hserved h hp
        · exact hself
        · rfl
        · rfl
        · rfl
      · intro hd'
        cases hd'
  · cases hm

theorem mem_persistPage {source : CaptureSource} {page : EventsPage κ} {e : EventEdge κ} {b : Bool} :
    e ∈ (w.db.persistPage source (page.edges.filter (·.inScope)) page.endCursor b).rawEvents ↔
      e ∈ w.db.rawEvents ∨ e ∈ page.edges ∧ e.inScope = true := by
  unfold Db.persistPage
  rw [mem_insertNew, List.mem_filter]

/-- A page is committed, whatever the loop then does. -/
theorem persist_tables {n : ℕ} {page : EventsPage κ} {p' : Proc κ} (h : Consistent w)
    (hp : w.proc = some p) (hd : p.drains s = .holding n page)
    (hw : w' = { w with
      db := w.db.persistPage s (page.edges.filter (·.inScope)) page.endCursor (!page.hasNextPage)
      proc := some p' })
    (hok : ProcOk w' p') : Consistent w' := by
  have hheld := (h.proc p hp).held s n page hd
  have hraw : ∀ e ∈ w.db.rawEvents, e ∈ w'.db.rawEvents := by
    intro e he
    rw [hw]
    exact mem_persistPage.mpr (.inl he)
  have hlog : w'.log = w.log := by rw [hw]
  refine ⟨hlog ▸ h.sorted, ?_, ?_, ?_, ?_⟩
  · rw [hw]
    exact h.asked
  · rw [hw]
    intro e he
    rcases mem_persistPage.mp he with he | ⟨he, -⟩
    · exact h.seen e he
    · obtain ⟨rfl, hin⟩ := hheld.seen e he
      exact hin
  · intro s' c hc
    have hold : loadCursor (w.db.streams s') = some c → Visible w'.log c ∧ Complete w' s' c := by
      intro hc'
      obtain ⟨hv, hcomp⟩ := h.rows s' c hc'
      exact ⟨hlog ▸ hv, hcomp.stores hlog hraw⟩
    by_cases hs : s' = s
    · subst hs
      have hrow : loadCursor (w'.db.streams s') =
          page.endCursor.or (loadCursor (w.db.streams s')) := by
        rw [hw]
        change loadCursor (Function.update w.db.streams s' _ s') = _
        rw [Function.update_self]
        rfl
      rw [hrow, Option.or_eq_some_iff] at hc
      rcases hc with hc | ⟨-, hc⟩
      · refine ⟨hlog ▸ hheld.visible c hc, fun e he hes hei hle => ?_⟩
        rw [hlog] at he
        rw [hw]
        refine mem_persistPage.mpr ?_
        exact (hheld.upto c hc e he hes hei hle).imp_right fun hin => ⟨hin, hei⟩
      · exact hold hc
    · have hrow : w'.db.streams s' = w.db.streams s' := by
        rw [hw]
        change Function.update w.db.streams s _ s' = _
        rw [Function.update_of_ne hs]
      rw [hrow] at hc
      exact hold hc
  · intro q hq
    rw [hw] at hq
    cases hq
    exact hok

theorem stored_ok {n : ℕ} {page : EventsPage κ} (h : Consistent w) (hp : w.proc = some p)
    (hd : p.drains s = .holding n page)
    (hw : w' = { w with
      db := w.db.persistPage s (page.edges.filter (·.inScope)) page.endCursor (!page.hasNextPage)
      proc := some (p.stored s n page) }) : ProcOk w' (p.stored s n page) := by
  have hok := h.proc p hp
  have hheld := hok.held s n page hd
  have hlog : w'.log = w.log := by rw [hw]
  have hasked : w'.asked = w.asked := by rw [hw]
  have hmem : ∀ e, e.inScope = true → e ∈ w.db.rawEvents ∨ e ∈ page.edges →
      e ∈ w'.db.rawEvents := by
    intro e hei he
    rw [hw]
    exact mem_persistPage.mpr (he.imp_right fun hin => ⟨hin, hei⟩)
  have hraw : ∀ e ∈ w.db.rawEvents, e ∈ w'.db.rawEvents := by
    intro e he
    rw [hw]
    exact mem_persistPage.mpr (.inl he)
  refine ⟨?_, ?_, ?_, ?_⟩
  · intro s' c hc
    have hold : p.cursors s' = some c → Visible w'.log c ∧ Complete w' s' c := by
      intro hc'
      obtain ⟨hv, hcomp⟩ := hok.cursors s' c hc'
      exact ⟨hlog ▸ hv, hcomp.stores hlog hraw⟩
    unfold Proc.stored at hc
    dsimp only at hc
    by_cases hs : s' = s
    · subst hs
      rw [Function.update_self, Option.or_eq_some_iff] at hc
      rcases hc with hc | ⟨-, hc⟩
      · refine ⟨hlog ▸ hheld.visible c hc, fun e he hes hei hle => ?_⟩
        rw [hlog] at he
        exact hmem e hei (hheld.upto c hc e he hes hei hle)
      · exact hold hc
    · rw [Function.update_of_ne hs] at hc
      exact hold hc
  · intro s' m page' hd'
    unfold Proc.stored at hd'
    dsimp only at hd'
    by_cases hs : s' = s
    · subst hs
      rw [Function.update_self] at hd'
      split_ifs at hd'
    · rw [Function.update_of_ne hs] at hd'
      exact (hok.held s' m page' hd').stores hlog (congrFun hasked s') hraw rfl
  · intro s' hd'
    unfold Proc.stored at hd'
    dsimp only at hd'
    by_cases hs : s' = s
    · subst hs
      rw [Function.update_self] at hd'
      have hn : page.hasNextPage = false := by
        by_contra hn
        rw [Bool.eq_true_of_not_eq_false hn] at hd'
        simp only [Bool.not_true, Bool.false_eq_true, if_false] at hd'
        split_ifs at hd'
        injection hd' with hd'
        cases hd'
      rw [hlog, hasked]
      refine ⟨fun e he hes hei => .inl ?_, hheld.waiting⟩
      rw [hlog, hasked] at he
      exact hmem e hei (hheld.head hn e he hes hei)
    · rw [Function.update_of_ne hs] at hd'
      obtain ⟨h1, h2⟩ := hok.head s' hd'
      rw [hlog, hasked]
      exact ⟨h1.stores hlog (congrFun hasked s') hraw, h2⟩
  · rw [hlog]
    exact hok.waiting

theorem persist_consistent {outcome : Outcome} (h : Consistent w)
    (hm : w.persist s outcome = some w') : Consistent w' := by
  unfold World.persist at hm
  obtain ⟨p, hp, hm⟩ := Option.bind_eq_some_iff.mp hm
  have hok := h.proc p hp
  split at hm
  · rename_i n page hd
    have hfailed : ∀ v : World κ, v.log = w.log → v.asked = w.asked →
        (∀ e ∈ w.db.rawEvents, e ∈ v.db.rawEvents) → ProcOk v (p.setDrain s .failed) := by
      intro v hlog hasked hraw
      refine hok.setDrain hlog (fun s' _ => congrFun hasked s') hraw ?_ ?_
      · intro n page hd
        cases hd
      · intro hd
        cases hd
    cases outcome with
    | done =>
      cases hm
      exact persist_tables h hp hd rfl (stored_ok h hp hd rfl)
    | lost =>
      cases hm
      exact persist_tables h hp hd rfl
        (hfailed _ rfl rfl fun e he => mem_persistPage.mpr (.inl he))
    | refused =>
      cases hm
      refine ⟨h.sorted, h.asked, h.seen, h.rows, ?_⟩
      intro q hq
      cases hq
      exact hfailed _ rfl rfl fun _ he => he
  · cases hm

end Steps

end Capture

end Dexdo
