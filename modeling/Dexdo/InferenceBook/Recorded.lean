import Dexdo.InferenceBook.Lifetimes

namespace Dexdo

open TokenContract (reportsOf)

/-- The greatest of some numbers is their sum just when no two of them are positive. -/
theorem peak_eq_sum_iff {xs : List ℕ} {n : ℕ} (hle : ∀ x ∈ xs, x ≤ n) (hn : n = 0 ∨ n ∈ xs) :
    n = xs.sum ↔ xs.Pairwise fun x y => x = 0 ∨ y = 0 := by
  induction xs with
  | nil =>
    have h0 : n = 0 := hn.resolve_right List.not_mem_nil
    simp [h0]
  | cons x xs ih =>
    rw [List.sum_cons, List.pairwise_cons]
    have hle' : ∀ y ∈ xs, y ≤ n := fun y hy => hle y (List.mem_cons_of_mem _ hy)
    rcases Nat.eq_zero_or_pos x with rfl | hx
    · have hn' : n = 0 ∨ n ∈ xs := by
        rcases hn with h0 | hn
        · exact .inl h0
        · exact List.mem_cons.mp hn
      rw [Nat.zero_add, ih hle' hn']
      exact (and_iff_right fun _ _ => .inl rfl).symm
    · have hpos : 0 < n := hx.trans_le (hle x List.mem_cons_self)
      constructor
      · intro hsum
        -- `n` is the first number: were it a later one, the first would not fit under the sum
        have hzero : xs.sum = 0 := by
          rcases List.mem_cons.mp (hn.resolve_left hpos.ne') with h | h
          · omega
          · have := List.single_le_sum (fun _ _ => Nat.zero_le _) n h
            omega
        have hall : ∀ y ∈ xs, y = 0 := List.sum_eq_zero_iff.mp hzero
        refine ⟨fun y hy => .inr (hall y hy), ?_⟩
        exact List.pairwise_of_forall_mem_list fun y hy _ _ => .inl (hall y hy)
      · rintro ⟨hall, -⟩
        have hzero : ∀ y ∈ xs, y = 0 := fun y hy => (hall y hy).resolve_left hx.ne'
        rw [List.sum_eq_zero_iff.mpr hzero, Nat.add_zero]
        rcases List.mem_cons.mp (hn.resolve_left hpos.ne') with h | h
        · exact h
        · exact absurd (hzero n h) hpos.ne'

namespace Exchange

variable {code : Addr → ℕ × ℕ} {b : BookId} {k : DealKey} {tr : Trace} {w w' : Exchange}
  {m : ExchangeMove}

theorem recorded_concat (h : Run (step code b) start tr w) :
    recorded k (tr ++ [(m, w')]) = recorded k tr + gain k w m w' := by
  unfold recorded
  rw [Run.total_concat, h.last_eq]

/-- The mark of a deal address rises by what its messages record. -/
theorem step_gain (hm : step code b w m = some w') :
    w'.stats.finalizedSeen k.addr = w.stats.finalizedSeen k.addr + gain k w m w' := by
  cases m with
  | deployDeal =>
    simp only [step, bind_iff, pure_iff] at hm
    obtain ⟨-, -, rfl⟩ := hm
    rfl
  | deal =>
    simp only [step, bind_iff, pure_iff] at hm
    obtain ⟨-, -, -, -, -, rfl⟩ := hm
    rfl
  | arrive now j r =>
    simp only [step, bind_iff, pure_iff] at hm
    obtain ⟨-, rfl⟩ := hm
    unfold gain
    dsimp only
    split_ifs with hj
    · subst hj
      have h1 := w.stats.volumeOn_reportFinalized j.sellerPubkey j.nonce now r.pricePerTick r.ticks
      have h2 := w.stats.seen_reportFinalized j.sellerPubkey j.nonce now r.pricePerTick r.ticks
      have h3 := le_max_left (w.stats.finalizedSeen j.addr) r.ticks
      unfold DealKey.addr at h3 ⊢
      omega
    · exact w.stats.seen_other _ _ now _ _ fun h => hj (DealKey.addr_inj h).symm
  | foreign =>
    simp only [step, bind_iff, pure_iff] at hm
    obtain ⟨hc, rfl⟩ := hm
    apply w.stats.seen_other
    rintro rfl
    cases hc

/-- What a book has recorded for a deal address is the most any report from there has told it. -/
structure Heard (b : BookId) (k : DealKey) (tr : Trace) (w : Exchange) : Prop where
  mark : w.stats.finalizedSeen k.addr = recorded k tr
  sent : ∀ x ∈ arrived tr, x ∈ w.sent ∧ x.2.book = b.addr
  most : ∀ r, (k, r) ∈ arrived tr → r.ticks ≤ recorded k tr
  told : recorded k tr = 0 ∨ ∃ r, (k, r) ∈ arrived tr ∧ r.ticks = recorded k tr

theorem Heard.quiet (h : Heard b k tr w) (hr : Run (step code b) start tr w)
    (hm : step code b w m = some w') (hg : gain k w m w' = 0)
    (ha : arrived (tr ++ [(m, w')]) = arrived tr) (hs : ∀ x ∈ w.sent, x ∈ w'.sent) :
    Heard b k (tr ++ [(m, w')]) w' := by
  have hrec : recorded k (tr ++ [(m, w')]) = recorded k tr := by
    rw [recorded_concat hr, hg, Nat.add_zero]
  refine ⟨?_, ?_, ?_, ?_⟩
  · rw [step_gain hm, hg, hrec, h.mark, Nat.add_zero]
  · rw [ha]
    exact fun x hx => ⟨hs x (h.sent x hx).1, (h.sent x hx).2⟩
  · rw [ha, hrec]
    exact h.most
  · rw [ha, hrec]
    exact h.told

theorem Heard.arrive {now : ℕ} {j : DealKey} {r : VolumeReport} (h : Heard b k tr w)
    (hr : Run (step code b) start tr w) (hm : step code b w (.arrive now j r) = some w') :
    Heard b k (tr ++ [(.arrive now j r, w')]) w' := by
  have hmark := step_gain (k := k) hm
  have hrec : recorded k (tr ++ [(.arrive now j r, w')]) =
      recorded k tr + gain k w (.arrive now j r) w' := recorded_concat hr
  have harr : arrived (tr ++ [(.arrive now j r, w')]) = arrived tr ++ [(j, r)] := arrived_concat
  simp only [step, bind_iff, pure_iff] at hm
  obtain ⟨⟨hsent, hbook⟩, hw⟩ := hm
  have hs : w'.sent = w.sent := by
    rw [← hw]
  have hmark' : w'.stats.finalizedSeen k.addr = recorded k (tr ++ [(.arrive now j r, w')]) := by
    rw [hmark, hrec, h.mark]
  have hsent' : ∀ x ∈ arrived tr ++ [(j, r)], x ∈ w'.sent ∧ x.2.book = b.addr := by
    intro x hx
    rw [hs]
    rcases List.mem_append.mp hx with hx | hx
    · exact h.sent x hx
    · obtain rfl := List.mem_singleton.mp hx
      exact ⟨hsent, hbook⟩
  by_cases hj : j = k
  · subst hj
    -- the mark becomes the greater of what it was and what the report says
    have hmax : w'.stats.finalizedSeen j.addr = max (w.stats.finalizedSeen j.addr) r.ticks := by
      rw [← hw]
      exact w.stats.seen_reportFinalized ..
    rw [hmark', h.mark] at hmax
    refine ⟨hmark', by rw [harr]; exact hsent', ?_, ?_⟩
    · intro x hx
      rw [harr] at hx
      rw [hmax]
      rcases List.mem_append.mp hx with hx | hx
      · exact (h.most x hx).trans (le_max_left _ _)
      · obtain rfl := (Prod.mk.inj (List.mem_singleton.mp hx)).2
        exact le_max_right _ _
    · rw [harr, hmax]
      rcases le_total (recorded j tr) r.ticks with hle | hle
      · refine .inr ⟨r, List.mem_append_right _ (List.mem_singleton_self _), ?_⟩
        exact (max_eq_right hle).symm
      · rw [max_eq_left hle]
        rcases h.told with h0 | ⟨x, hx, hxt⟩
        · exact .inl h0
        · exact .inr ⟨x, List.mem_append_left _ hx, hxt⟩
  · have hgain : gain k w (.arrive now j r) w' = 0 := if_neg hj
    rw [hgain, Nat.add_zero] at hrec
    refine ⟨hmark', by rw [harr]; exact hsent', ?_, ?_⟩
    · intro x hx
      rw [harr] at hx
      rw [hrec]
      rcases List.mem_append.mp hx with hx | hx
      · exact h.most x hx
      · exact absurd (Prod.mk.inj (List.mem_singleton.mp hx)).1.symm hj
    · rw [harr, hrec]
      rcases h.told with h0 | ⟨x, hx, hxt⟩
      · exact .inl h0
      · exact .inr ⟨x, List.mem_append_left _ hx, hxt⟩

theorem run_heard (h : Run (step code b) start tr w) : Heard b k tr w := by
  refine h.invariant (Heard b k) ?_ ?_
  · exact ⟨rfl, fun _ hx => absurd hx List.not_mem_nil, fun _ hx => absurd hx List.not_mem_nil,
      .inl rfl⟩
  · intro tr w m w' hr hI hm
    cases m with
    | deployDeal =>
      refine hI.quiet hr hm rfl (arrived_concat.trans (List.append_nil _)) ?_
      simp only [step, bind_iff, pure_iff] at hm
      obtain ⟨-, -, rfl⟩ := hm
      exact fun _ hx => hx
    | deal =>
      refine hI.quiet hr hm rfl (arrived_concat.trans (List.append_nil _)) ?_
      simp only [step, bind_iff, pure_iff] at hm
      obtain ⟨-, -, -, -, -, rfl⟩ := hm
      exact fun _ hx => List.mem_append_left _ hx
    | arrive => exact hI.arrive hr hm
    | foreign =>
      refine hI.quiet hr hm rfl (arrived_concat.trans (List.append_nil _)) ?_
      simp only [step, bind_iff, pure_iff] at hm
      obtain ⟨-, rfl⟩ := hm
      exact fun _ hx => hx

theorem Genuine.reported {l : Life} (hg : Genuine code k l) {r : VolumeReport}
    (hr : r ∈ reportsOf l.trace) (hb : r.book = b.addr) : r.ticks ≤ l.servedAt code b := by
  have hsite := (TokenContract.run_sited hg.valid hg.run hg.posts).1
  have hle := (TokenContract.run_accounted hg.valid hg.run).ticks r hr
  have haddr : Addr.inferenceBook (code l.terms.sellerNote).1 (code l.terms.sellerNote).2
      l.terms.modelHash = b.addr := (hsite.book r hr).symm.trans hb
  obtain ⟨h1, h2, h3⟩ := Addr.inferenceBook.inj haddr
  unfold Life.servedAt
  rw [if_pos (by rw [h1, h2, h3])]
  exact hle

theorem Genuine.ended {l : Life} (hg : Genuine code k l) (hd : l.last.destroyed = true)
    (hpos : 0 < l.servedAt code b) :
    ∃ r ∈ reportsOf l.trace, r.book = b.addr ∧ r.ticks = l.servedAt code b := by
  have hsite := (TokenContract.run_sited hg.valid hg.run hg.posts).1
  unfold Life.servedAt at hpos ⊢
  split_ifs at hpos ⊢ with hb
  · obtain ⟨r, hr, ht⟩ := hsite.whole hd hpos
    refine ⟨r, hr, ?_, ht⟩
    rw [hsite.book r hr, ← hb]
    rfl
  · exact absurd hpos (Nat.lt_irrefl 0)

/-- Once an address is settled, the book has recorded for it what its busiest lifetime served. -/
theorem recorded_peak (h : Run (step code b) start tr w) (hq : Settled b k tr w) :
    (∀ l ∈ lives k tr, l.servedAt code b ≤ recorded k tr) ∧
      (recorded k tr = 0 ∨ ∃ l ∈ lives k tr, l.servedAt code b = recorded k tr) := by
  have hc := run_chronicle (k := k) h
  have hh := run_heard (k := k) h
  have hends : ∀ l ∈ lives k tr, l.last.destroyed = true := by
    have hfree := hq.1
    rw [hc.present] at hfree
    intro l hl
    cases hls : lives k tr with
    | nil =>
      rw [hls] at hl
      exact absurd hl List.not_mem_nil
    | cons =>
      rw [hls] at hl hfree
      rcases List.mem_cons.mp hl with rfl | hl
      · exact hfree
      · apply hc.past l
        rw [hls]
        exact hl
  have hbound : ∀ l ∈ lives k tr, l.servedAt code b ≤ recorded k tr := by
    intro l hl
    rcases Nat.eq_zero_or_pos (l.servedAt code b) with h0 | hpos
    · rw [h0]
      exact Nat.zero_le _
    · obtain ⟨r, hr, hb, ht⟩ := (hc.genuine l hl).ended (hends l hl) hpos
      rw [← ht]
      apply hh.most
      exact hq.2 _ ((hc.sent r).mpr ⟨l, hl, hr⟩) rfl hb
  refine ⟨hbound, ?_⟩
  rcases hh.told with h0 | ⟨r, hr, ht⟩
  · exact .inl h0
  · obtain ⟨hsent, hb⟩ := hh.sent _ hr
    obtain ⟨l, hl, hmem⟩ := (hc.sent r).mp hsent
    refine .inr ⟨l, hl, Nat.le_antisymm (hbound l hl) ?_⟩
    rw [← ht]
    exact (hc.genuine l hl).reported hmem hb

/-- In every run, the ticks a book has recorded for a settled deal address are the sum of what its
lifetimes served there if and only if no two of them served anything. -/
theorem recorded_eq_served_iff (h : Run (step code b) start tr w) (hq : Settled b k tr w) :
    recorded k tr = ((lives k tr).map (Life.servedAt code b)).sum ↔
      (lives k tr).Pairwise fun l l' => l.servedAt code b = 0 ∨ l'.servedAt code b = 0 := by
  obtain ⟨hle, hpeak⟩ := recorded_peak h hq
  rw [← List.pairwise_map (f := Life.servedAt code b) (R := fun x y => x = 0 ∨ y = 0)]
  apply peak_eq_sum_iff
  · intro x hx
    obtain ⟨l, hl, rfl⟩ := List.mem_map.mp hx
    exact hle l hl
  · rcases hpeak with h0 | ⟨l, hl, heq⟩
    · exact .inl h0
    · exact .inr (heq ▸ List.mem_map_of_mem hl)

def sampleBookId : BookId := ⟨5, 1, 1⟩

def sampleCode : Addr → ℕ × ℕ := fun _ => (5, 1)

/-- A deal is deployed, some calls are made on it from `now` on, and its report arrives twice. -/
def sampleLifetime (now : ℕ) (is : List TokenContract.Input) : List ExchangeMove :=
  [.deployDeal TokenContract.sampleTerms] ++
    is.map (fun i => .deal ⟨7, 0⟩ { i with now := now + i.now })

def sampleReport (now : ℕ) : List ExchangeMove :=
  [.arrive now ⟨7, 0⟩ ⟨sampleBookId.addr, PRICE_STEP, 2⟩]

def sampleExchange (ms : List ExchangeMove) : Trace :=
  Run.trace (step sampleCode sampleBookId) start ms

/-- One lifetime serves two ticks, the next one closes before it is matched. -/
def sampleOnce : List ExchangeMove :=
  sampleLifetime 0 TokenContract.sampleService ++ sampleReport 600 ++ sampleReport 700 ++
    sampleLifetime 1000 [⟨.external 7, 10, .close⟩]

theorem recorded_eq_served_iff_sample :
    recorded ⟨7, 0⟩ (sampleExchange sampleOnce) = 2 ∧
      (recorded ⟨7, 0⟩ (sampleExchange sampleOnce) =
          ((lives ⟨7, 0⟩ (sampleExchange sampleOnce)).map
            (Life.servedAt sampleCode sampleBookId)).sum ↔
        (lives ⟨7, 0⟩ (sampleExchange sampleOnce)).Pairwise fun l l' =>
          l.servedAt sampleCode sampleBookId = 0 ∨ l'.servedAt sampleCode sampleBookId = 0) :=
  ⟨by decide +kernel, recorded_eq_served_iff (Run.trace_run ..) (by decide +kernel)⟩

/-- Two lifetimes serve two ticks each. -/
def sampleTwice : List ExchangeMove :=
  sampleLifetime 0 TokenContract.sampleService ++ sampleReport 600 ++
    sampleLifetime 1000 TokenContract.sampleService ++ sampleReport 1600

/-- The second lifetime of an address starts below the mark of the first. -/
theorem second_lifetime_unrecorded :
    ¬ ∀ (code : Addr → ℕ × ℕ) (b : BookId) (k : DealKey) (tr : Trace) (w : Exchange),
      Run (step code b) start tr w → Settled b k tr w →
        recorded k tr = ((lives k tr).map (Life.servedAt code b)).sum := by
  intro h
  have h1 := h sampleCode sampleBookId ⟨7, 0⟩ (sampleExchange sampleTwice) _ (Run.trace_run ..)
    (by decide +kernel)
  exact absurd h1 (by decide +kernel)

end Exchange

end Dexdo
