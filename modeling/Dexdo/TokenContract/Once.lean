import Dexdo.TokenContract.Finalize

namespace Dexdo

namespace TokenContract

variable {s u v : TokenContract} {i : Input} {τ : ℕ} {tr tr' : List (Input × TokenContract)}

theorem serving_run (hs : Sane s) (hv : Serving s) (h : Run step s tr u)
    (hl : u.destroyed = false) : Sane u ∧ Serving u := by
  refine h.state_invariant (fun u => u.destroyed = false → Sane u ∧ Serving u)
    (fun _ => ⟨hs, hv⟩) ?_ hl
  intro t i u ht hi hu
  obtain ⟨hst, hvt⟩ := ht (step_live hi)
  exact ⟨step_sane hst hi hu, ((step_effect hst hi).2.serving hst hvt hu).1⟩

theorem regular_run (hs : Sane s) (hv : Serving s) (h : Run step s tr u)
    (hP : Run.Each (fun s i v => ¬ s.lateClaim i ∧ (i.finalizes = true → v.destroyed = false)) s tr) :
    Run.Each Regular s tr := by
  refine h.invariant_each (fun tr _ => Run.Each Regular s tr) trivial ?_ hP
  intro tr t i u hr hI hPi hi
  obtain ⟨hst, hvt⟩ := serving_run hs hv hr (step_live hi)
  refine Run.each_concat.mpr ⟨hI, ?_⟩
  rw [hr.last_eq]
  exact ⟨hst, hvt, hPi.1, hPi.2⟩

theorem run_alive (h : Run step s tr u) (hl : u.destroyed = false) :
    Run.Each (fun _ _ v => v.destroyed = false) s tr := by
  induction h with
  | nil => exact trivial
  | snoc hr hi ih => exact Run.each_concat.mpr ⟨ih (step_live hi), hl⟩

theorem synced_accounts (h : Run step s tr u) (hP : Run.Each Regular s tr)
    (ho : Run.Ordered Input.now tr) (hu : Run.Until Input.now τ tr) (h' : Run step s tr' v)
    (hP' : Run.Each Regular s tr') (ho' : Run.Ordered Input.now tr')
    (hu' : Run.Until Input.now τ tr')
    (hc : Run.core Input.finalizes tr = Run.core Input.finalizes tr') :
    u.settled τ = v.settled τ ∧ buyerGave s tr = buyerGave s tr' ∧
      buyerGot s tr = buyerGot s tr' := by
  have hin := (settled_unwinding (fun s i _ => s.buyerIn i)
    (fun _ _ _ hc _ => buyerIn_of_call (by rw [hc]))
    (fun s t i _ _ _ _ h _ => (congrArg (fun r : TokenContract => r.buyerIn i) h :))).synced
      h hP ho hu h' hP' ho' hu' hc
  have hout := (settled_unwinding (fun _ _ v => v.credited .buyer)
    (fun _ _ _ _ h => credited_congr (v := s.begin) h .buyer)
    (fun _ _ _ _ _ _ _ _ h => credited_congr h _)).synced h hP ho hu h' hP' ho' hu' hc
  have hloss := (settled_unwinding (fun s i _ => s.buyerLoss i)
    (fun _ _ _ hc _ => buyerLoss_eq_zero (by rw [Input.sparesBuyer, hc]))
    (fun s t i _ _ hr hr' h _ => by
      rw [← buyerLoss_settled hr.serving.ordinary, h, buyerLoss_settled hr'.serving.ordinary])).synced
        h hP ho hu h' hP' ho' hu' hc
  refine ⟨hin.1, ?_, ?_⟩
  · unfold buyerGave
    rw [hin.2]
  · unfold buyerGot
    rw [hout.2, hloss.2]

/-- A deal whose whole match is claimed, by `τ` beyond recall. -/
structure Filled (s : TokenContract) (τ : ℕ) : Prop where
  accepted : s.probeAccepted = true
  full : s.toMeter.claimCap ≤ s.tokensPend
  matured : s.tokensFinal < s.tokensPend → s.lastClaimTime + CLAIM_PROMOTE_WINDOW ≤ τ ∧
    (s.disputed = true → τ ≤ s.disputeTime)

theorem Filled.keep (hf : Filled s τ) (hk : Kept s i u) (hτ : i.finalizes = false → τ ≤ i.now) :
    Filled u τ ∧ u.tokensPend = s.tokensPend := by
  have hdispute : u.disputed = true → τ ≤ u.disputeTime ∨ s.disputed = true ∧
      u.disputeTime = s.disputeTime := by
    intro hu
    rcases hk.dispute with ⟨h1, h2⟩ | ⟨h1, h2⟩
    · exact .inr ⟨h1.symm.trans hu, h2⟩
    · rw [h2]
      exact .inl (hτ (by simp [Input.finalizes, h1]))
  rcases hk.claims with hm | hm | hlt
  · refine ⟨⟨hk.probe.trans hf.accepted, ?_, ?_⟩, by rw [hm]⟩
    · rw [hm]
      exact hf.full
    · intro hlt
      rw [hm] at hlt ⊢
      obtain ⟨h1, h2⟩ := hf.matured hlt
      refine ⟨h1, fun hu => ?_⟩
      rcases hdispute hu with h3 | ⟨h3, h4⟩
      · exact h3
      · rw [h4]
        exact h2 h3
  · refine ⟨⟨hk.probe.trans hf.accepted, ?_, ?_⟩, by rw [hm]⟩
    · rw [hm]
      exact hf.full
    · intro hlt
      rw [hm] at hlt
      exact absurd hlt (lt_irrefl _)
  · exact absurd hf.full (Nat.not_le_of_lt hlt)

theorem Filled.trustedAt (hf : Filled s τ) (hs : Sane s) (hτ : i.finalizes = false → τ ≤ i.now)
    (hend : i.prompt = true ∨ s.disputed = true) : s.trustedAt i = s.tokensPend := by
  have hle := hs.final_le
  have htrusted : s.disputed = true → s.trustedTokens = s.tokensPend := by
    intro hd
    unfold trustedTokens
    split_ifs with h
    · rfl
    · by_contra hne
      have hlt : s.tokensFinal < s.tokensPend := by omega
      obtain ⟨h1, h2⟩ := hf.matured hlt
      exact h ⟨hlt, h1.trans (h2 hd)⟩
  obtain ⟨caller, now, call⟩ := i
  cases call with
  | finalize => rfl
  | stop => rfl
  | sellerStop =>
    have hnow : τ ≤ now := hτ rfl
    change (s.toMeter.promoteDue now).tokensFinal = s.tokensPend
    by_cases hlt : s.tokensFinal < s.tokensPend
    · rw [promoteDue_ripe hlt ((hf.matured hlt).1.trans hnow)]
      rfl
    · unfold Meter.promoteDue Meter.promote
      rw [if_neg hlt, ite_self]
      omega
  | _ => exact htrusted (hend.resolve_left Bool.false_ne_true)

/-- Escrow that the end of a filled deal takes. -/
def fullCharge (s : TokenContract) : ℕ := min (s.valueOf (s.tokensPend - DEAL_TICK_SIZE)) s.deposit

theorem step_disputed (h : step s i = some u) (hc : i.call = .resolveDisputeTimeout) :
    s.disputed = true := by
  have he := step_exec h
  rw [hc] at he
  simp only [exec, resolveDisputeTimeout, bind_iff] at he
  exact he.1

theorem Filled.ending (hf : Filled s τ) (hs : Sane s) (hv : Serving s) (hnl : ¬ s.lateClaim i)
    (hτ : i.finalizes = false → τ ≤ i.now) (h : step s i = some u) (hu : u.destroyed = true) :
    s.toPurse.ofBuyer + s.buyerIn i = u.credited .buyer + s.buyerLoss i + s.fullCharge := by
  have hresolve : i.call = .resolveDisputeTimeout → s.tokensFinal = s.tokensPend := by
    intro hc
    by_contra hne
    have hle := hs.final_le
    have hlt : s.tokensFinal < s.tokensPend := by omega
    obtain ⟨h1, h2⟩ := hf.matured hlt
    exact hnl ⟨hc, hv.ordinary, hlt, h1.trans (h2 (step_disputed h hc))⟩
  obtain ⟨hin, pay, taken, r, hx, -, hexact⟩ :=
    (step_effect hs h).2.exit hv.opened (step_live h) hu
  obtain ⟨htaken, hend⟩ := hexact hv.ordinary hf.accepted hresolve
  obtain ⟨b, x, w, hcl, hb, -⟩ := hx.ends
  have hcredit := hcl.moved.buyer
  rw [credited_begin, Nat.zero_add] at hcredit
  unfold finalCharge at htaken
  rw [hf.trustedAt hs hτ hend] at htaken
  unfold fullCharge
  omega

/-- From a filled deal on, its end takes the same whatever is called. -/
theorem Filled.rest (hf : Filled s τ) (hs : Sane s) (hv : Serving s) (h : Run step s tr u)
    (hok : Run.Each (fun s i _ => ¬ s.lateClaim i) s tr)
    (hτ : ∀ j ∈ Run.core Input.finalizes tr, τ ≤ j.now) (hl : s.destroyed = false)
    (hu : u.destroyed = true) : buyerGave s tr = buyerGot s tr + s.fullCharge := by
  have hP := (Run.each_and.mpr ⟨hok, Run.each_core s hτ⟩)
  have hinv := h.invariant_each (fun tr u => (u.destroyed = false → Sane u ∧ Serving u ∧
    Filled u τ ∧ u.fullCharge = s.fullCharge ∧
      buyerGave s tr = buyerGot s tr + u.toPurse.ofBuyer) ∧
    (u.destroyed = true → buyerGave s tr = buyerGot s tr + s.fullCharge)) ?_ ?_ hP
  · exact hinv.2 hu
  · refine ⟨fun _ => ⟨hs, hv, hf, rfl, ?_⟩, fun h => absurd (hl.symm.trans h) (by decide)⟩
    simp [buyerGave, buyerGot, Run.total, Run.ghost]
  · intro tr t i u hr hI hPi hi
    obtain ⟨hst, hvt, hft, hcharge, hacc⟩ := hI.1 (step_live hi)
    have hgave := buyerGave_concat (i := i) (v := u) hr
    have hgot := buyerGot_concat (i := i) (v := u) hr
    refine ⟨fun hu => ?_, fun hu => ?_⟩
    · have hk := ((step_effect hst hi).2.kept hst hvt hu).resolve_left
        fun h => absurd (hft.accepted.symm.trans h.fresh) (by decide)
      obtain ⟨hfu, hpend⟩ := hft.keep hk hPi.2
      refine ⟨step_sane hst hi hu, hk.serving, hfu, ?_, ?_⟩
      · rw [← hcharge]
        unfold fullCharge
        rw [hk.terms, hpend, hk.deposit]
      · have h1 := hk.account
        omega
    · have h1 := hft.ending hst hvt hPi.1 hPi.2 hi hu
      rw [hcharge] at h1
      omega

/-- Two histories of the same calls, those of `finalize` apart. The second one may go on where the
first was closed by a `finalize`. -/
structure SameCalls (tr tr' : List (Input × TokenContract)) : Prop where
  ordered : Run.Ordered Input.now tr
  ordered' : Run.Ordered Input.now tr'
  calls : ∃ rest, Run.core Input.finalizes tr' = Run.core Input.finalizes tr ++ rest ∧
    ∀ j ∈ rest, Run.Until Input.now j.now tr

theorem run_destroyed (h : Run step s tr u) (hs : s.destroyed = true) : tr = [] ∧ u = s :=
  h.stuck fun i => by
    unfold step
    rw [if_pos hs]

theorem step_finalize (h : step s i = some u) (hc : i.call = .finalize)
    (hu : u.destroyed = true) (hs : Sane s) (hv : Serving s) :
    Filled s i.now ∧ Ripe s i.now ∧ s.disputed = false := by
  have he := step_exec h
  rw [hc] at he
  simp only [exec, finalize, bind_iff] at he
  obtain ⟨⟨-, hd⟩, ⟨hlt, hw⟩, he⟩ := he
  have hd' : s.disputed = false := hd
  have hripe : Ripe s i.now := by
    refine ⟨hlt, ?_⟩
    rw [clock, hd']
    exact hw
  have ha : s.probeAccepted = true := by
    by_contra hn
    have hpend := (hs.unaccepted (by simpa using hn)).2.2.2.2.1
    have hlt' : s.tokensFinal < s.tokensPend := hlt
    omega
  refine ⟨⟨ha, ?_, fun _ => ⟨hw, fun h => absurd (hd'.symm.trans h) (by decide)⟩⟩, hripe, hd'⟩
  split_ifs at he with h1
  · have h0 : s.subWeeks = 0 := by simpa [isSubscription] using hv.ordinary
    have h2 := h1.2
    rw [promoteDue_ripe hlt hw] at h2
    unfold Meter.claimCap
    rw [if_pos h0]
    exact h2
  · cases he
    exact absurd ((step_live h).symm.trans hu) (by decide)

theorem Filled.of_settled (hf : Filled s τ) (hr : Ripe s τ) (hd : s.disputed = false)
    (h : s.settled τ = v.settled τ) : Filled v τ ∧ v.fullCharge = s.fullCharge ∧
      v.toPurse = s.toPurse := by
  have hg : v.toStage = s.toStage := (congrArg (·.toStage) h).symm
  have hp : v.toPurse = s.toPurse := (congrArg (·.toPurse) h).symm
  have ht : v.toTerms = s.toTerms := (congrArg (·.toTerms) h).symm
  obtain ⟨x, hx⟩ := v.toMeter.promoteDue_eq (v.clock τ)
  have hm : ({ v.toMeter with tokensFinal := x } : Meter) = s.ripened := by
    rw [settled_ripe hr] at h
    exact hx.symm.trans (congrArg (·.toMeter) h).symm
  have hpend : v.tokensPend = s.tokensPend := congrArg (·.tokensPend) hm
  have hlast : v.lastClaimTime = s.lastClaimTime := congrArg (·.lastClaimTime) hm
  have hcap : v.toMeter.claimCap = s.toMeter.claimCap := congrArg (·.claimCap) hm
  have hclock : s.clock τ = τ := if_neg (by simp [hd])
  refine ⟨⟨?_, ?_, fun _ => ⟨?_, fun hv => ?_⟩⟩, ?_, hp⟩
  · rw [hg]
    exact hf.accepted
  · rw [hcap, hpend]
    exact hf.full
  · rw [hlast, ← hclock]
    exact hr.2
  · rw [hg, hd] at hv
    cases hv
  · unfold fullCharge
    rw [ht, hpend, hp]

theorem openDeal_inv {c : List ℕ} (h : step s i = some u) (hc : i.call = .openDeal c) :
    u.opened = true ∧ u.probeAccepted = false ∧ u.destroyed = false := by
  have hl := step_live h
  have he := step_exec h
  rw [hc] at he
  simp only [exec, openDeal, bind_iff, pure_iff] at he
  obtain ⟨-, -, -, -, -, -, rfl⟩ := he
  exact ⟨rfl, rfl, hl⟩

theorem goesOn_of_open (h : Run step s (tr ++ [(i, u)]) v) (hi : i.finalizes = false) :
    Run.Each (fun _ i v => i.finalizes = true → v.destroyed = false) s (tr ++ [(i, u)]) := by
  obtain ⟨r, hr, hstep⟩ := h.of_concat
  exact Run.each_concat.mpr ⟨(run_alive hr (step_live hstep)).imp fun _ _ _ h _ => h,
    fun h => absurd (hi.symm.trans h) (by decide)⟩

/-- The end of a deal takes the same whether or not a matured claim was finalized before. -/
theorem same_account (hs : Sane s) (hv : Serving s) (hl : s.destroyed = false)
    (h : Run step s tr u) (hok : Run.Each (fun s i _ => ¬ s.lateClaim i) s tr)
    (h' : Run step s tr' v) (hok' : Run.Each (fun s i _ => ¬ s.lateClaim i) s tr')
    (hsame : SameCalls tr tr') (hu : u.destroyed = true) (hu' : v.destroyed = true) :
    buyerGave s tr + buyerGot s tr' = buyerGave s tr' + buyerGot s tr := by
  obtain ⟨ho, ho', rest, hcalls, hlater⟩ := hsame
  obtain ⟨p, q, l, rfl, hp, hq, hrp, hrq, hlast⟩ := h'.cut hcalls
  obtain ⟨hokp, hokq⟩ := (Run.each_append s p q).mp hok'
  rw [hrp.last_eq] at hokq
  -- no `finalize` ends the deal within `p`, which is empty or ends with another call
  have hgoes : Run.Each (fun _ i v => i.finalizes = true → v.destroyed = false) s p := by
    rcases hlast with rfl | ⟨p', j, rfl, hj⟩
    · exact trivial
    · exact goesOn_of_open hrp hj
  have hPp := regular_run hs hv hrp (Run.each_and.mpr ⟨hokp, hgoes⟩)
  cases h with
  | nil => exact absurd (hl.symm.trans hu) (by decide)
  | @snoc tr r _ i hr hi =>
    obtain ⟨hokt, hoki⟩ := Run.each_concat.mp hok
    rw [hr.last_eq] at hoki
    have hrl := step_live hi
    obtain ⟨hsr, hvr⟩ := serving_run hs hv hr hrl
    have hPt := regular_run hs hv hr (Run.each_and.mpr
      ⟨hokt, (run_alive hr hrl).imp fun _ _ _ h _ => h⟩)
    have htime : Run.Until Input.now i.now p := by
      apply Run.Until.of_core ho'.of_append _ hlast
      intro j hj
      rw [hp] at hj
      obtain ⟨a, ha, rfl, -⟩ := Run.mem_core hj
      exact ho.until_concat a ha
    cases hfin : i.finalizes with
    | true =>
      rw [Run.core_hidden hfin] at hp
      obtain ⟨hset, hgave, hgot⟩ :=
        synced_accounts hr hPt ho.of_append ho.until hrp hPp ho'.of_append htime hp.symm
      have hcall := of_decide_eq_true hfin
      obtain ⟨hfill, hripe, hd⟩ := step_finalize hi hcall hu hsr hvr
      obtain ⟨hfl, hcharge, hpurse⟩ := hfill.of_settled hripe hd hset
      have hll : l.destroyed = false := (congrArg (·.destroyed) hset).symm.trans hrl
      obtain ⟨hsl, hvl⟩ := serving_run hs hv hrp hll
      have hq' := hfl.rest hsl hvl hrq hokq (fun j hj => by
        rw [hq] at hj
        exact (hlater j hj).last) hll hu'
      have hend := hfill.ending hsr hvr hoki (fun h => absurd (hfin.symm.trans h) (by decide)) hi hu
      rw [buyerGave_concat hr, buyerGot_concat hr, buyerGot_append hrp]
      have happ := buyerGave_append hrp q
      rw [hpurse] at happ
      omega
    | false =>
      have hP : Run.Each Regular s (tr ++ [(i, u)]) := by
        refine Run.each_concat.mpr ⟨hPt, ?_⟩
        rw [hr.last_eq]
        exact ⟨hsr, hvr, hoki, fun h => absurd (hfin.symm.trans h) (by decide)⟩
      obtain ⟨hset, hgave, hgot⟩ :=
        synced_accounts (hr.snoc hi) hP ho ho.until_concat hrp hPp ho'.of_append htime hp.symm
      have hlu : l.destroyed = true := (congrArg (·.destroyed) hset).symm.trans hu
      obtain ⟨rfl, rfl⟩ := run_destroyed hrq hlu
      rw [List.append_nil, hgave, hgot]

/-- Each served token is charged at most once: from its opening on an ordinary deal takes no more
of the buyer's escrow than its highest claim is worth, and once it is over the amount does not
depend on who called `finalize` and when. -/
theorem served_charged_once {t : Terms} (ht : t.Valid) {tr₀ : List (Input × TokenContract)}
    {s₀ : TokenContract} (h₀ : Run step (init t) tr₀ s₀) {c : List ℕ} (hc : i.call = .openDeal c)
    (hi : step s₀ i = some s) (hord : s.isSubscription = false) (h : Run step s tr u)
    (hok : Run.Each (fun s i _ => ¬ s.lateClaim i) s tr) :
    buyerGave s tr ≤ buyerGot s tr + u.toPurse.ofBuyer +
        s.valueOf (max DEAL_TICK_SIZE (peakClaim s tr)) ∧
      ∀ tr' u', Run step s tr' u' → Run.Each (fun s i _ => ¬ s.lateClaim i) s tr' →
        SameCalls tr tr' → u.destroyed = true → u'.destroyed = true →
          buyerGave s tr + buyerGot s tr' = buyerGave s tr' + buyerGot s tr := by
  obtain ⟨ho, ha, hl⟩ := openDeal_inv hi hc
  have hs := run_sane ht (h₀.snoc hi) hl
  have hv : Serving s := ⟨ho, hord⟩
  refine ⟨serving_account hs hv ha h hok, ?_⟩
  intro tr' u' h' hok' hsame hu hu'
  exact same_account hs hv hl h hok h' hok' hsame hu hu'

/-- A match of ten ticks with both bonds in. -/
def sampleBonded : List Input :=
  [⟨.internal (.note 1), 10, .postFromNote 5 1 1 0 0⟩,
    ⟨.internal sampleBook, 20, .fundFromOrderBook (10 * sampleUnit) (.note 2) 9 0⟩,
    ⟨.internal (.note 1), 30, .fundDeal (2 * PRICE_STEP) none⟩,
    ⟨.internal (.note 2), 40, .fundBuyerBond (2 * PRICE_STEP)⟩]

def bondedDeal : TokenContract := Run.last (init sampleTerms) (sampleTrace sampleBonded)

def sampleOpen : Input := ⟨.external 7, 50, .openDeal [1]⟩

def openedDeal : TokenContract := (step bondedDeal sampleOpen).getD bondedDeal

theorem openedDeal_step : step bondedDeal sampleOpen = some openedDeal :=
  (Option.getD_of_ne_none (Option.isSome_iff_ne_none.mp (by decide +kernel)) _).symm

/-- Probe and second tick are served. -/
def sampleServed : List Input :=
  [⟨.external 7, 300, .acceptProbe⟩, ⟨.external 7, 400, .claimTokens (2 * DEAL_TICK_SIZE)⟩]

/-- The claim matures, is finalized or not, and the buyer stops. -/
def sampleStopped (keeper : Bool) : List Input :=
  sampleServed ++ (if keeper then [⟨.external 0, 470, .finalize⟩] else []) ++
    [⟨.internal (.note 2), 500, .stop⟩]

/-- The claim matures, the buyer disputes it, and the dispute times out. -/
def sampleTimeout : List Input :=
  sampleServed ++ [⟨.internal (.note 2), 500, .dispute⟩,
    ⟨.external 0, 1100, .resolveDisputeTimeout⟩]

def servedTrace (is : List Input) : List (Input × TokenContract) := Run.trace step openedDeal is

theorem served_run (is : List Input) :
    Run step openedDeal (servedTrace is) (Run.last openedDeal (servedTrace is)) :=
  Run.trace_run ..

theorem served_charged_once_sample : (servedTrace (sampleStopped true)).length = 4 ∧
    buyerGave openedDeal (servedTrace (sampleStopped true)) +
        buyerGot openedDeal (servedTrace (sampleStopped false)) =
      buyerGave openedDeal (servedTrace (sampleStopped false)) +
        buyerGot openedDeal (servedTrace (sampleStopped true)) :=
  ⟨by decide +kernel, (served_charged_once (t := sampleTerms) (by decide) (sample_run sampleBonded) rfl
    openedDeal_step (by decide +kernel) (served_run _) (by decide +kernel)).2 _ _ (served_run _)
    (by decide +kernel) ⟨by decide +kernel, by decide +kernel, [], by decide +kernel,
      fun _ h => absurd h List.not_mem_nil⟩ (by decide +kernel) (by decide +kernel)⟩

/-- The timeout burns the matured claim and pays it as well. -/
theorem late_claim_charged_twice :
    ¬ ∀ (t : Terms), t.Valid → PRICE_STEP ∣ t.pricePerTick →
      ∀ (tr₀ : List (Input × TokenContract)) (s₀ s u : TokenContract) (i : Input) (c : List ℕ)
        (tr : List (Input × TokenContract)), Run step (init t) tr₀ s₀ → i.call = .openDeal c →
          step s₀ i = some s → s.isSubscription = false → Run step s tr u →
            buyerGave s tr ≤ buyerGot s tr + u.toPurse.ofBuyer +
              s.valueOf (max DEAL_TICK_SIZE (peakClaim s tr)) := by
  intro h
  have h1 := h sampleTerms (by decide) (dvd_refl _) _ _ _ _ sampleOpen [1] _
    (sample_run sampleBonded) rfl openedDeal_step (by decide +kernel) (served_run sampleTimeout)
  exact absurd h1 (by decide +kernel)

end TokenContract

end Dexdo
