import Dexdo.TokenContract.Steps
import Dexdo.Lib.Run

namespace Dexdo

namespace TokenContract

variable {s u : TokenContract} {i : Input} {p : Option Addr}

/-- A buyer's bond that arrives while the deal has no funding. -/
def lateBond (s : TokenContract) (i : Input) : Bool :=
  match i.call with
  | .fundBuyerBond _ => !s.funded
  | _ => false

/-- Who posted the buyer's bond the deal holds, as the calls tell it. -/
def bondPoster (s : TokenContract) (i : Input) (p : Option Addr) : Option Addr :=
  match i.call with
  | .fundBuyerBond _ => match i.caller with
    | .internal a => some a
    | .external _ => none
  | .fundFromOrderBook paid note _ flags =>
    if s.fromBook i.caller = true ∧ s.takesMatch paid flags ∧ 0 < s.matchBond flags then some note
    else p
  | .cleanupUnopened => none
  | _ => p

/-- The poster after a trace of a deal that starts in `s`. -/
def postedBy (s : TokenContract) (tr : List (Input × TokenContract)) : Option Addr :=
  Run.ghost (fun s i _ p => s.bondPoster i p) s tr none

/-- The balance is the sum of its earmarks, and a bond marked as funded is held, whole, for the
present buyer, who posted it. -/
structure Earmarked (s : TokenContract) (p : Option Addr) : Prop where
  exact : s.balance = s.toPurse.booked
  bond : s.buyerBondFunded = true →
    s.funded = true ∧ s.buyerBond = s.bondAmount ∧ p = s.buyer

theorem Earmarked.noBond (hk : Earmarked s p) (hs : Sane s) (hf : s.funded = false) :
    s.buyerBondFunded = false ∧ s.buyerBond = 0 := by
  have h : s.buyerBondFunded = false := by
    by_contra hn
    exact absurd ((hk.bond (by simpa using hn)).1.symm.trans hf) (by decide)
  exact ⟨h, hs.buyerBond h⟩

theorem bondPoster_rest (hv : s.toTerms.Valid) (hc : i.mayRest = true) (hin : s.buyerIn i = 0) :
    s.bondPoster i p = p := by
  obtain ⟨caller, now, call⟩ := i
  cases call with
  | fundFromOrderBook paid note pk flags =>
    unfold bondPoster
    apply if_neg
    rintro ⟨h1, h2, -⟩
    have h3 : paid = 0 := by
      unfold buyerIn at hin
      exact (if_pos h1).symm.trans hin
    obtain ⟨-, -, h4, -⟩ := h2
    have h5 : 0 < s.unit := Nat.add_pos_left hv.1 _
    omega
  | postFromNote | onSellClosed | claimTokens => rfl
  | _ => cases hc

theorem Earmarked.keep (hk : Earmarked s p) (hpost : s.bondPoster i p = p) (hx : u.balance = u.toPurse.booked)
    (ht : u.toTerms = s.toTerms) (hb : u.buyerBond = s.buyerBond)
    (hg : u.buyerBondFunded = s.buyerBondFunded ∧ u.funded = s.funded ∧ u.buyer = s.buyer) :
    Earmarked u (s.bondPoster i p) := by
  obtain ⟨h1, h2, h3⟩ := hg
  rw [hpost]
  refine ⟨hx, fun h => ?_⟩
  rw [h2, h3, hb, ht]
  exact hk.bond (h1.symm.trans h)

/-- A transaction keeps the earmarks, unless it takes a late bond. -/
theorem Effect.earmarked (hs : Sane s) (he : Effect s i u) (hk : Earmarked s p)
    (hnl : s.lateBond i = false) (hl : u.destroyed = false) :
    Earmarked u (s.bondPoster i p) := by
  have hex := hk.exact
  cases he with
  | quiet hc hin _ hp hm hg hpay =>
    apply hk.keep (bondPoster_rest hs.valid hc hin)
    · rw [hp]
      exact hex
    · exact hpay.terms
    · rw [hp]
    · rw [hg]
      exact ⟨rfl, rfl, rfl⟩
  | bounced hc ht _ hp hm hg hpay =>
    have hpost : s.bondPoster i p = p := by
      unfold bondPoster
      rw [hc]
      exact if_neg fun h => ht h.2.1
    apply hk.keep hpost
    · rw [hp]
      exact hex
    · exact hpay.terms
    · rw [hp]
    · rw [hg]
      exact ⟨rfl, rfl, rfl⟩
  | @matched paid note pk flags hc hb _ ht hp hm hg hpay =>
    obtain ⟨hnb, hb0⟩ := hk.noBond hs ht.1
    have hd0 := (hs.unfunded ht.1).2
    have hle := ht.2.1
    refine ⟨?_, fun h => ?_⟩
    · rw [hp]
      unfold Purse.booked at hex ⊢
      dsimp only
      omega
    · rw [hg] at h ⊢
      dsimp only at h
      split_ifs at h with hpos
      · have hpost : s.bondPoster i p = some note := by
          unfold bondPoster
          rw [hc]
          exact if_pos ⟨hb, ht, hpos⟩
        refine ⟨rfl, ?_, hpost⟩
        rw [hp, hpay.terms]
        unfold matchBond at hpos ⊢
        split_ifs at hpos ⊢
        · rfl
        · omega
      · rw [hnb] at h
        cases h
  | sellerBonded hc _ ho hf hn hp hm hg hpay =>
    obtain ⟨a, e, hc⟩ := hc
    have hsb := hs.sellerBond
    rw [hf] at hsb
    apply hk.keep (by rw [bondPoster, hc])
    · rw [hp]
      unfold Purse.booked at hex ⊢
      dsimp only
      rw [if_neg (by decide)] at hsb
      omega
    · exact hpay.terms
    · rw [hp]
    · rw [hg]
      exact ⟨rfl, rfl, rfl⟩
  | @buyerBonded amount hc hb ho hf hn hp hm hg hpay =>
    have hfund : s.funded = true := by
      unfold lateBond at hnl
      rw [hc] at hnl
      simpa using hnl
    have hb0 := hs.buyerBond hf
    have hpost : s.bondPoster i p = s.buyer := by
      unfold bondPoster
      rw [hc]
      unfold fromBuyer Caller.isSender at hb
      cases hbuyer : s.buyer with
      | none =>
        rw [hbuyer] at hb
        cases hb
      | some =>
        rw [hbuyer] at hb
        cases hcall : i.caller with
        | internal =>
          rw [hcall] at hb
          exact congrArg some (by simpa using hb)
        | external =>
          rw [hcall] at hb
          cases hb
    refine ⟨?_, fun _ => ?_⟩
    · rw [hp]
      unfold Purse.booked at hex ⊢
      dsimp only
      omega
    · rw [hg, hp, hpay.terms]
      exact ⟨hfund, rfl, hpost⟩
  | opened hc hf ho hx hb hd hp hm hg hpay =>
    obtain ⟨c, hc⟩ := hc
    have h0 := (hs.unopened ho).2.2.2
    apply hk.keep (by rw [bondPoster, hc])
    · rw [hp]
      unfold Purse.booked at hex ⊢
      dsimp only [Purse.takeProbe]
      omega
    · exact hpay.terms
    · rw [hp]
      rfl
    · rw [hg]
      exact ⟨rfl, rfl, rfl⟩
  | accepted hc _ _ _ hp hm hg hpay =>
    apply hk.keep (by rw [bondPoster, hc])
    · rw [hp]
      unfold Purse.booked at hex ⊢
      dsimp only [Purse.acceptProbe]
      split_ifs <;> omega
    · exact hpay.terms
    · rw [hp]
      rfl
    · rw [hg]
      exact ⟨rfl, rfl, rfl⟩
  | claimed hc _ _ _ _ hw _ _ _ _ hp hm hg hpay =>
    apply hk.keep (by rw [bondPoster, hc])
    · rw [hp, hw.charged.balance, hw.charged.booked]
      exact hex
    · exact hpay.terms
    · rw [hp]
      exact hw.charged.buyerBond
    · rw [hg]
      exact ⟨rfl, rfl, rfl⟩
  | promoted hc _ _ _ _ hp hm hg hpay =>
    apply hk.keep (by rw [bondPoster, hc])
    · rw [hp]
      exact hex
    · exact hpay.terms
    · rw [hp]
    · rw [hg]
      exact ⟨rfl, rfl, rfl⟩
  | crossed hc _ _ _ hw _ _ hp hm hg hpay =>
    apply hk.keep (by rw [bondPoster, hc])
    · rw [hp, hw.charged.balance, hw.charged.booked]
      exact hex
    · exact hpay.terms
    · rw [hp]
      exact hw.charged.buyerBond
    · rw [hg]
      exact ⟨rfl, rfl, rfl⟩
  | disputed hc _ _ hp hm hg hpay =>
    apply hk.keep (by rw [bondPoster, hc])
    · rw [hp]
      exact hex
    · exact hpay.terms
    · rw [hp]
    · rw [hg]
      exact ⟨rfl, rfl, rfl⟩
  | cleaned hc _ ho _ hp hm hg hpay =>
    have h0 := hs.unopened ho
    have h1 := hs.unaccepted h0.1
    refine ⟨?_, fun h => ?_⟩
    · rw [hp]
      unfold Purse.booked
      dsimp only
      omega
    · rw [hg] at h
      cases h
  | withdrawn hc _ hle _ hp hm hg hpay =>
    apply hk.keep (by rw [bondPoster, hc])
    · rw [hp]
      unfold Purse.booked at hex ⊢
      dsimp only
      omega
    · exact hpay.terms
    · rw [hp]
    · rw [hg]
      exact ⟨rfl, rfl, rfl⟩
  | freed _ _ hcl => exact absurd (hl.symm.trans hcl.destroyed) (by decide)
  | ended _ _ _ hx =>
    obtain ⟨_, _, _, hcl, -⟩ := hx.ends
    exact absurd (hl.symm.trans hcl.destroyed) (by decide)

theorem Effect.sweeps_nothing (hs : Sane s) (he : Effect s i u) (hk : Earmarked s p) :
    u.credited .residual = 0 := by
  cases he with
  | freed hc ho hcl =>
    have h1 := hcl.moved.residual
    have h2 := hk.exact
    obtain ⟨hacc, -, -, h3⟩ := hs.unopened ho
    obtain ⟨h4, h5, -⟩ := hs.unaccepted hacc
    rw [credited_begin] at h1
    rw [h1, begin_toPurse, h2, Purse.booked]
    split_ifs with hf
    · omega
    · have hf' : s.funded = false := by simpa using hf
      have h6 := (hs.unfunded hf').2
      have h7 := (hk.noBond hs hf').2
      omega
  | ended _ _ _ hx =>
    obtain ⟨b, x, w, hcl, -, -, hbk⟩ := hx.ends
    have h1 := hcl.moved.residual
    have h2 := hk.exact
    rw [credited_begin] at h1
    rw [h1, begin_toPurse, h2]
    omega
  | _ => exact Paid.residual (by assumption)

theorem step_live (h : s.step i = some u) : s.destroyed = false := by
  unfold step at h
  split_ifs at h with hl
  simpa using hl

theorem run_sane {t : Terms} (ht : t.Valid) {tr : List (Input × TokenContract)}
    (h : Run step (init t) tr u) (hl : u.destroyed = false) : Sane u := by
  refine h.state_invariant (fun u => u.destroyed = false → Sane u) ?_ ?_ hl
  · exact fun _ => init_sane ht
  · exact fun s i u hs h => step_sane (hs (step_live h)) h

/-- In every run of a deal that takes no late bond, the earmarks add up to the balance, a funded
bond is the present buyer's, and no destruct sweeps anything to the seller. -/
theorem earmarks_exact {t : Terms} (ht : t.Valid) {tr : List (Input × TokenContract)}
    (h : Run step (init t) tr u)
    (hok : Run.Each (fun s i _ => s.lateBond i = false) (init t) tr) :
    (u.destroyed = false → Earmarked u (postedBy (init t) tr)) ∧
      Run.Each (fun _ _ v => v.credited .residual = 0) (init t) tr := by
  refine h.invariant_each (fun tr u => (u.destroyed = false → Earmarked u (postedBy (init t) tr)) ∧
      Run.Each (fun _ _ v => v.credited .residual = 0) (init t) tr) ?_ ?_ hok
  · refine ⟨fun _ => ⟨rfl, fun h => ?_⟩, trivial⟩
    cases h
  · intro tr s i u hr hI hnl hi
    have hl := step_live hi
    have hs := run_sane ht hr hl
    have hk := hI.1 hl
    have he := (step_effect hs hi).2
    refine ⟨fun hu => ?_, Run.each_concat.mpr ⟨hI.2, he.sweeps_nothing hs hk⟩⟩
    unfold postedBy
    rw [Run.ghost_concat, hr.last_eq]
    exact he.earmarked hs hk hnl hu

/-- Terms of a deal at one SHELL a tick. -/
def sampleTerms : Terms where
  sellerPubkey := 7
  nonce := 0
  modelHash := 1
  pricePerTick := PRICE_STEP
  maxTicks := 10
  sellerNote := .note 1

def sampleUnit : ℕ := sampleTerms.unit

def sampleBook : Addr := .inferenceBook 5 1 1

/-- The offer is posted and two ticks are bought. -/
def sampleMatch : List Input :=
  [⟨.internal (.note 1), 10, .postFromNote 5 1 1 0 0⟩,
    ⟨.internal sampleBook, 20, .fundFromOrderBook (2 * sampleUnit) (.note 2) 9 0⟩]

/-- A whole deal: both bonds, the probe, a claim and the buyer's stop. -/
def sampleService : List Input :=
  sampleMatch ++
    [⟨.internal (.note 1), 30, .fundDeal (2 * PRICE_STEP) none⟩,
      ⟨.internal (.note 2), 40, .fundBuyerBond (2 * PRICE_STEP)⟩,
      ⟨.external 7, 50, .openDeal [1]⟩,
      ⟨.external 7, 300, .acceptProbe⟩,
      ⟨.external 7, 400, .claimTokens (2 * DEAL_TICK_SIZE)⟩,
      ⟨.internal (.note 2), 500, .stop⟩]

/-- The trace of the sample deal under some calls. -/
def sampleTrace (is : List Input) : List (Input × TokenContract) :=
  Run.trace step (init sampleTerms) is

theorem sample_run (is : List Input) : Run step (init sampleTerms) (sampleTrace is)
    (Run.last (init sampleTerms) (sampleTrace is)) :=
  Run.trace_run ..

theorem earmarks_exact_sample : (sampleTrace sampleService).length = 8 ∧
    Run.Each (fun _ _ v => v.credited .residual = 0) (init sampleTerms)
      (sampleTrace sampleService) :=
  ⟨by decide +kernel,
    (earmarks_exact (by decide) (sample_run sampleService) (by decide +kernel)).2⟩

/-- The buyer takes his match back, his bond arrives after that, and the seller closes the deal. -/
def sampleLateBond : List Input :=
  sampleMatch ++
    [⟨.internal (.note 2), 30, .cleanupUnopened⟩,
      ⟨.internal (.note 2), 40, .fundBuyerBond (2 * PRICE_STEP)⟩,
      ⟨.external 7, 50, .close⟩]

/-- The buyer's bond is swept to the seller. -/
theorem late_bond_swept :
    ¬ ∀ (t : Terms), t.Valid → PRICE_STEP ∣ t.pricePerTick →
      ∀ (tr : List (Input × TokenContract)) (u : TokenContract), Run step (init t) tr u →
        (u.destroyed = false → Earmarked u (postedBy (init t) tr)) ∧
          Run.Each (fun _ _ v => v.credited .residual = 0) (init t) tr := by
  intro h
  have h1 := (h sampleTerms (by decide) (dvd_refl _) _ _ (sample_run sampleLateBond)).2
  exact absurd h1 (by decide +kernel)

end TokenContract

end Dexdo
