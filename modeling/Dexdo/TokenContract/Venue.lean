import Dexdo.TokenContract.Volume

namespace Dexdo

namespace TokenContract

variable {s t u : TokenContract} {i : Input} {h d : ℕ}

/-- The message posts to the book of this code, if it posts at all. -/
def Input.postsTo (h d : ℕ) (i : Input) : Prop :=
  match i.call with
  | .postFromNote a b _ _ _ => a = h ∧ b = d
  | _ => True

/-- Code hash and depth of the book a call posts to. -/
def bookCode : DealCall → Option (ℕ × ℕ)
  | .postFromNote a b _ _ _ => some (a, b)
  | _ => none

theorem Input.postsTo_iff {i : Input} :
    ((bookCode i.call).all fun x => x.1 == h && x.2 == d) = true ↔ i.postsTo h d := by
  unfold bookCode Input.postsTo
  split <;> simp

instance (i : Input) : Decidable (i.postsTo h d) := decidable_of_iff _ i.postsTo_iff

/-- A deal knows the one book its seller's note posts to, or it knows none and has no buyer. -/
def Listed (h d : ℕ) (s : TokenContract) : Prop :=
  s.iobHash = 0 ∧ s.funded = false ∨ s.iobHash ≠ 0 ∧ s.iobHash = h ∧ s.iobDepth = d

theorem Listed.of_stage (hl : Listed h d s) {g : Stage} (hg : u.toStage = g)
    (hh : g.iobHash = s.iobHash) (hd : g.iobDepth = s.iobDepth)
    (hf : g.funded = s.funded ∨ g.funded = false) : Listed h d u := by
  subst hg
  rcases hl with ⟨h1, h2⟩ | h1
  · refine .inl ⟨hh.trans h1, ?_⟩
    rcases hf with hf | hf
    · exact hf.trans h2
    · exact hf
  · right
    rw [hh, hd]
    exact h1

theorem Listed.posted (hl : Listed h d s) (hf : s.funded = true) :
    s.iobHash ≠ 0 ∧ s.iobHash = h ∧ s.iobDepth = d := by
  apply hl.resolve_left
  rintro ⟨-, hn⟩
  exact absurd (hf.symm.trans hn) (by decide)

theorem postFromNote_listed {caller : Caller} {n f e : ℕ} (hl : Listed h d s)
    (hu : s.begin.postFromNote caller h d n f e = some u) : Listed h d u := by
  simp only [postFromNote, bind_iff] at hu
  obtain ⟨-, -, hu⟩ := hu
  have hstage : u.iobHash = h ∧ u.iobDepth = d ∧ u.funded = s.funded := by
    split_ifs at hu
    · cases hu
      exact ⟨rfl, rfl, rfl⟩
    · cases hu
      exact ⟨rfl, rfl, rfl⟩
  obtain ⟨hh, hd, hf⟩ := hstage
  rcases hl with ⟨-, h2⟩ | ⟨h1, h2, -⟩
  · by_cases h0 : h = 0
    · exact .inl ⟨hh.trans h0, hf.trans h2⟩
    · exact .inr ⟨by rw [hh]; exact h0, hh, hd⟩
  · exact .inr ⟨by rw [hh, ← h2]; exact h1, hh, hd⟩

/-- Only the posts of its note tell a deal its book. -/
theorem code_kept (hc : i.mayRest = true) (hp : ∀ a b n f e, i.call ≠ .postFromNote a b n f e)
    (hi : s.step i = some u) : u.iobHash = s.iobHash ∧ u.iobDepth = s.iobDepth := by
  have hx := step_exec hi
  obtain ⟨caller, now, call⟩ := i
  cases call with
  | fundFromOrderBook paid note pk flags =>
    change s.begin.fundFromOrderBook caller now paid note pk flags = some u at hx
    unfold fundFromOrderBook at hx
    split_ifs at hx
    · cases hx
      exact ⟨rfl, rfl⟩
    · cases hx
      exact ⟨rfl, rfl⟩
    · obtain ⟨v, hv, hx⟩ := of_bind hx
      obtain rfl := receive_inv hv
      dsimp only at hx
      split_ifs at hx
      · obtain ⟨-, -, hx⟩ := of_bind hx
        cases hx
        exact ⟨rfl, rfl⟩
      · obtain ⟨hk, -⟩ := payShell_inv hx
        rw [hk.stage]
        exact ⟨rfl, rfl⟩
  | postFromNote a b n f e => exact absurd rfl (hp a b n f e)
  | onSellClosed =>
    cases hx
    unfold onSellClosed
    split_ifs
    · exact ⟨rfl, rfl⟩
    · exact ⟨rfl, rfl⟩
  | claimTokens n =>
    change s.begin.claimTokens caller now n = some u at hx
    simp only [claimTokens, bind_iff] at hx
    obtain ⟨-, -, -, -, -, hx⟩ := hx
    split_ifs at hx
    · cases hx
      exact ⟨rfl, rfl⟩
    · obtain ⟨e, -, hx⟩ := of_bind hx
      simp only [pendClaim, bind_iff, pure_iff] at hx
      obtain ⟨-, -, rfl⟩ := hx
      have hstage : (s.begin.settleBoundaries e).toStage = s.toStage := by
        unfold settleBoundaries
        split_ifs
        · rfl
        · obtain ⟨n, a, b, hw⟩ := s.begin.chargeWeeksThrough_weekly e
          rw [reportFinalized_toStage]
          exact hw.stage
      exact ⟨congrArg Stage.iobHash hstage, congrArg Stage.iobDepth hstage⟩
  | _ => cases hc

/-- The book of a deal along one transaction, and what the deal has delivered when it ends. -/
theorem step_listed (hs : Sane s) (hlag : s.ticksFinalized ≤ s.served) (hl : Listed h d s)
    (hp : i.postsTo h d) (hi : s.step i = some u) :
    (Listed h d u ∧ (u.destroyed = true → u.funded = true)) ∨
      u.destroyed = true ∧ u.ticksFinalized = 0 ∧ u.reports = [] := by
  have hx := step_exec hi
  -- a transaction that leaves the deal alive
  have hlives : ∀ g : Stage, u.toStage = g → g.destroyed = s.destroyed → Listed h d u →
      (Listed h d u ∧ (u.destroyed = true → u.funded = true)) ∨
        u.destroyed = true ∧ u.ticksFinalized = 0 ∧ u.reports = [] := by
    rintro g rfl hg hu
    refine .inl ⟨hu, fun hd => ?_⟩
    exact absurd ((step_live hi).symm.trans (hg.symm.trans hd)) (by decide)
  cases (step_effect hs hi).2 with
  | quiet hc _ _ _ _ hg =>
    apply hlives _ hg rfl
    by_cases hpost : ∃ a b n f e, i.call = .postFromNote a b n f e
    · obtain ⟨a, b, n, f, e, hcall⟩ := hpost
      unfold Input.postsTo at hp
      rw [hcall] at hp hx
      obtain ⟨rfl, rfl⟩ := hp
      exact postFromNote_listed hl hx
    · push Not at hpost
      obtain ⟨hh, hd⟩ := code_kept hc hpost hi
      exact hl.of_stage (Eq.refl u.toStage) hh hd (.inl (by rw [hg]))
  | bounced _ _ _ _ _ hg =>
    exact hlives _ hg rfl (hl.of_stage hg rfl rfl (.inl rfl))
  | matched _ hb _ _ _ _ hg =>
    have hne : s.iobHash ≠ 0 := by
      intro h0
      unfold fromBook at hb
      rw [h0] at hb
      cases hb
    apply hlives _ hg rfl
    right
    rw [hg]
    exact hl.resolve_left fun h0 => hne h0.1
  | sellerBonded _ _ _ _ _ _ _ hg =>
    exact hlives _ hg rfl (hl.of_stage hg rfl rfl (.inl rfl))
  | buyerBonded _ _ _ _ _ _ _ hg =>
    exact hlives _ hg rfl (hl.of_stage hg rfl rfl (.inl rfl))
  | opened _ _ _ _ _ _ _ _ hg =>
    exact hlives _ hg rfl (hl.of_stage hg rfl rfl (.inl rfl))
  | accepted _ _ _ _ _ _ hg =>
    exact hlives _ hg rfl (hl.of_stage hg rfl rfl (.inl rfl))
  | claimed _ _ _ _ _ _ _ _ _ _ _ _ hg =>
    exact hlives _ hg rfl (hl.of_stage hg rfl rfl (.inl rfl))
  | promoted _ _ _ _ _ _ _ hg =>
    exact hlives _ hg rfl (hl.of_stage hg rfl rfl (.inl rfl))
  | crossed _ _ _ _ _ _ _ _ _ hg =>
    exact hlives _ hg rfl (hl.of_stage hg rfl rfl (.inl rfl))
  | disputed _ _ _ _ _ hg =>
    exact hlives _ hg rfl (hl.of_stage hg rfl rfl (.inl rfl))
  | cleaned _ _ _ _ _ _ hg =>
    exact hlives _ hg rfl (hl.of_stage hg rfl rfl (.inr rfl))
  | withdrawn _ _ _ _ _ _ hg =>
    exact hlives _ hg rfl (hl.of_stage hg rfl rfl (.inl rfl))
  | freed hc ho hcl hm =>
    right
    have hzero : s.ticksFinalized = 0 := by
      rw [served_eq_zero hs (hs.unopened ho).1] at hlag
      exact Nat.le_zero.mp hlag
    refine ⟨hcl.destroyed, (congrArg Meter.ticksFinalized hm).trans hzero, ?_⟩
    rcases hc with ⟨hcall, -⟩ | hcall
    · rw [hcall] at hx
      exact (close_still hs hx).reports
    · rw [hcall] at hx
      exact (destroy_still hs hx).reports
  | ended _ _ ho hxt =>
    refine .inl ⟨hl.of_stage hxt.stage rfl rfl (.inl rfl), fun _ => ?_⟩
    rw [hxt.stage]
    by_contra hn
    rw [(hs.unfunded (by simpa using hn)).1] at ho
    cases ho

/-- A deal whose note posts to one book: all it reports goes there, and what it has delivered when
it ends is among it. -/
structure Sited (book : Addr) (h d : ℕ) (tr : List (Input × TokenContract)) (u : TokenContract) :
    Prop where
  listed : u.destroyed = false → Listed h d u
  book : ∀ r ∈ reportsOf tr, r.book = book
  whole : u.destroyed = true → 0 < u.ticksFinalized →
    ∃ r ∈ reportsOf tr, r.ticks = u.ticksFinalized

theorem run_sited {t : Terms} (ht : t.Valid) {tr : List (Input × TokenContract)}
    (hr : Run step (init t) tr u) (hp : ∀ x ∈ tr, x.1.postsTo h d) :
    Sited (.inferenceBook h d t.modelHash) h d tr u ∧ u.toTerms = t := by
  refine hr.invariant (fun tr u => (∀ x ∈ tr, x.1.postsTo h d) →
    Sited (.inferenceBook h d t.modelHash) h d tr u ∧ u.toTerms = t) ?_ ?_ hp
  · refine fun _ => ⟨⟨fun _ => .inl ⟨rfl, rfl⟩, ?_, nofun⟩, rfl⟩
    exact fun _ hr => absurd hr List.not_mem_nil
  · intro tr s i u hr hI hi hp
    obtain ⟨hI, hterms⟩ := hI fun x hx => hp x (List.mem_append_left _ hx)
    have hlive := step_live hi
    have hs := run_sane ht hr hlive
    have hlag := (run_accounted ht hr).lag hlive
    have hv := step_volume hs hlag hi
    have hposts : i.postsTo h d := hp (i, u) (List.mem_append_right _ (List.mem_singleton_self _))
    have hu : u.toTerms = t := ((step_effect hs hi).2.terms).trans hterms
    have hstep := step_listed hs hlag (hI.listed hlive) hposts hi
    refine ⟨⟨fun hd => ?_, fun r hmem => ?_, fun hd hn => ?_⟩, hu⟩
    · rcases hstep with ⟨h1, -⟩ | ⟨h1, -⟩
      · exact h1
      · exact absurd (hd.symm.trans h1) (by decide)
    · rw [reportsOf_concat] at hmem
      rcases List.mem_append.mp hmem with hmem | hmem
      · exact hI.book r hmem
      · have htrue := hv.truthful r hmem
        rcases hstep with ⟨h1, -⟩ | ⟨-, -, h1⟩
        · obtain ⟨-, h2, h3⟩ := h1.resolve_left fun h0 => htrue.posted h0.1
          rw [htrue.book, orderBook, h2, h3, hu]
        · rw [h1] at hmem
          exact absurd hmem List.not_mem_nil
    · rcases hstep with ⟨h1, h2⟩ | ⟨-, h1, -⟩
      · obtain ⟨hne, -⟩ := h1.posted (h2 hd)
        have hdue : u.dueReport = [⟨u.orderBook, u.pricePerTick, u.ticksFinalized⟩] :=
          if_neg (by omega)
        refine ⟨⟨u.orderBook, u.pricePerTick, u.ticksFinalized⟩, ?_, rfl⟩
        rw [reportsOf_concat]
        apply List.mem_append_right
        apply hv.final hd
        rw [hdue]
        exact List.mem_singleton_self _
      · omega

end TokenContract

end Dexdo
