import Dexdo.TokenContract.Views

namespace Dexdo

namespace TokenContract

variable {s u v r r' : TokenContract} {τ now c : ℕ} {caller : Caller}

theorem reportFinalized_bare (s : TokenContract) : s.reportFinalized.bare = s.bare := by
  unfold reportFinalized
  split_ifs <;> rfl

theorem settleBoundaries_bare (s : TokenContract) (due : ℕ) :
    (s.settleBoundaries due).bare = (s.chargeWeeksThrough due).bare := by
  unfold settleBoundaries
  split_ifs with h
  · rw [chargeWeeksThrough_of_le h]
  · exact reportFinalized_bare _

theorem settleBoundaries_moved (s : TokenContract) (due : ℕ) :
    Moved s (s.settleBoundaries due) 0 0 0 0 := by
  unfold settleBoundaries
  split_ifs with h
  · exact .refl s
  · obtain ⟨n, x, y, hw⟩ := s.chargeWeeksThrough_weekly due
    exact ((hw.moved.trans (.emit _ _)).trans (.setMeter _ _)).trans (reportFinalized_moved _)

theorem Moved.silent (h : Moved s u 0 0 0 0) :
    (∀ p, u.credited p = s.credited p) ∧ u.burned = s.burned := by
  refine ⟨fun p => ?_, h.burned⟩
  cases p with
  | buyer => exact h.buyer
  | seller => exact h.seller
  | residual => exact h.residual

theorem promoted_bare (s : TokenContract) (c : ℕ) : (s.promoted c).bare = s.bare.promoted c :=
  (setTicks_promoted s.begin 0 c).symm

theorem bare_meter (h : u.bare = v.bare) :
    ({ u.toMeter with ticksFinalized := 0 } : Meter) = { v.toMeter with ticksFinalized := 0 } :=
  congrArg (·.toMeter) h

@[simp] theorem credited_emit (s : TokenContract) (e : DealEvent) (p : Payee) :
    (s.emit e).credited p = s.credited p := credited_act ..

@[simp] theorem burned_emit (s : TokenContract) (e : DealEvent) : (s.emit e).burned = s.burned :=
  burned_act ..

theorem pendClaim_eq (s : TokenContract) (now n : ℕ) : s.pendClaim now n =
    if s.toMeter.admits now n ∧ (s.promoted now).tokensPend = (s.promoted now).tokensFinal then
      some (((s.promoted now).setMeter ((s.promoted now).toMeter.pend now n)).emit
        (.ticksClaimed (s.promoted now).tokensFinal n))
    else none := by
  change (do
    guard (s.toMeter.admits now n)
    guard ((s.promoted now).tokensPend = (s.promoted now).tokensFinal)
    some (((s.promoted now).setMeter ((s.promoted now).toMeter.pend now n)).emit _)) = _
  by_cases h1 : s.toMeter.admits now n
  · by_cases h2 : (s.promoted now).tokensPend = (s.promoted now).tokensFinal
    · rw [if_pos ⟨h1, h2⟩]
      simp only [guard, if_pos h1, if_pos h2]
      rfl
    · rw [if_neg fun h => h2 h.2]
      simp only [guard, if_pos h1, if_neg h2]
      rfl
  · rw [if_neg fun h => h1 h.1]
    simp only [guard, if_neg h1]
    rfl

/-- The tail of a claim on a state and on the one that has promoted its matured claim. -/
theorem pendClaim_view (h : r'.bare = (r.promoted now).bare) (ho : r.opened = true)
    (hc : ∀ p, r'.credited p = r.credited p) (hb : r'.burned = r.burned) (n : ℕ) :
    (r'.pendClaim now n).map (view now) = (r.pendClaim now n).map (view now) := by
  have hadm : r'.toMeter.admits now n ↔ r.toMeter.admits now n := by
    obtain ⟨x, hx⟩ := r.toMeter.promoteDue_eq now
    have h1 : r'.toMeter.admits now n ↔
        ({ r'.toMeter with ticksFinalized := 0 } : Meter).admits now n := Iff.rfl
    rw [h1, bare_meter h, promoted, setMeter_toMeter, hx]
    exact Iff.rfl
  have h2 : (r'.promoted now).bare = (r.promoted now).bare := by
    rw [promoted_bare, h, ← promoted_bare, promoted_promoted (Nat.le_refl _)]
  have hm := bare_meter h2
  have heq : (r'.promoted now).tokensPend = (r'.promoted now).tokensFinal ↔
      (r.promoted now).tokensPend = (r.promoted now).tokensFinal := by
    have h3 : (r'.promoted now).tokensPend = (r.promoted now).tokensPend := congrArg (·.tokensPend) hm
    have h4 : (r'.promoted now).tokensFinal = (r.promoted now).tokensFinal :=
      congrArg (·.tokensFinal) hm
    rw [h3, h4]
  rw [pendClaim_eq, pendClaim_eq]
  by_cases hif : r.toMeter.admits now n ∧
      (r.promoted now).tokensPend = (r.promoted now).tokensFinal
  · rw [if_pos hif, if_pos ⟨hadm.mpr hif.1, heq.mpr hif.2⟩, Option.map_some, Option.map_some]
    congr 1
    apply view_eq
    · apply upToDate_congr
      · exact congrArg (fun q : TokenContract => q.setMeter (q.toMeter.pend now n)) h2
      · have h5 : (r'.promoted now).opened = (r.promoted now).opened := congrArg (·.opened) h2
        exact h5.trans ho
    · intro p
      rw [credited_emit, credited_emit]
      exact hc p
    · rw [burned_emit, burned_emit]
      exact hb
  · rw [if_neg hif, if_neg fun h => hif ⟨hadm.mp h.1, heq.mp h.2⟩]

theorem claimTokens_eq (s : TokenContract) (caller : Caller) (now n : ℕ) :
    s.claimTokens caller now n =
      if caller.pubkey = s.sellerPubkey ∧ s.opened = true ∧ s.disputed = false ∧
          s.probeAccepted = true ∧ s.tokensPend ≤ n then
        if n = s.tokensPend then some s
        else (s.weeksElapsedAt now).bind fun due => (s.settleBoundaries due).pendClaim now n
      else none := by
  apply Option.ext
  intro u
  simp only [claimTokens, bind_iff, Option.ite_none_right_eq_some, pure_iff, and_assoc]

namespace OnTerm

theorem view_upToDate (hs : OnTerm s) (now : ℕ) : view now (s.upToDate now) = view now s.begin := by
  apply view_eq
  · exact hs.upToDate_idem now
  · intro p
    rw [upToDate_open hs.opened]
    unfold credited
    rw [caughtUp_actions]
    rfl
  · rw [upToDate_open hs.opened]
    unfold burned
    rw [caughtUp_actions]
    rfl

theorem weekIndex (hs : OnTerm s) (c w : ℕ) :
    (s.caughtUp c w).weekIndex = max s.weekIndex w := by
  obtain ⟨x, hx⟩ := s.caughtUp_meter c w
  rw [hx, chargeWeeksThrough_meter hs.subscription hs.accepted]
  exact s.toMeter.crossTo_weekIndex w

theorem caughtUp_charged (s : TokenContract) (c w : ℕ) :
    (s.caughtUp c w).bare = ((s.begin.chargeWeeksThrough w).promoted c).bare := by
  unfold caughtUp
  rw [begin_chargeWeeksThrough]
  rfl

theorem claimTokens_view (hs : OnTerm s) (n : ℕ) :
    ((s.upToDate now).claimTokens caller now n).map (view now) =
      (s.begin.claimTokens caller now n).map (view now) := by
  have hg : (s.upToDate now).toStage = s.toStage := s.upToDate_toStage now
  have ht : (s.upToDate now).toTerms = s.toTerms := by
    rw [upToDate_open hs.opened, caughtUp_toTerms]
  have hp : (s.upToDate now).tokensPend = s.tokensPend := by
    rw [upToDate_open hs.opened, caughtUp_tokensPend]
  have hbegin : s.begin.claimTokens caller now n =
      if caller.pubkey = s.sellerPubkey ∧ s.opened = true ∧ s.disputed = false ∧
          s.probeAccepted = true ∧ s.tokensPend ≤ n then
        if n = s.tokensPend then some s.begin
        else (s.weeksElapsedAt now).bind fun due => (s.begin.settleBoundaries due).pendClaim now n
      else none := claimTokens_eq s.begin caller now n
  rw [claimTokens_eq, hg, ht, hp, hbegin]
  split_ifs with h hn
  · rw [Option.map_some, Option.map_some, hs.view_upToDate]
  · have hd : s.disputed = false := h.2.2.1
    · rw [hs.upToDate_eq hd, caughtUp_weeksElapsedAt]
      cases he : s.weeksElapsedAt now with
      | none => rfl
      | some =>
        rw [Option.bind_some, Option.bind_some]
        obtain rfl := elapsed hd he
        have hskip : (s.caughtUp now (s.weeksBy now)).settleBoundaries (s.weeksBy now) =
            s.caughtUp now (s.weeksBy now) := by
          unfold settleBoundaries
          rw [if_pos]
          rw [hs.weekIndex]
          exact Nat.le_max_right _ _
        rw [hskip]
        have hmv := s.begin.settleBoundaries_moved (s.weeksBy now)
        have hcharge : (s.begin.settleBoundaries (s.weeksBy now)).bare =
            (s.begin.chargeWeeksThrough (s.weeksBy now)).bare := settleBoundaries_bare ..
        have hnone : (s.caughtUp now (s.weeksBy now)).actions = [] := caughtUp_actions ..
        apply pendClaim_view
        · rw [promoted_bare, hcharge, ← promoted_bare]
          exact caughtUp_charged ..
        · have h1 : (s.begin.chargeWeeksThrough (s.weeksBy now)).opened = true := by
            rw [chargeWeeksThrough_stage]
            exact hs.opened
          exact (congrArg (·.opened) hcharge).trans h1
        · intro p
          rw [hmv.silent.1, credited_congr (v := s.begin) hnone]
        · rw [hmv.silent.2]
          unfold burned
          rw [hnone]
          rfl
  · rfl

end OnTerm

theorem fundFromOrderBook_funded (hf : s.funded = true) (caller : Caller) (now paid : ℕ)
    (note : Addr) (pk flags : ℕ) :
    s.fundFromOrderBook caller now paid note pk flags =
      if paid = 0 then some s
      else if s.iobHash = 0 then none
      else if caller.isSender s.orderBook = false then some s
      else if s.balance + paid < 2 ^ 128 then
        some ((s.act (.onHandoverAccepted s.orderBook)).act (.creditFromDeal .buyer note paid))
      else none := by
  unfold fundFromOrderBook
  split_ifs with h0 h1 h2 h3
  · rfl
  · rfl
  · rfl
  · have hback : s.balance + paid - paid = s.balance := Nat.add_sub_cancel ..
    simp only [receive, add128, if_pos h3, Option.bind_eq_bind, Option.pure_def, Option.bind_some]
    rw [if_neg fun h => absurd (hf.symm.trans h.1) (by decide)]
    unfold payShell sub128
    rw [if_neg h0, if_pos (by exact Nat.le_add_left _ _)]
    change some (((s.setPurse _).act _).setPurse { s.toPurse with balance := s.balance + paid - paid }
      |>.act _) = _
    rw [hback]
    rfl
  · simp only [receive, add128, if_neg h3]
    rfl

theorem fundFromOrderBook_view (hs : OnTerm s) (hf : s.funded = true) (paid : ℕ) (note : Addr)
    (pk flags : ℕ) :
    ((s.upToDate now).fundFromOrderBook caller now paid note pk flags).map (view now) =
      (s.begin.fundFromOrderBook caller now paid note pk flags).map (view now) := by
  have hg : (s.upToDate now).toStage = s.toStage := s.upToDate_toStage now
  have hbook : (s.upToDate now).orderBook = s.orderBook := by
    unfold orderBook
    rw [hg, upToDate_open hs.opened, caughtUp_toTerms]
  have hbal : (s.upToDate now).balance = s.balance := by
    rw [upToDate_open hs.opened, caughtUp_balance]
  have hacts : (s.upToDate now).actions = [] := by
    rw [upToDate_open hs.opened, caughtUp_actions]
  have hbegin := fundFromOrderBook_funded (s := s.begin) hf caller now paid note pk flags
  rw [fundFromOrderBook_funded (by rw [hg]; exact hf), hbegin, hbook, hbal, hg]
  change _ = Option.map _ (if paid = 0 then _ else if s.iobHash = 0 then _ else
    if caller.isSender s.orderBook = false then _ else if s.balance + paid < 2 ^ 128 then _ else _)
  split_ifs
  · exact congrArg some (hs.view_upToDate now)
  · rfl
  · exact congrArg some (hs.view_upToDate now)
  · rw [Option.map_some, Option.map_some]
    congr 1
    apply view_eq
    · rw [upToDate_act, upToDate_act, upToDate_act, upToDate_act]
      exact hs.upToDate_idem now
    · intro p
      apply credited_congr
      simp only [act_actions, hacts]
      rfl
    · simp only [burned, act_actions, hacts]
      rfl
  · rfl

theorem upToDate_actions (s : TokenContract) (τ : ℕ) : (s.upToDate τ).actions = [] := by
  unfold upToDate
  split_ifs
  · exact caughtUp_actions ..
  · rfl

theorem OnTerm.setStage_view (hs : OnTerm s) {g : Stage} (h1 : g.opened = true)
    (h2 : g.probeAccepted = s.probeAccepted) (hc : (s.setStage g).clock now = s.clock now) :
    view now ((s.upToDate now).setStage g) = view now (s.begin.setStage g) := by
  have hg : (s.upToDate now).toStage = s.toStage := s.upToDate_toStage now
  have hclock : (s.upToDate now).clock now = s.clock now := by
    unfold clock
    rw [hg]
  have hx : ((s.upToDate now).setStage g).upToDate now =
      ((s.upToDate now).upToDate now).setStage g := by
    apply upToDate_setStage
    · rw [hg]
      exact hs.opened
    · exact h1
    · rw [hg]
      exact h2
    · exact Eq.trans hc hclock.symm
  apply view_eq
  · rw [hx, hs.upToDate_idem]
    exact (upToDate_setStage hs.opened h1 h2 hc).symm
  · exact fun p => credited_congr (v := s.begin) (s.upToDate_actions now) p
  · unfold burned
    rw [setStage_actions, upToDate_actions]
    rfl

theorem postFromNote_view (hs : OnTerm s) (hf : s.funded = true) (a b k f e : ℕ) :
    ((s.upToDate now).postFromNote caller a b k f e).map (view now) =
      (s.begin.postFromNote caller a b k f e).map (view now) := by
  have hg : (s.upToDate now).toStage = s.toStage := s.upToDate_toStage now
  have ht : (s.upToDate now).toTerms = s.toTerms := by
    rw [upToDate_open hs.opened, caughtUp_toTerms]
  have hform : ∀ r : TokenContract, r.funded = true → r.postFromNote caller a b k f e =
      if caller.isSender r.sellerNote = true ∧ r.sellerNote = .note k then
        some (r.setStage { r.toStage with noteAuthorized := true, iobHash := a, iobDepth := b })
      else none := by
    intro r hr
    apply Option.ext
    intro u
    simp only [postFromNote, Option.bind_eq_bind, Option.bind_eq_some_iff, Option.guard_eq_some',
      exists_const, Option.ite_none_right_eq_some, Option.pure_def, and_assoc]
    rw [if_pos (.inr hr)]
  rw [hform _ (by rw [hg]; exact hf), hform s.begin hf, ht, hg]
  change _ = Option.map _ (if caller.isSender s.sellerNote = true ∧ s.sellerNote = .note k then _
    else _)
  split_ifs
  · exact congrArg some (hs.setStage_view hs.opened rfl rfl)
  · rfl

theorem dispute_view (hs : OnTerm s) :
    ((s.upToDate now).dispute caller now).map (view now) =
      (s.begin.dispute caller now).map (view now) := by
  have hg : (s.upToDate now).toStage = s.toStage := s.upToDate_toStage now
  have hbuyer : ∀ r : TokenContract, r.toStage = s.toStage →
      r.fromBuyer caller = s.fromBuyer caller := by
    intro r hr
    unfold fromBuyer
    rw [hr]
  have hform : ∀ r : TokenContract, r.toStage = s.toStage → r.dispute caller now =
      if s.opened = true ∧ s.fromBuyer caller = true ∧ s.disputed = false then
        some ((r.setStage { s.toStage with
          disputed := true, everDisputed := true, disputeTime := now }).emit
            (.streamDisputed s.buyerAddr now))
      else none := by
    intro r hr
    apply Option.ext
    intro u
    simp only [dispute, bind_iff, Option.ite_none_right_eq_some, pure_iff, and_assoc]
    rw [hbuyer r hr, hr]
    exact Iff.rfl
  rw [hform _ hg, hform s.begin rfl]
  split_ifs with h
  · have hd : s.disputed = false := h.2.2
    have hclock : s.clock now = now := if_neg (by simp [hd])
    have hview : view now ((s.upToDate now).setStage { s.toStage with
        disputed := true, everDisputed := true, disputeTime := now }) =
        view now (s.begin.setStage { s.toStage with
          disputed := true, everDisputed := true, disputeTime := now }) :=
      hs.setStage_view hs.opened rfl (Eq.trans (if_pos rfl) hclock.symm)
    have hemit : ∀ (r : TokenContract) (x : DealEvent), view now (r.emit x) = view now r := by
      intro r x
      apply view_eq
      · exact upToDate_act ..
      · exact fun p => credited_emit ..
      · exact burned_emit ..
    rw [Option.map_some, Option.map_some, hemit, hemit, hview]
  · rfl

/-- Every call but those of the keeper and a withdrawal shows alike on a deal and on the same deal
brought up to date. -/
theorem exec_view (hs : OnTerm s) (hf : s.funded = true) {call : DealCall}
    (hc : call ≠ .finalize ∧ call ≠ .settleWeek ∧ ∀ a, call ≠ .withdrawShell a) :
    ((s.upToDate now).exec caller now call).map (view now) =
      (s.begin.exec caller now call).map (view now) := by
  have hg : (s.upToDate now).toStage = s.toStage := s.upToDate_toStage now
  have hearly : call.early = true → ((s.upToDate now).exec caller now call).map (view now) =
      (s.begin.exec caller now call).map (view now) := by
    intro h
    rw [exec_early (by rw [hg]; exact hs.opened) (by rw [hg]; exact hf)
      (by rw [hg]; exact hs.accepted) h, exec_early (s := s.begin) hs.opened hf hs.accepted h]
  cases call with
  | fundFromOrderBook paid note pk flags => exact fundFromOrderBook_view hs hf paid note pk flags
  | postFromNote a b k f e => exact postFromNote_view hs hf a b k f e
  | onSellClosed =>
    have hsame : ∀ r : TokenContract, r.funded = true → r.onSellClosed caller = r :=
      fun r hr => if_pos (.inr hr)
    unfold exec
    rw [hsame _ (by rw [hg]; exact hf), hsame s.begin hf]
    exact congrArg some (hs.view_upToDate now)
  | claimTokens n => exact hs.claimTokens_view n
  | stop => exact congrArg (Option.map (view now)) hs.stop_upToDate
  | sellerStop => exact congrArg (Option.map (view now)) hs.sellerStop_upToDate
  | dispute => exact dispute_view hs
  | releaseDispute => exact congrArg (Option.map (view now)) hs.releaseDispute_upToDate
  | resolveDisputeTimeout => exact congrArg (Option.map (view now)) hs.resolveDisputeTimeout_upToDate
  | finalize => exact absurd rfl hc.1
  | settleWeek => exact absurd rfl hc.2.1
  | withdrawShell a => exact absurd rfl (hc.2.2 a)
  | _ => exact hearly rfl

/-- A withdrawal takes the same of a deal and of the same deal brought up to date. -/
theorem withdrawShell_taken (ho : s.opened = true) {a : ℕ}
    (h : s.begin.withdrawShell caller a = some u) : u.upToDate τ = (s.upToDate τ).taken a ∧
      (∀ p, u.credited p = if Payee.seller = p then a else 0) ∧ u.burned = 0 := by
  simp only [withdrawShell, bind_iff] at h
  obtain ⟨-, -, hle, t, ht, h⟩ := h
  obtain ⟨hk, hbal, hb, hterms, hburn, hcredit⟩ := payShell_inv ht
  have hto : t.opened = true := by
    rw [hk.stage]
    exact ho
  rw [if_neg fun hc => absurd (hto.symm.trans hc.2.1) (by decide)] at h
  cases h
  refine ⟨?_, ?_, ?_⟩
  · rw [← upToDate_taken ho hle]
    have hpurse : t.toPurse = s.toPurse.taken a := by
      rw [hk.purse, hb]
      rfl
    have hbare : t.bare = (s.taken a).bare := by
      obtain ⟨T, P, M, G, A⟩ := t
      obtain rfl := hterms
      obtain rfl := hk.meter
      obtain rfl := hk.stage
      obtain rfl := hpurse
      rfl
    exact upToDate_congr hbare hto τ
  · intro p
    rw [credited_emit, hcredit]
    exact Nat.zero_add _
  · rw [burned_emit, hburn]
    rfl

end TokenContract

end Dexdo
