import Dexdo.TokenContract.Reports

namespace Dexdo

/-- What a deal lets others know of its funding cycle: an event, an offer posted to the book, or a
close told to a note. -/
inductive Signal
  | event (e : DealEvent)
  | post
  | close
  deriving DecidableEq

def Signal.event? : Signal → Option DealEvent
  | .event e => some e
  | _ => none

/-- The events that belong to a funding cycle. -/
def DealEvent.isCycle : DealEvent → Bool
  | .streamFunded .. | .streamOpened .. | .tickFinalized .. | .streamStopped .. | .probeBurned ..
  | .streamDisputed .. | .disputeResolved .. | .contractDestroyed => true
  | _ => false

def DealAction.event? : DealAction → Option DealEvent
  | .event e => some e
  | _ => none

def DealAction.signal? : DealAction → Option Signal
  | .event e => if e.isCycle then some (.event e) else none
  | .placeSellOffer .. => some .post
  | .onDealClosed _ => some .close
  | _ => none

/-- The latches of a deal's funding cycle and what the transaction has told so far. -/
structure Talk where
  offerPosted : Bool
  funded : Bool
  opened : Bool
  disputed : Bool
  destroyed : Bool
  buyer : Option Addr
  told : List Signal

namespace Talk

def tell (k : Talk) (l : List Signal) : Talk := { k with told := k.told ++ l }

@[simp] theorem tell_nil (k : Talk) : k.tell [] = k := by simp [tell]

theorem tell_tell (k : Talk) (l l' : List Signal) : (k.tell l).tell l' = k.tell (l ++ l') := by
  simp [tell]

/-- The notes a close is told to: the seller's, and the buyer's if there is one. -/
def closes (k : Talk) : List Signal :=
  match k.buyer with
  | some _ => [.close, .close]
  | none => [.close]

/-- The end of the contract. -/
def die (k : Talk) : Talk :=
  { k.tell (k.closes ++ [.event .contractDestroyed]) with destroyed := true }

/-- The end of an opened deal, told by an event of its own. -/
def finish (k : Talk) (e : DealEvent) : Talk := { k.tell [.event e] with opened := false }.die

theorem finish_eq {k k' : Talk} (h : k' = { k with opened := false }) (e : DealEvent) :
    (k'.tell [.event e]).die = k.finish e := by
  subst h
  rfl

end Talk

namespace TokenContract

variable {s t u : TokenContract} {i : Input} {caller : Caller} {now : ℕ}

def talk (s : TokenContract) : Talk where
  offerPosted := s.offerPosted
  funded := s.funded
  opened := s.opened
  disputed := s.disputed
  destroyed := s.destroyed
  buyer := s.buyer
  told := s.actions.filterMap DealAction.signal?

section Flows

variable (s : TokenContract)

theorem talk_act (a : DealAction) : (s.act a).talk = s.talk.tell a.signal?.toList := by
  cases h : a.signal? <;> simp [talk, Talk.tell, h]

@[simp] theorem talk_setPurse (p : Purse) : (s.setPurse p).talk = s.talk := rfl
@[simp] theorem talk_setMeter (m : Meter) : (s.setMeter m).talk = s.talk := rfl

theorem talk_emit {e : DealEvent} (h : e.isCycle = true) :
    (s.emit e).talk = s.talk.tell [.event e] := by
  refine (s.talk_act _).trans ?_
  simp [DealAction.signal?, h]

theorem talk_emit_quiet {e : DealEvent} (h : e.isCycle = false) : (s.emit e).talk = s.talk := by
  refine (s.talk_act _).trans ?_
  simp [DealAction.signal?, h]

theorem talk_announceClose : s.announceClose.talk = s.talk.tell s.talk.closes := by
  have hb : s.talk.buyer = s.buyer := rfl
  unfold announceClose Talk.closes
  rw [hb]
  cases s.buyer with
  | none => exact s.talk_act _
  | some =>
    refine (talk_act _ _).trans ?_
    rw [talk_act, Talk.tell_tell]
    rfl

theorem talk_die : s.die.talk = s.talk.die := by
  cases h : s.buyer <;>
    simp [die, announceClose, emit, talk, Talk.die, Talk.tell, Talk.closes, h,
      DealAction.signal?, DealEvent.isCycle]

@[simp] theorem talk_reportFinalized : s.reportFinalized.talk = s.talk := by
  unfold reportFinalized
  split_ifs
  · rfl
  · exact (s.talk_act _).trans (Talk.tell_nil _)

@[simp] theorem talk_chargeWeeks (n : ℕ) : (chargeWeeks n s).talk = s.talk := by
  induction n generalizing s with
  | zero => rfl
  | succ n ih => exact ih s.chargeWeek

@[simp] theorem talk_chargeWeeksThrough (e : ℕ) : (s.chargeWeeksThrough e).talk = s.talk := by
  obtain ⟨n, hn⟩ := s.chargeWeeksThrough_eq e
  rw [hn, talk_chargeWeeks]

theorem talk_settleBoundaries (due : ℕ) : (s.settleBoundaries due).talk = s.talk ∨
    ∃ a b, (s.settleBoundaries due).talk = s.talk.tell [.event (.tickFinalized a b)] := by
  unfold settleBoundaries
  split_ifs
  · exact .inl rfl
  · right
    refine ⟨(s.chargeWeeksThrough due).finalizedOwed, (s.chargeWeeksThrough due).deposit, ?_⟩
    dsimp only
    rw [talk_reportFinalized, talk_setMeter, talk_emit _ rfl, talk_chargeWeeksThrough]

end Flows

theorem talk_receive {a : ℕ} (h : s.receive a = some u) : u.talk = s.talk := by
  rw [receive_inv h, talk_setPurse]

theorem talk_payShell {p : Payee} {d : Addr} {a : ℕ} (h : s.payShell p d a = some u) :
    u.talk = s.talk := by
  unfold payShell at h
  split_ifs at h
  · rw [Option.some.inj h]
  · obtain ⟨b, -, h⟩ := of_bind h
    cases h
    exact (talk_act _ _).trans (Talk.tell_nil _)

theorem talk_burnShell {a : ℕ} (h : s.burnShell a = some u) : u.talk = s.talk := by
  unfold burnShell at h
  split_ifs at h
  · rw [Option.some.inj h]
  · obtain ⟨b, -, h⟩ := of_bind h
    cases h
    exact (talk_act _ _).trans (Talk.tell_nil _)

theorem talk_forfeitBonds {b x : ℕ} (h : s.forfeitBonds b x = some u) : u.talk = s.talk :=
  (talk_burnShell h).trans (talk_setPurse ..)

theorem talk_sweepAndDie (h : s.sweepAndDie = some u) : u.talk = s.talk.die := by
  obtain ⟨t, ht, h⟩ := of_bind h
  cases h
  rw [talk_die, talk_payShell ht]

theorem talk_payOwedAndDie (h : s.payOwedAndDie = some u) : u.talk = s.talk.die := by
  obtain ⟨t, ht, h⟩ := of_bind h
  rw [talk_sweepAndDie (show t.sweepAndDie = some u from h), talk_payShell ht, talk_setPurse]

theorem talk_settleFees {clean : Bool} (h : s.settleFees clean = some u) : u.talk = s.talk := by
  obtain ⟨t, ht, h⟩ := of_bind h
  cases h
  rw [talk_reportFinalized, talk_setPurse, talk_burnShell ht, talk_setPurse]

theorem talk_returnBond (h : s.returnBond = some u) : u.talk = s.talk := by
  unfold returnBond at h
  dsimp only at h
  split_ifs at h
  · rw [Option.some.inj h]
  · exact (talk_payShell h).trans rfl

theorem talk_refundUnopened (h : s.refundUnopened = some u) :
    u.talk = { s.talk with funded := false } := by
  unfold refundUnopened at h
  split_ifs at h with hf
  · cases h
    rw [← hf]
    rfl
  · exact (talk_payShell h).trans rfl

theorem talk_finish {clean : Bool} {refund : ℕ} {e : TokenContract → DealEvent}
    (he : ∀ s, (e s).isCycle = true)
    (h : (do
      let s ← s.settleFees clean
      let s ← s.payShell .buyer s.buyerAddr refund
      (s.emit (e s)).payOwedAndDie) = some u) :
    ∃ t, u.talk = (s.talk.tell [.event (e t)]).die := by
  simp only [bind_iff] at h
  obtain ⟨t, ht, v, hv, h⟩ := h
  refine ⟨v, ?_⟩
  rw [talk_payOwedAndDie h, talk_emit _ (he v), talk_payShell hv, talk_settleFees ht]

theorem talk_closeClean (h : s.closeClean = some u) :
    ∃ b x r, u.talk = s.talk.finish (.streamStopped b x r) := by
  obtain ⟨t, ht⟩ := talk_finish (fun _ => rfl) h
  refine ⟨_, _, _, ht.trans (Talk.finish_eq (k := s.talk) ?_ _)⟩
  rfl

theorem talk_payFinalAndClose (h : s.payFinalAndClose = some u) :
    ∃ b x r, u.talk = s.talk.finish (.streamStopped b x r) := by
  obtain ⟨b, x, r, hu⟩ := talk_closeClean h
  refine ⟨b, x, r, ?_⟩
  rw [hu]
  split_ifs <;> rfl

theorem talk_settleTrustedAndClose {b x : ℕ} (h : s.settleTrustedAndClose b x = some u) :
    ∃ p r f, u.talk = s.talk.finish (.disputeResolved p r f) := by
  obtain ⟨e, he, h⟩ := of_bind h
  obtain ⟨f, hf, h⟩ := of_bind h
  obtain ⟨kept, -, h⟩ := of_bind h
  obtain ⟨g, hg, h⟩ := of_bind h
  have hpast : g.talk = s.talk := by
    rw [talk_burnShell hg, talk_forfeitBonds hf, talk_setMeter, talk_setPurse,
      talk_chargeWeeksThrough, talk_setPurse]
  obtain ⟨t, ht⟩ := talk_finish (fun _ => rfl) h
  refine ⟨_, _, _, ht.trans (Talk.finish_eq ?_ _)⟩
  rw [← hpast]
  rfl

theorem talk_stopProbe (h : s.stopProbe = some u) :
    ∃ b p w r, u.talk = s.talk.finish (.probeBurned b p w r) := by
  simp only [stopProbe, bind_iff] at h
  obtain ⟨t, ht, v, hv, h⟩ := h
  refine ⟨v.buyerAddr, v.pricePerTick, min s.probeTick s.sellerBond, s.deposit + s.buyerBond, ?_⟩
  rw [talk_payOwedAndDie h, talk_emit _ rfl, talk_payShell hv, talk_burnShell ht]
  rfl

/-- The event an opened deal ends with. A deal that only stops is not in dispute. -/
inductive LastEvent (s : TokenContract) : DealEvent → Prop
  | stopped (b x r) (hd : s.disputed = false) : LastEvent s (.streamStopped b x r)
  | burned (b p w r) (hd : s.disputed = false) : LastEvent s (.probeBurned b p w r)
  | resolved (x r f) : LastEvent s (.disputeResolved x r f)

/-- What a transaction tells of the funding cycle, by what becomes of its latches. -/
inductive Told (s : TokenContract) (i : Input) (k : Talk) : Prop
  | nothing (h : k = { s.talk with told := [] })
  | unposted (hb : s.fromBook i.caller = true) (hc : i.call = .onSellClosed)
      (hf : s.funded = false) (h : k = { s.talk with offerPosted := false, told := [] })
  | posted (hp : s.offerPosted = false) (hf : s.funded = false)
      (h : k = { s.talk with offerPosted := true, told := [.post] })
  | matched (paid note pk flags) (hb : s.fromBook i.caller = true)
      (hc : i.call = .fundFromOrderBook paid note pk flags) (hf : s.funded = false)
      (h : k = { s.talk with
        funded := true
        offerPosted := false
        buyer := some note
        told := [.event (.streamFunded note (paid - s.matchBond flags))] })
  | opened (b p) (hf : s.funded = true) (ho : s.opened = false)
      (h : k = { s.talk with opened := true, told := [.event (.streamOpened b p)] })
  | ticked (a b) (ho : s.opened = true)
      (h : k = { s.talk with told := [.event (.tickFinalized a b)] })
  | disputed (b) (ho : s.opened = true) (hd : s.disputed = false)
      (h : k = { s.talk with disputed := true, told := [.event (.streamDisputed b i.now)] })
  | cleaned (hf : s.funded = true) (ho : s.opened = false)
      (h : k = { s.talk with funded := false, offerPosted := false, told := s.talk.closes })
  | ended (l e) (ho : s.opened = true) (he : LastEvent s e)
      (hl : l = [] ∨ ∃ a b, l = [.event (.tickFinalized a b)]) (hd : k.destroyed = true)
      (h : k.told = l ++ .event e :: (s.talk.closes ++ [.event .contractDestroyed]))
  | released (hc : i.call = .close ∧ s.funded = false ∨ i.call = .destroy)
      (ho : s.opened = false) (hp : s.offerPosted = false) (hd : k.destroyed = true)
      (h : k.told = s.talk.closes ++ [.event .contractDestroyed])

theorem Told.finished {l : List Signal} {e : DealEvent} {k k' : Talk} (ho : s.opened = true)
    (he : LastEvent s e) (hl : l = [] ∨ ∃ a b, l = [.event (.tickFinalized a b)])
    (hk : k'.buyer = s.buyer ∧ k'.told = l) (h : k = k'.finish e) : Told s i k := by
  obtain ⟨hb, ht⟩ := hk
  subst h
  refine .ended l e ho he hl rfl ?_
  simp [Talk.finish, Talk.die, Talk.tell, Talk.closes, hb, ht, talk]

theorem fundFromOrderBook_told {paid pk flags : ℕ} {note : Addr}
    (h : s.begin.fundFromOrderBook caller now paid note pk flags = some u) :
    Told s ⟨caller, now, .fundFromOrderBook paid note pk flags⟩ u.talk := by
  unfold fundFromOrderBook at h
  split_ifs at h with h0 h1 h2
  · cases h
    exact .nothing rfl
  · cases h
    exact .nothing rfl
  · have hfrom : s.fromBook caller = true := by
      have hb : caller.isSender s.orderBook = true := Bool.of_not_eq_false h2
      have hh : s.iobHash ≠ 0 := h1
      simp [fromBook, hb, hh]
    obtain ⟨v, hv, h⟩ := of_bind h
    obtain rfl := receive_inv hv
    dsimp only at h
    split_ifs at h with h3
    · obtain ⟨-, -, h⟩ := of_bind h
      cases h
      exact .matched paid note pk flags hfrom rfl h3.1 rfl
    · apply Told.nothing
      rw [talk_payShell h]
      rfl

theorem postFromNote_told {h d n f dl : ℕ} (hu : s.begin.postFromNote caller h d n f dl = some u) :
    Told s ⟨caller, now, .postFromNote h d n f dl⟩ u.talk := by
  simp only [postFromNote, bind_iff] at hu
  obtain ⟨-, -, hu⟩ := hu
  split_ifs at hu with h0
  · cases hu
    exact .nothing rfl
  · cases hu
    apply Told.posted
    · by_contra hp
      exact h0 (.inl (by simpa using hp))
    · by_contra hf
      exact h0 (.inr (by simpa using hf))
    · rfl

theorem onSellClosed_told : Told s ⟨caller, now, .onSellClosed⟩ (s.begin.onSellClosed caller).talk := by
  unfold onSellClosed
  split_ifs with h0
  · exact .nothing rfl
  · apply Told.unposted
    · by_contra hb
      exact h0 (.inl hb)
    · rfl
    · by_contra hf
      exact h0 (.inr (by simpa using hf))
    · rfl

theorem close_told (hs : Sane s) (h : s.begin.close caller = some u) :
    Told s ⟨caller, now, .close⟩ u.talk := by
  simp only [close, bind_iff] at h
  obtain ⟨-, hf, hp, t, ht, h⟩ := h
  have hf' : s.funded = false := hf
  have hk := talk_sweepAndDie h
  rw [talk_returnBond ht] at hk
  rw [hk]
  exact .released (.inl ⟨rfl, hf'⟩) (hs.unfunded hf').1 hp rfl rfl

theorem destroy_told (h : s.begin.destroy caller = some u) :
    Told s ⟨caller, now, .destroy⟩ u.talk := by
  simp only [destroy, bind_iff] at h
  obtain ⟨-, ho, -, hp, t, ht, v, hv, h⟩ := h
  have hk := talk_sweepAndDie h
  rw [talk_returnBond hv, talk_refundUnopened ht] at hk
  rw [hk]
  exact .released (.inr rfl) ho hp rfl rfl

theorem fundDeal_told {amount : ℕ} {c : Option (List ℕ)}
    (h : s.begin.fundDeal caller amount c = some u) :
    Told s ⟨caller, now, .fundDeal amount c⟩ u.talk := by
  simp only [fundDeal, bind_iff] at h
  obtain ⟨-, -, -, -, v, hv, -, w, hw, h⟩ := h
  cases h
  have hkept : w.talk = s.begin.talk := by
    rw [talk_payShell hw, ← talk_receive hv]
    rfl
  apply Told.nothing
  cases c with
  | none => exact (talk_emit_quiet _ rfl).trans hkept
  | some =>
    refine (talk_emit_quiet _ rfl).trans ?_
    exact (talk_emit_quiet w rfl).trans hkept

theorem fundBuyerBond_told {amount : ℕ} (h : s.begin.fundBuyerBond caller amount = some u) :
    Told s ⟨caller, now, .fundBuyerBond amount⟩ u.talk := by
  simp only [fundBuyerBond, bind_iff] at h
  obtain ⟨-, -, -, -, v, hv, -, w, hw, h⟩ := h
  cases h
  apply Told.nothing
  rw [talk_emit_quiet _ rfl, talk_payShell hw]
  exact talk_receive hv

theorem openDeal_told {c : List ℕ} (h : s.begin.openDeal caller now c = some u) :
    Told s ⟨caller, now, .openDeal c⟩ u.talk := by
  simp only [openDeal, bind_iff, pure_iff] at h
  obtain ⟨-, hf, ho, -, -, -, rfl⟩ := h
  exact .opened s.buyerAddr s.pricePerTick hf ho rfl

theorem acceptProbe_told (h : s.begin.acceptProbe caller now = some u) :
    Told s ⟨caller, now, .acceptProbe⟩ u.talk := by
  simp only [acceptProbe, bind_iff, pure_iff] at h
  obtain ⟨-, -, -, -, -, rfl⟩ := h
  exact .nothing rfl

theorem Told.boundaries (ho : s.opened = true) {due : ℕ}
    (h : u.talk = (s.begin.settleBoundaries due).talk) : Told s i u.talk := by
  rcases s.begin.talk_settleBoundaries due with hd | ⟨a, b, hd⟩
  · exact .nothing (h.trans hd)
  · exact .ticked a b ho (h.trans hd)

theorem claimTokens_told {n : ℕ} (h : s.begin.claimTokens caller now n = some u) :
    Told s ⟨caller, now, .claimTokens n⟩ u.talk := by
  simp only [claimTokens, bind_iff] at h
  obtain ⟨-, ho, -, -, -, h⟩ := h
  split_ifs at h
  · cases h
    exact .nothing rfl
  · obtain ⟨due, -, h⟩ := of_bind h
    simp only [pendClaim, bind_iff, pure_iff] at h
    obtain ⟨-, -, rfl⟩ := h
    exact Told.boundaries ho (talk_emit_quiet _ rfl)

theorem finalize_told (h : s.begin.finalize now = some u) :
    Told s ⟨caller, now, .finalize⟩ u.talk := by
  simp only [finalize, bind_iff] at h
  obtain ⟨⟨ho, hd⟩, -, h⟩ := h
  split_ifs at h
  · obtain ⟨b, x, r, hu⟩ := talk_payFinalAndClose h
    exact Told.finished ho (.stopped b x r hd) (.inl rfl) ⟨rfl, rfl⟩ hu
  · cases h
    exact .nothing rfl

theorem settleWeek_told (h : s.begin.settleWeek now = some u) :
    Told s ⟨caller, now, .settleWeek⟩ u.talk := by
  simp only [settleWeek, bind_iff] at h
  obtain ⟨-, ⟨ho, hd⟩, -, due, -, -, h⟩ := h
  split_ifs at h
  · obtain ⟨b, x, r, hu⟩ := talk_payFinalAndClose h
    rw [talk_setMeter] at hu
    rcases s.begin.talk_settleBoundaries due with ht | ⟨y, z, ht⟩
    · rw [ht] at hu
      exact Told.finished ho (.stopped b x r hd) (.inl rfl) ⟨rfl, rfl⟩ hu
    · rw [ht] at hu
      exact Told.finished ho (.stopped b x r hd) (.inr ⟨y, z, rfl⟩) ⟨rfl, rfl⟩ hu
  · cases h
    exact Told.boundaries ho rfl

theorem stop_told (h : s.begin.stop caller now = some u) : Told s ⟨caller, now, .stop⟩ u.talk := by
  simp only [stop, bind_iff] at h
  obtain ⟨ho, -, hd, h⟩ := h
  split_ifs at h
  · obtain ⟨b, p, w, r, hu⟩ := talk_stopProbe h
    exact Told.finished ho (.burned b p w r hd) (.inl rfl) ⟨rfl, rfl⟩ hu
  · obtain ⟨t, ht, h⟩ := of_bind h
    cases ht
    obtain ⟨e, -, h⟩ := of_bind h
    obtain ⟨b, x, r, hu⟩ := talk_payFinalAndClose h
    rw [talk_chargeWeeksThrough] at hu
    exact Told.finished ho (.stopped b x r hd) (.inl rfl) ⟨rfl, rfl⟩ hu
  · obtain ⟨t, ht, h⟩ := of_bind h
    obtain ⟨e, -, h⟩ := of_bind h
    obtain ⟨b, x, r, hu⟩ := talk_payFinalAndClose h
    rw [talk_chargeWeeksThrough, talk_forfeitBonds ht] at hu
    exact Told.finished ho (.stopped b x r hd) (.inl rfl) ⟨rfl, rfl⟩ hu

theorem talk_sellerForfeit (h : s.sellerForfeit now = some u) : u.talk = s.talk := by
  have htail : ∀ t : TokenContract, t.talk = s.talk → (do
      let r := t.setMeter (t.toMeter.promoteDue now)
      if r.probeAccepted = true ∧ r.isSubscription = false then
        (r.setMeter { r.toMeter with tokensPend := r.tokensFinal }).forfeitBonds 0 r.pricePerTick
      else return r) = some u → u.talk = s.talk := by
    intro t ht hu
    dsimp only at hu
    split_ifs at hu
    · rw [talk_forfeitBonds hu, talk_setMeter, talk_setMeter, ht]
    · cases hu
      exact ht
  unfold sellerForfeit at h
  dsimp only at h
  split_ifs at h
  · exact htail s rfl h
  · obtain ⟨t, ht, h⟩ := of_bind h
    exact htail t (talk_forfeitBonds ht) h

theorem sellerStop_told (h : s.begin.sellerStop caller now = some u) :
    Told s ⟨caller, now, .sellerStop⟩ u.talk := by
  simp only [sellerStop, bind_iff] at h
  obtain ⟨-, ho, hd, t, ht, e, -, h⟩ := h
  obtain ⟨b, x, r, hu⟩ := talk_payFinalAndClose h
  rw [talk_chargeWeeksThrough, talk_sellerForfeit ht] at hu
  exact Told.finished ho (.stopped b x r hd) (.inl rfl) ⟨rfl, rfl⟩ hu

theorem dispute_told (h : s.begin.dispute caller now = some u) :
    Told s ⟨caller, now, .dispute⟩ u.talk := by
  simp only [dispute, bind_iff, pure_iff] at h
  obtain ⟨ho, -, hd, rfl⟩ := h
  exact .disputed s.buyerAddr ho hd rfl

theorem talk_endDispute (s : TokenContract) (e : ℕ) :
    (s.chargeWeeksThrough e).endDispute.talk = { s.talk with disputed := false } :=
  congrArg (fun k : Talk => { k with disputed := false }) (s.talk_chargeWeeksThrough e)

theorem Told.resolved (hs : Sane s) (hd : s.disputed = true) 
    (ht : t.talk = { s.begin.talk with disputed := false }) {b x : ℕ}
    (h : t.settleTrustedAndClose b x = some u) : Told s i u.talk := by
  have ho : s.opened = true := by
    by_contra hn
    have hn' := (hs.unopened (by simpa using hn)).2.1
    exact absurd (hd.symm.trans hn') (by decide)
  obtain ⟨p, r, f, hu⟩ := talk_settleTrustedAndClose h
  rw [ht] at hu
  exact Told.finished ho (.resolved p r f) (.inl rfl) ⟨rfl, rfl⟩ hu

theorem releaseDispute_told (hs : Sane s) (h : s.begin.releaseDispute caller = some u) :
    Told s ⟨caller, now, .releaseDispute⟩ u.talk := by
  simp only [releaseDispute, bind_iff] at h
  obtain ⟨-, hd, e, -, h⟩ := h
  have hk := s.begin.talk_endDispute e
  split_ifs at h
  · exact Told.resolved hs hd hk h
  · exact Told.resolved hs hd hk h

theorem resolveDisputeTimeout_told (hs : Sane s) (h : s.begin.resolveDisputeTimeout now = some u) :
    Told s ⟨caller, now, .resolveDisputeTimeout⟩ u.talk := by
  simp only [resolveDisputeTimeout, bind_iff] at h
  obtain ⟨hd, -, e, -, h⟩ := h
  have hk := s.begin.talk_endDispute e
  split_ifs at h
  · exact Told.resolved hs hd hk h
  · obtain ⟨t, ht, h⟩ := of_bind h
    exact Told.resolved hs hd ((talk_burnShell ht).trans hk) h

theorem cleanupUnopened_told (h : s.begin.cleanupUnopened caller now = some u) :
    Told s ⟨caller, now, .cleanupUnopened⟩ u.talk := by
  simp only [cleanupUnopened, bind_iff, pure_iff] at h
  obtain ⟨hf, ho, -, -, t, ht, v, hv, w, hw, rfl⟩ := h
  refine .cleaned hf ho ?_
  rw [talk_announceClose, talk_burnShell hw, talk_payShell hv, talk_payShell ht]
  rfl

theorem withdrawShell_told (hs : Sane s) {a : ℕ} (h : s.begin.withdrawShell caller a = some u) :
    Told s ⟨caller, now, .withdrawShell a⟩ u.talk := by
  simp only [withdrawShell, bind_iff] at h
  obtain ⟨-, hpos, hle, t, ht, h⟩ := h
  have hk : t.talk = s.begin.talk := by
    rw [talk_payShell ht]
    rfl
  split_ifs at h with h1
  · -- nothing is owed by a deal that is not open
    have ho : s.opened = false := (congrArg Talk.opened hk).symm.trans h1.2.1
    have hn := (hs.unaccepted (hs.unopened ho).1).1
    have hle' : a ≤ s.finalizedOwed := hle
    omega
  · cases h
    exact .nothing ((talk_emit_quiet _ rfl).trans hk)

theorem step_told (hs : Sane s) (h : s.step i = some u) : Told s i u.talk := by
  have hx := step_exec h
  obtain ⟨caller, now, call⟩ := i
  cases call with
  | fundFromOrderBook => exact fundFromOrderBook_told hx
  | postFromNote => exact postFromNote_told hx
  | onSellClosed =>
    cases hx
    exact onSellClosed_told
  | close => exact close_told hs hx
  | fundDeal => exact fundDeal_told hx
  | fundBuyerBond => exact fundBuyerBond_told hx
  | openDeal => exact openDeal_told hx
  | acceptProbe => exact acceptProbe_told hx
  | claimTokens => exact claimTokens_told hx
  | finalize => exact finalize_told hx
  | settleWeek => exact settleWeek_told hx
  | stop => exact stop_told hx
  | sellerStop => exact sellerStop_told hx
  | dispute => exact dispute_told hx
  | releaseDispute => exact releaseDispute_told hs hx
  | resolveDisputeTimeout => exact resolveDisputeTimeout_told hs hx
  | cleanupUnopened => exact cleanupUnopened_told hx
  | withdrawShell => exact withdrawShell_told hs hx
  | destroy => exact destroy_told hx

end TokenContract

end Dexdo
