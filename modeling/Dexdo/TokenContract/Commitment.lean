import Dexdo.PrivateNote.Entry
import Dexdo.TokenContract.Earmarks

namespace Dexdo

namespace Commitment

/-- A deal, a note, and the calls of the note on their way to the deal. -/
structure Pact where
  note : PrivateNote
  deal : TokenContract
  mail : List DealCall
  now : ℕ

/-- The note processes a message; one of its calls reaches the deal or is lost on the way; someone
else calls the deal; time passes. -/
inductive Move
  | note (caller : Caller) (currencies : ℕ → ℕ) (call : NoteCall)
  | deliver (k : ℕ)
  | lose (k : ℕ)
  | other (caller : Caller) (call : DealCall)
  | wait (seconds : ℕ)

namespace Pact

variable (p : Pact)

def noteAddr : Addr := .note p.note.depositIdentifierHash

def dealAddr : Addr := .deal p.deal.sellerPubkey p.deal.nonce

/-- The calls of a note transaction that go to the deal. -/
def callsTo (deal : Addr) (actions : List NoteAction) : List DealCall :=
  actions.filterMap fun
    | .deal dest call _ => if dest = deal then some call else none
    | _ => none

/-- The deal after a message; a message it refuses leaves it as it is. -/
def hears (i : TokenContract.Input) : TokenContract := (p.deal.step i).getD p.deal

/-- The message that a move brings to the deal. -/
def message : Move → Option TokenContract.Input
  | .deliver k => p.mail[k]?.map fun call => ⟨.internal p.noteAddr, p.now, call⟩
  | .other caller call => some ⟨caller, p.now, call⟩
  | _ => none

def step : Move → Option Pact
  | .note caller currencies call => do
    let note ← p.note.step ⟨⟨caller, p.now, currencies⟩, call⟩
    return { p with note := note, mail := p.mail ++ callsTo p.dealAddr note.actions }
  | .deliver k => do
    let call ← p.mail[k]?
    return { p with
      deal := p.hears ⟨.internal p.noteAddr, p.now, call⟩
      mail := p.mail.eraseIdx k }
  | .lose k => some { p with mail := p.mail.eraseIdx k }
  | .other caller call =>
    if caller = .internal p.noteAddr then none
    else some { p with deal := p.hears ⟨caller, p.now, call⟩ }
  | .wait seconds => some { p with now := p.now + seconds }

/-- The deal waits for its seller: the note has funded it, it was not opened yet, and the time to
open it has not run out. -/
structure Waiting : Prop where
  live : p.deal.destroyed = false
  funded : p.deal.funded = true
  unopened : p.deal.opened = false
  buyer : p.deal.buyer = some p.noteAddr
  inTime : p.now < p.deal.fundedTime + MATCH_OPEN_TIMEOUT

end Pact

/-- The funding of a deal that is not opened stays. -/
structure FundingKept (d d' : TokenContract) : Prop where
  live : d'.destroyed = false
  funded : d'.funded = true
  unopened : d'.opened = false
  buyer : d'.buyer = d.buyer
  deposit : d'.deposit = d.deposit
  fundedTime : d'.fundedTime = d.fundedTime
  bond : d.buyerBondFunded = true → d'.buyerBondFunded = true ∧ d'.buyerBond = d.buyerBond

theorem FundingKept.refl {d : TokenContract} (hlive : d.destroyed = false) (hf : d.funded = true)
    (ho : d.opened = false) : FundingKept d d :=
  ⟨hlive, hf, ho, rfl, rfl, rfl, fun h => ⟨h, rfl⟩⟩

/-- The seller, by his key, opens the deal. -/
def Opens (d : TokenContract) (i : TokenContract.Input) (d' : TokenContract) : Prop :=
  (∃ cipher, i.call = .openDeal cipher) ∧ i.caller.pubkey = d.sellerPubkey ∧ d'.opened = true

/-- The seller, by his key, destroys the deal, and its buyer gets everything back. -/
def Refunds (d : TokenContract) (i : TokenContract.Input) (d' : TokenContract) : Prop :=
  i.call = .destroy ∧ i.caller.pubkey = d.sellerPubkey ∧ d'.destroyed = true ∧
    d'.credited .buyer = d.deposit + d.buyerBond

section Step

open TokenContract

variable {d d' : TokenContract} {i : Input}

theorem open_key (h : d.step i = some d') {cipher : List ℕ} (hc : i.call = .openDeal cipher) :
    i.caller.pubkey = d.sellerPubkey := by
  rw [TokenContract.step] at h
  split at h
  · cases h
  · rw [hc] at h
    simp only [exec, openDeal, bind_iff] at h
    exact h.1

theorem destroy_key (h : d.step i = some d') (hc : i.call = .destroy) :
    i.caller.pubkey = d.sellerPubkey := by
  rw [TokenContract.step] at h
  split at h
  · cases h
  · rw [hc] at h
    simp only [exec, destroy, bind_iff] at h
    exact h.1

theorem cleanup_caller (h : d.step i = some d') (hc : i.call = .cleanupUnopened)
    (ht : i.now < d.fundedTime + MATCH_OPEN_TIMEOUT) : d.fromBuyer i.caller = true := by
  rw [TokenContract.step] at h
  split at h
  · cases h
  · rw [hc] at h
    simp only [exec, cleanupUnopened, bind_iff] at h
    rcases h.2.2.2.1 with hb | hb
    · exact hb
    · exact absurd ht (Nat.not_lt.mpr hb)

/-- What a message can do to the funding of a deal that waits for its seller. -/
theorem waiting_step (hs : Sane d) (hf : d.funded = true) (ho : d.opened = false)
    (ht : i.now < d.fundedTime + MATCH_OPEN_TIMEOUT) (h : d.step i = some d') :
    FundingKept d d' ∨ Opens d i d' ∨ Refunds d i d' ∨
      (i.call = .cleanupUnopened ∧ d.fromBuyer i.caller = true) := by
  obtain ⟨hlive, he⟩ := step_effect hs h
  have hopen : ¬ d.opened = true := by simp [ho]
  cases he with
  | quiet hc hin hxn hp hm hg hpay =>
    left
    constructor <;> simp [*]
  | bounced hc ht hxn hp hm hg hpay =>
    left
    constructor <;> simp [*]
  | matched hc hb hin ht =>
    rw [ht.1] at hf
    cases hf
  | sellerBonded hc hin ho hf' hn hp hm hg hpay =>
    left
    constructor <;> simp [*]
  | buyerBonded hc hb ho hf' hn hp hm hg hpay =>
    left
    constructor <;> simp [*]
  | opened hc hf ho hx hb hd hp hm hg =>
    right
    left
    refine ⟨hc, ?_, by simp [hg]⟩
    obtain ⟨cipher, hc⟩ := hc
    exact open_key h hc
  | cleaned hc => exact .inr (.inr (.inr ⟨hc, cleanup_caller h hc ht⟩))
  | freed hc ho hcl =>
    rcases hc with ⟨-, hf'⟩ | hc
    · rw [hf'] at hf
      cases hf
    · refine .inr (.inr (.inl ⟨hc, destroy_key h hc, hcl.destroyed, ?_⟩))
      rw [hcl.moved.buyer, if_pos hf]
      exact Nat.zero_add _
  | accepted hc ho' => exact absurd ho' hopen
  | claimed hc ho' => exact absurd ho' hopen
  | promoted hc ho' => exact absurd ho' hopen
  | crossed hc hsub ho' => exact absurd ho' hopen
  | disputed hc ho' => exact absurd ho' hopen
  | withdrawn hc ho' => exact absurd ho' hopen
  | ended hin hxn ho' => exact absurd ho' hopen

end Step

/-- What the pact promises of a move while the deal waits: the funding stays, or the seller opens
the deal, or the seller destroys it and the buyer gets everything back. Nothing is said of the
buyer's own clean-up. -/
def Committed (p : Pact) (m : Move) (p' : Pact) : Prop :=
  p.Waiting → FundingKept p.deal p'.deal ∨
    (∃ i, p.message m = some i ∧ (Opens p.deal i p'.deal ∨ Refunds p.deal i p'.deal)) ∨
      ∃ k, m = .deliver k ∧ p.mail[k]? = some .cleanupUnopened

variable {note : PrivateNote} {terms : Terms} {now : ℕ} {p p' : Pact} {m : Move}
  {tr : List (Move × Pact)}

theorem hears_sane {i : TokenContract.Input} (hs : p.deal.destroyed = false → p.deal.Sane)
    (hl : (p.hears i).destroyed = false) : (p.hears i).Sane := by
  rw [Pact.hears] at hl ⊢
  cases h : p.deal.step i with
  | none =>
    rw [h] at hl
    exact hs hl
  | some =>
    rw [h] at hl
    exact TokenContract.step_sane (hs (TokenContract.step_live h)) h hl

theorem step_deal (h : p.step m = some p') :
    p'.deal = match p.message m with
      | some i => p.hears i
      | none => p.deal := by
  cases m with
  | note =>
    simp only [Pact.step, Option.bind_eq_bind, Option.bind_eq_some_iff, Option.pure_def] at h
    obtain ⟨n, -, h⟩ := h
    cases h
    rfl
  | deliver =>
    simp only [Pact.step, Option.bind_eq_bind, Option.bind_eq_some_iff, Option.pure_def] at h
    obtain ⟨call, hcall, h⟩ := h
    cases h
    simp only [Pact.message, hcall, Option.map_some]
  | lose =>
    cases h
    rfl
  | other =>
    simp only [Pact.step] at h
    split at h
    · cases h
    · cases h
      rfl
  | wait =>
    cases h
    rfl

theorem run_sane (ht : terms.Valid) (h : Run Pact.step ⟨note, .init terms, [], now⟩ tr p) :
    p.deal.destroyed = false → p.deal.Sane := by
  refine h.state_invariant (fun p => p.deal.destroyed = false → p.deal.Sane) ?_ ?_
  · exact fun _ => TokenContract.init_sane ht
  · intro p m p' hs hm hl
    have hdeal := step_deal hm
    cases hmsg : p.message m with
    | none =>
      rw [hmsg] at hdeal
      rw [hdeal] at hl ⊢
      exact hs hl
    | some =>
      rw [hmsg] at hdeal
      rw [hdeal] at hl ⊢
      exact hears_sane hs hl

theorem cleanup_delivered {i : TokenContract.Input} (hw : p.Waiting) (h : p.step m = some p')
    (hi : p.message m = some i) (hc : i.call = .cleanupUnopened)
    (hb : p.deal.fromBuyer i.caller = true) :
    ∃ k, m = .deliver k ∧ p.mail[k]? = some .cleanupUnopened := by
  cases m with
  | deliver k =>
    obtain ⟨call, hcall, rfl⟩ := Option.map_eq_some_iff.mp hi
    exact ⟨k, rfl, hcall.trans (congrArg some hc)⟩
  | other caller =>
    cases hi
    simp only [TokenContract.fromBuyer, hw.buyer] at hb
    cases caller with
    | internal =>
      obtain rfl := of_decide_eq_true hb
      simp [Pact.step] at h
    | external => cases hb
  | _ => cases hi

theorem message_now {i : TokenContract.Input} (hi : p.message m = some i) : i.now = p.now := by
  cases m with
  | deliver =>
    obtain ⟨call, -, rfl⟩ := Option.map_eq_some_iff.mp hi
    rfl
  | other =>
    cases hi
    rfl
  | _ => cases hi

theorem committed_step (hs : p.deal.destroyed = false → p.deal.Sane) (h : p.step m = some p') :
    Committed p m p' := by
  intro hw
  have hkept := FundingKept.refl hw.live hw.funded hw.unopened
  have hdeal := step_deal h
  cases hi : p.message m with
  | none =>
    rw [hi] at hdeal
    rw [hdeal]
    exact .inl hkept
  | some i =>
    rw [hi] at hdeal
    change p'.deal = (p.deal.step i).getD p.deal at hdeal
    cases hstep : p.deal.step i with
    | none =>
      rw [hstep] at hdeal
      rw [hdeal]
      exact .inl hkept
    | some =>
      rw [hstep] at hdeal
      rw [hdeal]
      have hin := hw.inTime
      rw [← message_now hi] at hin
      rcases waiting_step (hs hw.live) hw.funded hw.unopened hin hstep with hk | ho | hr | ⟨hc, hb⟩
      · exact .inl hk
      · exact .inr (.inl ⟨i, rfl, .inl ho⟩)
      · exact .inr (.inl ⟨i, rfl, .inr hr⟩)
      · exact .inr (.inr (cleanup_delivered hw h hi hc hb))

/-- A match is a commitment until its time has run out. -/
theorem match_committed (ht : terms.Valid)
    (h : Run Pact.step ⟨note, .init terms, [], now⟩ tr p) :
    Run.Each Committed ⟨note, .init terms, [], now⟩ tr := by
  refine h.invariant (fun tr _ => Run.Each Committed ⟨note, .init terms, [], now⟩ tr) trivial ?_
  intro tr p m p' hr hI hm
  refine Run.each_concat.mpr ⟨hI, ?_⟩
  rw [hr.last_eq]
  exact committed_step (run_sane ht hr) hm

section Sample

open TokenContract

/-- A note with SHELL for the bond. -/
def sampleNote : PrivateNote := .init 2 (10 * PRICE_STEP) 9 CURRENCIES_ID_SHELL 5 1

def samplePact : Pact := ⟨sampleNote, .init sampleTerms, [], 10⟩

/-- The offer is posted and matched, the note posts its bond, and the bond reaches the deal. -/
def sampleBonded : List Move :=
  [.other (.internal (.note 1)) (.postFromNote 5 1 1 0 0),
    .wait 10,
    .other (.internal sampleBook) (.fundFromOrderBook (2 * sampleUnit) (.note 2) 9 0),
    .note (.internal sampleBook) (fun _ => 0)
      (.onInferenceFilled 1 (.deal 7 0) 1 1 2 PRICE_STEP (2 * sampleUnit) true),
    .deliver 0]

/-- The owner of the note has the match undone. -/
def sampleUndo : List Move :=
  [.note (.external 9) (fun _ => 0) (.owner (.streamCleanup (.deal 7 0))), .deliver 0]

/-- So has the seller. -/
def sampleDestroy : List Move := [.other (.external 7) .destroy]

/-- The claim that only the seller's `open` touches the funding of a bonded deal in time. -/
def OnlyOpens (p : Pact) (m : Move) (p' : Pact) : Prop :=
  p.Waiting → p.deal.buyerBondFunded = true →
    FundingKept p.deal p'.deal ∨ ∃ i, p.message m = some i ∧ Opens p.deal i p'.deal

def sampleTrace (moves : List Move) : List (Move × Pact) := Run.trace Pact.step samplePact moves

theorem match_committed_sample : Run.Each Committed samplePact (sampleTrace sampleBonded) :=
  match_committed (by decide) (Run.trace_run Pact.step samplePact sampleBonded)

theorem OnlyOpens.latches {p p' : Pact} {m : Move} (h : OnlyOpens p m p') :
    p.deal.destroyed = false ∧ p.deal.funded = true ∧ p.deal.opened = false ∧
      p.deal.buyer = some p.noteAddr ∧ p.now < p.deal.fundedTime + MATCH_OPEN_TIMEOUT ∧
      p.deal.buyerBondFunded = true →
      p'.deal.funded = true ∨ p'.deal.opened = true := by
  rintro ⟨hl, hf, ho, hb, ht, hbond⟩
  rcases h ⟨hl, hf, ho, hb, ht⟩ hbond with hk | ⟨i, -, -, -, hopen⟩
  · exact .inl hk.funded
  · exact .inr hopen

/-- In time and with the bond posted, the owner of the note undoes the match and gets everything
back, and so can the seller. -/
theorem match_undone :
    ¬ Run.Each OnlyOpens samplePact (sampleTrace (sampleBonded ++ sampleUndo)) ∧
      (Run.last samplePact (sampleTrace (sampleBonded ++ sampleUndo))).deal.credited .buyer =
        2 * sampleUnit + 2 * PRICE_STEP ∧
      ¬ Run.Each OnlyOpens samplePact (sampleTrace (sampleBonded ++ sampleDestroy)) := by
  refine ⟨fun h => ?_, by decide +kernel, fun h => ?_⟩
  · exact absurd (h.imp fun _ _ _ => OnlyOpens.latches) (by decide +kernel)
  · exact absurd (h.imp fun _ _ _ => OnlyOpens.latches) (by decide +kernel)

end Sample

end Commitment

end Dexdo
