import Dexdo.Indexer.DealRun

namespace Dexdo.ReadModel.DealWatch

variable {tc : Addr} {stamp : ℕ → Option ℕ} {w w' : DealWatch} {c : Cycle} {m : Move}

/-- What holds of a deal address along its runs. -/
structure Phase (tc : Addr) (stamp : ℕ → Option ℕ) (w : DealWatch) : Prop where
  tale : Tale tc stamp w.log
  cycles : (story stamp w.log).cycles = w.cycles
  hold : Hold w (story stamp w.log).cycle

theorem Hold.consume (h : Hold w c) {a : Answer} {as : List Answer} (ha : w.answers = a :: as) :
    Hold { w with answers := as } c ∧ w.posts = 0 ∧ w.booked = 0 ∧ as = [] := by
  have htok := h.tokens
  rw [ha, List.length_cons] at htok
  have hp : w.posts = 0 := by omega
  have hb : w.booked = 0 := by omega
  have has : as = [] := List.length_eq_zero_iff.mp (by omega)
  subst has
  refine ⟨⟨h.sane, ?_, ?_, h.booked, ?_, h.rests, h.serves, h.closes⟩, hp, hb, rfl⟩
  · change w.posts + w.booked + 0 ≤ 1
    omega
  · intro hpos
    change 0 < w.posts + w.booked + 0 at hpos
    omega
  · intro x hx
    cases hx

theorem Phase.after (h : Phase tc stamp w) {s u : TokenContract} {i : TokenContract.Input}
    (hd : w.deal = some s) (hi : s.step i = some u)
    (hbook : s.fromBook i.caller = true → i.call.isAnswer = true →
      Awaited w (story stamp w.log).cycle i)
    (hplain : i.call = .close ∨ i.call = .destroy →
      s.funded = true ∨ (story stamp w.log).cycle.closeKind ≠ none) :
    Phase tc stamp (w.after u) := by
  obtain ⟨P, hallows, hnext⟩ := h.hold.after hd hi hbook hplain
  rw [← u.events_cycle] at hallows
  obtain ⟨htale, hP, hcycles⟩ := h.tale.tell (Cycle.allows_of_filter hallows)
  exact ⟨htale, hcycles.trans h.cycles, hnext _ hP⟩

theorem Phase.logged (h : Phase tc stamp w) {e : Entry} (he : Fits tc stamp w.log e)
    (hlog : w'.log = w.log ++ [e])
    (hcycles : ((story stamp w.log).after (stamp w.log.length) e).cycles = w'.cycles)
    (hhold : Hold w' ((story stamp w.log).after (stamp w.log.length) e).cycle) :
    Phase tc stamp w' := by
  have hstory := story_concat stamp w.log e
  rw [← hlog] at hstory
  refine ⟨?_, ?_, ?_⟩
  · rw [hlog]
    exact h.tale.concat he
  · rw [hstory]
    exact hcycles
  · rw [hstory]
    exact hhold

theorem Hold.rests_of_out (h : Hold w c) (hpos : 0 < w.posts ∨ 0 < w.booked) : c.Rests := by
  rcases h.rests with hr | ⟨-, h1, h2, -⟩
  · exact hr
  · omega

theorem Hold.answered (h : Hold w c) {a : Answer} {posts booked : ℕ} {log : List Entry} {cycles : ℕ}
    {c' : Cycle} (hout : w.posts + w.booked = posts + booked + 1) (hc : 0 < booked → c' = .empty)
    (ha : (a = .sellClosed ∧ c'.Rests) ∨ ∃ paid b pk f, a = .fund paid b pk f ∧ c' = .begun b)
    (hcl : ∀ n ∈ w.closes, n ≤ cycles ∧ (n = cycles → c'.Rests)) :
    Hold ⟨w.deal, posts, booked, w.answers ++ [a], w.closes, cycles, log⟩ c' := by
  obtain ⟨s, hs, hp, hf⟩ := h.busy (by omega)
  have htok := h.tokens
  have hans : w.answers = [] := List.length_eq_zero_iff.mp (by omega)
  refine ⟨h.sane, ?_, fun _ => ⟨s, hs, hp, hf⟩, hc, ?_, ?_, ?_, hcl⟩
  · rw [hans]
    change posts + booked + 1 ≤ 1
    omega
  · rw [hans]
    intro x hx
    obtain rfl := List.mem_singleton.mp hx
    exact ha
  · rcases ha with ⟨-, hr⟩ | ⟨paid, b, pk, f, -, hb⟩
    · exact .inl hr
    · exact .inr ⟨⟨b, hb⟩, by change posts = 0; omega, by change booked = 0; omega, s, hs, hp, hf⟩
  · intro x hx hfund
    cases hs.symm.trans hx
    exact absurd (hfund.symm.trans hf) (by decide)

theorem Hold.heard (h : Hold w c) (n : ℕ) (log : List Entry) :
    Hold { w with closes := w.closes.erase n, log := log } c :=
  { h with
    serves := fun s hs hf =>
      ⟨(h.serves s hs hf).1, fun hm => (h.serves s hs hf).2 (List.mem_of_mem_erase hm)⟩
    closes := fun k hk => h.closes k (List.mem_of_mem_erase hk) }

theorem Hold.emptied (h : Hold w c) {n : ℕ} (hn : n ∈ w.closes) (heq : n = w.cycles) :
    Hold w .empty := by
  have hrests := (h.closes n hn).2 heq
  refine ⟨h.sane, h.tokens, h.busy, fun _ => rfl, ?_, .inl fun _ => rfl, ?_, ?_⟩
  · intro a ha
    rcases h.answers a ha with ⟨hs, -⟩ | ⟨paid, b, pk, f, -, hb⟩
    · exact .inl ⟨hs, fun _ => rfl⟩
    · rw [hb] at hrests
      exact absurd hrests (begun_not_rests b)
  · intro s hs hf
    subst heq
    exact absurd hn (h.serves s hs hf).2
  · exact fun k hk => ⟨(h.closes k hk).1, fun _ _ => rfl⟩

/-- Every move keeps what holds of the address, if it is plain. -/
theorem step_phase (h : Phase tc stamp w) (hm : step tc w m = some w') (hp : Plain stamp w m) :
    Phase tc stamp w' := by
  have hhold := h.hold
  have hclosed := hhold.closes
  cases m with
  | deploy =>
    simp only [step, bind_iff, pure_iff] at hm
    obtain ⟨⟨hvalid, hnone⟩, rfl⟩ := hm
    have hd : w.deal = none := Option.isNone_iff_eq_none.mp hnone
    have hidle : ¬ 0 < w.posts + w.booked + w.answers.length := by
      intro hpos
      obtain ⟨s, hs, -⟩ := hhold.busy hpos
      rw [hd] at hs
      cases hs
    refine h.logged (e := .deployed) ⟨by rintro x ⟨⟩, trivial⟩ rfl h.cycles ?_
    refine ⟨?_, hhold.tokens, fun hpos => absurd hpos hidle, hhold.booked, hhold.answers, ?_, ?_,
      hhold.closes⟩
    · rintro s ⟨⟩
      exact TokenContract.init_sane hvalid
    · rcases hhold.rests with hr | ⟨-, -, -, s, hs, -⟩
      · exact .inl hr
      · rw [hd] at hs
        cases hs
    · rintro s ⟨⟩ ⟨⟩
  | transact =>
    simp only [step, bind_iff, pure_iff] at hm
    obtain ⟨s, hd, hguard, u, hi, rfl⟩ := hm
    refine h.after hd hi (fun hb ha => absurd ⟨ha, hb⟩ hguard) fun hc => ?_
    rcases hp hc with ⟨s', hs', hf⟩ | hkind
    · cases hd.symm.trans hs'
      exact .inl hf
    · exact .inr hkind
  | deliver caller now =>
    cases hans : w.answers with
    | nil => simp [step, hans] at hm
    | cons a =>
      obtain ⟨hhold₁, hp₁, hb₁, rfl⟩ := hhold.consume hans
      have hphase : Phase tc stamp { w with answers := [] } := ⟨h.tale, h.cycles, hhold₁⟩
      cases hd : w.deal with
      | none =>
        simp only [step, hans, hd, Option.some.injEq] at hm
        subst hm
        rw [hd] at hphase
        exact hphase
      | some s =>
        simp only [step, hans, hd] at hm
        cases hi : s.step ⟨caller, now, a.call⟩ with
        | none =>
          rw [hi] at hm
          cases hm
          rw [hd] at hphase
          exact hphase
        | some =>
          rw [hi] at hm
          cases hm
          have hcase := hhold.answers a (by rw [hans]; exact List.mem_cons_self ..)
          rw [← hd]
          refine hphase.after hd hi (fun _ _ => ⟨⟨hp₁, hb₁, rfl⟩, ?_, ?_⟩) ?_
          · rcases hcase with ⟨rfl, -⟩ | ⟨paid, b, pk, f, rfl, hc⟩
            · rintro paid b pk f ⟨⟩
            · rintro paid' b' pk' f' ⟨⟩
              exact hc
          · rcases hcase with ⟨-, hr⟩ | ⟨paid, b, pk, f, rfl, hc⟩
            · exact fun _ => hr
            · rintro ⟨⟩
          · cases a <;> simp [Answer.call]
  | bookPlaces ob orderId price ticks note deadline =>
    simp only [step, bind_iff, pure_iff] at hm
    obtain ⟨⟨hpos, hnew⟩, rfl⟩ := hm
    have hrests := hhold.rests_of_out (.inl hpos)
    refine h.logged (e := .offered ob orderId price ticks note deadline) ⟨?_, hrests⟩ rfl h.cycles ?_
    · rintro x ⟨⟩
      exact hnew
    · have htok := hhold.tokens
      refine ⟨hhold.sane, ?_, ?_, fun _ => rfl, ?_, .inl fun _ => rfl, ?_, ?_⟩
      · change w.posts - 1 + (w.booked + 1) + w.answers.length ≤ 1
        omega
      · exact fun _ => hhold.busy (by omega)
      · intro a ha
        have hnil : w.answers = [] := List.length_eq_zero_iff.mp (by omega)
        rw [hnil] at ha
        cases ha
      · intro s hs hf
        obtain ⟨s', hs', -, hf'⟩ := hhold.busy (by omega)
        cases hs.symm.trans hs'
        exact absurd (hf.symm.trans hf') (by decide)
      · exact fun n hn => ⟨(hclosed n hn).1, fun _ _ => rfl⟩
  | bookRefuses =>
    simp only [step, bind_iff, pure_iff] at hm
    obtain ⟨hpos, rfl⟩ := hm
    exact ⟨h.tale, h.cycles, hhold.answered (by omega) hhold.booked
      (.inl ⟨rfl, hhold.rests_of_out (.inl hpos)⟩) hclosed⟩
  | bookFills ob makerId takerId ticks price paid buyer pk flags =>
    simp only [step, bind_iff, pure_iff] at hm
    obtain ⟨hpos, hlegs, rfl⟩ := hm
    have hempty := hhold.booked hpos
    have htok := hhold.tokens
    refine h.logged (e := .filled ob makerId takerId ticks price buyer) ⟨by rintro x ⟨⟩, hempty, hlegs⟩
      rfl (congrArg (· + 1) h.cycles) ?_
    refine hhold.answered (by omega) (fun hb => absurd hb (by omega))
      (.inr ⟨paid, buyer, pk, flags, rfl, rfl⟩) fun n hn => ?_
    have hle := (hclosed n hn).1
    exact ⟨by omega, fun heq => absurd heq (by omega)⟩
  | bookCloses =>
    simp only [step, bind_iff, pure_iff] at hm
    obtain ⟨hpos, rfl⟩ := hm
    have htok := hhold.tokens
    exact ⟨h.tale, h.cycles, hhold.answered (by omega) (fun hb => absurd hb (by omega))
      (.inl ⟨rfl, hhold.rests_of_out (.inr hpos)⟩) hclosed⟩
  | bookEvent ob e =>
    simp only [step, bind_iff, pure_iff] at hm
    obtain ⟨⟨hnames, hnew⟩, rfl⟩ := hm
    exact h.logged (e := .book ob e) ⟨hnew, hnames⟩ rfl h.cycles { hhold with }
  | noteReports note cycle =>
    simp only [step, bind_iff, pure_iff] at hm
    obtain ⟨hmem, rfl⟩ := hm
    have hfits : Fits tc stamp w.log (.closed note cycle) := by
      refine ⟨by rintro x ⟨⟩, ?_⟩
      dsimp only
      rw [h.cycles]
      split
      · rename_i heq
        exact (hclosed cycle hmem).2 heq
      · rename_i hne
        exact hp hne
    refine h.logged hfits rfl ?_ ?_
    · simp only [Story.after]
      split
      · exact h.cycles
      · exact h.cycles
    · simp only [Story.after]
      split
      · rename_i heq
        exact (hhold.emptied hmem (heq.1.trans h.cycles)).heard ..
      · exact hhold.heard ..
  | noteIgnores =>
    simp only [step, bind_iff, pure_iff] at hm
    obtain ⟨-, rfl⟩ := hm
    exact ⟨h.tale, h.cycles, hhold.heard ..⟩

/-- The deal's record shows the current cycle of the log it was projected from. -/
structure Follows (tc : Addr) (stamp : ℕ → Option ℕ) (log : List Entry) : Prop where
  cycle : ((project tc stamp log).record tc).cycle = (story stamp log).cycle
  ticks : ((project tc stamp log).record tc).cycle.ticks =
    ((project tc stamp log).record tc).ticks.length

/-- Replaying entry `k` of the log leaves the deal's record as it is. -/
def Inert (tc : Addr) (stamp : ℕ → Option ℕ) (log : List Entry) (k : ℕ) (e : Entry) : Prop :=
  (e.project tc stamp k (project tc stamp log)).record tc = (project tc stamp log).record tc

/-- In a run of plain moves the record follows the deal at every point of the log, and what belongs
to the current cycle can be replayed. -/
theorem deal_row_follows {pk nonce : ℕ} {tr : List (Move × DealWatch)}
    (h : Run (step (.deal pk nonce)) init tr w)
    (hplain : Run.Each (fun w m _ => Plain stamp w m) init tr) :
    (∀ n, Follows (.deal pk nonce) stamp (w.log.take n) ∧
      ∀ k e, (w.log.take n)[k]? = some e → Replayable stamp (w.log.take n) k e →
        Inert (.deal pk nonce) stamp (w.log.take n) k e) ∧
    ∀ s ∈ w.deal, s.funded = true →
      (story stamp w.log).cycle.isLive ∧ (story stamp w.log).cycle.buyer = s.buyer := by
  have hz : Addr.deal pk nonce ≠ ZERO_ADDRESS := by rintro ⟨⟩
  have hphase : Phase (.deal pk nonce) stamp w := by
    refine h.invariant_each (fun _ w => Phase (.deal pk nonce) stamp w) ?_
      (fun _ _ _ _ _ ht hp hi => step_phase ht hi hp) hplain
    refine ⟨.nil, rfl, ?_⟩
    refine ⟨by rintro s ⟨⟩, by decide, fun hpos => absurd hpos (by decide), fun _ => rfl, ?_,
      .inl fun _ => rfl, by rintro s ⟨⟩, ?_⟩
    · intro a ha
      cases ha
    · intro n hn
      cases hn
  refine ⟨fun n => ?_, fun s hs hf => ?_⟩
  · have htale := hphase.tale.take n
    have hshown := (htale.shown hz).1
    refine ⟨⟨hshown.cycle, ?_⟩, fun k e he hr => htale.replay hz he hr⟩
    rw [hshown.cycle, hshown.ticks]
  · obtain ⟨hsv, -⟩ := hphase.hold.serves s hs hf
    exact ⟨hsv.live, hsv.buyer.1⟩

instance (stamp : ℕ → Option ℕ) (w : DealWatch) (m : Move) : Decidable (Plain stamp w m) := by
  cases m <;> unfold Plain <;> infer_instance

def sampleDeal : Addr := .deal 9 4

def sampleTerms : Terms := ⟨9, 4, 7, 1000000000, 4, .note 5⟩

def sampleBook : Addr := .inferenceBook 3 0 7

def sampleStamp (k : ℕ) : Option ℕ := some (1000 + k)

def samplePost (id now : ℕ) : List Move :=
  [.transact ⟨.internal (.note 5), now, .postFromNote 3 0 5 0 5000⟩,
    .bookPlaces sampleBook id 1000000000 4 (.note 5) 5000]

/-- The seller's offer meets a bid of two ticks. -/
def sampleMatch (id : ℕ) (buyer : Addr) (now : ℕ) : List Move :=
  samplePost id now ++
    [.bookEvent sampleBook (.InferenceOrderPlaced (id + 1) true 1000000000 2 buyer (.ext 0) 0),
      .bookFills sampleBook id (id + 1) 2 1000000000 2050000000 buyer 1 0,
      .deliver (.internal sampleBook) now]

/-- The buyer leaves during the probe, which ends the deal. -/
def sampleProbe : List Move :=
  [.transact ⟨.internal (.note 5), 100, .fundDeal 2000000000 none⟩,
    .transact ⟨.internal (.note 6), 110, .fundBuyerBond 2000000000⟩,
    .transact ⟨.external 9, 120, .openDeal []⟩,
    .transact ⟨.internal (.note 6), 130, .stop⟩]

def sampleFirst : List Move := .deploy sampleTerms :: (sampleMatch 1 (.note 6) 50 ++ sampleProbe)

/-- The deal is deployed once more and funded by another buyer. -/
def sampleSecond : List Move :=
  sampleFirst ++ .deploy sampleTerms :: sampleMatch 3 (.note 8) 200

def sample (moves : List Move) : List (Move × DealWatch) :=
  Run.trace (step sampleDeal) init moves

def sampleLog (moves : List Move) : List Entry := (Run.last init (sample moves)).log

theorem deal_row_follows_sample :
    (∀ n, Follows sampleDeal sampleStamp ((sampleLog sampleSecond).take n)) ∧
    (story sampleStamp (sampleLog sampleSecond)).cycle.isLive ∧
    (story sampleStamp (sampleLog sampleSecond)).cycle.buyer = some (.note 8) := by
  refine ⟨fun n => ?_, by decide +kernel, by decide +kernel⟩
  have hrun := Run.trace_run (step sampleDeal) init sampleSecond
  have hplain : Run.Each (fun w m _ => Plain sampleStamp w m) init (sample sampleSecond) := by
    decide +kernel
  exact ((deal_row_follows hrun hplain).1 n).1

/-- A note reports the close of the first cycle once the second is funded. -/
def sampleLate : List Move := sampleSecond ++ [.noteReports (.note 6) 1]

/-- A deal without a buyer is closed, deployed once more and offered. -/
def sampleClosed : List Move :=
  [.deploy sampleTerms, .transact ⟨.external 9, 40, .close⟩, .deploy sampleTerms] ++ samplePost 1 50

/-- A late report empties the row of a funded cycle, a deal that was closed before its first match
shows that close in its next cycle, and a replayed opening writes into a later cycle. -/
theorem record_left_behind :
    ¬ (∀ (pk nonce : ℕ) (stamp : ℕ → Option ℕ) (tr : List (Move × DealWatch)) (w : DealWatch),
      Run (step (.deal pk nonce)) init tr w → Follows (.deal pk nonce) stamp w.log) ∧
    ¬ (∀ (pk nonce : ℕ) (stamp : ℕ → Option ℕ) (tr : List (Move × DealWatch)) (w : DealWatch),
      Run (step (.deal pk nonce)) init tr w → ∀ k e, w.log[k]? = some e →
        Inert (.deal pk nonce) stamp w.log k e) ∧
    (story sampleStamp (sampleLog sampleLate)).cycle.isLive ∧
    ((project sampleDeal sampleStamp (sampleLog sampleLate)).record sampleDeal).cycle = .empty ∧
    (story sampleStamp (sampleLog sampleClosed)).cycle = .empty ∧
    ((project sampleDeal sampleStamp (sampleLog sampleClosed)).record sampleDeal).cycle.closeKind =
      some .DESTROYED := by
  have hlive : (story sampleStamp (sampleLog sampleLate)).cycle.isLive := by decide +kernel
  have hrow : ((project sampleDeal sampleStamp (sampleLog sampleLate)).record sampleDeal).cycle =
      .empty := by decide +kernel
  refine ⟨fun hall => ?_, fun hall => ?_, hlive, hrow, by decide +kernel, by decide +kernel⟩
  · have hfollows := hall 9 4 sampleStamp _ _ (Run.trace_run _ init sampleLate)
    have hempty := hrow.symm.trans hfollows.cycle
    rw [sampleLog, sample, sampleDeal] at hlive
    rw [← hempty] at hlive
    exact absurd hlive (by decide)
  · have hinert := hall 9 4 sampleStamp _ _ (Run.trace_run _ init sampleSecond) 8
      (.told (.streamOpened (.note 6) 1000000000)) (by decide +kernel)
    have hprice := congrArg (fun r : DealRecord => r.cycle.price) hinert
    exact absurd hprice (by decide +kernel)

end Dexdo.ReadModel.DealWatch
