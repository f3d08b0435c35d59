import Dexdo.Indexer.Replay

namespace Dexdo

namespace ReadModel

/-- A message of the book to the deal whose offer it had. -/
inductive Answer
  | fund (paid : ℕ) (buyer : Addr) (buyerPubkey dealFlags : ℕ)
  | sellClosed
  deriving DecidableEq

def Answer.call : Answer → DealCall
  | .fund paid buyer buyerPubkey dealFlags => .fundFromOrderBook paid buyer buyerPubkey dealFlags
  | .sellClosed => .onSellClosed

/-- A deal address with what is on its way from it and to it, and the chain log of the deal, of
its books and of its notes. `posts` are offers not yet at their book, `booked` those at rest in it,
and `closes` the closes, by their cycle, that a note has not heard of yet. -/
structure DealWatch where
  deal : Option TokenContract
  posts : ℕ
  booked : ℕ
  answers : List Answer
  closes : List ℕ
  cycles : ℕ
  log : List Entry

namespace DealWatch

/-- Before the deal is first deployed. -/
def init : DealWatch := ⟨none, 0, 0, [], [], 0, []⟩

inductive Move
  | deploy (terms : Terms)
  | transact (i : TokenContract.Input)
  | deliver (caller : Caller) (now : ℕ)
  | bookPlaces (ob : Addr) (orderId price ticks : ℕ) (note : Addr) (deadline : ℕ)
  | bookRefuses
  | bookFills (ob : Addr) (makerId takerId ticks clearingPrice paid : ℕ) (buyer : Addr)
      (buyerPubkey dealFlags : ℕ)
  | bookCloses
  | bookEvent (ob : Addr) (e : InferenceEvent)
  | noteReports (note : Addr) (cycle : ℕ)
  | noteIgnores (cycle : ℕ)

end DealWatch

end ReadModel

/-- Calls only the deal's book makes. -/
def DealCall.isAnswer : DealCall → Bool
  | .fundFromOrderBook .. | .onSellClosed => true
  | _ => false

def DealAction.isPost : DealAction → Bool
  | .placeSellOffer .. => true
  | _ => false

def DealAction.isClose : DealAction → Bool
  | .onDealClosed _ => true
  | _ => false

namespace ReadModel

namespace DealWatch

/-- The address once its deal has gone through a transaction. -/
def after (w : DealWatch) (u : TokenContract) : DealWatch :=
  { w with
    deal := if u.destroyed then none else some u
    posts := w.posts + u.actions.countP (·.isPost)
    closes := w.closes ++ List.replicate (u.actions.countP (·.isClose)) w.cycles
    log := w.log ++ (u.actions.filterMap DealAction.event?).map .told }

/-- One move of the deal, of a book or of a note. An offer that reaches its book rests there or is
turned away. An ask at rest is consumed whole by its fill, or is closed. The deal is told either
way. A note that is told of a close reports it unless it has forgotten the deal. -/
def step (tc : Addr) (w : DealWatch) : Move → Option DealWatch
  | .deploy terms => do
    guard (terms.Valid ∧ w.deal.isNone)
    return { w with deal := some (.init terms), log := w.log ++ [.deployed] }
  | .transact i => do
    let s ← w.deal
    guard ¬ (i.call.isAnswer = true ∧ s.fromBook i.caller = true)
    let u ← s.step i
    return w.after u
  | .deliver caller now =>
    match w.answers, w.deal with
    | [], _ => none
    | _ :: answers, none => some { w with answers := answers }
    | a :: answers, some s =>
      match s.step ⟨caller, now, a.call⟩ with
      | none => some { w with answers := answers }
      | some u => some ({ w with answers := answers }.after u)
  | .bookPlaces ob orderId price ticks note deadline => do
    guard (0 < w.posts ∧ (ob, orderId) ∉ placedOrders w.log)
    return { w with
      posts := w.posts - 1
      booked := w.booked + 1
      log := w.log ++ [.offered ob orderId price ticks note deadline] }
  | .bookRefuses => do
    guard (0 < w.posts)
    return { w with posts := w.posts - 1, answers := w.answers ++ [.sellClosed] }
  | .bookFills ob makerId takerId ticks clearingPrice paid buyer buyerPubkey dealFlags => do
    guard (0 < w.booked)
    guard ((ob, makerId) ∈ placedOrders w.log ∧ (ob, takerId) ∈ placedOrders w.log ∧
      ((ob, makerId) ∈ offers w.log ∨ (ob, takerId) ∈ offers w.log))
    return { w with
      booked := w.booked - 1
      answers := w.answers ++ [.fund paid buyer buyerPubkey dealFlags]
      cycles := w.cycles + 1
      log := w.log ++ [.filled ob makerId takerId ticks clearingPrice buyer] }
  | .bookCloses => do
    guard (0 < w.booked)
    return { w with booked := w.booked - 1, answers := w.answers ++ [.sellClosed] }
  | .bookEvent ob e => do
    guard (¬ e.names tc ∧ ∀ x ∈ (Entry.book ob e).placed, x ∉ placedOrders w.log)
    return { w with log := w.log ++ [.book ob e] }
  | .noteReports note cycle => do
    guard (cycle ∈ w.closes)
    return { w with closes := w.closes.erase cycle, log := w.log ++ [.closed note cycle] }
  | .noteIgnores cycle => do
    guard (cycle ∈ w.closes)
    return { w with closes := w.closes.erase cycle }

/-- The move does not reach what the read model cannot tell apart: a deal is closed or destroyed
only while it is funded or a settled cycle is on record, and no report of an earlier close comes in
while a later cycle is live. -/
def Plain (stamp : ℕ → Option ℕ) (w : DealWatch) : Move → Prop
  | .transact i => i.call = .close ∨ i.call = .destroy →
    (∃ s ∈ w.deal, s.funded = true) ∨ (story stamp w.log).cycle.closeKind ≠ none
  | .noteReports _ cycle => cycle ≠ w.cycles → ¬ (story stamp w.log).cycle.isLive
  | _ => True

end DealWatch

end ReadModel

namespace ReadModel

namespace Cycle

/-- The deal can tell these events from here on, and whenever they are told, the cycle they lead to
satisfies `P`. -/
def Allows (P : Cycle → Prop) : Cycle → List DealEvent → Prop
  | c, [] => P c
  | c, e :: l => c.admits e ∧ ∀ at', Allows P (c.after at' e) l

variable {P : Cycle → Prop} {c : Cycle} {l : List DealEvent}

theorem allows_of_filter (h : Allows P c (l.filter (·.isCycle))) : Allows P c l := by
  induction l generalizing c with
  | nil => exact h
  | cons e l ih =>
    by_cases he : e.isCycle = true
    · rw [List.filter_cons_of_pos he] at h
      exact ⟨h.1, fun at' => ih (h.2 at')⟩
    · rw [List.filter_cons_of_neg he] at h
      cases e with
      | streamFunded => exact absurd rfl he
      | streamOpened => exact absurd rfl he
      | tickFinalized => exact absurd rfl he
      | streamStopped => exact absurd rfl he
      | probeBurned => exact absurd rfl he
      | streamDisputed => exact absurd rfl he
      | disputeResolved => exact absurd rfl he
      | contractDestroyed => exact absurd rfl he
      | _ => exact ⟨trivial, fun _ => ih h⟩

end Cycle

section Telling

variable {tc : Addr} {stamp : ℕ → Option ℕ} {log : List Entry} {l : List DealEvent}
  {P : Cycle → Prop}

theorem Tale.tell (h : Tale tc stamp log) (hl : (story stamp log).cycle.Allows P l) :
    Tale tc stamp (log ++ l.map .told) ∧ P (story stamp (log ++ l.map .told)).cycle ∧
      (story stamp (log ++ l.map .told)).cycles = (story stamp log).cycles := by
  induction l generalizing log with
  | nil =>
    rw [List.map_nil, List.append_nil]
    exact ⟨h, hl, rfl⟩
  | cons e l ih =>
    have hfits : Fits tc stamp log (.told e) := ⟨by rintro x ⟨⟩, hl.1⟩
    have hstory := story_concat stamp log (.told e)
    rw [List.map_cons, List.append_cons]
    obtain ⟨h1, h2, h3⟩ := ih (h.concat hfits) (by rw [hstory]; exact hl.2 _)
    refine ⟨h1, h2, h3.trans ?_⟩
    rw [hstory]
    rfl

end Telling

end ReadModel

namespace TokenContract

variable (u : TokenContract)

/-- Events of the current transaction. -/
def events : List DealEvent := u.actions.filterMap DealAction.event?

theorem events_cycle : u.events.filter (·.isCycle) = u.talk.told.filterMap Signal.event? := by
  unfold events talk
  induction u.actions with
  | nil => rfl
  | cons a l ih =>
    cases a with
    | event e =>
      by_cases he : e.isCycle = true
      · simp [DealAction.event?, DealAction.signal?, Signal.event?, he, ih]
      · simp [DealAction.event?, DealAction.signal?, he, ih]
    | _ => simpa [List.filterMap_cons, DealAction.event?, DealAction.signal?, Signal.event?] using ih

theorem posts_told : u.actions.countP (·.isPost) = u.talk.told.count .post := by
  unfold talk
  induction u.actions with
  | nil => rfl
  | cons a l ih =>
    cases a with
    | event e =>
      by_cases he : e.isCycle = true
      · simpa [List.filterMap_cons, DealAction.isPost, DealAction.signal?, he] using ih
      · simpa [List.filterMap_cons, DealAction.isPost, DealAction.signal?, he] using ih
    | _ => simpa [List.filterMap_cons, DealAction.isPost, DealAction.signal?] using ih

theorem closes_told : u.actions.countP (·.isClose) = u.talk.told.count .close := by
  unfold talk
  induction u.actions with
  | nil => rfl
  | cons a l ih =>
    cases a with
    | event e =>
      by_cases he : e.isCycle = true
      · simpa [List.filterMap_cons, DealAction.isClose, DealAction.signal?, he] using ih
      · simpa [List.filterMap_cons, DealAction.isClose, DealAction.signal?, he] using ih
    | _ => simpa [List.filterMap_cons, DealAction.isClose, DealAction.signal?] using ih

end TokenContract

namespace ReadModel

/-- The cycle of a funded deal. -/
structure Serves (k : Talk) (c : Cycle) : Prop where
  live : c.isLive
  buyer : c.buyer = k.buyer ∧ k.buyer.isSome
  unsettled : c.settledAt = none
  unopened : k.opened = false → c.price = none ∧ c.openedAt = none
  undisputed : k.disputed = false → c.disputedAt = none ∧ c.clean = none
  unclean : c.clean ≠ some true

/-- A cycle that is on record is funded. -/
def Cycle.Rests (c : Cycle) : Prop := c.deposit = none → c = .empty

theorem Serves.rests {k : Talk} {c : Cycle} (h : Serves k c) : c.Rests := by
  intro hn
  have hd := h.live.1
  rw [hn] at hd
  cases hd

theorem Serves.retold {k : Talk} {c : Cycle} (h : Serves k c) (l : List Signal) :
    Serves { k with told := l } c :=
  ⟨h.live, h.buyer, h.unsettled, h.unopened, h.undisputed, h.unclean⟩

theorem Serves.ticked {k : Talk} {c : Cycle} (h : Serves k c) (at' : Option ℕ) (a b : ℕ) :
    Serves k (c.after at' (.tickFinalized a b)) :=
  ⟨h.live, h.buyer, h.unsettled, h.unopened, h.undisputed, h.unclean⟩

theorem Serves.ends {s : TokenContract} {c : Cycle} (h : Serves s.talk c) {e : DealEvent} (he : s.LastEvent e) :
    c.Allows (·.deposit.isSome) [e, .contractDestroyed] := by
  cases he with
  | stopped b x r hdis =>
    refine ⟨⟨h.live.2, h.unsettled, (h.undisputed hdis).2⟩, fun at' => ⟨?_, fun at'' => ?_⟩⟩
    · rintro ⟨⟩
    · exact h.live.1
  | burned =>
    refine ⟨⟨h.live.2, h.unsettled⟩, fun at' => ⟨?_, fun at'' => ?_⟩⟩
    · rintro ⟨⟩
    · exact h.live.1
  | resolved =>
    refine ⟨⟨h.live.2, h.unsettled, h.unclean⟩, fun at' => ⟨?_, fun at'' => ?_⟩⟩
    · rintro ⟨⟩
    · exact h.live.1

theorem begun_not_rests (b : Addr) : ¬ (Cycle.begun b).Rests := by
  intro h
  cases h rfl

namespace DealWatch

/-- How a deal address stands to its current cycle. Of the offer and what becomes of it at most one
is on its way, and then the deal waits for it. -/
structure Hold (w : DealWatch) (c : Cycle) : Prop where
  sane : ∀ s ∈ w.deal, s.Sane
  tokens : w.posts + w.booked + w.answers.length ≤ 1
  busy : 0 < w.posts + w.booked + w.answers.length →
    ∃ s ∈ w.deal, s.offerPosted = true ∧ s.funded = false
  booked : 0 < w.booked → c = .empty
  answers : ∀ a ∈ w.answers, (a = .sellClosed ∧ c.Rests) ∨
    ∃ paid b pk f, a = .fund paid b pk f ∧ c = .begun b
  rests : c.Rests ∨ (∃ b, c = .begun b) ∧ w.posts = 0 ∧ w.booked = 0 ∧
    ∃ s ∈ w.deal, s.offerPosted = true ∧ s.funded = false
  serves : ∀ s ∈ w.deal, s.funded = true → Serves s.talk c ∧ w.cycles ∉ w.closes
  closes : ∀ n ∈ w.closes, n ≤ w.cycles ∧ (n = w.cycles → c.Rests)

section After

variable {w : DealWatch} {c c' : Cycle} {s u : TokenContract} {i : TokenContract.Input}

theorem after_eq {k : Talk} (hk : u.talk = k) : w.after u =
    { w with
      deal := if k.destroyed then none else some u
      posts := w.posts + k.told.count .post
      closes := w.closes ++ List.replicate (k.told.count .close) w.cycles
      log := w.log ++ u.events.map .told } := by
  subst hk
  unfold after
  rw [u.posts_told, u.closes_told]
  rfl

theorem mem_replicate_concat {l : List ℕ} {m n x : ℕ} (h : x ∈ l ++ List.replicate m n) :
    x ∈ l ∨ x = n := by
  rcases List.mem_append.mp h with h | h
  · exact .inl h
  · exact .inr (List.mem_replicate.mp h).2

theorem Hold.idle (h : Hold w c) (hd : w.deal = some s)
    (hs : s.offerPosted = false ∨ s.funded = true) :
    w.posts = 0 ∧ w.booked = 0 ∧ w.answers = [] := by
  have hn : ¬ 0 < w.posts + w.booked + w.answers.length := by
    intro hpos
    obtain ⟨s', hs', hp, hf⟩ := h.busy hpos
    cases hd.symm.trans hs'
    rcases hs with hs | hs
    · exact absurd (hp.symm.trans hs) (by decide)
    · exact absurd (hs.symm.trans hf) (by decide)
  refine ⟨by omega, by omega, List.length_eq_zero_iff.mp (by omega)⟩

/-- A transaction that leaves the tokens as they are, of a deal that stays. -/
theorem Hold.stays (h : Hold w c) (hd : w.deal = some s) (hu : u.Sane) (log : List Entry)
    (hlatch : u.offerPosted = s.offerPosted ∧ u.funded = s.funded)
    (hserves : s.funded = true → Serves s.talk c → Serves u.talk c')
    (hrest : s.funded = false → c' = c) :
    Hold { w with deal := some u, log := log } c' := by
  obtain ⟨hp, hf⟩ := hlatch
  have hwait : (∃ s ∈ w.deal, s.offerPosted = true ∧ s.funded = false) →
      ∃ s ∈ some u, s.offerPosted = true ∧ s.funded = false := by
    rintro ⟨s', hs', h1, h2⟩
    cases hd.symm.trans hs'
    exact ⟨u, rfl, hp.trans h1, hf.trans h2⟩
  cases hfund : s.funded with
  | false =>
    obtain rfl := hrest hfund
    refine ⟨?_, h.tokens, fun hb => hwait (h.busy hb), h.booked, h.answers, ?_, ?_, h.closes⟩
    · rintro x ⟨⟩
      exact hu
    · exact h.rests.imp id fun ⟨h1, h2, h3, h4⟩ => ⟨h1, h2, h3, hwait h4⟩
    · rintro x ⟨⟩ hx
      exact absurd (hx.symm.trans (hf.trans hfund)) (by decide)
  | true =>
    obtain ⟨h1, h2, h3⟩ := h.idle hd (.inr hfund)
    obtain ⟨hsv, hcl⟩ := h.serves s hd hfund
    have hsv' := hserves hfund hsv
    refine ⟨?_, h.tokens, fun hb => hwait (h.busy hb), ?_, ?_, .inl hsv'.rests, ?_, ?_⟩
    · rintro x ⟨⟩
      exact hu
    · intro hb
      exact absurd hb (by rw [h2]; decide)
    · intro a ha
      rw [h3] at ha
      cases ha
    · rintro x ⟨⟩ -
      exact ⟨hsv', hcl⟩
    · exact fun n hn => ⟨(h.closes n hn).1, fun _ => hsv'.rests⟩

theorem Hold.dies (h : Hold w c) (hd : w.deal = some s)
    (hs : s.offerPosted = false ∨ s.funded = true) (log : List Entry) (m : ℕ)
    (hc : c'.deposit.isSome) :
    Hold { w with
      deal := none
      closes := w.closes ++ List.replicate m w.cycles
      log := log } c' := by
  obtain ⟨h1, h2, h3⟩ := h.idle hd hs
  have hrests : c'.Rests := by
    intro hn
    rw [hn] at hc
    cases hc
  refine ⟨by rintro x ⟨⟩, h.tokens, ?_, ?_, ?_, .inl hrests, by rintro x ⟨⟩, ?_⟩
  · intro hpos
    rw [h1, h2, h3] at hpos
    exact absurd hpos (by decide)
  · intro hb
    rw [h2] at hb
    exact absurd hb (by decide)
  · intro a ha
    rw [h3] at ha
    cases ha
  · intro n hn
    refine ⟨?_, fun _ => hrests⟩
    rcases mem_replicate_concat hn with hn | rfl
    · exact (h.closes n hn).1
    · exact le_rfl

theorem after_alive {k : Talk} (hk : u.talk = k) (hl : k.destroyed = false)
    (hp : k.told.count .post = 0) (hc : k.told.count .close = 0) :
    w.after u = { w with deal := some u, log := w.log ++ u.events.map .told } := by
  rw [after_eq hk, hl, hp, hc, Nat.add_zero, List.replicate_zero, List.append_nil]
  rfl

theorem after_dead {k : Talk} (hk : u.talk = k) (hl : k.destroyed = true)
    (hp : k.told.count .post = 0) :
    w.after u = { w with
      deal := none
      closes := w.closes ++ List.replicate (k.told.count .close) w.cycles
      log := w.log ++ u.events.map .told } := by
  rw [after_eq hk, hl, hp, Nat.add_zero]
  rfl

/-- What a message of the book finds: nothing else is out, and the cycle it belongs to. -/
structure Awaited (w : DealWatch) (c : Cycle) (i : TokenContract.Input) : Prop where
  tokens : w.posts = 0 ∧ w.booked = 0 ∧ w.answers = []
  fund : ∀ paid b pk f, i.call = .fundFromOrderBook paid b pk f → c = .begun b
  sellClosed : i.call = .onSellClosed → c.Rests

theorem closes_filter (k : Talk) : k.closes.filterMap Signal.event? = [] ∧
    k.closes.count .post = 0 := by
  unfold Talk.closes
  cases k.buyer with
  | none => exact ⟨rfl, rfl⟩
  | some => exact ⟨rfl, rfl⟩

theorem Hold.serving {k : Talk} (h : Hold w c) (hd : w.deal = some s) (hf : s.funded = true)
    (hu : u.Sane) (hk : u.talk = k) (hl : k.destroyed = false) (hp : k.told.count .post = 0)
    (hc : k.told.count .close = 0) (hlatch : k.offerPosted = s.offerPosted ∧ k.funded = s.funded)
    (hsv : Serves k c') : Hold (w.after u) c' := by
  rw [after_alive hk hl hp hc]
  subst hk
  refine h.stays hd hu _ hlatch (fun _ _ => hsv) fun hn => ?_
  exact absurd (hf.symm.trans hn) (by decide)

/-- What a transaction tells fits the current cycle, and the address stands well to the cycle that
it leads to. -/
theorem Hold.after (h : Hold w c) (hd : w.deal = some s) (hi : s.step i = some u)
    (hbook : s.fromBook i.caller = true → i.call.isAnswer = true → Awaited w c i)
    (hplain : i.call = .close ∨ i.call = .destroy → s.funded = true ∨ c.closeKind ≠ none) :
    ∃ P, c.Allows P (u.talk.told.filterMap Signal.event?) ∧
      ∀ c', P c' → Hold (w.after u) c' := by
  have hs := h.sane s hd
  obtain ⟨hlive, heff⟩ := TokenContract.step_effect hs hi
  have hsane : u.talk.destroyed = false → u.Sane := fun hl => heff.sane hs hl
  have hopen : s.opened = true → s.funded = true := by
    intro ho
    by_contra hf
    exact absurd (ho.symm.trans (hs.unfunded (by simpa using hf)).1) (by decide)
  have hserve : s.funded = true → Serves s.talk c := fun hf => (h.serves s hd hf).1
  have halive : ¬ s.talk.destroyed = true := fun hx => absurd (hx.symm.trans hlive) (by decide)
  have htold := TokenContract.step_told hs hi
  generalize hk : u.talk = k at htold hsane
  cases htold with
  | nothing hk' =>
    subst hk'
    refine ⟨(· = c), rfl, ?_⟩
    rintro c' rfl
    rw [after_alive hk hlive rfl rfl]
    refine h.stays hd (hsane hlive) _ ⟨?_, ?_⟩ (fun _ hsv => ?_) fun _ => rfl
    · exact congrArg Talk.offerPosted hk
    · exact congrArg Talk.funded hk
    · rw [hk]
      exact hsv.retold []
  | unposted hb hc hf hk' =>
    subst hk'
    have haw := hbook hb (by rw [hc]; rfl)
    obtain ⟨h1, h2, h3⟩ := haw.tokens
    refine ⟨(· = c), rfl, ?_⟩
    rintro c' rfl
    rw [after_alive hk hlive rfl rfl]
    have huf : u.funded = false := (congrArg Talk.funded hk).trans hf
    refine ⟨?_, h.tokens, ?_, ?_, h.answers, .inl (haw.sellClosed hc), ?_, h.closes⟩
    · rintro x ⟨⟩
      exact hsane hlive
    · intro hpos
      exact absurd hpos (by rw [h1, h2, h3]; decide)
    · intro hpos
      exact absurd hpos (by rw [h2]; decide)
    · rintro x ⟨⟩ hx
      exact absurd (hx.symm.trans huf) (by decide)
  | posted hp hf hk' =>
    subst hk'
    obtain ⟨h1, h2, h3⟩ := h.idle hd (.inl hp)
    refine ⟨(· = c), rfl, ?_⟩
    rintro c' rfl
    have hrests : c'.Rests := by
      rcases h.rests with hr | ⟨-, -, -, s', hs', hp', -⟩
      · exact hr
      · cases hd.symm.trans hs'
        exact absurd (hp'.symm.trans hp) (by decide)
    have hup : u.offerPosted = true := congrArg Talk.offerPosted hk
    have huf : u.funded = false := (congrArg Talk.funded hk).trans hf
    have heq : w.after u = { w with
        deal := some u, posts := w.posts + 1, log := w.log ++ u.events.map .told } := by
      rw [after_eq hk, if_neg halive]
      simp
    rw [heq]
    refine ⟨?_, ?_, fun _ => ⟨u, rfl, hup, huf⟩, ?_, h.answers, .inl hrests, ?_, h.closes⟩
    · rintro x ⟨⟩
      exact hsane hlive
    · change w.posts + 1 + w.booked + w.answers.length ≤ 1
      rw [h1, h2, h3]
      rfl
    · intro hpos
      exact absurd hpos (by rw [h2]; decide)
    · rintro x ⟨⟩ hx
      exact absurd (hx.symm.trans huf) (by decide)
  | matched paid note pk flags hb hc hf hk' =>
    subst hk'
    have haw := hbook hb (by rw [hc]; rfl)
    obtain ⟨h1, h2, h3⟩ := haw.tokens
    obtain rfl := haw.fund paid note pk flags hc
    refine ⟨fun c' => Serves { s.talk with funded := true, offerPosted := false, buyer := some note } c',
      ⟨⟨rfl, rfl, rfl⟩, fun at' => ?_⟩, ?_⟩
    · exact ⟨⟨rfl, rfl⟩, ⟨rfl, rfl⟩, rfl, fun _ => ⟨rfl, rfl⟩, fun _ => ⟨rfl, rfl⟩,
        by rintro ⟨⟩⟩
    · intro c' hsv
      rw [after_alive hk hlive rfl rfl]
      refine ⟨?_, h.tokens, ?_, ?_, ?_, .inl hsv.rests, ?_, ?_⟩
      · rintro x ⟨⟩
        exact hsane hlive
      · intro hpos
        exact absurd hpos (by rw [h1, h2, h3]; decide)
      · intro hpos
        exact absurd hpos (by rw [h2]; decide)
      · intro a ha
        rw [h3] at ha
        cases ha
      · rintro x ⟨⟩ -
        refine ⟨?_, fun hmem => begun_not_rests note ((h.closes _ hmem).2 rfl)⟩
        rw [hk]
        exact hsv.retold _
      · exact fun n hn => ⟨(h.closes n hn).1, fun _ => hsv.rests⟩
  | opened b p hf ho hk' =>
    subst hk'
    have hsv := hserve hf
    obtain ⟨hprice, hat⟩ := hsv.unopened ho
    refine ⟨Serves { s.talk with opened := true }, ⟨⟨?_, hprice, hat⟩, fun at' => ?_⟩, ?_⟩
    · rw [hsv.buyer.1]
      exact hsv.buyer.2
    · exact ⟨hsv.live, hsv.buyer, hsv.unsettled, by rintro ⟨⟩, hsv.undisputed, hsv.unclean⟩
    · intro c' hc'
      exact h.serving hd hf (hsane hlive) hk hlive rfl rfl ⟨rfl, rfl⟩ (hc'.retold _)
  | ticked a b ho hk' =>
    subst hk'
    have hsv := hserve (hopen ho)
    refine ⟨Serves s.talk, ⟨trivial, fun at' => hsv.ticked at' a b⟩, ?_⟩
    intro c' hc'
    exact h.serving hd (hopen ho) (hsane hlive) hk hlive rfl rfl ⟨rfl, rfl⟩ (hc'.retold _)
  | disputed b ho hdis hk' =>
    subst hk'
    have hsv := hserve (hopen ho)
    refine ⟨Serves { s.talk with disputed := true }, ⟨(hsv.undisputed hdis).1, fun at' => ?_⟩, ?_⟩
    · exact ⟨hsv.live, hsv.buyer, hsv.unsettled, hsv.unopened, by rintro ⟨⟩, by simp [Cycle.after]⟩
    · intro c' hc'
      exact h.serving hd (hopen ho) (hsane hlive) hk hlive rfl rfl ⟨rfl, rfl⟩ (hc'.retold _)
  | cleaned hf ho hk' =>
    subst hk'
    have hsv := hserve hf
    obtain ⟨h1, h2, h3⟩ := h.idle hd (.inr hf)
    obtain ⟨hev, hpost⟩ := closes_filter s.talk
    refine ⟨(· = c), by dsimp only; rw [hev]; rfl, ?_⟩
    rintro c' rfl
    have huf : u.funded = false := congrArg Talk.funded hk
    rw [after_eq hk, if_neg halive, hpost, Nat.add_zero]
    refine ⟨?_, h.tokens, ?_, ?_, h.answers, .inl hsv.rests, ?_, ?_⟩
    · rintro x ⟨⟩
      exact hsane hlive
    · intro hpos
      exact absurd hpos (by rw [h1, h2, h3]; decide)
    · intro hpos
      exact absurd hpos (by rw [h2]; decide)
    · rintro x ⟨⟩ hx
      exact absurd (hx.symm.trans huf) (by decide)
    · intro n hn
      refine ⟨?_, fun _ => hsv.rests⟩
      rcases mem_replicate_concat hn with hn | rfl
      · exact (h.closes n hn).1
      · exact le_rfl
  | ended l e ho he hl hdead hk' =>
    have hsv := hserve (hopen ho)
    obtain ⟨hev, hpost⟩ := closes_filter s.talk
    have hends : c.Allows (·.deposit.isSome) (k.told.filterMap Signal.event?) ∧
        k.told.count .post = 0 := by
      rw [hk']
      rcases hl with rfl | ⟨a, b, rfl⟩
      · constructor
        · simp only [List.nil_append, List.filterMap_cons, List.filterMap_append, Signal.event?, hev]
          exact hsv.ends he
        · simp [hpost]
      · constructor
        · simp only [List.singleton_append, List.filterMap_cons, List.filterMap_append, Signal.event?,
            hev]
          exact ⟨trivial, fun at' => (hsv.ticked at' a b).ends he⟩
        · simp [hpost]
    refine ⟨(·.deposit.isSome), hends.1, fun c' hc' => ?_⟩
    rw [after_dead hk hdead hends.2]
    exact h.dies hd (.inr (hopen ho)) _ _ hc'
  | released hc ho hp hdead hk' =>
    obtain ⟨hev, hpost⟩ := closes_filter s.talk
    have hpost' : k.told.count .post = 0 := by
      rw [hk']
      simp [hpost]
    have hrecord : c.deposit.isSome ∧ (c.closeKind = none → c.settledAt = none) := by
      rcases hplain (hc.imp (·.1) fun h => h) with hf | hkind
      · exact ⟨(hserve hf).live.1, fun _ => (hserve hf).unsettled⟩
      · refine ⟨?_, fun hn => absurd hn hkind⟩
        -- a record that is settled is funded
        rw [Option.isSome_iff_ne_none]
        intro hn
        rcases h.rests with hr | ⟨⟨b, hb⟩, -⟩
        · exact hkind (congrArg Cycle.closeKind (hr hn))
        · exact hkind (congrArg Cycle.closeKind hb)
    refine ⟨(·.deposit.isSome), ?_, fun c' hc' => ?_⟩
    · rw [hk', List.filterMap_append, hev]
      refine ⟨hrecord.2, fun at' => ?_⟩
      simp only [Cycle.after]
      split
      · exact hrecord.1
      · exact hrecord.1
    · rw [after_dead hk hdead hpost']
      exact h.dies hd (.inl hp) _ _ hc'

end After

end DealWatch

end ReadModel

end Dexdo
