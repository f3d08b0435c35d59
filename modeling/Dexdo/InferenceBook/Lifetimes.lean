import Dexdo.InferenceBook.Stats
import Dexdo.TokenContract.Venue

namespace Dexdo

open TokenContract (Input reportsOf)

/-- Static key of a deal, which its address is derived from. -/
structure DealKey where
  sellerPubkey : ℕ
  nonce : ℕ
  deriving DecidableEq

def DealKey.addr (k : DealKey) : Addr := .deal k.sellerPubkey k.nonce

theorem DealKey.addr_inj {j k : DealKey} (h : j.addr = k.addr) : j = k := by
  obtain ⟨h1, h2⟩ := Addr.deal.inj h
  cases j
  cases k
  exact congrArg₂ DealKey.mk h1 h2

def Terms.key (t : Terms) : DealKey := ⟨t.sellerPubkey, t.nonce⟩

/-- Code and static key of an inference book. -/
structure BookId where
  codeHash : ℕ
  codeDepth : ℕ
  modelHash : ℕ
  deriving DecidableEq

def BookId.addr (b : BookId) : Addr := .inferenceBook b.codeHash b.codeDepth b.modelHash

/-- Statistics of a book, the account at the address of each deal, and the volume reports sent so
far. A destroyed deal stays until its address is deployed to again. -/
structure Exchange where
  stats : ReferencePrice
  deals : DealKey → Option TokenContract
  sent : List (DealKey × VolumeReport)

/-- What can happen next. A report sent may arrive at any later time, and more than once. -/
inductive ExchangeMove
  | deployDeal (t : Terms)
  | deal (k : DealKey) (i : Input)
  | arrive (now : ℕ) (k : DealKey) (r : VolumeReport)
  | foreign (sender : Addr) (now sellerPubkey nonce pricePerTick cumulativeFinalized : ℕ)

/-- The address of a deal contract. -/
def Addr.isDeal : Addr → Bool
  | deal _ _ => true
  | _ => false

/-- One lifetime of a deal address: what it was deployed with and the transactions since. -/
structure Life where
  terms : Terms
  trace : List (Input × TokenContract)

namespace Life

def last (l : Life) : TokenContract := Run.last (.init l.terms) l.trace

/-- Ticks a lifetime has finally served, if the note it was deployed by trades on this book;
`code` is the book code baked into a note. -/
def servedAt (code : Addr → ℕ × ℕ) (b : BookId) (l : Life) : ℕ :=
  if (⟨(code l.terms.sellerNote).1, (code l.terms.sellerNote).2, l.terms.modelHash⟩ : BookId) = b
  then l.last.ticksFinalized else 0

end Life

namespace Exchange

variable (code : Addr → ℕ × ℕ) (b : BookId) (k : DealKey)

def start : Exchange := ⟨.init, fun _ => none, []⟩

def step (w : Exchange) : ExchangeMove → Option Exchange
  | .deployDeal t => do
    guard t.Valid
    guard ((w.deals t.key).all (·.destroyed) = true)
    return { w with deals := Function.update w.deals t.key (some (.init t)) }
  | .deal k i => do
    let s ← w.deals k
    guard (i.postsTo (code s.sellerNote).1 (code s.sellerNote).2)
    let u ← s.step i
    return { w with
      deals := Function.update w.deals k (some u)
      sent := w.sent ++ u.reports.map fun r => (k, r) }
  | .arrive now k r => do
    guard ((k, r) ∈ w.sent ∧ r.book = b.addr)
    return { w with
      stats := w.stats.reportFinalized k.addr now k.sellerPubkey k.nonce r.pricePerTick r.ticks }
  | .foreign sender now sellerPubkey nonce price n => do
    guard (sender.isDeal = false)
    return { w with stats := w.stats.reportFinalized sender now sellerPubkey nonce price n }

abbrev Trace := List (ExchangeMove × Exchange)

/-- Ticks that a message of a deal address adds to the day slots of the book. -/
def gain (s : Exchange) (m : ExchangeMove) (t : Exchange) : ℕ :=
  match m with
  | .arrive now j _ => if j = k then t.stats.volumeOn now - s.stats.volumeOn now else 0
  | _ => 0

/-- Ticks the book has recorded for a deal address. -/
def recorded (tr : Trace) : ℕ := Run.total (gain k) start tr

/-- Reports that have arrived at least once. -/
def arrived (tr : Trace) : List (DealKey × VolumeReport) :=
  tr.filterMap fun x => match x.1 with
    | .arrive _ j r => some (j, r)
    | _ => none

/-- The lifetimes of an address after one more move, latest first. -/
def extend (ls : List Life) (x : ExchangeMove × Exchange) : List Life :=
  match x.1 with
  | .deployDeal t => if t.key = k then ⟨t, []⟩ :: ls else ls
  | .deal j i =>
    if j = k then
      match ls, x.2.deals k with
      | l :: ls, some u => { l with trace := l.trace ++ [(i, u)] } :: ls
      | ls, _ => ls
    else ls
  | _ => ls

/-- Lifetimes of an address, latest first. -/
def lives (tr : Trace) : List Life := tr.foldl (extend k) []

/-- The address has no live deal and the book has heard all its reports. -/
def Settled (tr : Trace) (w : Exchange) : Prop :=
  (w.deals k).all (·.destroyed) = true ∧
    ∀ x ∈ w.sent, x.1 = k → x.2.book = b.addr → x ∈ arrived tr

instance (tr : Trace) (w : Exchange) : Decidable (Settled b k tr w) :=
  inferInstanceAs (Decidable (_ ∧ _))

variable {code b k} {tr : Trace} {w w' : Exchange} {x : ExchangeMove × Exchange}

theorem lives_concat : lives k (tr ++ [x]) = extend k (lives k tr) x := by
  unfold lives
  rw [List.foldl_append]
  rfl

theorem arrived_concat : arrived (tr ++ [x]) = arrived tr ++ (match x.1 with
    | .arrive _ j r => [(j, r)]
    | _ => []) := by
  unfold arrived
  rw [List.filterMap_append]
  obtain ⟨m, v⟩ := x
  cases m <;> rfl

section Lifetimes

/-- A lifetime is a run of the deal whose note posts to the one book it trades on. -/
structure Genuine (code : Addr → ℕ × ℕ) (k : DealKey) (l : Life) : Prop where
  valid : l.terms.Valid
  key : l.terms.key = k
  run : Run TokenContract.step (.init l.terms) l.trace l.last
  posts : ∀ x ∈ l.trace, x.1.postsTo (code l.terms.sellerNote).1 (code l.terms.sellerNote).2

/-- The lifetimes of an address are the runs of the deals there, one after the other, and the
reports sent from it are theirs. -/
structure Chronicle (code : Addr → ℕ × ℕ) (k : DealKey) (ls : List Life) (w : Exchange) : Prop where
  genuine : ∀ l ∈ ls, Genuine code k l
  past : ∀ l ∈ ls.tail, l.last.destroyed = true
  present : w.deals k = ls.head?.map Life.last
  sent : ∀ r, (k, r) ∈ w.sent ↔ ∃ l ∈ ls, r ∈ reportsOf l.trace

theorem Chronicle.deploy {ls : List Life} {t : Terms} (h : Chronicle code k ls w)
    (ht : t.Valid) (hk : t.key = k) (hfree : (w.deals k).all (·.destroyed) = true)
    (hd : w'.deals k = some (.init t)) (hs : w'.sent = w.sent) :
    Chronicle code k (⟨t, []⟩ :: ls) w' := by
  refine ⟨fun l hl => ?_, fun l hl => ?_, hd, fun r => ?_⟩
  · rcases List.mem_cons.mp hl with rfl | hl
    · exact ⟨ht, hk, .nil, fun _ hx => absurd hx List.not_mem_nil⟩
    · exact h.genuine l hl
  · cases ls with
    | nil => exact absurd hl List.not_mem_nil
    | cons =>
      rcases List.mem_cons.mp hl with rfl | hl
      · have hp := h.present
        rw [hp] at hfree
        exact hfree
      · exact h.past l hl
  · rw [hs, h.sent]
    constructor
    · rintro ⟨l, hl, hr⟩
      exact ⟨l, List.mem_cons_of_mem _ hl, hr⟩
    · rintro ⟨l, hl, hr⟩
      rcases List.mem_cons.mp hl with rfl | hl
      · exact absurd hr List.not_mem_nil
      · exact ⟨l, hl, hr⟩

theorem Chronicle.transact {ls : List Life} {l : Life} {i : Input} {u : TokenContract}
    (h : Chronicle code k (l :: ls) w)
    (hp : i.postsTo (code l.terms.sellerNote).1 (code l.terms.sellerNote).2)
    (hi : l.last.step i = some u) (hd : w'.deals k = some u)
    (hs : w'.sent = w.sent ++ u.reports.map fun r => (k, r)) :
    Chronicle code k ({ l with trace := l.trace ++ [(i, u)] } :: ls) w' := by
  have hg := h.genuine l List.mem_cons_self
  have hlast : Run.last (TokenContract.init l.terms) (l.trace ++ [(i, u)]) = u :=
    Run.last_concat ..
  refine ⟨fun l' hl => ?_, h.past, ?_, fun r => ?_⟩
  · rcases List.mem_cons.mp hl with rfl | hl
    · refine ⟨hg.valid, hg.key, ?_, fun x hx => ?_⟩
      · change Run _ _ (l.trace ++ [(i, u)]) (Run.last _ (l.trace ++ [(i, u)]))
        rw [hlast]
        exact hg.run.snoc hi
      · rcases List.mem_append.mp hx with hx | hx
        · exact hg.posts x hx
        · obtain rfl := List.mem_singleton.mp hx
          exact hp
    · exact h.genuine l' (List.mem_cons_of_mem _ hl)
  · rw [hd]
    exact congrArg some hlast.symm
  · rw [hs, List.mem_append, h.sent]
    constructor
    · rintro (⟨l', hl, hr⟩ | hr)
      · rcases List.mem_cons.mp hl with rfl | hl
        · refine ⟨_, List.mem_cons_self, ?_⟩
          rw [TokenContract.reportsOf_concat]
          exact List.mem_append_left _ hr
        · exact ⟨l', List.mem_cons_of_mem _ hl, hr⟩
      · refine ⟨_, List.mem_cons_self, ?_⟩
        rw [TokenContract.reportsOf_concat]
        obtain ⟨r', hr', heq⟩ := List.mem_map.mp hr
        obtain rfl := (Prod.mk.inj heq).2
        exact List.mem_append_right _ hr'
    · rintro ⟨l', hl, hr⟩
      rcases List.mem_cons.mp hl with rfl | hl
      · rw [TokenContract.reportsOf_concat] at hr
        rcases List.mem_append.mp hr with hr | hr
        · exact .inl ⟨l, List.mem_cons_self, hr⟩
        · exact .inr (List.mem_map.mpr ⟨r, hr, rfl⟩)
      · exact .inl ⟨l', List.mem_cons_of_mem _ hl, hr⟩

theorem Chronicle.kept {ls : List Life} (h : Chronicle code k ls w) (hd : w'.deals k = w.deals k)
    (hs : ∀ r, (k, r) ∈ w'.sent ↔ (k, r) ∈ w.sent) : Chronicle code k ls w' :=
  ⟨h.genuine, h.past, hd.trans h.present, fun r => (hs r).trans (h.sent r)⟩

theorem step_chronicle {m : ExchangeMove} {ls : List Life} (h : Chronicle code k ls w)
    (hm : step code b w m = some w') : Chronicle code k (extend k ls (m, w')) w' := by
  cases m with
  | deployDeal =>
    simp only [step, bind_iff, pure_iff] at hm
    obtain ⟨ht, hfree, rfl⟩ := hm
    unfold extend
    dsimp only
    split_ifs with hk
    · subst hk
      exact h.deploy ht rfl hfree (Function.update_self ..) rfl
    · exact h.kept (Function.update_of_ne (Ne.symm hk) ..) fun _ => Iff.rfl
  | deal =>
    simp only [step, bind_iff, pure_iff] at hm
    obtain ⟨s, hs, hp, u, hi, rfl⟩ := hm
    unfold extend
    dsimp only
    split_ifs with hk
    · subst hk
      rw [Function.update_self]
      cases ls with
      | nil =>
        rw [h.present] at hs
        cases hs
      | cons l =>
        have hlast : l.last = s := Option.some.inj (h.present.symm.trans hs)
        have hg := h.genuine l List.mem_cons_self
        have hterms : s.toTerms = l.terms := by
          rw [← hlast]
          exact (TokenContract.run_sited hg.valid hg.run hg.posts).2
        rw [hterms] at hp
        rw [← hlast] at hi
        exact h.transact hp hi (Function.update_self ..) rfl
    · refine h.kept (Function.update_of_ne (Ne.symm hk) ..) fun r => ?_
      rw [List.mem_append]
      apply or_iff_left
      intro hr
      obtain ⟨r', -, heq⟩ := List.mem_map.mp hr
      exact hk (Prod.mk.inj heq).1
  | arrive =>
    simp only [step, bind_iff, pure_iff] at hm
    obtain ⟨-, rfl⟩ := hm
    exact h.kept rfl fun _ => Iff.rfl
  | foreign =>
    simp only [step, bind_iff, pure_iff] at hm
    obtain ⟨-, rfl⟩ := hm
    exact h.kept rfl fun _ => Iff.rfl

theorem run_chronicle (h : Run (step code b) start tr w) : Chronicle code k (lives k tr) w := by
  refine h.invariant (fun tr w => Chronicle code k (lives k tr) w) ?_ ?_
  · refine ⟨fun _ hl => absurd hl List.not_mem_nil, fun _ hl => absurd hl List.not_mem_nil, rfl,
      fun r => ⟨fun hr => absurd hr List.not_mem_nil, ?_⟩⟩
    rintro ⟨l, hl, -⟩
    exact absurd hl List.not_mem_nil
  · intro tr w m w' _ hI hm
    rw [lives_concat]
    exact step_chronicle hI hm

end Lifetimes

end Exchange

end Dexdo
