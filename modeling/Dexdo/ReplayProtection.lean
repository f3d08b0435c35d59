import Dexdo.Lib.Dict
import Dexdo.Lib.Mapping
import Dexdo.Lib.Run

namespace Dexdo

/-- What the mix-in uses of the contract around it: the digest of a message, taken to be free of
collisions, the expiry its body starts with, the guards in front of `saveMsg`, the body of the
entry, which throws on `none`, and what an internal message does. -/
structure SignedContract (Cell Msg σ : Type) where
  hash : Cell → ℕ
  hash_injective : Function.Injective hash
  expireAt : Cell → ℕ
  admits : σ → ℕ → Cell → Bool
  body : σ → ℕ → Cell → Option σ
  onInternal : σ → ℕ → Msg → σ

namespace ReplayProtection

def MAX_CLEANUP_ITERATIONS : ℕ := 20

/-- Five minutes in seconds. -/
def MAX_EXPIRY_WINDOW : ℕ := 5 * 60

/-- Seen messages by expiry and hash. -/
abbrev Messages := Dict ℕ (Mapping ℕ Bool)

structure MessageInfo where
  messageHash : ℕ
  expireAt : ℕ
  deriving DecidableEq

/-- Storage of the mix-in and of the contract, and the time of the last block. -/
structure State (σ : Type) where
  messages : Messages
  lastMessage : MessageInfo
  storage : σ
  clock : ℕ

def init {σ : Type} (storage : σ) (clock : ℕ) : State σ := ⟨.empty, ⟨0, 0⟩, storage, clock⟩

/-- What became of an external message. -/
inductive Outcome
  | expired
  | hugeExpireAt
  | duplicate
  | refused
  | saved (thrown : Bool)
  deriving DecidableEq

/-- External messages, and internal ones; `marked` where one reaches an entry with `saveMsg`. -/
inductive Input (Cell Msg : Type)
  | external (now : ℕ) (cell : Cell)
  | internal (now : ℕ) (msg : Msg) (marked : Bool)

namespace Messages

/-- `messages[expireAt][messageHash]`. -/
def has (m : Messages) (expireAt messageHash : ℕ) : Bool :=
  ((m.get? expireAt).getD ∅).read messageHash

/-- The loop of `gc` over the buckets, in increasing order of their expiry. -/
def gcFrom (now : ℕ) : ℕ → List (ℕ × Mapping ℕ Bool) → Messages → Messages
  | _, [], m => m
  | counter, (expireAt, _) :: rest, m =>
    if MAX_CLEANUP_ITERATIONS ≤ counter then m
    else if expireAt ≤ now then gcFrom now (counter + 1) rest (m.erase expireAt)
    else m

def gc (m : Messages) (now : ℕ) : Messages := gcFrom now 0 m.entries m

def record (m : Messages) (info : MessageInfo) : Messages :=
  m.insert info.expireAt
    (AList.insert info.messageHash true ((m.get? info.expireAt).getD ∅))

section Records

variable (m : Messages) (now : ℕ)

theorem get?_gcFrom (counter : ℕ) (l : List (ℕ × Mapping ℕ Bool)) (e : ℕ) :
    (gcFrom now counter l m).get? e = m.get? e ∨
      (e ≤ now ∧ (gcFrom now counter l m).get? e = none) := by
  induction l generalizing counter m with
  | nil => exact .inl rfl
  | cons b rest ih =>
    obtain ⟨expireAt, bucket⟩ := b
    simp only [gcFrom]
    split_ifs with hc hnow
    · exact .inl rfl
    · by_cases he : e = expireAt
      · subst he
        rcases ih (m.erase e) (counter + 1) with h | h
        · exact .inr ⟨hnow, h.trans (m.get?_erase_self e)⟩
        · exact .inr h
      · rcases ih (m.erase expireAt) (counter + 1) with h | h
        · exact .inl (h.trans (m.get?_erase_of_ne he))
        · exact .inr h
    · exact .inl rfl

theorem has_gc_of_lt {e : ℕ} (h : ℕ) (he : now < e) : (m.gc now).has e h = m.has e h := by
  rcases m.get?_gcFrom now 0 m.entries e with h' | ⟨hle, _⟩
  · rw [has, gc, h', has]
  · exact absurd he hle.not_gt

theorem has_of_gc {e h : ℕ} (hg : (m.gc now).has e h) : m.has e h := by
  rcases m.get?_gcFrom now 0 m.entries e with h' | ⟨_, h'⟩
  · rwa [has, gc, h'] at hg
  · rw [has, gc, h'] at hg
    cases hg

theorem has_record (info : MessageInfo) (e h : ℕ) :
    (m.record info).has e h ↔ (e = info.expireAt ∧ h = info.messageHash) ∨ m.has e h := by
  by_cases he : e = info.expireAt
  · subst he
    simp only [has, record, Dict.get?_insert_self, Option.getD_some, true_and]
    rw [Mapping.read_insert]
    split_ifs with hh
    · simp [hh]
    · simp [hh]
  · simp only [has, record, Dict.get?_insert_of_ne _ _ he, he, false_and, false_or]

end Records

end Messages

section Entries

variable {Cell Msg σ : Type} (C : SignedContract Cell Msg σ) (s : State σ) (now : ℕ) (cell : Cell)

/-- The hook that runs once the signature was checked. -/
def afterSignatureCheck (messages : Messages) : Except Outcome MessageInfo :=
  if ¬ now < C.expireAt cell then .error .expired
  else if ¬ C.expireAt cell < now + MAX_EXPIRY_WINDOW then .error .hugeExpireAt
  else if messages.has (C.expireAt cell) (C.hash cell) then .error .duplicate
  else .ok ⟨C.hash cell, C.expireAt cell⟩

def saveMsg : State σ := { s with messages := (s.messages.gc now).record s.lastMessage }

/-- An external message to an entry marked with `saveMsg`. -/
def receive : Outcome × State σ :=
  match afterSignatureCheck C now cell s.messages with
  | .error outcome => (outcome, s)
  | .ok info =>
    if C.admits s.storage now cell then
      -- The transaction commits behind `saveMsg`: a body that throws takes nothing of it back.
      let s := saveMsg { s with lastMessage := info } now
      match C.body s.storage now cell with
      | none => (.saved true, s)
      | some storage => (.saved false, { s with storage := storage })
    else (.refused, s)

/-- Block time never goes back. -/
def step : Input Cell Msg → Option (State σ)
  | .external now cell =>
    if s.clock ≤ now then some { (receive C s now cell).2 with clock := now } else none
  | .internal now msg marked =>
    if s.clock ≤ now then
      let s := if marked then saveMsg s now else s
      some { s with storage := C.onInternal s.storage now msg, clock := now }
    else none

def Outcome.isSaved : Outcome → Bool
  | .saved _ => true
  | _ => false

/-- How often a step lets `cell` past `saveMsg`. -/
def passes [DecidableEq Cell] : Input Cell Msg → ℕ
  | .external now c => if cell = c ∧ (receive C s now c).1.isSaved then 1 else 0
  | .internal .. => 0

variable {C s now cell}

theorem afterSignatureCheck_ok {messages : Messages} {info : MessageInfo} :
    afterSignatureCheck C now cell messages = .ok info ↔
      now < C.expireAt cell ∧ C.expireAt cell < now + MAX_EXPIRY_WINDOW ∧
        messages.has (C.expireAt cell) (C.hash cell) = false ∧
        info = ⟨C.hash cell, C.expireAt cell⟩ := by
  unfold afterSignatureCheck
  by_cases h1 : now < C.expireAt cell
  · by_cases h2 : C.expireAt cell < now + MAX_EXPIRY_WINDOW
    · cases h3 : messages.has (C.expireAt cell) (C.hash cell) with
      | true => simp [h1, h2]
      | false => simp [h1, h2, eq_comm]
    · simp [h1, h2]
  · simp [h1]

theorem isSaved_afterSignatureCheck {messages : Messages} {outcome : Outcome}
    (h : afterSignatureCheck C now cell messages = .error outcome) : outcome.isSaved = false := by
  unfold afterSignatureCheck at h
  split_ifs at h
  all_goals
    cases h
    rfl

variable [DecidableEq Cell] {t : State σ} {i : Input Cell Msg}

/-- What one step does: nothing to the records, once more the last message, or a message that
passes. -/
inductive Moves (C : SignedContract Cell Msg σ) (s : State σ) (i : Input Cell Msg) (t : State σ) :
    Prop
  | idle (hp : ∀ c, passes C s c i = 0) (hm : t.messages = s.messages)
      (hl : t.lastMessage = s.lastMessage)
  | again (hp : ∀ c, passes C s c i = 0)
      (hm : t.messages = (s.messages.gc t.clock).record s.lastMessage)
      (hl : t.lastMessage = s.lastMessage)
  | pass (c : Cell) (hp : ∀ c', passes C s c' i = if c' = c then 1 else 0)
      (hnow : t.clock < C.expireAt c)
      (hnew : s.messages.has (C.expireAt c) (C.hash c) = false)
      (hm : t.messages = (s.messages.gc t.clock).record ⟨C.hash c, C.expireAt c⟩)
      (hl : t.lastMessage = ⟨C.hash c, C.expireAt c⟩)

theorem step_moves (h : step C s i = some t) : s.clock ≤ t.clock ∧ Moves C s i t := by
  cases i with
  | internal =>
    simp only [step] at h
    split_ifs at h with hc hm
    · cases h
      exact ⟨hc, .again (fun _ => rfl) rfl rfl⟩
    · cases h
      exact ⟨hc, .idle (fun _ => rfl) rfl rfl⟩
  | external now c =>
    simp only [step] at h
    split_ifs at h with hc
    cases h
    refine ⟨hc, ?_⟩
    cases hk : afterSignatureCheck C now c s.messages with
    | error outcome =>
      have hr : receive C s now c = (outcome, s) := by simp only [receive, hk]
      rw [hr]
      refine .idle (fun c' => ?_) rfl rfl
      simp [passes, hr, isSaved_afterSignatureCheck hk]
    | ok =>
      obtain ⟨hlt, -, hnew, rfl⟩ := afterSignatureCheck_ok.mp hk
      cases ha : C.admits s.storage now c with
      | false =>
        have hr : receive C s now c = (.refused, s) := by simp [receive, hk, ha]
        rw [hr]
        refine .idle (fun c' => ?_) rfl rfl
        simp [passes, hr, Outcome.isSaved]
      | true =>
        have hr : (receive C s now c).1.isSaved = true ∧
            (receive C s now c).2.messages =
              (s.messages.gc now).record ⟨C.hash c, C.expireAt c⟩ ∧
            (receive C s now c).2.lastMessage = ⟨C.hash c, C.expireAt c⟩ := by
          simp only [receive, hk, ha, if_true, saveMsg]
          cases C.body s.storage now c with
          | none => exact ⟨rfl, rfl, rfl⟩
          | some => exact ⟨rfl, rfl, rfl⟩
        refine .pass c (fun c' => ?_) hlt hnew hr.2.1 hr.2.2
        simp [passes, hr.1]

end Entries

section Runs

variable {Cell Msg σ : Type} {C : SignedContract Cell Msg σ} {s t : State σ}

/-- What holds between the messages a run let pass and the records it keeps. -/
structure Kept (C : SignedContract Cell Msg σ) (n : Cell → ℕ) (t : State σ) : Prop where
  once : ∀ c, n c ≤ 1
  /-- A message that passed has its record for as long as it could pass the expiry check. -/
  recorded : ∀ c, 0 < n c → t.clock < C.expireAt c →
    t.messages.has (C.expireAt c) (C.hash c) = true
  /-- A record is that of a message that passed, or the one of an empty `lastMessage`. -/
  genuine : ∀ e h, t.messages.has e h = true →
    e = 0 ∨ ∃ c, e = C.expireAt c ∧ h = C.hash c ∧ 0 < n c
  last : t.lastMessage.expireAt = 0 ∨
    ∃ c, t.lastMessage = ⟨C.hash c, C.expireAt c⟩ ∧ 0 < n c

variable {n n' : Cell → ℕ}

theorem Kept.idle (h : Kept C n s) (hclock : s.clock ≤ t.clock) (hm : t.messages = s.messages)
    (hl : t.lastMessage = s.lastMessage) : Kept C n t where
  once := h.once
  recorded c hc hlt := by
    rw [hm]
    exact h.recorded c hc (hclock.trans_lt hlt)
  genuine := by
    rw [hm]
    exact h.genuine
  last := by
    rw [hl]
    exact h.last

theorem Kept.again (h : Kept C n s) (hclock : s.clock ≤ t.clock)
    (hm : t.messages = (s.messages.gc t.clock).record s.lastMessage)
    (hl : t.lastMessage = s.lastMessage) : Kept C n t where
  once := h.once
  recorded c hc hlt := by
    rw [hm, Messages.has_record, s.messages.has_gc_of_lt _ _ hlt]
    exact .inr (h.recorded c hc (hclock.trans_lt hlt))
  genuine e k hk := by
    rw [hm, Messages.has_record] at hk
    rcases hk with ⟨rfl, rfl⟩ | hk
    · rcases h.last with h0 | ⟨c, hc, hn⟩
      · exact .inl h0
      · rw [hc]
        exact .inr ⟨c, rfl, rfl, hn⟩
    · exact h.genuine e k (s.messages.has_of_gc _ hk)
  last := by
    rw [hl]
    exact h.last

variable [DecidableEq Cell]

theorem Kept.pass {c : Cell} (h : Kept C n s) (hclock : s.clock ≤ t.clock)
    (hn : ∀ c', n' c' = n c' + if c' = c then 1 else 0)
    (hnow : t.clock < C.expireAt c)
    (hnew : s.messages.has (C.expireAt c) (C.hash c) = false)
    (hm : t.messages = (s.messages.gc t.clock).record ⟨C.hash c, C.expireAt c⟩)
    (hl : t.lastMessage = ⟨C.hash c, C.expireAt c⟩) : Kept C n' t where
  once c' := by
    rw [hn]
    split_ifs with hc
    · subst hc
      -- It is new, so it cannot have passed before.
      have h0 : n c' = 0 := by
        by_contra hpos
        have hr := h.recorded c' (Nat.pos_of_ne_zero hpos) (hclock.trans_lt hnow)
        rw [hnew] at hr
        cases hr
      omega
    · exact h.once c'
  recorded c' hc hlt := by
    rw [hm, Messages.has_record, s.messages.has_gc_of_lt _ _ hlt]
    rw [hn] at hc
    split_ifs at hc with he
    · subst he
      exact .inl ⟨rfl, rfl⟩
    · exact .inr (h.recorded c' hc (hclock.trans_lt hlt))
  genuine e k hk := by
    rw [hm, Messages.has_record] at hk
    rcases hk with ⟨rfl, rfl⟩ | hk
    · refine .inr ⟨c, rfl, rfl, ?_⟩
      rw [hn, if_pos rfl]
      exact Nat.succ_pos _
    · rcases h.genuine e k (s.messages.has_of_gc _ hk) with h0 | ⟨c', he, hk', hpos⟩
      · exact .inl h0
      · refine .inr ⟨c', he, hk', ?_⟩
        rw [hn]
        omega
  last := by
    refine .inr ⟨c, hl, ?_⟩
    rw [hn, if_pos rfl]
    exact Nat.succ_pos _

variable {tr : List (Input Cell Msg × State σ)} {storage : σ} {clock : ℕ}

/-- How often a run let a message past `saveMsg`. -/
def passed (C : SignedContract Cell Msg σ) (s : State σ) (tr : List (Input Cell Msg × State σ))
    (cell : Cell) : ℕ :=
  Run.total (fun s i _ => passes C s cell i) s tr

theorem passed_concat (C : SignedContract Cell Msg σ) (s u : State σ)
    (tr : List (Input Cell Msg × State σ)) (i : Input Cell Msg) (cell : Cell) :
    passed C s (tr ++ [(i, u)]) cell = passed C s tr cell + passes C (Run.last s tr) cell i :=
  Run.total_concat _ s u tr i

theorem run_kept (h : Run (step C) (init storage clock) tr t) :
    Kept C (passed C (init storage clock) tr) t := by
  induction h with
  | nil =>
    refine ⟨fun _ => Nat.zero_le 1, fun c hc => absurd hc (lt_irrefl 0), ?_, .inl rfl⟩
    intro e k hk
    cases hk
  | @snoc tr t u i hr hi ih =>
    obtain ⟨hclock, hmove⟩ := step_moves hi
    have hcount := passed_concat C (init storage clock) u tr i
    rw [hr.last_eq] at hcount
    cases hmove with
    | idle hp hm hl =>
      have hsame : passed C (init storage clock) (tr ++ [(i, u)]) =
          passed C (init storage clock) tr := funext fun c => by rw [hcount, hp, Nat.add_zero]
      rw [hsame]
      exact ih.idle hclock hm hl
    | again hp hm hl =>
      have hsame : passed C (init storage clock) (tr ++ [(i, u)]) =
          passed C (init storage clock) tr := funext fun c => by rw [hcount, hp, Nat.add_zero]
      rw [hsame]
      exact ih.again hclock hm hl
    | pass c hp hnow hnew hm hl =>
      refine ih.pass hclock (fun c' => ?_) hnow hnew hm hl
      rw [hcount, hp]

/-- In every run a message gets past `saveMsg` at most once. Cleaning keeps the record of each
message that has not expired, and one that never passed is not refused as a duplicate. -/
theorem replay_protection (h : Run (step C) (init storage clock) tr t) :
    (∀ c, passed C (init storage clock) tr c ≤ 1) ∧
    (∀ now e k, now < e → t.messages.has e k → (t.messages.gc now).has e k) ∧
    (∀ now c, t.clock ≤ now → now < C.expireAt c → 0 < passed C (init storage clock) tr c →
      (t.messages.gc now).has (C.expireAt c) (C.hash c)) ∧
    ∀ now c, now < C.expireAt c → C.expireAt c < now + MAX_EXPIRY_WINDOW →
      passed C (init storage clock) tr c = 0 →
      afterSignatureCheck C now c t.messages = .ok ⟨C.hash c, C.expireAt c⟩ := by
  have hk := run_kept h
  refine ⟨hk.once, ?_, ?_, ?_⟩
  · intro now e k hlt hhas
    rwa [t.messages.has_gc_of_lt _ k hlt]
  · intro now c hclock hlt hpos
    rw [t.messages.has_gc_of_lt _ _ hlt]
    exact hk.recorded c hpos (hclock.trans_lt hlt)
  · intro now c h1 h2 h0
    refine afterSignatureCheck_ok.mpr ⟨h1, h2, ?_, rfl⟩
    by_contra hhas
    rw [Bool.not_eq_false] at hhas
    rcases hk.genuine _ _ hhas with he | ⟨c', -, hhash, hpos⟩
    · omega
    · rw [← C.hash_injective hhash, h0] at hpos
      exact absurd hpos (lt_irrefl 0)

/-- A contract whose entry throws behind the commit, sent one message twice: it passes once, its
record outlives a cleaning, and another message is still let through. -/
theorem replay_protection_thrown :
    let C : SignedContract ℕ Unit Unit :=
      ⟨id, Function.injective_id, fun c => c % 2 ^ 32, fun _ _ _ => true, fun _ _ _ => none,
        fun s _ _ => s⟩
    let tr := Run.trace (step C) (init () 50) [.external 50 100, .external 60 100]
    let m := (Run.last (init () 50) tr).messages
    (receive C (init () 50) 50 100).1 = .saved true ∧ tr.length = 2 ∧
      passed C (init () 50) tr 100 ≤ 1 ∧ (m.gc 70).has 100 100 ∧ (m.gc 80).has 100 100 ∧
      afterSignatureCheck C 60 101 m = .ok ⟨101, 101⟩ := by
  intro C tr m
  obtain ⟨honce, hkept, hrecord, hfresh⟩ := replay_protection (Run.trace_run (step C) (init () 50)
    [.external 50 100, .external 60 100])
  exact ⟨by decide, by decide, honce 100, hrecord 70 100 (by decide) (by decide) (by decide),
    hkept 80 100 100 (by decide) (by decide), hfresh 60 101 (by decide) (by decide) (by decide)⟩

end Runs

end ReplayProtection

end Dexdo
