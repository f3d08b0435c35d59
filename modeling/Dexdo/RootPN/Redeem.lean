import Dexdo.Lib.OneShot
import Dexdo.Lib.Run
import Dexdo.RootPN.Root

namespace Dexdo.RootPN

variable {Proof : Type}

/-- The note a message deploys, with its value. -/
def Mail.note? : Mail → Option (NoteAddr × ℕ)
  | .deployNote note value _ _ => some (note, value)
  | _ => none

/-- The nullifier a message deploys, with the value it forwards. -/
def Mail.nullifier? : Mail → Option (NullifierAddr × ℕ)
  | .deployNullifier nullifier _ value => some (nullifier, value)
  | _ => none

/-- Value a note of deposit `d` reports to the root. -/
def Mail.reported (d : ℕ) : Mail → ℕ
  | .privateNoteDeployed note _ value => if note.depositIdentifierHash = d then value else 0
  | _ => 0

/-- Deposit whose voucher is presented for a note. -/
def Event.deposit? : Event Proof → Option ℕ
  | .deployPrivateNote a => some a.depositIdentifierHash
  | _ => none

/-- Hash of the fee voucher that is presented. -/
def Event.fee? : Event Proof → Option ℕ
  | .sendEccShellToPrivateNote a => some a.nullifierHash
  | _ => none

/-- The voucher an event emits. -/
def Event.issued : Event Proof → List Voucher
  | .generateVoucher currencies skUCommit isFee =>
    (RootPN.generateVoucher currencies skUCommit isFee).toOption.toList
  | _ => []

/-- Vouchers that can deploy a note. -/
def nonFee (emitted : List Voucher) : List Voucher :=
  emitted.filter fun v => decide (v.tokenType ≠ CURRENCIES_ID_SHELL_FEE)

def Event.isArrival : Event Proof → Bool
  | .arrive _ _ => true
  | _ => false

/-- A kind of account the root deploys: those that exist, what a message deploys, and the hash an
account is for. -/
structure DeployKind (α : Type) where
  accounts : Vault → List α
  deploy? : Mail → Option (α × ℕ)
  hash : α → ℕ

namespace DeployKind

def forNotes : DeployKind NoteAddr := ⟨Vault.notes, Mail.note?, NoteAddr.depositIdentifierHash⟩

def forNullifiers : DeployKind NullifierAddr :=
  ⟨Vault.nullifiers, Mail.nullifier?, NullifierAddr.nullifierHash⟩

variable {α : Type} (K : DeployKind α)

/-- Accounts that exist or are on their way. -/
def seats (s : Vault) : List α := K.accounts s ++ (s.mail.filterMap K.deploy?).map Prod.fst

def desk (s : Vault) : OneShot.Desk α :=
  ⟨K.accounts s, (s.mail : Multiset Mail).filterMap K.deploy?⟩

variable [DecidableEq α]

/-- The account a message makes, with the value it brings. -/
def made (s : Vault) (fails : Bool) (m : Mail) : Option (α × ℕ) :=
  (K.deploy? m).filter fun x => decide (¬ (fails = true ∨ x.1 ∈ K.accounts s))

/-- The account an event makes. -/
def new? (s : Vault) : Event Proof → Option (α × ℕ)
  | .arrive i fails => (s.mail[i]?).bind (K.made s fails)
  | _ => none

/-- Value an event brings to an account for the hash `k`. -/
def brought (k : ℕ) (s : Vault) (e : Event Proof) (_ : Vault) : ℕ :=
  OneShot.landed K.hash k (K.new? s e)

end DeployKind

namespace Vault

/-- A voucher that is presented for a note aims at the note it aimed at before: what exists or is
on its way for its hash was derived from the note code the root holds now. -/
def AimsNote (s : Vault) (e : Event Proof) : Prop :=
  ∀ d ∈ e.deposit?, ∀ a ∈ DeployKind.forNotes.seats s, a.depositIdentifierHash = d →
    a.code = s.root.privateNoteCode

instance (s : Vault) (e : Event Proof) : Decidable (s.AimsNote e) :=
  inferInstanceAs (Decidable (∀ d ∈ e.deposit?, _))

/-- A voucher that is presented aims at the account it aimed at before, a note or a nullifier. -/
structure Aims (s : Vault) (e : Event Proof) : Prop where
  note : s.AimsNote e
  nullifier : ∀ k ∈ e.fee?, ∀ n ∈ DeployKind.forNullifiers.seats s, n.nullifierHash = k →
    n.code = s.root.nullifierCode

instance (s : Vault) (e : Event Proof) : Decidable (s.Aims e) :=
  decidable_of_iff (s.AimsNote e ∧
    ∀ k ∈ e.fee?, ∀ n ∈ DeployKind.forNullifiers.seats s, n.nullifierHash = k →
      n.code = s.root.nullifierCode)
    ⟨fun h => ⟨h.1, h.2⟩, fun h => ⟨h.1, h.2⟩⟩

/-- The message an event delivers. -/
def delivered? (s : Vault) : Event Proof → Option Mail
  | .arrive i _ => s.mail[i]?
  | _ => none

/-- What an event puts on the balance of a note of deposit `d`. -/
def credited (d : ℕ) : Vault → Event Proof → Vault → ℕ := DeployKind.forNotes.brought d

/-- What the root forwards to a note for the nullifier hash `k`. -/
def forwarded (k : ℕ) : Vault → Event Proof → Vault → ℕ := DeployKind.forNullifiers.brought k

/-- What an event adds to `_deployedValues` for deposit `d`. -/
def deployed (d : ℕ) (s : Vault) (e : Event Proof) (t : Vault) : ℕ :=
  match s.delivered? e with
  | some (.privateNoteDeployed note tokenType _) =>
    if note.depositIdentifierHash = d then
      t.root.deployedValues tokenType - s.root.deployedValues tokenType
    else 0
  | _ => 0

/-- A voucher of hash `k` was emitted that stands for at least `n`. -/
def Worth (node : Prover Proof) (emitted : List Voucher) (k n : ℕ) : Prop :=
  ∃ v ∈ emitted, node.dihOf v = k ∧ n ≤ v.voucherNominal

/-- The vault after a message is taken from the mail. -/
def taken (s : Vault) (i : ℕ) : Vault := { s with mail := s.mail.eraseIdx i }

variable {node : Prover Proof} {s t : Vault} {e : Event Proof} {m : Mail} {i : ℕ} {fails : Bool}

section Admission

theorem value_le {value nominal fr : ℕ} (hlt : value < 2 ^ 64) (hv : u64ToFr value = fr)
    (hn : u256ToFr nominal = fr) : value ≤ nominal := by
  rw [u64ToFr_agrees hlt, ← hn] at hv
  have hmod : value % FR_MODULUS = nominal % FR_MODULUS := u256ToFr_eq_iff.mp hv
  rw [Nat.mod_eq_of_lt (u64_lt hlt)] at hmod
  rw [hmod]
  exact Nat.mod_le _ _

theorem admits_worth {a : DeployArgs Proof} (h : s.admits node a = true) :
    Worth node (nonFee s.emitted) a.depositIdentifierHash a.value := by
  simp only [admits, Bool.and_eq_true, decide_eq_true_eq] at h
  obtain ⟨⟨⟨⟨⟨⟨hroot, hvalue⟩, htype⟩, -⟩, -⟩, hfee⟩, hproof⟩ := h
  obtain ⟨v, hv, ⟨hdih, hnominal, hfr⟩, -⟩ := node.sound hroot hproof
  have hne : v.tokenType ≠ CURRENCIES_ID_SHELL_FEE := by
    intro hx
    have hfr : u32ToFr CURRENCIES_ID_SHELL_FEE = a.tokenTypeFr := hx ▸ hfr
    exact hfee (u32ToFr_inj a.tokenType_lt (by decide) (htype.trans hfr.symm))
  exact ⟨v, List.mem_filter.mpr ⟨hv, decide_eq_true hne⟩, hdih,
    value_le a.value_lt hvalue hnominal⟩

theorem admitsFee_worth {a : FeeArgs Proof} (h : s.admitsFee node a = true) :
    Worth node s.emitted a.nullifierHash a.value := by
  simp only [admitsFee, Bool.and_eq_true, decide_eq_true_eq] at h
  obtain ⟨⟨⟨⟨⟨-, -⟩, hroot⟩, hvalue⟩, -⟩, hproof⟩ := h
  obtain ⟨v, hv, ⟨hdih, hnominal, -⟩, -⟩ := node.sound hroot hproof
  exact ⟨v, hv, hdih, value_le a.value_lt hvalue hnominal⟩

theorem Worth.mono {emitted emitted' : List Voucher} {k n : ℕ} (h : Worth node emitted k n)
    (hsub : ∀ v ∈ emitted, v ∈ emitted') : Worth node emitted' k n := by
  obtain ⟨v, hv, hrest⟩ := h
  exact ⟨v, hsub v hv, hrest⟩

end Admission

section Steps

theorem step_arrive (h : s.step node (.arrive i fails) = some t) :
    ∃ m, s.mail[i]? = some m ∧ t = (s.taken i).receive fails m := by
  simp only [step] at h
  split at h
  · cases h
  · rename_i m hm
    exact ⟨m, hm, (Option.some.inj h).symm⟩

theorem withRoot_eq {r : Option Root} (h : s.withRoot r = some t) :
    ∃ root, r = some root ∧ t = { s with root := root } := by
  cases r with
  | none => cases h
  | some root => exact ⟨root, rfl, (Option.some.inj h).symm⟩

/-- What a message that a call sends can be. -/
structure Sends (node : Prover Proof) (s : Vault) (e : Event Proof) (m : Mail) : Prop where
  note : ∀ x ∈ m.note?, x.1.depositIdentifierHash ∈ e.deposit? ∧
    x.1.code = s.root.privateNoteCode ∧
    Worth node (nonFee s.emitted) x.1.depositIdentifierHash x.2
  nullifier : ∀ x ∈ m.nullifier?, x.1.nullifierHash ∈ e.fee? ∧
    x.1.code = s.root.nullifierCode ∧ Worth node s.emitted x.1.nullifierHash x.2
  reported : ∀ d, m.reported d = 0

/-- An event is a call, which sends at most one message, or an arrival. -/
inductive Turn (node : Prover Proof) (s : Vault) : Event Proof → Vault → Prop
  | call {e : Event Proof} {t : Vault} (he : e.isArrival = false) (hn : t.notes = s.notes)
      (hk : t.nullifiers = s.nullifiers) (hv : t.emitted = s.emitted ++ e.issued)
      (hm : t.mail = s.mail ∨ ∃ m, t.mail = s.mail ++ [m] ∧ Sends node s e m) : Turn node s e t
  | arrived {i : ℕ} {fails : Bool} {m : Mail} (hm : s.mail[i]? = some m) :
      Turn node s (.arrive i fails) ((s.taken i).receive fails m)

theorem step_turn (h : s.step node e = some t) : Turn node s e t := by
  have hsame : s.emitted = s.emitted ++ [] := (List.append_nil _).symm
  have hroot : ∀ {r : Option Root} {e : Event Proof}, e.isArrival = false →
      s.emitted = s.emitted ++ e.issued → s.withRoot r = some t → Turn node s e t := by
    intro r e he hv hr
    obtain ⟨root, -, rfl⟩ := withRoot_eq hr
    exact .call he rfl rfl hv (.inl rfl)
  cases e with
  | generateVoucher currencies skUCommit isFee =>
    simp only [step] at h
    split at h
    · cases h
    · rename_i v hv
      cases h
      refine .call rfl rfl rfl ?_ (.inl rfl)
      rw [Event.issued, hv]
      rfl
  | deployPrivateNote =>
    simp only [step] at h
    split_ifs at h with ha
    cases h
    refine .call rfl rfl rfl hsame (.inr ⟨_, rfl, ?_, ?_, fun _ => rfl⟩)
    · intro x hx
      cases hx
      exact ⟨rfl, rfl, admits_worth ha.1⟩
    · intro x hx
      cases hx
  | sendEccShellToPrivateNote =>
    simp only [step] at h
    split_ifs at h with ha
    cases h
    refine .call rfl rfl rfl hsame (.inr ⟨_, rfl, ?_, ?_, fun _ => rfl⟩)
    · intro x hx
      cases hx
    · intro x hx
      cases hx
      exact ⟨rfl, rfl, admitsFee_worth ha.1⟩
  | withdrawTokens =>
    simp only [step, withdraw] at h
    split_ifs at h with hn
    cases h
    refine .call rfl rfl rfl hsame (.inr ⟨_, rfl, ?_, ?_, fun _ => rfl⟩)
    · intro x hx
      cases hx
    · intro x hx
      cases hx
  | receive =>
    cases h
    exact .call rfl rfl rfl hsame (.inl rfl)
  | trade =>
    simp only [step] at h
    split_ifs at h with hn
    cases h
    exact .call rfl rfl rfl hsame (.inl rfl)
  | arrive =>
    obtain ⟨m, hm, rfl⟩ := step_arrive h
    exact .arrived hm
  | updateCode => exact hroot rfl hsame h
  | setPrivateNoteCode => exact hroot rfl hsame h
  | setPrevPrivateNoteCode => exact hroot rfl hsame h
  | setInferenceOrderBookCode => exact hroot rfl hsame h
  | setTokenContractCode => exact hroot rfl hsame h
  | reportDealWriteOff => exact hroot rfl hsame h
  | collectProtocolFee => exact hroot rfl hsame h
  | withdrawProtocolFees => exact hroot rfl hsame h

theorem receive_emitted : (s.receive fails m).emitted = s.emitted := by
  cases m with
  | deployNote =>
    rw [receive]
    split_ifs
    · rfl
    · rfl
  | deployNullifier =>
    rw [receive]
    split_ifs
    · rfl
    · rfl
  | withdrawTokens =>
    rw [receive]
    split
    · rfl
    · rfl
    · rfl
  | _ => rfl

theorem Turn.emitted (h : Turn node s e t) : t.emitted = s.emitted ++ e.issued := by
  cases h with
  | call _ _ _ hv _ => exact hv
  | arrived _ => exact receive_emitted.trans (List.append_nil _).symm

theorem mail_erase {l : List Mail} (h : l[i]? = some m) :
    (l : Multiset Mail) = m ::ₘ (l.eraseIdx i : Multiset Mail) := by
  obtain ⟨hi, rfl⟩ := List.getElem?_eq_some_iff.mp h
  rw [Multiset.cons_coe]
  exact Multiset.coe_eq_coe.mpr (List.getElem_cons_eraseIdx_perm hi).symm

theorem mail_post (l : List Mail) : ((l ++ [m] : List Mail) : Multiset Mail) = m ::ₘ ↑l := by
  rw [Multiset.cons_coe]
  exact Multiset.coe_eq_coe.mpr (List.perm_append_singleton m l)

end Steps

end Vault

namespace DeployKind

open Vault

variable {node : Prover Proof} {s t : Vault} {e : Event Proof} {m : Mail} {i : ℕ} {fails : Bool}
  {α : Type} {K : DeployKind α}

section Desks

theorem mem_seats {a : α} : a ∈ K.seats s ↔ (K.desk s).Seated a := by
  simp [seats, OneShot.Desk.Seated, desk]

theorem flying_post (h : K.deploy? m = none) : (K.desk (s.post m)).flying = (K.desk s).flying := by
  simp only [desk, post]
  rw [mail_post, Multiset.filterMap_cons_none _ _ h]

theorem flying_deploy {x : α × ℕ} (h : K.deploy? m = some x) :
    (K.desk (s.post m)).flying = x ::ₘ (K.desk s).flying := by
  simp only [desk, post]
  rw [mail_post, Multiset.filterMap_cons_some _ _ _ h]

theorem flying_taken (h : s.mail[i]? = some m) :
    (K.desk s).flying = (K.desk ((s.taken i).post m)).flying := by
  simp only [desk, post, taken]
  rw [mail_erase h, mail_post]

theorem desk_eq {D : OneShot.Desk α} (ha : K.accounts t = D.accounts)
    (hf : (K.desk t).flying = D.flying) : K.desk t = D := by
  cases D
  cases ha
  cases hf
  rfl

variable [DecidableEq α]

/-- A kind whose accounts come from its deploys alone. -/
structure Lawful (K : DeployKind α) : Prop where
  accounts : ∀ s t, t.notes = s.notes → t.nullifiers = s.nullifiers → K.accounts t = K.accounts s
  receive : ∀ s fails m, K.desk (s.receive fails m) =
    ⟨(K.made s fails m).toList.map Prod.fst ++ K.accounts s, (K.desk s).flying⟩

theorem made_of_none (h : K.deploy? m = none) : K.made s fails m = none := by
  rw [made, h, Option.filter_none]

theorem made_of_some {x : α × ℕ} (h : K.deploy? m = some x) :
    K.made s fails m = if fails = true ∨ x.1 ∈ K.accounts s then none else some x := by
  rw [made, h, Option.filter_some]
  split_ifs <;> simp_all

theorem forNotes_lawful : forNotes.Lawful where
  accounts _ _ hn _ := hn
  receive s fails m := by
    have hquiet : ∀ m', m'.note? = none →
        forNotes.desk (s.post m') = ⟨s.notes, (forNotes.desk s).flying⟩ :=
      fun _ h => desk_eq rfl (flying_post h)
    cases m with
    | deployNote note value =>
      rw [made_of_some (x := (note, value)) rfl, Vault.receive]
      split_ifs with h h' h'
      · exact hquiet _ rfl
      · exact absurd h h'
      · exact absurd h' h
      · exact desk_eq rfl (flying_post rfl)
    | deployNullifier =>
      rw [made_of_none rfl, Vault.receive]
      split_ifs
      · exact hquiet _ rfl
      · exact desk_eq rfl (flying_post rfl)
    | withdrawTokens =>
      rw [made_of_none rfl, Vault.receive]
      split
      · rfl
      · exact hquiet _ rfl
      · rfl
    | _ => rfl

theorem forNullifiers_lawful : forNullifiers.Lawful where
  accounts _ _ _ hk := hk
  receive s fails m := by
    have hquiet : ∀ m', m'.nullifier? = none →
        forNullifiers.desk (s.post m') = ⟨s.nullifiers, (forNullifiers.desk s).flying⟩ :=
      fun _ h => desk_eq rfl (flying_post h)
    cases m with
    | deployNote =>
      rw [made_of_none rfl, Vault.receive]
      split_ifs
      · exact hquiet _ rfl
      · exact desk_eq rfl (flying_post rfl)
    | deployNullifier nullifier note value =>
      rw [made_of_some (x := (nullifier, value)) rfl, Vault.receive]
      split_ifs with h h' h'
      · exact hquiet _ rfl
      · exact absurd h h'
      · exact absurd h' h
      · exact desk_eq rfl (flying_post rfl)
    | withdrawTokens =>
      rw [made_of_none rfl, Vault.receive]
      split
      · rfl
      · exact hquiet _ rfl
      · rfl
    | _ => rfl

theorem new?_of_not_arrival (he : e.isArrival = false) : K.new? s e = none := by
  cases e with
  | arrive => cases he
  | _ => rfl

theorem new?_arrive (hm : s.mail[i]? = some m) :
    K.new? s (.arrive i fails : Event Proof) = K.made s fails m := by
  rw [new?, hm, Option.bind_some]

/-- Every event is a move of the desk, if deploys are only sent within their cap and where no other
account of their hash has a seat. -/
theorem Lawful.move {cap : ℕ → ℕ → Prop} (hK : K.Lawful) (h : Vault.Turn node s e t)
    (hsend : ∀ m, Sends node s e m → ∀ x ∈ K.deploy? m, cap (K.hash x.1) x.2 ∧
      ∀ b ∈ K.seats s, K.hash b = K.hash x.1 → b = x.1) :
    OneShot.Move K.hash cap (K.desk s) (K.new? s e) (K.desk t) := by
  cases h with
  | call he hn hk _ hm =>
    rw [new?_of_not_arrival he]
    have hacc : K.accounts t = K.accounts s := hK.accounts s t hn hk
    rcases hm with hm | ⟨m, hm, hsends⟩
    · have hdesk : K.desk t = K.desk s := by rw [desk, hacc, hm, desk]
      rw [hdesk]
      exact .stay _
    · have hfly : (K.desk t).flying = (K.desk (s.post m)).flying := by
        rw [desk, hm]
        rfl
      cases hd : K.deploy? m with
      | none =>
        rw [desk_eq (D := K.desk s) hacc (hfly.trans (flying_post hd))]
        exact .stay _
      | some x =>
        obtain ⟨hcap, hseat⟩ := hsend m hsends x hd
        rw [desk_eq (D := ⟨K.accounts s, x ::ₘ (K.desk s).flying⟩) hacc
          (hfly.trans (flying_deploy hd))]
        exact .send _ _ x (fun b hb hkey => hseat b (mem_seats.mpr hb) hkey) hcap
  | @arrived i fails m hm =>
    have hacc : K.accounts (s.taken i) = K.accounts s := hK.accounts s _ rfl rfl
    have hmade : K.made (s.taken i) fails m = K.made s fails m := by rw [made, hacc, made]
    rw [new?_arrive hm, hK.receive, hmade, hacc]
    cases hd : K.deploy? m with
    | none =>
      rw [made_of_none hd,
        desk_eq (D := ⟨K.accounts s, (K.desk (s.taken i)).flying⟩) rfl
          ((flying_taken hm).trans (flying_post hd))]
      exact .stay _
    | some x =>
      rw [made_of_some hd, desk_eq (D := ⟨K.accounts s, x ::ₘ (K.desk (s.taken i)).flying⟩) rfl
          ((flying_taken hm).trans (flying_deploy hd))]
      split_ifs with hf
      · exact .fail ..
      · exact .land _ _ x fun hx => hf (.inr hx)

end Desks

end DeployKind

namespace Vault

open DeployKind

variable {node : Prover Proof} {s t : Vault} {e : Event Proof} {m : Mail} {i : ℕ} {fails : Bool}

section Moves

theorem Turn.noteMove (h : Turn node s e t) (ha : s.AimsNote e) :
    OneShot.Move NoteAddr.depositIdentifierHash (Worth node (nonFee s.emitted)) (forNotes.desk s)
      (forNotes.new? s e) (forNotes.desk t) := by
  refine forNotes_lawful.move h fun m hm x hx => ?_
  obtain ⟨hd, hcode, hworth⟩ := hm.note x hx
  refine ⟨hworth, fun b hb hk => ?_⟩
  have hb' := ha _ hd b hb hk
  obtain ⟨⟨code, d⟩, n⟩ := x
  obtain ⟨code', d'⟩ := b
  cases hcode
  cases hb'
  cases hk
  rfl

theorem Turn.nullifierMove (h : Turn node s e t) (ha : s.Aims e) :
    OneShot.Move NullifierAddr.nullifierHash (Worth node s.emitted) (forNullifiers.desk s)
      (forNullifiers.new? s e) (forNullifiers.desk t) := by
  refine forNullifiers_lawful.move h fun m hm x hx => ?_
  obtain ⟨hd, hcode, hworth⟩ := hm.nullifier x hx
  refine ⟨hworth, fun b hb hk => ?_⟩
  have hb' := ha.nullifier _ hd b hb hk
  obtain ⟨⟨code, d⟩, n⟩ := x
  obtain ⟨code', d'⟩ := b
  cases hcode
  cases hb'
  cases hk
  rfl

/-- Reports of deposit `d` on their way. -/
def reports (d : ℕ) (s : Vault) : ℕ := (s.mail.map (Mail.reported d)).sum

theorem reports_post (d : ℕ) (s : Vault) (m : Mail) :
    (s.post m).reports d = s.reports d + m.reported d := by
  simp [reports, post]

theorem reports_taken (d : ℕ) (h : s.mail[i]? = some m) :
    s.reports d = (s.taken i).reports d + m.reported d := by
  have hperm : s.mail.Perm (m :: s.mail.eraseIdx i) := Multiset.coe_eq_coe.mp (mail_erase h)
  have hsum := (hperm.map (Mail.reported d)).sum_eq
  rw [List.map_cons, List.sum_cons] at hsum
  rw [reports, hsum, Nat.add_comm]
  rfl

theorem privateNoteDeployed_le (r : Root) (note : NoteAddr) (k tokenType value : ℕ) :
    (r.privateNoteDeployed note k tokenType value).deployedValues tokenType -
      r.deployedValues tokenType ≤ value := by
  rw [Root.privateNoteDeployed]
  split_ifs
  · simp
  · simp

theorem deployed_eq_zero {d : ℕ} (hm : s.mail[i]? = some m)
    (h : ∀ note tokenType value, m ≠ .privateNoteDeployed note tokenType value) :
    s.deployed d (.arrive i fails : Event Proof) t = 0 := by
  rw [deployed, delivered?, hm]
  split
  · rename_i note tokenType value heq
    exact absurd (Option.some.inj heq) (h note tokenType value)
  · rfl

/-- What a deposit adds to `_deployedValues` comes from a note that was credited. -/
theorem Turn.deployed_le (h : Turn node s e t) (d : ℕ) :
    s.deployed d e t + t.reports d ≤ s.reports d + s.credited d e t := by
  cases h with
  | call he _ _ _ hm =>
    have hnone : s.deployed d e t = 0 := by
      cases e with
      | arrive => cases he
      | _ => rfl
    have hmail : t.reports d = s.reports d := by
      rcases hm with hm | ⟨m, hm, hsends⟩
      · rw [reports, hm, reports]
      · rw [reports, hm, List.map_append, List.sum_append, reports]
        simp [hsends.reported d]
    omega
  | @arrived i fails m hm =>
    have htaken := reports_taken d hm
    cases m with
    | deployNote note value key tokenType =>
      rw [deployed_eq_zero hm (by simp), credited, brought, new?_arrive hm,
        made_of_some (x := (note, value)) rfl]
      by_cases hf : fails = true ∨ note ∈ s.notes
      · have ht : (s.taken i).receive fails (.deployNote note value key tokenType) =
          (s.taken i).post (.bounce GAS_DEPOSIT) := if_pos hf
        rw [ht, reports_post]
        simp only [Mail.reported] at htaken ⊢
        omega
      · have ht : (s.taken i).receive fails (.deployNote note value key tokenType) =
          (s.taken i).construct note value key tokenType := if_neg hf
        have hrep : ((s.taken i).construct note value key tokenType).reports d =
            (s.taken i).reports d + if note.depositIdentifierHash = d then value else 0 :=
          reports_post ..
        have hmade : (if fails = true ∨ note ∈ forNotes.accounts s then none
            else some (note, value)) = some (note, value) := if_neg hf
        have hland : OneShot.landed forNotes.hash d (some (note, value)) =
            if note.depositIdentifierHash = d then value else 0 := rfl
        rw [ht, hrep, hmade, hland]
        simp only [Mail.reported] at htaken
        omega
    | privateNoteDeployed note tokenType value =>
      have hle := privateNoteDeployed_le s.root note note.depositIdentifierHash tokenType value
      have hrep : ((s.taken i).receive fails
        (.privateNoteDeployed note tokenType value)).reports d = (s.taken i).reports d := rfl
      have hdep : s.deployed d (.arrive i fails : Event Proof)
          ((s.taken i).receive fails (.privateNoteDeployed note tokenType value)) ≤
            if note.depositIdentifierHash = d then value else 0 := by
        simp only [deployed, delivered?, hm]
        split_ifs
        · exact hle
        · exact le_rfl
      rw [hrep, htaken]
      simp only [Mail.reported]
      omega
    | withdrawTokens note amounts held =>
      have hrep : ((s.taken i).receive fails (.withdrawTokens note amounts held)).reports d =
          (s.taken i).reports d := by
        rw [receive]
        split
        · rfl
        · rw [reports_post]
          rfl
        · rfl
      rw [deployed_eq_zero hm (by simp), hrep, htaken]
      omega
    | deployNullifier nullifier note value =>
      have hrep : ((s.taken i).receive fails (.deployNullifier nullifier note value)).reports d =
          (s.taken i).reports d := by
        rw [receive]
        split_ifs
        · rw [reports_post]
          rfl
        · exact (reports_post ..).trans rfl
      rw [deployed_eq_zero hm (by simp), hrep, htaken]
      omega
    | _ =>
      rw [deployed_eq_zero hm (by simp), htaken]
      exact (Nat.zero_add _).le.trans ((Nat.le_add_right ..).trans (Nat.le_add_right ..))

end Moves

section Runs

variable {root : Root} {tr : List (Event Proof × Vault)}

theorem Turn.worth_mono (h : Turn node s e t) {k n : ℕ} (hw : Worth node s.emitted k n) :
    Worth node t.emitted k n :=
  hw.mono fun _ hv => h.emitted ▸ List.mem_append_left _ hv

theorem nonFee_subset {emitted : List Voucher} : ∀ v ∈ nonFee emitted, v ∈ emitted :=
  fun _ hv => (List.mem_filter.mp hv).1

/-- What landed at the desk of the notes is within the vouchers that can deploy a note. -/
theorem run_notes (h : Run (step node) (init root) tr s)
    (ha : Run.Each (fun s e _ => s.AimsNote e) (init root) tr) :
    OneShot.Within NoteAddr.depositIdentifierHash (Worth node (nonFee s.emitted))
      (forNotes.desk s) fun d => Run.total (credited d) (init root) tr := by
  refine h.invariant_each (fun tr s => OneShot.Within NoteAddr.depositIdentifierHash
    (Worth node (nonFee s.emitted)) (forNotes.desk s)
    fun d => Run.total (credited d) (init root) tr) .empty ?_ ha
  intro tr s e t hr ih haim hs
  have hturn := step_turn hs
  have hworth (k n : ℕ) (hw : Worth node (nonFee s.emitted) k n) :
      Worth node (nonFee t.emitted) k n := by
    refine hw.mono fun v hv => ?_
    rw [hturn.emitted, nonFee, List.filter_append]
    exact List.mem_append_left _ hv
  have hnext := (ih.move (hturn.noteMove haim)).mono hworth
  simp only [Run.total_concat, hr.last_eq]
  exact hnext

/-- What landed at the desk of the nullifiers is within the vouchers. -/
theorem run_nullifiers (h : Run (step node) (init root) tr s)
    (ha : Run.Each (fun s e _ => s.Aims e) (init root) tr) :
    OneShot.Within NullifierAddr.nullifierHash (Worth node s.emitted) (forNullifiers.desk s)
      fun k => Run.total (forwarded k) (init root) tr := by
  refine h.invariant_each (fun tr s => OneShot.Within NullifierAddr.nullifierHash
    (Worth node s.emitted) (forNullifiers.desk s)
    fun k => Run.total (forwarded k) (init root) tr) .empty ?_ ha
  intro tr s e t hr ih haim hs
  have hturn := step_turn hs
  have hnext := (ih.move (hturn.nullifierMove haim)).mono fun k n hw => hturn.worth_mono hw
  simp only [Run.total_concat, hr.last_eq]
  exact hnext

/-- `_deployedValues` took what landed. -/
theorem run_reports (h : Run (step node) (init root) tr s) (d : ℕ) :
    Run.total (deployed d) (init root) tr + s.reports d ≤
      Run.total (credited d) (init root) tr := by
  refine h.invariant (fun tr s => Run.total (deployed d) (init root) tr + s.reports d ≤
    Run.total (credited d) (init root) tr) le_rfl ?_
  intro tr s e t hr ih hs
  have hle := (step_turn hs).deployed_le d
  rw [Run.total_concat, Run.total_concat, hr.last_eq]
  omega

end Runs

end Vault

open Vault

/-- What a run redeems of its vouchers. -/
structure RedeemedOnce (node : Prover Proof) (root : Root) (tr : List (Event Proof × Vault))
    (s : Vault) : Prop where
  credited : ∀ v ∈ s.emitted, (∀ v' ∈ s.emitted, node.dihOf v' = node.dihOf v → v' = v) →
    Run.total (Vault.credited (node.dihOf v)) (init root) tr ≤ v.voucherNominal
  deployed : ∀ v ∈ s.emitted, (∀ v' ∈ s.emitted, node.dihOf v' = node.dihOf v → v' = v) →
    Run.total (Vault.deployed (node.dihOf v)) (init root) tr ≤ v.voucherNominal
  forwarded : ∀ v ∈ s.emitted, (∀ v' ∈ s.emitted, node.dihOf v' = node.dihOf v → v' = v) →
    Run.total (Vault.forwarded (node.dihOf v)) (init root) tr ≤ v.voucherNominal
  unnamed : ∀ k, (∀ v ∈ s.emitted, node.dihOf v ≠ k) →
    Run.total (Vault.credited k) (init root) tr = 0 ∧
      Run.total (Vault.deployed k) (init root) tr = 0 ∧
      Run.total (Vault.forwarded k) (init root) tr = 0

/-- Where the account of a voucher exists, to present the voucher again changes nothing once the
bounce is back, and whatever comes in between, each of the three messages only moves what the
deploy carries. -/
structure Replays (node : Prover Proof) (s : Vault) : Prop where
  deposit : ∀ a, (⟨s.root.privateNoteCode, a.depositIdentifierHash⟩ : NoteAddr) ∈ s.notes →
    ∀ s₁ s₂ s₃ fails fails', s.step node (.deployPrivateNote a) = some s₁ →
      s₁.step node (.arrive s.mail.length fails) = some s₂ →
      s₂.step node (.arrive s.mail.length fails') = some s₃ → s₃ = s
  fee : ∀ a, (⟨s.root.nullifierCode, a.nullifierHash⟩ : NullifierAddr) ∈ s.nullifiers →
    ∀ s₁ s₂ s₃ fails fails', s.step node (.sendEccShellToPrivateNote a) = some s₁ →
      s₁.step node (.arrive s.mail.length fails) = some s₂ →
      s₂.step node (.arrive s.mail.length fails') = some s₃ → s₃ = s
  noteReturned : ∀ i fails note value key tokenType t,
    s.mail[i]? = some (.deployNote note value key tokenType) → note ∈ s.notes →
    s.step node (.arrive i fails) = some t → t = (s.taken i).post (.bounce GAS_DEPOSIT)
  nullifierReturned : ∀ i fails nullifier note value t,
    s.mail[i]? = some (.deployNullifier nullifier note value) → nullifier ∈ s.nullifiers →
    s.step node (.arrive i fails) = some t → t = (s.taken i).post (.bounce value)
  bounced : ∀ i fails value t, s.mail[i]? = some (.bounce value) →
    s.step node (.arrive i fails) = some t →
    t = { s.taken i with root := s.root.receive CURRENCIES_ID_SHELL value }

section Replay

variable {node : Prover Proof} {s t : Vault}

theorem receive_pay {r : Root} {tokenType amount : ℕ} (h : amount ≤ r.currencies tokenType) :
    (r.pay tokenType amount).receive tokenType amount = r := by
  have hc : Function.update (r.pay tokenType amount).currencies tokenType
      ((r.pay tokenType amount).currencies tokenType + amount) = r.currencies := by
    simp only [Root.pay]
    rw [Function.update_self, Function.update_idem, Nat.sub_add_cancel h, Function.update_eq_self]
  rw [Root.receive, hc]
  rfl

theorem step_posted {m : Mail} {fails : Bool}
    (h : (s.post m).step node (.arrive s.mail.length fails) = some t) : t = s.receive fails m := by
  obtain ⟨m', hm, rfl⟩ := step_arrive h
  have hget : (s.post m).mail[s.mail.length]? = some m := by simp [post]
  have hm' : m' = m := Option.some.inj (hm.symm.trans hget)
  have htaken : (s.post m).taken s.mail.length = s := by
    simp only [taken, post]
    rw [List.eraseIdx_append_of_length_le le_rfl]
    simp
  rw [hm', htaken]

theorem returned {m : Mail} {value : ℕ} {s₂ s₃ : Vault} {fails fails' : Bool}
    (hv : value ≤ s.root.currencies CURRENCIES_ID_SHELL)
    (hm : ∀ root fails, ({ s with root := root } : Vault).receive fails m =
      ({ s with root := root } : Vault).post (.bounce value))
    (h₂ : (({ s with root := s.root.pay CURRENCIES_ID_SHELL value } : Vault).post m).step node
      (.arrive s.mail.length fails) = some s₂)
    (h₃ : s₂.step node (.arrive s.mail.length fails') = some s₃) : s₃ = s := by
  have hs₂ := step_posted h₂
  rw [hm] at hs₂
  subst hs₂
  have hs₃ := step_posted h₃
  rw [hs₃]
  have hroot : (s.root.pay CURRENCIES_ID_SHELL value).receive CURRENCIES_ID_SHELL value = s.root :=
    receive_pay hv
  simp only [Vault.receive, hroot]

theorem replays (node : Prover Proof) (s : Vault) : Replays node s where
  deposit a hex s₁ s₂ s₃ fails fails' h₁ h₂ h₃ := by
    simp only [Vault.step] at h₁
    split_ifs at h₁ with ha
    cases h₁
    refine returned (m := .deployNote _ _ _ _) ha.2 (fun _ _ => ?_) h₂ h₃
    exact if_pos (.inr hex)
  fee a hex s₁ s₂ s₃ fails fails' h₁ h₂ h₃ := by
    simp only [Vault.step] at h₁
    split_ifs at h₁ with ha
    cases h₁
    refine returned (m := .deployNullifier _ _ _) ha.2 (fun _ _ => ?_) h₂ h₃
    exact if_pos (.inr hex)
  noteReturned i fails note value key tokenType t hm hex h := by
    obtain ⟨m, hm', rfl⟩ := step_arrive h
    cases hm.symm.trans hm'
    exact if_pos (.inr hex)
  nullifierReturned i fails nullifier note value t hm hex h := by
    obtain ⟨m, hm', rfl⟩ := step_arrive h
    cases hm.symm.trans hm'
    exact if_pos (.inr hex)
  bounced i fails value t hm h := by
    obtain ⟨m, hm', rfl⟩ := step_arrive h
    cases hm.symm.trans hm'
    rfl

theorem run_once {root : Root} {tr : List (Event Proof × Vault)}
    (h : Run (step node) (init root) tr s)
    (ha : Run.Each (fun s e _ => s.Aims e) (init root) tr) : RedeemedOnce node root tr s := by
  have hvoucher : ∀ (got : ℕ → ℕ), (∀ k, 0 < got k → Worth node s.emitted k (got k)) →
      ∀ v ∈ s.emitted, (∀ v' ∈ s.emitted, node.dihOf v' = node.dihOf v → v' = v) →
        got (node.dihOf v) ≤ v.voucherNominal := by
    intro got hgot v hv hone
    by_cases hz : got (node.dihOf v) = 0
    · rw [hz]
      exact Nat.zero_le _
    · obtain ⟨v', hv', hd, hle⟩ := hgot _ (Nat.pos_of_ne_zero hz)
      rwa [hone v' hv' hd] at hle
  have hnone : ∀ (got : ℕ → ℕ), (∀ k, 0 < got k → Worth node s.emitted k (got k)) →
      ∀ k, (∀ v ∈ s.emitted, node.dihOf v ≠ k) → got k = 0 := by
    intro got hgot k hk
    by_contra hz
    obtain ⟨v, hv, hd, -⟩ := hgot k (Nat.pos_of_ne_zero hz)
    exact hk v hv hd
  have hnotes := fun k hk =>
    ((run_notes h (ha.imp fun _ _ _ ha => ha.note)).got k hk).2.mono nonFee_subset
  have hnull := fun k hk => ((run_nullifiers h ha).got k hk).2
  have hdep : ∀ k, Run.total (Vault.deployed k) (init root) tr ≤
      Run.total (Vault.credited k) (init root) tr := by
    intro k
    have hk := run_reports h k
    omega
  refine ⟨hvoucher _ hnotes, ?_, hvoucher _ hnull, ?_⟩
  · intro v hv hone
    exact (hdep _).trans (hvoucher _ hnotes v hv hone)
  · intro k hk
    have hzero := hnone _ hnotes k hk
    have hk' := hdep k
    exact ⟨hzero, by omega, hnone _ hnull k hk⟩

end Replay

/-- In a run in which every voucher is presented under one code, each is redeemed at most once;
and to present one again is empty. -/
theorem voucher_redeemed_once {node : Prover Proof} {root : Root}
    {tr : List (Event Proof × Vault)} {s : Vault} (h : Run (step node) (init root) tr s)
    (ha : Run.Each (fun s e _ => s.Aims e) (init root) tr) :
    RedeemedOnce node root tr s ∧ Replays node s :=
  ⟨run_once h ha, replays node s⟩

section Samples

/-- A deposit identifier hash is the voucher itself, and so is a proof. -/
def plainProver : Prover Voucher where
  dihOf v := Nat.pair v.skUCommit (Nat.pair v.voucherNominal v.tokenType)
  checkLayerHash emitted root _ := emitted.any fun v =>
    decide (Nat.pair v.skUCommit (Nat.pair v.voucherNominal v.tokenType) = root)
  zkhalo2verify pub v :=
    decide (Nat.pair v.skUCommit (Nat.pair v.voucherNominal v.tokenType) =
        pub.finalLayerHistoricalHashRoot ∧
      pub.finalLayerHistoricalHashRoot = pub.depositIdentifierHash ∧
      u256ToFr v.voucherNominal = pub.voucherNominalFr ∧ u32ToFr v.tokenType = pub.tokenTypeFr)
  sound := by
    intro emitted layer pub proof hroot hproof
    have hinj : ∀ v v' : Voucher, Nat.pair v.skUCommit (Nat.pair v.voucherNominal v.tokenType) =
        Nat.pair v'.skUCommit (Nat.pair v'.voucherNominal v'.tokenType) → v = v' := by
      intro v v' hp
      obtain ⟨h1, h2⟩ := Nat.pair_eq_pair.mp hp
      obtain ⟨h2, h3⟩ := Nat.pair_eq_pair.mp h2
      obtain ⟨sk, nominal, tokenType⟩ := v
      cases h1
      cases h2
      cases h3
      rfl
    obtain ⟨v, hv, hcode⟩ := List.any_eq_true.mp hroot
    obtain ⟨hp, hd, hn, ht⟩ := of_decide_eq_true hproof
    have hvp : v = proof := hinj v proof ((of_decide_eq_true hcode).trans hp.symm)
    subst hvp
    exact ⟨v, hv, ⟨hp.trans hd, hn, ht⟩, fun v' _ hd' => hinj v' v (hd'.trans (hp.trans hd).symm)⟩

def sampleCodes : Migration := ⟨⟨1, 1⟩, ⟨2, 1⟩, ⟨3, 1⟩, ⟨4, 1⟩, ⟨5, 1⟩, ⟨6, 1⟩, 77⟩

/-- A root with SHELL for four notes. -/
def sampleRoot : Root := .installed sampleCodes fun _ => 1000000000000

def hundredDih : ℕ := Nat.pair 5 (Nat.pair 100000000000 CURRENCIES_ID_SHELL)

def hundredVoucher : Voucher := ⟨5, 100000000000, CURRENCIES_ID_SHELL⟩

def presentHundred : Event Voucher :=
  .deployPrivateNote
    { zkproof := hundredVoucher
      depositIdentifierHash := hundredDih
      finalLayerHistoricalHashRoot := hundredDih
      voucherNominalFr := u64ToFr 100000000000
      tokenTypeFr := u32ToFr CURRENCIES_ID_SHELL
      ephemeralPubkey := 9
      value := 100000000000
      tokenType := CURRENCIES_ID_SHELL
      layerNumber := 1
      pubkey := 9
      tokenType_lt := Nat.le_of_ble_eq_true rfl
      value_lt := Nat.le_of_ble_eq_true rfl }

/-- A deposit of 100 SHELL, its voucher presented, and the note's report. -/
def hundredNote : List (Event Voucher) :=
  [.generateVoucher (Dict.empty.insert CURRENCIES_ID_SHELL 350000000000) 5 false, presentHundred,
    .arrive 0 false, .arrive 0 false]

def sampleTrace (es : List (Event Voucher)) : List (Event Voucher × Vault) :=
  Run.trace (step plainProver) (init sampleRoot) es

/-- The voucher is presented a second time, before and after its note is there. -/
theorem voucher_redeemed_once_sample :
    let es := hundredNote ++ [presentHundred, .arrive 0 false, .arrive 0 false]
    RedeemedOnce plainProver sampleRoot (sampleTrace es)
        (Run.last (init sampleRoot) (sampleTrace es)) ∧
      Run.total (Vault.credited hundredDih) (init sampleRoot) (sampleTrace es) = 100000000000 :=
  ⟨(voucher_redeemed_once (Run.trace_run ..) (by decide +kernel)).1, by decide +kernel⟩

/-- After the note code is replaced, the voucher deploys a second note. -/
theorem voucher_redeemed_twice :
    let es := hundredNote ++ [.setPrivateNoteCode 77 ⟨7, 1⟩, presentHundred, .arrive 0 false,
      .arrive 0 false]
    Run (step plainProver) (init sampleRoot) (sampleTrace es)
        (Run.last (init sampleRoot) (sampleTrace es)) ∧
      ¬ RedeemedOnce plainProver sampleRoot (sampleTrace es)
        (Run.last (init sampleRoot) (sampleTrace es)) := by
  refine ⟨Run.trace_run .., fun h => ?_⟩
  have hle := h.credited hundredVoucher (by decide +kernel) (by decide +kernel)
  exact absurd hle (by decide +kernel)

end Samples

end Dexdo.RootPN
