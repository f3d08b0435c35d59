import Dexdo.RootPN.Redeem

namespace Dexdo.RootPN

variable {Proof : Type}

namespace Root

variable {r r' : Root}

theorem updateCode_eq {pubkey : ℕ} {cell : Migration} (h : r.updateCode pubkey cell = some r') :
    r' = .installed cell r.currencies := by
  simp only [updateCode, onCodeUpgrade] at h
  split_ifs at h
  exact (Option.some.inj h).symm

theorem covers_cons {attached : Currencies} {e : ℕ × ℕ} {amounts : List (ℕ × ℕ)}
    (h : r.covers attached (e :: amounts) = some true) :
    (0 < e.2 → e.2 ≤ r.deployedValues e.1) ∧ r.covers attached amounts = some true := by
  obtain ⟨reserve, -, h⟩ := of_bind h
  split_ifs at h with hshort
  · cases h
  refine ⟨fun hpos => ?_, h⟩
  by_contra hlt
  exact hshort ⟨hpos, .inr (not_le.mp hlt)⟩

theorem not_covers {attached : Currencies} {amounts : List (ℕ × ℕ)} {e : ℕ × ℕ}
    (he : e ∈ amounts) (hpos : 0 < e.2) (hd : r.deployedValues e.1 = 0) :
    r.covers attached amounts ≠ some true := by
  induction amounts with
  | nil => cases he
  | cons a amounts ih =>
    intro h
    obtain ⟨hle, hrest⟩ := covers_cons h
    rcases List.mem_cons.mp he with rfl | he
    · have hle := hle hpos
      omega
    · exact ih he hrest

theorem not_feesCovered {tokenType amount : ℕ} (hd : r.deployedValues tokenType = 0) :
    ¬ r.feesCovered tokenType amount := by
  rintro ⟨⟨hpos, -⟩, -, hle⟩
  omega

theorem withdrawTokens_refused {sender : NoteAddr} {attached amounts : Currencies} {k : ℕ} :
    r.withdrawTokens sender attached amounts k = .refused ↔
      ¬ (r.serves sender k = true ∧ (r.covers attached amounts.entries).isSome = true) := by
  rw [withdrawTokens]
  by_cases hs : r.serves sender k = true
  · rw [if_neg (not_not.mpr hs)]
    cases hc : r.covers attached amounts.entries with
    | none => simp
    | some b => cases b <;> simp [hs]
  · rw [if_pos hs]
    simp [hs]

theorem withdrawTokens_writtenOff {sender : NoteAddr} {attached amounts : Currencies} {k : ℕ}
    (h : r.withdrawTokens sender attached amounts k = .paid r') : r'.writtenOff = r.writtenOff := by
  rw [withdrawTokens] at h
  split_ifs at h
  split at h
  · cases h
  · cases h
  · cases h
    rfl

end Root

def Event.isUpgrade : Event Proof → Bool
  | .updateCode _ _ => true
  | _ => false

/-- A withdrawal or another operation of a note. -/
def Event.isNotes : Event Proof → Bool
  | .withdrawTokens _ => true
  | .trade _ _ _ => true
  | _ => false

/-- A call of the owner, of a deal or of a book, or of somebody with a voucher. -/
def Event.isQuiet (e : Event Proof) : Bool := !e.isUpgrade && !e.isArrival && !e.isNotes

theorem Event.isQuiet_iff {e : Event Proof} :
    e.isQuiet = true ↔ e.isUpgrade = false ∧ e.isArrival = false ∧ e.isNotes = false := by
  simp [isQuiet, and_assoc]

def Event.takesFees : Event Proof → Bool
  | .withdrawProtocolFees _ _ _ => true
  | _ => false

namespace Vault

/-- The note could withdraw all it has now. -/
structure Withdrawable (s : Vault) (a : NoteAddr) : Prop where
  deployed : a ∈ s.notes
  live : (s.note a).hasWithdrawn = false
  served : s.root.serves a a.depositIdentifierHash = true
  covered : s.root.covers (attached (s.shell a)) (s.note a).balance.entries = some true

instance (s : Vault) (a : NoteAddr) : Decidable (s.Withdrawable a) :=
  decidable_of_iff (a ∈ s.notes ∧ (s.note a).hasWithdrawn = false ∧
    s.root.serves a a.depositIdentifierHash = true ∧
    s.root.covers (attached (s.shell a)) (s.note a).balance.entries = some true)
    ⟨fun h => ⟨h.1, h.2.1, h.2.2.1, h.2.2.2⟩, fun h => ⟨h.1, h.2, h.3, h.4⟩⟩

/-- An upgrade here puts nothing at stake: no note could withdraw an amount above zero, no fees
could be withdrawn, and nothing is written off. -/
structure NoStake (s : Vault) : Prop where
  notes : ∀ a, s.Withdrawable a → ∀ e ∈ (s.note a).balance.entries, e.2 = 0
  fees : ∀ k n, ¬ s.root.feesCovered k n
  writtenOff : ∀ k, s.root.writtenOff k = 0

/-- The withdrawal that arrives, with its amounts and the SHELL attached. -/
def withdrawal? (s : Vault) (e : Event Proof) : Option (NoteAddr × Currencies × ℕ) :=
  match s.delivered? e with
  | some (.withdrawTokens note amounts held) => some (note, amounts, held)
  | _ => none

/-- A withdrawal that arrives comes from a note of a generation the root knows at that moment, and
the casts to 128 bits throw at none of its amounts before one that is not covered. -/
def Known (s : Vault) (e : Event Proof) : Prop :=
  ∀ w ∈ s.withdrawal? e, s.root.serves w.1 w.1.depositIdentifierHash = true ∧
    (s.root.covers (attached w.2.2) w.2.1.entries).isSome = true

instance (s : Vault) (e : Event Proof) : Decidable (s.Known e) :=
  inferInstanceAs (Decidable (∀ w ∈ s.withdrawal? e, _))

/-- A step of an upgrade that harms nobody. -/
structure Harmless (s : Vault) (e : Event Proof) : Prop where
  upgrade : e.isUpgrade = true → s.NoStake
  known : s.Known e

/-- A withdrawal that arrives is paid, or sent back to its note. -/
def Answered (s : Vault) (e : Event Proof) (t : Vault) : Prop :=
  ∀ i fails note amounts held, e = .arrive i fails →
    s.mail[i]? = some (.withdrawTokens note amounts held) →
    (∃ r, s.root.withdrawTokens note (attached held) amounts note.depositIdentifierHash = .paid r ∧
      t = { s.taken i with root := r }) ∨ t = (s.taken i).post (.revertWithdraw note amounts held)

/-- What deals write off in a step. -/
def writeOff (k : ℕ) (_ : Vault) (e : Event Proof) (_ : Vault) : ℕ :=
  match e with
  | .reportDealWriteOff _ _ _ amount => if k = CURRENCIES_ID_SHELL then amount else 0
  | _ => 0

/-- What an upgrade from `s` to `t` has to keep: what a note could withdraw, the fees the owner did
not take, and the written-off total but for what deals report; and every withdrawal is answered. -/
structure UpgradeKeeps (s : Vault) (tr : List (Event Proof × Vault)) (t : Vault) : Prop where
  notes : ∀ a, s.Withdrawable a → (∃ e ∈ (s.note a).balance.entries, 0 < e.2) →
    t.note a = s.note a → t.shell a = s.shell a → t.Withdrawable a
  fees : (∀ x ∈ tr, x.1.takesFees = false) → ∀ k n, s.root.feesCovered k n → t.root.feesCovered k n
  writtenOff : ∀ k, t.root.writtenOff k = s.root.writtenOff k + Run.total (writeOff k) s tr
  answered : Run.Each Answered s tr

variable {node : Prover Proof} {s t : Vault} {e : Event Proof} {tr : List (Event Proof × Vault)}

section Steps

/-- What a step that is no upgrade and no arrival does to the ledgers and to the notes. -/
structure Mild (s : Vault) (e : Event Proof) (t : Vault) : Prop where
  writtenOff : ∀ k, t.root.writtenOff k = s.root.writtenOff k + writeOff k s e t
  deployed : (∀ k, s.root.deployedValues k = 0) → ∀ k, t.root.deployedValues k = 0
  notes : e.isNotes = false → t.note = s.note ∧ t.shell = s.shell

theorem Mild.of_root {root : Root} (hw : root.writtenOff = s.root.writtenOff)
    (hd : root.deployedValues = s.root.deployedValues)
    (he : ∀ k, writeOff k s e { s with root := root } = 0) : Mild s e { s with root := root } where
  writtenOff k := by rw [hw, he k, Nat.add_zero]
  deployed h := hd ▸ h
  notes _ := ⟨rfl, rfl⟩

theorem step_mild (hs : s.step node e = some t) (hu : e.isUpgrade = false)
    (ha : e.isArrival = false) : Mild s e t := by
  cases e with
  | generateVoucher =>
    simp only [step] at hs
    split at hs
    · cases hs
    · cases hs
      exact ⟨fun _ => rfl, fun h => h, fun _ => ⟨rfl, rfl⟩⟩
  | deployPrivateNote =>
    simp only [step] at hs
    split_ifs at hs
    cases hs
    exact ⟨fun _ => rfl, fun h => h, fun _ => ⟨rfl, rfl⟩⟩
  | sendEccShellToPrivateNote =>
    simp only [step] at hs
    split_ifs at hs
    cases hs
    exact ⟨fun _ => rfl, fun h => h, fun _ => ⟨rfl, rfl⟩⟩
  | updateCode => cases hu
  | setPrivateNoteCode =>
    obtain ⟨root, hr, rfl⟩ := withRoot_eq hs
    simp only [Root.setPrivateNoteCode] at hr
    split_ifs at hr
    cases hr
    exact .of_root rfl rfl fun _ => rfl
  | setPrevPrivateNoteCode =>
    obtain ⟨root, hr, rfl⟩ := withRoot_eq hs
    simp only [Root.setPrevPrivateNoteCode] at hr
    split_ifs at hr
    cases hr
    exact .of_root rfl rfl fun _ => rfl
  | setInferenceOrderBookCode =>
    obtain ⟨root, hr, rfl⟩ := withRoot_eq hs
    simp only [Root.setInferenceOrderBookCode] at hr
    split_ifs at hr
    cases hr
    exact .of_root rfl rfl fun _ => rfl
  | setTokenContractCode =>
    obtain ⟨root, hr, rfl⟩ := withRoot_eq hs
    simp only [Root.setTokenContractCode] at hr
    split_ifs at hr
    cases hr
    exact .of_root rfl rfl fun _ => rfl
  | reportDealWriteOff sender sellerPubkey nonce amount =>
    obtain ⟨root, hr, rfl⟩ := withRoot_eq hs
    rw [Root.reportDealWriteOff] at hr
    split at hr
    swap
    · cases hr
    cases hr
    refine ⟨fun k => ?_, fun h k => ?_, fun _ => ⟨rfl, rfl⟩⟩
    · change Function.update s.root.writtenOff CURRENCIES_ID_SHELL _ k =
        s.root.writtenOff k + if k = CURRENCIES_ID_SHELL then amount else 0
      by_cases hk : k = CURRENCIES_ID_SHELL
      · rw [hk, Function.update_self, if_pos rfl]
      · rw [Function.update_of_ne hk, if_neg hk, Nat.add_zero]
    · change Function.update s.root.deployedValues CURRENCIES_ID_SHELL _ k = 0
      by_cases hk : k = CURRENCIES_ID_SHELL
      · rw [hk, Function.update_self, h, Nat.zero_sub, ite_self]
      · rw [Function.update_of_ne hk]
        exact h k
  | collectProtocolFee =>
    obtain ⟨root, hr, rfl⟩ := withRoot_eq hs
    simp only [Root.collectProtocolFee] at hr
    split_ifs at hr
    cases hr
    exact .of_root rfl rfl fun _ => rfl
  | withdrawProtocolFees pubkey tokenType =>
    obtain ⟨root, hr, rfl⟩ := withRoot_eq hs
    simp only [Root.withdrawProtocolFees] at hr
    split_ifs at hr with hc
    cases hr
    refine ⟨fun _ => rfl, fun h k => ?_, fun _ => ⟨rfl, rfl⟩⟩
    exact absurd hc.2 (Root.not_feesCovered (h tokenType))
  | receive =>
    cases hs
    exact .of_root rfl rfl fun _ => rfl
  | withdrawTokens =>
    simp only [step, withdraw] at hs
    split_ifs at hs
    cases hs
    exact ⟨fun _ => rfl, fun h => h, fun h => absurd h Bool.true_eq_false.mp⟩
  | trade =>
    simp only [step] at hs
    split_ifs at hs
    cases hs
    exact ⟨fun _ => rfl, fun h => h, fun h => absurd h Bool.true_eq_false.mp⟩
  | arrive => cases ha

theorem receive_writtenOff {m : Mail} {fails : Bool} :
    (s.receive fails m).root.writtenOff = s.root.writtenOff := by
  cases m with
  | deployNote =>
    rw [receive]
    split_ifs
    · rfl
    · rfl
  | deployNullifier =>
    rw [receive]
    split_ifs
    · rfl
    · rfl
  | privateNoteDeployed =>
    simp only [receive, Root.privateNoteDeployed]
    split_ifs
    · rfl
    · rfl
  | withdrawTokens note amounts held =>
    rw [receive]
    split
    · rfl
    · rfl
    · rename_i root hroot
      exact Root.withdrawTokens_writtenOff hroot
  | _ => rfl

theorem step_writtenOff (hs : s.step node e = some t) (hu : e.isUpgrade = true → s.NoStake)
    (k : ℕ) : t.root.writtenOff k = s.root.writtenOff k + writeOff k s e t := by
  cases e with
  | updateCode =>
    obtain ⟨root, hr, rfl⟩ := withRoot_eq hs
    rw [(hu rfl).writtenOff k, Root.updateCode_eq hr]
    rfl
  | arrive =>
    obtain ⟨m, -, rfl⟩ := step_arrive hs
    rw [receive_writtenOff]
    rfl
  | _ => exact (step_mild hs rfl rfl).writtenOff k

theorem known_of_not_arrival (he : e.isArrival = false) : s.Known e := by
  intro note hn
  cases e with
  | arrive => cases he
  | _ => cases hn

/-- A withdrawal is answered if the root knows the generation of its note, and else it is lost. -/
theorem step_answered (hs : s.step node e = some t) : s.Answered e t ↔ s.Known e := by
  cases e with
  | arrive i fails =>
    obtain ⟨m, hm, rfl⟩ := step_arrive hs
    cases m with
    | withdrawTokens note amounts held =>
      have hknown : s.Known (.arrive i fails : Event Proof) ↔
          s.root.serves note note.depositIdentifierHash = true ∧
            (s.root.covers (attached held) amounts.entries).isSome = true := by
        simp only [Known, withdrawal?, delivered?, hm, Option.mem_some_iff, forall_eq']
      have hserved : s.root.withdrawTokens note (attached held) amounts
          note.depositIdentifierHash = .refused ↔ _ := Root.withdrawTokens_refused
      rw [hknown]
      constructor
      · intro h
        by_contra hs
        have hw := hserved.mpr hs
        rcases h i fails note amounts held rfl hm with ⟨r, hr, -⟩ | h
        · rw [hw] at hr
          cases hr
        · have hlen := congrArg (fun s => s.mail.length) h
          have hcur : (s.taken i).receive fails (.withdrawTokens note amounts held) =
              { s.taken i with root := s.root.receive CURRENCIES_ID_SHELL held } := by
            simp only [receive, taken, hw]
          rw [hcur] at hlen
          simp [post] at hlen
      · intro h i' fails' note' amounts' held' he hm'
        obtain ⟨rfl, rfl⟩ := Event.arrive.inj he
        obtain ⟨rfl, rfl, rfl⟩ := Mail.withdrawTokens.inj (Option.some.inj (hm.symm.trans hm'))
        cases hw : s.root.withdrawTokens note (attached held) amounts
            note.depositIdentifierHash with
        | refused =>
          exact absurd h (hserved.mp hw)
        | revert =>
          refine .inr ?_
          simp only [receive, taken, hw]
        | paid r =>
          refine .inl ⟨r, rfl, ?_⟩
          simp only [receive, taken, hw]
    | _ =>
      have hknown : s.Known (.arrive i fails : Event Proof) := by
        simp [Known, withdrawal?, delivered?, hm]
      refine iff_of_true ?_ hknown
      intro i' fails' note amounts held he hm'
      obtain ⟨rfl, rfl⟩ := Event.arrive.inj he
      cases hm.symm.trans hm'
  | _ =>
    refine iff_of_true ?_ (known_of_not_arrival rfl)
    intro i fails note amounts held he
    cases he

end Steps

section Runs

theorem run_writtenOff (h : Run (step node) s tr t)
    (hu : Run.Each (fun s e _ => e.isUpgrade = true → s.NoStake) s tr) (k : ℕ) :
    t.root.writtenOff k = s.root.writtenOff k + Run.total (writeOff k) s tr := by
  refine h.invariant_each
    (fun tr t => t.root.writtenOff k = s.root.writtenOff k + Run.total (writeOff k) s tr) ?_ ?_ hu
  · rfl
  · intro tr t e u hr ih hstake hs
    rw [Run.total_concat, hr.last_eq, step_writtenOff hs hstake, ih, Nat.add_assoc]

theorem run_answered (h : Run (step node) s tr t) :
    Run.Each Answered s tr ↔ Run.Each (fun s e _ => s.Known e) s tr :=
  h.each_congr fun _ _ _ => step_answered

/-- A run of quiet steps from a root without deployed values ends in one, with the notes as they
were. -/
structure Idle (s : Vault) (tr : List (Event Proof × Vault)) (t : Vault) : Prop where
  deployed : ∀ k, t.root.deployedValues k = 0
  note : t.note = s.note
  shell : t.shell = s.shell
  fees : ∀ x ∈ tr, x.1.takesFees = false

theorem run_idle (h : Run (step node) s tr t) (hd : ∀ k, s.root.deployedValues k = 0)
    (hq : Run.Each (fun _ e _ => e.isQuiet = true) s tr) : Idle s tr t := by
  refine h.invariant_each (fun tr t => Idle s tr t) ⟨hd, rfl, rfl, ?_⟩ ?_ hq
  · intro x hx
    cases hx
  · intro tr t e u hr ih hquiet hs
    obtain ⟨hu, ha, hn⟩ := Event.isQuiet_iff.mp hquiet
    have hmild := step_mild hs hu ha
    obtain ⟨hnote, hshell⟩ := hmild.notes hn
    refine ⟨hmild.deployed ih.deployed, hnote.trans ih.note, hshell.trans ih.shell, ?_⟩
    intro x hx
    rcases List.mem_append.mp hx with hx | hx
    · exact ih.fees x hx
    · obtain rfl := List.mem_singleton.mp hx
      cases e with
      | withdrawProtocolFees pubkey tokenType amount =>
        -- the requires of the call fail where nothing is deployed
        obtain ⟨root, hroot, -⟩ := withRoot_eq hs
        rw [Root.withdrawProtocolFees] at hroot
        split at hroot
        · rename_i hc
          exact absurd hc.2 (Root.not_feesCovered (ih.deployed tokenType))
        · cases hroot
      | _ => rfl

theorem UpgradeKeeps.of_harmless {x : Event Proof × Vault} (h : Run (step node) s (x :: tr) t)
    (hu : x.1.isUpgrade = true) (hh : Run.Each (fun s e _ => s.Harmless e) s (x :: tr)) :
    UpgradeKeeps s (x :: tr) t := by
  have hstake : s.NoStake := hh.1.upgrade hu
  refine ⟨?_, ?_, ?_, ?_⟩
  · rintro a ha ⟨e, he, hpos⟩
    have hzero := hstake.notes a ha e he
    omega
  · intro _ k n hf
    exact absurd hf (hstake.fees k n)
  · exact run_writtenOff h (hh.imp fun _ _ _ h => h.upgrade)
  · exact (run_answered h).mpr (hh.imp fun _ _ _ h => h.known)

end Runs

end Vault

open Vault

section Upgrades

variable {node : Prover Proof} {s t u : Vault} {tr : List (Event Proof × Vault)} {pubkey : ℕ}
  {cell : Migration}

theorem updateCode_emptied (h : s.step node (.updateCode pubkey cell) = some u) :
    u = { s with root := .installed cell s.root.currencies } := by
  obtain ⟨root, hr, rfl⟩ := withRoot_eq h
  rw [Root.updateCode_eq hr]

/-- What an upgrade keeps when setters, deals and books follow it. -/
theorem quiet_upgrade_iff (h : Run (step node) s ((.updateCode pubkey cell, u) :: tr) t)
    (hq : Run.Each (fun _ e _ => e.isQuiet = true) u tr) :
    UpgradeKeeps s ((.updateCode pubkey cell, u) :: tr) t ↔ s.NoStake := by
  obtain ⟨hstep, hrest⟩ := Run.of_cons h
  have hu := updateCode_emptied hstep
  have hempty : ∀ k, u.root.deployedValues k = 0 := fun _ => hu ▸ rfl
  have hidle := run_idle hrest hempty hq
  constructor
  · intro hk
    refine ⟨?_, ?_, ?_⟩
    · intro a ha e he
      by_contra hne
      have hpos := Nat.pos_of_ne_zero hne
      have hnote : t.note a = s.note a := by rw [hidle.note, hu]
      have hshell : t.shell a = s.shell a := by rw [hidle.shell, hu]
      have hcov := (hk.notes a ha ⟨e, he, hpos⟩ hnote hshell).covered
      rw [hnote] at hcov
      exact Root.not_covers he hpos (hidle.deployed e.1) hcov
    · intro k n hf
      refine Root.not_feesCovered (hidle.deployed k) (hk.fees ?_ k n hf)
      intro x hx
      rcases List.mem_cons.mp hx with rfl | hx
      · rfl
      · exact hidle.fees x hx
    · intro k
      have hquiet : Run.Each (fun s e _ => e.isUpgrade = true → s.NoStake) u tr := by
        refine hq.imp fun _ e _ h => ?_
        rw [(Event.isQuiet_iff.mp h).1]
        exact fun h => absurd h Bool.false_ne_true
      have hall := hk.writtenOff k
      have hsince := run_writtenOff hrest hquiet k
      have hzero : u.root.writtenOff k = 0 := hu ▸ rfl
      have hhead : writeOff k s (.updateCode pubkey cell : Event Proof) u = 0 := rfl
      rw [Run.total_cons, hhead] at hall
      dsimp only at hall
      omega
  · intro hstake
    have hhead : s.Harmless (.updateCode pubkey cell : Event Proof) :=
      ⟨fun _ => hstake, known_of_not_arrival rfl⟩
    refine .of_harmless h rfl ⟨hhead, hq.imp fun s e _ h => ?_⟩
    obtain ⟨hup, harrive, -⟩ := Event.isQuiet_iff.mp h
    exact ⟨fun h => absurd (hup.symm.trans h) Bool.false_ne_true, known_of_not_arrival harrive⟩

/-- An upgrade where nothing is at stake, during which withdrawals only arrive from notes of a
generation the root knows and no cast throws, keeps every claim; every withdrawal it answers is
such a one;
and where only setters, deals and books follow it, it keeps every claim only if nothing is at
stake. -/
theorem upgrade_keeps (h : Run (step node) s ((.updateCode pubkey cell, u) :: tr) t) :
    (Run.Each (fun s e _ => s.Harmless e) s ((.updateCode pubkey cell, u) :: tr) →
      UpgradeKeeps s ((.updateCode pubkey cell, u) :: tr) t) ∧
    (UpgradeKeeps s ((.updateCode pubkey cell, u) :: tr) t →
      Run.Each (fun s e _ => s.Known e) s ((.updateCode pubkey cell, u) :: tr)) ∧
    (Run.Each (fun _ e _ => e.isQuiet = true) u tr →
      (UpgradeKeeps s ((.updateCode pubkey cell, u) :: tr) t ↔ s.NoStake)) := by
  refine ⟨.of_harmless h rfl, fun hk => ?_, quiet_upgrade_iff h⟩
  exact (run_answered h).mp hk.answered

end Upgrades

section Samples

/-- The codes of an upgrade, with an empty slot for the note's. -/
def nextCodes : Migration := { sampleCodes with privateNoteCode := .empty }

def upgraded (s : Vault) : Vault := { s with root := .installed nextCodes s.root.currencies }

/-- The setters after an upgrade. -/
def setters : List (Event Voucher) :=
  [.setPrivateNoteCode 77 ⟨7, 1⟩, .setPrevPrivateNoteCode 77 ⟨2, 1⟩,
    .setInferenceOrderBookCode 77 ⟨8, 1⟩, .setTokenContractCode 77 ⟨9, 1⟩]

/-- The first upgrade of a root, and a note that comes and withdraws. -/
theorem upgrade_keeps_sample :
    let s := init sampleRoot
    let es := setters ++ hundredNote ++ [.withdrawTokens ⟨⟨7, 1⟩, hundredDih⟩, .arrive 0 false]
    let tr := Run.trace (step plainProver) (upgraded s) es
    UpgradeKeeps s ((.updateCode 77 nextCodes, upgraded s) :: tr) (Run.last (upgraded s) tr) ∧
      tr.length = 10 ∧ (Run.last (upgraded s) tr).root.deployedValues CURRENCIES_ID_SHELL = 0 := by
  intro s es tr
  have hrun : Run (step plainProver) s ((.updateCode 77 nextCodes, upgraded s) :: tr)
      (Run.last (upgraded s) tr) := .cons rfl (Run.trace_run ..)
  have hstake : s.NoStake := by
    refine ⟨fun a ha => ?_, fun k n => Root.not_feesCovered rfl, fun k => rfl⟩
    cases ha.deployed
  have hrest : Run.Each (fun s e _ => e.isUpgrade = false ∧ s.Known e) (upgraded s) tr := by
    decide +kernel
  have hhead : s.Harmless (.updateCode 77 nextCodes : Event Voucher) :=
    ⟨fun _ => hstake, known_of_not_arrival rfl⟩
  refine ⟨(upgrade_keeps hrun).1 ⟨hhead, hrest.imp fun s e _ h => ?_⟩, ?_, ?_⟩
  · exact ⟨fun hu => absurd (h.1.symm.trans hu) Bool.false_ne_true, h.2⟩
  · decide +kernel
  · decide +kernel

/-- A note of 100 SHELL can no longer withdraw after an upgrade that records its generation. -/
theorem upgrade_not_keeps :
    let s := Run.last (init sampleRoot) (sampleTrace hundredNote)
    let tr := Run.trace (step plainProver) (upgraded s) setters
    Run (step plainProver) (init sampleRoot) (sampleTrace hundredNote) s ∧
      Run (step plainProver) s ((.updateCode 77 nextCodes, upgraded s) :: tr)
        (Run.last (upgraded s) tr) ∧
      (Run.last (upgraded s) tr).root.serves ⟨⟨2, 1⟩, hundredDih⟩ hundredDih = true ∧
      ¬ UpgradeKeeps s ((.updateCode 77 nextCodes, upgraded s) :: tr)
        (Run.last (upgraded s) tr) := by
  intro s tr
  refine ⟨Run.trace_run .., .cons rfl (Run.trace_run ..), by decide +kernel, fun h => ?_⟩
  have hcan : s.Withdrawable ⟨⟨2, 1⟩, hundredDih⟩ := by decide +kernel
  have hcannot : ¬ (Run.last (upgraded s) tr).Withdrawable ⟨⟨2, 1⟩, hundredDih⟩ := by
    decide +kernel
  refine hcannot (h.notes _ hcan ⟨(CURRENCIES_ID_SHELL, 100000000000), ?_, ?_⟩ rfl rfl)
  · decide +kernel
  · decide

end Samples

end Dexdo.RootPN
