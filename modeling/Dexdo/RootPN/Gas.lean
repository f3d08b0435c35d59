import Dexdo.RootPN.Redeem

namespace Dexdo.RootPN

variable {Proof : Type}

/-- SHELL the message of a voucher brings on top of the nominal it buys. -/
def gasOf (currencies : Currencies) (v : Voucher) : ℕ :=
  if v.tokenType = CURRENCIES_ID_SHELL_FEE then 0
  else (currencies.get? CURRENCIES_ID_SHELL).getD 0 -
    if v.tokenType = CURRENCIES_ID_SHELL then v.voucherNominal else 0

theorem gas_paid {m : Currencies} {v : Voucher} (h : Backed m v)
    (ht : v.tokenType ≠ CURRENCIES_ID_SHELL_FEE) : gasOf m v = GAS_DEPOSIT := by
  rw [gasOf, if_neg ht]
  by_cases hs : v.tokenType = CURRENCIES_ID_SHELL
  · have hget : (m.get? CURRENCIES_ID_SHELL).getD 0 = v.voucherNominal + GAS_DEPOSIT :=
      get?_of_entries ((h.deposit hs).mem_iff.mpr (by simp))
    rw [hget, if_pos hs, Nat.add_sub_cancel_left]
  · have hget : (m.get? CURRENCIES_ID_SHELL).getD 0 = GAS_DEPOSIT :=
      get?_of_entries ((h.legs hs ht).mem_iff.mpr (by simp))
    rw [hget, if_neg hs, Nat.sub_zero]

namespace Vault

/-- SHELL an event collects as gas. -/
def collected (_ : Vault) (e : Event Proof) (_ : Vault) : ℕ :=
  match e with
  | .generateVoucher currencies _ _ => (e.issued.map (gasOf currencies)).sum
  | _ => 0

/-- SHELL given to notes as gas: each came to be with what its deploy carried. -/
def givenOut (s : Vault) : ℕ := GAS_DEPOSIT * s.notes.length

variable {node : Prover Proof} {s t : Vault} {e : Event Proof} {root : Root}
  {tr : List (Event Proof × Vault)}

/-- Every voucher that can deploy a note is paid for by the message it comes from. -/
theorem issued_paid : GAS_DEPOSIT * (nonFee e.issued).length ≤ collected s e t := by
  cases e with
  | generateVoucher currencies skUCommit isFee =>
    rw [collected, Event.issued]
    cases hv : RootPN.generateVoucher currencies skUCommit isFee with
    | error => exact le_rfl
    | ok v =>
      by_cases ht : v.tokenType = CURRENCIES_ID_SHELL_FEE
      · simp [Except.toOption, nonFee, ht]
      · simp [Except.toOption, nonFee, ht, gas_paid (generateVoucher_backed hv) ht]
  | _ => exact le_rfl

theorem run_paid (h : Run (step node) (init root) tr s) :
    GAS_DEPOSIT * (nonFee s.emitted).length ≤ Run.total collected (init root) tr := by
  refine h.invariant (fun tr s =>
    GAS_DEPOSIT * (nonFee s.emitted).length ≤ Run.total collected (init root) tr) le_rfl ?_
  intro tr s e t hr ih hs
  have hpaid : GAS_DEPOSIT * (nonFee e.issued).length ≤ collected s e t := issued_paid
  rw [Run.total_concat, hr.last_eq, (step_turn hs).emitted, nonFee, List.filter_append,
    List.length_append, Nat.mul_add]
  exact Nat.add_le_add ih hpaid

/-- Each note belongs to a voucher of its own, which paid for it. -/
theorem run_covered (h : Run (step node) (init root) tr s)
    (ha : Run.Each (fun s e _ => s.AimsNote e) (init root) tr) :
    s.givenOut ≤ Run.total collected (init root) tr := by
  have hle : s.notes.length ≤ ((nonFee s.emitted).map node.dihOf).length := by
    refine (run_notes h ha).length_le fun k n hw => ?_
    obtain ⟨v, hv, rfl, -⟩ := hw
    exact List.mem_map_of_mem hv
  rw [List.length_map] at hle
  exact (Nat.mul_le_mul_left _ hle).trans (run_paid h)

end Vault

open Vault

/-- Every voucher is backed by the message it comes from; in a run that presents no voucher again
after the note code was replaced, the gas given to notes is covered by the gas of vouchers; and
the root accepts what the client plans. -/
theorem vouchers_backed (node : Prover Proof) (root : Root) :
    (∀ (m : Currencies) (skUCommit : ℕ) (isFee : Bool) (v : Voucher),
      generateVoucher m skUCommit isFee = .ok v → Backed m v) ∧
    (∀ (tr : List (Event Proof × Vault)) (s : Vault), Run (step node) (init root) tr s →
      Run.Each (fun s e _ => s.AimsNote e) (init root) tr →
      s.givenOut ≤ Run.total Vault.collected (init root) tr) ∧
    ∀ (tokenType nominal skUCommit : ℕ) (isFee : Bool) (send : VoucherSend),
      tokenType ≠ CURRENCIES_ID_SHELL_FEE → isAllowedNominal nominal tokenType = true →
      planVoucher tokenType nominal isFee = .ok send →
      send.nominal = nominal ∧ generateVoucher send.ecc skUCommit isFee =
        .ok ⟨skUCommit, nominal, if tokenType = CURRENCIES_ID_SHELL ∧ isFee = true then
          CURRENCIES_ID_SHELL_FEE else tokenType⟩ :=
  ⟨fun _ _ _ _ h => generateVoucher_backed h, fun _ _ h ha => run_covered h ha,
    fun _ _ _ _ _ ht ha h => planVoucher_accepted ht ha h⟩

section Samples

/-- The voucher is presented a second time under the same code; the client's plan for it. -/
theorem vouchers_backed_sample :
    let tr := sampleTrace (hundredNote ++ [presentHundred, .arrive 0 false, .arrive 0 false])
    let s := Run.last (init sampleRoot) tr
    (s.givenOut ≤ Run.total Vault.collected (init sampleRoot) tr ∧ s.notes.length = 1) ∧
      Backed (Dict.empty.insert CURRENCIES_ID_SHELL 350000000000) hundredVoucher ∧
      generateVoucher (Dict.empty.insert CURRENCIES_ID_SHELL 350000000000) 5 false =
        .ok hundredVoucher := by
  intro tr s
  have h := vouchers_backed plainProver sampleRoot
  refine ⟨⟨h.2.1 tr s (Run.trace_run ..) (by decide +kernel), by decide +kernel⟩, ?_, ?_⟩
  · exact h.1 _ 5 false _ (generateVoucher_of_shape (.deposit (.refl _) rfl))
  · exact (h.2.2 CURRENCIES_ID_SHELL 100000000000 5 false ⟨_, _⟩ (by decide) rfl rfl).2

/-- After the note code is replaced, the voucher deploys a second note and takes gas again. -/
theorem vouchers_not_backed :
    let tr := sampleTrace (hundredNote ++ [.setPrivateNoteCode 77 ⟨7, 1⟩, presentHundred,
      .arrive 0 false, .arrive 0 false])
    let s := Run.last (init sampleRoot) tr
    Run (step plainProver) (init sampleRoot) tr s ∧
      ¬ s.givenOut ≤ Run.total Vault.collected (init sampleRoot) tr := by
  intro tr s
  exact ⟨Run.trace_run .., by decide +kernel⟩

end Samples

end Dexdo.RootPN
