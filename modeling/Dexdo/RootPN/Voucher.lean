import Dexdo.Lib.Dict
import Dexdo.Modifiers

namespace Dexdo.RootPN

def CURRENCIES_ID_SHELL_FEE : ℕ := 300

/-- 250 SHELL. -/
def GAS_DEPOSIT : ℕ := 250000000000

def ALLOWED_NOMINALS : List ℕ := [100, 1000, 10000, 100000, 1000000]

def ERR_ZERO_TOKEN_AMOUNT : ℕ := 128
def ERR_NOT_ALLOWED : ℕ := 141
def ERR_BAD_GAS_MIX : ℕ := 407
def ERR_BELOW_GAS_DEPOSIT : ℕ := 408
def ERR_FEE_TYPE_NOT_DEPOSITABLE : ℕ := 409

def tokenDecimals (tokenType : ℕ) : ℕ :=
  if tokenType = CURRENCIES_ID_USDC then 1000000 else 1000000000

/-- Exit code of a cast whose value does not fit. -/
def INTEGER_OVERFLOW : ℕ := 4

/-- A cast to 128 bits. -/
def uint128 (n : ℕ) : Except ℕ ℕ := if n < 2 ^ 128 then .ok n else .error INTEGER_OVERFLOW

def isAllowedNominal (nominal tokenType : ℕ) : Bool :=
  ALLOWED_NOMINALS.any fun n => decide (n * tokenDecimals tokenType = nominal)

/-- Currencies of a message, amounts in up to 248 bits. -/
abbrev Currencies := Dict ℕ ℕ

/-- `VoucherGenerated`. -/
structure Voucher where
  skUCommit : ℕ
  voucherNominal : ℕ
  tokenType : ℕ
  deriving DecidableEq

/-- `generateVoucher` from the check for zero on. -/
def issueVoucher (skUCommit voucherNominal tokenType : ℕ) (isFee : Bool) : Except ℕ Voucher :=
  if ¬ 0 < voucherNominal then .error ERR_ZERO_TOKEN_AMOUNT
  else (uint128 voucherNominal).bind fun nominal =>
    if ¬ isAllowedNominal nominal tokenType then .error ERR_NOT_ALLOWED
    else .ok ⟨skUCommit, voucherNominal,
      if tokenType = CURRENCIES_ID_SHELL ∧ isFee then CURRENCIES_ID_SHELL_FEE else tokenType⟩

def generateVoucher (currencies : Currencies) (skUCommit : ℕ) (isFee : Bool) :
    Except ℕ Voucher :=
  let amount (k : ℕ) : ℕ := (currencies.get? k).getD 0
  match currencies.keys with
  | [a, b] =>
    let shellLeg := if a = CURRENCIES_ID_SHELL then a else b
    let tokenType := if a = CURRENCIES_ID_SHELL then b else a
    if shellLeg ≠ CURRENCIES_ID_SHELL then .error ERR_BAD_GAS_MIX
    else (uint128 (amount shellLeg)).bind fun gas =>
      if gas ≠ GAS_DEPOSIT then .error ERR_BAD_GAS_MIX
      else if tokenType = CURRENCIES_ID_SHELL_FEE then .error ERR_FEE_TYPE_NOT_DEPOSITABLE
      else issueVoucher skUCommit (amount tokenType) tokenType isFee
  | [tokenType] =>
    if tokenType ≠ CURRENCIES_ID_SHELL then .error ERR_BAD_GAS_MIX
    else if isFee then issueVoucher skUCommit (amount tokenType) tokenType isFee
    else (uint128 (amount tokenType)).bind fun total =>
      if total < GAS_DEPOSIT then .error ERR_BELOW_GAS_DEPOSIT
      else issueVoucher skUCommit (amount tokenType - GAS_DEPOSIT) tokenType isFee
  | _ => .error ERR_BAD_GAS_MIX

/-- Why the client gives up. -/
inductive Halo2PathsError
  | voucherGasOverflow (nominal gas : ℕ)

structure VoucherSend where
  ecc : Currencies
  nominal : ℕ

/-- `plan_voucher`, in 64 bits. -/
def planVoucher (voucherTokenType nominal : ℕ) (isFee : Bool) :
    Except Halo2PathsError VoucherSend :=
  if voucherTokenType ≠ CURRENCIES_ID_SHELL then
    .ok ⟨(Dict.empty.insert voucherTokenType nominal).insert CURRENCIES_ID_SHELL GAS_DEPOSIT,
      nominal⟩
  else if isFee then .ok ⟨Dict.empty.insert CURRENCIES_ID_SHELL nominal, nominal⟩
  else if nominal + GAS_DEPOSIT < 2 ^ 64 then
    .ok ⟨Dict.empty.insert CURRENCIES_ID_SHELL (nominal + GAS_DEPOSIT), nominal⟩
  else .error (.voucherGasOverflow nominal GAS_DEPOSIT)

section Nominals

theorem isAllowedNominal_iff {nominal tokenType : ℕ} :
    isAllowedNominal nominal tokenType = true ↔
      ∃ n ∈ ALLOWED_NOMINALS, nominal = n * tokenDecimals tokenType := by
  rw [isAllowedNominal, List.any_eq_true]
  constructor
  · rintro ⟨n, hn, h⟩
    exact ⟨n, hn, (of_decide_eq_true h).symm⟩
  · rintro ⟨n, hn, rfl⟩
    exact ⟨n, hn, decide_eq_true rfl⟩

theorem allowed_bounds {nominal tokenType : ℕ} (h : isAllowedNominal nominal tokenType = true) :
    0 < nominal ∧ nominal ≤ 10 ^ 15 := by
  obtain ⟨n, hn, rfl⟩ := isAllowedNominal_iff.mp h
  have hd : 0 < tokenDecimals tokenType ∧ tokenDecimals tokenType ≤ 10 ^ 9 := by
    unfold tokenDecimals
    split_ifs <;> norm_num
  have hn' : 0 < n ∧ n ≤ 10 ^ 6 := by
    simp only [ALLOWED_NOMINALS, List.mem_cons, List.not_mem_nil, or_false] at hn
    omega
  constructor
  · exact Nat.mul_pos hn'.1 hd.1
  · calc n * tokenDecimals tokenType ≤ 10 ^ 6 * 10 ^ 9 := Nat.mul_le_mul hn'.2 hd.2
      _ = 10 ^ 15 := by norm_num

theorem allowed_lt {nominal tokenType : ℕ} (h : isAllowedNominal nominal tokenType = true) :
    nominal < 2 ^ 64 := by
  have := (allowed_bounds h).2
  omega

theorem uint128_bind {α : Type} {n : ℕ} {f : ℕ → Except ℕ α} {x : α} :
    (uint128 n).bind f = .ok x ↔ n < 2 ^ 128 ∧ f n = .ok x := by
  unfold uint128
  by_cases h : n < 2 ^ 128
  · rw [if_pos h]
    exact (and_iff_right h).symm
  · rw [if_neg h]
    constructor
    · intro hx
      cases hx
    · intro hx
      exact absurd hx.1 h

end Nominals

/-- The message carries exactly these amounts. -/
def Carries (currencies : Currencies) (l : List (ℕ × ℕ)) : Prop := currencies.entries.Perm l

/-- What a currency map has to be for `generateVoucher` to emit a nominal for a token type. -/
inductive Shape (currencies : Currencies) : Bool → ℕ → ℕ → Prop
  | fee {x : ℕ} : Carries currencies [(CURRENCIES_ID_SHELL, x)] →
      isAllowedNominal x CURRENCIES_ID_SHELL = true →
      Shape currencies true x CURRENCIES_ID_SHELL_FEE
  | deposit {x : ℕ} : Carries currencies [(CURRENCIES_ID_SHELL, x + GAS_DEPOSIT)] →
      isAllowedNominal x CURRENCIES_ID_SHELL = true →
      Shape currencies false x CURRENCIES_ID_SHELL
  | legs {isFee : Bool} {t x : ℕ} :
      Carries currencies [(CURRENCIES_ID_SHELL, GAS_DEPOSIT), (t, x)] → t ≠ CURRENCIES_ID_SHELL →
      t ≠ CURRENCIES_ID_SHELL_FEE → isAllowedNominal x t = true → Shape currencies isFee x t

section Acceptance

variable {m : Currencies} {skUCommit nominal tokenType : ℕ} {isFee : Bool} {v : Voucher}

theorem issueVoucher_ok :
    issueVoucher skUCommit nominal tokenType isFee = .ok v ↔
      isAllowedNominal nominal tokenType = true ∧
        v = ⟨skUCommit, nominal, if tokenType = CURRENCIES_ID_SHELL ∧ isFee then
          CURRENCIES_ID_SHELL_FEE else tokenType⟩ := by
  unfold issueVoucher
  constructor
  · intro h
    by_cases h0 : 0 < nominal
    · rw [if_neg (not_not.mpr h0)] at h
      obtain ⟨-, h⟩ := uint128_bind.mp h
      by_cases ha : isAllowedNominal nominal tokenType = true
      · rw [if_neg (not_not.mpr ha)] at h
        exact ⟨ha, (Except.ok.inj h).symm⟩
      · rw [if_pos ha] at h
        cases h
    · rw [if_pos h0] at h
      cases h
  · rintro ⟨ha, rfl⟩
    have h64 := allowed_lt ha
    rw [if_neg (not_not.mpr (allowed_bounds ha).1), uint128_bind, if_neg (not_not.mpr ha)]
    exact ⟨by omega, rfl⟩

theorem get?_of_entries {m : Currencies} {k x : ℕ} (h : (k, x) ∈ m.entries) :
    (m.get? k).getD 0 = x := by
  rw [(m.get?_eq_some_iff k x).mpr h]
  rfl

theorem entries_of_keys {m : Currencies} {ks : List ℕ} (h : m.keys = ks) :
    m.entries = ks.map fun k => (k, (m.get? k).getD 0) := by
  rw [← h, Dict.keys, List.map_map]
  refine (List.map_id' m.entries).symm.trans (List.map_congr_left fun e he => ?_)
  exact Prod.ext rfl (get?_of_entries he).symm

theorem carries_legs {a b g x : ℕ} (h : Carries m [(a, g), (b, x)]) :
    m.entries = [(a, g), (b, x)] ∨ m.entries = [(b, x), (a, g)] := by
  cases hm : m.entries with
  | nil =>
    rw [Carries, hm] at h
    cases h.length_eq
  | cons =>
    rw [Carries, hm] at h
    rcases List.mem_cons.mp (h.subset List.mem_cons_self) with rfl | he
    · have hl := (List.perm_cons _).mp h
      rw [List.perm_singleton.mp hl]
      exact .inl rfl
    · have he := List.mem_singleton.mp he
      subst he
      have hl := (List.perm_cons _).mp (h.trans (List.Perm.swap (b, x) (a, g) []))
      rw [List.perm_singleton.mp hl]
      exact .inr rfl

theorem shape_of_generateVoucher (h : generateVoucher m skUCommit isFee = .ok v) :
    Shape m isFee v.voucherNominal v.tokenType ∧ v.skUCommit = skUCommit := by
  simp only [generateVoucher] at h
  split at h
  · rename_i a b hkeys
    have hent := entries_of_keys hkeys
    have hsorted := m.keys_sorted
    rw [hkeys] at hsorted
    have hne : a ≠ b := (List.rel_of_pairwise_cons hsorted (List.mem_singleton.mpr rfl)).ne
    by_cases ha : a = CURRENCIES_ID_SHELL
    · subst ha
      simp only [if_true, ne_eq, not_true_eq_false, if_false] at h
      obtain ⟨-, h⟩ := uint128_bind.mp h
      split_ifs at h with hg ht
      obtain ⟨hal, rfl⟩ := issueVoucher_ok.mp h
      rw [if_neg fun hx => hne hx.1.symm]
      have hcarries : Carries m _ := List.Perm.of_eq hent
      simp only [List.map_cons, List.map_nil, hg] at hcarries
      exact ⟨.legs hcarries hne.symm ht hal, rfl⟩
    · simp only [if_neg ha] at h
      by_cases hb : b = CURRENCIES_ID_SHELL
      swap
      · rw [if_pos hb] at h
        cases h
      subst hb
      rw [if_neg (not_not.mpr rfl)] at h
      obtain ⟨-, h⟩ := uint128_bind.mp h
      split_ifs at h with hg ht
      obtain ⟨hal, rfl⟩ := issueVoucher_ok.mp h
      rw [if_neg fun hx => ha hx.1]
      have hcarries : Carries m _ := (List.Perm.of_eq hent).trans (List.Perm.swap ..)
      simp only [not_not.mp hg] at hcarries
      exact ⟨.legs hcarries ha ht hal, rfl⟩
  · rename_i t hkeys
    have hent : Carries m _ := List.Perm.of_eq (entries_of_keys hkeys)
    by_cases ht : t = CURRENCIES_ID_SHELL
    · subst ht
      simp only [ne_eq, not_true_eq_false, if_false] at h
      split_ifs at h with hf
      · obtain ⟨hal, rfl⟩ := issueVoucher_ok.mp h
        subst hf
        exact ⟨.fee hent hal, rfl⟩
      · obtain ⟨-, h⟩ := uint128_bind.mp h
        split_ifs at h with hg
        obtain ⟨hal, rfl⟩ := issueVoucher_ok.mp h
        have hf := Bool.eq_false_iff.mpr hf
        subst hf
        rw [List.map_singleton, ← Nat.sub_add_cancel (not_lt.mp hg)] at hent
        exact ⟨.deposit hent hal, rfl⟩
    · rw [if_pos ht] at h
      cases h
  · cases h

theorem generateVoucher_of_shape (hs : Shape m isFee nominal tokenType) :
    generateVoucher m skUCommit isFee = .ok ⟨skUCommit, nominal, tokenType⟩ := by
  have hsingle : ∀ {a : ℕ}, Carries m [(CURRENCIES_ID_SHELL, a)] →
      m.keys = [CURRENCIES_ID_SHELL] ∧ (m.get? CURRENCIES_ID_SHELL).getD 0 = a := by
    intro a he
    have he := List.perm_singleton.mp he
    refine ⟨?_, get?_of_entries (by simp [he])⟩
    rw [Dict.keys, he]
    rfl
  cases hs with
  | fee he ha =>
    obtain ⟨hkeys, hget⟩ := hsingle he
    simp only [generateVoucher, hkeys]
    rw [hget, if_neg (not_not.mpr rfl), if_pos trivial, issueVoucher_ok]
    exact ⟨ha, rfl⟩
  | deposit he ha =>
    obtain ⟨hkeys, hget⟩ := hsingle he
    have h64 := allowed_lt ha
    have hwide : nominal + GAS_DEPOSIT < 2 ^ 128 := by
      unfold GAS_DEPOSIT
      omega
    simp only [generateVoucher, hkeys]
    rw [hget, if_neg (not_not.mpr rfl), if_neg Bool.false_ne_true, uint128_bind,
      if_neg (not_lt.mpr (Nat.le_add_left _ _)), Nat.add_sub_cancel, issueVoucher_ok]
    exact ⟨hwide, ha, rfl⟩
  | legs he hs ht ha =>
    have hgs : (m.get? CURRENCIES_ID_SHELL).getD 0 = GAS_DEPOSIT :=
      get?_of_entries (he.mem_iff.mpr (by simp))
    have hxt : (m.get? tokenType).getD 0 = nominal := get?_of_entries (he.mem_iff.mpr (by simp))
    have hissue : issueVoucher skUCommit nominal tokenType isFee =
        .ok ⟨skUCommit, nominal, tokenType⟩ := by
      rw [issueVoucher_ok, if_neg fun hx => hs hx.1]
      exact ⟨ha, rfl⟩
    have hgas : GAS_DEPOSIT < 2 ^ 128 := by norm_num [GAS_DEPOSIT]
    rcases carries_legs he with he | he
    · have hkeys : m.keys = [CURRENCIES_ID_SHELL, tokenType] := by
        rw [Dict.keys, he]
        rfl
      simp only [generateVoucher, hkeys, if_true, hgs, hxt]
      rw [if_neg (not_not.mpr rfl), uint128_bind, if_neg (not_not.mpr rfl), if_neg ht]
      exact ⟨hgas, hissue⟩
    · have hkeys : m.keys = [tokenType, CURRENCIES_ID_SHELL] := by
        rw [Dict.keys, he]
        rfl
      simp only [generateVoucher, hkeys, if_neg hs, hgs, hxt]
      rw [if_neg (not_not.mpr rfl), uint128_bind, if_neg (not_not.mpr rfl), if_neg ht]
      exact ⟨hgas, hissue⟩

theorem generateVoucher_ok :
    generateVoucher m skUCommit isFee = .ok v ↔
      Shape m isFee v.voucherNominal v.tokenType ∧ v.skUCommit = skUCommit := by
  constructor
  · exact shape_of_generateVoucher
  · rintro ⟨hs, rfl⟩
    exact generateVoucher_of_shape hs

end Acceptance

/-- What a voucher stands for: the message carried the nominal in its token, and the gas too
unless it is a fee voucher; the nominal is on the list and fits the circuit. -/
structure Backed (currencies : Currencies) (v : Voucher) : Prop where
  deposit : v.tokenType = CURRENCIES_ID_SHELL →
    Carries currencies [(CURRENCIES_ID_SHELL, v.voucherNominal + GAS_DEPOSIT)]
  legs : v.tokenType ≠ CURRENCIES_ID_SHELL → v.tokenType ≠ CURRENCIES_ID_SHELL_FEE →
    Carries currencies [(CURRENCIES_ID_SHELL, GAS_DEPOSIT), (v.tokenType, v.voucherNominal)]
  fee : v.tokenType = CURRENCIES_ID_SHELL_FEE →
    Carries currencies [(CURRENCIES_ID_SHELL, v.voucherNominal)]
  nominal : ∃ n ∈ ALLOWED_NOMINALS, v.voucherNominal = n * tokenDecimals v.tokenType
  fits : v.voucherNominal < 2 ^ 64

section Backing

variable {m : Currencies} {skUCommit : ℕ} {isFee : Bool} {v : Voucher}

theorem fee_ne_shell : CURRENCIES_ID_SHELL_FEE ≠ CURRENCIES_ID_SHELL := by decide

theorem generateVoucher_backed (h : generateVoucher m skUCommit isFee = .ok v) : Backed m v := by
  obtain ⟨hs, -⟩ := generateVoucher_ok.mp h
  obtain ⟨sk, nominal, tokenType⟩ := v
  change Shape m isFee nominal tokenType at hs
  cases hs with
  | fee he ha =>
    exact ⟨fun h => absurd h fee_ne_shell, fun _ h => absurd rfl h, fun _ => he,
      isAllowedNominal_iff.mp ha, allowed_lt ha⟩
  | deposit he ha =>
    exact ⟨fun _ => he, fun h => absurd rfl h, fun h => absurd h.symm fee_ne_shell,
      isAllowedNominal_iff.mp ha, allowed_lt ha⟩
  | legs he hs ht ha =>
    exact ⟨fun h => absurd h hs, fun _ _ => he, fun h => absurd h ht,
      isAllowedNominal_iff.mp ha, allowed_lt ha⟩

end Backing

section Plan

theorem single_entries (k x : ℕ) : (Dict.empty.insert k x : Currencies).entries = [(k, x)] := rfl

/-- The map the client plans for an allowed nominal is accepted, and the nominal is the one
asked for. -/
theorem planVoucher_accepted {tokenType nominal skUCommit : ℕ} {isFee : Bool} {send : VoucherSend}
    (ht : tokenType ≠ CURRENCIES_ID_SHELL_FEE)
    (ha : isAllowedNominal nominal tokenType = true)
    (h : planVoucher tokenType nominal isFee = .ok send) :
    send.nominal = nominal ∧ generateVoucher send.ecc skUCommit isFee =
      .ok ⟨skUCommit, nominal, if tokenType = CURRENCIES_ID_SHELL ∧ isFee = true then
        CURRENCIES_ID_SHELL_FEE else tokenType⟩ := by
  unfold planVoucher at h
  by_cases hs : tokenType = CURRENCIES_ID_SHELL
  · subst hs
    rw [if_neg (not_not.mpr rfl)] at h
    cases isFee with
    | true =>
      cases h
      rw [if_pos ⟨rfl, rfl⟩]
      exact ⟨rfl, generateVoucher_of_shape (.fee (List.Perm.of_eq (single_entries _ _)) ha)⟩
    | false =>
      rw [if_neg Bool.false_ne_true] at h
      split_ifs at h
      cases h
      rw [if_neg fun hx => Bool.false_ne_true hx.2]
      exact ⟨rfl, generateVoucher_of_shape (.deposit (List.Perm.of_eq (single_entries _ _)) ha)⟩
  · rw [if_pos hs] at h
    cases h
    rw [if_neg fun hx => hs hx.1]
    refine ⟨rfl, generateVoucher_of_shape (.legs ?_ hs ht ha)⟩
    refine (Dict.insert_perm _ _ _).trans (List.Perm.cons _ ?_)
    rw [Dict.erase_of_absent]
    · exact List.Perm.of_eq (single_entries _ _)
    · rw [Dict.get?_insert_of_ne _ _ fun hx => hs hx.symm]
      rfl

end Plan

end Dexdo.RootPN
