import Dexdo.Lib.Packed
import Dexdo.Multisig.Steps

namespace Dexdo.Multisig

open Packed

variable {Cell α : Type}

theorem getMaskValue_eq (mask i : ℕ) : getMaskValue mask i = digit 256 mask i := by
  have hand := Nat.and_two_pow_sub_one_eq_mod (mask >>> (8 * i)) 8
  rw [getMaskValue, digit, show (256 : ℕ) = 2 ^ 8 by norm_num, ← pow_mul,
    ← Nat.shiftRight_eq_div_pow]
  exact hand

theorem unit_eq (i : ℕ) : 1 <<< (8 * i) = 256 ^ i := by
  rw [Nat.shiftLeft_eq, one_mul, pow_mul]
  norm_num

theorem decMaskValue_some {mask i mask' : ℕ} (h : decMaskValue mask i = some mask') :
    mask = 256 ^ i + mask' := by
  simp only [decMaskValue, unit_eq] at h
  split_ifs at h with hle
  cases h
  omega

theorem incMaskValue_some {mask i mask' : ℕ} (h : incMaskValue mask i = some mask') :
    mask' = 256 ^ i + mask := by
  simp only [incMaskValue, unit_eq] at h
  split_ifs at h with hlt
  cases h
  omega

theorem decMask_some {mask mask' : ℕ} {l : List ℕ} (h : decMask mask l = some mask') :
    mask = packed 256 l + mask' := by
  induction l generalizing mask with
  | nil =>
    cases h
    simp
  | cons i l ih =>
    obtain ⟨m, hm, hl⟩ := Option.bind_eq_some_iff.mp h
    rw [decMaskValue_some hm, ih hl, packed_cons]
    omega

theorem creators_insert (queue : Queue α) (id : ℕ) (r : Request α) :
    (creators (queue.insert id r).entries).Perm
      (r.creator.index :: creators (queue.erase id).entries) :=
  (queue.insert_perm id r).map _

theorem creators_erase {queue : Queue α} {id : ℕ} {r : Request α} (h : queue.get? id = some r) :
    (creators queue.entries).Perm (r.creator.index :: creators (queue.erase id).entries) :=
  (Dict.erase_perm h).map _

/-- A mask counts the requests of a queue, one byte a custodian. -/
structure Counted (mask : ℕ) (queue : Queue α) : Prop where
  mask_eq : mask = packed 256 (creators queue.entries)
  count_le : ∀ i, (creators queue.entries).count i ≤ MAX_QUEUED_REQUESTS

namespace Counted

variable {mask mask' id : ℕ} {queue : Queue α} {r : Request α}

protected theorem empty : Counted 0 (.empty : Queue α) :=
  ⟨rfl, fun _ => Nat.zero_le _⟩

theorem getMaskValue (h : Counted mask queue) (i : ℕ) :
    getMaskValue mask i = (creators queue.entries).count i := by
  rw [getMaskValue_eq, h.mask_eq]
  apply digit_packed
  intro j
  exact (h.count_le j).trans_lt (by decide)

theorem of_perm {queue' : Queue α} (h : Counted mask queue)
    (hp : (creators queue.entries).Perm (creators queue'.entries)) : Counted mask queue' where
  mask_eq := h.mask_eq.trans (packed_perm hp)
  count_le i := (hp.count_eq i) ▸ h.count_le i

theorem replace {r' : Request α} (h : Counted mask (queue.insert id r))
    (hc : r'.creator = r.creator) : Counted mask (queue.insert id r') := by
  apply h.of_perm
  refine (creators_insert queue id r).trans ?_
  rw [← hc]
  exact (creators_insert queue id r').symm

theorem remove (h : Counted mask (queue.insert id r))
    (hm : decMaskValue mask r.creator.index = some mask') : Counted mask' (queue.erase id) := by
  have hp := creators_insert queue id r
  have hmask := h.mask_eq
  rw [packed_perm hp, packed_cons, decMaskValue_some hm] at hmask
  refine ⟨Nat.add_left_cancel hmask, fun i => ?_⟩
  have hle := h.count_le i
  rw [hp.count_eq] at hle
  exact (List.count_le_count_cons ..).trans hle

theorem add (h : Counted mask queue) (hid : queue.get? id = none)
    (hroom : Multisig.getMaskValue mask r.creator.index < MAX_QUEUED_REQUESTS)
    (hm : incMaskValue mask r.creator.index = some mask') :
    Counted mask' (queue.insert id r) := by
  have hp := creators_insert queue id r
  rw [Dict.erase_of_absent hid] at hp
  rw [h.getMaskValue] at hroom
  constructor
  · rw [packed_perm hp, packed_cons, ← h.mask_eq]
    exact incMaskValue_some hm
  · intro i
    rw [hp.count_eq]
    by_cases hi : r.creator.index = i
    · subst hi
      rw [List.count_cons_self]
      exact hroom
    · rw [List.count_cons_of_ne hi]
      exact h.count_le i

theorem held (h : Counted mask queue) (hr : queue.get? id = some r) :
    Counted mask (queue.insert id r) :=
  h.of_perm ((creators_erase hr).trans (creators_insert queue id r).symm)

theorem removed {marker maxCleanup : ℕ} {taken : List (ℕ × Request α)} {acc : ℕ × Queue α}
    (h : Counted mask queue) (hr : Removed marker maxCleanup mask queue taken acc) :
    Counted acc.1 acc.2 := by
  have hc : creators queue.entries = creators taken ++ creators acc.2.entries := by
    rw [creators, hr.split, List.map_append]
    rfl
  have hmask := h.mask_eq
  rw [decMask_some hr.mask, hc, packed_append] at hmask
  refine ⟨Nat.add_left_cancel hmask, fun i => ?_⟩
  have hle := h.count_le i
  rw [hc, List.count_append] at hle
  omega

end Counted

/-- Both masks count their queues. -/
structure Exact (s : Multisig Cell) : Prop where
  transfers : Counted s.requestsMask s.transactions
  updates : Counted s.requestsMaskData s.data

section Steps

variable {tvm : Tvm} {s s₁ s' : Multisig Cell} {l : Incoming Cell} {e : Effect Cell}

theorem initializeOwners_exact {p : Owners} (h : initializeOwners tvm p = .ok s') : Exact s' := by
  simp only [initializeOwners] at h
  split_ifs at h
  split at h
  · cases h
  · split at h
    · cases h
    · split_ifs at h
      all_goals
        cases h
        exact ⟨.empty, .empty⟩

theorem confirmTxn_exact {id index : ℕ} {txn : Transaction Cell}
    (h : confirmTxn tvm s id txn index = .ok (s', e))
    (ht : Counted s.requestsMask (s.transactions.insert id txn))
    (hu : Counted s.requestsMaskData s.data) : Exact s' := by
  rcases confirmTxn_cases h with ⟨-, m, mask, -, hmask, rfl, -⟩ | ⟨-, rfl, -⟩
  · exact ⟨ht.remove hmask, hu⟩
  · exact ⟨ht.replace rfl, hu⟩

theorem confirmUpdate_exact {id index : ℕ} {du : UpdateData}
    (h : confirmUpdate tvm s id du index = .ok (s', e))
    (ht : Counted s.requestsMask s.transactions)
    (hu : Counted s.requestsMaskData (s.data.insert id du)) : Exact s' := by
  rcases confirmUpdate_cases h with ⟨-, hs, -⟩ | ⟨-, rfl, -⟩
  · exact initializeOwners_exact hs
  · exact ⟨ht, hu.replace rfl⟩

/-- The sender would confirm a request that is expired and stays in the queue, because
`maxCleanup` expired ones stand before it. -/
def Overdue (maxCleanup : ℕ) (queue : Queue α) (b : Block) (cstd : Custodian) (id : ℕ) : Prop :=
  ∃ r marker, queue.get? id = some r ∧ isConfirmed r.confirmationsMask cstd.index = false ∧
    b.getExpirationBound = some marker ∧ id ≤ marker ∧
    maxCleanup ≤ (queue.keys.filter (· < id)).length

/-- The message confirms no overdue request, and an id it generates is not in use. -/
def Regular (tvm : Tvm) (s : Multisig Cell) (l : Incoming Cell) : Prop :=
  match l.call with
  | .submitTransaction _ => ∀ id, l.block.generateId = some id → s.transactions.get? id = none
  | .submitDataUpdate _ => ∀ id, l.block.generateId = some id → s.data.get? id = none
  | .confirmTransaction id => ∀ cstd, s.findCustodian tvm l = some cstd →
      ¬ Overdue s.maxCleanupOperations s.transactions l.block cstd id
  | .confirmDataUpdate id => ∀ cstd, s.findCustodian tvm l = some cstd →
      ¬ Overdue s.maxCleanupOperations s.data l.block cstd id
  | _ => True

theorem tidied_exact (hs : Exact s) (h : s.tidied l = some s₁) : Exact s₁ := by
  cases hl : l.call with
  | setMaxCleanupOperations | sendTransaction =>
    rw [tidied, hl] at h
    cases h
    exact hs
  | submitTransaction t =>
    obtain ⟨_, _, -, hr, hm, hd⟩ := tidied_transactions h (.inl ⟨t, hl⟩)
    exact ⟨hs.transfers.removed hr, hm ▸ hd ▸ hs.updates⟩
  | confirmTransaction id =>
    obtain ⟨_, _, -, hr, hm, hd⟩ := tidied_transactions h (.inr ⟨id, hl⟩)
    exact ⟨hs.transfers.removed hr, hm ▸ hd ▸ hs.updates⟩
  | submitDataUpdate p =>
    obtain ⟨_, _, -, hr, hm, ht⟩ := tidied_data h (.inl ⟨p, hl⟩)
    exact ⟨hm ▸ ht ▸ hs.transfers, hs.updates.removed hr⟩
  | confirmDataUpdate id =>
    obtain ⟨_, _, -, hr, hm, ht⟩ := tidied_data h (.inr ⟨id, hl⟩)
    exact ⟨hm ▸ ht ▸ hs.transfers, hs.updates.removed hr⟩

/-- An entry keeps both masks exact, as long as it deletes no expired request itself. -/
theorem entered_exact (hs : Exact s) (hreg : Regular tvm s l) (h₁ : s.tidied l = some s₁)
    (h : Entered tvm l s₁ s' e) : Exact s' := by
  have hx := tidied_exact hs h₁
  cases h with
  | limited => exact ⟨hx.transfers, hx.updates⟩
  | sentNow => exact hx
  | @submitted cstd t mask id _ _ hl hc hroom hm hid hconf =>
    obtain ⟨_, _, -, hr, -, -⟩ := tidied_transactions h₁ (.inl ⟨t, hl⟩)
    rw [Regular, hl] at hreg
    refine confirmTxn_exact hconf ?_ hx.updates
    exact hx.transfers.add (hr.get?_none (hreg id hid)) hroom hm
  | confirmed hl hc hr hn hb hlt hconf =>
    exact confirmTxn_exact hconf (hx.transfers.held hr) hx.updates
  | @dropped cstd txn id marker hl hc hr hn hb hle =>
    obtain ⟨marker', _, hb', hrem, -, -⟩ := tidied_transactions h₁ (.inr ⟨id, hl⟩)
    rw [hb] at hb'
    cases hb'
    rw [findCustodian_tidied h₁] at hc
    rw [Regular, hl] at hreg
    exact absurd ⟨txn, marker, hrem.get? hr, hn, hb, hle, hrem.le_before hr hle⟩ (hreg cstd hc)
  | updatedNow hl hc hd hi => exact initializeOwners_exact hi
  | @submittedUpdate cstd p mask id _ _ hl hc hroom hm hid hconf =>
    obtain ⟨_, _, -, hr, -, -⟩ := tidied_data h₁ (.inl ⟨p, hl⟩)
    rw [Regular, hl] at hreg
    refine confirmUpdate_exact hconf hx.transfers ?_
    exact hx.updates.add (hr.get?_none (hreg id hid)) hroom hm
  | confirmedUpdate hl hc hr hn hb hlt hconf =>
    exact confirmUpdate_exact hconf hx.transfers (hx.updates.held hr)
  | @droppedUpdate cstd du id marker hl hc hr hn hb hle =>
    obtain ⟨marker', _, hb', hrem, -, -⟩ := tidied_data h₁ (.inr ⟨id, hl⟩)
    rw [hb] at hb'
    cases hb'
    rw [findCustodian_tidied h₁] at hc
    rw [Regular, hl] at hreg
    exact absurd ⟨du, marker, hrem.get? hr, hn, hb, hle, hrem.le_before hr hle⟩ (hreg cstd hc)

theorem act_exact (hs : Exact s) (hreg : Regular tvm s l) : Exact (s.act tvm l).storage := by
  have hend := act_ended tvm s l
  generalize s.act tvm l = a at hend
  cases hend with
  | refused => exact hs
  | failed _ h₁ => exact tidied_exact hs h₁
  | entered h₁ h => exact entered_exact hs hreg h₁ h

theorem Removed.count_le {marker maxCleanup mask : ℕ} {queue : Queue α}
    {taken : List (ℕ × Request α)} {acc : ℕ × Queue α}
    (h : Removed marker maxCleanup mask queue taken acc) (i : ℕ) :
    (creators acc.2.entries).count i ≤ (creators queue.entries).count i := by
  rw [creators, creators, h.split, List.map_append, List.count_append]
  exact Nat.le_add_left _ _

/-- Who is refused for too many requests has them queued. -/
theorem refused_full (hs : Exact s) {cstd : Custodian} (hc : s.findCustodian tvm l = some cstd)
    (h : (s.act tvm l).effect = .error (.require 113)) :
    (∃ t, l.call = .submitTransaction t ∧
      MAX_QUEUED_REQUESTS ≤ (creators s.transactions.entries).count cstd.index) ∨
    ∃ p, l.call = .submitDataUpdate p ∧
      MAX_QUEUED_REQUESTS ≤ (creators s.data.entries).count cstd.index := by
  have hend := act_ended tvm s l
  generalize s.act tvm l = a at h hend
  cases hend with
  | refused err herr =>
    cases h
    exact absurd rfl herr
  | entered => cases h
  | @failed s₁ cstd' err h₁ hc' hfull =>
    cases h
    have hfull := hfull rfl
    have hx := tidied_exact hs h₁
    rw [findCustodian_tidied h₁, hc] at hc'
    cases hc'
    unfold Full at hfull
    split at hfull
    · rename_i t hl
      obtain ⟨_, _, -, hr, -, -⟩ := tidied_transactions h₁ (.inl ⟨t, hl⟩)
      rw [hx.transfers.getMaskValue] at hfull
      exact .inl ⟨t, hl, hfull.trans (hr.count_le _)⟩
    · rename_i p hl
      obtain ⟨_, _, -, hr, -, -⟩ := tidied_data h₁ (.inl ⟨p, hl⟩)
      rw [hx.updates.getMaskValue] at hfull
      exact .inr ⟨p, hl, hfull.trans (hr.count_le _)⟩
    · exact hfull.elim

end Steps

theorem run_exact {tvm : Tvm} {pubkey ownPubkey : ℕ} {p : Owners} {s₀ s : Multisig Cell}
    {tr : List (Incoming Cell × Multisig Cell)} (h₀ : deploy tvm pubkey ownPubkey p = .ok s₀)
    (h : Run (step tvm) s₀ tr s) (hreg : Run.Each (fun s l _ => Regular tvm s l) s₀ tr) :
    Exact s := by
  refine h.invariant_each (fun _ => Exact) ?_ ?_ hreg
  · unfold deploy at h₀
    split_ifs at h₀
    exact initializeOwners_exact h₀
  · intro tr t l u _ ht hP hu
    cases hu
    exact act_exact ht hP

/-- In a run without confirmations of overdue requests and without reused ids, byte `i` of each
mask is the number of requests custodian `i` has in that queue, and who has fewer than
`MAX_QUEUED_REQUESTS` is not refused for having too many. -/
theorem counters_exact {tvm : Tvm} {pubkey ownPubkey : ℕ} {p : Owners} {s₀ s : Multisig Cell}
    {tr : List (Incoming Cell × Multisig Cell)} (h₀ : deploy tvm pubkey ownPubkey p = .ok s₀)
    (h : Run (step tvm) s₀ tr s) (hreg : Run.Each (fun s l _ => Regular tvm s l) s₀ tr) :
    (∀ i, getMaskValue s.requestsMask i = (creators s.transactions.entries).count i ∧
      getMaskValue s.requestsMaskData i = (creators s.data.entries).count i) ∧
    ∀ l cstd, s.findCustodian tvm l = some cstd →
      ((∃ t, l.call = .submitTransaction t) →
        (creators s.transactions.entries).count cstd.index < MAX_QUEUED_REQUESTS →
        (s.act tvm l).effect ≠ .error (.require 113)) ∧
      ((∃ p, l.call = .submitDataUpdate p) →
        (creators s.data.entries).count cstd.index < MAX_QUEUED_REQUESTS →
        (s.act tvm l).effect ≠ .error (.require 113)) := by
  have hx := run_exact h₀ h hreg
  refine ⟨fun i => ⟨hx.transfers.getMaskValue i, hx.updates.getMaskValue i⟩, ?_⟩
  intro l cstd hc
  constructor
  · rintro ⟨t, hl⟩ hlt herr
    rcases refused_full hx hc herr with ⟨_, -, hfull⟩ | ⟨p, hl', -⟩
    · exact hlt.not_ge hfull
    · cases hl.symm.trans hl'
  · rintro ⟨p, hl⟩ hlt herr
    rcases refused_full hx hc herr with ⟨t, hl', -⟩ | ⟨_, -, hfull⟩
    · cases hl.symm.trans hl'
    · exact hlt.not_ge hfull

section Sample

theorem counters_exact_sample :
    let tr := Run.trace (step pairingTvm) start
      [submission 4000, signed 4001 2 (.confirmTransaction (idAt 4000)), submission 4002]
    (∀ i, getMaskValue (Run.last start tr).requestsMask i =
        (creators (Run.last start tr).transactions.entries).count i) ∧
      (creators (Run.last start tr).transactions.entries).count 0 = 1 := by
  intro tr
  have h₀ : deploy pairingTvm 7 7 sampleOwners = .ok start := rfl
  have hreg : Run.Each (fun s l _ => Regular pairingTvm s l) start tr := by
    refine ⟨fun id _ => rfl, ?_, ?_, trivial⟩
    · rintro cstd - ⟨r, marker, -, -, hb, hle, -⟩
      cases hb
      revert hle
      decide +kernel
    · intro id _
      rfl
  have h := counters_exact h₀ (Run.trace_run _ start _) hreg
  exact ⟨fun i => (h.1 i).1, by decide +kernel⟩

/-- With cleanups switched off, requests expire in the queue; a late confirmation deletes each
and leaves its unit in the mask. -/
def lateConfirmations : List (Incoming Unit) :=
  signed 3999 1 (.setMaxCleanupOperations 0) ::
    [4000, 4001, 4002, 4003, 4004].map submission ++
    [4000, 4001, 4002, 4003, 4004].map fun time =>
      signed (time + 4000) 2 (.confirmTransaction (idAt time))

/-- The queue is empty, the byte says five, and the custodian is refused. -/
theorem late_confirmations_counted :
    ∃ s tr, deploy pairingTvm 7 7 sampleOwners = .ok start ∧ Run (step pairingTvm) start tr s ∧
      (creators s.transactions.entries).count 0 = 0 ∧ getMaskValue s.requestsMask 0 = 5 ∧
      (s.act pairingTvm (submission 9000)).effect = .error (.require 113) := by
  refine ⟨_, _, rfl, Run.trace_run _ start lateConfirmations, ?_, ?_, rfl⟩
  · decide +kernel
  · decide +kernel

end Sample

end Dexdo.Multisig
