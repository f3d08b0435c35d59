import Dexdo.Lib.Run
import Dexdo.Multisig.Entry

namespace Dexdo.Multisig

variable {Cell α : Type}

/-- The creators of the requests of a queue, by index. -/
def creators (l : List (ℕ × Request α)) : List ℕ := l.map fun e => e.2.creator.index

/-- `_decMaskValue` for each of a list of indices. -/
def decMask (mask : ℕ) : List ℕ → Option ℕ
  | [] => some mask
  | i :: is => (decMaskValue mask i).bind (decMask · is)

/-- What a removal of expired requests leaves: `taken` is what was in front. -/
structure Removed (marker maxCleanup mask : ℕ) (queue : Queue α) (taken : List (ℕ × Request α))
    (acc : ℕ × Queue α) : Prop where
  split : queue.entries = taken ++ acc.2.entries
  expired : ∀ e ∈ taken, e.1 ≤ marker
  mask : decMask mask (creators taken) = some acc.1
  bounded : taken.length ≤ maxCleanup
  complete : taken.length = maxCleanup ∨ ∀ e ∈ acc.2.entries.head?, marker < e.1

section Removal

variable {marker maxCleanup mask : ℕ} {queue : Queue α} {acc : ℕ × Queue α}

/-- One round of the loop takes the front request; the rest is the loop from the next one. -/
theorem cleanup_removed {e : ℕ × Request α} {rest : List (ℕ × Request α)}
    (hq : queue.entries = e :: rest) (he : e.1 ≤ marker)
    (h : cleanup marker maxCleanup e (mask, queue) = some acc) :
    ∃ taken, Removed marker maxCleanup mask queue taken acc := by
  induction maxCleanup generalizing e rest mask queue with
  | zero =>
    cases h
    exact ⟨[], rfl, by simp, rfl, le_rfl, .inl rfl⟩
  | succ n ih =>
    simp only [cleanup] at h
    cases hm : decMaskValue mask e.2.creator.index with
    | none =>
      rw [hm] at h
      cases h
    | some mask' =>
      rw [hm] at h
      have hrest : (queue.erase e.1).entries = rest := Dict.erase_front hq
      have hnext : (queue.erase e.1).next? e.1 = rest.head? := by
        rw [Dict.next?_front, hrest]
        rw [hrest]
        exact Dict.front_lt hq
      -- the loop stops behind the front request
      have hstop : acc = (mask', queue.erase e.1) → (∀ x ∈ rest.head?, marker < x.1) →
          ∃ taken, Removed marker (n + 1) mask queue taken acc := by
        intro hacc hx
        refine ⟨[e], ?_, ?_, ?_, by simp, .inr ?_⟩
        · rw [hacc, hrest, hq]
          rfl
        · intro x hxe
          rwa [List.mem_singleton.mp hxe]
        · simp [creators, decMask, hm, hacc]
        · rwa [hacc, hrest]
      simp only [hnext] at h
      cases rest with
      | nil =>
        refine hstop ?_ (by simp)
        cases h
        rfl
      | cons =>
        simp only [List.head?_cons] at h
        split_ifs at h with hf
        · obtain ⟨taken, ht⟩ := ih hrest hf h
          refine ⟨e :: taken, ?_, ?_, ?_, ?_, ?_⟩
          · rw [hq, ← hrest, ht.split]
            rfl
          · intro x hx
            rcases List.mem_cons.mp hx with rfl | hx
            · exact he
            · exact ht.expired x hx
          · simpa [creators, decMask, hm] using ht.mask
          · simpa using ht.bounded
          · rcases ht.complete with hc | hc
            · exact .inl (by simp [hc])
            · exact .inr hc
        · refine hstop ?_ ?_
          · cases h
            rfl
          · intro x hx
            cases hx
            exact not_le.mp hf

theorem removeExpired_removed (h : removeExpired marker maxCleanup mask queue = some acc) :
    ∃ taken, Removed marker maxCleanup mask queue taken acc := by
  rw [removeExpired] at h
  cases hq : queue.entries with
  | nil =>
    rw [Dict.min?, hq] at h
    cases h
    exact ⟨[], rfl, by simp, rfl, Nat.zero_le _, .inr (by simp [hq])⟩
  | cons =>
    simp only [Dict.min?, hq, List.head?_cons] at h
    split_ifs at h with he
    · exact cleanup_removed hq he h
    · cases h
      refine ⟨[], rfl, by simp, rfl, Nat.zero_le _, .inr ?_⟩
      intro x hx
      rw [hq] at hx
      cases hx
      exact not_le.mp he

namespace Removed

variable {taken : List (ℕ × Request α)}

theorem get? (h : Removed marker maxCleanup mask queue taken acc) {id : ℕ} {r : Request α}
    (hr : acc.2.get? id = some r) : queue.get? id = some r := by
  rw [Dict.get?_eq_some_iff] at hr ⊢
  rw [h.split]
  exact List.mem_append_right _ hr

theorem get?_none (h : Removed marker maxCleanup mask queue taken acc) {id : ℕ}
    (hid : queue.get? id = none) : acc.2.get? id = none := by
  cases hr : acc.2.get? id with
  | none => rfl
  | some r => exact absurd (hid.symm.trans (h.get? hr)) (Option.some_ne_none r).symm

/-- An expired request that is still there has `maxCleanup` earlier ones in front of it. -/
theorem le_before (h : Removed marker maxCleanup mask queue taken acc) {id : ℕ} {r : Request α}
    (hr : acc.2.get? id = some r) (hid : id ≤ marker) :
    maxCleanup ≤ (queue.keys.filter (· < id)).length := by
  rw [Dict.get?_eq_some_iff] at hr
  have hsorted := queue.sorted
  rw [h.split, List.pairwise_append] at hsorted
  have hlen : taken.length = maxCleanup := by
    rcases h.complete with hc | hc
    · exact hc
    · cases hx : acc.2.entries with
      | nil =>
        rw [hx] at hr
        cases hr
      | cons f =>
        have hf : marker < f.1 := hc f (by rw [hx]; rfl)
        rw [hx] at hr
        rcases List.mem_cons.mp hr with rfl | hr
        · exact absurd hid hf.not_ge
        · have hlt := Dict.front_lt hx (id, r) hr
          exact absurd hid (hf.trans hlt).not_ge
  have hall : (taken.map Prod.fst).filter (· < id) = taken.map Prod.fst := by
    apply List.filter_eq_self.mpr
    intro k hk
    obtain ⟨e, he, rfl⟩ := List.mem_map.mp hk
    simpa using hsorted.2.2 e he (id, r) hr
  calc maxCleanup = ((taken.map Prod.fst).filter (· < id)).length := by
        rw [hall, List.length_map, hlen]
    _ ≤ ((taken.map Prod.fst).filter (· < id)).length
        + ((acc.2.entries.map Prod.fst).filter (· < id)).length := Nat.le_add_right _ _
    _ = (queue.keys.filter (· < id)).length := by
        rw [Dict.keys, h.split, List.map_append, List.filter_append, List.length_append]

end Removed

end Removal

section Steps

variable {tvm : Tvm} {s s' : Multisig Cell} {l : Incoming Cell} {e : Effect Cell}

theorem confirmTxn_cases {id index : ℕ} {txn : Transaction Cell}
    (h : confirmTxn tvm s id txn index = .ok (s', e)) :
    (txn.signsRequired ≤ txn.signsReceived + 1 ∧ ∃ m mask, txn.body.message tvm = some m ∧
      decMaskValue s.requestsMask txn.creator.index = some mask ∧
      s' = { s with requestsMask := mask, transactions := s.transactions.erase id } ∧
      e = .sent (some id) m) ∨
    (txn.signsReceived + 1 < txn.signsRequired ∧
      s' = { s with transactions := s.transactions.insert id (txn.confirm index) } ∧
      e = .confirmed .transfer id) := by
  unfold confirmTxn Request.isComplete at h
  split_ifs at h with hc
  · left
    split at h
    · rename_i m mask hm hmask
      cases h
      exact ⟨of_decide_eq_true hc, m, mask, hm, hmask, rfl, rfl⟩
    · cases h
  · right
    cases h
    exact ⟨by simpa using hc, rfl, rfl⟩

theorem confirmUpdate_cases {id index : ℕ} {du : UpdateData}
    (h : confirmUpdate tvm s id du index = .ok (s', e)) :
    (du.signsRequired ≤ du.signsReceived + 1 ∧ initializeOwners tvm du.body = .ok s' ∧
      e = .updated (some id) du.body) ∨
    (du.signsReceived + 1 < du.signsRequired ∧
      s' = { s with data := s.data.insert id (du.confirm index) } ∧
      e = .confirmed .update id) := by
  unfold confirmUpdate Request.isComplete at h
  split_ifs at h with hc
  · left
    split at h
    · cases h
    · rename_i s0 hs
      cases h
      exact ⟨of_decide_eq_true hc, hs, rfl⟩
  · right
    cases h
    exact ⟨by simpa using hc, rfl, rfl⟩

/-- What an entry that did not throw has done to the storage it started from, the expired
requests being gone. -/
inductive Entered (tvm : Tvm) (l : Incoming Cell) (s : Multisig Cell) :
    Multisig Cell → Effect Cell → Prop
  | limited (value : ℕ) : Entered tvm l s { s with maxCleanupOperations := value } .limited
  | sentNow (m : Message Cell) : Entered tvm l s s (.sent none m)
  | submitted {cstd : Custodian} {t : Transfer Cell} {mask id : ℕ} {s' : Multisig Cell}
      {e : Effect Cell} :
      l.call = .submitTransaction t → s.findCustodian tvm l = some cstd →
      getMaskValue s.requestsMask cstd.index < MAX_QUEUED_REQUESTS →
      incMaskValue s.requestsMask cstd.index = some mask → l.block.generateId = some id →
      confirmTxn tvm { s with requestsMask := mask } id
        ⟨id, 0, s.defaultRequiredConfirmations, 0, cstd, t.queued⟩ cstd.index = .ok (s', e) →
      Entered tvm l s s' e
  | confirmed {cstd : Custodian} {txn : Transaction Cell} {id marker : ℕ} {s' : Multisig Cell}
      {e : Effect Cell} :
      l.call = .confirmTransaction id → s.findCustodian tvm l = some cstd →
      s.transactions.get? id = some txn → isConfirmed txn.confirmationsMask cstd.index = false →
      l.block.getExpirationBound = some marker → marker < id →
      confirmTxn tvm s id txn cstd.index = .ok (s', e) → Entered tvm l s s' e
  | dropped {cstd : Custodian} {txn : Transaction Cell} {id marker : ℕ} :
      l.call = .confirmTransaction id → s.findCustodian tvm l = some cstd →
      s.transactions.get? id = some txn → isConfirmed txn.confirmationsMask cstd.index = false →
      l.block.getExpirationBound = some marker → id ≤ marker →
      Entered tvm l s { s with transactions := s.transactions.erase id } (.dropped .transfer id)
  | updatedNow {cstd : Custodian} {p : Owners} {s' : Multisig Cell} :
      l.call = .submitDataUpdate p → s.findCustodian tvm l = some cstd →
      s.defaultRequiredConfirmationsData = 1 → initializeOwners tvm p = .ok s' →
      Entered tvm l s s' (.updated none p)
  | submittedUpdate {cstd : Custodian} {p : Owners} {mask id : ℕ} {s' : Multisig Cell}
      {e : Effect Cell} :
      l.call = .submitDataUpdate p → s.findCustodian tvm l = some cstd →
      getMaskValue s.requestsMaskData cstd.index < MAX_QUEUED_REQUESTS →
      incMaskValue s.requestsMaskData cstd.index = some mask → l.block.generateId = some id →
      confirmUpdate tvm { s with requestsMaskData := mask } id
        ⟨id, 0, s.defaultRequiredConfirmationsData, 0, cstd, p⟩ cstd.index = .ok (s', e) →
      Entered tvm l s s' e
  | confirmedUpdate {cstd : Custodian} {du : UpdateData} {id marker : ℕ} {s' : Multisig Cell}
      {e : Effect Cell} :
      l.call = .confirmDataUpdate id → s.findCustodian tvm l = some cstd →
      s.data.get? id = some du → isConfirmed du.confirmationsMask cstd.index = false →
      l.block.getExpirationBound = some marker → marker < id →
      confirmUpdate tvm s id du cstd.index = .ok (s', e) → Entered tvm l s s' e
  | droppedUpdate {cstd : Custodian} {du : UpdateData} {id marker : ℕ} :
      l.call = .confirmDataUpdate id → s.findCustodian tvm l = some cstd →
      s.data.get? id = some du → isConfirmed du.confirmationsMask cstd.index = false →
      l.block.getExpirationBound = some marker → id ≤ marker →
      Entered tvm l s { s with data := s.data.erase id } (.dropped .update id)

theorem submitTransaction_entered {cstd : Custodian} {t : Transfer Cell}
    (hl : l.call = .submitTransaction t) (hc : s.findCustodian tvm l = some cstd)
    (h : submitTransaction tvm s l cstd t = .ok (s', e)) : Entered tvm l s s' e := by
  unfold submitTransaction at h
  split_ifs at h with hm hd
  · split at h
    · cases h
    · cases h
      exact .sentNow _
  · split at h
    · rename_i mask id hmask hid
      exact .submitted hl hc hm hmask hid h
    · cases h

theorem confirmTransaction_entered {cstd : Custodian} {id : ℕ}
    (hl : l.call = .confirmTransaction id) (hc : s.findCustodian tvm l = some cstd)
    (h : confirmTransaction tvm s l cstd id = .ok (s', e)) : Entered tvm l s s' e := by
  unfold confirmTransaction at h
  split at h
  · cases h
  · rename_i txn htxn
    split_ifs at h with hconf
    have hconf' := Bool.eq_false_iff.mpr hconf
    split at h
    · cases h
    · rename_i marker hb
      split_ifs at h with hid
      · cases h
        exact .dropped hl hc htxn hconf' hb hid
      · exact .confirmed hl hc htxn hconf' hb (not_le.mp hid) h

theorem submitDataUpdate_entered {cstd : Custodian} {p : Owners}
    (hl : l.call = .submitDataUpdate p) (hc : s.findCustodian tvm l = some cstd)
    (h : submitDataUpdate tvm s l cstd p = .ok (s', e)) : Entered tvm l s s' e := by
  unfold submitDataUpdate at h
  split_ifs at h with hm hd
  · split at h
    · cases h
    · rename_i s0 hs
      cases h
      exact .updatedNow hl hc hd hs
  · split at h
    · rename_i mask id hmask hid
      exact .submittedUpdate hl hc hm hmask hid h
    · cases h

theorem confirmDataUpdate_entered {cstd : Custodian} {id : ℕ}
    (hl : l.call = .confirmDataUpdate id) (hc : s.findCustodian tvm l = some cstd)
    (h : confirmDataUpdate tvm s l cstd id = .ok (s', e)) : Entered tvm l s s' e := by
  unfold confirmDataUpdate at h
  split at h
  · cases h
  · rename_i du hdu
    split_ifs at h with hconf
    have hconf' := Bool.eq_false_iff.mpr hconf
    split at h
    · cases h
    · rename_i marker hb
      split_ifs at h with hid
      · cases h
        exact .droppedUpdate hl hc hdu hconf' hb hid
      · exact .confirmedUpdate hl hc hdu hconf' hb (not_le.mp hid) h

/-- The storage with the expired requests removed that the entry of a message looks for. -/
def tidied (s : Multisig Cell) (l : Incoming Cell) : Option (Multisig Cell) :=
  match l.call with
  | .submitTransaction _ | .confirmTransaction _ => s.removeExpiredTransactions l.block
  | .submitDataUpdate _ | .confirmDataUpdate _ => s.removeExpiredDataUpdate l.block
  | _ => some s

/-- The sender's counter is at its limit, for the kind of request the message submits. -/
def Full (s : Multisig Cell) (l : Incoming Cell) (cstd : Custodian) : Prop :=
  match l.call with
  | .submitTransaction _ => MAX_QUEUED_REQUESTS ≤ getMaskValue s.requestsMask cstd.index
  | .submitDataUpdate _ => MAX_QUEUED_REQUESTS ≤ getMaskValue s.requestsMaskData cstd.index
  | _ => False

theorem enlist_error {owner : ℕ → ℕ × ℕ} {custodian : ℕ → ℕ → Custodian} {l : List ℕ}
    {acc : Mapping ℕ Custodian × ℕ} {err : Fault}
    (h : enlist tvm owner custodian l acc = .error err) : err = .require 101 := by
  induction l generalizing acc with
  | nil => cases h
  | cons x xs ih =>
    rw [enlist] at h
    split_ifs at h with hx
    · cases h
      rfl
    · exact ih h

theorem initializeOwners_error {p : Owners} {err : Fault}
    (h : (initializeOwners tvm p : Except Fault (Multisig Cell)) = .error err) :
    err = .require 117 ∨ err = .require 101 := by
  simp only [initializeOwners] at h
  split_ifs at h with hk
  · right
    split at h
    · rename_i he
      cases h
      exact enlist_error he
    · split at h
      · rename_i he
        cases h
        exact enlist_error he
      · split_ifs at h
        cases h
        rfl
  · cases h
    exact .inl rfl

theorem confirmTxn_error {id index : ℕ} {txn : Transaction Cell} {err : Fault}
    (h : confirmTxn tvm s id txn index = .error err) : err = .range := by
  unfold confirmTxn at h
  split_ifs at h
  split at h
  · cases h
  · cases h
    rfl

theorem confirmUpdate_error {id index : ℕ} {du : UpdateData} {err : Fault}
    (h : confirmUpdate tvm s id du index = .error err) :
    err = .require 117 ∨ err = .require 101 := by
  unfold confirmUpdate at h
  split_ifs at h
  split at h
  · rename_i he
    cases h
    exact initializeOwners_error he
  · cases h

theorem submitTransaction_full {cstd : Custodian} {t : Transfer Cell}
    (hl : l.call = .submitTransaction t)
    (h : submitTransaction tvm s l cstd t = .error (.require 113)) : Full s l cstd := by
  rw [Full, hl]
  unfold submitTransaction at h
  split_ifs at h with hm
  · split at h <;> cases h
  · split at h
    · cases confirmTxn_error h
    · cases h
  · exact not_lt.mp hm

theorem submitDataUpdate_full {cstd : Custodian} {p : Owners}
    (hl : l.call = .submitDataUpdate p)
    (h : submitDataUpdate tvm s l cstd p = .error (.require 113)) : Full s l cstd := by
  rw [Full, hl]
  unfold submitDataUpdate at h
  split_ifs at h with hm
  · split at h
    · rename_i he
      cases h
      rcases initializeOwners_error he with h | h <;> cases h
    · cases h
  · split at h
    · rcases confirmUpdate_error h with h | h <;> cases h
    · cases h
  · exact not_lt.mp hm

theorem confirmTransaction_not_full {cstd : Custodian} {id : ℕ} :
    confirmTransaction tvm s l cstd id ≠ .error (.require 113) := by
  intro h
  unfold confirmTransaction at h
  split at h
  · cases h
  · split_ifs at h
    · cases h
    · split at h
      · cases h
      · split_ifs at h
        cases confirmTxn_error h

theorem confirmDataUpdate_not_full {cstd : Custodian} {id : ℕ} :
    confirmDataUpdate tvm s l cstd id ≠ .error (.require 113) := by
  intro h
  unfold confirmDataUpdate at h
  split at h
  · cases h
  · split_ifs at h
    · cases h
    · split at h
      · cases h
      · split_ifs at h
        rcases confirmUpdate_error h with h | h <;> cases h

/-- How a message ends: with the storage as it was, with an error after the removal of expired
requests, or with what its entry does. -/
inductive Ended (tvm : Tvm) (s : Multisig Cell) (l : Incoming Cell) : Answer Cell → Prop
  | refused (err : Fault) : err ≠ .require 113 → Ended tvm s l ⟨s, .error err⟩
  | failed {s₁ : Multisig Cell} {cstd : Custodian} (err : Fault) :
      s.tidied l = some s₁ → s₁.findCustodian tvm l = some cstd →
      (err = .require 113 → Full s₁ l cstd) → Ended tvm s l ⟨s₁, .error err⟩
  | entered {s₁ s' : Multisig Cell} {e : Effect Cell} :
      s.tidied l = some s₁ → Entered tvm l s₁ s' e → Ended tvm s l ⟨s', .ok e⟩

theorem tidied_keeps {s₁ : Multisig Cell} (h : s.tidied l = some s₁) :
    s₁.custodians = s.custodians ∧
      s₁.defaultRequiredConfirmations = s.defaultRequiredConfirmations ∧
      s₁.defaultRequiredConfirmationsData = s.defaultRequiredConfirmationsData := by
  unfold tidied removeExpiredTransactions removeExpiredDataUpdate at h
  split at h
  all_goals try
    split at h
    · cases h
    · obtain ⟨acc, -, rfl⟩ := Option.map_eq_some_iff.mp h
      exact ⟨rfl, rfl, rfl⟩
  cases h
  exact ⟨rfl, rfl, rfl⟩

theorem tidied_transactions {s₁ : Multisig Cell} (h : s.tidied l = some s₁)
    (hl : (∃ t, l.call = .submitTransaction t) ∨ ∃ id, l.call = .confirmTransaction id) :
    ∃ marker taken, l.block.getExpirationBound = some marker ∧
      Removed marker s.maxCleanupOperations s.requestsMask s.transactions taken
        (s₁.requestsMask, s₁.transactions) ∧
      s₁.requestsMaskData = s.requestsMaskData ∧ s₁.data = s.data := by
  have h' : s.removeExpiredTransactions l.block = some s₁ := by
    rcases hl with ⟨t, hl⟩ | ⟨id, hl⟩
    all_goals
      rw [tidied, hl] at h
      exact h
  unfold removeExpiredTransactions at h'
  split at h'
  · cases h'
  · rename_i marker hb
    obtain ⟨acc, hacc, rfl⟩ := Option.map_eq_some_iff.mp h'
    obtain ⟨taken, ht⟩ := removeExpired_removed hacc
    exact ⟨marker, taken, hb, ht, rfl, rfl⟩

theorem tidied_data {s₁ : Multisig Cell} (h : s.tidied l = some s₁)
    (hl : (∃ p, l.call = .submitDataUpdate p) ∨ ∃ id, l.call = .confirmDataUpdate id) :
    ∃ marker taken, l.block.getExpirationBound = some marker ∧
      Removed marker s.maxCleanupOperations s.requestsMaskData s.data taken
        (s₁.requestsMaskData, s₁.data) ∧
      s₁.requestsMask = s.requestsMask ∧ s₁.transactions = s.transactions := by
  have h' : s.removeExpiredDataUpdate l.block = some s₁ := by
    rcases hl with ⟨t, hl⟩ | ⟨id, hl⟩
    all_goals
      rw [tidied, hl] at h
      exact h
  unfold removeExpiredDataUpdate at h'
  split at h'
  · cases h'
  · rename_i marker hb
    obtain ⟨acc, hacc, rfl⟩ := Option.map_eq_some_iff.mp h'
    obtain ⟨taken, ht⟩ := removeExpired_removed hacc
    exact ⟨marker, taken, hb, ht, rfl, rfl⟩

theorem tidied_get? {s₁ : Multisig Cell} (h : s.tidied l = some s₁) :
    (∀ id r, s₁.transactions.get? id = some r → s.transactions.get? id = some r) ∧
      ∀ id r, s₁.data.get? id = some r → s.data.get? id = some r := by
  have ofTransactions : (∃ t, l.call = .submitTransaction t) ∨
      (∃ id, l.call = .confirmTransaction id) →
      (∀ id r, s₁.transactions.get? id = some r → s.transactions.get? id = some r) ∧
        ∀ id r, s₁.data.get? id = some r → s.data.get? id = some r := by
    intro hl
    obtain ⟨_, _, -, hr, -, hd⟩ := tidied_transactions h hl
    exact ⟨fun _ _ => hr.get?, fun _ _ hx => hd ▸ hx⟩
  have ofData : (∃ p, l.call = .submitDataUpdate p) ∨
      (∃ id, l.call = .confirmDataUpdate id) →
      (∀ id r, s₁.transactions.get? id = some r → s.transactions.get? id = some r) ∧
        ∀ id r, s₁.data.get? id = some r → s.data.get? id = some r := by
    intro hl
    obtain ⟨_, _, -, hr, -, ht⟩ := tidied_data h hl
    exact ⟨fun _ _ hx => ht ▸ hx, fun _ _ => hr.get?⟩
  cases hl : l.call with
  | setMaxCleanupOperations | sendTransaction =>
    rw [tidied, hl] at h
    cases h
    exact ⟨fun _ _ => id, fun _ _ => id⟩
  | submitTransaction t => exact ofTransactions (.inl ⟨t, hl⟩)
  | confirmTransaction id => exact ofTransactions (.inr ⟨id, hl⟩)
  | submitDataUpdate p => exact ofData (.inl ⟨p, hl⟩)
  | confirmDataUpdate id => exact ofData (.inr ⟨id, hl⟩)

theorem findCustodian_tidied {s₁ : Multisig Cell} (h : s.tidied l = some s₁) :
    s₁.findCustodian tvm l = s.findCustodian tvm l := by
  rw [findCustodian, findCustodian, (tidied_keeps h).1]

theorem onRequests_ended
    {entry : Multisig Cell → Custodian → Except Fault (Multisig Cell × Effect Cell)}
    (hentry : ∀ {cstd s₁ s' e}, s₁.findCustodian tvm l = some cstd →
      entry s₁ cstd = .ok (s', e) → Entered tvm l s₁ s' e)
    (hfull : ∀ {cstd s₁}, entry s₁ cstd = .error (.require 113) → Full s₁ l cstd) :
    Ended tvm s l (s.onRequests tvm l (s.tidied l) entry) := by
  unfold onRequests
  split
  · exact .refused _ (by decide)
  · rename_i cstd hc
    split
    · exact .refused _ (by decide)
    · rename_i s₁ h₁
      rw [← findCustodian_tidied h₁] at hc
      unfold settle
      split
      · rename_i err hr
        exact .failed err h₁ hc fun he => hfull (he ▸ hr)
      · rename_i hr
        exact .entered h₁ (hentry hc hr)

/-- Every message ends in one of these ways. -/
theorem act_ended (tvm : Tvm) (s : Multisig Cell) (l : Incoming Cell) :
    Ended tvm s l (s.act tvm l) := by
  have ht : s.tidied l = match l.call with
      | .submitTransaction _ | .confirmTransaction _ => s.removeExpiredTransactions l.block
      | .submitDataUpdate _ | .confirmDataUpdate _ => s.removeExpiredDataUpdate l.block
      | _ => some s := rfl
  unfold act
  cases hl : l.call with
  | setMaxCleanupOperations value =>
    rw [hl] at ht
    simp only [setMaxCleanupOperations]
    split
    · exact .refused _ (by decide)
    · exact .entered ht (.limited value)
  | sendTransaction =>
    rw [hl] at ht
    simp only [sendTransaction]
    split_ifs
    · exact .refused _ (by decide)
    · exact .refused _ (by decide)
    · exact .refused _ (by decide)
    · split
      · exact .refused _ (by decide)
      · exact .entered ht (.sentNow _)
  | submitTransaction t =>
    have h : Ended tvm s l (s.onRequests tvm l (s.tidied l) (submitTransaction tvm · l · t)) :=
      onRequests_ended (submitTransaction_entered hl) (submitTransaction_full hl)
    rwa [ht, hl] at h
  | confirmTransaction id =>
    have h : Ended tvm s l (s.onRequests tvm l (s.tidied l) (confirmTransaction tvm · l · id)) :=
      onRequests_ended (confirmTransaction_entered hl)
        fun hr => absurd hr confirmTransaction_not_full
    rwa [ht, hl] at h
  | submitDataUpdate p =>
    have h : Ended tvm s l (s.onRequests tvm l (s.tidied l) (submitDataUpdate tvm · l · p)) :=
      onRequests_ended (submitDataUpdate_entered hl) (submitDataUpdate_full hl)
    rw [ht, hl] at h
    simp only
    split_ifs
    · exact .refused _ (by decide)
    · exact h
  | confirmDataUpdate id =>
    have h : Ended tvm s l (s.onRequests tvm l (s.tidied l) (confirmDataUpdate tvm · l · id)) :=
      onRequests_ended (confirmDataUpdate_entered hl)
        fun hr => absurd hr confirmDataUpdate_not_full
    rwa [ht, hl] at h

end Steps

section Sample

def pairingTvm : Tvm where
  hash := Nat.pair
  hash_inj h := Nat.pair_eq_pair.mp h
  varuint16 := some

/-- Two keys, one of them listed twice, and an address; two confirmations for a transfer, three
for an update. -/
def sampleOwners : Owners := ⟨[1, 2, 1], [3], 2, 5⟩

def start : Multisig Unit :=
  match deploy pairingTvm 7 7 sampleOwners with
  | .ok s => s
  | .error _ => ⟨none, none, 0, 0, .empty, .empty, ∅, 0, 0, 0, 0⟩

/-- A signed message at a time after `ZERO_TIME`. -/
def signed (time pubkey : ℕ) (call : Call Unit) : Incoming Unit :=
  ⟨⟨ZERO_TIME + time, time⟩, pubkey, 0, call⟩

def submission (time : ℕ) : Incoming Unit :=
  signed time 1 (.submitTransaction ⟨9, 5, ∅, 1, (), true, 0⟩)

/-- The id of the transfer submitted at that time. -/
def idAt (time : ℕ) : ℕ := (time <<< 32) ||| time

example : start.defaultRequiredConfirmations = 2 ∧ start.defaultRequiredConfirmationsData = 3 := by
  decide +kernel

end Sample

end Dexdo.Multisig
