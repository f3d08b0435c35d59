import Dexdo.Multisig.Quorum

namespace Dexdo.Multisig

variable {Cell : Type} {tvm : Tvm} {p₀ : Owners} {H : History Cell} {s s₁ s' : Multisig Cell}
  {l : Incoming Cell} {e : Effect Cell}

/-- The message asks for this transfer. -/
def SubmitsTransfer (l : Incoming Cell) (t : Transfer Cell) : Prop :=
  ∃ t₀, l.call = .submitTransaction t₀ ∧ t = t₀.queued

/-- The message asks for this update. -/
def SubmitsUpdate (l : Incoming Cell) (p : Owners) : Prop := l.call = .submitDataUpdate p

/-- These messages carry a request: different owners sent them, enough of them, and none later
than `EXPIRATION_TIME` after the first. -/
structure Approved (p : Owners) (quorum : ℕ) (votes : List (Incoming Cell)) : Prop where
  nodup : (votes.map Incoming.who).Nodup
  owners : ∀ v ∈ votes, v.who ∈ p.owners
  quorum : quorum ≤ votes.length
  window : ∀ sub ∈ votes.head?, ∀ v ∈ votes, v.block.now ≤ sub.block.now + EXPIRATION_TIME

/-- What the history says about the storage. -/
structure Tracks (tvm : Tvm) (p₀ : Owners) (H : History Cell) (s : Multisig Cell) : Prop where
  elected : Elected tvm (H.inForce p₀) s
  transfers : ∀ id r, s.transactions.get? id = some r → id ∈ H.generated ∧
    Ballot tvm s (H.inForce p₀).quorum SubmitsTransfer (H.votes .transfer id) id r
  updates : ∀ id r, s.data.get? id = some r → id ∈ H.generated ∧
    Ballot tvm s (H.inForce p₀).quorumData SubmitsUpdate (H.votes .update id) id r
  known : ∀ kind id, id ∉ H.generated → H.votes kind id = []
  sent : ∀ id ∈ H.sentIds, id ∈ H.generated ∧ s.transactions.get? id = none

theorem mem_generated {id : ℕ} (h : id ∈ H.generated) : id ∈ History.generated (H ++ [(l, e)]) := by
  rw [History.generated_concat]
  exact List.mem_append_left _ h

theorem mem_generated_self {id : ℕ} (hl : l.call.isSubmission = true) (he : e.id? = some id) :
    id ∈ History.generated (H ++ [(l, e)]) := by
  rw [History.generated_concat, if_pos hl, he]
  simp

theorem generated_fresh {id : ℕ} (hl : l.call.isSubmission = true) (he : e.id? = some id)
    (h : (History.generated (H ++ [(l, e)])).Pairwise (· < ·)) : id ∉ H.generated := by
  intro hid
  rw [History.generated_concat, if_pos hl, he] at h
  exact lt_irrefl id ((List.pairwise_append.mp h).2.2 id hid id (by simp))

theorem Elected.mem_owners {p : Owners} {c : Custodian} (h : Elected tvm p s)
    (hc : s.findCustodian tvm l = some c) : l.who ∈ p.owners := by
  obtain ⟨o, ho, hkey⟩ := h.owner _ c hc
  obtain ⟨h1, h2⟩ := tvm.hash_inj hkey
  rwa [Incoming.who, h1, h2]

theorem Elected.keep {p : Owners} (h : Elected tvm p s) (hc : s'.custodians = s.custodians)
    (h1 : s'.defaultRequiredConfirmations = s.defaultRequiredConfirmations)
    (h2 : s'.defaultRequiredConfirmationsData = s.defaultRequiredConfirmationsData) :
    Elected tvm p s' where
  owner key c hk := h.owner key c (hc ▸ hk)
  required := h1.trans h.required
  requiredData := h2.trans h.requiredData

theorem none_of_some {β : Type} {x y : Option β} (h : ∀ r, y = some r → x = some r)
    (hx : x = none) : y = none := by
  cases hy : y with
  | none => rfl
  | some r => exact absurd (hx.symm.trans (h r hy)) (Option.some_ne_none r).symm

namespace Tracks

theorem tidied (h : Tracks tvm p₀ H s) (h₁ : s.tidied l = some s₁) : Tracks tvm p₀ H s₁ := by
  obtain ⟨hc, hd, hdd⟩ := tidied_keeps h₁
  obtain ⟨ht, hu⟩ := tidied_get? h₁
  refine ⟨h.elected.keep hc hd hdd, ?_, ?_, h.known, ?_⟩
  · intro id r hr
    obtain ⟨hg, hb⟩ := h.transfers id r (ht id r hr)
    exact ⟨hg, hb.keep hc⟩
  · intro id r hr
    obtain ⟨hg, hb⟩ := h.updates id r (hu id r hr)
    exact ⟨hg, hb.keep hc⟩
  · intro id hid
    obtain ⟨hg, hn⟩ := h.sent id hid
    exact ⟨hg, none_of_some (ht id) hn⟩

/-- An effect that stores no confirmation and installs nobody. -/
theorem quiet (h : Tracks tvm p₀ H s) (hup : e.isUpdate = false)
    (hconf : ∀ kind id, e.confirms kind id = false)
    (hsent : ∀ id, e.sentId? = some id →
      id ∈ History.generated (H ++ [(l, e)]) ∧ s'.transactions.get? id = none)
    (hc : s'.custodians = s.custodians)
    (hd : s'.defaultRequiredConfirmations = s.defaultRequiredConfirmations)
    (hdd : s'.defaultRequiredConfirmationsData = s.defaultRequiredConfirmationsData)
    (ht : ∀ id r, s'.transactions.get? id = some r → s.transactions.get? id = some r)
    (hu : ∀ id r, s'.data.get? id = some r → s.data.get? id = some r) :
    Tracks tvm p₀ (H ++ [(l, e)]) s' := by
  have hvotes : ∀ kind id, History.votes (H ++ [(l, e)]) kind id = H.votes kind id := by
    intro kind id
    rw [History.votes_concat _ _ _ hup, hconf, if_neg Bool.false_ne_true, List.append_nil]
  have hforce := History.inForce_keep H l e p₀ hup
  constructor
  · rw [hforce]
    exact h.elected.keep hc hd hdd
  · intro id r hr
    obtain ⟨hg, hb⟩ := h.transfers id r (ht id r hr)
    rw [hforce, hvotes]
    exact ⟨mem_generated hg, hb.keep hc⟩
  · intro id r hr
    obtain ⟨hg, hb⟩ := h.updates id r (hu id r hr)
    rw [hforce, hvotes]
    exact ⟨mem_generated hg, hb.keep hc⟩
  · intro kind id hid
    rw [hvotes]
    exact h.known kind id fun hg => hid (mem_generated hg)
  · intro id hid
    rw [History.sentIds_concat] at hid
    rcases List.mem_append.mp hid with hid | hid
    · obtain ⟨hg, hn⟩ := h.sent id hid
      exact ⟨mem_generated hg, none_of_some (ht id) hn⟩
    · exact hsent id (Option.mem_toList.mp hid)

theorem known_confirmed (h : Tracks tvm p₀ H s) {kind : Kind} {id : ℕ}
    (hg : id ∈ History.generated (H ++ [(l, .confirmed kind id)])) (kind' : Kind) (j : ℕ)
    (hj : j ∉ History.generated (H ++ [(l, .confirmed kind id)])) :
    History.votes (H ++ [(l, .confirmed kind id)]) kind' j = [] := by
  have hne : ¬ (kind = kind' ∧ id = j) := fun hx => hj (hx.2 ▸ hg)
  rw [History.votes_confirmed_of_ne _ _ hne]
  exact h.known kind' j fun hg' => hj (mem_generated hg')

theorem sent_confirmed (h : Tracks tvm p₀ H s) {kind : Kind} {id j : ℕ}
    (hj : j ∈ History.sentIds (H ++ [(l, .confirmed kind id)])) :
    j ∈ H.sentIds ∧ j ∈ History.generated (H ++ [(l, .confirmed kind id)]) ∧
      s.transactions.get? j = none := by
  rw [History.sentIds_concat] at hj
  have hj : j ∈ H.sentIds := by simpa [Effect.sentId?] using hj
  obtain ⟨hg, hn⟩ := h.sent j hj
  exact ⟨hj, mem_generated hg, hn⟩

/-- A confirmation of a transfer is stored. -/
theorem transferConfirmed (h : Tracks tvm p₀ H s) {id : ℕ} {r : Transaction Cell}
    (hg : id ∈ History.generated (H ++ [(l, .confirmed .transfer id)]))
    (hnew : id ∉ H.sentIds) (helected : Elected tvm (H.inForce p₀) s')
    (hc : s'.custodians = s.custodians)
    (ht : s'.transactions = s.transactions.insert id r) (hu : s'.data = s.data)
    (hb : Ballot tvm s' (H.inForce p₀).quorum SubmitsTransfer (H.votes .transfer id ++ [l]) id r) :
    Tracks tvm p₀ (H ++ [(l, .confirmed .transfer id)]) s' := by
  have hforce : History.inForce (H ++ [(l, .confirmed .transfer id)]) p₀ = H.inForce p₀ :=
    History.inForce_keep _ _ _ _ rfl
  refine ⟨hforce.symm ▸ helected, ?_, ?_, h.known_confirmed hg, ?_⟩
  · intro j r' hr
    rw [ht] at hr
    rw [hforce]
    by_cases hj : j = id
    · subst hj
      rw [Dict.get?_insert_self] at hr
      cases hr
      rw [History.votes_confirmed_self]
      exact ⟨hg, hb⟩
    · rw [Dict.get?_insert_of_ne _ _ hj] at hr
      rw [History.votes_confirmed_of_ne _ _ fun hx => hj hx.2.symm]
      obtain ⟨hg', hb'⟩ := h.transfers j r' hr
      exact ⟨mem_generated hg', hb'.keep hc⟩
  · intro j r' hr
    rw [hu] at hr
    rw [hforce, History.votes_confirmed_of_ne _ _ fun hx => Kind.noConfusion hx.1]
    obtain ⟨hg', hb'⟩ := h.updates j r' hr
    exact ⟨mem_generated hg', hb'.keep hc⟩
  · intro j hj
    obtain ⟨hj', hg', hn⟩ := h.sent_confirmed hj
    refine ⟨hg', ?_⟩
    rw [ht, Dict.get?_insert_of_ne]
    · exact hn
    · intro hx
      exact hnew (hx ▸ hj')

/-- A confirmation of an update is stored. -/
theorem updateConfirmed (h : Tracks tvm p₀ H s) {id : ℕ} {r : UpdateData}
    (hg : id ∈ History.generated (H ++ [(l, .confirmed .update id)]))
    (helected : Elected tvm (H.inForce p₀) s') (hc : s'.custodians = s.custodians)
    (ht : s'.transactions = s.transactions) (hu : s'.data = s.data.insert id r)
    (hb : Ballot tvm s' (H.inForce p₀).quorumData SubmitsUpdate (H.votes .update id ++ [l]) id r) :
    Tracks tvm p₀ (H ++ [(l, .confirmed .update id)]) s' := by
  have hforce : History.inForce (H ++ [(l, .confirmed .update id)]) p₀ = H.inForce p₀ :=
    History.inForce_keep _ _ _ _ rfl
  refine ⟨hforce.symm ▸ helected, ?_, ?_, h.known_confirmed hg, ?_⟩
  · intro j r' hr
    rw [ht] at hr
    rw [hforce, History.votes_confirmed_of_ne _ _ fun hx => Kind.noConfusion hx.1]
    obtain ⟨hg', hb'⟩ := h.transfers j r' hr
    exact ⟨mem_generated hg', hb'.keep hc⟩
  · intro j r' hr
    rw [hu] at hr
    rw [hforce]
    by_cases hj : j = id
    · subst hj
      rw [Dict.get?_insert_self] at hr
      cases hr
      rw [History.votes_confirmed_self]
      exact ⟨hg, hb⟩
    · rw [Dict.get?_insert_of_ne _ _ hj] at hr
      rw [History.votes_confirmed_of_ne _ _ fun hx => hj hx.2.symm]
      obtain ⟨hg', hb'⟩ := h.updates j r' hr
      exact ⟨mem_generated hg', hb'.keep hc⟩
  · intro j hj
    obtain ⟨-, hg', hn⟩ := h.sent_confirmed hj
    exact ⟨hg', ht ▸ hn⟩

theorem updated (h : Tracks tvm p₀ H s) {id : Option ℕ} {q : Owners}
    (hi : initializeOwners tvm q = .ok s') : Tracks tvm p₀ (H ++ [(l, .updated id q)]) s' := by
  obtain ⟨helected, ht, hu⟩ := initializeOwners_elected hi
  constructor
  · rw [History.inForce_concat]
    exact helected
  · intro j r hr
    rw [ht] at hr
    cases hr
  · intro j r hr
    rw [hu] at hr
    cases hr
  · intro kind j _
    exact History.votes_update _ _ _ rfl kind j
  · intro j hj
    rw [History.sentIds_concat] at hj
    have hj : j ∈ H.sentIds := by simpa [Effect.sentId?] using hj
    exact ⟨mem_generated (h.sent j hj).1, by rw [ht]; rfl⟩

end Tracks

/-- What an entry does is what the history records. -/
theorem Entered.tracks (hE : Entered tvm l s s' e) (h : Tracks tvm p₀ H s)
    (hids : (History.generated (H ++ [(l, e)])).Pairwise (· < ·)) :
    Tracks tvm p₀ (H ++ [(l, e)]) s' := by
  cases hE with
  | limited =>
    exact h.quiet rfl (fun _ _ => rfl) (fun _ hx => by cases hx) rfl rfl rfl
      (fun _ _ => id) (fun _ _ => id)
  | sentNow =>
    exact h.quiet rfl (fun _ _ => rfl) (fun _ hx => by cases hx) rfl rfl rfl
      (fun _ _ => id) (fun _ _ => id)
  | @submitted cstd t mask id _ _ hl hc hroom hm hid hconf =>
    have hsub : l.call.isSubmission = true := by rw [hl]; rfl
    rcases confirmTxn_cases hconf with ⟨-, m, mask', -, -, rfl, rfl⟩ | ⟨-, rfl, rfl⟩
    · refine h.quiet rfl (fun _ _ => rfl) ?_ rfl rfl rfl (fun _ _ => Dict.get?_of_erase)
        (fun _ _ x => x)
      intro j hj
      cases hj
      exact ⟨mem_generated_self hsub rfl, Dict.get?_erase_self _ _⟩
    · have hfresh : id ∉ H.generated := generated_fresh hsub rfl hids
      refine h.transferConfirmed (mem_generated_self hsub rfl)
        (fun hx => hfresh (h.sent id hx).1) (h.elected.keep rfl rfl rfl) rfl rfl rfl ?_
      rw [h.known .transfer id hfresh]
      exact Ballot.submit ⟨t, hl, rfl⟩ hid hc rfl rfl h.elected.required
  | @confirmed cstd txn id marker _ _ hl hc hr hn hb hlt hconf =>
    obtain ⟨hg, hballot⟩ := h.transfers id txn hr
    rcases confirmTxn_cases hconf with ⟨-, m, mask', -, -, rfl, rfl⟩ | ⟨-, rfl, rfl⟩
    · refine h.quiet rfl (fun _ _ => rfl) ?_ rfl rfl rfl (fun _ _ => Dict.get?_of_erase)
        (fun _ _ x => x)
      intro j hj
      cases hj
      exact ⟨mem_generated hg, Dict.get?_erase_self _ _⟩
    · refine h.transferConfirmed (mem_generated hg) ?_ (h.elected.keep rfl rfl rfl) rfl rfl rfl
        (hballot.confirm hc hn hb hlt rfl)
      intro hx
      exact absurd (hr.symm.trans (h.sent id hx).2) (Option.some_ne_none txn)
  | dropped =>
    exact h.quiet rfl (fun _ _ => rfl) (fun _ hx => by cases hx) rfl rfl rfl
      (fun _ _ => Dict.get?_of_erase) (fun _ _ x => x)
  | updatedNow hl hc hd hi => exact h.updated hi
  | @submittedUpdate cstd p mask id _ _ hl hc hroom hm hid hconf =>
    have hsub : l.call.isSubmission = true := by rw [hl]; rfl
    rcases confirmUpdate_cases hconf with ⟨-, hi, rfl⟩ | ⟨-, rfl, rfl⟩
    · exact h.updated hi
    · refine h.updateConfirmed (mem_generated_self hsub rfl) (h.elected.keep rfl rfl rfl) rfl rfl
        rfl ?_
      rw [h.known .update id (generated_fresh hsub rfl hids)]
      exact Ballot.submit hl hid hc rfl rfl h.elected.requiredData
  | @confirmedUpdate cstd du id marker _ _ hl hc hr hn hb hlt hconf =>
    obtain ⟨hg, hballot⟩ := h.updates id du hr
    rcases confirmUpdate_cases hconf with ⟨-, hi, rfl⟩ | ⟨-, rfl, rfl⟩
    · exact h.updated hi
    · exact h.updateConfirmed (mem_generated hg) (h.elected.keep rfl rfl rfl) rfl rfl rfl
        (hballot.confirm hc hn hb hlt rfl)
  | droppedUpdate =>
    exact h.quiet rfl (fun _ _ => rfl) (fun _ hx => by cases hx) rfl rfl rfl
      (fun _ _ x => x) (fun _ _ => Dict.get?_of_erase)

theorem act_tracks (h : Tracks tvm p₀ H s)
    (hids : (record tvm s l H).generated.Pairwise (· < ·)) :
    Tracks tvm p₀ (record tvm s l H) (s.act tvm l).storage := by
  have hend := act_ended tvm s l
  generalize ha : s.act tvm l = a at hend
  cases hend with
  | refused =>
    rw [record_error ha]
    exact h
  | failed _ h₁ =>
    rw [record_error ha]
    exact h.tidied h₁
  | entered h₁ hE =>
    rw [record_ok ha] at hids ⊢
    exact hE.tracks (h.tidied h₁) hids

theorem Approved.single {p : Owners} {quorum : ℕ} (hl : l.who ∈ p.owners) (hq : quorum ≤ 1) :
    Approved p quorum [l] where
  nodup := List.nodup_singleton _
  owners v hv := (List.mem_singleton.mp hv) ▸ hl
  quorum := hq
  window sub hsub v hv := by
    cases hsub
    rw [List.mem_singleton.mp hv]
    exact Nat.le_add_right _ _

theorem Ballot.approved {α : Type} {quorum id marker : ℕ} {submits : Incoming Cell → α → Prop}
    {votes : List (Incoming Cell)} {r : Request α} {c : Custodian} {p : Owners}
    (h : Ballot tvm s quorum submits votes id r) (helected : Elected tvm p s)
    (hc : s.findCustodian tvm l = some c)
    (hn : isConfirmed r.confirmationsMask c.index = false)
    (hb : l.block.getExpirationBound = some marker) (hlt : marker < id)
    (hr : r.signsRequired ≤ r.signsReceived + 1) :
    ∃ sub rest, votes ++ [l] = sub :: rest ∧ submits sub r.body ∧
      Approved p quorum (sub :: rest) := by
  obtain ⟨sub, rest, hv, hsub, -, hwin⟩ := h.window_concat hb hlt
  refine ⟨sub, rest, hv, hsub, ?_, ?_, ?_, ?_⟩
  · rw [← hv]
    exact h.nodup_concat hc hn
  · intro v hmem
    rw [← hv] at hmem
    rcases List.mem_append.mp hmem with hmem | hmem
    · obtain ⟨c', hc', -⟩ := h.mask v hmem
      exact helected.mem_owners hc'
    · rw [List.mem_singleton.mp hmem]
      exact helected.mem_owners hc
  · rw [← hv, List.length_append, ← h.received, ← h.required]
    exact hr
  · intro sub' hsub' v hmem
    cases hsub'
    rw [← hv] at hmem
    exact hwin v hmem

/-- A queued transfer leaves the wallet with its quorum, and for the first time. -/
theorem Entered.sent_approved {id : ℕ} {m : Message Cell}
    (hE : Entered tvm l s s' (.sent (some id) m)) (h : Tracks tvm p₀ H s)
    (hids : (History.generated (H ++ [(l, .sent (some id) m)])).Pairwise (· < ·)) :
    id ∉ H.sentIds ∧ ∃ sub rest t, H.votes .transfer id ++ [l] = sub :: rest ∧
      sub.call = .submitTransaction t ∧ t.queued.message tvm = some m ∧
      Approved (H.inForce p₀) (H.inForce p₀).quorum (sub :: rest) := by
  generalize he : Effect.sent (some id) m = e at hE
  cases hE with
  | limited | sentNow | dropped | updatedNow | droppedUpdate => cases he
  | @submitted cstd t mask id' _ _ hl hc hroom hm hid hconf =>
    rcases confirmTxn_cases hconf with ⟨hq, m', mask', hmsg, -, -, rfl⟩ | ⟨-, -, rfl⟩
    · cases he
      have hfresh : id ∉ H.generated := generated_fresh (by rw [hl]; rfl) rfl hids
      refine ⟨fun hx => hfresh (h.sent id hx).1, l, [], t, ?_, hl, hmsg, ?_⟩
      · rw [h.known .transfer id hfresh]
        rfl
      · refine .single (h.elected.mem_owners hc) ?_
        rw [← h.elected.required]
        exact hq
    · cases he
  | @confirmed cstd txn id' marker _ _ hl hc hr hn hb hlt hconf =>
    rcases confirmTxn_cases hconf with ⟨hq, m', mask', hmsg, -, -, rfl⟩ | ⟨-, -, rfl⟩
    · cases he
      obtain ⟨hg, hballot⟩ := h.transfers id txn hr
      obtain ⟨sub, rest, hv, ⟨t, ht, hbody⟩, happ⟩ :=
        hballot.approved h.elected hc hn hb hlt hq
      refine ⟨?_, sub, rest, t, hv, ht, hbody ▸ hmsg, happ⟩
      intro hx
      exact absurd (hr.symm.trans (h.sent id hx).2) (Option.some_ne_none txn)
    · cases he
  | submittedUpdate hl hc hroom hm hid hconf =>
    rcases confirmUpdate_cases hconf with ⟨-, -, rfl⟩ | ⟨-, -, rfl⟩ <;> cases he
  | confirmedUpdate hl hc hr hn hb hlt hconf =>
    rcases confirmUpdate_cases hconf with ⟨-, -, rfl⟩ | ⟨-, -, rfl⟩ <;> cases he

/-- New owners are installed with the quorum for updates. -/
theorem Entered.updated_approved {oid : Option ℕ} {q : Owners}
    (hE : Entered tvm l s s' (.updated oid q)) (h : Tracks tvm p₀ H s)
    (hids : (History.generated (H ++ [(l, .updated oid q)])).Pairwise (· < ·)) :
    ∃ sub rest, (oid.elim [] (H.votes .update)) ++ [l] = sub :: rest ∧
      sub.call = .submitDataUpdate q ∧
      Approved (H.inForce p₀) (H.inForce p₀).quorumData (sub :: rest) := by
  generalize he : Effect.updated oid q = e at hE
  cases hE with
  | limited | sentNow | dropped | droppedUpdate => cases he
  | submitted hl hc hroom hm hid hconf =>
    rcases confirmTxn_cases hconf with ⟨-, _, _, -, -, -, rfl⟩ | ⟨-, -, rfl⟩ <;> cases he
  | confirmed hl hc hr hn hb hlt hconf =>
    rcases confirmTxn_cases hconf with ⟨-, _, _, -, -, -, rfl⟩ | ⟨-, -, rfl⟩ <;> cases he
  | updatedNow hl hc hd =>
    cases he
    refine ⟨l, [], rfl, hl, .single (h.elected.mem_owners hc) ?_⟩
    rw [← h.elected.requiredData, hd]
  | @submittedUpdate cstd p mask id _ _ hl hc hroom hm hid hconf =>
    rcases confirmUpdate_cases hconf with ⟨hq, -, rfl⟩ | ⟨-, -, rfl⟩
    · cases he
      have hfresh : id ∉ H.generated := generated_fresh (by rw [hl]; rfl) rfl hids
      refine ⟨l, [], ?_, hl, .single (h.elected.mem_owners hc) ?_⟩
      · rw [Option.elim_some, h.known .update id hfresh]
        rfl
      · rw [← h.elected.requiredData]
        exact hq
    · cases he
  | @confirmedUpdate cstd du id marker _ _ hl hc hr hn hb hlt hconf =>
    rcases confirmUpdate_cases hconf with ⟨hq, -, rfl⟩ | ⟨-, -, rfl⟩
    · cases he
      obtain ⟨-, hballot⟩ := h.updates id du hr
      obtain ⟨sub, rest, hv, hsub, happ⟩ := hballot.approved h.elected hc hn hb hlt hq
      exact ⟨sub, rest, hv, hsub, happ⟩
    · cases he

theorem deploy_tracks {pubkey ownPubkey : ℕ} (h : deploy tvm pubkey ownPubkey p₀ = .ok s) :
    Tracks tvm p₀ [] s := by
  unfold deploy at h
  split_ifs at h
  obtain ⟨helected, ht, hu⟩ := initializeOwners_elected h
  refine ⟨helected, ?_, ?_, fun _ _ _ => rfl, fun id hid => by cases hid⟩
  · intro id r hr
    rw [ht] at hr
    cases hr
  · intro id r hr
    rw [hu] at hr
    cases hr

theorem generated_record (tvm : Tvm) (s : Multisig Cell) (l : Incoming Cell) (H : History Cell) :
    H.generated <+: (record tvm s l H).generated := by
  rw [record]
  split
  · rw [History.generated_concat]
    exact List.prefix_append _ _
  · exact List.prefix_refl _

theorem run_tracks {pubkey ownPubkey : ℕ} {s₀ : Multisig Cell}
    {tr : List (Incoming Cell × Multisig Cell)} (h₀ : deploy tvm pubkey ownPubkey p₀ = .ok s₀)
    (h : Run (step tvm) s₀ tr s) (hids : (history tvm s₀ tr).generated.Pairwise (· < ·)) :
    Tracks tvm p₀ (history tvm s₀ tr) s := by
  induction h with
  | nil => exact deploy_tracks h₀
  | @snoc tr t u l hr hl ih =>
    rw [history_concat, hr.last_eq] at hids ⊢
    cases hl
    exact act_tracks (ih (hids.sublist (generated_record ..).sublist)) hids

theorem act_entered (h : Tracks tvm p₀ H s)
    (hids : (record tvm s l H).generated.Pairwise (· < ·))
    (ha : (s.act tvm l).effect = .ok e) :
    ∃ s₁ s', Entered tvm l s₁ s' e ∧ Tracks tvm p₀ H s₁ ∧
      (History.generated (H ++ [(l, e)])).Pairwise (· < ·) := by
  have hend := act_ended tvm s l
  generalize hx : s.act tvm l = a at hend ha
  cases hend with
  | refused => cases ha
  | failed => cases ha
  | entered h₁ hE =>
    cases ha
    rw [record_ok hx] at hids
    exact ⟨_, _, hE, h.tidied h₁, hids⟩

/-- Where the ids generated increase, a queued transfer is sent once at most, and only when
`quorum` different owners confirmed it since the last update and within `EXPIRATION_TIME` of its
submission; an update is installed only when `quorumData`, which is no less, did so. -/
theorem quorum_confirmed {pubkey ownPubkey : ℕ} {s₀ : Multisig Cell}
    {tr : List (Incoming Cell × Multisig Cell)} (h₀ : deploy tvm pubkey ownPubkey p₀ = .ok s₀)
    (h : Run (step tvm) s₀ tr s)
    (hids : (record tvm s l (history tvm s₀ tr)).generated.Pairwise (· < ·)) :
    let H := history tvm s₀ tr
    let p := H.inForce p₀
    (∀ id m, (s.act tvm l).effect = .ok (.sent (some id) m) → id ∉ H.sentIds ∧
      ∃ sub rest t, H.votes .transfer id ++ [l] = sub :: rest ∧
        sub.call = .submitTransaction t ∧ t.queued.message tvm = some m ∧
        Approved p p.quorum (sub :: rest)) ∧
    (∀ id q, (s.act tvm l).effect = .ok (.updated id q) →
      ∃ sub rest, (id.elim [] (H.votes .update)) ++ [l] = sub :: rest ∧
        sub.call = .submitDataUpdate q ∧ Approved p p.quorumData (sub :: rest)) ∧
    p.quorum ≤ p.quorumData := by
  intro H p
  have ht := run_tracks h₀ h (hids.sublist (generated_record ..).sublist)
  refine ⟨?_, ?_, le_max_right _ _⟩
  · intro id m ha
    obtain ⟨s₁, s', hE, ht₁, hids₁⟩ := act_entered ht hids ha
    exact hE.sent_approved ht₁ hids₁
  · intro id q ha
    obtain ⟨s₁, s', hE, ht₁, hids₁⟩ := act_entered ht hids ha
    exact hE.updated_approved ht₁ hids₁

theorem sent_of_sentId {x : Except Fault (Effect Cell)} {id : ℕ}
    (h : x.toOption.bind Effect.sentId? = some id) : ∃ m, x = .ok (.sent (some id) m) := by
  obtain ⟨e, he, hid⟩ := Option.bind_eq_some_iff.mp h
  cases x with
  | error => cases he
  | ok =>
    cases he
    cases e with
    | sent oid m =>
      cases hid
      exact ⟨m, rfl⟩
    | _ => cases hid

def renewal : Owners := ⟨[4], [], 1, 1⟩

def renewalTrace : List (Incoming Unit × Multisig Unit) :=
  Run.trace (step pairingTvm) start
    [signed 5000 1 (.submitDataUpdate renewal), signed 5001 2 (.confirmDataUpdate (idAt 5000))]

/-- The third confirmation of the update, by the address among the owners. -/
def renewalEnd : Incoming Unit :=
  ⟨⟨ZERO_TIME + 5002, 5002⟩, 0, 3, .confirmDataUpdate (idAt 5000)⟩

/-- A transfer confirmed by two owners, and an update confirmed by three. -/
theorem quorum_confirmed_sample :
    let tr := Run.trace (step pairingTvm) start [submission 4000]
    let l := signed 4001 2 (.confirmTransaction (idAt 4000))
    (idAt 4000 ∉ (history pairingTvm start tr).sentIds ∧
      ∃ sub rest, (history pairingTvm start tr).votes .transfer (idAt 4000) ++ [l] = sub :: rest ∧
        Approved sampleOwners 2 (sub :: rest)) ∧
    (∃ sub rest, (history pairingTvm start renewalTrace).votes .update (idAt 5000) ++ [renewalEnd] =
      sub :: rest ∧ Approved sampleOwners 3 (sub :: rest)) ∧
    sampleOwners.quorum ≤ sampleOwners.quorumData := by
  intro tr l
  have h₀ : deploy pairingTvm 7 7 sampleOwners = .ok start := rfl
  have hids : (record pairingTvm (Run.last start tr) l
      (history pairingTvm start tr)).generated.Pairwise (· < ·) := by decide +kernel
  obtain ⟨hsend, -, hle⟩ := quorum_confirmed h₀ (Run.trace_run _ start _) hids
  have hp : (history pairingTvm start tr).inForce sampleOwners = sampleOwners := by decide +kernel
  have hq : sampleOwners.quorum = 2 := by decide +kernel
  rw [hp] at hsend hle
  refine ⟨?_, ?_, hle⟩
  · have hid : ((Run.last start tr).act pairingTvm l).effect.toOption.bind Effect.sentId? =
        some (idAt 4000) := by decide +kernel
    obtain ⟨m, hm⟩ := sent_of_sentId hid
    obtain ⟨hnew, sub, rest, t, hv, -, -, happ⟩ := hsend (idAt 4000) m hm
    rw [hq] at happ
    exact ⟨hnew, sub, rest, hv, happ⟩
  · have hids : (record pairingTvm (Run.last start renewalTrace) renewalEnd
        (history pairingTvm start renewalTrace)).generated.Pairwise (· < ·) := by decide +kernel
    have hend : ((Run.last start renewalTrace).act pairingTvm renewalEnd).effect =
        .ok (.updated (some (idAt 5000)) renewal) := rfl
    have hrun : Run (step pairingTvm) start renewalTrace (Run.last start renewalTrace) :=
      Run.trace_run ..
    obtain ⟨sub, rest, hv, -, happ⟩ :=
      (quorum_confirmed h₀ hrun hids).2.1 (some (idAt 5000)) renewal hend
    have hp : (history pairingTvm start renewalTrace).inForce sampleOwners = sampleOwners := by
      decide +kernel
    have hq : sampleOwners.quorumData = 3 := by decide +kernel
    rw [hp, hq] at happ
    exact ⟨sub, rest, hv, happ⟩

end Dexdo.Multisig
