import Mathlib.Data.List.DropRight
import Mathlib.Data.Nat.Bitwise
import Dexdo.Multisig.Steps

namespace Dexdo.Multisig

variable {Cell : Type}

/-- The messages that did not fail, with their effects. -/
abbrev History (Cell : Type) := List (Incoming Cell × Effect Cell)

def record (tvm : Tvm) (s : Multisig Cell) (l : Incoming Cell) (H : History Cell) : History Cell :=
  match (s.act tvm l).effect with
  | .ok e => H ++ [(l, e)]
  | .error _ => H

/-- The history of a run. -/
def history (tvm : Tvm) (s₀ : Multisig Cell) (tr : List (Incoming Cell × Multisig Cell)) :
    History Cell :=
  Run.ghost (fun s l _ H => record tvm s l H) s₀ tr []

namespace Effect

def isUpdate : Effect Cell → Bool
  | updated _ _ => true
  | _ => false

/-- A confirmation of this request was stored. -/
def confirms (kind : Kind) (id : ℕ) : Effect Cell → Bool
  | confirmed k i => decide (k = kind ∧ i = id)
  | _ => false

/-- The request the effect is about. -/
def id? : Effect Cell → Option ℕ
  | sent id _ => id
  | updated id _ => id
  | confirmed _ id => some id
  | dropped _ id => some id
  | limited => none

/-- The queued transfer that was sent. -/
def sentId? : Effect Cell → Option ℕ
  | sent id _ => id
  | _ => none

end Effect

def Call.isSubmission : Call Cell → Bool
  | submitTransaction _ => true
  | submitDataUpdate _ => true
  | _ => false

/-- Number of confirmations a transfer needs under these owners. -/
def Owners.quorum (p : Owners) : ℕ := min p.reqConfirms p.owners.toFinset.card

/-- Number of confirmations an update needs. -/
def Owners.quorumData (p : Owners) : ℕ :=
  max (min p.reqConfirmsData p.owners.toFinset.card) p.quorum

namespace History

variable (H : History Cell) (l : Incoming Cell) (e : Effect Cell)

/-- The owners last installed. -/
def inForce (p : Owners) : Owners :=
  H.foldl (fun p x => match x.2 with
    | .updated _ q => q
    | _ => p) p

/-- Messages that confirmed a request, after the last update. -/
def votes (kind : Kind) (id : ℕ) : List (Incoming Cell) :=
  ((H.rtakeWhile fun x => ! x.2.isUpdate).filter fun x => x.2.confirms kind id).map Prod.fst

/-- Ids generated, in order. -/
def generated : List ℕ := H.filterMap fun x => if x.1.call.isSubmission then x.2.id? else none

/-- Ids of the queued transfers that were sent. -/
def sentIds : List ℕ := H.filterMap fun x => x.2.sentId?

@[simp] theorem inForce_concat (p : Owners) :
    inForce (H ++ [(l, e)]) p = match e with
      | .updated _ q => q
      | _ => inForce H p := by
  rw [inForce, List.foldl_append]
  rfl

theorem inForce_keep (p : Owners) (h : e.isUpdate = false) :
    inForce (H ++ [(l, e)]) p = inForce H p := by
  rw [inForce_concat]
  cases e with
  | updated => cases h
  | _ => rfl

theorem votes_update (h : e.isUpdate = true) (kind : Kind) (id : ℕ) :
    votes (H ++ [(l, e)]) kind id = [] := by
  rw [votes, List.rtakeWhile_concat_neg _ _ _ (by simp [h])]
  rfl

theorem votes_concat (h : e.isUpdate = false) (kind : Kind) (id : ℕ) :
    votes (H ++ [(l, e)]) kind id =
      votes H kind id ++ if e.confirms kind id then [l] else [] := by
  rw [votes, List.rtakeWhile_concat_pos _ _ _ (by simp [h]), List.filter_append, List.map_append]
  congr 1
  cases hc : e.confirms kind id <;> simp [hc]

theorem votes_confirmed_self (kind : Kind) (id : ℕ) :
    votes (H ++ [(l, .confirmed kind id)]) kind id = votes H kind id ++ [l] := by
  rw [votes_concat _ _ _ rfl, Effect.confirms, if_pos (decide_eq_true ⟨rfl, rfl⟩)]

theorem votes_confirmed_of_ne {kind kind' : Kind} {id id' : ℕ} (h : ¬ (kind = kind' ∧ id = id')) :
    votes (H ++ [(l, .confirmed kind id)]) kind' id' = votes H kind' id' := by
  rw [votes_concat _ _ _ rfl, Effect.confirms, decide_eq_false h, if_neg Bool.false_ne_true,
    List.append_nil]

theorem generated_concat :
    generated (H ++ [(l, e)]) =
      generated H ++ (if l.call.isSubmission then e.id? else none).toList := by
  rw [generated, List.filterMap_append]
  congr 1

theorem sentIds_concat : sentIds (H ++ [(l, e)]) = sentIds H ++ e.sentId?.toList := by
  rw [sentIds, List.filterMap_append]
  congr 1

end History

theorem history_concat (tvm : Tvm) (s₀ : Multisig Cell) (tr : List (Incoming Cell × Multisig Cell))
    (l : Incoming Cell) (u : Multisig Cell) :
    history tvm s₀ (tr ++ [(l, u)]) = record tvm (Run.last s₀ tr) l (history tvm s₀ tr) :=
  Run.ghost_concat ..

theorem record_ok {tvm : Tvm} {s s' : Multisig Cell} {l : Incoming Cell} {e : Effect Cell}
    (h : s.act tvm l = ⟨s', .ok e⟩) (H : History Cell) : record tvm s l H = H ++ [(l, e)] := by
  rw [record, h]

theorem record_error {tvm : Tvm} {s s' : Multisig Cell} {l : Incoming Cell} {err : Fault}
    (h : s.act tvm l = ⟨s', .error err⟩) (H : History Cell) : record tvm s l H = H := by
  rw [record, h]

variable {α : Type}

section Bits

theorem isConfirmed_iff (mask i : ℕ) : isConfirmed mask i = true ↔ mask.testBit i = true := by
  rw [isConfirmed, decide_eq_true_iff, Nat.one_shiftLeft, Nat.and_two_pow]
  cases mask.testBit i <;> simp

theorem isConfirmed_setConfirmed (mask i j : ℕ) :
    isConfirmed (setConfirmed mask i) j = true ↔ i = j ∨ isConfirmed mask j = true := by
  rw [isConfirmed_iff, isConfirmed_iff, setConfirmed, Nat.testBit_or, Nat.one_shiftLeft,
    Nat.testBit_two_pow, Bool.or_eq_true, decide_eq_true_iff]
  exact or_comm

end Bits

section Time

theorem within_expiration {b b' : Block} {id marker : ℕ} (hid : b.generateId = some id)
    (hm : b'.getExpirationBound = some marker) (h : marker < id) :
    b'.now ≤ b.now + EXPIRATION_TIME := by
  unfold Block.generateId at hid
  unfold Block.getExpirationBound at hm
  split_ifs at hid with h1
  split_ifs at hm with h2
  have hid := Option.some.inj hid
  have hm := Option.some.inj hm
  have hlow : b.logicaltime &&& 0xFFFFFFFF < 2 ^ 32 :=
    Nat.and_lt_two_pow _ (by norm_num)
  rw [← hid, ← hm, ← Nat.shiftLeft_add_eq_or_of_lt hlow, Nat.shiftLeft_eq,
    Nat.shiftLeft_eq] at h
  have hlt : (b'.now - EXPIRATION_TIME - ZERO_TIME) * 2 ^ 32
      < (b.now - ZERO_TIME + 1) * 2 ^ 32 := by
    rw [Nat.succ_mul]
    omega
  have := Nat.lt_of_mul_lt_mul_right hlt
  omega

end Time

section Owners

/-- Custodians stored for the owners seen so far, and their number. -/
structure Enlisted (tvm : Tvm) (L : List (ℕ × ℕ)) (acc : Mapping ℕ Custodian × ℕ) : Prop where
  owner : ∀ key c, acc.1.lookup key = some c → ∃ o ∈ L, key = tvm.hash o.1 o.2
  has : ∀ o ∈ L, acc.1.has (tvm.hash o.1 o.2) = true
  count : acc.2 = L.toFinset.card

theorem Enlisted.add {tvm : Tvm} {L : List (ℕ × ℕ)} {acc : Mapping ℕ Custodian × ℕ}
    (h : Enlisted tvm L acc) (o : ℕ × ℕ) (c : Custodian) :
    Enlisted tvm (L ++ [o]) (if acc.1.has (tvm.hash o.1 o.2) then acc
      else (AList.insert (tvm.hash o.1 o.2) c acc.1, acc.2 + 1)) := by
  have hunion : (L ++ [o]).toFinset = insert o L.toFinset := by
    ext x
    simp
  split_ifs with hh
  · -- an owner listed before: its key is taken
    have ho : o ∈ L := by
      obtain ⟨c', hc'⟩ := Option.isSome_iff_exists.mp hh
      obtain ⟨o', ho', hkey⟩ := h.owner _ c' hc'
      obtain ⟨h1, h2⟩ := tvm.hash_inj hkey
      rwa [Prod.ext h1 h2]
    constructor
    · intro key c' hc'
      obtain ⟨o', ho', hkey⟩ := h.owner key c' hc'
      exact ⟨o', List.mem_append_left _ ho', hkey⟩
    · intro o' ho'
      rcases List.mem_append.mp ho' with ho' | ho'
      · exact h.has o' ho'
      · rw [List.mem_singleton.mp ho']
        exact hh
    · rw [hunion, Finset.insert_eq_self.mpr (List.mem_toFinset.mpr ho), h.count]
  · have ho : o ∉ L := fun ho => hh (h.has o ho)
    constructor
    · intro key c' hc'
      by_cases hkey : key = tvm.hash o.1 o.2
      · exact ⟨o, by simp, hkey⟩
      · rw [AList.lookup_insert_ne hkey] at hc'
        obtain ⟨o', ho', hk⟩ := h.owner key c' hc'
        exact ⟨o', List.mem_append_left _ ho', hk⟩
    · intro o' ho'
      by_cases hkey : tvm.hash o'.1 o'.2 = tvm.hash o.1 o.2
      · rw [Mapping.has, hkey, AList.lookup_insert]
        rfl
      · rw [Mapping.has, AList.lookup_insert_ne hkey]
        rcases List.mem_append.mp ho' with ho' | ho'
        · exact h.has o' ho'
        · exact absurd (by rw [List.mem_singleton.mp ho']) hkey
    · rw [hunion, Finset.card_insert_of_notMem (by simpa using ho), h.count]

theorem enlist_enlisted {tvm : Tvm} {owner : ℕ → ℕ × ℕ} {custodian : ℕ → ℕ → Custodian}
    {xs : List ℕ} {L : List (ℕ × ℕ)} {acc acc' : Mapping ℕ Custodian × ℕ}
    (h : enlist tvm owner custodian xs acc = .ok acc') (hL : Enlisted tvm L acc) :
    Enlisted tvm (L ++ xs.map owner) acc' := by
  induction xs generalizing L acc with
  | nil =>
    cases h
    simpa using hL
  | cons x xs ih =>
    rw [enlist] at h
    split_ifs at h with hx
    have hadd := hL.add (owner x) (custodian x acc.2)
    simpa using ih h hadd

/-- The wallet is run by these owners. -/
structure Elected (tvm : Tvm) (p : Owners) (s : Multisig Cell) : Prop where
  owner : ∀ key c, s.custodians.lookup key = some c → ∃ o ∈ p.owners, key = tvm.hash o.1 o.2
  required : s.defaultRequiredConfirmations = p.quorum
  requiredData : s.defaultRequiredConfirmationsData = p.quorumData

theorem initializeOwners_elected {tvm : Tvm} {p : Owners} {s : Multisig Cell}
    (h : initializeOwners tvm p = .ok s) :
    Elected tvm p s ∧ s.transactions = .empty ∧ s.data = .empty := by
  simp only [initializeOwners] at h
  split_ifs at h with hk
  split at h
  · cases h
  · rename_i acc hkeys
    split at h
    · cases h
    · rename_i custodians ownerCount haddrs
      have hnil : Enlisted tvm [] ((∅, 0) : Mapping ℕ Custodian × ℕ) :=
        ⟨fun key c hc => (by cases hc), fun o ho => (by cases ho), rfl⟩
      have hall := enlist_enlisted haddrs (enlist_enlisted hkeys hnil)
      rw [List.nil_append] at hall
      have hcount : ownerCount = p.owners.toFinset.card := hall.count
      have hmin : ∀ n m : ℕ, (if n ≤ m then n else m) = min m n := by
        intro n m
        rw [min_comm, min_def]
      have hmax : ∀ n m : ℕ, (if n ≤ m then m else n) = max n m := by
        intro n m
        rw [max_def]
      simp only [hmin, hmax] at h
      split_ifs at h
      cases h
      refine ⟨⟨hall.owner, ?_, ?_⟩, rfl, rfl⟩
      · rw [hcount]
        rfl
      · rw [hcount]
        rfl

end Owners

section Ballots

/-- A request in the queue and the messages that confirmed it. -/
structure Ballot (tvm : Tvm) (s : Multisig Cell) (quorum : ℕ) (submits : Incoming Cell → α → Prop)
    (votes : List (Incoming Cell)) (id : ℕ) (r : Request α) : Prop where
  required : r.signsRequired = quorum
  received : r.signsReceived = votes.length
  nodup : (votes.map Incoming.who).Nodup
  mask : ∀ v ∈ votes, ∃ c, s.findCustodian tvm v = some c ∧
    isConfirmed r.confirmationsMask c.index = true
  opened : ∃ sub rest, votes = sub :: rest ∧ submits sub r.body ∧
    sub.block.generateId = some id ∧ ∀ v ∈ votes, v.block.now ≤ sub.block.now + EXPIRATION_TIME

variable {tvm : Tvm} {s s' : Multisig Cell} {quorum id : ℕ} {submits : Incoming Cell → α → Prop}
  {votes : List (Incoming Cell)} {r : Request α} {l : Incoming Cell} {c : Custodian}

theorem findCustodian_congr (h : s'.custodians = s.custodians) :
    s'.findCustodian tvm l = s.findCustodian tvm l := by
  rw [findCustodian, findCustodian, h]

namespace Ballot

theorem keep (h : Ballot tvm s quorum submits votes id r) (hs : s'.custodians = s.custodians) :
    Ballot tvm s' quorum submits votes id r where
  required := h.required
  received := h.received
  nodup := h.nodup
  mask v hv := by
    rw [findCustodian_congr hs]
    exact h.mask v hv
  opened := h.opened

theorem submit (hl : submits l r.body) (hid : l.block.generateId = some id)
    (hc : s.findCustodian tvm l = some c) (hs : s'.custodians = s.custodians)
    (hr : r.signsReceived = 0) (hq : r.signsRequired = quorum) :
    Ballot tvm s' quorum submits [l] id (r.confirm c.index) where
  required := hq
  received := by simp [Request.confirm, hr]
  nodup := List.nodup_singleton _
  mask v hv := by
    rw [List.mem_singleton.mp hv, findCustodian_congr hs]
    exact ⟨c, hc, (isConfirmed_setConfirmed _ _ _).mpr (.inl rfl)⟩
  opened := by
    refine ⟨l, [], rfl, hl, hid, ?_⟩
    intro v hv
    rw [List.mem_singleton.mp hv]
    exact Nat.le_add_right _ _

theorem fresh (h : Ballot tvm s quorum submits votes id r) (hc : s.findCustodian tvm l = some c)
    (hn : isConfirmed r.confirmationsMask c.index = false) : l.who ∉ votes.map Incoming.who := by
  intro hmem
  obtain ⟨v, hv, hwho⟩ := List.mem_map.mp hmem
  obtain ⟨c', hc', hbit⟩ := h.mask v hv
  have hkey : v.pubkey = l.pubkey ∧ v.sender = l.sender := Prod.mk.inj hwho
  rw [findCustodian, hkey.1, hkey.2] at hc'
  cases hc'.symm.trans hc
  rw [hn] at hbit
  cases hbit

theorem nodup_concat (h : Ballot tvm s quorum submits votes id r)
    (hc : s.findCustodian tvm l = some c)
    (hn : isConfirmed r.confirmationsMask c.index = false) :
    ((votes ++ [l]).map Incoming.who).Nodup := by
  rw [List.map_append, List.map_singleton, List.nodup_append]
  refine ⟨h.nodup, List.nodup_singleton _, ?_⟩
  intro a ha b hb hab
  rw [List.mem_singleton.mp hb] at hab
  exact h.fresh hc hn (hab ▸ ha)

theorem window_concat (h : Ballot tvm s quorum submits votes id r) {marker : ℕ}
    (hb : l.block.getExpirationBound = some marker) (hlt : marker < id) :
    ∃ sub rest, votes ++ [l] = sub :: rest ∧ submits sub r.body ∧
      sub.block.generateId = some id ∧
      ∀ v ∈ votes ++ [l], v.block.now ≤ sub.block.now + EXPIRATION_TIME := by
  obtain ⟨sub, rest, hv, hsub, hid, hwin⟩ := h.opened
  refine ⟨sub, rest ++ [l], by rw [hv]; rfl, hsub, hid, ?_⟩
  intro v hmem
  rcases List.mem_append.mp hmem with hmem | hmem
  · exact hwin v hmem
  · rw [List.mem_singleton.mp hmem]
    exact within_expiration hid hb hlt

theorem confirm (h : Ballot tvm s quorum submits votes id r)
    (hc : s.findCustodian tvm l = some c)
    (hn : isConfirmed r.confirmationsMask c.index = false) {marker : ℕ}
    (hb : l.block.getExpirationBound = some marker) (hlt : marker < id)
    (hs : s'.custodians = s.custodians) :
    Ballot tvm s' quorum submits (votes ++ [l]) id (r.confirm c.index) where
  required := h.required
  received := by simp [Request.confirm, h.received]
  nodup := h.nodup_concat hc hn
  mask v hv := by
    rw [findCustodian_congr hs]
    rcases List.mem_append.mp hv with hv | hv
    · obtain ⟨c', hc', hbit⟩ := h.mask v hv
      exact ⟨c', hc', (isConfirmed_setConfirmed _ _ _).mpr (.inr hbit)⟩
    · rw [List.mem_singleton.mp hv]
      exact ⟨c, hc, (isConfirmed_setConfirmed _ _ _).mpr (.inl rfl)⟩
  opened := h.window_concat hb hlt

end Ballot

end Ballots

end Dexdo.Multisig
