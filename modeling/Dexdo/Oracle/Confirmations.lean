import Dexdo.Oracle.Network

namespace Dexdo

def Body.isApproval : Body → Bool
  | .approveEvent .. => true
  | _ => false

def Body.isRelease : Body → Bool
  | .cancelEvent _ => true
  | _ => false

/-- The letter carries the confirmation of PMP `m` by list `a`, on the way out or on the way
back: an approval to the PMP, a release to the list. -/
def Letter.carries (a : Addr) (m : MarketId) (l : Letter) : Bool :=
  (l.body.isApproval && !l.returned || l.body.isRelease && l.returned) &&
      decide (l.src = a ∧ l.dest = .pmp m) ||
    (l.body.isApproval && l.returned || l.body.isRelease && !l.returned) &&
      decide (l.src = .pmp m ∧ l.dest = a)

namespace Net

/-- The PMP holds the confirmation of list `a`. -/
def held (n : Net) (a : Addr) (m : MarketId) : Bool :=
  (n.pmps m).elim false fun p => p.standing.holds a

def marked (n : Net) (a : Addr) (m : MarketId) : Bool :=
  (n.lists a).elim false fun s => s.marked m

/-- Confirmations of PMP `m` by list `a`, wherever they are. -/
def tokens (n : Net) (a : Addr) (m : MarketId) : ℕ :=
  (n.held a m).toNat + n.mail.countP (Letter.carries a m)

/-- A returned message that list or PMP takes for another one: the list for an approval, a
cancelled PMP for a release. -/
def stray (n : Net) (a : Addr) (m : MarketId) (l : Letter) : Bool :=
  l.returned &&
    (decide (l.src = .pmp m ∧ l.dest = a) && !l.body.isApproval ||
      decide (l.src = a ∧ l.dest = .pmp m) && !l.body.isRelease &&
        (n.pmps m).elim false fun p => p.isCancelled)

/-- No such message arrives between list `a` and PMP `m`. -/
def Undisturbed (a : Addr) (m : MarketId) (n : Net) (ev : NetEvent) (_ : Net) : Prop :=
  match ev with
  | .deliver k => n.mail[k]?.all (fun l => !n.stray a m l) = true
  | _ => True

instance (a : Addr) (m : MarketId) (n : Net) (ev : NetEvent) (n' : Net) :
    Decidable (Undisturbed a m n ev n') := by
  cases ev <;> unfold Undisturbed <;> infer_instance

/-- What the contracts of the network keep. -/
structure Sound (n : Net) : Prop where
  lists : ∀ a s, n.lists a = some s → s.Counted
  pmps : ∀ m p, n.pmps m = some p → p.standing.Sound

variable {n n' : Net} {a b : Addr} {m m' : MarketId}

@[simp] theorem marked_post (l : List Letter) : (n.post l).marked a m = n.marked a m := rfl

@[simp] theorem marked_take (k : ℕ) : (n.take k).marked a m = n.marked a m := rfl

@[simp] theorem held_take (k : ℕ) : (n.take k).held a m = n.held a m := rfl

@[simp] theorem marked_setPMP (p : PMP) : (n.setPMP m' p).marked a m = n.marked a m := rfl

theorem marked_setList (s : OracleEventList) : (n.setList b s).marked a m =
    if a = b then s.marked m else n.marked a m := by
  unfold marked setList
  dsimp only
  rw [Function.update_apply]
  split_ifs <;> rfl

theorem held_setPMP (p : PMP) : (n.setPMP m' p).held a m =
    if m = m' then p.standing.holds a else n.held a m := by
  unfold held setPMP
  dsimp only
  rw [Function.update_apply]
  split_ifs <;> rfl

theorem tokens_post (l : List Letter) : (n.post l).tokens a m =
    n.tokens a m + l.countP (Letter.carries a m) := by
  simp [tokens, post, held, List.countP_append, Nat.add_assoc]

theorem tokens_take {k : ℕ} {l : Letter} (h : n.mail[k]? = some l) :
    (n.take k).tokens a m + (l.carries a m).toNat = n.tokens a m := by
  obtain ⟨hk, rfl⟩ := List.getElem?_eq_some_iff.mp h
  have hp := (List.getElem_cons_eraseIdx_perm hk).countP_eq (Letter.carries a m)
  rw [List.countP_cons] at hp
  rw [tokens, held_take, tokens, ← hp]
  simp only [take]
  cases n.mail[k].carries a m
  · simp
  · simp
    omega

theorem listLetters_carries (l : List ListAction) :
    (l.filterMap (ListAction.letter? b)).countP (Letter.carries a m) =
      if a = b then l.countP (fun
        | .approveEvent m' .. => decide (m' = m)
        | _ => false) else 0 := by
  rw [List.countP_filterMap]
  split_ifs with h
  · subst h
    apply List.countP_congr
    intro x _
    cases x <;> simp [ListAction.letter?, Letter.carries, Body.isApproval, Body.isRelease]
  · rw [List.countP_eq_zero]
    intro x _
    cases x <;> simp [ListAction.letter?, Letter.carries, Body.isApproval, Body.isRelease,
      Ne.symm h]

theorem pmpLetters_carries (m' : MarketId) (p q : PMP) (call : PmpCall) :
    (pmpLetters m' p call q).countP (Letter.carries a m) =
      if m' = m then q.standing.cancels.count a else 0 := by
  unfold pmpLetters
  rw [List.countP_filterMap]
  split_ifs with h
  · change _ = (q.actions.filterMap PmpAction.cancels?).countP _
    rw [List.countP_filterMap]
    apply List.countP_congr
    intro x _
    cases x <;> simp [PmpAction.letter?, PmpAction.cancels?, Letter.carries, Body.isApproval,
      Body.isRelease, h]
  · rw [List.countP_eq_zero]
    intro x _
    cases x <;> simp [PmpAction.letter?, Letter.carries, Body.isApproval, Body.isRelease, h]

theorem execList_some {caller : Caller} {call : ListCall} (h : n.execList b caller call = some n') :
    ∃ s t, n.lists b = some s ∧ s.step caller n.now call = some t ∧
      n' = (n.setList b t).post (t.actions.filterMap (ListAction.letter? b)) := by
  simp only [execList, bind_iff, pure_iff] at h
  obtain ⟨s, hs, t, ht, rfl⟩ := h
  exact ⟨s, t, hs, ht, rfl⟩

theorem execPMP_some {sender : Addr} {call : PmpCall}
    (h : n.execPMP m' sender call = some n') :
    ∃ p q, n.pmps m' = some p ∧ p.step ⟨sender, n.now, call⟩ = some q ∧
      n' = (n.setPMP m' q).post (pmpLetters m' p call q) := by
  simp only [execPMP, bind_iff, pure_iff] at h
  obtain ⟨p, hp, q, hq, rfl⟩ := h
  exact ⟨p, q, hp, hq, rfl⟩

theorem execList_tokens {caller : Caller} {call : ListCall}
    (h : n.execList b caller call = some n') :
    if b = a ∧ OracleEventList.released? caller call = some (.pmp m) then
      n'.marked a m = false ∧ n'.tokens a m = n.tokens a m
    else n'.tokens a m + (n.marked a m).toNat = n.tokens a m + (n'.marked a m).toNat := by
  obtain ⟨s, t, hs, ht, rfl⟩ := execList_some h
  have hm := (OracleEventList.step_effect ht).marks rfl m
  have ht : (n.setList b t).tokens a m = n.tokens a m := rfl
  rw [tokens_post, marked_post, listLetters_carries, ht, marked_setList]
  by_cases hb : b = a
  · subst hb
    have h1 : n.marked b m = s.marked m := by rw [marked, hs]; rfl
    have h2 : s.begin.marked m = s.marked m := rfl
    simp only [true_and, if_true, h1]
    rw [h2] at hm
    change if _ then _ ∧ n.tokens b m + t.approvals m = _ else
      n.tokens b m + t.approvals m + _ = _
    split_ifs at hm ⊢
    · rw [hm.1, hm.2]
      exact ⟨rfl, rfl⟩
    · omega
  · simp [hb, Ne.symm hb]

/-- A transaction of a PMP gives back no more than it holds or is handed. -/
theorem execPMP_tokens (hn : n.Sound) {sender : Addr} {call : PmpCall}
    (h : n.execPMP m' sender call = some n') : ∃ p, n.pmps m' = some p ∧
      n'.tokens a m ≤ n.tokens a m +
        (if m' = m then (Standing.approves ⟨sender, n.now, call⟩ a).toNat +
          (p.standing.retries ⟨sender, n.now, call⟩ a).toNat else 0) := by
  obtain ⟨p, q, hp, hq, rfl⟩ := execPMP_some h
  refine ⟨p, hp, ?_⟩
  rw [tokens_post, pmpLetters_carries]
  by_cases hm : m' = m
  · subst hm
    obtain ⟨hd, hs⟩ := PMP.step_standing hq
    have hb : ({ p.standing with cancels := [] } : Standing).Sound :=
      ⟨(hn.pmps _ _ hp).distinct, (hn.pmps _ _ hp).released⟩
    have h1 := hs.holding (a := a) hb hd rfl
    have h2 : n.held a m' = p.standing.holds a := by rw [held, hp]; rfl
    have h3 : (n.setPMP m' q).tokens a m' =
        (q.standing.holds a).toNat + n.mail.countP (Letter.carries a m') := by
      rw [tokens, held_setPMP, if_pos rfl]
      rfl
    have h4 : (({ p.standing with cancels := [] } : Standing).holds a) = p.standing.holds a := rfl
    have h5 : ({ p.standing with cancels := [] } : Standing).retries ⟨sender, n.now, call⟩ a =
        p.standing.retries ⟨sender, n.now, call⟩ a := rfl
    rw [h4, h5] at h1
    rw [if_pos rfl, if_pos rfl, h3, tokens, h2]
    omega
  · have h3 : (n.setPMP m' q).tokens a m = n.tokens a m := by
      rw [tokens, held_setPMP, if_neg (Ne.symm hm)]
      rfl
    rw [if_neg hm, if_neg hm, h3]

theorem Sound.setList (hn : n.Sound) {s : OracleEventList} (hs : s.Counted) :
    (n.setList b s).Sound := by
  refine ⟨?_, hn.pmps⟩
  intro a t ht
  unfold Net.setList at ht
  dsimp only at ht
  rw [Function.update_apply] at ht
  split_ifs at ht
  · cases ht
    exact hs
  · exact hn.lists a t ht

theorem Sound.setPMP (hn : n.Sound) {p : PMP} (hp : p.standing.Sound) : (n.setPMP m p).Sound := by
  refine ⟨hn.lists, ?_⟩
  intro x q hq
  unfold Net.setPMP at hq
  dsimp only at hq
  rw [Function.update_apply] at hq
  split_ifs at hq
  · cases hq
    exact hp
  · exact hn.pmps x q hq

theorem Sound.post (hn : n.Sound) (l : List Letter) : (n.post l).Sound := ⟨hn.lists, hn.pmps⟩

theorem Sound.take (hn : n.Sound) (k : ℕ) : (n.take k).Sound := ⟨hn.lists, hn.pmps⟩

theorem Sound.execList (hn : n.Sound) {caller : Caller} {call : ListCall}
    (h : n.execList b caller call = some n') : n'.Sound := by
  obtain ⟨s, t, hs, ht, rfl⟩ := execList_some h
  exact (hn.setList ((hn.lists b s hs).step ht)).post _

theorem Sound.execPMP (hn : n.Sound) {sender : Addr} {call : PmpCall}
    (h : n.execPMP m sender call = some n') : n'.Sound := by
  obtain ⟨p, q, hp, hq, rfl⟩ := execPMP_some h
  obtain ⟨-, hs⟩ := PMP.step_standing hq
  have hb : ({ p.standing with cancels := [] } : Standing).Sound :=
    ⟨(hn.pmps _ _ hp).distinct, (hn.pmps _ _ hp).released⟩
  exact (hn.setPMP (hb.step hs)).post _

theorem requestWeeklyMedian_some {sender : Addr} {e x k : ℕ}
    (h : n.requestWeeklyMedian b sender e x k = some n') :
    ∃ s price, n.books b = some s ∧ s.weeklyMedian n.now = some price ∧
      n' = n.post [⟨b, sender, .onWeeklyMedian e x k price, false, false⟩] := by
  simp only [requestWeeklyMedian, bind_iff, pure_iff] at h
  obtain ⟨s, hs, price, hp, rfl⟩ := h
  exact ⟨s, price, hs, hp, rfl⟩

/-- Who runs a letter's transaction. -/
inductive Received (n : Net) (l : Letter) (n' : Net) : Prop
  | list (nameHash index : ℕ) (call : ListCall) (hd : l.dest = .oracleEventList nameHash index)
      (hc : l.listCall? = some call) (h : n.execList l.dest (.internal l.src) call = some n')
  | pmp (m : MarketId) (call : PmpCall) (hd : l.dest = .pmp m) (hc : l.pmpCall? = some call)
      (h : n.execPMP m l.src call = some n')
  | book (c d x e y k : ℕ) (hd : l.dest = .inferenceBook c d x)
      (hb : l.body = .requestWeeklyMedian e y k) (hr : l.returned = false)
      (h : n.requestWeeklyMedian l.dest l.src e y k = some n')

theorem receive_some {l : Letter} (h : n.receive l = some n') : n.Received l n' := by
  unfold receive at h
  split at h
  · rename_i nameHash index hd
    obtain ⟨call, hc, h⟩ := of_bind h
    rw [← hd] at h
    exact .list nameHash index call hd hc h
  · rename_i m hd
    obtain ⟨call, hc, h⟩ := of_bind h
    exact .pmp m call hd hc h
  · rename_i c d x hd
    split at h
    · rename_i e y k hb
      split_ifs at h with hr
      rw [← hd] at h
      exact .book c d x e y k hd hb (by simpa using hr) h
    · cases h
  · cases h

theorem Sound.receive (hn : n.Sound) {l : Letter} (h : n.receive l = some n') : n'.Sound := by
  cases receive_some h with
  | list x y call hd hc h => exact hn.execList h
  | pmp m call hd hc h => exact hn.execPMP h
  | book c d x e y k hd hb hr h =>
    obtain ⟨s, price, -, -, rfl⟩ := requestWeeklyMedian_some h
    exact hn.post _

theorem carries_of_released {l : Letter} {call : ListCall} (hc : l.listCall? = some call)
    (hr : OracleEventList.released? (.internal l.src) call = some (.pmp m))
    (hu : n.stray l.dest m l = false) : l.carries l.dest m = true := by
  unfold Letter.listCall? at hc
  by_cases hret : l.returned = true
  · rw [if_pos hret] at hc
    rw [← Option.some.inj hc] at hr
    have hs : l.src = .pmp m := Option.some.inj hr
    simp only [stray, hret, hs, Bool.true_and, Bool.or_eq_false_iff] at hu
    have hb : l.body.isApproval = true := by simpa using hu.1
    simp [Letter.carries, hret, hs, hb]
  · rw [if_neg hret] at hc
    have hret : l.returned = false := by simpa using hret
    cases hb : l.body <;> rw [hb] at hc <;> cases hc
    all_goals try cases hr
    simp only [OracleEventList.released?] at hr
    split_ifs at hr
    have hs : l.src = .pmp m := Option.some.inj hr
    simp [Letter.carries, hret, hs, hb, Body.isApproval, Body.isRelease]

theorem carries_of_handed {l : Letter} {call : PmpCall} {p : PMP} (hd : l.dest = .pmp m)
    (hc : l.pmpCall? = some call) (hp : n.pmps m = some p) (hu : n.stray a m l = false) :
    (Standing.approves ⟨l.src, n.now, call⟩ a).toNat +
      (p.standing.retries ⟨l.src, n.now, call⟩ a).toNat ≤ (l.carries a m).toNat := by
  unfold Letter.pmpCall? at hc
  by_cases hs : l.src = a
  · by_cases hret : l.returned = true
    · rw [if_pos hret] at hc
      cases hc
      by_cases hcan : p.isCancelled = true
      · simp only [stray, hret, hs, hd, hp, Bool.true_and, Bool.or_eq_false_iff] at hu
        have hb : l.body.isRelease = true := by simpa [hcan] using hu.2
        have h1 : l.carries a m = true := by simp [Letter.carries, hret, hs, hd, hb]
        rw [h1]
        simp [Standing.approves, Bool.toNat_le]
      · have h1 : p.isCancelled = false := by simpa using hcan
        have h1 : p.standing.isCancelled = false := h1
        simp [Standing.approves, Standing.retries, h1]
    · rw [if_neg hret] at hc
      have hret : l.returned = false := by simpa using hret
      cases hb : l.body <;> rw [hb] at hc <;> cases hc <;>
        simp [Standing.approves, Standing.retries, Letter.carries, hret, hs, hd, hb,
          Body.isApproval, Body.isRelease]
  · simp [Standing.approves, Standing.retries, hs]

theorem Received.tokens {l : Letter} (hn : n.Sound) (h : n.Received l n')
    (hu : n.stray a m l = false)
    (ht : n.tokens a m + (l.carries a m).toNat ≤ (n.marked a m).toNat) :
    n'.tokens a m ≤ (n'.marked a m).toNat := by
  cases h with
  | list x y call hd hc h =>
    have h1 := execList_tokens (a := a) (m := m) h
    split_ifs at h1 with hr
    · obtain ⟨hda, hr⟩ := hr
      subst hda
      have h2 := carries_of_released hc hr hu
      have h3 := Bool.toNat_le (n.marked l.dest m)
      rw [h2] at ht
      rw [h1.2]
      simp only [Bool.toNat_true] at ht
      omega
    · omega
  | pmp m' call hd hc h =>
    obtain ⟨p, hp, h1⟩ := execPMP_tokens (a := a) (m := m) hn h
    obtain ⟨p', q, hp', hq, hn'⟩ := execPMP_some h
    have h2 : n'.marked a m = n.marked a m := by
      rw [hn']
      rfl
    rw [h2]
    by_cases hm : m' = m
    · subst hm
      have h3 := carries_of_handed hd hc hp hu
      rw [if_pos rfl] at h1
      omega
    · rw [if_neg hm] at h1
      omega
  | book c d x e y k hd hb hr h =>
    obtain ⟨s, price, -, -, rfl⟩ := requestWeeklyMedian_some h
    rw [tokens_post, marked_post]
    simp only [List.countP_singleton, Letter.carries, Body.isApproval, Body.isRelease]
    simp
    omega

theorem bounced_carries (l : Letter) :
    l.bounced.countP (Letter.carries a m) ≤ (l.carries a m).toNat := by
  unfold Letter.bounced
  split_ifs with hb
  · have hret : l.returned = false := by simpa using hb.2
    have h1 : Letter.carries a m ⟨l.dest, l.src, l.body, false, true⟩ = l.carries a m := by
      simp only [Letter.carries, hret]
      rw [Bool.or_comm]
      simp [and_comm]
    rw [List.countP_singleton, h1]
    cases l.carries a m <;> simp
  · exact Nat.zero_le _

theorem init_standing_sound (m : MarketId) (h : ℕ) (l : List Addr) (x : List ℕ) :
    (PMP.init m h l x).standing.Sound := by
  refine ⟨?_, fun h => by cases h⟩
  have h1 : (PMP.init m h l x).standing.keys = l.dedup := by
    change (l.dedup.map fun a => (a, false)).map Prod.fst = l.dedup
    rw [List.map_map]
    exact List.map_id _
  rw [h1]
  exact l.nodup_dedup

theorem init_not_held (m : MarketId) (h : ℕ) (l : List Addr) (x : List ℕ) :
    (PMP.init m h l x).standing.holds a = false := by
  have h1 : (PMP.init m h l x).standing.confirmed? a ≠ some true := by
    change ((l.dedup.map fun a => (a, false)).find? _).map Prod.snd ≠ some true
    intro hf
    obtain ⟨e, he, ht⟩ := Option.map_eq_some_iff.mp hf
    obtain ⟨b, -, rfl⟩ := List.mem_map.mp (List.mem_of_find?_eq_some he)
    cases ht
  simp [Standing.holds, Standing.open?, h1]

theorem deployPMP_some {x : ℕ} {l : List ListFee} {st : List ℕ}
    (h : n.deployPMP m' x l st = some n') : (∀ p ∈ n.pmps m', p.destroyed = true) ∧
      n' = (n.setPMP m' (.init m' x (l.map ListFee.address) st)).post
        (l.map fun f => ⟨.pmp m', f.address, .confirmEvent m' f.fee, true, false⟩) := by
  simp only [deployPMP, bind_iff, pure_iff] at h
  exact ⟨h.1, h.2.symm⟩

theorem deployPMP_tokens {x : ℕ} {l : List ListFee} {st : List ℕ}
    (h : n.deployPMP m' x l st = some n') : n'.tokens a m = n.tokens a m := by
  obtain ⟨hd, rfl⟩ := deployPMP_some h
  have h1 : (l.map fun f => (⟨.pmp m', f.address, .confirmEvent m' f.fee, true, false⟩ :
      Letter)).countP (Letter.carries a m) = 0 := by
    rw [List.countP_eq_zero]
    intro y hy
    obtain ⟨f, -, rfl⟩ := List.mem_map.mp hy
    simp [Letter.carries, Body.isApproval, Body.isRelease]
  rw [tokens_post, h1, Nat.add_zero, tokens, tokens, held_setPMP]
  split_ifs with hm
  · subst hm
    have h2 : n.held a m = false := by
      unfold held
      cases hp : n.pmps m with
      | none => rfl
      | some p =>
        have h3 : p.standing.destroyed = true := hd p hp
        simp [Standing.holds, h3]
    rw [h2, init_not_held]
    rfl
  · rfl

theorem Sound.step {ev : NetEvent} (hn : n.Sound) (h : n.step ev = some n') : n'.Sound := by
  cases ev with
  | tick =>
    cases h
    exact ⟨hn.lists, hn.pmps⟩
  | deployList =>
    simp only [Net.step, bind_iff, pure_iff] at h
    obtain ⟨-, s, hs, rfl⟩ := h
    exact hn.setList (OracleEventList.init_counted hs)
  | deployPMP =>
    obtain ⟨-, rfl⟩ := deployPMP_some h
    exact (hn.setPMP (init_standing_sound ..)).post _
  | deployBook =>
    simp only [Net.step, bind_iff, pure_iff] at h
    obtain ⟨-, rfl⟩ := h
    exact ⟨hn.lists, hn.pmps⟩
  | report =>
    simp only [Net.step, bind_iff, pure_iff] at h
    obtain ⟨s, -, rfl⟩ := h
    exact ⟨hn.lists, hn.pmps⟩
  | callList =>
    simp only [Net.step, bind_iff] at h
    exact hn.execList h.2
  | callPMP =>
    simp only [Net.step, bind_iff] at h
    exact hn.execPMP h.2.2
  | deliver k =>
    simp only [Net.step, bind_iff, pure_iff] at h
    obtain ⟨l, -, rfl⟩ := h
    cases hr : (n.take k).receive l with
    | none => exact (hn.take k).post _
    | some => exact (hn.take k).receive hr
  | abort k =>
    simp only [Net.step, bind_iff, pure_iff] at h
    obtain ⟨l, -, rfl⟩ := h
    exact (hn.take k).post _

/-- A confirmation is never in two places, and where there is one the PMP is marked. -/
theorem tokens_step {ev : NetEvent} (ha : a.hosted = true) (hn : n.Sound)
    (ht : n.tokens a m ≤ (n.marked a m).toNat) (h : n.step ev = some n')
    (hu : Undisturbed a m n ev n') : n'.tokens a m ≤ (n'.marked a m).toNat := by
  have hout : ∀ {k : ℕ} {l : Letter}, n.mail[k]? = some l →
      ((n.take k).post l.bounced).tokens a m ≤ (n.marked a m).toNat := by
    intro k l hl
    have h1 := tokens_take (a := a) (m := m) hl
    have h2 := bounced_carries (a := a) (m := m) l
    rw [tokens_post]
    omega
  cases ev with
  | tick =>
    cases h
    exact ht
  | deployList =>
    simp only [Net.step, bind_iff, pure_iff] at h
    obtain ⟨hno, s, -, rfl⟩ := h
    rw [marked_setList]
    split_ifs with hb
    · have h1 : n.marked a m = false := by
        rw [marked, hb, Option.isNone_iff_eq_none.mp hno]
        rfl
      rw [h1] at ht
      exact ht.trans (Nat.zero_le _)
    · exact ht
  | deployPMP =>
    have h1 := deployPMP_tokens (a := a) (m := m) h
    obtain ⟨-, rfl⟩ := deployPMP_some h
    rw [h1]
    exact ht
  | deployBook =>
    simp only [Net.step, bind_iff, pure_iff] at h
    obtain ⟨-, rfl⟩ := h
    exact ht
  | report =>
    simp only [Net.step, bind_iff, pure_iff] at h
    obtain ⟨s, -, rfl⟩ := h
    exact ht
  | callList b caller call =>
    simp only [Net.step, bind_iff] at h
    have h1 := execList_tokens (a := a) (m := m) h.2
    have h2 : OracleEventList.released? caller call ≠ some (.pmp m) := by
      intro hr
      have ho := h.1
      cases caller with
      | external => cases hr
      | internal b =>
        have hb : b = .pmp m := by
          cases call <;> simp only [OracleEventList.released?, reduceCtorEq] at hr
          · split_ifs at hr
            exact Option.some.inj hr
          · exact Option.some.inj hr
        rw [hb] at ho
        cases ho
    rw [if_neg (fun hb => h2 hb.2)] at h1
    omega
  | callPMP m' x call =>
    simp only [Net.step, bind_iff] at h
    obtain ⟨hx, -, h⟩ := h
    obtain ⟨p, -, h1⟩ := execPMP_tokens (a := a) (m := m) hn h
    obtain ⟨p', q, -, -, rfl⟩ := execPMP_some h
    have hne : x ≠ a := by
      intro hxa
      rw [hxa, ha] at hx
      cases hx
    rw [marked_post, marked_setPMP]
    simp only [Standing.approves, Standing.retries, hne, decide_false, Bool.false_and,
      Bool.and_false, Bool.toNat_false, Nat.add_zero, ite_self] at h1
    omega
  | deliver k =>
    simp only [Net.step, bind_iff, pure_iff] at h
    obtain ⟨l, hl, rfl⟩ := h
    cases hr : (n.take k).receive l with
    | none => exact hout hl
    | some =>
      have h1 := tokens_take (a := a) (m := m) hl
      have hs : n.stray a m l = false := by
        have h2 : (n.mail[k]?).all (fun l => !n.stray a m l) = true := hu
        rw [hl] at h2
        simpa using h2
      exact (receive_some hr).tokens (hn.take k) hs (by rw [h1, marked_take]; exact ht)
  | abort =>
    simp only [Net.step, bind_iff, pure_iff] at h
    obtain ⟨l, hl, rfl⟩ := h
    exact hout hl

variable {t₀ : ℕ} {tr : List (NetEvent × Net)}

theorem run_sound (h : Run step (genesis t₀) tr n) : n.Sound := by
  refine h.state_invariant Sound ?_ fun n ev n' hn hs => hn.step hs
  refine ⟨?_, ?_⟩
  · intro a s hs
    cases hs
  · intro m p hp
    cases hp

theorem run_tokens (ha : a.hosted = true) (h : Run step (genesis t₀) tr n)
    (hu : Run.Each (Undisturbed a m) (genesis t₀) tr) :
    n.tokens a m ≤ (n.marked a m).toNat := by
  refine h.invariant_each (fun _ n => n.tokens a m ≤ (n.marked a m).toNat) (Nat.le_refl 0) ?_ hu
  intro tr n ev n' hr ht hu hs
  exact tokens_step ha (run_sound hr) ht hs hu

theorem deleteEvent_count {s t : OracleEventList} {caller : Caller} {now e : ℕ}
    (h : s.step caller now (.deleteEvent e) = some t) (he : s.events.has e = true)
    (ht : t.events.has e = false) : (s.events.read e).count = 0 := by
  simp only [OracleEventList.step, OracleEventList.exec, OracleEventList.deleteEvent, bind_iff,
    pure_iff] at h
  obtain ⟨-, rfl⟩ := h
  split_ifs at ht with hc
  · exact hc.1
  · have h1 : s.begin.events.has e = true := he
    rw [h1] at ht
    cases ht

/-- The count of an event is the number of PMPs marked for it, a mark that is taken away is always
counted, and an event is deleted only when no PMP is marked for it: then no PMP of the event lives
that holds a confirmation by the list and is not cancelled, unless a message other than the one
they expected was returned between the two. -/
theorem confirmations_counted (h : Run step (genesis t₀) tr n) (nameHash index : ℕ)
    (s : OracleEventList) (hs : n.lists (.oracleEventList nameHash index) = some s) :
    (∀ e, (s.events.read e).count = s.pmpConfirmed.tally e) ∧
      (∀ a e, s.pmpConfirmed.lookup a = some e →
        (∃ m, a = .pmp m ∧ m.eventId = e) ∧ 0 < (s.events.read e).count) ∧
      ∀ caller e t, s.step caller n.now (.deleteEvent e) = some t → s.events.has e = true →
        t.events.has e = false → ∀ m, m.eventId = e → s.marked m = false ∧
          ∀ p, n.pmps m = some p → p.destroyed = false → p.isCancelled = false →
            Run.Each (Undisturbed (.oracleEventList nameHash index) m) (genesis t₀) tr →
              p.confirmed? (.oracleEventList nameHash index) ≠ some true := by
  have hn := run_sound h
  have hc := hn.lists _ s hs
  refine ⟨hc.count, fun a e ha => ⟨hc.mark a e ha, hc.pos ha⟩, ?_⟩
  intro caller e t ht he hx m hm
  have h0 := deleteEvent_count ht he hx
  have hmark : s.marked m = false := by
    rw [← Bool.not_eq_true]
    intro hk
    obtain ⟨e', he'⟩ := Option.isSome_iff_exists.mp hk
    obtain ⟨m', hp, hm'⟩ := hc.mark _ _ he'
    cases hp
    have h1 := hc.pos he'
    rw [← hm', hm] at h1
    omega
  refine ⟨hmark, ?_⟩
  intro p hp hd hcan hu hconf
  have h1 := run_tokens rfl h hu
  have h2 : n.marked (.oracleEventList nameHash index) m = false := by
    rw [marked, hs]
    exact hmark
  have h3 : n.held (.oracleEventList nameHash index) m = true := by
    have hsnd := (hn.pmps m p hp).released
    have hrel : p.standing.countReleased = false := by
      rw [← Bool.not_eq_true]
      intro hr
      rcases hsnd hr with h4 | h4
      · have h5 : p.destroyed = true := h4
        rw [hd] at h5
        cases h5
      · have h5 : p.isCancelled = true := h4
        rw [hcan] at h5
        cases h5
    have hd' : p.standing.destroyed = false := hd
    have hconf' : p.standing.confirmed? (.oracleEventList nameHash index) = some true := hconf
    rw [held, hp]
    simp [Standing.holds, Standing.open?, hd', hrel, hconf']
  rw [tokens, h2, h3] at h1
  simp at h1

/-- An event with two outcomes, kept by list `(1, 0)` until the first second is over. -/
def coinNames : Mapping ℕ String := AList.insert 0 "a" (AList.insert 1 "b" ∅)

def coin : ListCall := .addEvent "" 1 1 "" coinNames none

def coinId : ℕ := eventIdOf "" 1 "" coinNames

def coinMarket : MarketId := ⟨coinId, 9, 1⟩

/-- The market is confirmed, and its oracle cancels it. -/
def cancelledCoin : List NetEvent :=
  [.deployList 1 0 5, .callList (.oracleEventList 1 0) (.external 5) coin,
    .deployPMP coinMarket 7 [⟨1, 0, 1⟩] [30, 50], .deliver 0, .deliver 0,
    .callPMP coinMarket (.ext 0) (.submitCancelEvent (.external 5)), .deliver 0, .tick 2]

def coinTrace (evs : List NetEvent) : List (NetEvent × Net) := Run.trace step (genesis 0) evs

def coinEnd (evs : List NetEvent) : Net := Run.last (genesis 0) (coinTrace evs)

theorem coin_run (evs : List NetEvent) : Run step (genesis 0) (coinTrace evs) (coinEnd evs) :=
  Run.trace_run step (genesis 0) evs

theorem coinList_deployed :
    ((coinEnd cancelledCoin).lists (.oracleEventList 1 0)).isSome = true := by decide +kernel

/-- The list when the cancelled market has released it. -/
def coinList : OracleEventList :=
  ((coinEnd cancelledCoin).lists (.oracleEventList 1 0)).get coinList_deployed

theorem coin_deletable :
    ((coinList.step (.external 5) 2 (.deleteEvent coinId)).map fun t => t.events.has coinId) =
      some false := by decide +kernel

/-- The event is over before the list has answered its market. -/
def waitingCoin : List NetEvent :=
  [.deployList 1 0 5, .callList (.oracleEventList 1 0) (.external 5) coin,
    .deployPMP coinMarket 7 [⟨1, 0, 1⟩] [30, 50], .tick 2]

theorem waiting_deletable : (((coinEnd waitingCoin).lists (.oracleEventList 1 0)).bind fun s =>
    (s.step (.external 5) (coinEnd waitingCoin).now (.deleteEvent coinId)).map fun t =>
      (s.events.has coinId, t.events.has coinId)) = some (true, false) := by decide +kernel

theorem waiting_alive : ((coinEnd waitingCoin).pmps coinMarket).map (fun p =>
    (p.destroyed, p.isCancelled)) = some (false, false) := by decide +kernel

/-- The list no longer counts the cancelled market; the one that waits is alive, unconfirmed. -/
theorem confirmations_counted_sample : coinList.marked coinMarket = false ∧
    ∃ p, (coinEnd waitingCoin).pmps coinMarket = some p ∧ p.destroyed = false ∧
      p.isCancelled = false ∧ p.confirmed? (.oracleEventList 1 0) ≠ some true := by
  constructor
  · obtain ⟨t, ht, hx⟩ := Option.map_eq_some_iff.mp coin_deletable
    have hnow : (coinEnd cancelledCoin).now = 2 := by decide +kernel
    have he : coinList.events.has coinId = true := by decide +kernel
    exact ((confirmations_counted (coin_run cancelledCoin) 1 0 coinList
      (Option.some_get coinList_deployed).symm).2.2 (.external 5) coinId t (hnow ▸ ht) he hx
        coinMarket rfl).1
  · obtain ⟨s, hs, h⟩ := of_bind waiting_deletable
    obtain ⟨t, ht, h⟩ := Option.map_eq_some_iff.mp h
    obtain ⟨he, hx⟩ := Prod.mk.inj h
    obtain ⟨p, hp, h⟩ := Option.map_eq_some_iff.mp waiting_alive
    obtain ⟨hd, hc⟩ := Prod.mk.inj h
    exact ⟨p, hp, hd, hc, ((confirmations_counted (coin_run waitingCoin) 1 0 s hs).2.2 (.external 5)
      coinId t ht he hx coinMarket rfl).2 p hp hd hc (by decide +kernel)⟩

/-- The list takes a rejection that an earlier market of this address could not receive for the
approval of the present one. -/
def crossedCoin : List NetEvent :=
  [.deployList 1 0 5, .callList (.oracleEventList 1 0) (.external 5) coin,
    .deployPMP coinMarket 7 [⟨1, 0, 0⟩, ⟨2, 0, 0⟩] [30, 50], .deliver 0, .deliver 0, .deliver 1,
    .deliver 0, .deployPMP coinMarket 7 [⟨1, 0, 1⟩, ⟨2, 1, 1⟩] [30, 50], .deliver 1, .deliver 2,
    .deliver 0, .tick 2]

/-- The list can delete the event while the PMP it confirmed is alive. -/
def DeletesUnderPMP (n : Net) (cancelled : Bool) : Prop :=
  (n.lists (.oracleEventList 1 0)).elim false (fun s =>
      s.events.has coinId && (s.step (.external 5) n.now (.deleteEvent coinId)).elim false
        fun t => !t.events.has coinId) = true ∧
    (n.pmps coinMarket).map (fun p => (p.destroyed, p.isCancelled,
      p.confirmed? (.oracleEventList 1 0))) = some (false, cancelled, some true)

instance (n : Net) (cancelled : Bool) : Decidable (DeletesUnderPMP n cancelled) := by
  unfold DeletesUnderPMP
  infer_instance

/-- It can once the PMP is cancelled, or after a returned rejection. -/
theorem confirmations_counted_gap :
    (coinTrace cancelledCoin).length = cancelledCoin.length ∧
      DeletesUnderPMP (coinEnd cancelledCoin) true ∧
      (coinTrace crossedCoin).length = crossedCoin.length ∧
      DeletesUnderPMP (coinEnd crossedCoin) false := by
  decide +kernel

end Net

end Dexdo
