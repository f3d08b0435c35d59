import Dexdo.PMP.Standing
import Dexdo.PMP.Solvent

namespace Dexdo

namespace Standing

variable {b c : Standing} {i : PMP.Input} {a : Addr}

def keys (b : Standing) : List Addr := b.oracleEventsConfirmed.map Prod.fst

/-- A list that has confirmed and has not been told that the event is over. -/
def open? (b : Standing) (a : Addr) : Bool :=
  decide (b.confirmed? a = some true) && !b.countReleased

/-- A living market holds the confirmation of a list. -/
def holds (b : Standing) (a : Addr) : Bool := !b.destroyed && b.open? a

/-- What a standing keeps: one record for each list, and a release only on the way out. -/
structure Sound (b : Standing) : Prop where
  distinct : b.keys.Nodup
  released : b.countReleased = true → b.destroyed = true ∨ b.isCancelled = true

theorem find_of_notMem {l : List (Addr × Bool)} (h : a ∉ l.map Prod.fst) :
    l.find? (fun e => decide (e.1 = a)) = none := by
  rw [List.find?_eq_none]
  intro e he hd
  exact h (List.mem_map.mpr ⟨e, he, by simpa using hd⟩)

theorem count_confirmedLists (h : b.keys.Nodup) :
    b.confirmedLists.count a = if b.confirmed? a = some true then 1 else 0 := by
  unfold confirmedLists confirmed?
  unfold keys at h
  generalize b.oracleEventsConfirmed = l at h ⊢
  induction l with
  | nil => rfl
  | cons e l ih =>
    rw [List.map_cons, List.nodup_cons] at h
    have ih := ih h.2
    by_cases he : e.1 = a
    · rw [he] at h
      rw [find_of_notMem h.1] at ih
      rw [List.find?_cons_of_pos (by simpa using he)]
      cases h2 : e.2
      · simpa [List.filter_cons, h2] using ih
      · simp only [List.filter_cons, h2, if_true, List.map_cons, he, List.count_cons_self, ih]
        simp [h2]
    · rw [List.find?_cons_of_neg (by simpa using he), ← ih]
      cases h2 : e.2
      · simp [h2]
      · simp [h2, he]

theorem confirmed?_confirm (b : Standing) (x a : Addr) : (b.confirm x).confirmed? a =
    if a = x then (b.confirmed? a).map fun _ => true else b.confirmed? a := by
  unfold confirmed? confirm
  dsimp only
  induction b.oracleEventsConfirmed with
  | nil => simp
  | cons e l ih =>
    rw [List.map_cons]
    by_cases he : e.1 = a
    · subst he
      by_cases hx : e.1 = x <;> simp [hx]
    · have h1 : (if e.1 = x then (e.1, true) else e).1 = e.1 := by split_ifs <;> rfl
      rw [List.find?_cons_of_neg (by simpa [h1] using he),
        List.find?_cons_of_neg (by simpa using he), ih]

theorem keys_confirm (b : Standing) (x : Addr) : (b.confirm x).keys = b.keys := by
  unfold keys confirm
  rw [List.map_map]
  apply List.map_congr_left
  intro e _
  dsimp only [Function.comp_apply]
  split_ifs <;> rfl

/-- Confirmations that a transaction may still give back: those held and those released in it. -/
def due (b : Standing) (a : Addr) : ℕ := (b.open? a).toNat + b.cancels.count a

/-- The lists are told once. -/
theorem due_release (h : b.keys.Nodup) : b.release.due a = b.due a := by
  unfold release
  split_ifs with hr
  · rfl
  · have hl := count_confirmedLists (a := a) h
    have h1 : (({ b with countReleased := true } : Standing).cancelLists).due a =
        b.cancels.count a + b.confirmedLists.count a := by
      simp [due, open?, cancelLists, confirmedLists, List.count_append]
    rw [h1, hl, due, open?]
    by_cases hc : b.confirmed? a = some true <;> simp [hc, hr, Nat.add_comm]

theorem due_cancel (h : b.keys.Nodup) : b.cancel.due a = b.due a := due_release h

theorem due_finish (h : b.keys.Nodup) : b.finish.due a = b.due a := due_release h

theorem keys_release : b.release.keys = b.keys := by
  unfold release
  split_ifs <;> rfl

theorem Winds.keys (h : b.Winds c) : c.keys = b.keys := by
  induction h with
  | refl => rfl
  | cancel _ ih => exact (keys_release).trans ih
  | finish _ ih => exact (keys_release).trans ih

theorem Winds.due (h : b.Winds c) (hn : b.keys.Nodup) : c.due a = b.due a := by
  induction h with
  | refl => rfl
  | cancel h ih => exact (due_cancel (h.keys ▸ hn)).trans ih
  | finish h ih => exact (due_finish (h.keys ▸ hn)).trans ih

theorem Winds.released (h : b.Winds c)
    (hr : b.countReleased = true → b.destroyed = true ∨ b.isCancelled = true) :
    c.countReleased = true → c.destroyed = true ∨ c.isCancelled = true := by
  induction h with
  | refl => exact hr
  | cancel _ _ => exact fun _ => .inr rfl
  | finish _ _ => exact fun _ => .inl rfl

theorem holds_le_due : (b.holds a).toNat + b.cancels.count a ≤ b.due a := by
  unfold holds due
  cases b.destroyed <;> simp

theorem Sound.step (hb : b.Sound) (h : b.Step i c) : c.Sound := by
  cases h with
  | winds h => exact ⟨h.keys ▸ hb.distinct, h.released hb.released⟩
  | approved =>
    exact ⟨(keys_confirm b i.sender) ▸ hb.distinct, hb.released⟩
  | mismatched => exact ⟨hb.distinct, fun _ => .inl rfl⟩
  | duplicate =>
    exact ⟨(keys_confirm b i.sender) ▸ hb.distinct, fun _ => .inl rfl⟩
  | retried => exact ⟨hb.distinct, hb.released⟩

/-- The call is an approval by the list `a`. -/
def approves (i : PMP.Input) (a : Addr) : Bool :=
  decide (i.sender = a) && match i.call with
    | .approveEvent .. => true
    | _ => false

theorem approves_of_call {k n : ℕ} {tr : Option Addr} (h : i.call = .approveEvent k n tr) :
    approves i a = decide (i.sender = a) := by
  simp [approves, h]

/-- The call returns a message of list `a` to a cancelled market, which repeats its release. -/
def retries (b : Standing) (i : PMP.Input) (a : Addr) : Bool :=
  decide (i.call = .onBounce) && decide (i.sender = a) && b.isCancelled

/-- A transaction gives back no more than was held, the approval or the returned message that it
processes included. -/
theorem Step.holding (hb : b.Sound) (hd : b.destroyed = false) (hn : b.cancels = [])
    (h : b.Step i c) : (c.holds a).toNat + c.cancels.count a ≤
      (b.holds a).toNat + (approves i a).toNat + (b.retries i a).toNat := by
  have hh : b.due a = (b.holds a).toNat := by simp [due, holds, hd, hn]
  have hrel : b.isCancelled = false → b.countReleased = false := by
    intro hc
    rw [← Bool.not_eq_true]
    intro hr
    rcases hb.released hr with h1 | h1
    · rw [hd] at h1
      cases h1
    · rw [hc] at h1
      cases h1
  cases h with
  | winds h =>
    have h1 := h.due (a := a) hb.distinct
    have h2 := holds_le_due (b := c) (a := a)
    omega
  | approved hcall hc hf =>
    refine le_trans ?_ (Nat.le_add_right _ _)
    rw [approves_of_call hcall]
    by_cases ha : i.sender = a
    · subst ha
      simp [holds, open?, hd, hn, hrel hc, hf, confirm, Bool.toNat_le]
    · have h1 : (b.confirm i.sender).confirmed? a = b.confirmed? a := by
        rw [confirmed?_confirm, if_neg (Ne.symm ha)]
      change (!b.destroyed && (decide ((b.confirm i.sender).confirmed? a = some true) &&
        !b.countReleased)).toNat + b.cancels.count a ≤ _
      rw [h1, hn]
      exact Nat.le_add_right _ _
  | mismatched hcall =>
    refine le_trans ?_ (Nat.le_add_right _ _)
    rw [approves_of_call hcall]
    by_cases ha : i.sender = a <;> simp [holds, hn, ha]
  | duplicate hcall hc hf =>
    refine le_trans ?_ (Nat.le_add_right _ _)
    rw [approves_of_call hcall]
    have h1 := count_confirmedLists (b := b.confirm i.sender) (a := a)
      ((keys_confirm b i.sender) ▸ hb.distinct)
    have h2 : ((b.confirm i.sender).cancelLists).cancels.count a =
        (b.confirm i.sender).confirmedLists.count a := by
      simp [cancelLists, confirm, hn]
    have h3 := confirmed?_confirm b i.sender a
    dsimp only [holds]
    rw [h2, h1, h3]
    by_cases ha : i.sender = a
    · subst ha
      simp [hf]
    · simp [Ne.symm ha, ha, open?, hd, hrel hc]
      by_cases hx : b.confirmed? a = some true <;> simp [hx]
  | retried hcall hc =>
    change (b.holds a).toNat + (b.cancels ++ [i.sender]).count a ≤ _
    rw [hn, List.nil_append, List.count_singleton]
    by_cases ha : i.sender = a <;> simp [retries, hcall, hc, ha, approves]

end Standing

open Finset

/-- Stakes the notes hold in one market. -/
abbrev Holdings := Addr → TypedPools

namespace Holdings

/-- A holder gains stakes. -/
def add (H : Holdings) (a : Addr) (f : TypedPools) : Holdings :=
  Function.update H a fun k t => H a k t + f k t

/-- A holder gives stakes up. -/
def sub (H : Holdings) (a : Addr) (f : TypedPools) : Holdings :=
  Function.update H a fun k t => H a k t - f k t

/-- What a callback does to the record of the note it reaches. -/
def settle (i : PMP.Input) (H : Holdings) (m : Addr × PmpCallback) : Holdings :=
  match m.2, i.call with
  | .onInitialStakesAccepted xs, _ => H.add m.1 (cleanOf xs)
  | .onStakeAccepted _ _, .acceptStake k a _ t => H.add m.1 (single k t a)
  | .onStakeCancelled _ _, .cancelStake a d b _ => H.sub m.1 (amountsOf a d b)
  | .onForfeitAccepted, .forfeitStake a d b _ => H.sub m.1 (amountsOf a d b)
  | .onPmpCleanRefund xs _, _ => H.sub m.1 (cleanOf xs)
  | .onSplitAccepted xs _, _ => H.add m.1 (cleanOf xs)
  | .onMergeAccepted _ xs, _ => H.sub m.1 (cleanOf xs)
  | .onClaimAccepted (some _) _ _ _ _, _ => H.sub m.1 (H m.1)
  | _, _ => H

/-- What a transaction does to the holdings. -/
def settleAll (H : Holdings) (i : PMP.Input) (os : Mail) : Holdings := os.foldl (settle i) H

/-- An array of amounts is within a record. -/
def Within (f : TypedPools) (t : BetType) (xs : List ℕ) : Prop := ∀ k < xs.length, xs.getD k 0 ≤ f k t

instance (f : TypedPools) (t : BetType) (xs : List ℕ) : Decidable (Within f t xs) :=
  inferInstanceAs (Decidable (∀ k < xs.length, xs.getD k 0 ≤ f k t))

/-- The amounts a note passes in a call are amounts it holds. -/
def Honest (H : Holdings) : PmpCall → Prop
  | .cancelStake a d b h | .forfeitStake a d b h | .claim a d b h =>
    Within (H (.note h)) .clean a ∧ Within (H (.note h)) .debt d ∧ Within (H (.note h)) .coupon b
  | .mergeFullSet a h => Within (H (.note h)) .clean a
  | _ => True

instance (H : Holdings) : (c : PmpCall) → Decidable (H.Honest c)
  | .cancelStake .. | .forfeitStake .. | .claim .. => inferInstanceAs (Decidable (_ ∧ _ ∧ _))
  | .mergeFullSet .. => inferInstanceAs (Decidable (Within ..))
  | .rejectEvent | .approveEvent .. | .acceptStake .. | .freezeNow | .splitFullSet ..
  | .submitSetTimings .. | .submitResolve .. | .submitCancelEvent .. | .onBounce
  | .confirmRefundReceived .. | .onOrderBookShutdownComplete => .isTrue trivial

end Holdings

/-- A PMP and what the notes hold in its market. -/
structure Custody where
  pmp : PMP
  held : Holdings

namespace Custody

/-- A message to the PMP, or a sale between two holders. -/
inductive Move
  | call (i : PMP.Input)
  | trade (src dst : Addr) (outcome amount : ℕ)

/-- Nobody holds anything when the PMP is deployed. -/
def init (market : MarketId) (depositIdentifierHash : ℕ) (oracleEventLists : List Addr)
    (initialStakes : List ℕ) : Custody :=
  ⟨PMP.init market depositIdentifierHash oracleEventLists initialStakes, fun _ _ _ => 0⟩

/-- A transaction of the PMP, or a sale of clean stakes on the book that the freeze deploys. -/
def step (s : Custody) : Move → Option Custody
  | .call i => do
    guard (s.held.Honest i.call)
    let t ← s.pmp.step i
    return ⟨t, s.held.settleAll i t.sent⟩
  | .trade src dst k amount => do
    guard (s.pmp.frozen ∧ amount ≤ s.held src k .clean)
    return ⟨s.pmp, (s.held.sub src (single k .clean amount)).add dst (single k .clean amount)⟩

end Custody

namespace Holdings

variable {H : Holdings} {a : Addr} {f : TypedPools}

theorem sum_add (H : Holdings) (a : Addr) (f : TypedPools) (S : Finset Addr) (k : ℕ) (t : BetType) :
    ∑ b ∈ S, H.add a f b k t ≤ ∑ b ∈ S, H b k t + f k t := by
  by_cases ha : a ∈ S
  · rw [← add_sum_erase S _ ha, ← add_sum_erase S (fun b => H b k t) ha]
    have h1 : ∑ b ∈ S.erase a, H.add a f b k t = ∑ b ∈ S.erase a, H b k t :=
      sum_congr rfl fun b hb => by simp [add, ne_of_mem_erase hb]
    rw [h1]
    simp only [add, Function.update_self]
    omega
  · have h1 : ∑ b ∈ S, H.add a f b k t = ∑ b ∈ S, H b k t := by
      refine sum_congr rfl fun b hb => ?_
      have hne : b ≠ a := fun h => ha (h ▸ hb)
      simp [add, hne]
    omega

theorem sum_sub (H : Holdings) (a : Addr) (f : TypedPools) (S : Finset Addr) (k : ℕ) (t : BetType) :
    ∑ b ∈ S, H.sub a f b k t + min (f k t) (H a k t) ≤ ∑ b ∈ insert a S, H b k t := by
  have ha : a ∈ insert a S := mem_insert_self a S
  have h1 : ∑ b ∈ S, H.sub a f b k t ≤ ∑ b ∈ insert a S, H.sub a f b k t :=
    sum_le_sum_of_subset (subset_insert a S)
  have h2 : ∑ b ∈ (insert a S).erase a, H.sub a f b k t = ∑ b ∈ (insert a S).erase a, H b k t :=
    sum_congr rfl fun b hb => by simp [sub, ne_of_mem_erase hb]
  rw [← add_sum_erase (insert a S) _ ha, h2] at h1
  rw [← add_sum_erase (insert a S) (fun b => H b k t) ha]
  have h3 : H.sub a f a k t = H a k t - f k t := by simp [sub]
  omega

theorem add_self (H : Holdings) (a : Addr) (f : TypedPools) (k : ℕ) (t : BetType) :
    H.add a f a k t = H a k t + f k t := by simp [add]

theorem le_add (H : Holdings) (a : Addr) (f : TypedPools) (b : Addr) (k : ℕ) (t : BetType) :
    H b k t ≤ H.add a f b k t := by
  by_cases h : b = a
  · rw [h, add_self]
    exact Nat.le_add_right _ _
  · simp [add, h]

theorem Within.le {f : TypedPools} {t : BetType} {xs : List ℕ} (h : Within f t xs) (k : ℕ) :
    xs.getD k 0 ≤ f k t := by
  by_cases hk : k < xs.length
  · exact h k hk
  · simp [Nat.le_of_not_lt hk]

theorem within_amounts {f : TypedPools} {x d b : List ℕ}
    (h : Within f .clean x ∧ Within f .debt d ∧ Within f .coupon b) (k : ℕ) (t : BetType) :
    amountsOf x d b k t ≤ f k t := by
  cases t with
  | clean => exact h.1.le k
  | debt => exact h.2.1.le k
  | coupon => exact h.2.2.le k
  | obSell => exact Nat.zero_le _
  | merge => exact Nat.zero_le _

end Holdings

/-- Every pool covers the stakes the notes hold and those they have forfeited, and until the freeze
the deployer's initial stakes are among them. -/
structure Covered (c : Core) (H : Holdings) : Prop where
  shares : ∀ (S : Finset Addr) k t,
    ∑ a ∈ S, H a k t + c.forfeited k t ≤ c.typedOutcomePools k t
  creator : c.frozen = false → c.isCancelled = false → ∀ g, c.initialStakes.min? = some g →
    ∀ k < c.numOutcomes, g ≤ H c.deployer k .clean + c.creatorForfeitedClean k

namespace Covered

variable {c d : Core} {H : Holdings} {a : Addr} {f : TypedPools} {x y z : ℕ}

theorem init (m : MarketId) (h : ℕ) (xs : List ℕ) :
    Covered (Core.init m h xs) fun _ _ _ => 0 := by
  refine ⟨fun S k t => ?_, fun _ _ g _ k hk => absurd hk (Nat.not_lt_zero k)⟩
  simp [Core.init, Pools.empty]

theorem shares_add (h : Covered c H) (hp : Pools.Shifts c.toPools d.toPools f x y z)
    (hf : d.forfeited = c.forfeited) (S : Finset Addr) (k : ℕ) (t : BetType) :
    ∑ b ∈ S, H.add a f b k t + d.forfeited k t ≤ d.typedOutcomePools k t := by
  have h1 := h.shares S k t
  have h2 := H.sum_add a f S k t
  rw [hf, hp.pools]
  omega

theorem shares_sub (h : Covered c H) (hp : Pools.Shifts d.toPools c.toPools f x y z)
    (hle : ∀ k t, f k t ≤ H a k t) (hf : d.forfeited = c.forfeited) (S : Finset Addr) (k : ℕ)
    (t : BetType) :
    ∑ b ∈ S, H.sub a f b k t + d.forfeited k t ≤ d.typedOutcomePools k t := by
  have h1 := h.shares (insert a S) k t
  have h2 := H.sum_sub a f S k t
  have h3 := hp.pools k t
  have h4 := hle k t
  rw [hf]
  omega

theorem cancel (h : Covered c H) : Covered c.cancel H :=
  ⟨h.shares, fun _ hc => by cases hc⟩

theorem setTimings (h : Covered c H) (st rs : ℕ) : Covered (c.setTimings st rs) H :=
  ⟨h.shares, h.creator⟩

theorem setBookDone (h : Covered c H) : Covered c.setBookDone H := ⟨h.shares, h.creator⟩

theorem clearRefund (h : Covered c H) : Covered c.clearRefund H := ⟨h.shares, h.creator⟩

/-- A sale leaves the sums of the holdings. -/
theorem trade (h : Covered c H) (hf : c.frozen = true) {src dst : Addr} {k n : ℕ}
    (hle : n ≤ H src k .clean) :
    Covered c ((H.sub src (single k .clean n)).add dst (single k .clean n)) := by
  refine ⟨fun S i t => ?_, fun h0 => ?_⟩
  · have h1 := h.shares (insert src S) i t
    have h2 := H.sum_sub src (single k .clean n) S i t
    have h3 := (H.sub src (single k .clean n)).sum_add dst (single k .clean n) S i t
    have h4 : single k .clean n i t ≤ H src i t := by
      unfold single
      split_ifs with hi
      · rw [hi.1, hi.2]
        exact hle
      · exact Nat.zero_le _
    omega
  · rw [hf] at h0
    cases h0

/-- A forfeited stake moves from a record to the forfeited figures. -/
theorem forfeit (h : Covered c H) {n : ℕ} {u d b : List ℕ}
    (hle : ∀ k t, amountsOf u d b k t ≤ H (.note n) k t) :
    Covered (c.setPools (c.toPools.forfeit (decide (Addr.note n = c.deployer)) u d b))
      (H.sub (.note n) (amountsOf u d b)) := by
  refine ⟨fun S k t => ?_, fun hf hc g hg k hk => ?_⟩
  · have h1 := h.shares (insert (.note n) S) k t
    have h2 := H.sum_sub (.note n) (amountsOf u d b) S k t
    have h3 := hle k t
    have h4 : (c.toPools.forfeit (decide (Addr.note n = c.deployer)) u d b).forfeited k t =
        c.forfeited k t + amountsOf u d b k t := by
      simp only [Pools.forfeit, TypedPools.credit_apply]
      cases t <;> simp [amountsOf]
    simp only [Core.setPools_toPools, h4]
    have h5 : (c.toPools.forfeit (decide (Addr.note n = c.deployer)) u d b).typedOutcomePools k t =
        c.typedOutcomePools k t := rfl
    omega
  · have h1 := h.creator hf hc g hg k hk
    have h2 : u.getD k 0 ≤ H (.note n) k .clean := hle k .clean
    simp only [Core.setPools_toPools, Core.setPools_deployer, Pools.forfeit]
    by_cases hd : Addr.note n = c.deployer
    · have h3 : (H.sub (.note n) (amountsOf u d b)) c.deployer k .clean =
          H c.deployer k .clean - u.getD k 0 := by
        rw [← hd]
        simp [Holdings.sub, amountsOf]
      rw [hd] at h2
      rw [h3]
      simp only [hd, decide_true, if_true]
      omega
    · have h3 : (H.sub (.note n) (amountsOf u d b)) c.deployer k .clean =
          H c.deployer k .clean := by
        simp [Holdings.sub, Ne.symm hd]
      simp only [h3, hd, decide_false]
      omega

/-- The normalization takes no more off a pool than off the deployer's stakes, held or
forfeited. -/
theorem freeze (h : Covered c H) (hs : c.Sound) {g paid : ℕ} {p : Pools} (h0 : c.frozen = false)
    (hc : c.isCancelled = false) (hg : c.initialStakes.min? = some g) (hpos : 0 < g)
    (hp : c.toPools.normalize c.numOutcomes g = some (p, paid)) :
    Covered (c.freeze g p) (H.sub c.deployer (cleanOf (c.toPools.refundAmounts c.numOutcomes g))) := by
  obtain ⟨-, hsh, hforf, -⟩ := Pools.normalize_shifts (hs.balanced (hs.unresolved h0)) hp
  have hfr : (c.freeze g p).frozen = true := rfl
  refine ⟨fun S k t => ?_, fun h1 => by cases hfr.symm.trans h1⟩
  have h1 := h.shares (insert c.deployer S) k t
  have h2 := H.sum_sub c.deployer (cleanOf (c.toPools.refundAmounts c.numOutcomes g)) S k t
  have h3 := hsh.pools k t
  have h4 := hforf k t
  have h5 := hs.creator k
  change _ + p.forfeited k t ≤ p.typedOutcomePools k t
  by_cases ht : t = .clean
  · subst ht
    have h6 : cleanOf (c.toPools.refundAmounts c.numOutcomes g) k .clean =
        c.toPools.remainder c.numOutcomes g k := by
      simp only [cleanOf, amountsOf, Pools.refundAmounts, getD_map_range]
      split_ifs with hk
      · rfl
      · simp [Pools.remainder, hk]
    have h7 : c.toPools.trimmed c.numOutcomes g k .clean =
        c.toPools.remainder c.numOutcomes g k := rfl
    rw [h6] at h2
    rw [h7] at h3
    rw [if_pos rfl] at h4
    unfold Pools.cut at h4
    by_cases hk : k < c.numOutcomes
    · have h8 := h.creator h0 hc g hg k hk
      have h9 : c.toPools.remainder c.numOutcomes g k < g := by
        rw [Pools.remainder, if_pos hk]
        exact Nat.mod_lt _ hpos
      split_ifs at h4 <;> omega
    · have h9 : c.toPools.remainder c.numOutcomes g k = 0 := by simp [Pools.remainder, hk]
      rw [h9] at h2 h3 h4
      split_ifs at h4 <;> omega
  · have h7 : c.toPools.trimmed c.numOutcomes g k t = 0 := if_neg ht
    rw [if_neg ht] at h4
    omega

end Covered

namespace Holdings

theorem settleAll_append (H : Holdings) (i : PMP.Input) (os os' : Mail) :
    H.settleAll i (os ++ os') = (H.settleAll i os).settleAll i os' := List.foldl_append

theorem sub_zero (H : Holdings) (a : Addr) {f : TypedPools} (h : ∀ k t, f k t = 0) :
    H.sub a f = H := by
  unfold sub
  simp [h]

end Holdings

namespace MaybeFreeze

variable {c d : Core} {os : Mail} {H : Holdings}

theorem covered (h : MaybeFreeze c os d) (hs : c.Sound) (hH : Covered c H) (i : PMP.Input) :
    Covered d (H.settleAll i os) := by
  cases h with
  | skip => exact hH
  | freeze g paid p h0 ha hc hg hpos hp =>
    have h1 := hH.freeze hs h0 hc hg hpos hp
    unfold Core.refundMail
    split_ifs with hr
    · exact h1
    · have h2 : ∀ k t, cleanOf (c.toPools.refundAmounts c.numOutcomes g) k t = 0 := by
        intro k t
        have h3 : ∀ x ∈ c.toPools.refundAmounts c.numOutcomes g, x = 0 :=
          List.sum_eq_zero_iff.mp (Nat.eq_zero_of_not_pos hr)
        cases t with
        | clean =>
          by_cases hk : k < (c.toPools.refundAmounts c.numOutcomes g).length
          · have h4 := h3 _ (List.getElem_mem hk)
            simpa [cleanOf, amountsOf, hk] using h4
          · simp [cleanOf, amountsOf, Nat.le_of_not_lt hk]
        | debt | coupon | obSell | merge => simp [cleanOf, amountsOf]
      rwa [H.sub_zero c.deployer h2] at h1

end MaybeFreeze

namespace Effect

variable {c d : Core} {os : Mail} {i : PMP.Input} {H : Holdings}

/-- The pools keep covering the records of the notes. -/
theorem covered (h : Effect c i os d) (hs : c.Sound) (hd : d.destroyed = false)
    (hu : d.resolvedOutcome = none) (hH : Covered c H) (hon : H.Honest i.call) :
    Covered d (H.settleAll i os) := by
  have huc := h.unresolved hu
  cases h with
  | idle => exact hH
  | abort => cases hd
  | opened p ha hpos hp =>
    obtain ⟨hsh, -, h1, h2⟩ := Pools.mintSets_shifts rfl hp
    change Covered _ (H.add c.deployer (cleanOf c.initialStakes))
    refine ⟨hH.shares_add (d := c.openWith p) hsh h1, fun hf hc g hg k hk => ?_⟩
    have hk' : k < c.initialStakes.length := hk
    have h3 : g ≤ c.initialStakes.getD k 0 := by
      simpa [hk'] using (List.min?_eq_some_iff.mp hg).2 _ (List.getElem_mem hk')
    have h4 := H.add_self c.deployer (cleanOf c.initialStakes) k .clean
    exact h3.trans ((Nat.le_add_left _ _).trans (h4.ge.trans (Nat.le_add_right _ _)))
  | openedAbort => cases hd
  | timings st rs os d hu hf => exact hf.covered (hs.setTimings st rs) (hH.setTimings st rs) i
  | cancelled => exact hH.cancel
  | stake k a h t p hcall hsend ha hc hu hk hf ht hcr hp =>
    obtain ⟨hsh, -, h1, h2⟩ := Pools.creditStake_shifts (hs.balanced hu) ht hp
    have h3 : H.settleAll i [(.note h, .onStakeAccepted c.numOutcomes t)] =
        H.add (.note h) (single k t a) := by
      simp [Holdings.settleAll, Holdings.settle, hcall]
    rw [h3]
    refine ⟨hH.shares_add (d := c.setPools p) hsh h1, fun hf hc g hg k' hk' => ?_⟩
    have h4 := hH.creator hf hc g hg k' hk'
    have h5 := H.le_add (.note h) (single k t a) c.deployer k' .clean
    simp only [Core.setPools_toPools, Core.setPools_deployer, h2]
    omega
  | refund a d b h e p hcall hsend he hc hb hn hp =>
    have hue : e.resolvedOutcome = none := by
      rcases he with rfl | ⟨-, -, rfl⟩ <;> exact huc
    have heH : Covered e H := by
      rcases he with rfl | ⟨-, -, rfl⟩
      · exact hH
      · exact hH.cancel
    have hle := Holdings.within_amounts (by simpa [Holdings.Honest, hcall] using hon)
    obtain ⟨h1, -⟩ := Pools.debitStakes_forfeited hp
    obtain ⟨hcl, hsh⟩ := Pools.debitStakes_shifts ((cancel_sound hs he).balanced hue) hp
    rw [(Core.closeCancelled_closes _).live hd, hcl]
    have h3 : H.settleAll i [(.note h, .onStakeCancelled (a.sum + d.sum) b.sum)] =
        H.sub (.note h) (amountsOf a d b) := by
      simp [Holdings.settleAll, Holdings.settle, hcall]
    rw [h3]
    refine ⟨heH.shares_sub (d := e.setPools (p.payOut (a.sum + d.sum))) hsh hle h1, fun _ h4 => ?_⟩
    rw [Core.setPools_isCancelled, hc] at h4
    cases h4
  | frozenNow os d hf => exact hf.covered hs hH i
  | split f h os e p hcall hsend hf hfr hu hc hn hq hp =>
    have heH := hf.covered hs hH i
    obtain ⟨hsh, -, h1, -⟩ := Core.mint_shifts (hf.sound hs) hp
    rw [Holdings.settleAll_append]
    exact ⟨heH.shares_add (d := e.setPools p) hsh h1, fun h2 => by cases hfr.symm.trans h2⟩
  | merge a h n paid os e p hcall hsend hf hfr hu hc hn hl hz ht hp =>
    have heH := hf.covered hs hH i
    obtain ⟨-, hsh, h1, -⟩ := Core.burn_shifts (hf.sound hs) hu hp
    rw [hf.silent hn] at heH ⊢
    refine ⟨heH.shares_sub (d := e.setPools p) hsh (fun k t => ?_) h1, fun h2 => by
      cases hfr.symm.trans h2⟩
    have hw : Holdings.Within (H (.note h)) .clean a := by simpa [Holdings.Honest, hcall] using hon
    cases t with
    | clean =>
      simp only [cleanOf, amountsOf, Basket.amounts, getD_map_range]
      split_ifs with hk
      · rw [ht]
        exact (Basket.wholeSets_le _ _ a hk).trans (hw.le k)
      · exact Nat.zero_le _
    | debt | coupon | obSell | merge => simp [cleanOf, amountsOf]
  | resolved k os e => exact absurd hu (e.resolve_resolved k)
  | claimNone => exact hH
  | claimRefund a d b h hcall hsend hdone hm hr =>
    rw [huc] at hr
    cases hr
  | claimWin a d b h k q hcall hsend hdone hm hr =>
    rw [huc] at hr
    cases hr
  | forfeit a d b h e hcall hsend he =>
    have hle := Holdings.within_amounts (by simpa [Holdings.Honest, hcall] using hon)
    have h3 : H.settleAll i [(.note h, .onForfeitAccepted)] =
        H.sub (.note h) (amountsOf a d b) := by
      simp [Holdings.settleAll, Holdings.settle, hcall]
    rw [(Core.tryClose_closes _).live hd, h3, he]
    exact hH.forfeit hle
  | refundReceived => exact hH.clearRefund
  | bookDone =>
    rw [(Core.tryClose_closes _).live hd]
    exact hH.setBookDone

end Effect

namespace Custody

variable {s t : Custody} {m : Move}

/-- What every reachable custody satisfies. -/
structure Inv (s : Custody) : Prop where
  pmp : s.pmp.Inv
  covered : s.pmp.destroyed = false → s.pmp.resolvedOutcome = none →
    Covered s.pmp.toCore s.held

theorem init_inv (m : MarketId) (h : ℕ) (ls : List Addr) (xs : List ℕ) :
    (Custody.init m h ls xs).Inv :=
  ⟨PMP.init_inv m h ls xs, fun _ _ => Covered.init m h xs⟩

/-- Every move keeps the custody sound. -/
theorem Inv.step (hs : s.Inv) (h : s.step m = some t) : t.Inv := by
  cases m with
  | call =>
    simp only [Custody.step, bind_iff, pure_iff] at h
    obtain ⟨hon, p, hp, rfl⟩ := h
    obtain ⟨h1, h2⟩ := hs.pmp.effect hp
    refine ⟨hs.pmp.step hp, fun hd hu => ?_⟩
    exact h2.covered h1 hd hu (hs.covered (PMP.step_live hp) (h2.unresolved hu)) hon
  | trade =>
    simp only [Custody.step, bind_iff, pure_iff] at h
    obtain ⟨⟨hf, hle⟩, rfl⟩ := h
    exact ⟨hs.pmp, fun hd hu => (hs.covered hd hu).trade hf hle⟩

variable {market : MarketId} {depositIdentifierHash : ℕ} {oracleEventLists : List Addr}
  {initialStakes : List ℕ} {tr : List (Move × Custody)}

theorem run_inv (h : Run step (init market depositIdentifierHash oracleEventLists initialStakes) tr s) :
    s.Inv :=
  h.state_invariant Inv (init_inv ..) fun _ _ _ => Inv.step

theorem Inv.held_le (hs : s.Inv) (hd : s.pmp.destroyed = false) (hu : s.pmp.resolvedOutcome = none)
    (a : Addr) (k : ℕ) (t : BetType) : s.held a k t ≤ s.pmp.typedOutcomePools k t := by
  have h := (hs.covered hd hu).shares {a} k t
  rw [sum_singleton] at h
  omega

/-- Before the resolution the totals are the sums of the pools and equal the collateral held, every
clamped payment is made in full, and no subtraction from a pool underflows. -/
theorem solvent_until_resolved
    (h : Run step (init market depositIdentifierHash oracleEventLists initialStakes) tr s)
    (hd : s.pmp.destroyed = false) (hu : s.pmp.resolvedOutcome = none) :
    s.pmp.toPools.Balanced s.pmp.numOutcomes ∧
      (∀ i t, s.pmp.step i = some t → ∀ m ∈ t.sent, Unclamped i m.2) ∧
      (∀ x d b n, s.held.Honest (.cancelStake x d b n) →
        (s.pmp.toPools.debitStakes x d b).isSome = true) ∧
      (∀ g, (s.pmp.toPools.normalize s.pmp.numOutcomes g).isSome = true) ∧
      (∀ k, s.pmp.creatorForfeitedClean k ≤ s.pmp.forfeited k .clean) ∧
      ∀ x, (∀ k, x.getD k 0 ≤ s.pmp.typedOutcomePools k .clean) →
        (s.pmp.toPools.burnSets x x.sum).isSome = true := by
  have hs := run_inv h
  have hbal := (hs.pmp.sound hd).balanced hu
  refine ⟨hbal, fun i t ht => ?_, fun x d b n hon => ?_, Pools.normalize_isSome hbal,
    (hs.pmp.sound hd).creator, fun x hx => Pools.burnSets_isSome hbal hx⟩
  · obtain ⟨h1, h2⟩ := hs.pmp.effect ht
    exact h2.unclamped h1 hu
  · refine Pools.debitStakes_isSome hbal fun k t => ?_
    exact (Holdings.within_amounts hon k t).trans (hs.held_le hd hu (.note n) k t)

/-- A market is approved, staked in, frozen, split, traded, merged and cancelled. -/
def sampleMoves : List Move :=
  [.call ⟨.ext 1, 10, .approveEvent 5 2 none⟩,
    .call ⟨.ext 0, 10, .submitSetTimings (.external 5) 1010⟩,
    .call ⟨.note 8, 20, .acceptStake 0 25 8 .clean⟩,
    .call ⟨.note 9, 30, .acceptStake 1 10 9 .debt⟩,
    .call ⟨.note 7, 40, .forfeitStake [0, 5] [] [] 7⟩,
    .call ⟨.ext 0, 120, .freezeNow⟩,
    .call ⟨.note 7, 125, .confirmRefundReceived 7⟩,
    .call ⟨.note 9, 130, .splitFullSet 10 9⟩,
    .trade (.note 8) (.note 9) 0 10,
    .call ⟨.note 9, 140, .mergeFullSet [3, 3] 9⟩,
    .call ⟨.ext 0, 150, .submitCancelEvent (.external 5)⟩]

def sampleStart : Custody := init ⟨1, 2, 3⟩ 7 [.ext 1] [30, 50]

def sampleTrace : List (Move × Custody) := Run.trace step sampleStart sampleMoves

def sampleEnd : Custody := Run.last sampleStart sampleTrace

theorem sample_run : Run step (init ⟨1, 2, 3⟩ 7 [.ext 1] [30, 50]) sampleTrace sampleEnd :=
  Run.trace_run step sampleStart sampleMoves

theorem solvent_until_resolved_sample :
    sampleTrace.length = 11 ∧ sampleEnd.pmp.totalPool = 74 ∧
      sampleEnd.pmp.toPools.Balanced sampleEnd.pmp.numOutcomes :=
  ⟨by decide +kernel, by decide +kernel,
    (solvent_until_resolved sample_run (by decide +kernel) (by decide +kernel)).1⟩

end Custody

end Dexdo
