import Dexdo.Indexer.Follow

namespace Dexdo

namespace ReadModel

namespace InferenceDeal

/-- The row has taken over an event of this chain order or a later one. -/
def seen (d : InferenceDeal) (k : ℕ) : Prop := ∃ last ∈ d.lastChainOrder, k ≤ last

/-- A column that takes over a time has one where that time is known. -/
def times (column at' : Option ℕ) : Prop := at'.isSome → column.isSome

/-- What a row holds once it has taken over an event of its deal. -/
def took (d : InferenceDeal) (k : ℕ) (at' : Option ℕ) : DealEvent → Prop
  | .streamFunded .. =>
    d.buyerNote.isSome ∧ d.deposit.isSome ∧ times d.fundedAtChain at' ∧ d.seen k
  | .streamOpened .. => d.buyerNote.isSome ∧ d.pricePerTick.isSome ∧ times d.openedAtChain at'
  | .ticksClaimed trusted claimed =>
    (∃ x ∈ d.trustedTicks, trusted ≤ x) ∧ (∃ x ∈ d.claimedTicks, claimed ≤ x) ∧ d.seen k
  | .streamDisputed .. => times d.disputedAtChain at' ∧ d.cleanSettlement = some false
  | .streamStopped .. | .disputeResolved .. =>
    times d.settledAtChain at' ∧ d.closeKind.isSome ∧ d.cleanSettlement.isSome
  | .probeBurned .. | .contractDestroyed => times d.settledAtChain at' ∧ d.closeKind.isSome
  | _ => True

/-- A row that only gains. -/
structure Gains (d d' : InferenceDeal) : Prop where
  book : d.orderbookAddress.isSome → d'.orderbookAddress.isSome
  seller : d.sellerNote.isSome → d'.sellerNote.isSome
  buyer : d.buyerNote.isSome → d'.buyerNote.isSome
  deposit : d.deposit.isSome → d'.deposit.isSome
  price : d.pricePerTick.isSome → d'.pricePerTick.isSome
  trusted : ∀ x ∈ d.trustedTicks, ∃ y ∈ d'.trustedTicks, x ≤ y
  claimed : ∀ x ∈ d.claimedTicks, ∃ y ∈ d'.claimedTicks, x ≤ y
  fundedAt : d.fundedAtChain.isSome → d'.fundedAtChain.isSome
  openedAt : d.openedAtChain.isSome → d'.openedAtChain.isSome
  settledAt : d.settledAtChain.isSome → d'.settledAtChain.isSome
  disputedAt : d.disputedAtChain.isSome → d'.disputedAtChain.isSome
  closeKind : d.closeKind.isSome → d'.closeKind.isSome
  clean : d.cleanSettlement.isSome → d'.cleanSettlement.isSome
  unclean : d.cleanSettlement = some false → d'.cleanSettlement = some false
  last : ∀ x ∈ d.lastChainOrder, ∃ y ∈ d'.lastChainOrder, x ≤ y

variable {d d' : InferenceDeal} {k : ℕ} {at' : Option ℕ}

theorem Gains.refl (d : InferenceDeal) : Gains d d :=
  ⟨id, id, id, id, id, fun x hx => ⟨x, hx, le_rfl⟩, fun x hx => ⟨x, hx, le_rfl⟩, id, id, id, id, id,
    id, id, fun x hx => ⟨x, hx, le_rfl⟩⟩

theorem Gains.seen (h : Gains d d') (hs : d.seen k) : d'.seen k := by
  obtain ⟨last, hl, hk⟩ := hs
  obtain ⟨y, hy, hle⟩ := h.last last hl
  exact ⟨y, hy, hk.trans hle⟩

theorem Gains.took (h : Gains d d') {e : DealEvent} (ht : d.took k at' e) : d'.took k at' e := by
  cases e with
  | streamFunded =>
    obtain ⟨h1, h2, h3, h4⟩ := ht
    exact ⟨h.buyer h1, h.deposit h2, fun ha => h.fundedAt (h3 ha), h.seen h4⟩
  | streamOpened =>
    obtain ⟨h1, h2, h3⟩ := ht
    exact ⟨h.buyer h1, h.price h2, fun ha => h.openedAt (h3 ha)⟩
  | ticksClaimed =>
    obtain ⟨⟨x, hx, hxle⟩, ⟨y, hy, hyle⟩, h3⟩ := ht
    obtain ⟨x', hx', hle⟩ := h.trusted x hx
    obtain ⟨y', hy', hle'⟩ := h.claimed y hy
    exact ⟨⟨x', hx', hxle.trans hle⟩, ⟨y', hy', hyle.trans hle'⟩, h.seen h3⟩
  | streamDisputed => exact ⟨fun ha => h.disputedAt (ht.1 ha), h.unclean ht.2⟩
  | streamStopped => exact ⟨fun ha => h.settledAt (ht.1 ha), h.closeKind ht.2.1, h.clean ht.2.2⟩
  | disputeResolved => exact ⟨fun ha => h.settledAt (ht.1 ha), h.closeKind ht.2.1, h.clean ht.2.2⟩
  | probeBurned => exact ⟨fun ha => h.settledAt (ht.1 ha), h.closeKind ht.2⟩
  | contractDestroyed => exact ⟨fun ha => h.settledAt (ht.1 ha), h.closeKind ht.2⟩
  | _ => trivial

theorem le_greatest (x : Option ℕ) (n : ℕ) : (∃ y ∈ greatest x (some n), n ≤ y) ∧
    ∀ z ∈ x, ∃ y ∈ greatest x (some n), z ≤ y := by
  cases x with
  | none => exact ⟨⟨n, rfl, le_rfl⟩, by rintro z ⟨⟩⟩
  | some w =>
    refine ⟨⟨_, rfl, le_max_right w n⟩, ?_⟩
    rintro z ⟨⟩
    exact ⟨_, rfl, le_max_left w n⟩

theorem isSome_or {α : Type} {x y : Option α} (h : x.isSome) : (x.or y).isSome := by
  cases x with
  | none => cases h
  | some => rfl

theorem times_or (x : Option ℕ) (at' : Option ℕ) : times (x.or at') at' := by
  cases x with
  | none => exact id
  | some => exact fun _ => rfl

variable (d) (node : EventNode)

theorem funded_gains (buyer : Addr) (deposit : ℕ) : Gains d (d.funded buyer deposit node) :=
  { Gains.refl d with
    buyer := isSome_or
    deposit := isSome_or
    fundedAt := isSome_or
    last := (le_greatest d.lastChainOrder node.chainOrder).2 }

theorem opened_gains (buyer : Addr) (price : ℕ) : Gains d (d.opened buyer price node) :=
  { Gains.refl d with
    buyer := isSome_or
    price := isSome_or
    openedAt := isSome_or }

theorem claimed_gains (trusted claimed : ℕ) : Gains d (d.claimed trusted claimed node) :=
  { Gains.refl d with
    trusted := fun x hx => ⟨_, rfl, by rw [Option.mem_def.mp hx]; exact le_max_left ..⟩
    claimed := fun x hx => ⟨_, rfl, by rw [Option.mem_def.mp hx]; exact le_max_left ..⟩
    last := (le_greatest d.lastChainOrder node.chainOrder).2 }

theorem closed_gains (kind : CloseKind) (clean : Bool) : Gains d (d.closed kind clean node) :=
  { Gains.refl d with
    settledAt := isSome_or
    closeKind := isSome_or
    clean := isSome_or
    unclean := fun h => by simp [closed, h] }

theorem disputed_gains : Gains d (d.disputed node) :=
  { Gains.refl d with
    disputedAt := isSome_or
    clean := fun _ => rfl
    unclean := fun _ => rfl }

theorem terminallyClosed_gains (kind : CloseKind) : Gains d (d.terminallyClosed kind node) :=
  { Gains.refl d with
    settledAt := isSome_or
    closeKind := isSome_or }

end InferenceDeal

namespace DealRecord

variable {r r' : DealRecord} {k n : ℕ} {at' : Option ℕ} {tc : Addr}

/-- A record that only gains. -/
structure Gains (r r' : DealRecord) : Prop where
  row : ∀ d ∈ r.row, ∃ d' ∈ r'.row, d.Gains d'
  ticks : ∀ t ∈ r.ticks, t ∈ r'.ticks

theorem Gains.refl (r : DealRecord) : Gains r r := ⟨fun d hd => ⟨d, hd, .refl d⟩, fun _ => id⟩

theorem seeded_gains (r : DealRecord) : Gains r r.seeded := by
  refine ⟨fun d hd => ⟨d, ?_, .refl d⟩, fun _ => id⟩
  unfold seeded
  rw [Option.mem_def.mp hd]
  rfl

theorem map_gains {d : InferenceDeal} (hd : r.seeded.row = some d) {f : InferenceDeal → InferenceDeal}
    (hf : d.Gains (f d)) : Gains r (r.seeded.map f) := by
  refine ⟨fun x hx => ⟨f d, congrArg (Option.map f) hd, ?_⟩, fun _ => id⟩
  obtain ⟨y, hy, -⟩ := r.seeded_gains.row x hx
  have hxd : x = d := by
    unfold seeded at hd
    rw [Option.mem_def.mp hx] at hd
    exact Option.some.inj hd
  rw [hxd]
  exact hf

/-- The record holds what an event of its deal told. -/
def took (r : DealRecord) (k : ℕ) (at' : Option ℕ) (e : DealEvent) : Prop :=
  (∃ d ∈ r.row, d.took k at' e) ∧
    match e with
    | .tickFinalized .. => ∃ t ∈ r.ticks, t.chainOrder = k
    | _ => True

theorem Gains.took (h : Gains r r') {e : DealEvent} (ht : r.took k at' e) : r'.took k at' e := by
  obtain ⟨⟨d, hd, htook⟩, htick⟩ := ht
  obtain ⟨d', hd', hg⟩ := h.row d hd
  refine ⟨⟨d', hd', hg.took htook⟩, ?_⟩
  cases e with
  | tickFinalized =>
    obtain ⟨t, ht, hk⟩ := htick
    exact ⟨t, h.ticks t ht, hk⟩
  | _ => trivial

section Told

variable {c : Cycle} {e : DealEvent}

open InferenceDeal in
/-- What the deal tells only adds to its record, and is in it from then on. -/
theorem told_gains (tc : Addr) (at' : Option ℕ) (h : Shown r n c) (he : c.admits e) :
    Gains r (r.told ⟨tc, n, at'⟩ e.logged) ∧ (r.told ⟨tc, n, at'⟩ e.logged).took n at' e := by
  obtain ⟨hs, d, hd, hdc⟩ := h.seeded
  have hmap : ∀ f : InferenceDeal → InferenceDeal, f d ∈ (r.seeded.map f).row := by
    intro f
    exact congrArg (Option.map f) hd
  cases e with
  | streamFunded buyer deposit =>
    change Gains r ((r.seeded.endCycle n).map _) ∧ ((r.seeded.endCycle n).map _).took _ _ _
    rw [hs.endCycle_unfunded he.2.1]
    refine ⟨map_gains hd (funded_gains ..), ⟨_, hmap _, ?_, ?_, times_or _ _, ?_⟩, trivial⟩
    · change (d.buyerNote.or (some buyer)).isSome
      cases d.buyerNote <;> rfl
    · change (d.deposit.or (some deposit)).isSome
      cases d.deposit <;> rfl
    · exact (le_greatest d.lastChainOrder n).1
  | streamOpened buyer price =>
    refine ⟨map_gains hd (opened_gains ..), ⟨_, hmap _, ?_, ?_, times_or _ _⟩, trivial⟩
    · change (d.buyerNote.or (some buyer)).isSome
      cases d.buyerNote <;> rfl
    · change (d.pricePerTick.or (some price)).isSome
      cases d.pricePerTick <;> rfl
  | ticksClaimed =>
    refine ⟨map_gains hd (claimed_gains ..), ⟨_, hmap _, ⟨_, rfl, le_max_right ..⟩,
      ⟨_, rfl, le_max_right ..⟩, ?_⟩, trivial⟩
    exact (le_greatest d.lastChainOrder n).1
  | tickFinalized =>
    change Gains r (r.seeded.finalized _ _ _) ∧ (r.seeded.finalized _ _ _).took _ _ _
    have hnew : ¬ ∃ t ∈ r.seeded.ticks, t.chainOrder = n := by
      rintro ⟨t, ht, heq⟩
      exact absurd heq (hs.tickSeen t ht).ne
    unfold finalized
    rw [if_neg hnew]
    refine ⟨⟨?_, fun t ht => List.mem_append_left _ ht⟩, ⟨_, hmap _, trivial⟩, ?_⟩
    · exact (map_gains hd (f := fun d => { d with finalizedTicks := d.finalizedTicks + 1 })
        { InferenceDeal.Gains.refl d with }).row
    · exact ⟨_, List.mem_append_right _ (List.mem_singleton_self _), rfl⟩
  | streamDisputed =>
    exact ⟨map_gains hd (disputed_gains ..), ⟨_, hmap _, times_or _ _, rfl⟩, trivial⟩
  | streamStopped =>
    refine ⟨map_gains hd (closed_gains ..), ⟨_, hmap _, times_or _ _, ?_, ?_⟩, trivial⟩
    · change (d.closeKind.or (some .STOPPED)).isSome
      cases d.closeKind <;> rfl
    · change (d.cleanSettlement.or (some true)).isSome
      cases d.cleanSettlement <;> rfl
  | disputeResolved =>
    refine ⟨map_gains hd (closed_gains ..), ⟨_, hmap _, times_or _ _, ?_, ?_⟩, trivial⟩
    · change (d.closeKind.or (some .DISPUTE_RESOLVED)).isSome
      cases d.closeKind <;> rfl
    · change (d.cleanSettlement.or (some false)).isSome
      cases d.cleanSettlement <;> rfl
  | probeBurned =>
    refine ⟨map_gains hd (terminallyClosed_gains ..), ⟨_, hmap _, times_or _ _, ?_⟩, trivial⟩
    change (d.closeKind.or (some .PROBE_BURNED)).isSome
    cases d.closeKind <;> rfl
  | contractDestroyed =>
    refine ⟨map_gains hd (terminallyClosed_gains ..), ⟨_, hmap _, times_or _ _, ?_⟩, trivial⟩
    change (d.closeKind.or (some .DESTROYED)).isSome
    cases d.closeKind <;> rfl
  | _ => exact ⟨r.seeded_gains, ⟨d, hd, trivial⟩, trivial⟩

theorem or_eq {α : Type} {x y : Option α} (h : x.isSome) : x.or y = x := by
  cases x with
  | none => cases h
  | some => rfl

theorem or_time {x : Option ℕ} (h : InferenceDeal.times x at') : x.or at' = x := by
  cases x with
  | some => rfl
  | none =>
    cases at' with
    | none => rfl
    | some => exact absurd (h rfl) (by decide)

theorem greatest_seen {d : InferenceDeal} (h : d.seen k) :
    greatest d.lastChainOrder (some k) = d.lastChainOrder := by
  obtain ⟨last, hl, hk⟩ := h
  rw [Option.mem_def.mp hl]
  exact congrArg some (max_eq_left hk)

theorem max_known {x : Option ℕ} {y : ℕ} (h : ∃ z ∈ x, y ≤ z) : some (max (x.getD 0) y) = x := by
  obtain ⟨z, hz, hle⟩ := h
  rw [Option.mem_def.mp hz]
  exact congrArg some (max_eq_left hle)

theorem endCycle_seen {d : InferenceDeal} (hd : r.row = some d) (h : d.seen k) :
    r.endCycle k = r := by
  unfold endCycle
  simp only [hd]
  refine if_neg fun hn => ?_
  obtain ⟨last, hl, hk⟩ := h
  exact absurd (hn.2 last hl) (not_lt.mpr hk)

/-- An event that is in the record already changes nothing. -/
theorem told_took (h : r.took k at' e) : r.told ⟨tc, k, at'⟩ e.logged = r := by
  obtain ⟨row, ticks⟩ := r
  obtain ⟨⟨d, hd, htook⟩, htick⟩ := h
  obtain rfl := Option.mem_def.mp hd
  have hmap : ∀ f : InferenceDeal → InferenceDeal, f d = d →
      (⟨some d, ticks⟩ : DealRecord).seeded.map f = ⟨some d, ticks⟩ := by
    intro f hf
    exact congrArg (fun d => (⟨some d, ticks⟩ : DealRecord)) hf
  cases e with
  | streamFunded =>
    obtain ⟨h1, h2, h3, h4⟩ := htook
    change (DealRecord.endCycle (⟨some d, ticks⟩ : DealRecord) k).map _ = _
    rw [endCycle_seen rfl h4]
    apply hmap
    simp only [InferenceDeal.funded]
    rw [or_eq h1, or_eq h2, or_time h3, greatest_seen h4]
  | streamOpened =>
    obtain ⟨h1, h2, h3⟩ := htook
    apply hmap
    simp only [InferenceDeal.opened]
    rw [or_eq h1, or_eq h2, or_time h3]
  | ticksClaimed =>
    obtain ⟨h1, h2, h3⟩ := htook
    apply hmap
    simp only [InferenceDeal.claimed]
    rw [max_known h1, max_known h2, greatest_seen h3]
  | tickFinalized => exact if_pos htick
  | streamDisputed =>
    obtain ⟨h1, h2⟩ := htook
    apply hmap
    simp only [InferenceDeal.disputed]
    rw [or_time h1, ← h2]
  | streamStopped =>
    obtain ⟨h1, h2, h3⟩ := htook
    apply hmap
    simp only [InferenceDeal.closed]
    rw [or_time h1, or_eq h2, or_eq h3]
  | disputeResolved =>
    obtain ⟨h1, h2, h3⟩ := htook
    apply hmap
    simp only [InferenceDeal.closed]
    rw [or_time h1, or_eq h2, or_eq h3]
  | probeBurned =>
    obtain ⟨h1, h2⟩ := htook
    apply hmap
    simp only [InferenceDeal.terminallyClosed]
    rw [or_time h1, or_eq h2]
  | contractDestroyed =>
    obtain ⟨h1, h2⟩ := htook
    apply hmap
    simp only [InferenceDeal.terminallyClosed]
    rw [or_time h1, or_eq h2]
  | _ => rfl

end Told

section Matched

variable {f : FilledFields} {seller : Option Addr}

/-- The record holds what a fill of the deal's offer told. -/
def tookFill (r : DealRecord) (k : ℕ) : Prop :=
  ∃ d ∈ r.row, d.buyerNote.isSome ∧ d.orderbookAddress.isSome ∧ d.sellerNote.isSome ∧ d.seen k

theorem Gains.tookFill (h : Gains r r') (ht : r.tookFill k) : r'.tookFill k := by
  obtain ⟨d, hd, h1, h2, h3, h4⟩ := ht
  obtain ⟨d', hd', hg⟩ := h.row d hd
  exact ⟨d', hd', hg.buyer h1, hg.book h2, hg.seller h3, hg.seen h4⟩

theorem matched_tookFill (hb : f.buyerNote.isSome) (hs : seller.isSome) :
    (r.matched f seller).tookFill f.chainOrder := by
  refine ⟨_, rfl, ?_, ?_, ?_, ?_⟩
  · simp only [InferenceDeal.linked]
    split
    · exact InferenceDeal.isSome_or hb
    · cases (r.row.getD InferenceDeal.skeleton).buyerNote with
      | none => exact hb
      | some => rfl
  · simp only [InferenceDeal.linked]
    cases (r.row.getD InferenceDeal.skeleton).orderbookAddress <;> rfl
  · simp only [InferenceDeal.linked]
    cases (r.row.getD InferenceDeal.skeleton).sellerNote with
    | none => exact hs
    | some => rfl
  · exact (InferenceDeal.le_greatest _ _).1

theorem matched_took (h : r.tookFill f.chainOrder) : r.matched f seller = r := by
  obtain ⟨row, ticks⟩ := r
  obtain ⟨d, hd, h1, h2, h3, h4⟩ := h
  obtain rfl := Option.mem_def.mp hd
  have hold : ¬ d.isNews f.chainOrder := by
    intro hn
    obtain ⟨last, hl, hk⟩ := h4
    exact absurd (hn last hl) (not_lt.mpr hk)
  have hlinked : d.linked f seller = d := by
    simp only [InferenceDeal.linked]
    rw [or_eq h2, or_eq h3, if_neg hold, or_eq h1, greatest_seen h4]
  exact congrArg (fun d => (⟨some d, ticks⟩ : DealRecord)) hlinked

end Matched

/-- The record has seen an event of this chain order or a later one. -/
def seen (r : DealRecord) (k : ℕ) : Prop := ∃ d ∈ r.row, d.seen k

theorem Gains.recordSeen (h : Gains r r') (hs : r.seen k) : r'.seen k := by
  obtain ⟨d, hd, hk⟩ := hs
  obtain ⟨d', hd', hg⟩ := h.row d hd
  exact ⟨d', hd', hg.seen hk⟩

end DealRecord

/-- Events that their projection writes to the row or to the ticks of a deal. -/
def isRecorded : DealEvent → Bool
  | .sellerBondFunded _ | .buyerBondFunded _ | .endpointSet _ | .probeAccepted ..
  | .shellWithdrawn .. => false
  | _ => true

section Log

variable (tc : Addr) (stamp : ℕ → Option ℕ) (log : List Entry) (k : ℕ)

/-- Entry `k` belongs to the cycle that is current at the end of the log. -/
def ofCurrent : Prop :=
  (story stamp (log.take (k + 1))).cycles = (story stamp log).cycles ∧
    (story stamp log).cycle.buyer.isSome

instance : Decidable (ofCurrent stamp log k) := inferInstanceAs (Decidable (_ ∧ _))

/-- Events whose replay is safe: those of the current cycle, and those that only mark a cycle's
end or that no column of the record takes over. -/
def Replayable : Entry → Prop
  | .told e => isRecorded e = true → ofCurrent stamp log k
  | .filled .. => ofCurrent stamp log k
  | _ => True

/-- What the record still knows of entry `k`. -/
def Remembers (r : DealRecord) : Entry → Prop
  | .deployed => r.row.isSome
  | .told e => r.row.isSome ∧ (ofCurrent stamp log k → r.took k (stamp k) e)
  | .filled .. => ofCurrent stamp log k → r.tookFill k
  | .offered .. => (story stamp log).cycle.deposit.isSome → r.seen k
  | .closed .. => (story stamp log).cycle.isLive → r.seen k
  | .book _ _ => True

end Log

section Memory

variable {tc : Addr} {stamp : ℕ → Option ℕ} {log : List Entry} {k n : ℕ} {r r' : DealRecord}
  {e x : Entry}

theorem cycles_after (s : Story) (at' : Option ℕ) (e : Entry) : s.cycles ≤ (s.after at' e).cycles := by
  cases e with
  | filled => exact Nat.le_succ _
  | closed =>
    simp only [Story.after]
    split
    · exact le_rfl
    · exact le_rfl
  | _ => exact le_rfl

variable (stamp log) in
theorem cycles_take (j : ℕ) : (story stamp (log.take j)).cycles ≤ (story stamp log).cycles := by
  induction log using List.reverseRecOn with
  | nil => rw [List.take_nil]
  | append_singleton log x ih =>
    by_cases hj : j ≤ log.length
    · rw [List.take_append_of_le_length hj, story_concat]
      exact ih.trans (cycles_after ..)
    · rw [List.take_of_length_le]
      rw [List.length_append, List.length_singleton]
      omega

/-- An event that keeps what there was keeps the memory of it. -/
theorem Remembers.kept (h : Remembers stamp log k r e) (hk : k < log.length) (hg : r.Gains r')
    (hcycles : ((story stamp log).after (stamp log.length) x).cycles = (story stamp log).cycles)
    (hbuyer : ((story stamp log).after (stamp log.length) x).cycle.buyer.isSome →
      (story stamp log).cycle.buyer.isSome)
    (hdep : ((story stamp log).after (stamp log.length) x).cycle.deposit.isSome →
      (story stamp log).cycle.deposit.isSome ∨ r'.seen k)
    (hlive : ((story stamp log).after (stamp log.length) x).cycle.isLive →
      (story stamp log).cycle.isLive ∨ r'.seen k) : Remembers stamp (log ++ [x]) k r' e := by
  have hrow : r.row.isSome → r'.row.isSome := by
    intro hs
    obtain ⟨d, hd⟩ := Option.isSome_iff_exists.mp hs
    obtain ⟨d', hd', -⟩ := hg.row d hd
    exact Option.isSome_iff_exists.mpr ⟨d', hd'⟩
  have hcur : ofCurrent stamp (log ++ [x]) k → ofCurrent stamp log k := by
    rintro ⟨h1, h2⟩
    rw [List.take_append_of_le_length hk, story_concat, hcycles] at h1
    rw [story_concat] at h2
    exact ⟨h1, hbuyer h2⟩
  cases e with
  | deployed => exact hrow h
  | told => exact ⟨hrow h.1, fun hc => hg.took (h.2 (hcur hc))⟩
  | filled => exact fun hc => hg.tookFill (h (hcur hc))
  | offered =>
    intro hd
    rw [story_concat] at hd
    exact (hdep hd).elim (fun hd => hg.recordSeen (h hd)) fun hs => hs
  | closed =>
    intro hl
    rw [story_concat] at hl
    exact (hlive hl).elim (fun hl => hg.recordSeen (h hl)) fun hs => hs
  | book => trivial

theorem Remembers.cut (h : Remembers stamp log k r e) (hrow : r.row.isSome → r'.row.isSome)
    (hcur : ¬ ofCurrent stamp (log ++ [x]) k)
    (hdep : ((story stamp log).after (stamp log.length) x).cycle.deposit = none) :
    Remembers stamp (log ++ [x]) k r' e := by
  have hdep' : (story stamp (log ++ [x])).cycle.deposit = none := by
    rw [story_concat]
    exact hdep
  cases e with
  | deployed => exact hrow h
  | told => exact ⟨hrow h.1, fun hc => absurd hc hcur⟩
  | filled => exact fun hc => absurd hc hcur
  | offered =>
    intro hd
    rw [hdep'] at hd
    cases hd
  | closed =>
    rintro ⟨hd, -⟩
    rw [hdep'] at hd
    cases hd
  | book => trivial

theorem endCycle_row (h : r.row.isSome) : (r.endCycle n).row.isSome := by
  obtain ⟨d, hd⟩ := Option.isSome_iff_exists.mp h
  simp only [DealRecord.endCycle, hd]
  split
  · rfl
  · exact h

theorem reported_row (h : r.row.isSome) : (r.reported n).row.isSome := by
  obtain ⟨d, hd⟩ := Option.isSome_iff_exists.mp h
  simp only [DealRecord.reported, hd]
  split
  · exact h
  · exact endCycle_row h

theorem not_ofCurrent_of_empty
    (h : (story stamp (log ++ [x])).cycle = .empty) : ¬ ofCurrent stamp (log ++ [x]) k := by
  rintro ⟨-, hb⟩
  rw [h] at hb
  cases hb

theorem buyer_after {c : Cycle} {e : DealEvent} {at' : Option ℕ} (h : c.admits e)
    (hb : (c.after at' e).buyer.isSome) : c.buyer.isSome := by
  cases e with
  | streamFunded =>
    rw [h.1]
    rfl
  | contractDestroyed =>
    simp only [Cycle.after] at hb
    split at hb
    · exact hb
    · exact hb
  | _ => exact hb

theorem deposit_after (c : Cycle) (e : DealEvent) (at' : Option ℕ) :
    (∃ b d, e = .streamFunded b d) ∨
      (((c.after at' e).deposit.isSome → c.deposit.isSome) ∧ ((c.after at' e).isLive → c.isLive)) := by
  cases e with
  | streamFunded buyer deposit => exact .inl ⟨buyer, deposit, rfl⟩
  | contractDestroyed =>
    right
    simp only [Cycle.after]
    split
    · exact ⟨id, fun h => absurd h.2 (by simp)⟩
    · exact ⟨id, fun h => h⟩
  | streamStopped => exact .inr ⟨id, fun h => absurd h.2 (by simp [Cycle.after])⟩
  | disputeResolved => exact .inr ⟨id, fun h => absurd h.2 (by simp [Cycle.after])⟩
  | probeBurned => exact .inr ⟨id, fun h => absurd h.2 (by simp [Cycle.after])⟩
  | _ => exact .inr ⟨id, id⟩

theorem closed_after (s : Story) (at' : Option ℕ) (note : Addr) (cycle : ℕ) :
    (s.after at' (.closed note cycle)).cycle = .empty ∨
      s.after at' (.closed note cycle) = s ∧ (s.cycle.closeKind ≠ none ∨ cycle ≠ s.cycles) := by
  simp only [Story.after]
  split
  · exact .inl rfl
  · rename_i h
    right
    refine ⟨rfl, ?_⟩
    by_contra hn
    exact h ⟨by_contra fun hc => hn (.inr hc), by_contra fun hk => hn (.inl hk)⟩

/-- The record of a log keeps what it needs of every event of the log. -/
theorem Tale.remembers (hz : tc ≠ ZERO_ADDRESS) (h : Tale tc stamp log) :
    ∀ k e, log[k]? = some e → Remembers stamp log k ((project tc stamp log).record tc) e := by
  induction h with
  | nil => rintro k e ⟨⟩
  | @concat log x hlog hx ih =>
    intro k e he
    have hshown := (hlog.shown hz).1
    have hnew := (Tale.concat hlog hx).shown hz
    have hx' := hx.2
    rw [project_concat] at hnew ⊢
    -- an entry of the past, or the new one
    have hsplit : (k < log.length ∧ log[k]? = some e) ∨ (k = log.length ∧ e = x) := by
      by_cases hk : k < log.length
      · rw [List.getElem?_append_left hk] at he
        exact .inl ⟨hk, he⟩
      · have hk' : k = log.length := by
          have hlen := (List.getElem?_eq_some_iff.mp he).1
          rw [List.length_append, List.length_singleton] at hlen
          omega
        subst hk'
        rw [List.getElem?_concat_length] at he
        exact .inr ⟨rfl, (Option.some.inj he).symm⟩
    cases x with
    | deployed =>
      rw [record_deployed]
      rcases hsplit with ⟨hk, he⟩ | ⟨rfl, rfl⟩
      · exact (ih k e he).kept hk (DealRecord.seeded_gains _) rfl id .inl .inl
      · rfl
    | told x =>
      rw [record_told]
      obtain ⟨hg, htook⟩ := DealRecord.told_gains tc (stamp log.length) hshown hx'
      rcases hsplit with ⟨hk, hold⟩ | ⟨rfl, rfl⟩
      · rcases deposit_after (story stamp log).cycle x (stamp log.length) with
          ⟨b, d, rfl⟩ | ⟨hdep, hlive⟩
        · have hseen : (((project tc stamp log).record tc).told ⟨tc, log.length, stamp log.length⟩
              (DealEvent.streamFunded b d).logged).seen k := by
            obtain ⟨⟨d', hd', -, -, -, last, hl, hle⟩, -⟩ := htook
            exact ⟨d', hd', last, hl, hk.le.trans hle⟩
          exact (ih k e hold).kept hk hg rfl (buyer_after hx') (fun _ => .inr hseen)
            fun _ => .inr hseen
        · exact (ih k e hold).kept hk hg rfl (buyer_after hx') (fun hd => .inl (hdep hd))
            fun hl => .inl (hlive hl)
      · obtain ⟨d, hd, -⟩ := htook.1
        exact ⟨Option.isSome_iff_exists.mpr ⟨d, hd⟩, fun _ => htook⟩
    | offered ob id p n note dl =>
      have hrec := record_offered (project tc stamp log) ⟨ob, log.length, stamp log.length⟩ tc hz
        id p n note dl
      rcases hsplit with ⟨hk, he⟩ | ⟨rfl, rfl⟩
      · refine (ih k e he).cut (fun hr => ?_) (not_ofCurrent_of_empty ?_) rfl
        · exact (congrArg (fun r : DealRecord => r.row.isSome) hrec).trans (endCycle_row hr)
        · rw [story_concat]
          rfl
      · intro hd
        rw [story_concat] at hd
        cases hd
    | filled ob m t n p buyer =>
      obtain ⟨hempty, hm, ht, hoffer⟩ := hx'
      obtain ⟨f, seller, hf, hb, hseller, hrec⟩ := record_fill tc stamp log.length n p buyer hlog.listed hm
        ht hoffer
      rw [hrec]
      rcases hsplit with ⟨hk, he⟩ | ⟨rfl, rfl⟩
      · refine (ih k e he).cut (fun _ => rfl) ?_ rfl
        rintro ⟨h1, -⟩
        rw [List.take_append_of_le_length hk, story_concat] at h1
        have hle := cycles_take stamp log (k + 1)
        have h2 : (story stamp (log.take (k + 1))).cycles = (story stamp log).cycles + 1 := h1
        omega
      · intro _
        rw [← hf]
        exact DealRecord.matched_tookFill (by rw [hb]; rfl) hseller
    | closed note cycle =>
      rw [record_closed]
      rcases closed_after (story stamp log) (stamp log.length) note cycle with hc | ⟨hc, hpast⟩
      · rcases hsplit with ⟨hk, he⟩ | ⟨rfl, rfl⟩
        · refine (ih k e he).cut reported_row (not_ofCurrent_of_empty ?_) ?_
          · rw [story_concat]
            exact hc
          · rw [hc]
            rfl
        · rintro ⟨hd, -⟩
          rw [story_concat, hc] at hd
          cases hd
      · have hdead : ¬ (story stamp log).cycle.isLive := by
          rcases hpast with hk | hn
          · exact fun hl => hk hl.2
          · dsimp only at hx'
            rwa [if_neg hn] at hx'
        rcases hsplit with ⟨hk, he⟩ | ⟨rfl, rfl⟩
        · rw [hshown.reported_past hdead]
          refine (ih k e he).kept hk (.refl _) ?_ ?_ ?_ ?_
          · rw [hc]
          · rw [hc]
            exact id
          · rw [hc]
            exact .inl
          · rw [hc]
            exact .inl
        · intro hl
          rw [story_concat, hc] at hl
          exact absurd hl hdead
    | book ob x =>
      have hrec : ((Entry.book ob x).project tc stamp log.length (project tc stamp log)).record tc =
          (project tc stamp log).record tc :=
        record_book (project tc stamp log) ⟨ob, log.length, stamp log.length⟩ tc hx'
      rw [hrec]
      rcases hsplit with ⟨hk, he⟩ | ⟨rfl, rfl⟩
      · exact (ih k e he).kept hk (.refl _) rfl id .inl .inl
      · trivial

theorem Shown.endCycle_again {c : Cycle} (h : Shown r n c) (hs : c.deposit.isSome → r.seen k) :
    r.endCycle k = r := by
  by_cases hd : c.deposit = none
  · exact h.endCycle_unfunded hd k
  · obtain ⟨d, hrow, hseen⟩ := hs (Option.isSome_iff_ne_none.mpr hd)
    exact DealRecord.endCycle_seen (Option.mem_def.mp hrow) hseen

theorem Shown.reported_again {c : Cycle} (h : Shown r n c) (hs : c.isLive → r.seen k) :
    r.reported k = r := by
  by_cases hl : c.isLive
  · have hend := h.endCycle_again fun _ => hs hl
    unfold DealRecord.reported
    split
    · rfl
    · split
      · rfl
      · exact hend
  · exact h.reported_past hl k

theorem Tale.take (h : Tale tc stamp log) (j : ℕ) : Tale tc stamp (log.take j) := by
  induction h with
  | nil =>
    rw [List.take_nil]
    exact .nil
  | @concat log x hlog hx ih =>
    by_cases hj : j ≤ log.length
    · rw [List.take_append_of_le_length hj]
      exact ih
    · rw [List.take_of_length_le]
      · exact hlog.concat hx
      · rw [List.length_append, List.length_singleton]
        omega

theorem Tale.fits (h : Tale tc stamp log) (he : log[k]? = some e) :
    Fits tc stamp (log.take k) e := by
  have hk := h.take (k + 1)
  rw [List.take_add_one, he] at hk
  change Tale tc stamp (log.take k ++ [e]) at hk
  generalize hx : log.take k ++ [e] = x at hk
  cases hk with
  | nil => exact absurd hx (by simp)
  | concat =>
    obtain ⟨rfl, h2⟩ := List.append_inj' hx rfl
    rwa [List.head_eq_of_cons_eq h2]

theorem mem_of_take {f : Entry → Option (Addr × ℕ)} {y : Addr × ℕ}
    (h : y ∈ (log.take k).filterMap f) : y ∈ log.filterMap f :=
  ((List.take_sublist k log).filterMap f).subset h

/-- An event that is replayed changes nothing in the deal's record, if it belongs to the current
cycle or is one of those that any cycle can meet again. -/
theorem Tale.replay (hz : tc ≠ ZERO_ADDRESS) (h : Tale tc stamp log) (he : log[k]? = some e)
    (hr : Replayable stamp log k e) :
    (e.project tc stamp k (project tc stamp log)).record tc = (project tc stamp log).record tc := by
  have hshown := (h.shown hz).1
  have hmem := h.remembers hz k e he
  cases e with
  | deployed =>
    rw [record_deployed]
    obtain ⟨d, hd⟩ := Option.isSome_iff_exists.mp hmem
    unfold DealRecord.seeded
    rw [hd, Option.getD_some, ← hd]
  | told e =>
    rw [record_told]
    by_cases hrec : isRecorded e = true
    · exact DealRecord.told_took (hmem.2 (hr hrec))
    · obtain ⟨d, hd⟩ := Option.isSome_iff_exists.mp hmem.1
      apply DealRecord.told_took
      cases e with
      | sellerBondFunded => exact ⟨⟨d, hd, trivial⟩, trivial⟩
      | buyerBondFunded => exact ⟨⟨d, hd, trivial⟩, trivial⟩
      | endpointSet => exact ⟨⟨d, hd, trivial⟩, trivial⟩
      | probeAccepted => exact ⟨⟨d, hd, trivial⟩, trivial⟩
      | shellWithdrawn => exact ⟨⟨d, hd, trivial⟩, trivial⟩
      | _ => exact absurd rfl hrec
  | offered ob id p n note dl =>
    have hrec := record_offered (project tc stamp log) ⟨ob, k, stamp k⟩ tc hz id p n note dl
    exact hrec.trans (hshown.endCycle_again hmem)
  | filled ob m t n p buyer =>
    obtain ⟨-, -, hm, ht, hoffer⟩ := h.fits he
    obtain ⟨f, seller, rfl, -, -, hrec⟩ := record_fill tc stamp k n p buyer h.listed
      (mem_of_take hm) (mem_of_take ht)
      (hoffer.imp mem_of_take mem_of_take)
    exact hrec.trans (DealRecord.matched_took (hmem hr))
  | closed =>
    rw [record_closed]
    exact hshown.reported_again hmem
  | book ob =>
    obtain ⟨-, hn⟩ := h.fits he
    exact record_book (project tc stamp log) ⟨ob, k, stamp k⟩ tc hn

end Memory

end ReadModel

end Dexdo
