import Dexdo.Lib.Run
import Dexdo.PrivateNote.Entry

namespace Dexdo

/-- A message that carries a figure of the balance out of the note, a stake apart. -/
def NoteAction.carriesValue : NoteAction → Bool
  | .withdrawTokens .. | .deployPMP .. | .offerTransfer .. => true
  | .pmp _ (.splitFullSet ..) => true
  | .executeBatch _ _ orders _ _ => !orders.isEmpty
  | .placeBuyOrder _ _ escrow _ _ _ _ _ _ => decide (0 < escrow)
  | .deal _ (.fundDeal amount _) _ => decide (0 < amount)
  | .deal _ (.fundBuyerBond amount) _ => decide (0 < amount)
  | _ => false

namespace PrivateNote

/-- No balance record went down, and no message sent meanwhile carries value. -/
structure Kept (s t : PrivateNote) : Prop where
  balance : ∀ tokenType, s.balance.read tokenType ≤ t.balance.read tokenType
  actions : ∀ x ∈ t.actions, x ∈ s.actions ∨ x.carriesValue = false

namespace Kept

variable {s t u : PrivateNote}

theorem refl (s : PrivateNote) : Kept s s := ⟨fun _ => le_rfl, fun _ => .inl⟩

theorem trans (h : Kept s t) (h' : Kept t u) : Kept s u := by
  refine ⟨fun k => (h.1 k).trans (h'.1 k), fun x hx => ?_⟩
  rcases h'.2 x hx with hx | hx
  · exact h.2 x hx
  · exact .inr hx

theorem ite {c : Prop} [Decidable c] (ht : Kept s t) (hu : Kept s u) :
    Kept s (if c then t else u) := by
  split_ifs
  · exact ht
  · exact hu

@[simp] theorem setPending_iff {p : Pending} : Kept s (t.setPending p) ↔ Kept s t :=
  ⟨fun h => ⟨h.1, h.2⟩, fun h => ⟨h.1, h.2⟩⟩

@[simp] theorem setPositions_iff {p : Positions} : Kept s (t.setPositions p) ↔ Kept s t :=
  ⟨fun h => ⟨h.1, h.2⟩, fun h => ⟨h.1, h.2⟩⟩

@[simp] theorem setInference_iff {p : Inference} : Kept s (t.setInference p) ↔ Kept s t :=
  ⟨fun h => ⟨h.1, h.2⟩, fun h => ⟨h.1, h.2⟩⟩

@[simp] theorem putStake_iff {m : Option MarketId} {r : StakeInfo} :
    Kept s (t.putStake m r) ↔ Kept s t := by
  cases m <;> exact ⟨fun h => ⟨h.1, h.2⟩, fun h => ⟨h.1, h.2⟩⟩

@[simp] theorem dropStake_iff {m : Option MarketId} : Kept s (t.dropStake m) ↔ Kept s t := by
  cases m <;> exact ⟨fun h => ⟨h.1, h.2⟩, fun h => ⟨h.1, h.2⟩⟩

theorem setFunds {f : Funds} (h : Kept s t) (hf : f.balance = t.balance) :
    Kept s (t.setFunds f) := by
  refine ⟨fun k => ?_, h.2⟩
  rw [show (t.setFunds f).balance = t.balance from hf]
  exact h.1 k

theorem act_iff {a : NoteAction} (ha : a.carriesValue = false) : Kept s (t.act a) ↔ Kept s t := by
  constructor
  · intro h
    exact ⟨h.1, fun x hx => h.2 x (List.mem_append_left _ hx)⟩
  · intro h
    refine ⟨h.1, fun x hx => ?_⟩
    rcases List.mem_append.mp hx with hx | hx
    · exact h.2 x hx
    · rw [List.mem_singleton.mp hx]
      exact .inr ha

@[simp] theorem emit_iff {e : NoteEvent} : Kept s (t.emit e) ↔ Kept s t := act_iff rfl

@[simp] theorem free_iff : Kept s t.free ↔ Kept s t := setPending_iff

@[simp] theorem freeOp_iff : Kept s t.freeOp ↔ Kept s t := setPending_iff

@[simp] theorem occupy_iff {d : Addr} {m : MarketId} : Kept s (t.occupy d m) ↔ Kept s t :=
  setPending_iff

@[simp] theorem unlock_iff {k a : ℕ} : Kept s (t.unlock k a) ↔ Kept s t := setPositions_iff

@[simp] theorem forget_iff {c : ℕ} : Kept s (t.forgetClientOrder c) ↔ Kept s t := setPositions_iff

theorem credit {k a : ℕ} (hc : t.credit k a = some u) (h : Kept s t) : Kept s u := by
  simp only [PrivateNote.credit, bind_iff, pure_iff, add128, Option.ite_none_right_eq_some] at hc
  obtain ⟨_, ⟨_, rfl⟩, rfl⟩ := hc
  refine ⟨fun j => (h.1 j).trans ?_, h.2⟩
  change t.balance.read j ≤ Mapping.read (AList.insert k (t.balance.read k + a) t.balance) j
  rw [Mapping.read_insert]
  split_ifs with hj
  · rw [hj]
    exact Nat.le_add_right _ _
  · exact le_rfl

theorem debit_zero {k a : ℕ} (hd : t.debit k a = some u) (ha : a = 0) (h : Kept s t) :
    Kept s u := by
  obtain ⟨b, hb, hd⟩ := of_bind hd
  have hb : t.balance.read k - a = b := Option.some.inj (Option.ite_none_right_eq_some.mp hb).2
  rw [ha, Nat.sub_zero] at hb
  cases hd
  refine ⟨fun j => (h.1 j).trans ?_, h.2⟩
  change t.balance.read j ≤ Mapping.read (AList.insert k b t.balance) j
  rw [Mapping.read_insert, ← hb]
  split_ifs with hj
  · rw [hj]
  · exact le_rfl

end Kept

theorem debit_read {s t : PrivateNote} {k a : ℕ} (h : s.debit k a = some t) :
    t.balance.read k + a = s.balance.read k ∧ t.actions = s.actions := by
  obtain ⟨b, hb, h⟩ := of_bind h
  obtain ⟨hle, hb⟩ := Option.ite_none_right_eq_some.mp hb
  rw [← Option.some.inj h, ← Option.some.inj hb]
  refine ⟨?_, rfl⟩
  change Mapping.read (AList.insert k _ s.balance) k + a = _
  rw [Mapping.read_insert_self]
  exact Nat.sub_add_cancel hle

variable {s t : PrivateNote} {caller : Caller} {e : NoteEnv} {m : MarketId}

theorem returnCoupon_kept {k a : ℕ} {u : PrivateNote} (hc : t.returnCoupon k a = some u)
    (h : Kept s t) : Kept s u := by
  rcases ite_eq_iff.mp hc with ⟨_, hc⟩ | ⟨_, hc⟩
  · obtain ⟨v, _, hc⟩ := of_bind hc
    cases hc
    exact h.setFunds rfl
  · rwa [← Option.some.inj hc]

theorem creditPositive_kept {k a : ℕ} {u : PrivateNote} (hc : t.creditPositive k a = some u)
    (h : Kept s t) : Kept s u := by
  rcases ite_eq_iff.mp hc with ⟨_, hc⟩ | ⟨_, hc⟩
  · exact h.credit hc
  · rwa [← Option.some.inj hc]

theorem returnLock_kept {k a : ℕ} {u : PrivateNote} (hc : t.returnLock k a = some u)
    (h : Kept s t) : Kept s u := by
  obtain ⟨v, hv, hc⟩ := of_bind hc
  cases hc
  exact Kept.unlock_iff.mpr (h.credit hv)

theorem onInitialStakesAccepted_kept {amounts : List ℕ}
    (h : s.onInitialStakesAccepted caller m amounts = some t) : Kept s t := by
  simp only [onInitialStakesAccepted, bind_iff, pure_iff] at h
  obtain ⟨_, _, rfl⟩ := h
  simpa using Kept.refl s

theorem onInitialStakesFailed_kept {total : ℕ}
    (h : s.onInitialStakesFailed caller m total = some t) : Kept s t := by
  replace h := of_pass h
  obtain ⟨u, hu, h⟩ := of_bind h
  have hk : Kept s u := by
    rcases ite_eq_iff.mp hu with ⟨_, hu⟩ | ⟨_, hu⟩
    · obtain ⟨v, hv, rfl⟩ := Option.map_eq_some_iff.mp hu
      simpa using (Kept.refl s).credit hv
    · cases hu
      exact Kept.refl s
  cases h
  split_ifs <;> simpa using hk

theorem onPmpCleanRefund_kept {amounts : List ℕ} {total : ℕ}
    (h : s.onPmpCleanRefund caller m amounts total = some t) : Kept s t := by
  replace h := of_pass h
  obtain ⟨u, hu, h⟩ := of_bind h
  have hk : Kept s u := by
    rcases ite_eq_iff.mp hu with ⟨_, hu⟩ | ⟨_, hu⟩
    · obtain ⟨v, _, hv⟩ := of_bind hu
      exact Kept.credit hv (Kept.putStake_iff.mpr (Kept.refl s))
    · cases hu
      exact Kept.refl s
  cases h
  exact (Kept.act_iff rfl).mpr hk

theorem onForfeitAccepted_kept (h : s.onForfeitAccepted caller = some t) : Kept s t := by
  replace h := of_pass h
  cases h
  simpa using Kept.refl s

theorem onStakeCancelled_kept {value coupon : ℕ}
    (h : s.onStakeCancelled caller m value coupon = some t) : Kept s t := by
  replace h := of_pass h
  obtain ⟨u, hu, h⟩ := of_bind h
  obtain ⟨v, hv, h⟩ := of_bind h
  have hk : Kept s u := Kept.credit hu (Kept.dropStake_iff.mpr (Kept.refl s))
  cases h
  simpa using returnCoupon_kept hv hk

theorem onSplitAccepted_kept {amounts : List ℕ} {used : ℕ}
    (h : s.onSplitAccepted caller m amounts used = some t) : Kept s t := by
  obtain ⟨_, _, h⟩ := of_bind h
  obtain ⟨_, _, h⟩ := of_bind h
  obtain ⟨u, hu, h⟩ := of_bind h
  cases h
  simpa using creditPositive_kept hu (Kept.refl s)

theorem onMergeAccepted_kept {collateral : ℕ} {amounts : List ℕ}
    (h : s.onMergeAccepted caller m collateral amounts = some t) : Kept s t := by
  obtain ⟨_, _, h⟩ := of_bind h
  obtain ⟨_, _, h⟩ := of_bind h
  obtain ⟨u, hu, h⟩ := of_bind h
  cases h
  have hk : Kept s u := by
    refine Kept.credit hu ?_
    split_ifs <;> simpa using Kept.refl s
  simpa using hk

theorem onStakeAccepted_kept {n : ℕ} {betType : BetType}
    (h : s.onStakeAccepted caller m n betType = some t) : Kept s t := by
  obtain ⟨_, _, h⟩ := of_bind h
  obtain ⟨_, _, h⟩ := of_bind h
  cases h
  simpa using Kept.refl s

theorem onClaimAccepted_kept {outcome : Option ℕ} {a d c p : ℕ}
    (h : s.onClaimAccepted caller m outcome a d c p = some t) : Kept s t := by
  obtain ⟨_, _, h⟩ := of_bind h
  change (if outcome.isNone then _ else _) = _ at h
  split_ifs at h
  · cases h
    simpa using Kept.refl s
  · obtain ⟨_, _, h⟩ := of_bind h
    obtain ⟨u, hu, h⟩ := of_bind h
    obtain ⟨_, _, h⟩ := of_bind h
    rw [← Option.some.inj h, Kept.free_iff, Kept.dropStake_iff, Kept.emit_iff]
    exact Kept.setFunds (Kept.credit hu (Kept.refl s)) rfl

theorem acceptFee_kept {fee : ℕ} (h : s.acceptFee caller m fee = some t) : Kept s t := by
  replace h := of_pass h
  change (if s.hasWithdrawn then _ else _) = _ at h
  split_ifs at h
  · cases h
    exact Kept.refl s
  · exact Kept.credit h (Kept.refl s)

theorem fromPMP_kept {cb : PmpCallback} (h : s.fromPMP caller m cb = some t) : Kept s t := by
  cases cb with
  | onInitialStakesAccepted => exact onInitialStakesAccepted_kept h
  | onInitialStakesFailed => exact onInitialStakesFailed_kept h
  | onPmpCleanRefund => exact onPmpCleanRefund_kept h
  | onForfeitAccepted => exact onForfeitAccepted_kept h
  | onStakeCancelled => exact onStakeCancelled_kept h
  | onSplitAccepted => exact onSplitAccepted_kept h
  | onMergeAccepted => exact onMergeAccepted_kept h
  | onStakeAccepted => exact onStakeAccepted_kept h
  | onClaimAccepted => exact onClaimAccepted_kept h
  | acceptFee => exact acceptFee_kept h

theorem answerClientOrder_kept {c : ℕ} {o : Option ℕ} (h : Kept s t) :
    Kept s (t.answerClientOrder c o) := by
  unfold answerClientOrder
  refine Kept.ite h ?_
  cases o with
  | none => exact Kept.ite (by simpa using h) (by simpa using h)
  | some => exact Kept.ite (by simpa using h) (by simpa using h)

theorem settleSellCandidate_kept (h : Kept s t) : Kept s (t.settleSellCandidate m) :=
  Kept.ite (Kept.putStake_iff.mpr h) h

theorem freeFrom_kept (h : Kept s t) : Kept s (t.freeFrom m) :=
  Kept.ite (Kept.freeOp_iff.mpr h) h

theorem onOrderPlaced_kept {i r l c k : ℕ} {b : Bool} {f : UInt8} {p a n : ℕ}
    (h : s.onOrderPlaced caller m i r l c k b f p a n = some t) : Kept s t := by
  replace h := of_pass h
  obtain ⟨u, hu, h⟩ := of_bind h
  replace hu := of_pass (of_pass hu)
  have hk : Kept s u := by
    cases hu
    exact Kept.setPositions_iff.mpr
      (Kept.setPositions_iff.mpr (answerClientOrder_kept (Kept.refl s)))
  rw [← Option.some.inj h, Kept.emit_iff]
  split_ifs
  · apply freeFrom_kept
    apply settleSellCandidate_kept
    exact Kept.setPending_iff.mpr hk
  · exact hk

theorem rejectBuy_kept {f : UInt8} {p a n : ℕ} {u : PrivateNote}
    (hr : t.rejectBuy m f p a n = some u) (h : Kept s t) : Kept s u := by
  obtain ⟨_, _, hr⟩ := of_bind hr
  obtain ⟨v, hv, hr⟩ := of_bind hr
  have hk := returnLock_kept hv h
  cases hr
  split_ifs
  · exact Kept.setPending_iff.mpr hk
  · exact hk

theorem onOrderRejected_kept {k : ℕ} {b : Bool} {f : UInt8} {p a o c n : ℕ}
    (h : s.onOrderRejected caller m k b f p a o c n = some t) : Kept s t := by
  obtain ⟨_, _, h⟩ := of_bind h
  obtain ⟨u, hu, h⟩ := of_bind h
  have h0 : Kept s (s.answerClientOrder c none) := answerClientOrder_kept (Kept.refl s)
  rw [← Option.some.inj h, Kept.emit_iff]
  rcases ite_eq_iff.mp hu with ⟨_, hu⟩ | ⟨_, hu⟩
  · exact rejectBuy_kept hu h0
  · obtain ⟨_, _, hu⟩ := of_bind hu
    cases hu
    exact Kept.putStake_iff.mpr h0

theorem cancelBuy_kept {i a : ℕ} {u : PrivateNote} (hc : t.cancelBuy m i a = some u)
    (h : Kept s t) : Kept s u := by
  obtain ⟨_, _, hc⟩ := of_bind hc
  obtain ⟨v, hv, hc⟩ := of_bind hc
  cases hc
  exact Kept.setPositions_iff.mpr (returnLock_kept hv h)

theorem cancelSell_kept {k a : ℕ} {u : PrivateNote} (hc : t.cancelSell m k a = some u)
    (h : Kept s t) : Kept s u := by
  rcases ite_eq_iff.mp hc with ⟨_, hc⟩ | ⟨_, hc⟩
  · obtain ⟨_, _, hc⟩ := of_bind hc
    cases hc
    exact Kept.putStake_iff.mpr h
  · rwa [← Option.some.inj hc]

theorem onOrderCancelled_kept {i k : ℕ} {b : Bool} {a c n : ℕ}
    (h : s.onOrderCancelled caller m i k b a c n = some t) : Kept s t := by
  replace h := of_pass h
  obtain ⟨u, hu, h⟩ := of_bind h
  have h0 : Kept s ((if c ≠ 0 then s.forgetClientOrder c else s).countClosed m) := by
    refine Kept.setPositions_iff.mpr ?_
    split_ifs <;> simpa using Kept.refl s
  have hk : Kept s u := by
    rcases ite_eq_iff.mp hu with ⟨_, hu⟩ | ⟨_, hu⟩
    · exact cancelBuy_kept hu h0
    · exact cancelSell_kept hu h0
  rw [← Option.some.inj h, Kept.emit_iff]
  split_ifs
  · exact freeFrom_kept hk
  · exact hk

theorem consumeLock_kept {i a : ℕ} {b : Bool} {u : PrivateNote}
    (hc : t.consumeLock m i a b = some u) (h : Kept s t) : Kept s u := by
  rcases ite_eq_iff.mp hc with ⟨_, hc⟩ | ⟨_, hc⟩
  · obtain ⟨v, hv, hc⟩ := of_bind hc
    obtain ⟨_, _, hc⟩ := of_bind hc
    cases hc
    exact Kept.setPositions_iff.mpr (h.credit hv)
  · obtain ⟨_, _, hc⟩ := of_bind hc
    cases hc
    exact Kept.setPositions_iff.mpr h

theorem fillBuy_kept {k a p r f : ℕ} {e : Bool} {i : ℕ} {l : Bool} {o : ℕ} {u : PrivateNote}
    (hf : t.fillBuy m k a p r f e i l o = some u) (h : Kept s t) : Kept s u := by
  obtain ⟨_, _, hf⟩ := of_bind hf
  obtain ⟨_, _, hf⟩ := of_bind hf
  obtain ⟨v, hv, hf⟩ := of_bind hf
  obtain ⟨_, _, hf⟩ := of_bind hf
  obtain ⟨_, _, hf⟩ := of_bind hf
  apply consumeLock_kept hf
  refine Kept.credit hv ?_
  exact Kept.setPositions_iff.mpr (Kept.putStake_iff.mpr h)

theorem fillSell_kept {a p f : ℕ} {e : Bool} {u : PrivateNote}
    (hf : t.fillSell m a p f e = some u) (h : Kept s t) : Kept s u := by
  obtain ⟨_, _, hf⟩ := of_bind hf
  rcases ite_eq_iff.mp hf with ⟨_, hf⟩ | ⟨_, hf⟩
  · obtain ⟨_, _, hf⟩ := of_bind hf
    exact h.credit hf
  · rcases ite_eq_iff.mp hf with ⟨_, hf⟩ | ⟨_, hf⟩
    · exact h.credit hf
    · rwa [← Option.some.inj hf]

theorem onOrderFilled_kept {k a p : ℕ} {b : Bool} {r f : ℕ} {e : Bool} {i : ℕ} {l : Bool}
    {o c : ℕ} (h : s.onOrderFilled caller m k a p b r f e i l o c = some t) : Kept s t := by
  replace h := of_pass h
  obtain ⟨u, hu, h⟩ := of_bind h
  have h0 : Kept s (if l = true ∧ c ≠ 0 then s.forgetClientOrder c else s) := by
    split_ifs <;> simpa using Kept.refl s
  have hk : Kept s u := by
    rcases ite_eq_iff.mp hu with ⟨_, hu⟩ | ⟨_, hu⟩
    · exact fillBuy_kept hu h0
    · exact fillSell_kept hu h0
  rw [← Option.some.inj h, Kept.emit_iff]
  split_ifs
  · exact Kept.setPositions_iff.mpr hk
  · exact hk

theorem onBatchComplete_kept {n : ℕ} (h : s.onBatchComplete caller m n = some t) : Kept s t := by
  replace h := of_pass h
  cases h
  split_ifs
  · exact freeFrom_kept (Kept.setPending_iff.mpr (Kept.refl s))
  · exact Kept.refl s

theorem fromOrderBook_kept {cb : Callback} (h : s.fromOrderBook caller m cb = some t) :
    Kept s t := by
  cases cb with
  | onOrderPlaced => exact onOrderPlaced_kept h
  | onOrderRejected => exact onOrderRejected_kept h
  | onOrderCancelled => exact onOrderCancelled_kept h
  | onOrderFilled => exact onOrderFilled_kept h
  | onBatchComplete => exact onBatchComplete_kept h

theorem closeDeal_kept {d : Addr} : Kept s (s.closeDeal d) := by
  unfold closeDeal
  split_ifs <;> simpa using Kept.refl s

theorem forgetAll_kept (ids : List ℕ) (h : Kept s t) : Kept s (ids.foldl forgetClientOrder t) := by
  induction ids generalizing t with
  | nil => exact h
  | cons c ids ih => exact ih (Kept.forget_iff.mpr h)

theorem restoreBatch_kept (h : s.restoreBatch = some t) : Kept s t := by
  obtain ⟨u, hu, h⟩ := of_bind h
  obtain ⟨v, hv, h⟩ := of_bind h
  have hk : Kept s u := by
    rcases ite_eq_iff.mp hu with ⟨_, hu⟩ | ⟨_, hu⟩
    · exact returnLock_kept hu (Kept.refl s)
    · cases hu
      exact Kept.refl s
  have hk : Kept s v := by
    unfold restoreBatchSells at hv
    split at hv
    · rcases ite_eq_iff.mp hv with ⟨_, hv⟩ | ⟨_, hv⟩
      · obtain ⟨_, _, hv⟩ := of_bind hv
        cases hv
        exact Kept.putStake_iff.mpr hk
      · rwa [← Option.some.inj hv]
    · rwa [← Option.some.inj hv]
  rw [← Option.some.inj h, Kept.freeOp_iff]
  exact Kept.setPending_iff.mpr (forgetAll_kept _ hk)

theorem dropPlaceClientOrder_kept (h : Kept s t) : Kept s t.dropPlaceClientOrder := by
  unfold dropPlaceClientOrder
  split_ifs <;> simpa using h

theorem restoreStake_kept (h : s.restoreStake = some t) : Kept s t := by
  obtain ⟨⟨u, r⟩, hu, h⟩ := of_bind h
  have h0 : Kept s s.freeOp := Kept.freeOp_iff.mpr (Kept.refl s)
  have hk : Kept s u := by
    unfold restoreCandidate at hu
    split at hu
    · obtain ⟨v, hv, hu⟩ := of_bind hu
      rw [← (Prod.mk.inj (Option.some.inj hu)).1]
      exact returnCoupon_kept hv h0
    · obtain ⟨_, _, hu⟩ := of_bind hu
      rw [← (Prod.mk.inj (Option.some.inj hu)).1]
      exact dropPlaceClientOrder_kept h0
    · rwa [← (Prod.mk.inj (Option.some.inj hu)).1]
    · obtain ⟨v, hv, hu⟩ := of_bind hu
      rw [← (Prod.mk.inj (Option.some.inj hu)).1]
      exact h0.credit hv
  cases h
  exact Kept.ite (Kept.dropStake_iff.mpr hk) (Kept.putStake_iff.mpr hk)

theorem bounceOp_kept (h : s.bounceOp = some t) : Kept s t := by
  rcases ite_eq_iff.mp h with ⟨_, h⟩ | ⟨_, h⟩
  · cases h
    simpa [dropForfeit] using Kept.refl s
  rcases ite_eq_iff.mp h with ⟨_, h⟩ | ⟨_, h⟩
  · exact restoreBatch_kept h
  rcases ite_eq_iff.mp h with ⟨_, h⟩ | ⟨_, h⟩
  · obtain ⟨u, hu, h⟩ := of_bind h
    rw [← Option.some.inj h, Kept.freeOp_iff]
    exact Kept.setPending_iff.mpr
      (dropPlaceClientOrder_kept (returnLock_kept hu (Kept.refl s)))
  rcases ite_eq_iff.mp h with ⟨_, h⟩ | ⟨_, h⟩
  · obtain ⟨u, hu, h⟩ := of_bind h
    cases h
    exact Kept.setPending_iff.mpr ((Kept.refl s).credit hu)
  · exact restoreStake_kept h

theorem onBounce_kept {a : Addr} {body : BouncedBody} (h : s.onBounce a body = some t) :
    Kept s t := by
  cases body with
  | placeBuyOrder => exact Kept.credit h (Kept.setInference_iff.mpr (Kept.refl s))
  | touchDeal =>
    cases h
    exact closeDeal_kept
  | fundDeal => exact Kept.credit h (Kept.refl s)
  | fundBuyerBond => exact Kept.credit h (Kept.refl s)
  | other =>
    rcases ite_eq_iff.mp h with ⟨_, h⟩ | ⟨_, h⟩
    · exact bounceOp_kept h
    · cases h
      exact Kept.refl s

theorem onInferencePlaced_kept {x : ℕ} {d : Addr} {i c : ℕ} {b : Bool} {p k : ℕ}
    (h : s.onInferencePlaced e x d i c b p k = some t) : Kept s t := by
  replace h := of_pass h
  cases h
  simpa using Kept.refl s

theorem onInferenceOrderRemoved_kept {x i c r : ℕ}
    (h : s.onInferenceOrderRemoved e x i c r = some t) : Kept s t := by
  replace h := of_pass h
  rw [← Option.some.inj h, Kept.emit_iff]
  split_ifs <;> simpa using Kept.refl s

theorem onInferenceRejected_kept {x c k r : ℕ}
    (h : s.onInferenceRejected e x c k r = some t) : Kept s t := by
  replace h := of_pass h
  obtain ⟨u, hu, h⟩ := of_bind h
  cases h
  simpa using creditPositive_kept hu (Kept.refl s)

theorem creditFromDeal_kept {a k n : ℕ} (h : s.creditFromDeal e a k n = some t) : Kept s t := by
  rcases ite_eq_iff.mp h with ⟨_, h⟩ | ⟨_, h⟩
  · cases h
    exact Kept.refl s
  · replace h := of_pass h
    obtain ⟨u, hu, h⟩ := of_bind h
    cases h
    exact Kept.emit_iff.mpr ((Kept.refl s).credit hu)

theorem creditFromBook_kept {a x : ℕ} (h : s.creditFromBook e a x = some t) : Kept s t := by
  rcases ite_eq_iff.mp h with ⟨_, h⟩ | ⟨_, h⟩
  · cases h
    exact Kept.refl s
  · replace h := of_pass h
    obtain ⟨u, hu, h⟩ := of_bind h
    cases h
    exact Kept.emit_iff.mpr ((Kept.refl s).credit hu)

theorem offerTransfer_kept {k a x : ℕ} (h : s.offerTransfer e k a x = some t) : Kept s t := by
  replace h := of_pass (of_pass h)
  obtain ⟨u, hu, h⟩ := of_bind h
  rw [← Option.some.inj h, Kept.act_iff rfl, Kept.emit_iff]
  exact (Kept.refl s).credit hu

theorem creditAll_kept {l : List (ℕ × ℕ)} {u : PrivateNote}
    (hc : l.foldlM (fun s a => s.credit a.1 a.2) t = some u) (h : Kept s t) : Kept s u := by
  induction l generalizing t with
  | nil => rwa [← Option.some.inj hc]
  | cons x l ih =>
    rw [List.foldlM_cons] at hc
    obtain ⟨v, hv, hc⟩ := of_bind hc
    exact ih hc (h.credit hv)

theorem revertWithdraw_kept {l : List (ℕ × ℕ)} (h : s.revertWithdraw e l = some t) :
    Kept s t := by
  replace h := of_pass h
  obtain ⟨u, hu, h⟩ := of_bind h
  cases h
  exact (creditAll_kept hu (Kept.refl s)).setFunds rfl

theorem sendBond_kept {d : Addr} {a : ℕ} (h : s.sendBond e d a = some t) (ha : a = 0) :
    Kept s t := by
  obtain ⟨u, hu, h⟩ := of_bind h
  obtain ⟨g, _, h⟩ := of_bind h
  have hs : (NoteAction.deal d (.fundBuyerBond a) g).carriesValue = false := by
    rw [ha]
    rfl
  cases h
  exact (Kept.act_iff hs).mpr (Kept.debit_zero hu ha (Kept.refl s))

theorem sendBond_read {d : Addr} {a : ℕ} (h : s.sendBond e d a = some t) :
    t.balance.read CURRENCIES_ID_SHELL + a = s.balance.read CURRENCIES_ID_SHELL := by
  obtain ⟨u, hu, h⟩ := of_bind h
  obtain ⟨_, _, h⟩ := of_bind h
  cases h
  exact (debit_read hu).1

theorem streamCall_kept {d : Addr} {c : DealCall} (h : s.streamCall e d c = some t)
    (hc : ∀ g, (NoteAction.deal d c g).carriesValue = false) : Kept s t := by
  obtain ⟨g, _, h⟩ := of_bind h
  cases h
  exact (Kept.act_iff (hc g)).mpr (Kept.refl s)

/-- What a posted bond does: nothing where the balance is short of it. -/
theorem postBond_spec {d : Addr} {p : ℕ} (h : s.postBond e d p = some t) :
    2 * p < 2 ^ 128 ∧ (if 2 * p ≤ s.balance.read CURRENCIES_ID_SHELL
      then s.sendBond e d (2 * p) = some t else s = t) := by
  obtain ⟨b, hb, h⟩ := of_bind h
  replace h := of_pass h
  obtain ⟨hlt, rfl⟩ := cast128_eq_some.mp hb
  refine ⟨hlt, ?_⟩
  split_ifs at h ⊢
  · exact h
  · exact Option.some.inj h

/-- A fill as the buyer goes on to the bond; otherwise nothing is spent. -/
theorem onInferenceFilled_spec {x : ℕ} {d : Addr} {i c k p z : ℕ} {b : Bool}
    (h : s.onInferenceFilled e x d i c k p z b = some t) :
    ∃ u, Kept s u ∧ u.balance = s.balance ∧
      (if b then u.postBond e d p else some u) = some t := by
  replace h := of_pass h
  refine ⟨_, ?_, ?_, h⟩
  · rw [Kept.emit_iff]
    exact Kept.ite (Kept.setInference_iff.mpr (Kept.refl s)) (by simpa using Kept.refl s)
  · unfold spendPending
    dsimp only
    split_ifs <;> rfl

theorem touchDeal_kept {d : Addr} (h : s.touchDeal e d = some t) : Kept s t := by
  replace h := of_pass (of_pass h)
  cases h
  exact (Kept.act_iff rfl).mpr (Kept.setInference_iff.mpr (Kept.refl s))

theorem postSellOffer_kept {f n l : ℕ} (h : s.postSellOffer e f n l = some t) : Kept s t := by
  replace h := of_pass (of_pass (of_pass h))
  cases h
  exact (Kept.act_iff rfl).mpr (Kept.refl s)

/-- An inference buy debits its escrow. -/
theorem placeInferenceBuy_spec {x p k a f d : ℕ}
    (h : s.placeInferenceBuy e x p k a f d = some t) :
    ∃ u, s.debit CURRENCIES_ID_SHELL a = some u ∧ t.balance = u.balance ∧
      (a = 0 → Kept u t) := by
  obtain ⟨_, _, h⟩ := of_bind h
  obtain ⟨_, _, h⟩ := of_bind h
  obtain ⟨u, hu, h⟩ := of_bind h
  obtain ⟨_, _, h⟩ := of_bind h
  obtain ⟨_, _, h⟩ := of_bind h
  obtain ⟨v, hv, h⟩ := of_bind h
  obtain ⟨_, _, hv⟩ := of_bind hv
  rw [← Option.some.inj h, ← Option.some.inj hv]
  refine ⟨u, hu, rfl, ?_⟩
  intro ha
  refine (Kept.act_iff ?_).mpr (Kept.setInference_iff.mpr (Kept.refl u))
  rw [ha]
  rfl

theorem fundDeal_spec {n g a : ℕ} {c : Option (List ℕ)} (h : s.fundDeal n g a c = some t) :
    ∃ u, s.debit CURRENCIES_ID_SHELL a = some u ∧ t.balance = u.balance ∧
      (a = 0 → Kept u t) := by
  replace h := of_pass (of_pass h)
  obtain ⟨u, hu, h⟩ := of_bind h
  cases h
  refine ⟨u, hu, rfl, ?_⟩
  intro ha
  refine (Kept.act_iff ?_).mpr (Kept.refl u)
  rw [ha]
  rfl

theorem deployDeal_kept {n : ℕ} {name : String} {x p k g : ℕ}
    (h : s.deployDeal n name x p k g = some t) : Kept s t := by
  replace h := of_pass h
  cases h
  exact (Kept.act_iff rfl).mpr (Kept.refl s)

theorem fundDeployShell_kept {n a : ℕ} : Kept s (s.fundDeployShell n a) :=
  Kept.ite ((Kept.act_iff rfl).mpr (Kept.refl s)) (Kept.refl s)

theorem deleteStake_kept (h : s.deleteStake m = some t) : Kept s t := by
  replace h := of_pass (of_pass (of_pass h))
  rw [← Option.some.inj h, Kept.act_iff rfl, Kept.setPending_iff, Kept.occupy_iff]
  exact Kept.refl s

theorem cancelStake_kept (h : s.cancelStake m = some t) : Kept s t := by
  replace h := of_pass (of_pass (of_pass (of_pass h)))
  rw [← Option.some.inj h, Kept.act_iff rfl, Kept.occupy_iff]
  exact Kept.refl s

theorem claim_kept (h : s.claim m = some t) : Kept s t := by
  replace h := of_pass (of_pass (of_pass (of_pass (of_pass h))))
  rw [← Option.some.inj h, Kept.act_iff rfl, Kept.occupy_iff]
  exact Kept.refl s

theorem discardCoupon_kept (h : s.discardCoupon = some t) : Kept s t := by
  replace h := of_pass (of_pass h)
  cases h
  exact (Kept.refl s).setFunds rfl

theorem sweepShell_kept {d : Addr} (h : s.sweepShell e d = some t) : Kept s t := by
  obtain ⟨_, _, h⟩ := of_bind h
  obtain ⟨_, _, h⟩ := of_bind h
  obtain ⟨_, _, h⟩ := of_bind h
  cases h
  exact (Kept.act_iff rfl).mpr (Kept.refl s)

theorem nextOp_kept {u : PrivateNote} (hn : t.nextOp = some u) (h : Kept s t) : Kept s u := by
  replace hn := of_pass hn
  cases hn
  exact Kept.setPending_iff.mpr h

theorem sendCancels_kept {ids : List ℕ} {u : PrivateNote} (hb : t.sendBatch m [] ids = some u)
    (h : Kept s t) : Kept s u := by
  obtain ⟨v, hv, hb⟩ := of_bind hb
  rw [← Option.some.inj hb, Kept.act_iff rfl]
  exact nextOp_kept hv (Kept.occupy_iff.mpr h)

theorem cancelOrder_kept {i : ℕ} (h : s.cancelOrder m i = some t) : Kept s t := by
  replace h := of_pass h
  exact sendCancels_kept h (Kept.refl s)

theorem cancelOrderByClient_kept {c : ℕ} (h : s.cancelOrderByClient m c = some t) :
    Kept s t := by
  obtain ⟨_, _, h⟩ := of_bind h
  obtain ⟨_, _, h⟩ := of_bind h
  obtain ⟨_, _, h⟩ := of_bind h
  obtain ⟨_, _, h⟩ := of_bind h
  exact sendCancels_kept h (Kept.refl s)

theorem cancelAllOrders_kept (h : s.cancelAllOrders m = some t) : Kept s t := by
  replace h := of_pass h
  obtain ⟨u, hu, h⟩ := of_bind h
  rw [← Option.some.inj h, Kept.act_iff rfl]
  exact nextOp_kept hu (Kept.setPending_iff.mpr (Kept.refl s))

theorem lockBalance_kept {k a : ℕ} {u : PrivateNote} (hl : t.lockBalance k a = some u)
    (ha : a = 0) (h : Kept s t) : Kept s u := by
  obtain ⟨v, hv, hl⟩ := of_bind hl
  obtain ⟨_, _, hl⟩ := of_bind hl
  cases hl
  exact Kept.setPositions_iff.mpr (Kept.debit_zero hv ha h)

theorem placeBatch_kept {o : List PlaceParams} {ids : List ℕ} (hd : 0 < s.debt)
    (h : s.placeBatch m o ids = some t) : Kept s t := by
  replace h := of_pass (of_pass (of_pass (of_pass h)))
  obtain ⟨_, hg, h⟩ := of_bind h
  have ho : o = [] := by
    by_contra ho
    exact hd.ne' (of_guard hg ho).2
  subst ho
  obtain ⟨d, hf, h⟩ := of_bind h
  obtain ⟨u, hu, h⟩ := of_bind h
  rw [List.foldlM_nil] at hf
  rw [← Option.some.inj hf] at hu h
  have hk : Kept s u := lockBalance_kept hu rfl (Kept.setPending_iff.mpr (Kept.refl s))
  exact sendCancels_kept h (Kept.setPending_iff.mpr (Kept.ite hk (Kept.putStake_iff.mpr hk)))

/-- The message of a stake carries no currency. -/
theorem setStake_actions {k a : ℕ} {b : Bool} (h : s.setStake m k a b = some t) :
    ∀ x ∈ t.actions, x ∈ s.actions ∨ x.carriesValue = false := by
  obtain ⟨_, _, h⟩ := of_bind h
  obtain ⟨_, _, h⟩ := of_bind h
  obtain ⟨_, _, h⟩ := of_bind h
  obtain ⟨_, _, h⟩ := of_bind h
  obtain ⟨r, _, h⟩ := of_bind h
  obtain ⟨u, hu, h⟩ := of_bind h
  have ha : u.actions = s.actions := by
    rcases ite_eq_iff.mp hu with ⟨_, hu⟩ | ⟨_, hu⟩
    · obtain ⟨_, _, hu⟩ := of_bind hu
      obtain ⟨_, _, hu⟩ := of_bind hu
      cases hu
      rfl
    · exact (debit_read hu).2
  cases h
  intro x hx
  rcases List.mem_append.mp hx with hx | hx
  · exact .inl (ha ▸ hx)
  · rw [List.mem_singleton.mp hx]
    exact .inr rfl

theorem deployPMP_debt {i k : ℕ} {f n x a : List ℕ} (h : s.deployPMP i f k n x a = some t) :
    s.debt = 0 := by
  replace h := of_pass (of_pass (of_pass (of_pass (of_pass h))))
  obtain ⟨_, hd, h⟩ := of_bind h
  exact of_guard hd

theorem splitFullSet_debt {c : ℕ} (h : s.splitFullSet m c = some t) : s.debt = 0 := by
  replace h := of_pass (of_pass (of_pass h))
  obtain ⟨_, hd, h⟩ := of_bind h
  exact of_guard hd

theorem mergeFullSet_debt {a : List ℕ} (h : s.mergeFullSet m a = some t) : s.debt = 0 := by
  replace h := of_pass (of_pass (of_pass h))
  obtain ⟨_, hd, h⟩ := of_bind h
  exact of_guard hd

theorem generateCoupon_debt {k : ℕ} (h : s.generateCoupon k = some t) : s.debt = 0 := by
  replace h := of_pass h
  obtain ⟨_, hd, h⟩ := of_bind h
  exact of_guard hd

theorem initTransfer_debt {d k a x : ℕ} (h : s.initTransfer e d k a x = some t) :
    s.debt = 0 := by
  replace h := of_pass (of_pass (of_pass (of_pass h)))
  obtain ⟨_, hd, h⟩ := of_bind h
  exact of_guard hd

theorem withdrawTokens_debt {d : Addr} {x : ℕ} (h : s.withdrawTokens e d x = some t) :
    s.debt = 0 := by
  replace h := of_pass (of_pass (of_pass h))
  obtain ⟨_, hd, h⟩ := of_bind h
  exact of_guard hd

theorem placeOrder_debt {p : PlaceParams} (h : s.placeOrder m p = some t) : s.debt = 0 := by
  replace h := of_pass (of_pass h)
  obtain ⟨_, hd, h⟩ := of_bind h
  exact of_guard hd

end PrivateNote

/-- The owner stakes. -/
def NoteCall.isStake : NoteCall → Bool
  | .owner (.setStake ..) => true
  | _ => false

namespace PrivateNote

/-- The call spends from the balance and its code does not look at the debt. -/
def spendsUnchecked (s : PrivateNote) : NoteCall → Prop
  | .owner (.placeInferenceBuy _ _ _ escrow _ _) => 0 < escrow
  | .owner (.fundBuyerBondNow ..) => True
  | .owner (.fundDeal _ _ amount _) => 0 < amount
  | .onInferenceFilled _ _ _ _ _ clearingPrice _ isBuy =>
    isBuy = true ∧ 0 < 2 * clearingPrice ∧ 2 * clearingPrice < 2 ^ 128 ∧
      2 * clearingPrice ≤ s.balance.read CURRENCIES_ID_SHELL
  | _ => False

/-- Under debt only a stake lowers a balance record, and no message carries value out. -/
def DebtLocked (s : PrivateNote) (i : Input) (t : PrivateNote) : Prop :=
  0 < s.debt →
    (i.call.isStake = false → ∀ tokenType, s.balance.read tokenType ≤ t.balance.read tokenType) ∧
      ∀ x ∈ t.actions, x.carriesValue = false

variable {s t : PrivateNote} {e : NoteEnv}

/-- The other checked operations spend nothing under debt. -/
theorem execOwner_kept {c : OwnerCall} (hd : 0 < s.debt) (h : s.execOwner e c = some t)
    (hc : ¬ s.spendsUnchecked (.owner c)) (hs : (NoteCall.owner c).isStake = false) :
    Kept s t := by
  cases c with
  | changeOwner =>
    replace h := of_pass h
    cases h
    exact Kept.emit_iff.mpr ⟨fun _ => le_rfl, fun _ => .inl⟩
  | touchDeal => exact touchDeal_kept h
  | deployInferenceOrderBook =>
    replace h := of_pass h
    cases h
    exact (Kept.act_iff rfl).mpr (Kept.refl s)
  | postSellOffer => exact postSellOffer_kept h
  | placeInferenceBuy x p k a =>
    have ha : a = 0 := Nat.eq_zero_of_not_pos hc
    obtain ⟨u, hu, _, hk⟩ := placeInferenceBuy_spec h
    exact (Kept.debit_zero hu ha (Kept.refl s)).trans (hk ha)
  | cancelInferenceOrder =>
    cases h
    exact (Kept.act_iff rfl).mpr (Kept.refl s)
  | cancelAllInferenceOrders =>
    cases h
    exact (Kept.act_iff rfl).mpr (Kept.refl s)
  | fundBuyerBondNow => exact absurd trivial hc
  | streamStop => exact streamCall_kept h fun _ => rfl
  | streamDispute => exact streamCall_kept h fun _ => rfl
  | streamCleanup => exact streamCall_kept h fun _ => rfl
  | fundDeal n g a =>
    have ha : a = 0 := Nat.eq_zero_of_not_pos hc
    obtain ⟨u, hu, _, hk⟩ := fundDeal_spec h
    exact (Kept.debit_zero hu ha (Kept.refl s)).trans (hk ha)
  | fundDeployShell =>
    cases h
    exact fundDeployShell_kept
  | deployDeal => exact deployDeal_kept h
  | deployPMP => exact absurd (deployPMP_debt h) hd.ne'
  | deleteStake => exact deleteStake_kept h
  | cancelStake => exact cancelStake_kept h
  | splitFullSet => exact absurd (splitFullSet_debt h) hd.ne'
  | mergeFullSet => exact absurd (mergeFullSet_debt h) hd.ne'
  | setStake => cases hs
  | claim => exact claim_kept h
  | generateCoupon => exact absurd (generateCoupon_debt h) hd.ne'
  | discardCoupon => exact discardCoupon_kept h
  | initTransfer => exact absurd (initTransfer_debt h) hd.ne'
  | withdrawTokens => exact absurd (withdrawTokens_debt h) hd.ne'
  | sweepShell => exact sweepShell_kept h
  | placeOrder => exact absurd (placeOrder_debt h) hd.ne'
  | cancelOrder => exact cancelOrder_kept h
  | cancelOrderByClient => exact cancelOrderByClient_kept h
  | placeBatch => exact placeBatch_kept hd h
  | cancelAllOrders => exact cancelAllOrders_kept h

theorem onInferenceFilled_kept {x : ℕ} {d : Addr} {i c k p z : ℕ} {b : Bool}
    (h : s.onInferenceFilled e x d i c k p z b = some t)
    (hc : ¬ s.spendsUnchecked (.onInferenceFilled x d i c k p z b)) : Kept s t := by
  obtain ⟨u, hk, hb, h⟩ := onInferenceFilled_spec h
  rcases ite_eq_iff.mp h with ⟨hbuy, h⟩ | ⟨_, h⟩
  · obtain ⟨hlt, h⟩ := postBond_spec h
    split_ifs at h with hle
    · refine hk.trans (sendBond_kept h ?_)
      by_contra h0
      exact hc ⟨hbuy, Nat.pos_of_ne_zero h0, hlt, hb ▸ hle⟩
    · rwa [← h]
  · rwa [← Option.some.inj h]

/-- Under debt every call but a stake and an unchecked spending keeps the balance. -/
theorem exec_kept {c : NoteCall} (hd : 0 < s.debt) (h : s.exec e c = some t)
    (hc : ¬ s.spendsUnchecked c) (hs : c.isStake = false) : Kept s t := by
  cases c with
  | owner =>
    replace h := of_pass h
    exact execOwner_kept hd h hc hs
  | pmp => exact fromPMP_kept h
  | orderBook => exact fromOrderBook_kept h
  | onInferencePlaced => exact onInferencePlaced_kept h
  | onInferenceOrderRemoved => exact onInferenceOrderRemoved_kept h
  | onInferenceFilled => exact onInferenceFilled_kept h hc
  | onInferenceRejected => exact onInferenceRejected_kept h
  | onDealClosed =>
    cases h
    unfold onDealClosed
    split
    · exact closeDeal_kept
    · exact Kept.refl s
  | creditFromDeal => exact creditFromDeal_kept h
  | creditFromBook => exact creditFromBook_kept h
  | offerTransfer => exact offerTransfer_kept h
  | onTransferAccepted =>
    replace h := of_pass h
    cases h
    exact Kept.setPending_iff.mpr (Kept.refl s)
  | revertWithdraw => exact revertWithdraw_kept h
  | receive =>
    cases h
    exact Kept.refl s
  | onBounce =>
    change s.bounced e.caller _ = _ at h
    unfold bounced at h
    split at h
    · exact onBounce_kept h
    · cases h

/-- An unchecked spending lowers the SHELL record. -/
theorem exec_spends {c : NoteCall} (h : s.exec e c = some t) (hc : s.spendsUnchecked c) :
    t.balance.read CURRENCIES_ID_SHELL < s.balance.read CURRENCIES_ID_SHELL ∧
      c.isStake = false := by
  unfold spendsUnchecked at hc
  split at hc
  · replace h := of_pass h
    obtain ⟨u, hu, hb, _⟩ := placeInferenceBuy_spec h
    have := (debit_read hu).1
    rw [hb]
    exact ⟨by omega, rfl⟩
  · replace h := of_pass (of_pass h)
    obtain ⟨_, ha, h⟩ := of_bind h
    replace h := of_pass h
    have ha := of_guard ha
    have := sendBond_read h
    exact ⟨by omega, rfl⟩
  · replace h := of_pass h
    obtain ⟨u, hu, hb, _⟩ := fundDeal_spec h
    have := (debit_read hu).1
    rw [hb]
    exact ⟨by omega, rfl⟩
  · obtain ⟨hbuy, hpos, _, hle⟩ := hc
    obtain ⟨u, _, hb, h⟩ := onInferenceFilled_spec h
    rw [if_pos hbuy] at h
    have h := (postBond_spec h).2
    rw [if_pos (hb ▸ hle)] at h
    have := sendBond_read h
    rw [hb] at this
    exact ⟨by omega, rfl⟩
  · exact hc.elim

/-- A transaction keeps the lock exactly if it spends nothing unchecked. -/
theorem step_debtLocked {i : Input} (h : s.step i = some t) :
    DebtLocked s i t ↔ (0 < s.debt → ¬ s.spendsUnchecked i.call) := by
  constructor
  · intro hl hd hc
    obtain ⟨hlt, hs⟩ := exec_spends (s := s.begin) h hc
    exact absurd ((hl hd).1 hs CURRENCIES_ID_SHELL) (Nat.not_le.mpr hlt)
  · intro hl hd
    have hc := hl hd
    cases hs : i.call.isStake with
    | false =>
      have hk : Kept s.begin t := exec_kept (s := s.begin) hd h hc hs
      refine ⟨fun _ => hk.1, fun x hx => ?_⟩
      exact (hk.2 x hx).resolve_left List.not_mem_nil
    | true =>
      refine ⟨fun hn => (Bool.noConfusion hn), ?_⟩
      intro x hx
      have ha : x ∈ s.begin.actions ∨ x.carriesValue = false := by
        obtain ⟨e, c⟩ := i
        unfold NoteCall.isStake at hs
        split at hs
        · next hcall =>
          change c = _ at hcall
          subst hcall
          replace h := of_pass h
          exact setStake_actions h x hx
        · cases hs
      exact ha.resolve_left List.not_mem_nil

/-- In every run of a note the debt lock holds of a transaction exactly if the transaction is no
unchecked spending under debt. -/
theorem debt_lock {d v k tokenType x y : ℕ} {tr : List (Input × PrivateNote)}
    (h : Run step (init d v k tokenType x y) tr t) :
    Run.Each (fun s i t => DebtLocked s i t ↔ (0 < s.debt → ¬ s.spendsUnchecked i.call))
      (init d v k tokenType x y) tr := by
  refine h.invariant (fun tr _ => Run.Each _ _ tr) trivial ?_
  intro tr t i u hr hI hi
  rw [Run.each_concat, hr.last_eq]
  exact ⟨hI, step_debtLocked hi⟩

/-- A note that stakes all it has and loses. -/
def lossCalls (m : MarketId) : List NoteCall :=
  [.owner (.setStake m 0 100000000000 false), .pmp m (.onStakeAccepted 2 .clean),
    .owner (.claim m), .pmp m (.onClaimAccepted (some 1) 0 0 0 0)]

/-- A coupon is staked, wins, and its profit buys inference while the debt stands. -/
def couponCalls (m : MarketId) : List NoteCall :=
  [.owner (.generateCoupon CURRENCIES_ID_SHELL), .owner (.setStake m 0 100000000000 true),
    .pmp m (.onStakeAccepted 2 .coupon), .owner (.claim m),
    .pmp m (.onClaimAccepted (some 0) 0 0 40000000000 0),
    .owner (.placeInferenceBuy 5 1000000000 10 12000000000 0 0)]

/-- A message of the PMP concerned, or of the owner, whose key is 9. -/
def sampleInput (c : NoteCall) : Input where
  caller := match c with
    | .pmp m _ => .internal (.pmp m)
    | _ => .external 9
  now := 0
  currencies := fun _ => 100000000
  call := c

def sampleNote : PrivateNote := init 7 100000000000 9 CURRENCIES_ID_SHELL 1 1

def couponTrace : List (Input × PrivateNote) :=
  Run.trace step sampleNote
    ((lossCalls ⟨1, 1, CURRENCIES_ID_SHELL⟩ ++ couponCalls ⟨2, 1, CURRENCIES_ID_SHELL⟩).map
      sampleInput)

theorem debt_lock_coupon :
    Run.Each (fun s i t => DebtLocked s i t ↔ (0 < s.debt → ¬ s.spendsUnchecked i.call))
      sampleNote couponTrace :=
  debt_lock (Run.trace_run step sampleNote _)

/-- The profit of a coupon leaves the note before its debt is repaid. -/
theorem debt_lock_broken :
    ¬ ∀ (d v k tokenType x y : ℕ) (tr : List (Input × PrivateNote)) (t : PrivateNote),
      Run step (init d v k tokenType x y) tr t →
        Run.Each DebtLocked (init d v k tokenType x y) tr := by
  intro h
  have hr := h _ _ _ _ _ _ _ _ (Run.trace_run step sampleNote _ : Run step _ couponTrace _)
  have hs : Run.Each (fun s i t => 0 < s.debt → i.call.isStake = false →
      s.balance.read CURRENCIES_ID_SHELL ≤ t.balance.read CURRENCIES_ID_SHELL)
      sampleNote couponTrace :=
    Run.Each.imp (fun s i t hl hd hn => (hl hd).1 hn _) hr
  revert hs
  decide +kernel

end PrivateNote

end Dexdo
