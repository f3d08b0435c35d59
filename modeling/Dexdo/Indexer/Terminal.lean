import Dexdo.Indexer.Rows

namespace Dexdo

namespace ReadModel

/-- The statuses an order cannot leave. -/
def InferenceOrder.isTerminal (o : InferenceOrder) : Prop :=
  o.status = .FILLED ∨ o.status = .EXPIRED ∨ o.isReallyCancelled

namespace RowAction

variable {o : InferenceOrder} (a : RowAction)

def isFill : RowAction → Prop
  | .fill .. => True
  | _ => False

/-- The actions whose own lists of terminal statuses lack `EXPIRED`: a placement of a row without
fills, any fill, and any cancel. -/
def revives (o : InferenceOrder) : RowAction → Prop
  | .place _ => o.amountRemaining = o.amountInitial
  | .fill .. | .cancel _ => True
  | _ => False

theorem terminal_kept (h : o.isTerminal) (hx : o.status = .EXPIRED → ¬ a.revives o) :
    ∃ o', a.apply (some o) = some o' ∧ o'.isTerminal ∧ o'.status = o.status ∧
      o'.amountRemaining = o.amountRemaining := by
  suffices hsame : a.apply (some o) = some o ∨ ∃ node, a = .cancel node ∧ o.isReallyCancelled by
    rcases hsame with hsame | ⟨node, rfl, hcancelled⟩
    · exact ⟨o, hsame, h, rfl, rfl⟩
    · have hstatus : o.status ≠ .FILLED := by simp [hcancelled.1]
      refine ⟨_, rfl, .inr (.inr ?_), ?_, ?_⟩
      · simp [InferenceOrder.cancelled, hstatus, InferenceOrder.isReallyCancelled]
      · simp [InferenceOrder.cancelled, hcancelled.1]
      · simp [InferenceOrder.cancelled, hstatus]
  rcases h with h | h | h
  · left
    cases a <;> simp [apply, place?, InferenceOrder.replaced, InferenceOrder.takesPlacement,
      InferenceOrder.filled, InferenceOrder.expired, InferenceOrder.takesExpiry,
      InferenceOrder.isSweepCancelled, InferenceOrder.cancelled, InferenceOrder.sweepCancelled,
      InferenceOrder.repaired, h]
  · left
    have hrevives := hx h
    cases a <;> simp_all [apply, place?, InferenceOrder.replaced, InferenceOrder.takesPlacement,
      InferenceOrder.expired, InferenceOrder.takesExpiry, InferenceOrder.isSweepCancelled,
      InferenceOrder.sweepCancelled, InferenceOrder.repaired, revives]
  · cases a with
    | cancel node => exact .inr ⟨node, rfl, h⟩
    | _ =>
      left
      simp [apply, place?, InferenceOrder.replaced, InferenceOrder.takesPlacement,
        InferenceOrder.filled, InferenceOrder.expired, InferenceOrder.takesExpiry,
        InferenceOrder.isSweepCancelled, InferenceOrder.sweepCancelled, InferenceOrder.repaired,
        h, h.1, h.2]

theorem revives_changes (h : o.status = .EXPIRED) (ha : a.revives o) :
    ∀ o', a.apply (some o) = some o' → o'.status ≠ .EXPIRED := by
  intro o' ho'
  cases a with
  | place =>
    have htakes : o.takesPlacement := ⟨by simp [h], by simp [h], ha⟩
    cases ho'
    simp [place?, InferenceOrder.replaced, htakes]
  | fill =>
    cases ho'
    simp only [InferenceOrder.filled, h, InferenceOrder.isReallyCancelled]
    simp only [reduceCtorEq, false_and, or_self, if_false]
    split
    · simp
    · split <;> simp
  | cancel =>
    cases ho'
    simp [InferenceOrder.cancelled, h]
  | _ => exact absurd ha id

theorem provisional_kept (h : o.isSweepCancelled) :
    ∃ o', a.apply (some o) = some o' ∧ (o'.isSweepCancelled ∨
      (a.isFill ∧ (o'.status = .OPEN ∨ o'.status = .FILLED)) ∨ o'.status = .EXPIRED ∨
      o'.isReallyCancelled) := by
  have hswept : o.sweptAt ≠ none := Option.isSome_iff_ne_none.mp h.2
  cases a with
  | fill =>
    refine ⟨_, rfl, .inr (.inl ⟨trivial, ?_⟩)⟩
    simp only [InferenceOrder.filled, h.1, InferenceOrder.isReallyCancelled, hswept]
    simp only [reduceCtorEq, and_false, or_self, if_false]
    split
    · exact .inr rfl
    · split
      · exact .inr rfl
      · exact .inl rfl
  | expire =>
    refine ⟨_, rfl, .inr (.inr (.inl ?_))⟩
    simp [InferenceOrder.expired, InferenceOrder.takesExpiry, h]
  | cancel =>
    refine ⟨_, rfl, .inr (.inr (.inr ?_))⟩
    simp [InferenceOrder.cancelled, InferenceOrder.isReallyCancelled, h.1]
  | _ =>
    refine ⟨o, ?_, .inl h⟩
    simp [apply, place?, InferenceOrder.replaced, InferenceOrder.takesPlacement,
      InferenceOrder.sweepCancelled, InferenceOrder.repaired, h.1]

end RowAction

/-- Terminal rows stay as they are, and a sweep cancel gives way only to a fill, to expiry and to a
cancel by event. -/
structure Absorbing (s : Db) (tr : List (Move × Db)) : Prop where
  terminal : ∀ a b c, tr = a ++ b ++ c → ∀ ob id o,
    (Run.last s a).inferenceOrders ob id = some o → o.isTerminal →
    ∃ o', (Run.last s (a ++ b)).inferenceOrders ob id = some o' ∧ o'.status = o.status ∧
      o'.amountRemaining = o.amountRemaining
  provisional : ∀ a m db c, tr = a ++ (m, db) :: c → ∀ ob id o,
    (Run.last s a).inferenceOrders ob id = some o → o.isSweepCancelled →
    ∃ o', db.inferenceOrders ob id = some o' ∧ (o'.isSweepCancelled ∨
      ((m.rowAction (Run.last s a) ob id).isFill ∧ (o'.status = .OPEN ∨ o'.status = .FILLED)) ∨
      o'.status = .EXPIRED ∨ o'.isReallyCancelled)

/-- No row that has expired is placed again, filled or cancelled by the move. -/
def SparesExpired (db : Db) (m : Move) (_ : Db) : Prop :=
  ∀ ob id o, db.inferenceOrders ob id = some o → o.status = .EXPIRED →
    ¬ (m.rowAction db ob id).revives o

variable {s t : Db} {tr : List (Move × Db)}

theorem terminal_stays (hr : Run step s tr t) (h : Run.Each SparesExpired s tr) {ob : Addr} {id : ℕ}
    {o : InferenceOrder} (ho : s.inferenceOrders ob id = some o) (ht : o.isTerminal) :
    ∃ o', t.inferenceOrders ob id = some o' ∧ o'.isTerminal ∧ o'.status = o.status ∧
      o'.amountRemaining = o.amountRemaining := by
  refine hr.invariant_each (fun _ db => ∃ o', db.inferenceOrders ob id = some o' ∧ o'.isTerminal ∧
    o'.status = o.status ∧ o'.amountRemaining = o.amountRemaining) ⟨o, ho, ht, rfl, rfl⟩ ?_ h
  intro _ db m db' _ ⟨o₁, ho₁, ht₁, hstatus, hremaining⟩ hspares hstep
  obtain ⟨o₂, ho₂, ht₂, hs₂, hr₂⟩ := RowAction.terminal_kept (m.rowAction db ob id) ht₁
    (hspares ob id o₁ ho₁)
  refine ⟨o₂, ?_, ht₂, hs₂.trans hstatus, hr₂.trans hremaining⟩
  rw [step_row ob id hstep, ho₁, ho₂]

/-- The terminal statuses absorb exactly when no move touches a row that has expired. -/
theorem absorbing_iff (hr : Run step s tr t) :
    Absorbing s tr ↔ Run.Each SparesExpired s tr := by
  constructor
  · intro h
    refine Run.each_iff.mpr fun a m db c htr ob id o ho hexpired hrevives => ?_
    subst htr
    have hrow := step_row ob id hr.of_middle
    rw [ho] at hrow
    obtain ⟨o', ho', hstatus, -⟩ := h.terminal a [(m, db)] c (by simp) ob id o ho
      (.inr (.inl hexpired))
    rw [Run.last_concat, hrow] at ho'
    exact RowAction.revives_changes _ hexpired hrevives o' ho' (hstatus.trans hexpired)
  · intro h
    constructor
    · intro a b c htr ob id o ho hterminal
      subst htr
      obtain ⟨hab, -⟩ := hr.of_append
      obtain ⟨-, hb⟩ := hab.of_append
      rw [Run.each_append, Run.each_append] at h
      obtain ⟨o', ho', -, hstatus, hremaining⟩ := terminal_stays hb h.1.2 ho hterminal
      rw [hab.last_eq]
      exact ⟨o', ho', hstatus, hremaining⟩
    · intro a m db c htr ob id o ho hswept
      subst htr
      have hrow := step_row ob id hr.of_middle
      rw [ho] at hrow
      rw [hrow]
      exact RowAction.provisional_kept _ hswept

section Late

/-- A bid of 10 ticks expires while the fill of 4 of them waits for the placement of its taker. -/
def expiredBid : List Move :=
  [.project ⟨.ext 7, 1, some 100⟩ (.InferenceOrderPlaced 1 true 5 10 (.note 1) ZERO_ADDRESS 500),
   .project ⟨.ext 7, 2, some 200⟩ (.InferenceFilled 1 2 4 5 (some (.deal 1 1)) (some (.note 1))),
   .project ⟨.ext 7, 3, some 600⟩ (.InferenceOrderExpired 1)]

/-- Past the cutoff the orphaned fill is repaired on the leg that is there. -/
def lateFill : Move :=
  .dropOrphan ⟨.ext 7, 2, some 200⟩
    (.InferenceFilled 1 2 4 5 (some (.deal 1 1)) (some (.note 1)))

def expiredBidTrace : List (Move × Db) := Run.trace step Db.empty (expiredBid ++ [lateFill])

theorem expiredBid_revived : ¬ Absorbing Db.empty expiredBidTrace := by
  intro h
  have hexpired : ∃ o, (Run.last Db.empty (expiredBidTrace.take 3)).inferenceOrders (.ext 7) 1 =
      some o ∧ o.status = .EXPIRED := ⟨_, rfl, rfl⟩
  obtain ⟨o, ho, hstatus⟩ := hexpired
  obtain ⟨o', ho', hstatus', -⟩ := h.terminal (expiredBidTrace.take 3) (expiredBidTrace.drop 3) []
    (by simp) (.ext 7) 1 o ho (.inr (.inl hstatus))
  have hopen : ((Run.last Db.empty expiredBidTrace).inferenceOrders (.ext 7) 1).map (·.status) =
      some .OPEN := by decide
  rw [List.take_append_drop] at ho'
  rw [ho'] at hopen
  rw [Option.map_some, hstatus', hstatus] at hopen
  cases hopen

/-- The bid expires without a fill. -/
def quietBid : List Move :=
  [.project ⟨.ext 7, 1, some 100⟩ (.InferenceOrderPlaced 1 true 5 10 (.note 1) ZERO_ADDRESS 500),
   .project ⟨.ext 7, 3, some 600⟩ (.InferenceOrderExpired 1)]

theorem quietBid_spares :
    Run.Each SparesExpired Db.empty (Run.trace step Db.empty quietBid) := by
  refine ⟨fun ob id o ho => ?_, fun ob id o _ _ => ?_, trivial⟩
  · cases ho
  · simp only [Move.rowAction, InferenceEvent.rowAction]
    split_ifs <;> exact not_false

/-- The statuses absorb where the bid expires without a fill, and not where one is repaired. -/
theorem absorbing_sample : Absorbing Db.empty (Run.trace step Db.empty quietBid) ∧
    ¬ Run.Each SparesExpired Db.empty expiredBidTrace := by
  refine ⟨(absorbing_iff (Run.trace_run step Db.empty quietBid)).mpr quietBid_spares, fun h => ?_⟩
  exact expiredBid_revived
    ((absorbing_iff (Run.trace_run step Db.empty (expiredBid ++ [lateFill]))).mpr h)

/-- The repair puts the expired bid back among the open orders. -/
theorem expired_bid_reopens :
    ∃ t, Run step Db.empty expiredBidTrace t ∧ ¬ Absorbing Db.empty expiredBidTrace :=
  ⟨_, Run.trace_run step Db.empty (expiredBid ++ [lateFill]), expiredBid_revived⟩

end Late

end ReadModel

end Dexdo
