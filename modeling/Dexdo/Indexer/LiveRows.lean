import Dexdo.Indexer.LiveOrders
import Mathlib.Tactic

namespace Dexdo

namespace ReadModel

/-- What a placement writes into its row. -/
structure Placement where
  outcomeId : ℕ
  isBuy : Bool
  price : ℕ
  amount : ℕ
  clientOrderId : Option ℕ
  deriving DecidableEq

/-- The row a placement inserts. -/
def Placement.row (p : Placement) (node : EventNode) : LiveOrder :=
  .placed p.outcomeId p.isBuy p.price p.amount p.clientOrderId node

namespace PredictionEvent

/-- The placement of the row `id` of book `ob` an event carries, if its outcome id parses. -/
def placement (event : PredictionEvent) (node : EventNode) (ob : Addr) (id : ℕ) :
    Option Placement :=
  match event with
  | .OrderPlaced orderId outcomeId isBuy price amount clientOrderId =>
    if (ob = node.src ∧ id = orderId) ∧ outcomeId ≤ I32_MAX then
      some ⟨outcomeId, isBuy, price, amount, clientOrderId⟩
    else none
  | _ => none

def isFill : PredictionEvent → Bool
  | .OrderFilled .. => true
  | _ => false

end PredictionEvent

namespace LiveOrder

/-- What a row keeps from one of its values to a later one. -/
structure Keeps (o o' : LiveOrder) : Prop where
  placed : o'.placedChainOrder = o.placedChainOrder
  created : ∀ t, o.chainCreatedAt = some t → o'.chainCreatedAt = some t
  owner : ∀ a, o.ownerPnAddress = some a → o'.ownerPnAddress = some a
  last : o.lastChainOrder ≤ o'.lastChainOrder
  terminal : o.isTerminal → o'.status = o.status ∧ o'.amountRemaining = o.amountRemaining

variable {o o' o'' : LiveOrder}

theorem Keeps.refl (o : LiveOrder) : o.Keeps o :=
  ⟨rfl, fun _ h => h, fun _ h => h, le_rfl, fun _ => ⟨rfl, rfl⟩⟩

theorem Keeps.stays (h : o.Keeps o') (ho : o.isTerminal) : o'.isTerminal := by
  rw [isTerminal, (h.terminal ho).1]
  exact ho

theorem Keeps.trans (h : o.Keeps o') (h' : o'.Keeps o'') : o.Keeps o'' where
  placed := h'.placed.trans h.placed
  created t ht := h'.created t (h.created t ht)
  owner a ha := h'.owner a (h.owner a ha)
  last := h.last.trans h'.last
  terminal ho := by
    have h1 := h.terminal ho
    have h2 := h'.terminal (h.stays ho)
    exact ⟨h2.1.trans h1.1, h2.2.trans h1.2⟩

/-- The chain columns of a row are past those of an event. -/
structure Past (node : EventNode) (o : LiveOrder) : Prop where
  last : node.chainOrder ≤ o.lastChainOrder
  created : ∀ t, node.createdAt = some t → ∃ u, o.chainCreatedAt = some u
  updated : ∀ t, node.createdAt = some t → ∃ u, o.chainUpdatedAt = some u ∧ t ≤ u

/-- A row that would still take a placement shows `p` already. -/
def Settled (p : Placement) (node : EventNode) (o : LiveOrder) : Prop :=
  o.takesPlacement → Past node o ∧ o.outcomeId = p.outcomeId ∧ o.isBuy = p.isBuy ∧
    o.price = p.price ∧ o.amountInitial = p.amount ∧ o.clientOrderId = p.clientOrderId

theorem greatest_past {x y : Option ℕ} (h : ∀ t, y = some t → ∃ u, x = some u ∧ t ≤ u) :
    greatest x y = x := by
  cases y with
  | none => cases x <;> rfl
  | some t =>
    obtain ⟨u, rfl, htu⟩ := h t rfl
    exact congrArg some (max_eq_left htu)

theorem le_greatest_left {x : Option ℕ} (y : Option ℕ) {t : ℕ}
    (h : ∃ u, x = some u ∧ t ≤ u) : ∃ u, greatest x y = some u ∧ t ≤ u := by
  obtain ⟨u, rfl, htu⟩ := h
  cases y with
  | none => exact ⟨u, rfl, htu⟩
  | some v => exact ⟨max u v, rfl, le_max_of_le_left htu⟩

theorem le_greatest_right (x : Option ℕ) (t : ℕ) : ∃ u, greatest x (some t) = some u ∧ t ≤ u := by
  cases x with
  | none => exact ⟨t, rfl, le_rfl⟩
  | some u => exact ⟨max u t, rfl, le_max_right u t⟩

section Operations

variable (o) (p q : Placement) (node : EventNode) (filledAmount : ℕ) (note : Addr)

theorem keeps_replaced : o.Keeps (o.replaced (p.row node)) := by
  unfold replaced
  split_ifs with h
  · refine ⟨rfl, ?_, fun _ ha => ha, le_max_left _ _, fun ho => absurd ho h.1⟩
    intro t ht
    exact congrArg (Option.or · _) ht
  · exact .refl o

theorem keeps_confirmed : o.Keeps (o.confirmed note) where
  placed := rfl
  created _ ht := ht
  owner _ ha := congrArg (Option.or · _) ha
  last := le_rfl
  terminal _ := ⟨rfl, rfl⟩

theorem keeps_filled : o.Keeps (o.filled filledAmount node) := by
  unfold filled
  split_ifs with h
  · exact .refl o
  · exact ⟨rfl, fun _ ht => ht, fun _ ha => ha, le_max_left _ _, fun ho => absurd ho h⟩
  · exact ⟨rfl, fun _ ht => ht, fun _ ha => ha, le_max_left _ _, fun ho => absurd ho h⟩
  · exact ⟨rfl, fun _ ht => ht, fun _ ha => ha, le_max_left _ _, fun ho => absurd ho h⟩

theorem keeps_cancelled : o.Keeps (o.cancelled node) := by
  unfold cancelled
  split_ifs with h
  · exact .refl o
  · exact ⟨rfl, fun _ ht => ht, fun _ ha => ha, le_max_left _ _, fun ho => absurd ho h⟩

theorem replaced_of_taken (h : ¬ o.takesPlacement) : o.replaced (p.row node) = o := if_neg h

theorem remaining_replaced :
    (o.replaced (p.row node)).amountRemaining =
      if o.takesPlacement then p.amount else o.amountRemaining := by
  unfold replaced
  split_ifs <;> rfl

theorem remaining_filled :
    (o.filled filledAmount node).amountRemaining ≤ o.amountRemaining := by
  unfold filled
  split_ifs
  · exact le_rfl
  all_goals exact Nat.sub_le ..

@[simp]
theorem initial_filled : (o.filled filledAmount node).amountInitial = o.amountInitial := by
  unfold filled
  split_ifs <;> rfl

@[simp]
theorem remaining_cancelled : (o.cancelled node).amountRemaining = o.amountRemaining := by
  unfold cancelled
  split_ifs <;> rfl

@[simp]
theorem initial_cancelled : (o.cancelled node).amountInitial = o.amountInitial := by
  unfold cancelled
  split_ifs <;> rfl

theorem terminal_cancelled : (o.cancelled node).isTerminal := by
  unfold cancelled
  split_ifs with h
  · exact h
  · exact .inr (.inl rfl)

theorem settled_row : Settled p node (p.row node) := by
  intro _
  refine ⟨⟨le_rfl, ?_, ?_⟩, rfl, rfl, rfl, rfl, rfl⟩
  · intro t ht
    exact ⟨t, ht⟩
  · intro t ht
    exact ⟨t, ht, le_rfl⟩

theorem settled_replaced : Settled p node (o.replaced (p.row node)) := by
  by_cases h : o.takesPlacement
  · intro _
    rw [replaced, if_pos h]
    refine ⟨⟨le_max_right _ _, ?_, ?_⟩, rfl, rfl, rfl, rfl, rfl⟩
    · intro t ht
      change ∃ u, o.chainCreatedAt.or node.createdAt = some u
      rw [ht]
      cases o.chainCreatedAt with
      | none => exact ⟨t, rfl⟩
      | some u => exact ⟨u, rfl⟩
    · intro t ht
      change ∃ u, greatest o.chainUpdatedAt node.createdAt = some u ∧ t ≤ u
      rw [ht]
      exact le_greatest_right _ t
  · intro h'
    rw [replaced_of_taken _ _ _ h] at h'
    exact absurd h' h

variable {o p q node}

theorem replaced_settled (h : Settled p node o) : o.replaced (p.row node) = o := by
  unfold replaced
  split_ifs with ht
  · obtain ⟨⟨hl, hc, hu⟩, h1, h2, h3, h4, h5⟩ := h ht
    have hstatus : o.status = .OPEN := by
      have hno := ht.1
      rw [isTerminal] at hno
      cases hs : o.status <;> simp_all
    have hremaining : o.amountRemaining = p.amount := ht.2.trans h4
    have hlast : max o.lastChainOrder node.chainOrder = o.lastChainOrder := max_eq_left hl
    have hcreated : o.chainCreatedAt.or node.createdAt = o.chainCreatedAt := by
      cases hn : node.createdAt with
      | none => exact Option.or_none
      | some t =>
        obtain ⟨u, hu'⟩ := hc t hn
        rw [hu']
        rfl
    have hupdated : greatest o.chainUpdatedAt node.createdAt = o.chainUpdatedAt := greatest_past hu
    simp only [Placement.row, placed, hlast, hcreated, hupdated]
    rw [← h1, ← h2, ← h3, ← h4, ← h5, ← hstatus]
    cases o
    simp_all
  · rfl

variable {n : EventNode}

theorem Past.filled (h : Past node o) : Past node (o.filled filledAmount n) := by
  unfold LiveOrder.filled
  split_ifs
  · exact h
  all_goals exact ⟨h.last.trans (le_max_left _ _), h.created,
    fun t ht => le_greatest_left _ (h.updated t ht)⟩

theorem Past.replaced (h : Past node o) : Past node (o.replaced (p.row n)) := by
  unfold LiveOrder.replaced
  split_ifs
  · refine ⟨h.last.trans (le_max_left _ _), ?_, fun t ht => le_greatest_left _ (h.updated t ht)⟩
    intro t ht
    obtain ⟨u, hu⟩ := h.created t ht
    exact ⟨u, congrArg (Option.or · _) hu⟩
  · exact h

/-- The amount that remains is never above the initial one. -/
def Within (o : LiveOrder) : Prop := o.amountRemaining ≤ o.amountInitial

theorem Settled.filled (h : Settled p node o) (hb : o.Within) :
    Settled p node (o.filled filledAmount n) := by
  intro ht
  have hopen : ¬ o.isTerminal := fun ho => ht.1 ((keeps_filled o n filledAmount).stays ho)
  have hsame : o.amountRemaining = o.amountInitial := by
    have h1 := ht.2
    rw [initial_filled] at h1
    exact le_antisymm hb (h1.symm.trans_le (remaining_filled o n filledAmount))
  obtain ⟨hpast, h1, h2, h3, h4, h5⟩ := h ⟨hopen, hsame⟩
  refine ⟨hpast.filled filledAmount, ?_⟩
  unfold LiveOrder.filled
  rw [if_neg hopen]
  exact ⟨h1, h2, h3, h4, h5⟩

theorem Settled.cancelled : Settled p node (o.cancelled n) :=
  fun ht => absurd (terminal_cancelled o n) ht.1

theorem Settled.confirmed (h : Settled p node o) : Settled p node (o.confirmed note) := by
  intro ht
  obtain ⟨hpast, hrest⟩ := h ht
  exact ⟨⟨hpast.last, hpast.created, hpast.updated⟩, hrest⟩

theorem Settled.replaced (h : Settled p node o) : Settled p node (o.replaced (p.row n)) := by
  by_cases ho : o.takesPlacement
  · intro _
    refine ⟨(h ho).1.replaced, ?_⟩
    unfold LiveOrder.replaced
    rw [if_pos ho]
    exact ⟨rfl, rfl, rfl, rfl, rfl⟩
  · rw [replaced_of_taken _ _ _ ho]
    exact h

end Operations

end LiveOrder

section Event

variable {event : PredictionEvent} {node : EventNode} {ob : Addr} {id : ℕ} {o : LiveOrder}
  {p : Placement}

theorem row_placement (h : event.placement node ob id = some p) (r : Option LiveOrder) :
    event.row node ob id r = some ((r.map (·.replaced (p.row node))).getD (p.row node)) := by
  cases event with
  | OrderPlaced =>
    simp only [PredictionEvent.placement] at h
    split_ifs at h with hc
    cases h
    simp only [PredictionEvent.row, if_pos hc]
    rfl
  | _ => cases h

theorem row_other (h : event.placement node ob id = none) (o : LiveOrder) :
    event.row node ob id (some o) = some o ∨
      (∃ note, event.row node ob id (some o) = some (o.confirmed note)) ∨
      (∃ filledAmount, event.row node ob id (some o) = some (o.filled filledAmount node)) ∨
      event.row node ob id (some o) = some (o.cancelled node) := by
  cases event with
  | OrderPlaced =>
    left
    simp only [PredictionEvent.placement] at h
    split_ifs at h with hc
    simp only [PredictionEvent.row, if_neg hc]
  | OrderPlacedConfirmed =>
    simp only [PredictionEvent.row]
    split_ifs
    · exact .inr (.inl ⟨node.src, rfl⟩)
    · exact .inl rfl
  | OrderFilled orderId filledAmount =>
    simp only [PredictionEvent.row]
    split_ifs
    · exact .inr (.inr (.inl ⟨filledAmount, rfl⟩))
    · exact .inl rfl
  | OrderCancelled =>
    simp only [PredictionEvent.row]
    split_ifs
    · exact .inr (.inr (.inr rfl))
    · exact .inl rfl
  | other => exact .inl rfl

theorem row_none (h : event.placement node ob id = none) : event.row node ob id none = none := by
  cases event with
  | OrderPlaced =>
    simp only [PredictionEvent.placement] at h
    split_ifs at h with hc
    simp only [PredictionEvent.row, if_neg hc]
  | other => rfl
  | _ =>
    simp only [PredictionEvent.row, Option.map_none]
    exact ite_self none

theorem row_keeps (event : PredictionEvent) (node : EventNode) (ob : Addr) (id : ℕ)
    (o : LiveOrder) : ∃ o', event.row node ob id (some o) = some o' ∧ o.Keeps o' := by
  cases hp : event.placement node ob id with
  | some p => exact ⟨_, row_placement hp (some o), o.keeps_replaced p node⟩
  | none =>
    rcases row_other hp o with h | ⟨a, h⟩ | ⟨f, h⟩ | h
    · exact ⟨o, h, .refl o⟩
    · exact ⟨_, h, o.keeps_confirmed a⟩
    · exact ⟨_, h, o.keeps_filled node f⟩
    · exact ⟨_, h, o.keeps_cancelled node⟩

theorem row_rises {o' : LiveOrder} (h : event.row node ob id (some o) = some o') :
    o.amountRemaining < o'.amountRemaining ↔
      o.takesPlacement ∧ ∃ p, event.placement node ob id = some p ∧ o.amountRemaining < p.amount := by
  cases hp : event.placement node ob id with
  | some p =>
    rw [row_placement hp] at h
    cases h
    change _ < (o.replaced (p.row node)).amountRemaining ↔ _
    rw [LiveOrder.remaining_replaced]
    by_cases ht : o.takesPlacement
    · simp [ht]
    · simp [ht]
  | none =>
    have hle : o'.amountRemaining ≤ o.amountRemaining := by
      rcases row_other hp o with h' | ⟨a, h'⟩ | ⟨f, h'⟩ | h' <;>
        cases h.symm.trans h'
      · exact le_rfl
      · exact le_rfl
      · exact o.remaining_filled node f
      · exact (o.remaining_cancelled node).le
    constructor
    · intro hlt
      exact absurd hlt hle.not_gt
    · rintro ⟨_, p, hp', _⟩
      cases hp'

theorem row_initial {o' : LiveOrder} (h : event.row node ob id (some o) = some o')
    (hq : ∀ q ∈ event.placement node ob id, q.amount = o.amountInitial) :
    o'.amountInitial = o.amountInitial := by
  cases hp : event.placement node ob id with
  | some p =>
    rw [row_placement hp] at h
    cases h
    change (o.replaced (p.row node)).amountInitial = _
    unfold LiveOrder.replaced
    split_ifs
    · exact hq p hp
    · rfl
  | none =>
    rcases row_other hp o with h' | ⟨a, h'⟩ | ⟨f, h'⟩ | h' <;>
      cases h.symm.trans h'
    · rfl
    · rfl
    · exact o.initial_filled node f
    · exact o.initial_cancelled node

theorem row_within {r : Option LiveOrder} {o' : LiveOrder} (hr : ∀ o, r = some o → o.Within)
    (h : event.row node ob id r = some o') : o'.Within := by
  cases hp : event.placement node ob id with
  | some p =>
    rw [row_placement hp] at h
    cases h
    cases r with
    | none => exact le_rfl
    | some o =>
      change (o.replaced (p.row node)).Within
      unfold LiveOrder.replaced
      split_ifs
      · exact le_rfl
      · exact hr o rfl
  | none =>
    cases r with
    | none =>
      rw [row_none hp] at h
      cases h
    | some o =>
      have hb : o.Within := hr o rfl
      rcases row_other hp o with h' | ⟨a, h'⟩ | ⟨f, h'⟩ | h' <;>
        cases h.symm.trans h'
      · exact hb
      · exact hb
      · have h1 := o.remaining_filled node f
        have h2 := o.initial_filled node f
        exact h1.trans (hb.trans h2.ge)
      · have h1 := o.remaining_cancelled node
        have h2 := o.initial_cancelled node
        exact h1.trans_le (hb.trans h2.ge)

theorem row_settled {n : EventNode} {o' : LiveOrder} (hb : o.Within)
    (hs : LiveOrder.Settled p n o) (hq : ∀ q ∈ event.placement node ob id, q = p)
    (h : event.row node ob id (some o) = some o') : LiveOrder.Settled p n o' := by
  cases hp : event.placement node ob id with
  | some q =>
    obtain rfl := hq q hp
    rw [row_placement hp] at h
    cases h
    exact hs.replaced
  | none =>
    rcases row_other hp o with h' | ⟨a, h'⟩ | ⟨f, h'⟩ | h' <;>
      cases h.symm.trans h'
    · exact hs
    · exact hs.confirmed a
    · exact hs.filled f hb
    · exact LiveOrder.Settled.cancelled

end Event

/-- The tables after a sequence of events, each tried as it comes. -/
def projectAll (log : List (EventNode × PredictionEvent)) : LiveDb :=
  log.foldl (fun db x => projected db x.1 x.2) .empty

section Log

variable (log later : List (EventNode × PredictionEvent)) (ob : Addr) (id : ℕ)

/-- The row of an order after a sequence of events. -/
def rowAfter : Option LiveOrder := (projectAll log).liveOrders ob id

theorem rowAfter_concat (x : EventNode × PredictionEvent) :
    rowAfter (log ++ [x]) ob id = x.2.row x.1 ob id (rowAfter log ob id) := by
  simp only [rowAfter, projectAll, List.foldl_append, List.foldl_cons, List.foldl_nil]
  exact projected_row x.2

variable {log ob id} {o : LiveOrder}

theorem rowAfter_within (h : rowAfter log ob id = some o) : o.Within := by
  induction log using List.reverseRecOn generalizing o with
  | nil => cases h
  | append_singleton log x ih =>
    rw [rowAfter_concat] at h
    exact row_within (fun _ hr => ih hr) h

theorem rowAfter_keeps (h : rowAfter log ob id = some o) :
    ∃ o', rowAfter (log ++ later) ob id = some o' ∧ o.Keeps o' := by
  induction later using List.reverseRecOn with
  | nil => exact ⟨o, by rwa [List.append_nil], .refl o⟩
  | append_singleton later x ih =>
    obtain ⟨o₁, h₁, hk⟩ := ih
    obtain ⟨o₂, h₂, hk'⟩ := row_keeps x.2 x.1 ob id o₁
    refine ⟨o₂, ?_, hk.trans hk'⟩
    rw [← List.append_assoc, rowAfter_concat, h₁, h₂]

theorem rowAfter_initial {a : ℕ} (ho : rowAfter log ob id = some o)
    (hp : ∀ x ∈ log, ∀ p ∈ x.2.placement x.1 ob id, p.amount = a) : o.amountInitial = a := by
  induction log using List.reverseRecOn generalizing o with
  | nil => cases ho
  | append_singleton log x ih =>
    have hlog : ∀ {o}, rowAfter log ob id = some o → o.amountInitial = a :=
      fun ho => ih ho fun y hy => hp y (List.mem_append_left _ hy)
    have hx : ∀ p ∈ x.2.placement x.1 ob id, p.amount = a := hp x (by simp)
    rw [rowAfter_concat] at ho
    cases hr : rowAfter log ob id with
    | some =>
      rw [hr] at ho
      have h₁ := hlog hr
      exact (row_initial ho fun p hp => (hx p hp).trans h₁.symm).trans h₁
    | none =>
      rw [hr] at ho
      cases hq : x.2.placement x.1 ob id with
      | some p =>
        rw [row_placement hq] at ho
        cases ho
        exact hx p hq
      | none =>
        rw [row_none hq] at ho
        cases ho

theorem rowAfter_remaining {a : ℕ} (ho : rowAfter log ob id = some o) (ha : o.amountInitial = a)
    (hp : ∀ x ∈ later, ∀ p ∈ x.2.placement x.1 ob id, p.amount = a) :
    ∃ o', rowAfter (log ++ later) ob id = some o' ∧ o'.amountInitial = a ∧
      o'.amountRemaining ≤ o.amountRemaining := by
  induction later using List.reverseRecOn with
  | nil => exact ⟨o, by rwa [List.append_nil], ha, le_rfl⟩
  | append_singleton later x ih =>
    obtain ⟨o₁, h₁, ha₁, hle⟩ := ih fun y hy => hp y (List.mem_append_left _ hy)
    obtain ⟨o₂, h₂, -⟩ := row_keeps x.2 x.1 ob id o₁
    have hx : ∀ p ∈ x.2.placement x.1 ob id, p.amount = a := hp x (by simp)
    have ha₂ : o₂.amountInitial = o₁.amountInitial :=
      row_initial h₂ fun p hp => (hx p hp).trans ha₁.symm
    refine ⟨o₂, by rw [← List.append_assoc, rowAfter_concat, h₁, h₂], ha₂.trans ha₁, ?_⟩
    apply hle.trans'
    by_contra hlt
    obtain ⟨ht, p, hp, hlt⟩ := (row_rises h₂).mp (not_le.mp hlt)
    have h1 := hx p hp
    have h2 := ht.2
    omega

theorem rowAfter_placed_again {x : EventNode × PredictionEvent} {p : Placement}
    (hx : x.2.placement x.1 ob id = some p)
    (hp : ∀ y ∈ later, ∀ q ∈ y.2.placement y.1 ob id, q = p) :
    ∃ o, rowAfter (log ++ x :: later) ob id = some o ∧ LiveOrder.Settled p x.1 o := by
  rw [List.append_cons]
  induction later using List.reverseRecOn with
  | nil =>
    rw [List.append_nil, rowAfter_concat, row_placement hx]
    refine ⟨_, rfl, ?_⟩
    cases rowAfter log ob id with
    | none => exact LiveOrder.settled_row p x.1
    | some o => exact o.settled_replaced p x.1
  | append_singleton later y ih =>
    obtain ⟨o, ho, hs⟩ := ih fun z hz => hp z (List.mem_append_left _ hz)
    obtain ⟨o', h', -⟩ := row_keeps y.2 y.1 ob id o
    refine ⟨o', by rw [← List.append_assoc, rowAfter_concat, ho, h'], ?_⟩
    exact row_settled (rowAfter_within ho) hs (hp y (by simp)) h'

end Log

/-- The event was taken, and it was not a fill: a placement that parsed, or a confirmation or a
cancellation that found its row. -/
def Applied (log : List (EventNode × PredictionEvent)) (x : EventNode × PredictionEvent) : Prop :=
  x.2.isFill = false ∧ ∃ db, projectPredictionEvent (projectAll log) x.1 x.2 = some (db, .Applied)

section Again

variable {log later : List (EventNode × PredictionEvent)} {node : EventNode} {ob : Addr} {id : ℕ}

theorem rowAfter_updated_again {event : PredictionEvent} {g : LiveOrder → LiveOrder}
    (hrow : ∀ r, event.row node ob id r = r.map g)
    (hfound : (rowAfter log ob id).isSome) (hagain : ∀ o o', (g o).Keeps o' → g o' = o') :
    event.row node ob id (rowAfter (log ++ (node, event) :: later) ob id) =
      rowAfter (log ++ (node, event) :: later) ob id := by
  obtain ⟨o, ho⟩ := Option.isSome_iff_exists.mp hfound
  have hx : rowAfter (log ++ [(node, event)]) ob id = some (g o) := by
    rw [rowAfter_concat, ho]
    exact hrow (some o)
  obtain ⟨o', h', hk⟩ := rowAfter_keeps later hx
  rw [List.append_cons, h', hrow]
  exact congrArg some (hagain o o' hk)

theorem confirmed_again {o o' : LiveOrder} {note : Addr} (h : (o.confirmed note).Keeps o') :
    o'.confirmed note = o' := by
  obtain ⟨a, ha⟩ : ∃ a, (o.confirmed note).ownerPnAddress = some a := by
    change ∃ a, o.ownerPnAddress.or (some note) = some a
    cases o.ownerPnAddress with
    | none => exact ⟨note, rfl⟩
    | some a => exact ⟨a, rfl⟩
  have ho := h.owner a ha
  unfold LiveOrder.confirmed
  rw [ho, Option.some_or, ← ho]

theorem cancelled_again {o o' : LiveOrder} (h : (o.cancelled node).Keeps o') :
    o'.cancelled node = o' :=
  if_pos (h.stays (o.terminal_cancelled node))

/-- An event that was taken changes no row when it comes again, as long as a placement finds no
other placement of its row after it. -/
theorem rowAfter_again {x : EventNode × PredictionEvent} (h : Applied log x)
    (hp : ∀ p ∈ x.2.placement x.1 ob id, ∀ y ∈ later, ∀ q ∈ y.2.placement y.1 ob id, q = p) :
    rowAfter (log ++ x :: later ++ [x]) ob id = rowAfter (log ++ x :: later) ob id := by
  obtain ⟨node, event⟩ := x
  obtain ⟨hfill, db, hdb⟩ := h
  rw [rowAfter_concat]
  cases event with
  | OrderPlaced orderId outcomeId isBuy price amount clientOrderId =>
    let event : PredictionEvent := .OrderPlaced orderId outcomeId isBuy price amount clientOrderId
    cases hx : event.placement node ob id with
    | some p =>
      have hagain : ∃ o, rowAfter (log ++ (node, event) :: later) ob id = some o ∧
          LiveOrder.Settled p node o := rowAfter_placed_again later hx (hp p hx)
      obtain ⟨o, ho, hs⟩ := hagain
      rw [ho, row_placement hx]
      exact congrArg some (LiveOrder.replaced_settled hs)
    | none =>
      simp only [event, PredictionEvent.placement] at hx
      split_ifs at hx with hc
      exact if_neg hc
  | OrderPlacedConfirmed orderBook orderId =>
    by_cases hc : ob = orderBook ∧ id = orderId
    · obtain ⟨rfl, rfl⟩ := hc
      apply rowAfter_updated_again (g := (·.confirmed node.src))
      · intro r
        simp [PredictionEvent.row]
      · rw [rowAfter]
        simp only [projectPredictionEvent, applyOrderPlacedConfirmed] at hdb
        cases hr : (projectAll log).liveOrders ob id with
        | none => simp [hr] at hdb
        | some => rfl
      · intro o o' hk
        exact confirmed_again hk
    · exact if_neg hc
  | OrderCancelled orderId =>
    by_cases hc : ob = node.src ∧ id = orderId
    · obtain ⟨rfl, rfl⟩ := hc
      apply rowAfter_updated_again (g := (·.cancelled node))
      · intro r
        simp [PredictionEvent.row]
      · rw [rowAfter]
        simp only [projectPredictionEvent, applyOrderCancelled] at hdb
        cases hr : (projectAll log).liveOrders node.src id with
        | none => simp [hr] at hdb
        | some => rfl
      · intro o o' hk
        exact cancelled_again hk
    · exact if_neg hc
  | OrderFilled => cases hfill
  | other => rfl

end Again

/-- The laws of a row of `live_orders`. -/
theorem live_orders_laws (log : List (EventNode × PredictionEvent)) (ob : Addr) (id : ℕ) :
    (∀ later o, rowAfter log ob id = some o →
      ∃ o', rowAfter (log ++ later) ob id = some o' ∧
        o.amountRemaining ≤ o.amountInitial ∧ o.Keeps o' ∧
        ((∃ a, ∀ x ∈ log ++ later, ∀ p ∈ x.2.placement x.1 ob id, p.amount = a) →
          o'.amountRemaining ≤ o.amountRemaining)) ∧
    (∀ x o o', rowAfter log ob id = some o → rowAfter (log ++ [x]) ob id = some o' →
      (o.amountRemaining < o'.amountRemaining ↔
        o.takesPlacement ∧
          ∃ p, x.2.placement x.1 ob id = some p ∧ o.amountRemaining < p.amount)) ∧
    ∀ before x later, log = before ++ x :: later → Applied before x →
      (∀ p ∈ x.2.placement x.1 ob id, ∀ y ∈ later, ∀ q ∈ y.2.placement y.1 ob id, q = p) →
      rowAfter (log ++ [x]) ob id = rowAfter log ob id := by
  refine ⟨?_, ?_, ?_⟩
  · intro later o ho
    obtain ⟨o', h', hk⟩ := rowAfter_keeps later ho
    refine ⟨o', h', rowAfter_within ho, hk, ?_⟩
    rintro ⟨a, ha⟩
    have hlog : o.amountInitial = a :=
      rowAfter_initial ho fun x hx => ha x (List.mem_append_left _ hx)
    obtain ⟨o₁, h₁, -, hle⟩ :=
      rowAfter_remaining later ho hlog fun x hx => ha x (List.mem_append_right _ hx)
    cases h'.symm.trans h₁
    exact hle
  · intro x o o' ho h'
    rw [rowAfter_concat, ho] at h'
    exact row_rises h'
  · rintro before x later rfl hx hp
    exact rowAfter_again hx hp

/-- Two placements of one row that differ: the second lifts what remains, and the first one, come
again, puts it back. -/
theorem live_orders_two_placements :
    let small : EventNode × PredictionEvent :=
      (⟨.ext 1, 1, some 1⟩, .OrderPlaced 1 0 true 100 5 none)
    let large : EventNode × PredictionEvent :=
      (⟨.ext 1, 2, some 2⟩, .OrderPlaced 1 0 true 100 7 none)
    (rowAfter [small] (.ext 1) 1).map (·.amountRemaining) = some 5 ∧
    (rowAfter [small, large] (.ext 1) 1).map (·.amountRemaining) = some 7 ∧
    Applied [] small ∧
    rowAfter [small, large, small] (.ext 1) 1 ≠ rowAfter [small, large] (.ext 1) 1 := by
  refine ⟨by decide, by decide, ⟨rfl, _, rfl⟩, by decide⟩

/-- A partly filled order cancelled twice; its remainder has shrunk since it was placed, where a
second, larger placement would have lifted it. -/
theorem live_orders_laws_cancelled :
    let placed : EventNode × PredictionEvent :=
      (⟨.ext 1, 1, some 1⟩, .OrderPlaced 1 0 true 100 5 none)
    let filled : EventNode × PredictionEvent := (⟨.ext 1, 2, some 2⟩, .OrderFilled 1 3 100 false)
    let cancelled : EventNode × PredictionEvent := (⟨.ext 1, 3, some 3⟩, .OrderCancelled 1)
    let large : EventNode × PredictionEvent :=
      (⟨.ext 1, 2, some 2⟩, .OrderPlaced 1 0 true 100 7 none)
    rowAfter [placed, filled, cancelled, cancelled] (.ext 1) 1 =
      rowAfter [placed, filled, cancelled] (.ext 1) 1 ∧
    ∃ o o₁ o₂, rowAfter [placed] (.ext 1) 1 = some o ∧
      rowAfter [placed, filled, cancelled] (.ext 1) 1 = some o₁ ∧
      o₁.amountRemaining ≤ o.amountRemaining ∧
      rowAfter [placed, large] (.ext 1) 1 = some o₂ ∧ o.amountRemaining < o₂.amountRemaining := by
  intro placed filled cancelled large
  constructor
  · apply (live_orders_laws [placed, filled, cancelled] (.ext 1) 1).2.2 [placed, filled] cancelled []
    · rfl
    · exact ⟨rfl, _, rfl⟩
    · intro p hp
      cases hp
  · have hplaced : ∃ o, rowAfter [placed] (.ext 1) 1 = some o ∧ o.takesPlacement ∧
        o.amountRemaining = 5 := ⟨_, rfl, by decide, rfl⟩
    have hlarge : ∃ o, rowAfter ([placed] ++ [large]) (.ext 1) 1 = some o := ⟨_, rfl⟩
    obtain ⟨o, ho, htakes, hfive⟩ := hplaced
    have hless : o.amountRemaining < 7 := by omega
    obtain ⟨o₂, h₂⟩ := hlarge
    obtain ⟨hkeeps, hrises, -⟩ := live_orders_laws [placed] (.ext 1) 1
    obtain ⟨o₁, h₁, -, -, hle⟩ := hkeeps [filled, cancelled] o ho
    refine ⟨o, o₁, o₂, ho, h₁, hle ⟨5, by decide⟩, h₂, ?_⟩
    exact (hrises large o o₂ ho h₂).mpr ⟨htakes, ⟨0, true, 100, 7, none⟩, rfl, hless⟩

end ReadModel

end Dexdo
