import Dexdo.OrderBook.Run

namespace Dexdo

/-- What a callback tells its note, without the amounts. -/
inductive Answer
  | rejected
  | placed (orderId : ℕ)
  | filled (orderId : ℕ) (isFinal : Bool)
  | cancelled (orderId : ℕ)
  deriving DecidableEq

/-- Whom an answer concerns: a note and the client's id of its order. -/
structure Party where
  owner : ℕ
  clientOrderId : ℕ
  deriving DecidableEq

def Callback.answer? (dest : ℕ) : Callback → Option (Party × Answer)
  | .onOrderPlaced id _ _ clientOrderId _ _ _ _ _ _ => some (⟨dest, clientOrderId⟩, .placed id)
  | .onOrderRejected _ _ _ _ _ _ clientOrderId _ => some (⟨dest, clientOrderId⟩, .rejected)
  | .onOrderCancelled id _ _ _ clientOrderId _ => some (⟨dest, clientOrderId⟩, .cancelled id)
  | .onOrderFilled _ _ _ _ _ _ _ id isFinal _ clientOrderId =>
    some (⟨dest, clientOrderId⟩, .filled id isFinal)
  | .onBatchComplete _ => none

/-- Answers sent for submission `k`, in order. -/
def answers (k : ℕ) (os : List Out) : List (Party × Answer) :=
  os.filterMap fun o => if o.sub = k then o.cb.answer? o.dest else none

/-- Answers of an order that has been placed and is still live. -/
def opening (h : Party) (id fills : ℕ) : List (Party × Answer) :=
  (h, .placed id) :: List.replicate fills (h, .filled id false)

/-- Answers of an order that is over: a rejection, or a placement, fills and one terminal answer. -/
def Closed (h : Party) (as : List (Party × Answer)) : Prop :=
  as = [(h, .rejected)] ∨ ∃ id fills a, (a = .filled id true ∨ a = .cancelled id) ∧
    as = opening h id fills ++ [(h, a)]

/-- The party an item is answered to. -/
def Item.party (x : Item) : Party := ⟨x.owner, x.clientOrderId⟩

/-- The answers `as` to one submission of `h` fit the items `F` the book still holds for it. -/
inductive Answered (h : Party) (F : Multiset Item) (as : List (Party × Answer)) : Prop
  | waiting (x : Item) (hF : F = {x}) (hx : x.party = h ∧ x.orderId = 0) (has : as = [])
  | live (x : Item) (fills : ℕ) (hF : F = {x}) (hx : x.party = h ∧ x.orderId ≠ 0)
      (has : as = opening h x.orderId fills)
  | gone (hF : F = 0) (has : Closed h as)

theorem answers_append (k : ℕ) (os os' : List Out) :
    answers k (os ++ os') = answers k os ++ answers k os' :=
  List.filterMap_append

theorem answers_cons_of_ne {k : ℕ} {o : Out} (h : o.sub ≠ k) (os : List Out) :
    answers k (o :: os) = answers k os := by
  simp [answers, h]

theorem answers_eq_nil {k : ℕ} {os : List Out} (h : ∀ o ∈ os, o.cb.isAck = false → o.sub ≠ k) :
    answers k os = [] := by
  induction os with
  | nil => rfl
  | cons o os ih =>
    have ih := ih fun o' ho' => h o' (List.mem_cons_of_mem _ ho')
    by_cases hk : o.sub = k
    · have hack : o.cb.isAck = true := by
        by_contra hn
        exact h o (by simp) (Bool.eq_false_iff.mpr hn) hk
      cases hc : o.cb with
      | onBatchComplete => simpa [answers, hk, hc, Callback.answer?, Item.party] using ih
      | _ => simp [hc, Callback.isAck] at hack
    · rw [answers_cons_of_ne hk, ih]

theorem opening_succ (h : Party) (id fills : ℕ) :
    opening h id fills ++ [(h, .filled id false)] = opening h id (fills + 1) := by
  rw [opening, opening, List.cons_append, ← List.replicate_succ']

namespace Item

/-- Items of one submission. -/
def of (k : ℕ) (M : Multiset Item) : Multiset Item := M.filter fun x => x.sub = k

variable {k : ℕ} {x : Item} {M : Multiset Item}

@[simp] theorem of_zero : Item.of k 0 = 0 := rfl

theorem of_cons_pos (h : x.sub = k) : Item.of k (x ::ₘ M) = x ::ₘ Item.of k M :=
  Multiset.filter_cons_of_pos (p := fun x : Item => x.sub = k) M h

theorem of_cons_neg (h : x.sub ≠ k) : Item.of k (x ::ₘ M) = Item.of k M :=
  Multiset.filter_cons_of_neg (p := fun x : Item => x.sub = k) M h

theorem of_add (M M' : Multiset Item) : Item.of k (M + M') = Item.of k M + Item.of k M' :=
  Multiset.filter_add ..

theorem of_eq_zero (h : ∀ y ∈ M, y.sub ≠ k) : Item.of k M = 0 :=
  Multiset.filter_eq_nil.mpr h

theorem of_after {spent : ℕ} : Item.of k (x.after spent) =
    if x.sub = k then x.after spent else 0 := by
  unfold after
  by_cases h1 : x.amount = spent
  · simp [h1]
  · rw [if_neg h1, ← Multiset.cons_zero]
    by_cases h2 : x.sub = k
    · rw [of_cons_pos (by exact h2), if_pos h2, of_zero]
    · rw [of_cons_neg (by exact h2), if_neg h2, of_zero]

end Item

variable {N k : ℕ} {h : Party} {M M' : Multiset Item} {os : List Out} {as : List (Party × Answer)}

theorem Answered.other {x : Item} (ha : Answered h (Item.of k (x ::ₘ M)) as) (hx : x.sub ≠ k) :
    Answered h (Item.of k M) as := by
  rwa [Item.of_cons_neg hx] at ha

theorem Answered.own {x : Item} (ha : Answered h (Item.of k (x ::ₘ M)) as) (hx : x.sub = k) :
    Item.of k M = 0 ∧ x.party = h ∧ (x.orderId = 0 → as = []) ∧
      (x.orderId ≠ 0 → ∃ fills, as = opening h x.orderId fills) := by
  rw [Item.of_cons_pos hx] at ha
  have hsplit : ∀ y, x ::ₘ Item.of k M = {y} → y = x ∧ Item.of k M = 0 := by
    intro y hy
    rw [← Multiset.cons_zero] at hy
    obtain ⟨h1, h2⟩ | ⟨hne, cs, -, h3⟩ := Multiset.cons_eq_cons.mp hy
    · exact ⟨h1.symm, h2⟩
    · simp at h3
  cases ha with
  | waiting y hF hy has =>
    obtain ⟨rfl, h0⟩ := hsplit y hF
    exact ⟨h0, hy.1, fun _ => has, fun hne => absurd hy.2 hne⟩
  | live y fills hF hy has =>
    obtain ⟨rfl, h0⟩ := hsplit y hF
    exact ⟨h0, hy.1, fun h0 => absurd h0 hy.2, fun _ => ⟨fills, has⟩⟩
  | gone hF => simp at hF

theorem Answered.filled {x : Item} {spent fills : ℕ} (hx : x.orderId ≠ 0) :
    Answered x.party (x.after spent)
      (opening x.party x.orderId fills ++
        [(x.party, .filled x.orderId (decide (x.amount = spent)))]) := by
  unfold Item.after
  by_cases he : x.amount = spent
  · rw [if_pos he]
    exact .gone rfl (.inr ⟨_, _, _, .inl (by simp [he]), rfl⟩)
  · rw [if_neg he]
    refine .live { x with amount := x.amount - spent } (fills + 1) rfl ⟨rfl, hx⟩ ?_
    rw [decide_eq_false he, opening_succ]

/-- Every ledger move extends the answers to a submission the way it may. -/
theorem LedgerStep.answered (hs : LedgerStep N M os M') (ha : Answered h (Item.of k M) as) :
    Answered h (Item.of k M') (as ++ answers k os) := by
  cases hs with
  | reject x M opNonce c hx =>
    by_cases hk : x.sub = k
    · obtain ⟨h0, rfl, h1, -⟩ := ha.own hk
      rw [h1 hx, h0]
      exact .gone rfl (.inl (by simp [answers, hk, Item.rejected, Callback.answer?, Item.party]))
    · rw [answers_cons_of_ne hk]
      simpa [answers] using ha.other hk
  | place x M id opNonce c hx hid =>
    by_cases hk : x.sub = k
    · obtain ⟨h0, rfl, h1, -⟩ := ha.own hk
      rw [h1 hx]
      refine .live { x with orderId := id } 0 ?_ ⟨rfl, hid⟩ ?_
      · rw [Item.of_cons_pos (by exact hk), h0]
        rfl
      · simp [answers, hk, Item.placed, Callback.answer?, Item.party, opening]
    · rw [answers_cons_of_ne hk, Item.of_cons_neg (by exact hk)]
      simpa [answers] using ha.other hk
  | fill t m M trade c hm _ _ _ =>
    have hcomm : Item.of k (t ::ₘ m ::ₘ M) = Item.of k (m ::ₘ t ::ₘ M) := by
      rw [Multiset.cons_swap]
    rw [Item.of_add, Item.of_add, Item.of_after, Item.of_after]
    by_cases ht : t.sub = k
    · obtain ⟨h0, rfl, -, h1⟩ := ha.own ht
      obtain ⟨fills, rfl⟩ := h1 hm.live.2
      have hmk : m.sub ≠ k := by
        intro hmk
        rw [Item.of_cons_pos hmk] at h0
        simp at h0
      rw [Item.of_cons_neg hmk] at h0
      rw [if_pos ht, if_neg hmk, answers_cons_of_ne hmk, h0, add_zero, add_zero]
      simpa [answers, ht, Item.takerFilled, Callback.answer?, Item.party] using Answered.filled hm.live.2
    · by_cases hmk : m.sub = k
      · rw [hcomm] at ha
        obtain ⟨h0, rfl, -, h1⟩ := ha.own hmk
        obtain ⟨fills, rfl⟩ := h1 hm.live.1
        rw [Item.of_cons_neg ht] at h0
        rw [if_neg ht, if_pos hmk, h0, add_zero, zero_add]
        simpa [answers, ht, hmk, Item.makerFilled, Callback.answer?, Item.party] using
          Answered.filled hm.live.1
      · rw [if_neg ht, if_neg hmk, answers_cons_of_ne hmk, answers_cons_of_ne ht]
        simpa [answers] using (ha.other ht).other hmk
  | cancel x M returnAmt opNonce c hx =>
    by_cases hk : x.sub = k
    · obtain ⟨h0, rfl, -, h1⟩ := ha.own hk
      obtain ⟨fills, rfl⟩ := h1 hx
      rw [h0]
      exact .gone rfl (.inr ⟨x.orderId, fills, _, .inr rfl, by
        simp [answers, hk, Item.cancelled, Callback.answer?, Item.party]⟩)
    · rw [answers_cons_of_ne hk]
      simpa [answers] using ha.other hk
  | ack => simpa [answers, Callback.answer?, Item.party] using ha

theorem LedgerPath.answered (hp : LedgerPath N M os M') (ha : Answered h (Item.of k M) as) :
    Answered h (Item.of k M') (as ++ answers k os) := by
  induction hp with
  | refl => simpa [answers] using ha
  | snoc hp hs ih =>
    rw [answers_append, ← List.append_assoc]
    exact hs.answered ih

/-- Ledger moves neither bring in submissions nor answer absent ones. -/
theorem LedgerPath.sub_lt {n : ℕ} (hp : LedgerPath N M os M') (hM : ∀ x ∈ M, x.sub < n) :
    (∀ x ∈ M', x.sub < n) ∧ ∀ o ∈ os, o.cb.isAck = false → o.sub < n := by
  have hafter : ∀ {x : Item} {spent : ℕ}, x.sub < n → ∀ y ∈ x.after spent, y.sub < n := by
    intro x spent hx y hy
    unfold Item.after at hy
    split_ifs at hy
    · simp at hy
    · rw [Multiset.mem_singleton.mp hy]
      exact hx
  induction hp with
  | refl => exact ⟨hM, by simp⟩
  | snoc hp hs ih =>
    obtain ⟨h1, h2⟩ := ih
    suffices h : (∀ x ∈ _, Item.sub x < n) ∧ ∀ o ∈ _, Callback.isAck (Out.cb o) = false → o.sub < n by
      refine ⟨h.1, fun o ho => ?_⟩
      rcases List.mem_append.mp ho with ho | ho
      exacts [h2 o ho, h.2 o ho]
    cases hs with
    | reject x M opNonce c hx =>
      have hx := h1 x (by simp)
      exact ⟨fun y hy => h1 y (by simp [hy]), by simpa using fun _ => hx⟩
    | place x M id opNonce c hx =>
      have hx := h1 x (by simp)
      refine ⟨fun y hy => ?_, by simpa using fun _ => hx⟩
      rcases Multiset.mem_cons.mp hy with rfl | hy
      exacts [hx, h1 y (by simp [hy])]
    | fill t m M trade c hm _ _ _ =>
      have ht := h1 t (by simp)
      have hm := h1 m (by simp)
      refine ⟨fun y hy => ?_, by simpa using ⟨fun _ => hm, fun _ => ht⟩⟩
      rcases Multiset.mem_add.mp hy with hy | hy
      · exact hafter ht y hy
      · rcases Multiset.mem_add.mp hy with hy | hy
        exacts [hafter hm y hy, h1 y (by simp [hy])]
    | cancel x M returnAmt opNonce c hx =>
      have hx := h1 x (by simp)
      exact ⟨fun y hy => h1 y (by simp [hy]), by simpa using fun _ => hx⟩
    | ack => exact ⟨h1, by simp [Callback.isAck]⟩

/-- Orders a call submits. -/
def Call.orders : Call → List (ℕ × PlaceParams)
  | .executeBatch _ _ h orders _ _ => orders.map fun p => (h, p)
  | _ => []

/-- Owner and parameters of every order submitted in a run; the index is its number. -/
def submissions (tr : List (Call × OrderBook)) : List (ℕ × PlaceParams) :=
  tr.flatMap fun x => x.1.orders

/-- Callbacks sent in a run, oldest first. -/
def traceOuts (tr : List (Call × OrderBook)) : List Out := tr.flatMap fun x => x.2.outs

theorem submissions_snoc (tr : List (Call × OrderBook)) (c : Call) (t : OrderBook) :
    submissions (tr ++ [(c, t)]) = submissions tr ++ c.orders := by simp [submissions]

theorem traceOuts_snoc (tr : List (Call × OrderBook)) (c : Call) (t : OrderBook) :
    traceOuts (tr ++ [(c, t)]) = traceOuts tr ++ t.outs := by simp [traceOuts]

theorem submission_sub {owner sub : ℕ} {ops : List PlaceParams} {x : Item}
    (hx : x ∈ submission owner sub ops) : sub ≤ x.sub ∧ x.sub < sub + ops.length := by
  induction ops generalizing sub with
  | nil => simp [submission] at hx
  | cons p ops ih =>
    rw [List.length_cons]
    rcases Multiset.mem_cons.mp hx with rfl | hx
    · exact ⟨le_rfl, by simp [Item.ofParams]⟩
    · have := ih hx
      omega

theorem submission_of {owner sub i : ℕ} {ops : List PlaceParams} {p : PlaceParams}
    (hp : ops[i]? = some p) :
    Item.of (sub + i) (submission owner sub ops) = {Item.ofParams (sub + i) owner 0 p} := by
  induction ops generalizing sub i with
  | nil => simp at hp
  | cons q ops ih =>
    cases i with
    | zero =>
      obtain rfl : q = p := by simpa using hp
      rw [submission, Item.of_cons_pos (Nat.add_zero sub).symm, Item.of_eq_zero]
      · rfl
      · intro y hy
        have := (submission_sub hy).1
        omega
    | succ i =>
      have hne : (Item.ofParams sub owner 0 q).sub ≠ sub + (i + 1) := by simp [Item.ofParams]
      rw [submission, Item.of_cons_neg hne, Nat.add_comm i, ← Nat.add_assoc]
      exact ih (by simpa using hp)

theorem Call.submitted_sub {c : Call} {sub : ℕ} {x : Item} (hx : x ∈ c.submitted sub) :
    sub ≤ x.sub ∧ x.sub < sub + c.submittedCount := by
  cases c with
  | executeBatch => exact submission_sub hx
  | _ => simp [Call.submitted] at hx

theorem Call.orders_length (c : Call) : c.orders.length = c.submittedCount := by
  cases c <;> simp [Call.orders, Call.submittedCount]

theorem Call.submitted_of {c : Call} {sub i h : ℕ} {p : PlaceParams}
    (hp : c.orders[i]? = some (h, p)) :
    Item.of (sub + i) (c.submitted sub) = {Item.ofParams (sub + i) h 0 p} := by
  cases c with
  | executeBatch =>
    simp only [Call.orders, List.getElem?_map, Option.map_eq_some_iff, Prod.mk.injEq] at hp
    obtain ⟨q, hq, rfl, rfl⟩ := hp
    exact submission_of hq
  | _ => simp [Call.orders] at hp

/-- Between calls every submission so far has fitting answers. -/
structure Tracked (tr : List (Call × OrderBook)) (s : OrderBook) : Prop where
  count : s.subs = (submissions tr).length
  items : ∀ x ∈ s.items, x.sub < s.subs
  outs : ∀ o ∈ traceOuts tr, o.cb.isAck = false → o.sub < s.subs
  answered : ∀ k h p, (submissions tr)[k]? = some (h, p) →
    Answered ⟨h, p.clientOrderId⟩ (Item.of k s.items) (answers k (traceOuts tr))

theorem Tracked.step {tr : List (Call × OrderBook)} {s t : OrderBook} {c : Call}
    (ht : Tracked tr s) (hm : OrderBook.Moves (c.submitted s.subs) c.submittedCount s t) :
    Tracked (tr ++ [(c, t)]) t := by
  have hM : ∀ x ∈ c.submitted s.subs + s.items, x.sub < t.subs := by
    intro x hx
    rw [hm.subs]
    rcases Multiset.mem_add.mp hx with hx | hx
    · exact (Call.submitted_sub hx).2
    · exact (ht.items x hx).trans_le (Nat.le_add_right _ _)
  obtain ⟨h1, h2⟩ := hm.path.sub_lt hM
  refine ⟨?_, h1, ?_, ?_⟩
  · rw [hm.subs, ht.count, submissions_snoc, List.length_append, c.orders_length]
  · rw [traceOuts_snoc]
    intro o ho hack
    rcases List.mem_append.mp ho with ho | ho
    · rw [hm.subs]
      exact (ht.outs o ho hack).trans_le (Nat.le_add_right _ _)
    · exact h2 o ho hack
  · intro k h p hk
    rw [traceOuts_snoc, answers_append]
    apply hm.path.answered
    rw [submissions_snoc] at hk
    rw [Item.of_add]
    by_cases hlt : k < s.subs
    · have hz : Item.of k (c.submitted s.subs) = 0 := by
        apply Item.of_eq_zero
        intro y hy
        have := (Call.submitted_sub hy).1
        omega
      rw [List.getElem?_append_left (ht.count ▸ hlt)] at hk
      rw [hz, zero_add]
      exact ht.answered k h p hk
    · obtain ⟨i, rfl⟩ := Nat.exists_eq_add_of_le (not_lt.mp hlt)
      have hz : Item.of (s.subs + i) s.items = 0 := by
        apply Item.of_eq_zero
        intro y hy
        have := ht.items y hy
        omega
      have hnil : answers (s.subs + i) (traceOuts tr) = [] := by
        apply answers_eq_nil
        intro o ho hack
        have := ht.outs o ho hack
        omega
      rw [List.getElem?_append_right (by rw [← ht.count]; omega), ← ht.count, Nat.add_sub_cancel_left] at hk
      rw [hz, add_zero, hnil, Call.submitted_of hk]
      exact .waiting _ rfl ⟨rfl, rfl⟩ rfl

end Dexdo
