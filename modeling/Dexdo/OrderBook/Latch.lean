import Dexdo.Lib.Mirror
import Dexdo.OrderBook.Accounts
import Dexdo.OrderBook.Says

namespace Dexdo

/-- What the callbacks tell note `d`, in order. -/
def noticesTo (d : ℕ) (os : List Out) : List Notice :=
  (os.filter fun o => decide (o.dest = d)).map fun o => o.cb.notice

theorem noticesTo_append (d : ℕ) (os os' : List Out) :
    noticesTo d (os ++ os') = noticesTo d os ++ noticesTo d os' := by
  simp [noticesTo]

@[simp] theorem noticesTo_nil (d : ℕ) : noticesTo d [] = [] := rfl

theorem noticesTo_cons (d : ℕ) (o : Out) (os : List Out) : noticesTo d (o :: os) =
    if o.dest = d then o.cb.notice :: noticesTo d os else noticesTo d os := by
  unfold noticesTo
  split_ifs with h <;> simp [h]

theorem mem_noticesTo {d : ℕ} {os : List Out} {x : Notice} (h : x ∈ noticesTo d os) :
    ∃ o ∈ os, o.dest = d ∧ o.cb.notice = x := by
  obtain ⟨o, ho, hx⟩ := List.mem_map.mp h
  obtain ⟨ho, hd⟩ := List.mem_filter.mp ho
  exact ⟨o, ho, of_decide_eq_true hd, hx⟩

theorem noticesTo_eq_nil {d : ℕ} {os : List Out} (h : ∀ o ∈ os, o.dest ≠ d) :
    noticesTo d os = [] := by
  rw [List.eq_nil_iff_forall_not_mem]
  intro x hx
  obtain ⟨o, ho, hd, -⟩ := mem_noticesTo hx
  exact h o ho hd

namespace Notice

/-- An answer to a submission. -/
def answers : Notice → ℕ
  | placed _ | rejected _ => 1
  | _ => 0

/-- Count of the live orders of a note, as a note keeps it: an order that ends has been counted. -/
def tally (n : ℕ) : Notice → Option ℕ
  | placed _ => some (n + 1)
  | cancelled _ => if 0 < n then some (n - 1) else none
  | filled isFinal => if 0 < n then some (if isFinal then n - 1 else n) else none
  | _ => some n

/-- Nonce of the operation a notice names. -/
def opNonce? : Notice → Option ℕ
  | placed n | rejected n | cancelled n | complete n => some n
  | filled _ => none

end Notice

/-- Orders of note `d` that have no answer yet. -/
def waits (d : ℕ) (M : Multiset Item) : ℕ :=
  (M.map fun x => if x.owner = d ∧ x.orderId = 0 then 1 else 0).sum

/-- Orders of note `d` that have been placed. -/
def lives (d : ℕ) (M : Multiset Item) : ℕ :=
  (M.map fun x => if x.owner = d ∧ x.orderId ≠ 0 then 1 else 0).sum

/-- Answers among the notices. -/
def answersIn (xs : List Notice) : ℕ := (xs.map Notice.answers).sum

theorem answersIn_append (xs ys : List Notice) :
    answersIn (xs ++ ys) = answersIn xs + answersIn ys := by
  simp [answersIn]

section Counts

variable {N d : ℕ} {M M' : Multiset Item} {os : List Out}

theorem waits_cons (x : Item) : waits d (x ::ₘ M) =
    (if x.owner = d ∧ x.orderId = 0 then 1 else 0) + waits d M := by
  simp [waits]

theorem lives_cons (x : Item) : lives d (x ::ₘ M) =
    (if x.owner = d ∧ x.orderId ≠ 0 then 1 else 0) + lives d M := by
  simp [lives]

theorem waits_add : waits d (M + M') = waits d M + waits d M' := by simp [waits]

theorem lives_add : lives d (M + M') = lives d M + lives d M' := by simp [lives]

theorem waits_after {x : Item} (hx : x.orderId ≠ 0) (spent : ℕ) : waits d (x.after spent) = 0 := by
  unfold Item.after
  split_ifs
  · rfl
  · simp [waits, hx]

theorem lives_after {x : Item} (hx : x.orderId ≠ 0) (spent : ℕ) : lives d (x.after spent) =
    if x.owner = d ∧ x.amount ≠ spent then 1 else 0 := by
  unfold Item.after
  split_ifs with h1 h2 h2
  · exact absurd h1 h2.2
  · rfl
  · simp [lives, hx, h2.1]
  · have ho : x.owner ≠ d := fun ho => h2 ⟨ho, h1⟩
    simp [lives, ho]

theorem LedgerStep.waits_answers (hs : LedgerStep N M os M') :
    waits d M' + answersIn (noticesTo d os) = waits d M := by
  cases hs with
  | reject x M opNonce c hx =>
    simp [waits_cons, hx, noticesTo_cons, answersIn]
    split_ifs <;> simp [Notice.answers, Item.rejected, Callback.notice, Nat.add_comm]
  | place x M id opNonce c hx hid =>
    simp [waits_cons, hx, hid, noticesTo_cons, answersIn]
    split_ifs <;> simp [Notice.answers, Item.placed, Callback.notice, Nat.add_comm]
  | fill t m M trade c h =>
    rw [waits_add, waits_add, waits_after h.live.2, waits_after h.live.1]
    simp [waits_cons, h.live.1, h.live.2, noticesTo_cons, answersIn]
    split_ifs <;> simp [Notice.answers, Item.makerFilled, Item.takerFilled, Callback.notice]
  | cancel x M returnAmt opNonce c hx =>
    simp [waits_cons, hx, noticesTo_cons, answersIn]
    split_ifs <;> simp [Notice.answers, Item.cancelled, Callback.notice]
  | ack =>
    simp [noticesTo_cons, answersIn]
    split_ifs <;> simp [Notice.answers, Callback.notice]

theorem LedgerPath.waits_answers (hp : LedgerPath N M os M') :
    waits d M' + answersIn (noticesTo d os) = waits d M := by
  induction hp with
  | refl => rfl
  | snoc hp hs ih =>
    rw [noticesTo_append, answersIn_append, ← ih, ← hs.waits_answers]
    omega

/-- A note that counts along has the number of its live orders. -/
theorem LedgerStep.tallies (hs : LedgerStep N M os M') :
    (noticesTo d os).foldlM Notice.tally (lives d M) = some (lives d M') := by
  cases hs with
  | reject x M opNonce c hx =>
    rw [noticesTo_cons, lives_cons, if_neg fun h => h.2 hx, Nat.zero_add]
    split_ifs <;> rfl
  | place x M id opNonce c hx hid =>
    rw [noticesTo_cons, lives_cons, lives_cons, if_neg fun h => h.2 hx, Nat.zero_add]
    split_ifs with h1 h2 h2
    · simp [Item.placed, Callback.notice, Notice.tally, Nat.add_comm]
    · exact absurd ⟨h1, hid⟩ h2
    · exact absurd h2.1 h1
    · simp
  | fill t m M trade c h h0 hm ht =>
    have hm0 := h.live.1
    have ht0 := h.live.2
    rw [lives_cons, lives_cons, lives_add, lives_add, lives_after hm0, lives_after ht0,
      noticesTo_cons, noticesTo_cons]
    simp only [hm0, ht0, ne_eq, not_false_eq_true, and_true, noticesTo_nil]
    by_cases h1 : m.owner = d <;> by_cases h2 : t.owner = d <;>
      simp [h1, h2, Item.makerFilled, Item.takerFilled, Callback.notice, Notice.tally] <;>
      split_ifs <;> simp_all
  | cancel x M returnAmt opNonce c hx =>
    rw [noticesTo_cons, lives_cons]
    by_cases h1 : x.owner = d
    · rw [if_pos h1, if_pos ⟨h1, hx⟩]
      simp [Item.cancelled, Callback.notice, Notice.tally]
    · rw [if_neg h1, if_neg fun h => h1 h.1, Nat.zero_add]
      rfl
  | ack =>
    rw [noticesTo_cons]
    split_ifs <;> rfl

theorem LedgerPath.tallies (hp : LedgerPath N M os M') :
    (noticesTo d os).foldlM Notice.tally (lives d M) = some (lives d M') := by
  induction hp with
  | refl => rfl
  | snoc hp hs ih =>
    rw [noticesTo_append, List.foldlM_append, ih]
    exact hs.tallies

end Counts

/-- The operation that holds the latch of a note, as its order book sees it: the orders of it that
wait for an answer are a figure of the history, not of the storage. -/
structure Hold where
  opNonce : ℕ
  batch : Bool
  waiting : ℕ
  deriving DecidableEq

namespace Hold

/-- One more of the orders has its answer. -/
def less (h : Hold) : Hold := { h with waiting := h.waiting - 1 }

/-- What a notice does to the latch. No result is a notice that may not come: an answer that no
operation waits for, or the end of one that still waits for an answer. -/
def hear : Option Hold → Notice → Option (Option Hold)
  | none, .placed _ | none, .rejected _ => none
  | none, _ => some none
  | some h, .placed n =>
    if n ≠ h.opNonce ∨ h.waiting = 0 then none
    else if h.batch then some (some h.less)
    else if h.waiting = 1 then some none else none
  | some h, .rejected n => if n ≠ h.opNonce ∨ h.waiting = 0 then none else some (some h.less)
  | some h, .cancelled n =>
    if n = h.opNonce ∧ h.batch = false then (if h.waiting = 0 then some none else none)
    else some (some h)
  | some h, .complete n =>
    if n = h.opNonce then (if h.waiting = 0 then some none else none) else some (some h)
  | some h, .filled _ => some (some h)

theorem hear_free {xs : List Notice} (h : answersIn xs = 0) : xs.foldlM hear none = some none := by
  refine Mirror.foldlM_still fun x hx => ?_
  have h0 : x.answers = 0 := by
    have hle := List.single_le_sum (fun _ _ => Nat.zero_le _) _ (List.mem_map_of_mem (f := Notice.answers) hx)
    exact Nat.le_zero.mp (hle.trans_eq h)
  cases x with
  | placed => exact absurd h0 Nat.one_ne_zero
  | rejected => exact absurd h0 Nat.one_ne_zero
  | _ => rfl

/-- A notice of another operation, or of none, that answers nothing. -/
def Aside (n : ℕ) (x : Notice) : Prop := x.answers = 0 ∧ x.opNonce? ≠ some n

theorem hear_aside {h : Hold} {xs : List Notice} (hx : ∀ x ∈ xs, Aside h.opNonce x) :
    xs.foldlM hear (some h) = some (some h) := by
  refine Mirror.foldlM_still fun x hm => ?_
  obtain ⟨h0, hn⟩ := hx x hm
  cases x with
  | placed => exact absurd h0 Nat.one_ne_zero
  | rejected => exact absurd h0 Nat.one_ne_zero
  | cancelled n =>
    have hne : n ≠ h.opNonce := fun e => hn (congrArg some e)
    exact if_neg fun hc => hne hc.1
  | complete => exact if_neg fun e => hn (congrArg some e)
  | filled => rfl

/-- A notice that leaves the orders without an answer alone: a fill, or a cancellation. -/
def Later (n : ℕ) (x : Notice) : Prop := (∃ f, x = .filled f) ∨ x = .cancelled n

theorem Later.answers {n : ℕ} {xs : List Notice} (h : ∀ x ∈ xs, Later n x) : answersIn xs = 0 := by
  rw [answersIn, List.sum_eq_zero]
  intro k hk
  obtain ⟨x, hx, rfl⟩ := List.mem_map.mp hk
  rcases h x hx with ⟨f, rfl⟩ | rfl <;> rfl

theorem hear_batch {h : Hold} (hb : h.batch = true) {n : ℕ} {xs : List Notice}
    (hx : ∀ x ∈ xs, Later n x) : xs.foldlM hear (some h) = some (some h) := by
  refine Mirror.foldlM_still fun x hm => ?_
  rcases hx x hm with ⟨f, rfl⟩ | rfl
  · rfl
  · exact if_neg fun hc => Bool.noConfusion (hb.symm.trans hc.2)

theorem hear_single {h : Hold} (h0 : h.waiting = 0) {n : ℕ} {xs : List Notice}
    (hx : ∀ x ∈ xs, Later n x) :
    xs.foldlM hear (some h) = some (some h) ∨ xs.foldlM hear (some h) = some none := by
  induction xs with
  | nil => exact .inl rfl
  | cons x xs ih =>
    have hxs : ∀ y ∈ xs, Later n y := fun y hy => hx y (List.mem_cons_of_mem _ hy)
    have hone : hear (some h) x = some (some h) ∨ hear (some h) x = some none := by
      rcases hx x (List.mem_cons_self ..) with ⟨f, rfl⟩ | rfl
      · exact .inl rfl
      · simp only [hear, h0, if_true]
        split_ifs
        · exact .inr rfl
        · exact .inl rfl
    rw [List.foldlM_cons]
    rcases hone with hone | hone
    · rw [hone]
      exact ih hxs
    · rw [hone]
      exact .inr (hear_free (Later.answers hxs))

theorem hear_refused {h : Hold} {xs : List Notice} (hx : ∀ x ∈ xs, x = .rejected h.opNonce)
    (hle : answersIn xs ≤ h.waiting) :
    xs.foldlM hear (some h) = some (some { h with waiting := h.waiting - answersIn xs }) := by
  induction xs generalizing h with
  | nil => rfl
  | cons x xs ih =>
    obtain rfl := hx x (List.mem_cons_self ..)
    have hone : answersIn (Notice.rejected h.opNonce :: xs) = 1 + answersIn xs := List.sum_cons
    rw [hone] at hle ⊢
    have hgood : ¬ (h.opNonce ≠ h.opNonce ∨ h.waiting = 0) := by omega
    have hhear : hear (some h) (.rejected h.opNonce) = some (some h.less) := if_neg hgood
    have hle' : answersIn xs ≤ h.less.waiting := Nat.le_sub_of_add_le (by omega)
    rw [List.foldlM_cons, hhear]
    refine (ih (h := h.less) (fun y hy => hx y (List.mem_cons_of_mem _ hy)) hle').trans ?_
    rw [less, Nat.sub_sub]

end Hold

theorem Out.After.later {d : ℕ} {e : QueueEntry} {os : List Out} (h : ∀ o ∈ os, o.After e) :
    ∀ x ∈ noticesTo d os, Hold.Later e.opNonce x := by
  intro x hx
  obtain ⟨o, ho, -, rfl⟩ := mem_noticesTo hx
  rcases h o ho with hf | ⟨-, hc⟩
  · exact .inl hf
  · exact .inr hc

theorem Tells.notice {d : ℕ} {e : QueueEntry} {stays : Bool} {os : List Out}
    (h : Tells e stays os) {x : Notice}
    (hx : x ∈ noticesTo d os) : (∃ f, x = .filled f) ∨ e.depositHash = d ∧
      (x = .cancelled e.opNonce ∨
        e.Waits ∧ (x = .placed e.opNonce ∨ x = .rejected e.opNonce)) := by
  obtain ⟨o, ho, hd, hn⟩ := mem_noticesTo hx
  have hafter (ha : o.After e) : (∃ f, x = .filled f) ∨ e.depositHash = d ∧
      (x = .cancelled e.opNonce ∨
        e.Waits ∧ (x = .placed e.opNonce ∨ x = .rejected e.opNonce)) := by
    rcases ha with ⟨f, hf⟩ | ⟨he, hc⟩
    · exact .inl ⟨f, hn.symm.trans hf⟩
    · exact .inr ⟨he.symm.trans hd, .inl (hn.symm.trans hc)⟩
  cases h with
  | later hw h => exact hafter (h o ho)
  | placed hw he hp h =>
    rcases List.mem_cons.mp ho with rfl | ho
    · exact .inr ⟨he.symm.trans hd, .inr ⟨hw, .inl (hn.symm.trans hp)⟩⟩
    · exact hafter (h o ho)
  | rejected hw he hp =>
    rw [List.mem_singleton.mp ho] at hd hn
    exact .inr ⟨he.symm.trans hd, .inr ⟨hw, .inr (hn.symm.trans hp)⟩⟩

namespace OrderBook

variable {d n b : ℕ} {s u v : OrderBook} {e : QueueEntry} {rest : List QueueEntry}
  {stay : Option QueueEntry} {os : List Out}

theorem waits_placeItems (es : List QueueEntry) : waits d (placeItems es) =
    (es.filter fun e => decide (e.Waits ∧ e.depositHash = d)).length := by
  induction es with
  | nil => rfl
  | cons e es ih =>
    rw [placeItems_cons, waits_add, ih, List.filter_cons]
    by_cases hp : e.entryType = .place
    · rw [if_pos hp]
      by_cases hw : e.Waits ∧ e.depositHash = d
      · have h1 : (Item.ofEntry e).owner = d ∧ (Item.ofEntry e).orderId = 0 := ⟨hw.2, hw.1.2⟩
        simp [waits, hw, h1, Nat.add_comm]
      · have h1 : ¬ ((Item.ofEntry e).owner = d ∧ (Item.ofEntry e).orderId = 0) :=
          fun h => hw ⟨⟨hp, h.2⟩, h.1⟩
        simp [waits, hw, h1]
    · have hw : ¬ (e.Waits ∧ e.depositHash = d) := fun h => hp h.1.1
      simp [waits, hp, hw]

theorem waits_resting (h : s.BookOk) (n : ℕ) : waits d (s.resting n) = 0 := by
  obtain ⟨A, r⟩ := h.rep
  unfold waits Book.resting
  rw [Multiset.map_map, Multiset.sum_eq_zero]
  intro x hx
  obtain ⟨i, hi, rfl⟩ := Multiset.mem_map.mp hx
  have hs : s.Stored i := (Finset.mem_filter.mp (Finset.mem_def.mpr hi)).2
  exact if_neg fun h0 => (r.bound i hs).1.ne' h0.2

theorem waits_items (h : s.Ok) : waits d s.items =
    (s.toQueue.list.filter fun e => decide (e.Waits ∧ e.depositHash = d)).length := by
  rw [items, waits_add, waits_placeItems, waits_resting h.book, Nat.add_zero]

theorem waits_eq_zero (h : s.Ok) (hw : ∀ e ∈ s.toQueue.list, e.Waits → e.depositHash ≠ d) :
    waits d s.items = 0 := by
  rw [waits_items h, List.length_eq_zero_iff, List.filter_eq_nil_iff]
  intro e he hd
  have hd := of_decide_eq_true hd
  exact hw e he hd.1 hd.2

theorem not_waits (h : s.Ok) (h0 : waits d s.items = 0) (he : e ∈ s.toQueue.list) (hw : e.Waits) :
    e.depositHash ≠ d := by
  rw [waits_items h, List.length_eq_zero_iff, List.filter_eq_nil_iff] at h0
  exact fun hd => h0 e he (decide_eq_true ⟨hw, hd⟩)

/-- The book holds nothing of the operation of note `d` with nonce `n`, and nothing of the note
that waits for an answer. -/
structure Clear (d n : ℕ) (s : OrderBook) : Prop where
  waits : waits d s.items = 0
  entries : ∀ e ∈ s.toQueue.list, e.depositHash = d → e.opNonce ≠ n

/-- The book works on operation `h` of note `d`, which is its call `b`. -/
structure Serves (d b : ℕ) (h : Hold) (s : OrderBook) : Prop where
  waits : waits d s.items = h.waiting
  exists_entry : ∃ e ∈ s.toQueue.list, e.batch = b
  own : ∀ e ∈ s.toQueue.list, e.batch = b ↔ e.depositHash = d ∧ e.opNonce = h.opNonce
  waiting : ∀ e ∈ s.toQueue.list, e.Waits → e.depositHash = d → e.batch = b
  single : h.batch = false → ∀ e ∈ s.toQueue.list, e.batch = b →
    e.isBatchEnd = true ∧ (e.entryType = .place → e.Waits)

/-- Everything a pass sends. -/
def passOuts (e : QueueEntry) (stay : Option QueueEntry) (os : List Out) : List Out :=
  os ++ if stay = none ∧ e.isBatchEnd then [ackOut e] else []

theorem HeadPass.new (h : HeadPass u v e rest stay os) : v.outs = u.outs ++ passOuts e stay os := by
  rw [h.outs, List.append_assoc]
  rfl

theorem HeadPass.head_mem (h : HeadPass u v e rest stay os) : e ∈ u.toQueue.list := by
  rw [h.before]
  exact List.mem_cons_self ..

theorem HeadPass.behind (h : HeadPass u v e rest stay os) {y : QueueEntry} (hy : y ∈ rest) :
    y ∈ u.toQueue.list ∧ y ∈ v.toQueue.list := by
  rw [h.before, h.after]
  exact ⟨List.mem_cons_of_mem _ hy, List.mem_append_right _ hy⟩

theorem HeadPass.mem (h : HeadPass u v e rest stay os) {y : QueueEntry}
    (hy : y ∈ v.toQueue.list) : stay = some y ∨ y ∈ rest := by
  rw [h.after] at hy
  exact (List.mem_append.mp hy).imp_left Option.mem_toList.mp

theorem HeadPass.waits (h : HeadPass u v e rest stay os) :
    waits d v.items + answersIn (noticesTo d os) = Dexdo.waits d u.items :=
  h.path.waits_answers

theorem passOuts_notice (ht : Tells e stay.isSome os) {x : Notice}
    (hx : x ∈ noticesTo d (passOuts e stay os)) : (∃ f, x = .filled f) ∨ e.depositHash = d ∧
      (x = .cancelled e.opNonce ∨ x = .complete e.opNonce ∨
        e.Waits ∧ (x = .placed e.opNonce ∨ x = .rejected e.opNonce)) := by
  rw [passOuts, noticesTo_append] at hx
  rcases List.mem_append.mp hx with hx | hx
  · rcases ht.notice hx with hf | ⟨hd, hc | hw⟩
    · exact .inl hf
    · exact .inr ⟨hd, .inl hc⟩
    · exact .inr ⟨hd, .inr (.inr hw)⟩
  · obtain ⟨o, ho, hd, hn⟩ := mem_noticesTo hx
    split_ifs at ho
    · rw [List.mem_singleton.mp ho] at hd hn
      exact .inr ⟨hd, .inr (.inl hn.symm)⟩
    · exact absurd ho List.not_mem_nil

theorem passOuts_answers (ht : Tells e stay.isSome os) (hw : e.Waits → e.depositHash ≠ d) :
    answersIn (noticesTo d (passOuts e stay os)) = 0 := by
  rw [answersIn, List.sum_eq_zero]
  intro k hk
  obtain ⟨x, hx, rfl⟩ := List.mem_map.mp hk
  rcases passOuts_notice ht hx with ⟨f, rfl⟩ | ⟨hd, rfl | rfl | ⟨hw', -⟩⟩
  · rfl
  · rfl
  · rfl
  · exact absurd hd (hw hw')

theorem answersIn_passOuts : answersIn (noticesTo d (passOuts e stay os)) =
    answersIn (noticesTo d os) := by
  rw [passOuts, noticesTo_append, answersIn_append]
  split_ifs
  · rw [noticesTo_cons]
    split_ifs <;> rfl
  · rfl

theorem HeadPass.entry (h : HeadPass u v e rest stay os) {x : QueueEntry}
    (hx : x ∈ v.toQueue.list) : ∃ y ∈ u.toQueue.list, y.batch = x.batch ∧
      y.depositHash = x.depositHash ∧ y.opNonce = x.opNonce := by
  rcases h.mem hx with hx | hx
  · obtain ⟨h1, -, h2, h3, -⟩ := h.same x hx
    exact ⟨e, h.head_mem, h1.symm, h2.symm, h3.symm⟩
  · exact ⟨x, (h.behind hx).1, rfl, rfl, rfl⟩

theorem HeadPass.own (h : HeadPass u v e rest stay os)
    (hs : ∀ y ∈ u.toQueue.list, y.batch = b ↔ y.depositHash = d ∧ y.opNonce = n) :
    ∀ y ∈ v.toQueue.list, y.batch = b ↔ y.depositHash = d ∧ y.opNonce = n := by
  intro y hy
  obtain ⟨z, hz, h1, h2, h3⟩ := h.entry hy
  rw [← h1, ← h2, ← h3]
  exact hs z hz

section Pass

variable (h : HeadPass u v e rest stay os)

include h

theorem pass_free (h0 : waits d u.items = 0) :
    (noticesTo d (passOuts e stay os)).foldlM Hold.hear none = some none ∧
      waits d v.items = 0 := by
  have hw := h.waits (d := d)
  refine ⟨Hold.hear_free ?_, by omega⟩
  rw [answersIn_passOuts]
  omega

variable (hu : u.Ok) (ht : Tells e stay.isSome os)

include hu ht

theorem pass_clear {x : Hold} (hc : Clear d x.opNonce u) :
    (noticesTo d (passOuts e stay os)).foldlM Hold.hear (some x) = some (some x) ∧
      Clear d x.opNonce v := by
  have he := h.head_mem
  have hw := h.waits (d := d)
  have h0 := hc.waits
  refine ⟨Hold.hear_aside fun y hy => ?_, by omega, ?_⟩
  · have hne (hd : e.depositHash = d) : e.opNonce ≠ x.opNonce := hc.entries e he hd
    rcases passOuts_notice ht hy with ⟨f, rfl⟩ | ⟨hd, rfl | rfl | ⟨hw', -⟩⟩
    · exact ⟨rfl, by simp [Notice.opNonce?]⟩
    · exact ⟨rfl, fun hn => hne hd (Option.some.inj hn)⟩
    · exact ⟨rfl, fun hn => hne hd (Option.some.inj hn)⟩
    · exact absurd hd (not_waits hu h0 he hw')
  · intro y hy hd
    obtain ⟨z, hz, -, h1, h2⟩ := h.entry hy
    rw [← h2]
    exact hc.entries z hz (h1.trans hd)

variable {x : Hold} (hv : v.Ok) (hg : Grouped (e :: rest)) (hs : Serves d b x u)

include hv hg hs

omit hg in
/-- A pass over an entry of another call tells the operation nothing. -/
theorem pass_beside (hb : e.batch ≠ b) :
    (noticesTo d (passOuts e stay os)).foldlM Hold.hear (some x) = some (some x) ∧
      Serves d b x v := by
  have he := h.head_mem
  have hwait : e.Waits → e.depositHash ≠ d := fun hw hd => hb (hs.waiting e he hw hd)
  have hne (hd : e.depositHash = d) : e.opNonce ≠ x.opNonce :=
    fun hn => hb ((hs.own e he).mpr ⟨hd, hn⟩)
  have hans := passOuts_answers ht hwait
  rw [answersIn_passOuts] at hans
  have hw := h.waits (d := d)
  rw [hans, Nat.add_zero] at hw
  have hstay (y : QueueEntry) (hy : stay = some y) (hyw : y.Waits) : y.depositHash ≠ d := by
    intro hyd
    rw [waits_items hv, waits_items hu, h.after, h.before, hy] at hw
    simp [hyw, hyd, not_and.mpr hwait] at hw
  refine ⟨Hold.hear_aside fun y hy => ?_, ?_⟩
  · rcases passOuts_notice ht hy with ⟨f, rfl⟩ | ⟨hd, rfl | rfl | ⟨hw', -⟩⟩
    · exact ⟨rfl, by simp [Notice.opNonce?]⟩
    · exact ⟨rfl, fun hn => hne hd (Option.some.inj hn)⟩
    · exact ⟨rfl, fun hn => hne hd (Option.some.inj hn)⟩
    · exact absurd hd (hwait hw')
  · refine ⟨hw.trans hs.waits, ?_, ?_, ?_, ?_⟩
    · obtain ⟨y, hy, hyb⟩ := hs.exists_entry
      rw [h.before] at hy
      rcases List.mem_cons.mp hy with rfl | hy
      · exact absurd hyb hb
      · exact ⟨y, (h.behind hy).2, hyb⟩
    · exact h.own hs.own
    · intro y hy hyw hyd
      rcases h.mem hy with hy | hy
      · exact absurd hyd (hstay y hy hyw)
      · exact hs.waiting y (h.behind hy).1 hyw hyd
    · intro hx y hy hyb
      rcases h.mem hy with hy | hy
      · exact absurd ((h.same y hy).1.symm.trans hyb) hb
      · exact hs.single hx y (h.behind hy).1 hyb

omit hu ht hv in
theorem single_rest (hb : e.batch = b) (hx : x.batch = false) (y : QueueEntry) (hy : y ∈ rest)
    (hyw : y.Waits) : y.depositHash ≠ d := by
  intro hyd
  have hend := (hs.single hx e h.head_mem hb).1
  have hyb := hs.waiting y (h.behind hy).1 hyw hyd
  exact hg.2.1.mp hend y hy (hyb.trans hb.symm)

omit hv in
/-- What a pass over an entry of the operation tells before its acknowledgement. -/
theorem pass_own (hb : e.batch = b) :
    ((noticesTo d os).foldlM Hold.hear (some x) = some none ∧ waits d v.items = 0 ∧
        x.batch = false) ∨
      ((noticesTo d os).foldlM Hold.hear (some x) =
          some (some { x with waiting := waits d v.items }) ∧
        (x.batch = false → stay.isSome → e.entryType ≠ .place)) := by
  have he := h.head_mem
  obtain ⟨hd, hn⟩ := (hs.own e he).mp hb
  have hw := h.waits (d := d)
  rw [hs.waits] at hw
  have hsingle (hx : x.batch = false) : x.waiting = if e.Waits then 1 else 0 := by
    have hnil : rest.filter (fun y => decide (y.Waits ∧ y.depositHash = d)) = [] := by
      rw [List.filter_eq_nil_iff]
      intro y hy hc
      have hc := of_decide_eq_true hc
      exact single_rest h hg hs hb hx y hy hc.1 hc.2
    rw [← hs.waits, waits_items hu, h.before, List.filter_cons, hnil]
    by_cases hwt : e.Waits <;> simp [hwt, hd]
  cases ht with
  | later hwt hl =>
    have hl := Out.After.later (d := d) hl
    rw [Hold.Later.answers hl, Nat.add_zero] at hw
    have hself : { x with waiting := waits d v.items } = x := by rw [hw]
    rw [hself]
    cases hx : x.batch with
    | true => exact .inr ⟨Hold.hear_batch hx hl, fun hf => Bool.noConfusion hf⟩
    | false =>
      have h0 : x.waiting = 0 := (hsingle hx).trans (if_neg hwt)
      rcases Hold.hear_single h0 hl with hf | hf
      · refine .inr ⟨hf, fun _ _ hp => hwt ?_⟩
        exact (hs.single hx e he hb).2 hp
      · exact .inl ⟨hf, hw.trans h0, rfl⟩
  | placed hwt ho hp hl =>
    have hl := Out.After.later (d := d) hl
    rw [noticesTo_cons, if_pos (ho.trans hd), hp] at hw ⊢
    have hone : waits d v.items + 1 = x.waiting := by
      rw [← hw]
      simp [answersIn, Notice.answers]
      exact Hold.Later.answers hl
    have hless : { x with waiting := waits d v.items } = x.less := by
      rw [Hold.less, ← hone, Nat.add_sub_cancel]
    have hgood : ¬ (e.opNonce ≠ x.opNonce ∨ x.waiting = 0) := by omega
    rw [List.foldlM_cons, hless]
    cases hx : x.batch with
    | true =>
      have hhear : Hold.hear (some x) (.placed e.opNonce) = some (some x.less) := by
        simp only [Hold.hear, if_neg hgood, hx, if_true]
      rw [hhear]
      exact .inr ⟨Hold.hear_batch (h := x.less) hx hl, fun hf => Bool.noConfusion hf⟩
    | false =>
      have h1 : x.waiting = 1 := (hsingle hx).trans (if_pos hwt)
      have hhear : Hold.hear (some x) (.placed e.opNonce) = some none := by
        rw [Hold.hear, if_neg hgood, if_neg (by simp [hx]), if_pos h1]
      rw [hhear]
      exact .inl ⟨Hold.hear_free (Hold.Later.answers hl), by omega, rfl⟩
  | rejected hwt ho hp hst =>
    rw [noticesTo_cons, if_pos (ho.trans hd), hp] at hw ⊢
    have hone : waits d v.items + 1 = x.waiting := by
      rw [← hw]
      rfl
    have hless : { x with waiting := waits d v.items } = x.less := by
      rw [Hold.less, ← hone, Nat.add_sub_cancel]
    have hgood : ¬ (e.opNonce ≠ x.opNonce ∨ x.waiting = 0) := by omega
    have hhear : Hold.hear (some x) (.rejected e.opNonce) = some (some x.less) := if_neg hgood
    rw [List.foldlM_cons, hless, hhear]
    exact .inr ⟨rfl, fun _ hf => absurd (hf.symm.trans hst) (by simp)⟩

/-- A pass keeps the book and the latch of its note in step. -/
theorem pass_serves :
    ((noticesTo d (passOuts e stay os)).foldlM Hold.hear (some x) =
        some (some { x with waiting := waits d v.items }) ∧
      Serves d b { x with waiting := waits d v.items } v) ∨
    ((noticesTo d (passOuts e stay os)).foldlM Hold.hear (some x) = some none ∧
      waits d v.items = 0) := by
  by_cases hb : e.batch = b
  · obtain ⟨hd, hn⟩ := (hs.own e h.head_mem).mp hb
    have hown := pass_own h hu ht hg hs hb
    unfold passOuts
    by_cases hack : stay = none ∧ e.isBatchEnd = true
    · have hrest := hg.2.1.mp hack.2
      have hlist : v.toQueue.list = rest := by
        rw [h.after, hack.1]
        rfl
      have h0 : waits d v.items = 0 := by
        refine waits_eq_zero hv fun y hy hyw hyd => ?_
        rw [hlist] at hy
        have hyb := hs.waiting y (h.behind hy).1 hyw hyd
        exact hrest y hy (hyb.trans hb.symm)
      have hone : noticesTo d [ackOut e] = [.complete x.opNonce] := by
        simp [noticesTo, ackOut, hd, hn, Callback.notice]
      rw [if_pos hack, noticesTo_append, List.foldlM_append, hone]
      refine .inr ⟨?_, h0⟩
      rcases hown with ⟨hf, -, -⟩ | ⟨hf, -⟩
      · rw [hf]
        rfl
      · rw [hf, h0]
        simp [Hold.hear]
    · rw [if_neg hack, List.append_nil]
      rcases hown with ⟨hf, h0, -⟩ | ⟨hf, hplace⟩
      · exact .inr ⟨hf, h0⟩
      · refine .inl ⟨hf, rfl, ?_, ?_, ?_, ?_⟩
        · cases hst : stay with
          | none =>
            have hopen : ¬ e.isBatchEnd = true := fun hend => hack ⟨hst, hend⟩
            rw [hg.2.1] at hopen
            push Not at hopen
            obtain ⟨y, hy, hyb⟩ := hopen
            exact ⟨y, (h.behind hy).2, hyb.trans hb⟩
          | some y =>
            refine ⟨y, ?_, (h.same y hst).1.trans hb⟩
            rw [h.after, hst]
            exact List.mem_cons_self ..
        · exact h.own hs.own
        · intro y hy hyw hyd
          rcases h.mem hy with hy | hy
          · exact (h.same y hy).1.trans hb
          · exact hs.waiting y (h.behind hy).1 hyw hyd
        · intro hx y hy hyb
          have hend := (hs.single hx e h.head_mem hb).1
          rcases h.mem hy with hst | hy
          · refine ⟨(h.same y hst).2.1.trans hend, fun hp => ?_⟩
            exact absurd ((h.type y hst).symm.trans hp) (hplace hx (by rw [hst]; rfl))
          · exact absurd (hyb.trans hb.symm) (hg.2.1.mp hend y hy)
  · obtain ⟨hf, hs'⟩ := pass_beside h hu ht hv hs hb
    rw [hs'.waits]
    exact .inl ⟨hf, hs'⟩

end Pass

/-- How the latch of note `d` stands to the book: free, held by an operation whose message is still
on its way to the book, or held by one the book works on. -/
inductive Standing (d : ℕ) : Option Hold → Option Hold → OrderBook → Prop
  | free {s : OrderBook} (h : waits d s.items = 0) : Standing d none none s
  | sent {s : OrderBook} {x : Hold} (h : Clear d x.opNonce s) : Standing d (some x) (some x) s
  | taken {s : OrderBook} {x : Hold} {b : ℕ} (h : Serves d b x s) : Standing d (some x) none s

variable {x r : Option Hold} {calls : List (ℕ × ℕ)}

theorem Standing.congr (h : Standing d x r u) (hi : waits d v.items = waits d u.items)
    (hl : v.toQueue.list = u.toQueue.list) : Standing d x r v := by
  cases h with
  | free h => exact .free (hi.trans h)
  | sent h => exact .sent ⟨hi.trans h.waits, hl ▸ h.entries⟩
  | taken h =>
    exact .taken ⟨hi.trans h.waits, hl ▸ h.exists_entry, hl ▸ h.own, hl ▸ h.waiting, hl ▸ h.single⟩

theorem Standing.same (h : Standing d x r u) (hs : SameStore u v) : Standing d x r v :=
  h.congr (congrArg (waits d) hs.items_eq) (by rw [hs])

theorem PassTells.standing (hu : u.Ok) (hv : v.Ok) (hq : QueueFiled calls u.toQueue.list)
    (hp : PassTells u v) (hs : Standing d x r u) :
    ∃ new y, v.outs = u.outs ++ new ∧ (noticesTo d new).foldlM Hold.hear x = some y ∧
      Standing d y r v := by
  obtain ⟨hsame, ho⟩ | ⟨e, rest, stay, os, h, ht⟩ := hp
  · exact ⟨[], x, by rw [ho, List.append_nil], rfl, hs.same hsame⟩
  · refine ⟨passOuts e stay os, ?_⟩
    cases hs with
    | free h0 =>
      obtain ⟨hf, h0⟩ := pass_free h h0
      exact ⟨none, h.new, hf, .free h0⟩
    | sent hc =>
      obtain ⟨hf, hc⟩ := pass_clear h hu ht hc
      exact ⟨_, h.new, hf, .sent hc⟩
    | taken hs =>
      have hg : Grouped (e :: rest) := h.before ▸ hq.grouped
      obtain ⟨hf, hs'⟩ | ⟨hf, h0⟩ := pass_serves h hu ht hv hg hs
      · exact ⟨_, h.new, hf, .taken hs'⟩
      · exact ⟨none, h.new, hf, .free h0⟩

theorem drained_standing {N : ℕ} (hi : LedgerPath N s.items os t.items)
    (hl : t.toQueue.list = s.toQueue.list) (hd : ∀ o ∈ os, o.Drained)
    (h0 : ∀ y, x = some y → y.opNonce ≠ 0) (hs : Standing d x r s) :
    (noticesTo d os).foldlM Hold.hear x = some x ∧ Standing d x r t := by
  have hnote (y : Notice) (hy : y ∈ noticesTo d os) : y = .cancelled 0 := by
    obtain ⟨o, ho, -, rfl⟩ := mem_noticesTo hy
    exact hd o ho
  have hans : answersIn (noticesTo d os) = 0 := by
    refine Hold.Later.answers (n := 0) fun y hy => ?_
    exact .inr (hnote y hy)
  have hw := hi.waits_answers (d := d)
  rw [hans, Nat.add_zero] at hw
  refine ⟨?_, hs.congr hw hl⟩
  cases x with
  | none => exact Hold.hear_free hans
  | some x =>
    refine Hold.hear_aside fun y hy => ?_
    rw [hnote y hy]
    exact ⟨rfl, fun hn => h0 x rfl (Option.some.inj hn).symm⟩

theorem waits_of_owner {M : Multiset Item} (h : ∀ y ∈ M, y.owner ≠ d) : waits d M = 0 := by
  rw [waits, Multiset.sum_eq_zero]
  intro k hk
  obtain ⟨y, hy, rfl⟩ := Multiset.mem_map.mp hk
  exact if_neg fun h0 => h y hy h0.1

theorem submission_owner {h sub : ℕ} {ops : List PlaceParams} {y : Item}
    (hy : y ∈ submission h sub ops) : y.owner = h := by
  induction ops generalizing sub with
  | nil => exact absurd hy (Multiset.notMem_zero y)
  | cons p ops ih =>
    rcases Multiset.mem_cons.mp hy with rfl | hy
    · rfl
    · exact ih hy

theorem waits_submission (h sub : ℕ) (ops : List PlaceParams) :
    waits h (submission h sub ops) = ops.length := by
  induction ops generalizing sub with
  | nil => rfl
  | cons p ops ih =>
    rw [submission, waits_cons, ih, if_pos ⟨rfl, rfl⟩, List.length_cons, Nat.add_comm]

theorem submitted_waits {c : Call} {h o sub : ℕ} (hc : c.accepted? = some (h, o)) :
    waits d (c.submitted sub) = if h = d then c.submittedCount else 0 := by
  cases c with
  | executeBatch sender now h' orders =>
    obtain ⟨rfl, rfl⟩ := Prod.mk.inj (Option.some.inj hc)
    split_ifs with hd
    · rw [← hd]
      exact waits_submission h' sub orders
    · refine waits_of_owner fun y hy => ?_
      rw [submission_owner hy]
      exact hd
  | cancelAllOrders =>
    split_ifs <;> rfl
  | _ => exact absurd hc (by simp [Call.accepted?])

section Accept

variable {c : Call} {es : List QueueEntry} {hh o : ℕ} {sent : List Out}

theorem accept_waits (hc : c.accepted? = some (hh, o))
    (ha : Accepts hh o (c.submitted s.subs) c.submittedCount s.begin es u v t) :
    waits d u.items + answersIn (noticesTo d u.outs) =
      (if hh = d then c.submittedCount else 0) + waits d s.items := by
  obtain ⟨os1, ho1, hp, -⟩ := ha.sends
  have ho1 : u.outs = os1 := ho1
  rw [ho1, hp.waits_answers, waits_add, submitted_waits hc]
  rfl

theorem accept_mem (ha : Accepts hh o (c.submitted s.subs) c.submittedCount s.begin es u v t)
    {y : QueueEntry} (hy : y ∈ u.toQueue.list) : y ∈ s.toQueue.list ∨
      y ∈ closeLast es ∧ y.batch = s.batches ∧ y.depositHash = hh ∧ y.opNonce = o := by
  have hlist : u.toQueue.list = s.toQueue.list ++ closeLast es := ha.list
  rw [hlist] at hy
  exact (List.mem_append.mp hy).imp_right fun hy => ⟨hy, EntryOf.close ha.entries y hy⟩

/-- Queueing the call of another note does not touch the latch. -/
theorem accept_beside (hf : Filed calls sent s) (hne : hh ≠ d)
    (hc : c.accepted? = some (hh, o))
    (ha : Accepts hh o (c.submitted s.subs) c.submittedCount s.begin es u v t)
    (hr : ∀ y ∈ u.outs, y.Refuses hh o) (hst : Standing d x r s) :
    noticesTo d u.outs = [] ∧ Standing d x r u := by
  have hnil : noticesTo d u.outs = [] := noticesTo_eq_nil fun y hy hd => hne ((hr y hy).1.symm.trans hd)
  have hw := accept_waits (d := d) hc ha
  rw [hnil, if_neg hne, Nat.zero_add] at hw
  have hold (y : QueueEntry) (hy : y ∈ s.toQueue.list) : y ∈ u.toQueue.list :=
    ha.list ▸ List.mem_append_left _ hy
  refine ⟨hnil, ?_⟩
  cases hst with
  | free h => exact .free (hw.trans h)
  | sent h =>
    refine .sent ⟨hw.trans h.waits, fun y hy hd => ?_⟩
    rcases accept_mem ha hy with hy | ⟨-, -, hy, -⟩
    · exact h.entries y hy hd
    · exact absurd (hy.symm.trans hd) hne
  | taken h =>
    obtain ⟨z, hz, hzb⟩ := h.exists_entry
    have hb : s.batches ≠ _ := (hf.count ▸ hf.queue.batch_lt hz).ne'
    rw [hzb] at hb
    refine .taken ⟨hw.trans h.waits, ⟨z, hold z hz, hzb⟩, ?_, ?_, ?_⟩
    · intro y hy
      rcases accept_mem ha hy with hy | ⟨-, h1, h2, -⟩
      · exact h.own y hy
      · exact iff_of_false (fun hyb => hb (h1.symm.trans hyb)) fun hd => hne (h2.symm.trans hd.1)
    · intro y hy hyw hd
      rcases accept_mem ha hy with hy | ⟨-, -, h2, -⟩
      · exact h.waiting y hy hyw hd
      · exact absurd (h2.symm.trans hd) hne
    · intro hx y hy hyb
      rcases accept_mem ha hy with hy | ⟨-, h1, -⟩
      · exact h.single hx y hy hyb
      · exact absurd (h1.symm.trans hyb) hb

/-- The entries of an operation of the note, once they are in the queue. -/
theorem accept_serves {y : Hold} (hs : s.Ok) (hf : Filed calls sent s)
    (ha : Accepts d y.opNonce (c.submitted s.subs) c.submittedCount s.begin es u v t)
    (hone : y.batch = false → es.length ≤ 1) (hst : Clear d y.opNonce s) (hne : es ≠ []) :
    Serves d s.batches { y with waiting := waits d u.items } u := by
  have hold (z : QueueEntry) (hz : z ∈ s.toQueue.list) : z.batch ≠ s.batches :=
    (hf.count ▸ hf.queue.batch_lt hz).ne
  refine ⟨rfl, ?_, ?_, ?_, ?_⟩
  · rcases List.eq_nil_or_concat' es with rfl | ⟨es', z, rfl⟩
    · exact absurd rfl hne
    · have hz : ({ z with isBatchEnd := true } : QueueEntry) ∈ closeLast (es' ++ [z]) := by
        rw [closeLast_concat]
        simp
      exact ⟨_, ha.list ▸ List.mem_append_right _ hz, (EntryOf.close ha.entries _ hz).1⟩
  · intro z hz
    rcases accept_mem ha hz with hz | ⟨-, h1, h2⟩
    · exact iff_of_false (hold z hz) fun hd => hst.entries z hz hd.1 hd.2
    · exact iff_of_true h1 h2
  · intro z hz hzw hzd
    rcases accept_mem ha hz with hz | ⟨-, h1, -⟩
    · exact absurd hzd (not_waits hs hst.waits hz hzw)
    · exact h1
  · intro hy z hz hzb
    rcases accept_mem ha hz with hz | ⟨hz, -⟩
    · exact absurd hzb (hold z hz)
    · obtain ⟨w, rfl⟩ := List.length_eq_one_iff.mp
        ((hone hy).antisymm (List.length_pos_of_ne_nil hne))
      rw [List.mem_singleton.mp hz]
      exact ⟨rfl, fun hp => ⟨hp, ((ha.entries w (List.mem_singleton.mpr rfl)).fresh hp).2.1⟩⟩

end Accept

variable {c : Call} {sent : List Out}

/-- A transaction that other parties cause keeps the book and the latch of a note in step. -/
theorem step_standing (hs : s.Ok) (hf : Filed calls sent s) (h : s.step c = some t)
    (hc : ∀ hh o, c.accepted? = some (hh, o) → hh ≠ d) (h0 : ∀ y, x = some y → y.opNonce ≠ 0)
    (hst : Standing d x r s) :
    ∃ y, (noticesTo d t.outs).foldlM Hold.hear x = some y ∧ Standing d y r t := by
  cases step_spoken hs h with
  | accepted hh o es u v hacc ha hr hn hp =>
    have hne := hc hh o hacc
    have hf' : Filed calls sent s.begin := ⟨hf.count, hf.queue, hf.caused, hf.acks⟩
    obtain ⟨hnil, hst⟩ := accept_beside hf hne hacc ha hr hst
    obtain ⟨new, y, ho, hfold, hst⟩ := hp.standing ha.ok.1 ha.ok.2.1 (ha.queueFiled hf') hst
    refine ⟨y, ?_, hst.same ha.same⟩
    have hack : noticesTo d (if es = [] then [⟨hh, .onBatchComplete o, 0, some s.batches⟩] else
        []) = [] := by
      refine noticesTo_eq_nil fun z hz hd => ?_
      split_ifs at hz
      · rw [List.mem_singleton.mp hz] at hd
        exact hne hd
      · exact absurd hz List.not_mem_nil
    have houts : t.outs = _ := ha.outs
    rw [houts, ho, noticesTo_append, noticesTo_append, hnil, List.nil_append]
    exact (congrArg (fun l => List.foldlM Hold.hear x (noticesTo d new ++ l)) hack).trans
      (by rw [List.append_nil, hfold])
  | poked _ hp =>
    obtain ⟨new, y, ho, hfold, hst⟩ := hp.standing (begin_ok hs) (step_moves hs h).ok hf.queue
      (hst.same (v := s.begin) rfl)
    refine ⟨y, ?_, hst⟩
    rw [ho]
    exact hfold
  | quiet hacc hX hq hd =>
    have hp := hq.moves.path
    rw [zero_add] at hp
    obtain ⟨hfold, hst⟩ := drained_standing hp (congrArg Queue.list hq.queue) hd h0
      (hst.same (v := s.begin) rfl)
    exact ⟨x, hfold, hst⟩

/-- The book accepts the operation that holds the latch. -/
theorem accept_standing {y : Hold} (hs : s.Ok) (hf : Filed calls sent s) (h : s.step c = some t)
    (hc : c.accepted? = some (d, y.opNonce)) (hw : y.waiting = c.submittedCount)
    (hone : y.batch = false → c.entries ≤ 1) (hst : Clear d y.opNonce s) :
    ∃ z, (noticesTo d t.outs).foldlM Hold.hear (some y) = some z ∧ Standing d z none t := by
  cases step_spoken hs h with
  | accepted hh o es u v hacc ha hr hn hp =>
    obtain ⟨rfl, rfl⟩ := Prod.mk.inj (Option.some.inj (hc.symm.trans hacc))
    have hf' : Filed calls sent s.begin := ⟨hf.count, hf.queue, hf.caused, hf.acks⟩
    have hcount := accept_waits (d := d) hc ha
    rw [if_pos rfl, hst.waits, Nat.add_zero, ← hw] at hcount
    have hrej : (noticesTo d u.outs).foldlM Hold.hear (some y) =
        some (some { y with waiting := waits d u.items }) := by
      have hsub : y.waiting - answersIn (noticesTo d u.outs) = waits d u.items := by omega
      rw [← hsub]
      refine Hold.hear_refused (fun z hz => ?_) (by omega)
      obtain ⟨q, hq, -, rfl⟩ := mem_noticesTo hz
      exact (hr q hq).2
    have houts : t.outs = _ := ha.outs
    by_cases hne : es = []
    · have hclear : Clear d y.opNonce u := by
        have hlist : u.toQueue.list = s.toQueue.list := by
          refine ha.list.trans ?_
          rw [hne, closeLast, List.append_nil]
          rfl
        refine ⟨waits_eq_zero ha.ok.1 fun z hz hzw => ?_, hlist ▸ hst.entries⟩
        exact not_waits hs hst.waits (hlist ▸ hz) hzw
      have h0 := hclear.waits
      obtain ⟨new, z, ho, hfold, hz⟩ := hp.standing (r := some { y with waiting := waits d u.items })
        ha.ok.1 ha.ok.2.1 (ha.queueFiled hf') (.sent hclear)
      cases hz with
      | sent hv =>
        refine ⟨none, ?_, (Standing.free hv.waits).same ha.same⟩
        have hack : noticesTo d [⟨d, .onBatchComplete y.opNonce, 0, some s.begin.batches⟩] =
            [.complete y.opNonce] := by
          simp [noticesTo, Callback.notice]
        rw [houts, ho, if_pos hne, noticesTo_append, noticesTo_append, List.foldlM_append,
          List.foldlM_append, hrej, hack]
        refine (congrArg (· >>= fun z => [Notice.complete y.opNonce].foldlM Hold.hear z) hfold).trans ?_
        simp [Hold.hear, h0]
    · have hserve := accept_serves hs hf ha (fun hb => hn.trans (hone hb)) hst hne
      obtain ⟨new, z, ho, hfold, hz⟩ := hp.standing ha.ok.1 ha.ok.2.1 (ha.queueFiled hf')
        (.taken hserve)
      refine ⟨z, ?_, hz.same ha.same⟩
      rw [houts, ho, if_neg hne, List.append_nil, noticesTo_append, List.foldlM_append, hrej]
      exact hfold
  | poked hp => exact absurd hc (by simp [hp, Call.accepted?])
  | quiet hacc => exact absurd (hc.symm.trans hacc) (by simp)

/-- The operations of note `d` in the queue have nonces of kind `P`. -/
def Dated (d : ℕ) (P : ℕ → Prop) (s : OrderBook) : Prop :=
  ∀ e ∈ s.toQueue.list, e.depositHash = d → P e.opNonce

/-- A notice that names an operation of kind `P`; nobody asked for the cancellations of a drain. -/
def Names (P : ℕ → Prop) (x : Notice) : Prop :=
  ∀ n, x.opNonce? = some n → P n ∨ x = .cancelled 0

variable {P : ℕ → Prop}

theorem PassTells.dated (hp : PassTells u v) (hP : Dated d P u) :
    ∃ new, v.outs = u.outs ++ new ∧ (∀ x ∈ noticesTo d new, Names P x) ∧ Dated d P v := by
  obtain ⟨hsame, ho⟩ | ⟨e, rest, stay, os, h, ht⟩ := hp
  · refine ⟨[], by rw [ho, List.append_nil], fun x hx => absurd hx List.not_mem_nil, ?_⟩
    intro e he
    rw [hsame] at he
    exact hP e he
  · refine ⟨passOuts e stay os, h.new, fun x hx n hn => .inl ?_, fun y hy hd => ?_⟩
    · have he (hd : e.depositHash = d) : P e.opNonce :=
        hP e h.head_mem hd
      rcases passOuts_notice ht hx with ⟨f, rfl⟩ | ⟨hd, rfl | rfl | ⟨-, rfl | rfl⟩⟩
      · exact absurd hn (by simp [Notice.opNonce?])
      all_goals exact Option.some.inj hn ▸ he hd
    · obtain ⟨z, hz, -, h1, h2⟩ := h.entry hy
      rw [← h2]
      exact hP z hz (h1.trans hd)

/-- A transaction names the operations the note has sent, and no others. -/
theorem step_dated (hs : s.Ok) (h : s.step c = some t)
    (hc : ∀ o, c.accepted? = some (d, o) → P o) (hP : Dated d P s) :
    (∀ x ∈ noticesTo d t.outs, Names P x) ∧ Dated d P t := by
  cases step_spoken hs h with
  | accepted hh o es u v hacc ha hr hn hp =>
    have hu : Dated d P u := by
      intro y hy hd
      rcases accept_mem ha hy with hy | ⟨-, -, h1, h2⟩
      · exact hP y hy hd
      · rw [h2]
        exact hc o (by rw [hacc, ← h1, hd])
    obtain ⟨new, ho, hnew, hv⟩ := hp.dated hu
    have houts : t.outs = _ := ha.outs
    refine ⟨?_, ?_⟩
    · rw [houts, ho, noticesTo_append, noticesTo_append]
      intro x hx
      rcases List.mem_append.mp hx with hx | hx
      · rcases List.mem_append.mp hx with hx | hx
        · obtain ⟨q, hq, hd, rfl⟩ := mem_noticesTo hx
          obtain ⟨h1, h2⟩ := hr q hq
          intro n hn
          rw [h2] at hn
          exact .inl (Option.some.inj hn ▸ hc o (by rw [hacc, ← h1, hd]))
        · exact hnew x hx
      · obtain ⟨q, hq, hd, rfl⟩ := mem_noticesTo hx
        split_ifs at hq
        · rw [List.mem_singleton.mp hq] at hd ⊢
          intro n hn
          exact .inl (Option.some.inj hn ▸ hc o (by rw [hacc, ← hd]))
        · exact absurd hq List.not_mem_nil
    · intro y hy
      rw [ha.same] at hy
      exact hv y hy
  | poked _ hp =>
    obtain ⟨new, ho, hnew, hv⟩ := hp.dated (show Dated d P s.begin from hP)
    rw [ho]
    exact ⟨hnew, hv⟩
  | quiet hacc hX hq hd =>
    refine ⟨fun x hx n _ => .inr ?_, fun y hy => ?_⟩
    · obtain ⟨q, hq, -, rfl⟩ := mem_noticesTo hx
      exact hd q hq
    · rw [show t.toQueue.list = s.toQueue.list from congrArg Queue.list hq.queue] at hy
      exact hP y hy

end OrderBook

end Dexdo
