import Dexdo.OrderBook.Feed
import Dexdo.OrderBook.Record

namespace Dexdo

/-- Where an order stands by its reports; `asked` is the amount announced for it. -/
inductive OrderLife
  | unplaced
  | live (asked filled : ℕ)
  | filled (asked : ℕ)
  | cancelled (asked filled : ℕ)
  deriving DecidableEq

/-- The next report on an order. It does not fit where it places the order a second time, where
the order is not live, or where it fills more than was left. -/
def OrderLife.next : OrderLife → Report → Option OrderLife
  | .unplaced, .placed _ a _ => if 0 < a.amount then some (.live a.amount 0) else none
  | .live asked sum, .filled _ amount _ _ =>
    if sum + amount < asked then some (.live asked (sum + amount))
    else if sum + amount = asked then some (.filled asked)
    else none
  | .live asked sum, .cancelled _ => some (.cancelled asked sum)
  | _, _ => none

/-- The life of order `id` after a list of reports. -/
def lifeOf (id : ℕ) (rs : List Report) : Option OrderLife :=
  rs.foldl (fun l r => if r.orderId = id then l.bind (·.next r) else l) (some .unplaced)

def Report.announces? (id : ℕ) : Report → Option Announcement
  | .placed orderId a _ => if orderId = id then some a else none
  | _ => none

def Report.filledFor (id : ℕ) : Report → ℕ
  | .filled orderId amount _ _ => if orderId = id then amount else 0
  | _ => 0

/-- Amount and final flag of a fill of order `id`. -/
def Callback.fill? (id : ℕ) : Callback → Option (ℕ × Bool)
  | .onOrderFilled _ filledAmount _ _ _ _ _ orderId isFinal _ _ =>
    if orderId = id then some (filledAmount, isFinal) else none
  | _ => none

/-- Fills its note was told of order `id`, oldest first. -/
def fillsOf (id : ℕ) (os : List Out) : List (ℕ × Bool) := os.filterMap fun o => o.cb.fill? id

/-- Order `id` had its final fill. -/
def Ended (id : ℕ) (os : List Out) : Prop := ∃ x ∈ fillsOf id os, x.2 = true

/-- Fills that stay within `base` units and are final just when they use them up. -/
def Fits : (base : ℕ) → List (ℕ × Bool) → Prop
  | _, [] => True
  | base, (amount, isFinal) :: fills =>
    amount ≤ base ∧ (amount = base ↔ isFinal = true) ∧ Fits (base - amount) fills

/-- Order `id` was announced once, and as a market buy it gets the base units it announced. -/
structure Lawful (id : ℕ) (os : List Out) : Prop where
  once : ((told os).filterMap (Report.announces? id)).length ≤ 1
  fits : ∀ a ∈ (told os).filterMap (Report.announces? id), a.isBuy = true → a.isMarket = true →
    Fits a.amount (fillsOf id os)

variable {id : ℕ} {rs rs' : List Report} {os os' : List Out}

section Lists

theorem lifeOf_concat (r : Report) : lifeOf id (rs ++ [r]) =
    if r.orderId = id then (lifeOf id rs).bind (·.next r) else lifeOf id rs := by
  rw [lifeOf, List.foldl_append]
  rfl

theorem lifeOf_other (h : ∀ r ∈ rs', r.orderId ≠ id) : lifeOf id (rs ++ rs') = lifeOf id rs := by
  induction rs' using List.reverseRecOn with
  | nil => rw [List.append_nil]
  | append_singleton rs' r ih =>
    rw [← List.append_assoc, lifeOf_concat, if_neg (h r (by simp))]
    exact ih fun x hx => h x (List.mem_append_left _ hx)

theorem lifeOf_left {l : OrderLife} (h : lifeOf id (rs ++ rs') = some l) :
    ∃ l₀, lifeOf id rs = some l₀ := by
  induction rs' using List.reverseRecOn generalizing l with
  | nil => exact ⟨l, by rwa [List.append_nil] at h⟩
  | append_singleton rs' r ih =>
    rw [← List.append_assoc, lifeOf_concat] at h
    split_ifs at h
    · obtain ⟨l₀, h₀, -⟩ := of_bind h
      exact ih h₀
    · exact ih h

theorem lifeOf_announced {l : OrderLife} (h : lifeOf id rs = some l) (hl : l ≠ .unplaced) :
    ∃ a, a ∈ rs.filterMap (Report.announces? id) := by
  induction rs using List.reverseRecOn generalizing l with
  | nil =>
    cases h
    exact absurd rfl hl
  | append_singleton rs r ih =>
    rw [lifeOf_concat] at h
    simp only [List.filterMap_append, List.mem_append]
    split_ifs at h with hid
    · obtain ⟨l₀, h₀, hn⟩ := of_bind h
      by_cases hu : l₀ = .unplaced
      · subst hu
        cases r with
        | placed orderId a =>
          refine ⟨a, .inr ?_⟩
          simp [Report.announces?, show orderId = id from hid]
        | filled => cases hn
        | cancelled => cases hn
      · obtain ⟨a, ha⟩ := ih h₀ hu
        exact ⟨a, .inl ha⟩
    · obtain ⟨a, ha⟩ := ih h hl
      exact ⟨a, .inl ha⟩

/-- Amounts of a life: what was announced, and what was filled. -/
def OrderLife.Sums (l : OrderLife) (as : List Announcement) (filled : ℕ) : Prop :=
  match l with
  | .unplaced => as = [] ∧ filled = 0
  | .live asked f => (∃ a, as = [a] ∧ a.amount = asked) ∧ filled = f ∧ f < asked
  | .filled asked => (∃ a, as = [a] ∧ a.amount = asked) ∧ filled = asked
  | .cancelled asked f => (∃ a, as = [a] ∧ a.amount = asked) ∧ filled = f ∧ f < asked

theorem lifeOf_sums {l : OrderLife} (h : lifeOf id rs = some l) :
    l.Sums (rs.filterMap (Report.announces? id)) (rs.map (Report.filledFor id)).sum := by
  induction rs using List.reverseRecOn generalizing l with
  | nil =>
    cases h
    exact ⟨rfl, rfl⟩
  | append_singleton rs r ih =>
    rw [lifeOf_concat] at h
    rw [List.filterMap_append, List.map_append, List.sum_append]
    split_ifs at h with hid
    · obtain ⟨l₀, h₀, hn⟩ := of_bind h
      have hs := ih h₀
      cases r with
      | placed orderId a =>
        obtain rfl : orderId = id := hid
        cases l₀ with
        | unplaced =>
          obtain ⟨h1, h2⟩ := hs
          rw [OrderLife.next] at hn
          split_ifs at hn with hpos
          cases hn
          rw [h1, h2]
          exact ⟨⟨a, by simp [Report.announces?], rfl⟩, by simp [Report.filledFor], hpos⟩
        | live => cases hn
        | filled => cases hn
        | cancelled => cases hn
      | filled orderId =>
        obtain rfl : orderId = id := hid
        cases l₀ with
        | live =>
          obtain ⟨⟨a, h1, h2⟩, h3, h4⟩ := hs
          rw [OrderLife.next] at hn
          rw [h1, h3]
          split_ifs at hn with hlt heq
          · cases hn
            exact ⟨⟨a, by simp [Report.announces?], h2⟩, by simp [Report.filledFor], hlt⟩
          · cases hn
            exact ⟨⟨a, by simp [Report.announces?], h2⟩, by simpa [Report.filledFor] using heq⟩
        | unplaced => cases hn
        | filled => cases hn
        | cancelled => cases hn
      | cancelled =>
        cases l₀ with
        | live =>
          cases hn
          obtain ⟨⟨a, h1, h2⟩, h3, h4⟩ := hs
          rw [h1, h3]
          exact ⟨⟨a, by simp [Report.announces?], h2⟩, by simp [Report.filledFor], h4⟩
        | unplaced => cases hn
        | filled => cases hn
        | cancelled => cases hn
    · have hs := ih h
      have h1 : [r].filterMap (Report.announces? id) = [] := by
        cases r with
        | placed orderId =>
          have hne : orderId ≠ id := hid
          simp [Report.announces?, hne]
        | _ => rfl
      have h2 : ([r].map (Report.filledFor id)).sum = 0 := by
        cases r with
        | filled orderId =>
          have hne : orderId ≠ id := hid
          simp [Report.filledFor, hne]
        | _ => rfl
      rw [h1, h2, List.append_nil, Nat.add_zero]
      exact hs

theorem fillsOf_append : fillsOf id (os ++ os') = fillsOf id os ++ fillsOf id os' :=
  List.filterMap_append

theorem fillsOf_sum (id : ℕ) (os : List Out) : ((fillsOf id os).map Prod.fst).sum =
    ((told os).map (Report.filledFor id)).sum := by
  induction os with
  | nil => rfl
  | cons o os ih =>
    have hcons : fillsOf id (o :: os) = fillsOf id [o] ++ fillsOf id os := by
      rw [← fillsOf_append, List.singleton_append]
    have htold : told (o :: os) = told [o] ++ told os := told_append [o] os
    rw [hcons, htold, List.map_append, List.map_append, List.sum_append, List.sum_append, ih]
    congr 1
    obtain ⟨dest, cb, sub, cause⟩ := o
    cases cb with
    | onOrderFilled outcomeId amount price isBuy refund fee isRebate orderId isFinal n cid =>
      have hr : told [⟨dest, .onOrderFilled outcomeId amount price isBuy refund fee isRebate orderId
          isFinal n cid, sub, cause⟩] = [.filled orderId amount price (!isRebate)] := rfl
      rw [hr, fillsOf, List.filterMap_cons, List.filterMap_nil]
      dsimp only [Callback.fill?]
      by_cases hid : orderId = id
      · simp [Report.filledFor, hid]
      · simp [Report.filledFor, hid]
    | _ => rfl

theorem fits_append {base : ℕ} {fs fs' : List (ℕ × Bool)} : Fits base (fs ++ fs') ↔
    Fits base fs ∧ Fits (base - (fs.map Prod.fst).sum) fs' := by
  induction fs generalizing base with
  | nil => simp [Fits]
  | cons x fs ih =>
    simp only [List.cons_append, Fits, List.map_cons, List.sum_cons]
    rw [ih, Nat.sub_sub, and_assoc, and_assoc]

theorem Lawful.left (h : Lawful id (os ++ os')) : Lawful id os := by
  obtain ⟨h1, h2⟩ := h
  rw [told_append, List.filterMap_append] at h1 h2
  refine ⟨?_, fun a ha hb hm => ?_⟩
  · rw [List.length_append] at h1
    omega
  · have hfit := h2 a (List.mem_append_left _ ha) hb hm
    rw [fillsOf_append, fits_append] at hfit
    exact hfit.1

end Lists

namespace Item

/-- The item trades base: its amount and its fills are in one unit. -/
def TradesBase (x : Item) : Prop := ¬ (x.isBuy = true ∧ x.isMarket = true)

/-- Items of the order that has id `id`. -/
def placedAs (id : ℕ) (M : Multiset Item) : Multiset Item :=
  M.filter fun x => x.orderId ≠ 0 ∧ x.orderId = id

variable {x : Item} {M M' : Multiset Item}

theorem placedAs_own (h0 : x.orderId ≠ 0) (h : x.orderId = id) :
    placedAs id (x ::ₘ M) = x ::ₘ placedAs id M :=
  Multiset.filter_cons_of_pos (p := fun x : Item => x.orderId ≠ 0 ∧ x.orderId = id) M ⟨h0, h⟩

theorem placedAs_other (h : ¬ (x.orderId ≠ 0 ∧ x.orderId = id)) :
    placedAs id (x ::ₘ M) = placedAs id M :=
  Multiset.filter_cons_of_neg (p := fun x : Item => x.orderId ≠ 0 ∧ x.orderId = id) M h

theorem placedAs_add : placedAs id (M + M') = placedAs id M + placedAs id M' :=
  Multiset.filter_add ..

theorem placedAs_eq_zero (h : ∀ y ∈ M, ¬ (y.orderId ≠ 0 ∧ y.orderId = id)) : placedAs id M = 0 :=
  Multiset.filter_eq_nil.mpr h

theorem placedAs_after (spent : ℕ) : placedAs id (x.after spent) =
    if x.orderId ≠ 0 ∧ x.orderId = id then x.after spent else 0 := by
  unfold after
  by_cases ha : x.amount = spent
  · rw [if_pos ha, ite_self]
    rfl
  · rw [if_neg ha, ← Multiset.cons_zero]
    split_ifs with h
    · exact placedAs_own h.1 h.2
    · exact placedAs_other h

end Item

/-- What is left of a live order: in base just what its item has, and for a market buy what its
fills left of the announced amount. -/
structure Left (id : ℕ) (os : List Out) (x : Item) (asked filled : ℕ) : Prop where
  base : x.TradesBase → asked = filled + x.amount
  market : ¬ x.TradesBase → ∃ a ∈ (told os).filterMap (Report.announces? id),
    a.isBuy = true ∧ a.isMarket = true ∧ a.amount = asked

/-- The item the book holds for order `id` fits the reports so far. -/
inductive Stands (id : ℕ) (F : Multiset Item) (os : List Out) : Prop
  | unplaced (hF : F = 0) (hl : lifeOf id (told os) = some .unplaced) (he : ¬ Ended id os)
  | live (x : Item) (asked filled : ℕ) (hF : F = {x})
      (hl : lifeOf id (told os) = some (.live asked filled)) (he : ¬ Ended id os)
      (hx : Left id os x asked filled)
  | filled (asked : ℕ) (hF : F = 0) (hl : lifeOf id (told os) = some (.filled asked))
      (he : Ended id os)
  | cancelled (asked filled : ℕ) (hF : F = 0)
      (hl : lifeOf id (told os) = some (.cancelled asked filled)) (he : ¬ Ended id os)

variable {F M M' : Multiset Item} {N : ℕ} {x : Item} {o : Out}

section Stands

/-- Callbacks about other orders. -/
def Apart (id : ℕ) (os : List Out) : Prop := ∀ o ∈ os, ∀ r, o.cb.report? = some r → r.orderId ≠ id

theorem apart_singleton {r : Report} (ho : o.cb.report? = some r) (hr : r.orderId ≠ id) :
    Apart id [o] := by
  intro o' ho' r' hr'
  rw [List.mem_singleton.mp ho', ho] at hr'
  cases hr'
  exact hr

theorem apart_silent (ho : o.cb.report? = none) : Apart id [o] := by
  intro o' ho' r hr
  rw [List.mem_singleton.mp ho', ho] at hr
  cases hr

theorem Apart.fills (h : Apart id os) : fillsOf id os = [] := by
  rw [fillsOf, List.filterMap_eq_nil_iff]
  intro o ho
  cases hcb : o.cb with
  | onOrderFilled outcomeId filledAmount price isBuy refund fee isRebate orderId =>
    refine if_neg fun hid => ?_
    exact h o ho (.filled orderId filledAmount price (!isRebate)) (by rw [hcb]; rfl) hid
  | _ => rfl

theorem Stands.apart (h : Stands id F os) (ho : Apart id os') : Stands id F (os ++ os') := by
  have hlife : lifeOf id (told (os ++ os')) = lifeOf id (told os) := by
    rw [told_append]
    apply lifeOf_other
    intro r hr
    obtain ⟨o, hmem, hrep⟩ := List.mem_filterMap.mp hr
    exact ho o hmem r hrep
  have hended : Ended id (os ++ os') ↔ Ended id os := by
    rw [Ended, fillsOf_append, ho.fills, List.append_nil]
    rfl
  cases h with
  | unplaced hF hl he => exact .unplaced hF (hlife.trans hl) (mt hended.mp he)
  | live x asked filled hF hl he hx =>
    refine .live x asked filled hF (hlife.trans hl) (mt hended.mp he) ⟨hx.base, fun hm => ?_⟩
    obtain ⟨a, ha, hrest⟩ := hx.market hm
    refine ⟨a, ?_, hrest⟩
    rw [told_append, List.filterMap_append]
    exact List.mem_append_left _ ha
  | filled asked hF hl he => exact .filled asked hF (hlife.trans hl) (hended.mpr he)
  | cancelled asked filled hF hl he => exact .cancelled asked filled hF (hlife.trans hl) (mt hended.mp he)

theorem Stands.own (h : Stands id (x ::ₘ F) os) : F = 0 ∧ ∃ asked filled,
    lifeOf id (told os) = some (.live asked filled) ∧ ¬ Ended id os ∧ Left id os x asked filled := by
  cases h with
  | live y asked filled hF hl he hx =>
    rw [← Multiset.cons_zero] at hF
    rcases Multiset.cons_eq_cons.mp hF with ⟨rfl, h0⟩ | ⟨-, cs, -, h0⟩
    · exact ⟨h0, asked, filled, hl, he, hx⟩
    · exact absurd h0.symm (Multiset.cons_ne_zero)
  | unplaced hF _ _ => exact absurd hF Multiset.cons_ne_zero
  | filled _ hF _ _ => exact absurd hF Multiset.cons_ne_zero
  | cancelled _ _ hF _ _ => exact absurd hF Multiset.cons_ne_zero

theorem lifeOf_told {r : Report} (ho : o.cb.report? = some r) (hr : r.orderId = id) :
    lifeOf id (told (os ++ [o])) = (lifeOf id (told os)).bind (·.next r) := by
  have htold : told [o] = [r] := by simp [told, ho]
  rw [told_append, htold, lifeOf_concat, if_pos hr]

/-- A placement of an order not announced before. -/
theorem Stands.placed (h : Stands id F os) (hlaw : Lawful id (os ++ [o])) {a : Announcement}
    {cid : ℕ} (ho : o.cb.report? = some (.placed id a cid)) (ha : 0 < a.amount)
    (hx : x.amount = a.amount) (hb : x.isBuy = a.isBuy) (hm : x.isMarket = a.isMarket) :
    F = 0 ∧ Stands id {x} (os ++ [o]) := by
  have hself : (told [o]).filterMap (Report.announces? id) = [a] := by
    simp [told, ho, Report.announces?]
  have hnone : (told os).filterMap (Report.announces? id) = [] := by
    have honce := hlaw.once
    rw [told_append, List.filterMap_append, hself, List.length_append, List.length_singleton] at honce
    exact List.eq_nil_of_length_eq_zero (by omega)
  have hfirst : ∀ l, lifeOf id (told os) = some l → l = .unplaced := by
    intro l hl
    by_contra hne
    obtain ⟨a', ha'⟩ := lifeOf_announced hl hne
    rw [hnone] at ha'
    cases ha'
  have hfills : o.cb.fill? id = none := by
    cases hcb : o.cb with
    | onOrderFilled =>
      rw [hcb] at ho
      cases ho
    | _ => rfl
  have hone : fillsOf id [o] = [] := by simp [fillsOf, hfills]
  cases h with
  | unplaced hF hl he =>
    refine ⟨hF, .live x a.amount 0 rfl ?_ ?_ ⟨fun _ => by omega, fun hmk => ⟨a, ?_, ?_⟩⟩⟩
    · have hlife : lifeOf id (told (os ++ [o])) = _ := lifeOf_told ho rfl
      rw [hlife, hl]
      exact if_pos ha
    · rw [Ended, fillsOf_append, hone, List.append_nil]
      exact he
    · rw [told_append, List.filterMap_append, hself]
      exact List.mem_append_right _ (List.mem_singleton_self a)
    · obtain ⟨h1, h2⟩ := not_not.mp hmk
      exact ⟨hb ▸ h1, hm ▸ h2, rfl⟩
  | live y asked filled hF hl => cases hfirst _ hl
  | filled asked hF hl => cases hfirst _ hl
  | cancelled asked filled hF hl => cases hfirst _ hl

/-- A fill of a live order that is final just when it uses up what was announced. -/
theorem Stands.fill {asked filled trade price spent : ℕ} {isTaker isFinal : Bool}
    (hl : lifeOf id (told os) = some (.live asked filled)) (he : ¬ Ended id os)
    (hx : Left id os x asked filled)
    (ho : o.cb.report? = some (.filled id trade price isTaker))
    (hf : o.cb.fill? id = some (trade, isFinal)) (hfin : isFinal = true ↔ x.amount = spent)
    (hle : filled + trade ≤ asked) (hlast : filled + trade = asked ↔ isFinal = true)
    (hbase : x.TradesBase → spent = trade) : Stands id (x.after spent) (os ++ [o]) := by
  have hlife : lifeOf id (told (os ++ [o])) = _ := lifeOf_told ho rfl
  have hfills : fillsOf id (os ++ [o]) = fillsOf id os ++ [(trade, isFinal)] := by
    rw [fillsOf_append]
    simp [fillsOf, hf]
  rw [hl] at hlife
  by_cases hend : x.amount = spent
  · have hfull : filled + trade = asked := hlast.mpr (hfin.mpr hend)
    rw [Item.after, if_pos hend]
    refine .filled asked rfl ?_ ⟨(trade, isFinal), ?_, hfin.mpr hend⟩
    · rw [hlife, Option.bind_some, OrderLife.next, if_neg (by omega), if_pos hfull]
    · rw [hfills]
      exact List.mem_append_right _ (List.mem_singleton_self _)
  · have hopen : ¬ isFinal = true := mt hfin.mp hend
    have hlt : filled + trade < asked := lt_of_le_of_ne hle (mt hlast.mp hopen)
    rw [Item.after, if_neg hend]
    refine .live _ asked (filled + trade) rfl ?_ ?_ ⟨fun hb => ?_, fun hm => ?_⟩
    · rw [hlife, Option.bind_some, OrderLife.next, if_pos hlt]
    · rintro ⟨y, hy, hyf⟩
      rw [hfills] at hy
      rcases List.mem_append.mp hy with hy | hy
      · exact he ⟨y, hy, hyf⟩
      · rw [List.mem_singleton.mp hy] at hyf
        exact hopen hyf
    · have hb' : x.TradesBase := hb
      have h1 := hx.base hb'
      have h2 := hbase hb'
      change asked = filled + trade + (x.amount - spent)
      omega
    · obtain ⟨a, ha, hrest⟩ := hx.market hm
      refine ⟨a, ?_, hrest⟩
      rw [told_append, List.filterMap_append]
      exact List.mem_append_left _ ha

theorem Left.takes {asked filled trade price : ℕ} {isFinal : Bool} (hx : Left id os x asked filled)
    (hl : lifeOf id (told os) = some (.live asked filled))
    (hlaw : Lawful id (os ++ [o])) (hf : o.cb.fill? id = some (trade, isFinal))
    (hfin : isFinal = true ↔ x.amount = x.spent trade price)
    (ht : x.spent trade price ≤ x.amount) :
    filled + trade ≤ asked ∧ (filled + trade = asked ↔ isFinal = true) ∧
      (x.TradesBase → x.spent trade price = trade) := by
  by_cases hb : x.TradesBase
  · have hsp : x.spent trade price = trade := if_neg hb
    have hasked := hx.base hb
    rw [hsp] at hfin ht
    refine ⟨by omega, ?_, fun _ => hsp⟩
    rw [hfin]
    omega
  · obtain ⟨a, ha, hbuy, hmk, hamt⟩ := hx.market hb
    have hfit := hlaw.fits a (by
      rw [told_append, List.filterMap_append]
      exact List.mem_append_left _ ha) hbuy hmk
    have hsum : ((fillsOf id os).map Prod.fst).sum = filled := by
      rw [fillsOf_sum]
      exact (lifeOf_sums hl).2.1
    have hlt : filled < asked := (lifeOf_sums hl).2.2
    have hself : fillsOf id [o] = [(trade, isFinal)] := by simp [fillsOf, hf]
    rw [fillsOf_append, fits_append, hsum, hself, hamt] at hfit
    obtain ⟨-, hle, hiff, -⟩ := hfit
    refine ⟨by omega, ?_, fun h => absurd h hb⟩
    rw [← hiff]
    omega

/-- Every ledger move keeps the book and the reports about an order together. -/
theorem LedgerStep.stands (hs : LedgerStep N M os' M') (h : Stands id (Item.placedAs id M) os)
    (hlaw : Lawful id (os ++ os')) : Stands id (Item.placedAs id M') (os ++ os') := by
  cases hs with
  | reject x M opNonce c hx =>
    rw [Item.placedAs_other fun hc => hc.1 hx] at h
    exact h.apart (apart_silent rfl)
  | place x M id' opNonce c hx hid ha =>
    rw [Item.placedAs_other fun hc => hc.1 hx] at h
    by_cases hown : id' = id
    · subst hown
      obtain ⟨h0, hp⟩ := h.placed (x := { x with orderId := id' }) hlaw rfl ha rfl rfl rfl
      rw [Item.placedAs_own (x := { x with orderId := id' }) hid rfl, h0]
      exact hp
    · rw [Item.placedAs_other fun hc => hown hc.2]
      exact h.apart (apart_singleton rfl hown)
  | fill t m M trade c hm h0 hle ht =>
    rw [Item.placedAs_add, Item.placedAs_add, Item.placedAs_after, Item.placedAs_after]
    rw [← List.singleton_append] at hlaw ⊢
    rw [← List.append_assoc] at hlaw ⊢
    by_cases htk : t.orderId = id
    · subst htk
      rw [Item.placedAs_own hm.live.2 rfl] at h
      obtain ⟨hF, -⟩ := h.own
      have hne : m.orderId ≠ t.orderId := by
        intro he
        rw [Item.placedAs_own hm.live.1 he] at hF
        exact absurd hF Multiset.cons_ne_zero
      rw [Item.placedAs_other fun hc => hne hc.2] at hF h
      rw [if_pos ⟨hm.live.2, rfl⟩, if_neg fun hc => hne hc.2, hF, add_zero, add_zero]
      -- the callback of the maker comes first
      have hmaker : Apart t.orderId [⟨m.owner, m.makerFilled trade N, m.sub, c⟩] :=
        apart_singleton rfl hne
      obtain ⟨-, asked, filled, hl, he, hx⟩ := (h.apart hmaker).own
      obtain ⟨h1, h2, h3⟩ := hx.takes hl hlaw (if_pos rfl) decide_eq_true_iff ht
      exact Stands.fill hl he hx rfl (if_pos rfl) decide_eq_true_iff h1 h2 h3
    · rw [Item.placedAs_other fun hc => htk hc.2] at h
      rw [if_neg fun hc => htk hc.2, zero_add]
      have htaker : Apart id [⟨t.owner, t.takerFilled trade m.price N, t.sub, c⟩] :=
        apart_singleton rfl htk
      refine Stands.apart ?_ htaker
      by_cases hmk : m.orderId = id
      · subst hmk
        rw [Item.placedAs_own hm.live.1 rfl] at h
        obtain ⟨hF, asked, filled, hl, he, hx⟩ := h.own
        rw [if_pos ⟨hm.live.1, rfl⟩, hF, add_zero]
        have hb : m.TradesBase := by
          intro hc
          rw [hm.limit] at hc
          exact absurd hc.2 Bool.false_ne_true
        have hasked := hx.base hb
        have hiff : filled + trade = asked ↔ decide (m.amount = trade) = true := by
          rw [decide_eq_true_iff]
          omega
        exact Stands.fill hl he hx rfl (if_pos rfl) decide_eq_true_iff (by omega) hiff fun _ => rfl
      · rw [Item.placedAs_other fun hc => hmk hc.2] at h
        rw [if_neg fun hc => hmk hc.2, zero_add]
        exact h.apart (apart_singleton rfl hmk)
  | cancel x M returnAmt opNonce c hx =>
    by_cases hown : x.orderId = id
    · subst hown
      rw [Item.placedAs_own hx rfl] at h
      obtain ⟨hF, asked, filled, hl, he, -⟩ := h.own
      refine .cancelled asked filled hF ?_ ?_
      · have hlife : lifeOf x.orderId (told (os ++ [⟨x.owner, x.cancelled returnAmt opNonce, x.sub, c⟩]))
            = (lifeOf x.orderId (told os)).bind (·.next (.cancelled x.orderId)) := lifeOf_told rfl rfl
        rw [hlife, hl]
        rfl
      · rw [Ended, fillsOf_append]
        exact (List.append_nil (fillsOf x.orderId os)).symm ▸ he
    · rw [Item.placedAs_other fun hc => hown hc.2] at h
      exact h.apart (apart_singleton rfl hown)
  | ack => exact h.apart (apart_silent rfl)

theorem LedgerPath.stands (hp : LedgerPath N M os' M') (h : Stands id (Item.placedAs id M) os)
    (hlaw : Lawful id (os ++ os')) : Stands id (Item.placedAs id M') (os ++ os') := by
  induction hp with
  | refl =>
    rw [List.append_nil]
    exact h
  | snoc _ hs ih =>
    rw [← List.append_assoc] at hlaw ⊢
    exact hs.stands (ih hlaw.left) hlaw

end Stands

namespace OrderBook

variable {s t u : OrderBook} {market : MarketId} {resultStart numOutcomes : ℕ}
  {tr : List (Call × OrderBook)}

theorem submission_orderId {owner sub : ℕ} {ps : List PlaceParams} {y : Item}
    (h : y ∈ submission owner sub ps) : y.orderId = 0 := by
  induction ps generalizing sub with
  | nil => simp [submission] at h
  | cons p ps ih =>
    rcases Multiset.mem_cons.mp h with rfl | h
    · rfl
    · exact ih h

theorem run_stands (h : Run step (OrderBook.init market resultStart numOutcomes) tr s)
    (hlaw : Lawful id (traceOuts tr)) : Stands id (Item.placedAs id s.items) (traceOuts tr) := by
  induction h with
  | nil =>
    refine .unplaced ?_ rfl ?_
    · apply Item.placedAs_eq_zero
      intro y hy
      rw [init_items] at hy
      exact absurd hy (Multiset.notMem_zero y)
    · rintro ⟨y, hy, -⟩
      cases hy
  | @snoc tr s t c hr hs ih =>
    rw [traceOuts_snoc] at hlaw ⊢
    have hm := step_moves (run_ok hr) hs
    apply hm.path.stands _ hlaw
    rw [Item.placedAs_add, Item.placedAs_eq_zero, zero_add]
    · exact ih hlaw.left
    · intro y hy
      cases c with
      | executeBatch =>
        have h0 : y.orderId = 0 := submission_orderId hy
        exact fun hc => hc.1 h0
      | _ => simp [Call.submitted] at hy

end OrderBook

/-- What one fill of a taker tells its note: the amount, and whether it was the final one. -/
def OrderBook.Fill.told (p : PlaceParams) (f : OrderBook.Fill) : ℕ × Bool :=
  (f.trade, decide (OrderBook.takerSpent p f.trade f.maker.price = f.remaining))

namespace OrderBook

variable {s t u : OrderBook} {p : PlaceParams} {e : QueueEntry} {rest : List QueueEntry}
  {H as bs : List Action} {C : List ℕ} {i : ℕ} {market : MarketId} {resultStart numOutcomes : ℕ}
  {tr : List (Call × OrderBook)}

section Ladder

/-- Base units a market buy takes of an ask. -/
def bought (quote : ℕ) (m : Maker) : ℕ := min m.amount (affordBase quote m)

/-- From a ladder a quote buys at most `base` units, and just as many where it is used up. -/
def BuysWithin : (left quote base : ℕ) → List Maker → Prop
  | _, _, _, [] => True
  | 0, _, _, _ => True
  | left + 1, quote, base, m :: ms =>
    quote = 0 ∨ bought quote m = 0 ∨ (bought quote m ≤ base ∧
      (bought quote m = base ↔ notionalOf (bought quote m) m.price = quote) ∧
      BuysWithin left (quote - notionalOf (bought quote m) m.price) (base - bought quote m) ms)

instance decidableBuysWithin :
    (left quote base : ℕ) → (ms : List Maker) → Decidable (BuysWithin left quote base ms)
  | 0, _, _, [] => .isTrue trivial
  | _ + 1, _, _, [] => .isTrue trivial
  | 0, _, _, _ :: _ => .isTrue trivial
  | left + 1, quote, base, m :: ms =>
    have := decidableBuysWithin left (quote - notionalOf (bought quote m) m.price)
      (base - bought quote m) ms
    inferInstanceAs (Decidable (_ ∨ _ ∨ (_ ∧ _ ∧ _)))

theorem walk_buys (hp : p.isBuy ∧ p.isMarket) (left quote base : ℕ) (ms : List Maker) :
    Fits base ((walk p left quote ms).fills.map (Fill.told p)) ↔
      BuysWithin left quote base ms := by
  induction ms generalizing left quote base with
  | nil => cases left <;> simp [BuysWithin, Fits]
  | cons m ms ih =>
    by_cases h0 : quote = 0
    · subst h0
      rw [walk_zero]
      cases left with
      | zero => simp [BuysWithin, Fits]
      | succ => simp [BuysWithin, Fits]
    cases left with
    | zero =>
      rw [walk_cap _ _ _ _ h0]
      simp [BuysWithin, Fits]
    | succ =>
      have htrade : tradeSize p quote m.amount m.price = bought quote m :=
        (tradeSize_market hp quote m).trans Nat.min_def.symm
      rw [walk_succ _ _ _ _ _ h0, BuysWithin, htrade]
      dsimp only
      by_cases hd : bought quote m = 0
      · rw [if_pos ⟨hp, hd⟩]
        simp [hd, Fits]
      · rw [if_neg fun hc => hd hc.2, or_iff_right h0, or_iff_right hd]
        rw [List.map_cons, Fits, ← ih, takerSpent_market hp]
        simp only [Fill.told, takerSpent_market hp, decide_eq_true_eq]

end Ladder

section Actions

theorem fillsOf_outsOf : fillsOf i (outsOf as) =
    as.filterMap fun a => a.out?.bind fun o => o.cb.fill? i := by
  rw [fillsOf, outsOf, List.filterMap_filterMap]

theorem fillsOf_outs (t : OrderBook) : fillsOf i t.outs = fillsOf i (outsOf t.history) := by
  change fillsOf i (outsOf t.actions) = _
  rw [fillsOf_outsOf, fillsOf_outsOf]
  apply filterMap_history
  intro a ha
  cases a with
  | callback dest cb =>
    cases cb <;> simp [Action.isTrade, Action.out?, Callback.fill?] at ha ⊢
  | _ => rfl

theorem fillsOf_openedActions (u : OrderBook) : fillsOf i (outsOf (u.openedActions e)) = [] := by
  unfold openedActions
  split_ifs
  · rfl
  · rfl

theorem fillsOf_tradeActions {b : Book} {orderId N seq : ℕ} {fills : List Fill}
    (h : ∀ f ∈ fills, f.maker.id ≠ i) :
    fillsOf i (outsOf (tradeActions b e orderId N seq fills)) =
      if orderId = i then fills.map (Fill.told e.params) else [] := by
  induction fills generalizing seq with
  | nil => exact (ite_self _).symm
  | cons f fills ih =>
    rw [tradeActions, outsOf_append, fillsOf_append, ih fun g hg => h g (List.mem_cons_of_mem _ hg)]
    have hne : f.maker.id ≠ i := h f List.mem_cons_self
    have hone : fillsOf i (outsOf (fillActions e orderId (b.core f.maker.id) f N (seq + 1))) =
        if orderId = i then [Fill.told e.params f] else [] := by
      rw [fillsOf_outsOf, fillActions]
      simp only [List.filterMap_cons, List.filterMap_nil, Action.out?, Option.bind_none,
        Option.bind_some, Callback.fill?, if_neg hne]
      by_cases hid : orderId = i
      · rw [if_pos hid, if_pos hid]
        rfl
      · rw [if_neg hid, if_neg hid]
    rw [hone]
    split_ifs
    · rfl
    · rfl

end Actions

section Law

/-- The market buy whose pass comes up buys within what is left of the amount it announced. -/
def BuysAsAnnounced (H : List Action) (u : OrderBook) : Prop :=
  ∀ e ∈ u.matchingEntry, e.params.isBuy = true → e.params.isMarket = true →
    ∀ a ∈ announced (u.openOrder e).2 (H ++ u.openedActions e),
      BuysWithin MAX_MATCHES_PER_CALL e.params.amount (a.amount - filledOf (u.openOrder e).2 H)
        (u.crossingMakers e.params)

instance (H : List Action) (u : OrderBook) : Decidable (u.BuysAsAnnounced H) :=
  inferInstanceAs (Decidable (∀ e ∈ u.matchingEntry, e.params.isBuy = true →
    e.params.isMarket = true → ∀ a ∈ announced (u.openOrder e).2 (H ++ u.openedActions e), _))

/-- Reports `H` and `os` of a run so far: nothing is told of ids still to be assigned, no order is
announced twice, and the market buys got what they announced. -/
structure Sound (H : List Action) (os : List Out) (n : ℕ) : Prop where
  fresh : ∀ i, n ≤ i → fillsOf i os = []
  once : ∀ i, (announced i H).length ≤ 1
  fits : ∀ i, ∀ a ∈ announced i H, a.isBuy = true → a.isMarket = true →
    Fits a.amount (fillsOf i os)

theorem Sound.quiet {n n' : ℕ} (h : Sound H os n) (hn : n' = n) (hA : ∀ i, announced i as = [])
    (hF : ∀ i, fillsOf i os' = []) : Sound (H ++ as) (os ++ os') n' := by
  subst hn
  refine ⟨fun i hi => ?_, fun i => ?_, fun i a ha => ?_⟩
  · rw [fillsOf_append, hF, List.append_nil]
    exact h.fresh i hi
  · rw [announced_append, hA, List.append_nil]
    exact h.once i
  · rw [announced_append, hA, List.append_nil] at ha
    rw [fillsOf_append, hF, List.append_nil]
    exact h.fits i a ha

/-- The order at the head is opened if it has no id yet, and then it may fill. -/
theorem Sound.opened (h : Sound H os u.nextOrderId) (hrec : Recorded H C u)
    (hn : t.nextOrderId = (u.openOrder e).1.nextOrderId)
    (hA : ∀ i, announced i as = announced i (u.openedActions e))
    (hfresh : ∀ i, t.nextOrderId ≤ i → fillsOf i os' = [])
    (hfits : ∀ i, ∀ a ∈ announced i (H ++ as), a.isBuy = true → a.isMarket = true →
      Fits (a.amount - ((fillsOf i os).map Prod.fst).sum) (fillsOf i os')) :
    Sound (H ++ as) (os ++ os') t.nextOrderId := by
  have hle : u.nextOrderId ≤ t.nextOrderId := by
    rw [hn]
    exact openOrder_le e
  refine ⟨fun i hi => ?_, fun i => ?_, fun i a ha hb hm => ?_⟩
  · rw [fillsOf_append, hfresh i hi, h.fresh i (hle.trans hi)]
    rfl
  · rw [announced_append, hA, announced_openedActions]
    split_ifs with hnew
    · rw [(hrec.fresh i hnew.2.le).1]
      exact le_rfl
    · rw [List.append_nil]
      exact h.once i
  · rw [fillsOf_append, fits_append]
    refine ⟨?_, hfits i a ha hb hm⟩
    rw [announced_append, hA] at ha
    rcases List.mem_append.mp ha with ha | ha
    · exact h.fits i a ha hb hm
    · rw [announced_openedActions] at ha
      split_ifs at ha with hnew
      · rw [h.fresh i hnew.2.le]
        exact trivial
      · cases ha

theorem not_maker (hrec : Recorded H C u) (hu : u.Ok)
    (hA : ∀ i, announced i as = announced i (u.openedActions e)) {a : Announcement}
    (ha : a ∈ announced i (H ++ as)) (hm : a.isMarket = true) :
    ∀ f ∈ (u.passWalk e.params).fills, f.maker.id ≠ i := by
  intro f hf he
  have hs : u.Stored i := he ▸ ((passWalk_consumed hu.book e.params).1.stored f hf).1
  obtain ⟨A, r⟩ := hu.book.rep
  have hold : announced i as = [] := by
    rw [hA, announced_openedActions, if_neg]
    rintro ⟨-, hi⟩
    exact absurd (r.bound i hs).2.1 (by omega)
  have hlimit : (u.makerItem i).isMarket = false := hu.book.limit i hs
  rw [announced_append, hold, List.append_nil, (hrec.resting i hs).listed,
    List.mem_singleton] at ha
  rw [ha] at hm
  exact absurd (hm.symm.trans hlimit) (by decide)

/-- A matching pass whose market buy buys as announced. -/
theorem Sound.matched (h : Sound H os u.nextOrderId) (hrec : Recorded H C u) (hu : u.Ok)
    (hl : u.toQueue.list = e :: rest) (hm : u.matchingEntry = some e)
    (hbuy : u.BuysAsAnnounced H) (hsum : ∀ i, ((fillsOf i os).map Prod.fst).sum = filledOf i H)
    (hn : t.nextOrderId = (u.openOrder e).1.nextOrderId)
    (hA : ∀ i, announced i as = announced i (u.matchActions e))
    (hF : ∀ i, fillsOf i os' = fillsOf i (outsOf (u.matchActions e))) :
    Sound (H ++ as) (os ++ os') t.nextOrderId := by
  have hp : e.entryType = .place := (matchingEntry_iff.mp hm).1.2.2.2.1
  have hA' (i : ℕ) : announced i as = announced i (u.openedActions e) :=
    (hA i).trans (matchActions_reports i).1
  have hfills : ∀ i, (∀ f ∈ (u.passWalk e.params).fills, f.maker.id ≠ i) → fillsOf i os' =
      if (u.openOrder e).2 = i then (u.passWalk e.params).fills.map (Fill.told e.params)
      else [] := by
    intro i hi
    rw [hF, matchActions, outsOf_append, fillsOf_append, fillsOf_openedActions, List.nil_append]
    exact fillsOf_tradeActions hi
  apply h.opened hrec hn hA'
  · intro i hi
    obtain ⟨A, r⟩ := hu.book.rep
    obtain ⟨-, hlt⟩ := openOrder_id hu hl hp
    rw [hfills, if_neg]
    · omega
    · intro f hf he
      have hs := ((passWalk_consumed hu.book e.params).1.stored f hf).1
      have hbound := (r.bound _ hs).2.1
      have hle := openOrder_le (u := u) e
      omega
  · intro i a ha hb hmk
    rw [hfills i (not_maker hrec hu hA' ha hmk)]
    split_ifs with hown
    · subst hown
      have hopen : EntryRecord (H ++ u.openedActions e) C (u.openOrder e).2 e := by
        apply hrec.opened hl hp fun _ => rfl
        rw [filledOf, legs_openedActions]
        rfl
      obtain ⟨⟨amount, hlist, -⟩, -, -⟩ := hopen
      rw [announced_append, hA', ← announced_append] at ha
      have haeq : a = { e.params.announcement with amount := amount } := by
        rw [hlist] at ha
        exact List.mem_singleton.mp ha
      have hpb : e.params.isBuy = true := by
        rw [haeq] at hb
        exact hb
      have hpm : e.params.isMarket = true := by
        rw [haeq] at hmk
        exact hmk
      rw [hsum]
      exact (walk_buys ⟨hpb, hpm⟩ _ _ _ _).mpr (hbuy e hm hpb hpm a ha)
    · exact trivial

theorem Sound.turn (h : Sound H os u.nextOrderId) (hrec : Recorded H C u) (hu : u.Ok)
    (ht : Turn u t bs) (hbuy : u.BuysAsAnnounced H)
    (hsum : ∀ i, ((fillsOf i os).map Prod.fst).sum = filledOf i H)
    (hA : ∀ i, announced i as = announced i bs)
    (hF : ∀ i, fillsOf i os' = fillsOf i (outsOf bs)) :
    Sound (H ++ as) (os ++ os') t.nextOrderId := by
  cases ht with
  | idle _ _ _ hn => exact h.quiet hn hA hF
  | thinned _ _ _ _ _ _ _ _ hn => exact h.quiet hn hA hF
  | refused _ _ _ _ _ _ hn => exact h.quiet hn hA hF
  | stopped e rest hl he hc hl' hb hn =>
    have hF' (i : ℕ) : fillsOf i os' = [] := (hF i).trans (fillsOf_openedActions u)
    refine h.opened hrec hn hA (fun i _ => hF' i) fun i a _ _ _ => ?_
    rw [hF']
    exact trivial
  | deferred e rest accum lastPrice hl he hc hl' hb hn =>
    have hF' (i : ℕ) : fillsOf i os' = [] := (hF i).trans (fillsOf_openedActions u)
    refine h.opened hrec hn hA (fun i _ => hF' i) fun i a _ _ _ => ?_
    rw [hF']
    exact trivial
  | capped e rest hl hm hc hl' hb hn => exact h.matched hrec hu hl hm hbuy hsum hn hA hF
  | settled e rest hl hm hc hl' hb hn => exact h.matched hrec hu hl hm hbuy hsum hn hA hF

theorem announced_published (i : ℕ) (as : List Action) :
    announced i as = (published as).filterMap (Report.announces? i) := by
  rw [announced, published, List.filterMap_filterMap]
  refine List.filterMap_congr fun a _ => ?_
  cases a with
  | event ev => cases ev <;> rfl
  | _ => rfl

theorem filledOf_published (i : ℕ) (as : List Action) :
    filledOf i as = ((published as).map (Report.filledFor i)).sum := by
  induction as with
  | nil => rfl
  | cons a as ih =>
    have hcons : filledOf i (a :: as) = filledOf i [a] + filledOf i as := filledOf_append i [a] as
    have hpub : published (a :: as) = published [a] ++ published as := published_append [a] as
    rw [hcons, hpub, List.map_append, List.sum_append, ih]
    congr 1
    cases a with
    | event ev =>
      cases ev with
      | orderFilled orderId filledAmount price fee isTaker matchId owner =>
        have hlegs : legs [.event (.orderFilled orderId filledAmount price fee isTaker matchId owner)]
            = [⟨orderId, filledAmount, price, isTaker, matchId⟩] := rfl
        have hrep : published [.event (.orderFilled orderId filledAmount price fee isTaker matchId
            owner)] = [.filled orderId filledAmount price isTaker] := rfl
        rw [filledOf, hlegs, hrep]
        by_cases hid : orderId = i
        · simp [Report.filledFor, hid]
        · simp [Report.filledFor, hid]
      | _ => rfl
    | _ => rfl

/-- Every step of a trace satisfies `P`, read with the actions before it. -/
def EachAfter (P : List Action → OrderBook → Call → Prop) :
    List Action → OrderBook → List (Call × OrderBook) → Prop
  | _, _, [] => True
  | H, s, (c, t) :: tr => P H s c ∧ EachAfter P (H ++ t.actions) t tr

instance decidableEachAfter {P : List Action → OrderBook → Call → Prop}
    [∀ H s c, Decidable (P H s c)] : ∀ (H : List Action) (s : OrderBook)
    (tr : List (Call × OrderBook)), Decidable (EachAfter P H s tr)
  | _, _, [] => .isTrue trivial
  | H, s, (c, t) :: tr =>
    @instDecidableAnd (P H s c) (EachAfter P (H ++ t.actions) t tr) _
      (decidableEachAfter (H ++ t.actions) t tr)

theorem eachAfter_concat {P : List Action → OrderBook → Call → Prop} {c : Call} :
    EachAfter P H s (tr ++ [(c, t)]) ↔
      EachAfter P H s tr ∧ P (H ++ traceActions tr) (Run.last s tr) c := by
  induction tr generalizing H s with
  | nil => simp [EachAfter, traceActions, Run.last]
  | cons x tr ih =>
    simp only [List.cons_append, EachAfter, Run.last]
    rw [ih, and_assoc, List.append_assoc]
    rfl

/-- A call brings up no market buy that does not buy as announced. -/
def CallBuysAsAnnounced (H : List Action) (s : OrderBook) (c : Call) : Prop :=
  ∀ u ∈ s.atHead c, u.BuysAsAnnounced H

instance (H : List Action) (s : OrderBook) (c : Call) : Decidable (CallBuysAsAnnounced H s c) :=
  inferInstanceAs (Decidable (∀ u ∈ s.atHead c, u.BuysAsAnnounced H))

theorem run_sound (h : Run step (OrderBook.init market resultStart numOutcomes) tr s)
    (hbuy : EachAfter CallBuysAsAnnounced [] (OrderBook.init market resultStart numOutcomes) tr) :
    Sound (traceActions tr) (traceOuts tr) s.nextOrderId := by
  induction h with
  | nil => exact ⟨fun _ _ => rfl, fun _ => Nat.zero_le _, fun _ _ ha => absurd ha List.not_mem_nil⟩
  | @snoc tr s t c hr hs ih =>
    obtain ⟨hbefore, hnow⟩ := eachAfter_concat.mp hbuy
    rw [hr.last_eq, List.nil_append] at hnow
    have hsound := ih hbefore
    have hok := run_ok hr
    have hrec := run_recorded hr
    rw [traceActions_snoc, traceOuts_snoc]
    obtain ⟨u, bs, hu, hent, hturn, hh⟩ | ⟨-, ha⟩ := step_turn hok hs
    · obtain ⟨es, hl, hes⟩ := atHead_entrants hok hs hu
      have hsum (i : ℕ) : ((fillsOf i (traceOuts tr)).map Prod.fst).sum =
          filledOf i (traceActions tr) := by
        rw [fillsOf_sum, filledOf_published, run_paired hr]
      rw [← hent.nextId] at hsound
      refine hsound.turn (hrec.enter hent hl (entrant_fresh hes)) hent.ok hturn (hnow u hu) hsum
        (fun i => ?_) fun i => ?_
      · rw [announced_actions, hh]
      · rw [fillsOf_outs, hh]
    · refine hsound.quiet ha.nextId (fun i => ?_) fun i => ?_
      · rw [announced_actions, ha.history]
        rfl
      · rw [fillsOf_outs, ha.history]
        rfl

theorem run_lawful (h : Run step (OrderBook.init market resultStart numOutcomes) tr s)
    (hbuy : EachAfter CallBuysAsAnnounced [] (OrderBook.init market resultStart numOutcomes) tr)
    (id : ℕ) : Lawful id (traceOuts tr) := by
  have hsound := run_sound h hbuy
  have hann : (told (traceOuts tr)).filterMap (Report.announces? id) =
      announced id (traceActions tr) := by
    rw [announced_published, run_paired h]
  refine ⟨?_, ?_⟩
  · rw [hann]
    exact hsound.once id
  · rw [hann]
    exact hsound.fits id

end Law

end OrderBook

end Dexdo
