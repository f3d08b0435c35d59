import Dexdo.InferenceBook.Stats
import Dexdo.Lib.Newest
import Mathlib.Algebra.BigOperators.Group.Finset.Basic
import Mathlib.Data.Multiset.Sort
import Mathlib.Order.Interval.Finset.Nat

namespace Dexdo

/-- Middle of a multiset: of an even number of elements the floored mean of the two middle ones. -/
def median (s : Multiset ℕ) : ℕ :=
  let l := s.sort
  if l.length % 2 = 1 then l.getD (l.length / 2) 0
  else (l.getD (l.length / 2 - 1) 0 + l.getD (l.length / 2) 0) / 2

namespace ReferencePrice

section Sorting

theorem exchange_perm (x : ℕ) (l : List ℕ) :
    ((exchange x l).1 :: (exchange x l).2).Perm (x :: l) := by
  induction l generalizing x with
  | nil => exact .refl _
  | cons y ys ih =>
    simp only [exchange]
    split_ifs
    · exact (List.Perm.swap x _ _).trans ((ih y).cons x)
    · exact ((List.Perm.swap y _ _).trans ((ih x).cons y)).trans (List.Perm.swap x y ys)

theorem exchange_le (x : ℕ) (l : List ℕ) : ∀ y ∈ x :: l, (exchange x l).1 ≤ y := by
  induction l generalizing x with
  | nil =>
    intro y hy
    rw [List.mem_singleton.mp hy]
    exact le_rfl
  | cons z zs ih =>
    intro y hy
    simp only [exchange]
    split_ifs with hlt
    · rcases List.mem_cons.mp hy with rfl | hy
      · exact (ih z z List.mem_cons_self).trans hlt.le
      · exact ih z y hy
    · rcases List.mem_cons.mp hy with rfl | hy
      · exact ih y y List.mem_cons_self
      · rcases List.mem_cons.mp hy with rfl | hy
        · exact (ih x x List.mem_cons_self).trans (not_lt.mp hlt)
        · exact ih x y (List.mem_cons_of_mem x hy)

theorem exchangeSort_perm (n : ℕ) (l : List ℕ) (h : l.length ≤ n) :
    (exchangeSort n l).Perm l := by
  induction n generalizing l with
  | zero =>
    rw [List.length_eq_zero_iff.mp (Nat.le_zero.mp h)]
    exact .refl _
  | succ n ih =>
    cases l with
    | nil => exact .refl _
    | cons x xs =>
      have hp := exchange_perm x xs
      have hlen : (exchange x xs).2.length ≤ n := by
        have h1 := hp.length_eq
        simp only [List.length_cons] at h1 h
        omega
      simp only [exchangeSort]
      exact ((ih _ hlen).cons _).trans hp

theorem exchangeSort_sorted (n : ℕ) (l : List ℕ) (h : l.length ≤ n) :
    (exchangeSort n l).Pairwise (· ≤ ·) := by
  induction n generalizing l with
  | zero =>
    rw [List.length_eq_zero_iff.mp (Nat.le_zero.mp h)]
    exact .nil
  | succ n ih =>
    cases l with
    | nil => exact .nil
    | cons x xs =>
      have hp := exchange_perm x xs
      have hlen : (exchange x xs).2.length ≤ n := by
        have h1 := hp.length_eq
        simp only [List.length_cons] at h1 h
        omega
      simp only [exchangeSort]
      refine List.pairwise_cons.mpr ⟨?_, ih _ hlen⟩
      intro y hy
      apply exchange_le x xs y
      exact hp.subset (List.mem_cons_of_mem _ ((exchangeSort_perm n _ hlen).subset hy))

theorem exchangeSort_eq (l : List ℕ) : exchangeSort l.length l = (l : Multiset ℕ).sort := by
  have hp : (exchangeSort l.length l).Perm ((l : Multiset ℕ).sort) := by
    apply Multiset.coe_eq_coe.mp
    rw [Multiset.sort_eq]
    exact Multiset.coe_eq_coe.mpr (exchangeSort_perm _ l le_rfl)
  exact hp.eq_of_pairwise' (exchangeSort_sorted _ l le_rfl) (Multiset.pairwise_sort _ _)

end Sorting

/-- One call of `_recordTrade`. -/
structure Trade where
  now : ℕ
  price : ℕ
  ticks : ℕ
  deriving DecidableEq

def Trade.day (t : Trade) : ℕ := t.now / SECS_PER_DAY

/-- The statistics after the given calls. -/
def recordAll (trades : List Trade) : ReferencePrice :=
  trades.foldl (fun b t => b.recordTrade t.now t.price t.ticks) .init

/-- Volume of a calendar day, -/
def volOn (trades : List Trade) (day : ℕ) : ℕ :=
  ((trades.filter fun t => t.day = day).map Trade.ticks).sum

/-- and its total price-volume. -/
def priceVolOn (trades : List Trade) (day : ℕ) : ℕ :=
  ((trades.filter fun t => t.day = day).map fun t => t.price * t.ticks).sum

/-- A calendar day with its totals. -/
def dayOf (trades : List Trade) (day : ℕ) : DayData :=
  ⟨day, priceVolOn trades day, volOn trades day⟩

/-- The calendar days of the week that ends with the day of `now`. -/
def weekOf (now : ℕ) : Finset ℕ := Finset.Icc (now / SECS_PER_DAY - 6) (now / SECS_PER_DAY)

/-- The days traded on, newest first. -/
def entered (days : List DayData) (t : Trade) : List DayData :=
  match days with
  | [] => [⟨t.day, t.price * t.ticks, t.ticks⟩]
  | d :: rest =>
    if d.day = t.day then ⟨d.day, d.priceVolSum + t.price * t.ticks, d.volSum + t.ticks⟩ :: rest
    else ⟨t.day, t.price * t.ticks, t.ticks⟩ :: d :: rest

def journal (trades : List Trade) : List DayData := trades.foldl entered []

section Journal

variable (trades : List Trade) (t : Trade)

theorem journal_concat : journal (trades ++ [t]) = entered (journal trades) t := by
  simp [journal]

theorem recordAll_concat :
    recordAll (trades ++ [t]) = (recordAll trades).recordTrade t.now t.price t.ticks := by
  simp [recordAll]

theorem volOn_concat (day : ℕ) :
    volOn (trades ++ [t]) day = volOn trades day + if t.day = day then t.ticks else 0 := by
  simp only [volOn, List.filter_append, List.map_append, List.sum_append]
  split_ifs with h
  · simp [h]
  · simp [h]

theorem priceVolOn_concat (day : ℕ) :
    priceVolOn (trades ++ [t]) day =
      priceVolOn trades day + if t.day = day then t.price * t.ticks else 0 := by
  simp only [priceVolOn, List.filter_append, List.map_append, List.sum_append]
  split_ifs with h
  · simp [h]
  · simp [h]

theorem priceVolOn_eq_zero {day : ℕ} (h : volOn trades day = 0) : priceVolOn trades day = 0 := by
  induction trades using List.reverseRecOn with
  | nil => rfl
  | append_singleton trades t ih =>
    rw [volOn_concat] at h
    rw [priceVolOn_concat, ih (by omega)]
    split_ifs at h with hd
    · rw [if_pos hd, show t.ticks = 0 by omega, Nat.mul_zero]
    · rw [if_neg hd]

/-- The journal has each day traded on once, with its totals. -/
structure Exact (trades : List Trade) (days : List DayData) : Prop where
  sorted : days.Pairwise fun a b => b.day < a.day
  exact : ∀ d ∈ days, d = dayOf trades d.day
  traded : ∀ d ∈ days, ∃ t ∈ trades, t.day = d.day
  covers : ∀ t ∈ trades, ∃ d ∈ days, d.day = t.day

variable {trades t} {days : List DayData}

theorem volOn_eq_zero {day : ℕ} (h : ∀ t ∈ trades, t.day ≠ day) : volOn trades day = 0 := by
  rw [volOn, List.filter_eq_nil_iff.mpr]
  · rfl
  · intro t ht hd
    exact h t ht (of_decide_eq_true hd)

theorem dayOf_concat_of_ne {day : ℕ} (h : t.day ≠ day) :
    dayOf (trades ++ [t]) day = dayOf trades day := by
  rw [dayOf, dayOf, volOn_concat, priceVolOn_concat, if_neg h, if_neg h]
  rfl

/-- A trade on the newest day of the journal, -/
theorem Exact.same {d : DayData} (h : Exact trades (d :: days)) (hd : d.day = t.day) :
    Exact (trades ++ [t])
      (⟨d.day, d.priceVolSum + t.price * t.ticks, d.volSum + t.ticks⟩ :: days) := by
  have hlt := (List.pairwise_cons.mp h.sorted).1
  have hhead := h.exact d List.mem_cons_self
  refine ⟨List.pairwise_cons.mpr ⟨hlt, (List.pairwise_cons.mp h.sorted).2⟩, ?_, ?_, ?_⟩
  · intro d' hd'
    rcases List.mem_cons.mp hd' with rfl | hd'
    · change _ = dayOf (trades ++ [t]) d.day
      rw [dayOf, volOn_concat, priceVolOn_concat, if_pos hd.symm, if_pos hd.symm]
      rw [hhead]
      rfl
    · rw [dayOf_concat_of_ne]
      · exact h.exact d' (List.mem_cons_of_mem d hd')
      · rw [← hd]
        exact (hlt d' hd').ne'
  · intro d' hd'
    rcases List.mem_cons.mp hd' with rfl | hd'
    · exact ⟨t, by simp, hd.symm⟩
    · obtain ⟨t', ht', he⟩ := h.traded d' (List.mem_cons_of_mem d hd')
      exact ⟨t', List.mem_append_left _ ht', he⟩
  · intro t' ht'
    rcases List.mem_append.mp ht' with ht' | ht'
    · obtain ⟨d', hd', he⟩ := h.covers t' ht'
      rcases List.mem_cons.mp hd' with rfl | hd'
      · exact ⟨_, List.mem_cons_self, he⟩
      · exact ⟨d', List.mem_cons_of_mem _ hd', he⟩
    · obtain rfl := List.mem_singleton.mp ht'
      exact ⟨_, List.mem_cons_self, hd⟩

theorem Exact.later (h : Exact trades days) (hlt : ∀ d ∈ days, d.day < t.day) :
    Exact (trades ++ [t]) (⟨t.day, t.price * t.ticks, t.ticks⟩ :: days) := by
  have hnew : volOn trades t.day = 0 := by
    apply volOn_eq_zero
    intro t' ht' he
    obtain ⟨d, hd, hd'⟩ := h.covers t' ht'
    exact (hlt d hd).ne (hd'.trans he)
  refine ⟨List.pairwise_cons.mpr ⟨hlt, h.sorted⟩, ?_, ?_, ?_⟩
  · intro d hd
    rcases List.mem_cons.mp hd with rfl | hd
    · change _ = dayOf (trades ++ [t]) t.day
      rw [dayOf, volOn_concat, priceVolOn_concat, if_pos rfl, if_pos rfl, hnew,
        priceVolOn_eq_zero trades hnew, Nat.zero_add, Nat.zero_add]
    · rw [dayOf_concat_of_ne (hlt d hd).ne']
      exact h.exact d hd
  · intro d hd
    rcases List.mem_cons.mp hd with rfl | hd
    · exact ⟨t, by simp, rfl⟩
    · obtain ⟨t', ht', he⟩ := h.traded d hd
      exact ⟨t', List.mem_append_left _ ht', he⟩
  · intro t' ht'
    rcases List.mem_append.mp ht' with ht' | ht'
    · obtain ⟨d, hd, he⟩ := h.covers t' ht'
      exact ⟨d, List.mem_cons_of_mem _ hd, he⟩
    · obtain rfl := List.mem_singleton.mp ht'
      exact ⟨_, List.mem_cons_self, rfl⟩

/-- Times do not go back from call to call. -/
def InOrder (trades : List Trade) : Prop := trades.Pairwise fun a b => a.now ≤ b.now

theorem day_le {now : ℕ} (h : ∀ t ∈ trades, t.now ≤ now) (he : Exact trades days) :
    ∀ d ∈ days, d.day ≤ now / SECS_PER_DAY := by
  intro d hd
  obtain ⟨t, ht, hday⟩ := he.traded d hd
  rw [← hday]
  exact Nat.div_le_div_right (h t ht)

theorem Exact.entered (h : Exact trades days) (ht : ∀ t' ∈ trades, t'.now ≤ t.now) :
    Exact (trades ++ [t]) (entered days t) := by
  have hle := day_le ht h
  cases days with
  | nil =>
    apply h.later
    intro d hd
    cases hd
  | cons d =>
    simp only [ReferencePrice.entered]
    split_ifs with hd
    · exact h.same hd
    · have hlt : d.day < t.day := lt_of_le_of_ne (hle d List.mem_cons_self) hd
      apply h.later
      intro d' hd'
      rcases List.mem_cons.mp hd' with rfl | hd'
      · exact hlt
      · exact ((List.pairwise_cons.mp h.sorted).1 d' hd').trans hlt

theorem InOrder.of_concat (h : InOrder (trades ++ [t])) :
    InOrder trades ∧ ∀ t' ∈ trades, t'.now ≤ t.now := by
  obtain ⟨h1, -, h2⟩ := List.pairwise_append.mp h
  exact ⟨h1, fun t' ht' => h2 t' ht' t List.mem_cons_self⟩

theorem journal_exact (h : InOrder trades) : Exact trades (journal trades) := by
  induction trades using List.reverseRecOn with
  | nil =>
    refine ⟨.nil, ?_, ?_, ?_⟩
    all_goals
      intro x hx
      cases hx
  | append_singleton trades t ih =>
    obtain ⟨h1, h2⟩ := h.of_concat
    rw [journal_concat]
    exact (ih h1).entered h2

end Journal

section Ring

variable {b : ReferencePrice} {t : Trade} {days : List DayData}

theorem read_insert_eq (m : Mapping ℕ DayData) (k : ℕ) (d : DayData) :
    Mapping.read (AList.insert k d m) = Function.update m.read k d := by
  funext j
  rw [Mapping.read_insert, Function.update_apply]

theorem recordTrade_same (h : (b.daily.read b.curSlot).day = t.day) :
    (b.recordTrade t.now t.price t.ticks).curSlot = b.curSlot ∧
      (b.recordTrade t.now t.price t.ticks).daily.read =
        Function.update b.daily.read b.curSlot
          ⟨(b.daily.read b.curSlot).day, (b.daily.read b.curSlot).priceVolSum + t.price * t.ticks,
            (b.daily.read b.curSlot).volSum + t.ticks⟩ := by
  have hc : ¬ (b.daily.read b.curSlot).day ≠ t.now / SECS_PER_DAY := not_not_intro h
  unfold recordTrade
  simp only [if_neg hc]
  exact ⟨trivial, read_insert_eq _ _ _⟩

theorem recordTrade_other {slot : ℕ} (h : (b.daily.read b.curSlot).day ≠ t.day)
    (hslot : slot = if (b.daily.read b.curSlot).day ≠ 0 ∨ (b.daily.read b.curSlot).volSum ≠ 0
      then (b.curSlot + 1) % 8 else b.curSlot) :
    (b.recordTrade t.now t.price t.ticks).curSlot = slot ∧
      (b.recordTrade t.now t.price t.ticks).daily.read =
        Function.update b.daily.read slot ⟨t.day, t.price * t.ticks, t.ticks⟩ := by
  have hc : (b.daily.read b.curSlot).day ≠ t.now / SECS_PER_DAY := h
  unfold recordTrade
  simp only [if_pos hc, ← hslot]
  refine ⟨trivial, ?_⟩
  rw [read_insert_eq, read_insert_eq, Function.update_self, Function.update_idem,
    Nat.zero_add, Nat.zero_add]
  rfl

theorem Exact.unused {trades : List Trade} {d : DayData} (he : Exact trades (d :: days))
    (hday : d.day = 0) (hvol : d.volSum = 0) : d = default ∧ days = [] := by
  have hd := he.exact d List.mem_cons_self
  constructor
  · rw [hd, hday] at hvol
    have hvol' : volOn trades 0 = 0 := hvol
    rw [hd, hday, dayOf, hvol', priceVolOn_eq_zero _ hvol']
    rfl
  · apply List.eq_nil_iff_forall_not_mem.mpr
    intro d' hd'
    have hlt := (List.pairwise_cons.mp he.sorted).1 d' hd'
    omega

/-- The ring shows the newest days of the journal. -/
theorem recordTrade_shown {trades : List Trade} (he : Exact trades days)
    (h : Newest 8 b.daily.read b.curSlot days) :
    Newest 8 (b.recordTrade t.now t.price t.ticks).daily.read
      (b.recordTrade t.now t.price t.ticks).curSlot (entered days t) := by
  by_cases hd : (b.daily.read b.curSlot).day = t.day
  · obtain ⟨hslot, hread⟩ := recordTrade_same hd
    rw [hslot, hread]
    have hset := h.set ⟨(b.daily.read b.curSlot).day,
      (b.daily.read b.curSlot).priceVolSum + t.price * t.ticks,
      (b.daily.read b.curSlot).volSum + t.ticks⟩
    cases days with
    | nil =>
      have hhead : b.daily.read b.curSlot = ⟨0, 0, 0⟩ := h.head
      rw [hhead] at hd hset ⊢
      simp only [Nat.zero_add] at hset ⊢
      rw [entered, ← hd]
      exact hset
    | cons d =>
      have hhead : b.daily.read b.curSlot = d := h.head
      rw [hhead] at hd hset ⊢
      rw [entered, if_pos hd]
      exact hset
  · obtain ⟨hslot, hread⟩ := recordTrade_other hd rfl
    rw [hslot, hread]
    cases days with
    | nil =>
      have hhead : b.daily.read b.curSlot = ⟨0, 0, 0⟩ := h.head
      rw [hhead]
      exact h.set _
    | cons d =>
      have hhead : b.daily.read b.curSlot = d := h.head
      rw [hhead] at hd ⊢
      rw [entered, if_neg hd]
      by_cases hused : d.day ≠ 0 ∨ d.volSum ≠ 0
      · rw [if_pos hused]
        exact h.push _
      · rw [if_neg hused]
        obtain ⟨hday, hvol⟩ := not_or.mp hused
        obtain ⟨rfl, rfl⟩ := he.unused (not_not.mp hday) (not_not.mp hvol)
        exact (h.set _).pad

theorem recordAll_shown {trades : List Trade} (h : InOrder trades) :
    Newest 8 (recordAll trades).daily.read (recordAll trades).curSlot (journal trades) := by
  induction trades using List.reverseRecOn with
  | nil => exact .empty (by omega)
  | append_singleton trades t ih =>
    have h1 := h.of_concat.1
    rw [journal_concat, recordAll_concat]
    exact recordTrade_shown (journal_exact h1) (ih h1)

end Ring

section Week

variable {trades : List Trade} {now : ℕ}

theorem Exact.getElem_le {days : List DayData} (he : Exact trades days)
    (hnow : ∀ t ∈ trades, t.now ≤ now) {k : ℕ} (hk : k < days.length) :
    (days[k]).day + k ≤ now / SECS_PER_DAY := by
  induction k with
  | zero => exact day_le hnow he _ (List.getElem_mem hk)
  | succ k ih =>
    have h1 := ih (Nat.lt_of_succ_lt hk)
    have h2 := List.pairwise_iff_getElem.mp he.sorted k (k + 1) (Nat.lt_of_succ_lt hk) hk
      (Nat.lt_succ_self k)
    omega

/-- A day of the week with volume, as `_weeklyMedian` tells it. -/
def counts (now : ℕ) (d : DayData) : Bool :=
  decide (d.volSum ≠ 0) &&
    !(decide (d.day < if 6 ≤ now / SECS_PER_DAY then now / SECS_PER_DAY - 6 else 0) ||
      decide (now / SECS_PER_DAY < d.day))

theorem counts_iff (d : DayData) : counts now d ↔ d.volSum ≠ 0 ∧ d.day ∈ weekOf now := by
  have hmin : (if 6 ≤ now / SECS_PER_DAY then now / SECS_PER_DAY - 6 else 0) =
      now / SECS_PER_DAY - 6 := by
    split_ifs <;> omega
  rw [counts, hmin, weekOf, Finset.mem_Icc]
  simp only [Bool.and_eq_true, Bool.not_eq_true', Bool.or_eq_false_iff, decide_eq_true_eq,
    decide_eq_false_iff_not, not_lt]

theorem Exact.filter_take {days : List DayData} (he : Exact trades days)
    (hnow : ∀ t ∈ trades, t.now ≤ now) :
    (days.take 8).filter (counts now) = days.filter (counts now) := by
  have hdrop : (days.drop 8).filter (counts now) = [] := by
    rw [List.filter_eq_nil_iff]
    intro d hd hc
    obtain ⟨k, hk, rfl⟩ := List.mem_drop_iff_getElem.mp hd
    have hle := he.getElem_le hnow (k := 8 + k) (by omega)
    have hweek := Finset.mem_Icc.mp ((counts_iff _).mp hc).2
    omega
  conv_rhs => rw [← List.take_append_drop 8 days, List.filter_append, hdrop, List.append_nil]

/-- The week `_weeklyMedian` reads from the ring. -/
theorem week_recordAll (h : InOrder trades) (hnow : ∀ t ∈ trades, t.now ≤ now) :
    ((recordAll trades).week now : Multiset DayData) =
      ((weekOf now).filter fun d => volOn trades d ≠ 0).val.map (dayOf trades) := by
  have he := journal_exact h
  have hperm : ((recordAll trades).week now).Perm ((journal trades).filter (counts now)) := by
    have hring := (recordAll_shown h).filter_perm (p := counts now) rfl
    rw [he.filter_take hnow] at hring
    exact hring
  rw [Multiset.coe_eq_coe.mpr hperm]
  have hnodup : ((journal trades).filter (counts now)).Nodup := by
    apply List.Nodup.filter
    exact he.sorted.imp fun hlt heq => absurd (congrArg DayData.day heq) hlt.ne'
  have hinj : Function.Injective (dayOf trades) := fun a b hab => congrArg DayData.day hab
  apply (Multiset.Nodup.ext (Multiset.coe_nodup.mpr hnodup)
    (Multiset.Nodup.map hinj (Finset.nodup _))).mpr
  intro d
  rw [Multiset.mem_coe, List.mem_filter, counts_iff, Multiset.mem_map]
  constructor
  · rintro ⟨hd, hvol, hweek⟩
    have hexact := he.exact d hd
    refine ⟨d.day, ?_, hexact.symm⟩
    rw [Finset.mem_val, Finset.mem_filter]
    refine ⟨hweek, ?_⟩
    rwa [hexact] at hvol
  · rintro ⟨day, hday, rfl⟩
    obtain ⟨hweek, hvol⟩ := Finset.mem_filter.mp (Finset.mem_val.mp hday)
    refine ⟨?_, hvol, hweek⟩
    obtain ⟨t, ht, htd⟩ : ∃ t ∈ trades, t.day = day := by
      by_contra hno
      apply hvol
      apply volOn_eq_zero
      intro t ht htd
      exact hno ⟨t, ht, htd⟩
    obtain ⟨d, hd, hdd⟩ := he.covers t ht
    have hexact := he.exact d hd
    rw [hdd, htd] at hexact
    rwa [← hexact]

end Week

section Median

open Finset

variable {trades : List Trade} {now : ℕ}

theorem weeklyMedian_eq (b : ReferencePrice) (now : ℕ) : b.weeklyMedian now =
    if ((b.week now : Multiset DayData).map DayData.volSum).sum < MIN_LIQUIDITY then none
    else some (median ((b.week now : Multiset DayData).map fun d => d.priceVolSum / d.volSum)) := by
  have hsorted : exchangeSort (b.week now).length
      ((b.week now).map fun d => d.priceVolSum / d.volSum) =
      ((b.week now : Multiset DayData).map fun d => d.priceVolSum / d.volSum).sort := by
    have h := exchangeSort_eq ((b.week now).map fun d => d.priceVolSum / d.volSum)
    rwa [List.length_map] at h
  have hlength : (exchangeSort (b.week now).length
      ((b.week now).map fun d => d.priceVolSum / d.volSum)).length = (b.week now).length := by
    rw [hsorted, Multiset.length_sort, Multiset.card_map, Multiset.coe_card]
  unfold weeklyMedian
  simp only [guard]
  rw [Multiset.map_coe (f := DayData.volSum), Multiset.sum_coe]
  by_cases hlt : ((b.week now).map DayData.volSum).sum < MIN_LIQUIDITY
  · rw [if_pos hlt, if_neg (not_le.mpr hlt)]
    rfl
  · rw [if_neg hlt, if_pos (not_lt.mp hlt)]
    simp only [median, ← hsorted, hlength]
    rfl

/-- `_weeklyMedian` after any calls of `_recordTrade`: it reads the days of the last week that had
volume with their exact totals, answers the median of their VWAPs, and fails exactly if they
have too little volume. -/
theorem weeklyMedian_recordAll (h : InOrder trades) (hnow : ∀ t ∈ trades, t.now ≤ now) :
    ((recordAll trades).week now : Multiset DayData) =
      ((weekOf now).filter fun d => volOn trades d ≠ 0).val.map (dayOf trades) ∧
    ((recordAll trades).weeklyMedian now = none ↔
      ∑ d ∈ weekOf now, volOn trades d < MIN_LIQUIDITY) ∧
    ∀ price, (recordAll trades).weeklyMedian now = some price →
      price = median (((weekOf now).filter fun d => volOn trades d ≠ 0).val.map fun d =>
        priceVolOn trades d / volOn trades d) := by
  have hweek := week_recordAll h hnow
  have hsum : (((recordAll trades).week now : Multiset DayData).map DayData.volSum).sum =
      ∑ d ∈ weekOf now, volOn trades d := by
    rw [hweek, Multiset.map_map]
    exact sum_filter_ne_zero (weekOf now)
  refine ⟨hweek, ?_, ?_⟩
  · rw [weeklyMedian_eq, hsum]
    split_ifs with hlt
    · simp [hlt]
    · simp [hlt]
  · intro price hprice
    rw [weeklyMedian_eq] at hprice
    split_ifs at hprice
    rw [hweek, Multiset.map_map] at hprice
    exact (Option.some.inj hprice).symm

/-- Two days with a gap between them, the older one just out of the week: there is a price. -/
theorem weeklyMedian_recordAll_gap :
    let trades : List Trade := [⟨100 * 86400, 5, 2⟩, ⟨100 * 86400 + 50, 8, 1⟩, ⟨107 * 86400, 9, 4⟩]
    let now := 107 * 86400 + 10
    ∃ price, (recordAll trades).weeklyMedian now = some price ∧
      price = median (((weekOf now).filter fun d => volOn trades d ≠ 0).val.map
        fun d => priceVolOn trades d / volOn trades d) := by
  intro trades now
  have horder : InOrder trades := by
    rw [InOrder]
    decide
  have hnow : ∀ t ∈ trades, t.now ≤ now := by decide
  obtain ⟨-, hnone, hprice⟩ := weeklyMedian_recordAll horder hnow
  have hliquid : ¬ ∑ d ∈ weekOf now, volOn trades d < MIN_LIQUIDITY := by decide +kernel
  obtain ⟨price, h⟩ := Option.ne_none_iff_exists'.mp (mt hnone.mp hliquid)
  exact ⟨price, h, hprice price h⟩

end Median

end ReferencePrice

end Dexdo
