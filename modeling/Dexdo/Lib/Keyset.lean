import Mathlib.Data.List.Sort
import Mathlib.Tactic

namespace Dexdo.Keyset

variable {ρ κ χ ε β ι σ : Type}

/-- No two rows have one key. -/
def Distinct (key : ρ → κ) (rows : List ρ) : Prop := (rows.map key).Nodup

instance [DecidableEq κ] (key : ρ → κ) (rows : List ρ) : Decidable (Distinct key rows) :=
  inferInstanceAs (Decidable (rows.map key).Nodup)

/-- `order by key`. -/
def orderBy [LinearOrder κ] (key : ρ → κ) (rows : List ρ) : List ρ :=
  rows.insertionSort fun a b => key a ≤ key b

/-- `order by key desc`. -/
def orderByDesc [LinearOrder κ] (key : ρ → κ) (rows : List ρ) : List ρ :=
  rows.insertionSort fun a b => key b ≤ key a

/-- Whether a row lies past the cursor of an ascending listing. -/
def past [LinearOrder κ] (key : ρ → κ) (cursor : Option κ) (row : ρ) : Bool :=
  cursor.all fun k => decide (k < key row)

/-- Whether a row lies past the cursor of a descending listing. -/
def pastDesc [LinearOrder κ] (key : ρ → κ) (cursor : Option κ) (row : ρ) : Bool :=
  cursor.all fun k => decide (key row < k)

/-- What a page is cut from: one row more than it may hold shows that there are more. -/
def cut (limit : ℕ) (tok : ρ → χ) (rows : List ρ) : List ρ × Option χ :=
  if limit < rows.length then (rows.take limit, (rows.take limit).getLast?.map tok)
  else (rows, none)

structure Page (β χ : Type) where
  items : List β
  next : Option χ

/-- How following the cursors ended. -/
inductive Ending (ε : Type)
  | done
  | failed (e : ε)
  | unfinished

/-- Following the cursors of the answers, with the number of the request and a bound on it. -/
def walk (fetch : ℕ → Option χ → Except ε (Page β χ)) :
    ℕ → ℕ → Option χ → List (List β) × Ending ε
  | 0, _, _ => ([], .unfinished)
  | fuel + 1, i, cursor =>
    match fetch i cursor with
    | .error e => ([], .failed e)
    | .ok page =>
      match page.next with
      | none => ([page.items], .done)
      | some c =>
        let rest := walk fetch fuel (i + 1) (some c)
        (page.items :: rest.1, rest.2)

/-- Rows rendered share by share, up to the first share that fails. -/
def serve (render : ℕ → List ρ → Except ε (List β)) : ℕ → List (List ρ) → List (List β) × Ending ε
  | _, [] => ([], .done)
  | i, share :: shares =>
    match render i share with
    | .error e => ([], .failed e)
    | .ok items =>
      let rest := serve render (i + 1) shares
      (items :: rest.1, rest.2)

/-- Rows folded into the entry of their key, an absent entry standing for `init`. -/
def groupM [DecidableEq ι] (key : ρ → ι) (init : σ) (f : σ → ρ → Except ε σ) (m : ι → Option σ) :
    List ρ → Except ε (ι → Option σ)
  | [] => .ok m
  | row :: rows => do
    let entry ← f ((m (key row)).getD init) row
    groupM key init f (Function.update m (key row) (some entry)) rows

/-- `where key = any(ids) order by sort`, folded by key. -/
def selectGroups [DecidableEq ι] [LinearOrder κ] (sort : ρ → κ) (key : ρ → ι) (init : σ)
    (f : σ → ρ → Except ε σ) (rows : List ρ) (ids : List ι) : Except ε (ι → Option σ) :=
  groupM key init f (fun _ => none) (orderBy sort (rows.filter fun r => key r ∈ ids))

theorem filter_pick [DecidableEq ι] {key : ρ → ι} {k : ι} {row : ρ} (h : key row = k)
    (rows : List ρ) : ((row :: rows).filter fun r => key r = k) =
      row :: rows.filter fun r => key r = k :=
  List.filter_cons_of_pos (decide_eq_true h)

theorem filter_skip [DecidableEq ι] {key : ρ → ι} {k : ι} {row : ρ} (h : key row ≠ k)
    (rows : List ρ) : ((row :: rows).filter fun r => key r = k) = rows.filter fun r => key r = k :=
  List.filter_cons_of_neg fun hd => h (of_decide_eq_true hd)

section Order

variable [LinearOrder κ] {key : ρ → κ} {rows : List ρ}

theorem orderBy_perm (key : ρ → κ) (rows : List ρ) : (orderBy key rows).Perm rows :=
  List.perm_insertionSort _ rows

theorem orderBy_le (key : ρ → κ) (rows : List ρ) :
    (orderBy key rows).Pairwise fun a b => key a ≤ key b :=
  List.pairwise_insertionSort _ rows

theorem orderBy_lt (h : Distinct key rows) :
    (orderBy key rows).Pairwise fun a b => key a < key b := by
  have hsorted : Distinct key (orderBy key rows) := ((orderBy_perm key rows).map key).nodup_iff.mpr h
  have hne : (orderBy key rows).Pairwise fun a b => key a ≠ key b := List.pairwise_map.mp hsorted
  exact hne.imp₂ (fun _ _ hn hle => lt_of_le_of_ne hle hn) (orderBy_le key rows)

/-- A row put in its place and then the rows picked, or the other way round. -/
theorem orderedInsert_filter (p : ρ → Bool) (a : ρ) {l : List ρ}
    (h : l.Pairwise fun a b => key a ≤ key b) :
    (l.orderedInsert (fun a b => key a ≤ key b) a).filter p =
      if p a then (l.filter p).orderedInsert (fun a b => key a ≤ key b) a else l.filter p := by
  induction l with
  | nil =>
    by_cases hp : p a = true <;> simp [hp]
  | cons b l ih =>
    obtain ⟨hb, hl⟩ := List.pairwise_cons.mp h
    by_cases hab : key a ≤ key b
    · rw [List.orderedInsert_cons, if_pos hab]
      by_cases hp : p a = true
      · have hfirst : ∀ c ∈ (b :: l).filter p, key a ≤ key c := by
          intro c hc
          rcases List.mem_cons.mp (List.mem_of_mem_filter hc) with rfl | hc
          · exact hab
          · exact hab.trans (hb c hc)
        rw [if_pos hp, List.filter_cons_of_pos hp]
        cases hf : (b :: l).filter p with
        | nil => rfl
        | cons c =>
          rw [List.orderedInsert_cons, if_pos (hfirst c (hf ▸ List.mem_cons_self))]
      · rw [if_neg hp, List.filter_cons_of_neg hp]
    · rw [List.orderedInsert_cons, if_neg hab]
      by_cases hpb : p b = true
      · rw [List.filter_cons_of_pos hpb, List.filter_cons_of_pos hpb, ih hl]
        split
        · rw [List.orderedInsert_cons, if_neg hab]
        · rfl
      · rw [List.filter_cons_of_neg hpb, List.filter_cons_of_neg hpb, ih hl]

/-- Sorting and picking rows can be done in either order. -/
theorem orderBy_filter (key : ρ → κ) (rows : List ρ) (p : ρ → Bool) :
    orderBy key (rows.filter p) = (orderBy key rows).filter p := by
  induction rows with
  | nil => rfl
  | cons a rows ih =>
    have hstep : (orderBy key (a :: rows)).filter p =
        if p a then (orderBy key (rows.filter p)).orderedInsert (fun a b => key a ≤ key b) a
        else orderBy key (rows.filter p) := by
      rw [ih]
      exact orderedInsert_filter p a (orderBy_le key rows)
    rw [hstep]
    by_cases hp : p a = true
    · rw [if_pos hp, List.filter_cons_of_pos hp]
      rfl
    · rw [if_neg hp, List.filter_cons_of_neg hp]

/-- Sorting leaves the rows of one key in their order. -/
theorem orderBy_filter_key (key : ρ → κ) (rows : List ρ) (k : κ) :
    (orderBy key rows).filter (fun r => key r = k) = rows.filter fun r => key r = k := by
  rw [← orderBy_filter]
  refine List.Pairwise.insertionSort_eq ((List.pairwise_of_forall_mem_list fun a ha b hb => ?_))
  have hka := of_decide_eq_true (List.mem_filter.mp ha).2
  have hkb := of_decide_eq_true (List.mem_filter.mp hb).2
  exact le_of_eq (hka.trans hkb.symm)

/-- Sorted lists with the same rows for each key are the same. -/
theorem eq_of_filter_key : ∀ {l l' : List ρ}, (l.Pairwise fun a b => key a ≤ key b) →
    (l'.Pairwise fun a b => key a ≤ key b) →
    (∀ k, (l.filter fun r => key r = k) = l'.filter fun r => key r = k) → l = l'
  | [], [], _, _, _ => rfl
  | [], b :: l', _, _, h => by
    have hb := h (key b)
    rw [filter_pick rfl] at hb
    cases hb
  | a :: l, [], _, _, h => by
    have ha := h (key a)
    rw [filter_pick rfl] at ha
    cases ha
  | a :: l, b :: l', hs, hs', h => by
    obtain ⟨hfirst, htail⟩ := List.pairwise_cons.mp hs
    obtain ⟨hfirst', htail'⟩ := List.pairwise_cons.mp hs'
    have hab : key a = key b := by
      refine le_antisymm ?_ ?_
      · have hb : b ∈ (a :: l).filter fun r => key r = key b := by
          rw [h (key b)]
          exact List.mem_filter.mpr ⟨List.mem_cons_self, decide_eq_true rfl⟩
        rcases List.mem_cons.mp (List.mem_of_mem_filter hb) with he | hb
        · exact le_of_eq (congrArg key he.symm)
        · exact hfirst b hb
      · have ha : a ∈ (b :: l').filter fun r => key r = key a := by
          rw [← h (key a)]
          exact List.mem_filter.mpr ⟨List.mem_cons_self, decide_eq_true rfl⟩
        rcases List.mem_cons.mp (List.mem_of_mem_filter ha) with he | ha
        · exact le_of_eq (congrArg key he.symm)
        · exact hfirst' a ha
    have hhead := h (key a)
    rw [filter_pick rfl, filter_pick hab.symm] at hhead
    obtain ⟨rfl, -⟩ := List.cons.inj hhead
    refine congrArg (a :: ·) (eq_of_filter_key htail htail' fun k => ?_)
    have hk := h k
    by_cases hak : key a = k
    · rw [filter_pick hak, filter_pick hak] at hk
      exact (List.cons.inj hk).2
    · rw [filter_skip hak, filter_skip hak] at hk
      exact hk

/-- Two lists sort alike exactly if they hold the same rows for each key, in the same order. -/
theorem orderBy_eq_iff {rows rows' : List ρ} : orderBy key rows = orderBy key rows' ↔
    ∀ k, (rows.filter fun r => key r = k) = rows'.filter fun r => key r = k := by
  constructor
  · intro h k
    rw [← orderBy_filter_key, h, orderBy_filter_key]
  · intro h
    refine eq_of_filter_key (orderBy_le key rows) (orderBy_le key rows') fun k => ?_
    rw [orderBy_filter_key, orderBy_filter_key]
    exact h k

/-- A descending listing is an ascending one of the dual order. -/
theorem orderByDesc_eq (key : ρ → κ) (rows : List ρ) :
    orderByDesc key rows = orderBy (fun r => OrderDual.toDual (key r)) rows := rfl

theorem pastDesc_eq (key : ρ → κ) (cursor : Option κ) (row : ρ) :
    pastDesc key cursor row =
      past (fun r => OrderDual.toDual (key r)) (cursor.map OrderDual.toDual) row := by
  cases cursor <;> rfl

/-- Past the last of the rows taken lie exactly the rows left. -/
theorem filter_past {taken rest : List ρ}
    (h : (taken ++ rest).Pairwise fun a b => key a < key b) :
    (taken ++ rest).filter (past key (taken.getLast?.map key)) = rest := by
  obtain ⟨htaken, -, hcross⟩ := List.pairwise_append.mp h
  cases hl : taken.getLast? with
  | none =>
    rw [List.getLast?_eq_none_iff.mp hl]
    exact List.filter_eq_self.mpr fun _ _ => rfl
  | some last =>
    obtain ⟨front, rfl⟩ := List.getLast?_eq_some_iff.mp hl
    rw [List.filter_append]
    have hleft : (front ++ [last]).filter (past key (some (key last))) = [] := by
      refine List.filter_eq_nil_iff.mpr fun a ha => ?_
      have hle : key a ≤ key last := by
        rcases List.mem_append.mp ha with ha | ha
        · exact ((List.pairwise_append.mp htaken).2.2 a ha last (List.mem_singleton_self _)).le
        · exact le_of_eq (congrArg key (List.mem_singleton.mp ha))
      simp only [past, Option.all_some, decide_eq_true_eq, not_lt]
      exact hle
    have hright : rest.filter (past key (some (key last))) = rest := by
      refine List.filter_eq_self.mpr fun a ha => ?_
      simp only [past, Option.all_some, decide_eq_true_eq]
      exact hcross last (List.mem_append_right _ (List.mem_singleton_self _)) a ha
    rw [Option.map_some, hleft, hright, List.nil_append]

/-- The rows a page query finds after `taken` are the rows left. -/
theorem orderBy_past {taken rest : List ρ} (h : Distinct key rows)
    (hsplit : orderBy key rows = taken ++ rest) :
    orderBy key (rows.filter (past key (taken.getLast?.map key))) = rest := by
  rw [orderBy_filter, hsplit]
  exact filter_past (hsplit ▸ orderBy_lt h)

theorem orderByDesc_perm (key : ρ → κ) (rows : List ρ) : (orderByDesc key rows).Perm rows :=
  List.perm_insertionSort _ rows

theorem orderByDesc_le (key : ρ → κ) (rows : List ρ) :
    (orderByDesc key rows).Pairwise fun a b => key b ≤ key a := by
  rw [orderByDesc_eq]
  exact orderBy_le (fun r => OrderDual.toDual (key r)) rows

/-- A descending sort leaves rows of one key in their order. -/
theorem orderByDesc_stable {R : ρ → ρ → Prop} (h : rows.Pairwise R) :
    (orderByDesc key rows).Pairwise fun a b => key b < key a ∨ key b = key a ∧ R a b := by
  have hinsert {a : ρ} {l : List ρ} (ha : ∀ b ∈ l, R a b)
      (hl : l.Pairwise fun a b => key b < key a ∨ key b = key a ∧ R a b) :
      (l.orderedInsert (fun a b => key b ≤ key a) a).Pairwise
        fun a b => key b < key a ∨ key b = key a ∧ R a b := by
    induction l with
    | nil => exact List.pairwise_singleton _ _
    | cons b l ih =>
      obtain ⟨hb, htail⟩ := List.pairwise_cons.mp hl
      by_cases hba : key b ≤ key a
      · rw [List.orderedInsert_cons, if_pos hba]
        refine List.pairwise_cons.mpr ⟨fun c hc => ?_, hl⟩
        have hca : key c ≤ key a := by
          rcases List.mem_cons.mp hc with rfl | hc'
          · exact hba
          · exact (((hb c hc').imp le_of_lt fun h => h.1.le).elim id id).trans hba
        exact hca.lt_or_eq.imp id fun he => ⟨he, ha c hc⟩
      · rw [List.orderedInsert_cons, if_neg hba]
        refine List.pairwise_cons.mpr ⟨fun c hc => ?_, ih (fun c hc => ha c (.tail _ hc)) htail⟩
        rcases (List.mem_orderedInsert _).mp hc with rfl | hc
        · exact .inl (not_le.mp hba)
        · exact hb c hc
  unfold orderByDesc
  induction rows with
  | nil => exact .nil
  | cons a rows ih =>
    obtain ⟨ha, htail⟩ := List.pairwise_cons.mp h
    exact hinsert (fun b hb => ha b ((List.perm_insertionSort _ rows).mem_iff.mp hb)) (ih htail)

theorem orderByDesc_lt (h : Distinct key rows) :
    (orderByDesc key rows).Pairwise fun a b => key b < key a := by
  rw [orderByDesc_eq]
  have hdual : Distinct (fun r => OrderDual.toDual (key r)) rows := h
  exact orderBy_lt hdual

theorem orderByDesc_past {taken rest : List ρ} (h : Distinct key rows)
    (hsplit : orderByDesc key rows = taken ++ rest) :
    orderByDesc key (rows.filter (pastDesc key (taken.getLast?.map key))) = rest := by
  have hfilter : rows.filter (pastDesc key (taken.getLast?.map key)) =
      rows.filter (past (fun r => OrderDual.toDual (key r))
        (taken.getLast?.map fun r => OrderDual.toDual (key r))) := by
    refine List.filter_congr fun r _ => ?_
    rw [pastDesc_eq, Option.map_map]
    rfl
  rw [hfilter]
  have hdual : Distinct (fun r => OrderDual.toDual (key r)) rows := h
  exact orderBy_past hdual hsplit

end Order

section Rank

/-- In a ranked list the first `n` are those with fewer than `n` ahead. -/
theorem mem_take_iff {R : ρ → ρ → Prop} [DecidableRel R] (hR : ∀ a b, R a b → ¬ R b a)
    {l : List ρ} (h : l.Pairwise R) {n : ℕ} {x : ρ} :
    x ∈ l.take n ↔ x ∈ l ∧ l.countP (fun y => R y x) < n := by
  by_cases hx : x ∈ l
  swap
  · exact iff_of_false (fun ht => hx (List.mem_of_mem_take ht)) fun ht => hx ht.1
  obtain ⟨front, back, rfl⟩ := List.append_of_mem hx
  obtain ⟨-, hback, hcross⟩ := List.pairwise_append.mp h
  have hfront : ∀ y ∈ front, R y x := fun y hy => hcross y hy x List.mem_cons_self
  have hcount : (front ++ x :: back).countP (fun y => R y x) = front.length := by
    have hself : ¬ R x x := fun hxx => hR x x hxx hxx
    have hlate : back.countP (fun y => R y x) = 0 := List.countP_eq_zero.mpr fun y hy hyx =>
      hR x y ((List.pairwise_cons.mp hback).1 y hy) (of_decide_eq_true hyx)
    rw [List.countP_append, List.countP_cons_of_neg (by simpa using hself), hlate,
      List.countP_eq_length.mpr fun y hy => decide_eq_true (hfront y hy), Nat.add_zero]
  rw [hcount, and_iff_right hx]
  constructor
  · intro ht
    by_contra hn
    rw [List.take_append_of_le_length (not_lt.mp hn)] at ht
    have hxx := hfront x (List.mem_of_mem_take ht)
    exact hR x x hxx hxx
  · intro hn
    rw [List.take_append, List.take_of_length_le hn.le]
    obtain ⟨k, hk⟩ := Nat.exists_eq_add_of_lt hn
    rw [show n - front.length = k + 1 by omega, List.take_succ_cons]
    exact List.mem_append_right _ List.mem_cons_self

/-- Pages make up a list without repetitions if each of its rows is on one page only. -/
theorem flatten_perm_iff {rows : List ρ} {pages : List ι} {f : ι → List ρ} (hrows : rows.Nodup)
    (hpage : ∀ i ∈ pages, (f i).Nodup) (hin : ∀ i ∈ pages, ∀ x ∈ f i, x ∈ rows) :
    (pages.map f).flatten.Perm rows ↔
      (∀ x ∈ rows, ∃ i ∈ pages, x ∈ f i) ∧ pages.Pairwise fun i j => ∀ x ∈ f i, x ∉ f j := by
  have hmem (x : ρ) : x ∈ (pages.map f).flatten ↔ ∃ i ∈ pages, x ∈ f i := by simp
  have hnodup : (pages.map f).flatten.Nodup ↔
      pages.Pairwise fun i j => ∀ x ∈ f i, x ∉ f j := by
    rw [List.nodup_flatten, List.pairwise_map]
    exact and_iff_right (List.forall_mem_map.mpr hpage)
  rw [← hnodup]
  constructor
  · exact fun hperm => ⟨fun x hx => (hmem x).mp (hperm.mem_iff.mpr hx), hperm.nodup_iff.mpr hrows⟩
  · rintro ⟨hall, hn⟩
    refine (List.perm_ext_iff_of_nodup hn hrows).mpr fun x => (hmem x).trans ⟨?_, hall x⟩
    rintro ⟨i, hi, hx⟩
    exact hin i hi x hx

end Rank

section Walk

variable {fetch : ℕ → Option χ → Except ε (Page β χ)} {tok : ρ → χ} {limit : ℕ}
  {render : ℕ → List ρ → Except ε (List β)} {rows : List ρ}

/-- The answer to the request for the rows after `taken`: the next `limit` of them, and a cursor
when more are left. -/
def Serves (fetch : ℕ → Option χ → Except ε (Page β χ)) (tok : ρ → χ) (limit : ℕ)
    (render : ℕ → List ρ → Except ε (List β)) (rows : List ρ) : Prop :=
  ∀ i taken rest, rows = taken ++ rest →
    fetch i (taken.getLast?.map tok) =
      (render i (cut limit tok rest).1).map fun items => ⟨items, (cut limit tok rest).2⟩

/-- One row more than a page may hold is all a query has to find. -/
theorem cut_take (limit : ℕ) (tok : ρ → χ) (rest : List ρ) :
    cut limit tok (rest.take (limit + 1)) = cut limit tok rest := by
  have htake : (rest.take (limit + 1)).take limit = rest.take limit := by
    rw [List.take_take, Nat.min_eq_left (Nat.le_succ limit)]
  rw [cut, cut, htake, List.length_take]
  by_cases h : limit < rest.length
  · rw [if_pos h, if_pos (by omega)]
  · rw [if_neg h, if_neg (by omega), List.take_of_length_le (by omega)]

theorem cut_of_le {rest : List ρ} (h : rest.length ≤ limit) : cut limit tok rest = (rest, none) :=
  if_neg (not_lt.mpr h)

/-- A page that does not hold all rows left names the last row it holds. -/
theorem cut_of_lt (tok : ρ → χ) {rest : List ρ} (hpos : 0 < limit) (h : limit < rest.length) :
    ∃ last, (rest.take limit).getLast? = some last ∧
      cut limit tok rest = (rest.take limit, some (tok last)) := by
  have hne : rest.take limit ≠ [] := by
    intro hnil
    have hlen := congrArg List.length hnil
    rw [List.length_take, List.length_nil] at hlen
    omega
  obtain ⟨last, hlast⟩ := Option.ne_none_iff_exists'.mp
    (fun hn => hne (List.getLast?_eq_none_iff.mp hn))
  refine ⟨last, hlast, ?_⟩
  rw [cut, if_pos h, hlast]
  rfl

/-- Only where no row is left a page is empty. -/
theorem cut_eq_nil {rest : List ρ} (hpos : 0 < limit) (h : (cut limit tok rest).1 = []) :
    rest = [] := by
  by_cases hlt : limit < rest.length
  · obtain ⟨last, hlast, hcut⟩ := cut_of_lt tok hpos hlt
    have htake : rest.take limit = [] := by
      rw [hcut] at h
      exact h
    rw [htake] at hlast
    cases hlast
  · rw [cut_of_le (not_lt.mp hlt)] at h
    exact h

/-- The rows left are served share by share. -/
theorem Serves.walk_rest (h : Serves fetch tok limit render rows) (hpos : 0 < limit) (fuel : ℕ) :
    ∀ {i : ℕ} {taken rest : List ρ}, rows = taken ++ rest → rest.length ≤ limit * fuel →
      ∃ shares : List (List ρ), shares.flatten = rest ∧ (∀ s ∈ shares, s.length ≤ limit) ∧
        shares.length ≤ fuel + 1 ∧
        walk fetch (fuel + 1) i (taken.getLast?.map tok) = serve render i shares := by
  have hlastPage {fuel i : ℕ} {taken rest : List ρ} (hrows : rows = taken ++ rest)
      (hle : rest.length ≤ limit) :
      walk fetch (fuel + 1) i (taken.getLast?.map tok) = serve render i [rest] := by
    have hpage := h i taken rest hrows
    rw [cut_of_le hle] at hpage
    rw [walk, hpage, serve]
    cases render i rest with
    | error => rfl
    | ok => rfl
  induction fuel with
  | zero =>
    intro i taken rest hrows hfuel
    have hle : rest.length ≤ limit := hfuel.trans (Nat.zero_le _)
    refine ⟨[rest], by simp, ?_, le_rfl, hlastPage hrows hle⟩
    intro s hs
    exact List.mem_singleton.mp hs ▸ hle
  | succ fuel ih =>
    intro i taken rest hrows hfuel
    by_cases hle : rest.length ≤ limit
    · refine ⟨[rest], by simp, ?_, by simp, hlastPage hrows hle⟩
      intro s hs
      exact List.mem_singleton.mp hs ▸ hle
    · obtain ⟨last, hlast, hcut⟩ := cut_of_lt tok hpos (not_le.mp hle)
      have hrows' : rows = (taken ++ rest.take limit) ++ rest.drop limit := by
        rw [List.append_assoc, List.take_append_drop]
        exact hrows
      have hlen : (rest.drop limit).length ≤ limit * fuel := by
        rw [List.length_drop]
        rw [Nat.mul_succ] at hfuel
        omega
      obtain ⟨shares, hflat, hshort, hcount, hwalk⟩ := ih (i := i + 1) hrows' hlen
      have hcursor : (taken ++ rest.take limit).getLast?.map tok = some (tok last) := by
        rw [List.getLast?_append, hlast]
        rfl
      refine ⟨rest.take limit :: shares, ?_, ?_, ?_, ?_⟩
      · rw [List.flatten_cons, hflat, List.take_append_drop]
      · intro s hs
        rcases List.mem_cons.mp hs with rfl | hs
        · exact List.length_take_le limit rest
        · exact hshort s hs
      · rw [List.length_cons]
        omega
      · have hpage := h i taken rest hrows
        rw [hcut] at hpage
        rw [walk, hpage, serve]
        cases render i (rest.take limit) with
        | error => rfl
        | ok =>
          rw [hcursor] at hwalk
          simp only [Except.map, hwalk]

/-- Requests a walk over `n` rows may take. -/
def requests (n limit : ℕ) : ℕ := (n + limit - 1) / limit + 1

/-- The walk serves every row in one share, in order and within the requests. -/
def Visits (fetch : ℕ → Option χ → Except ε (Page β χ)) (limit : ℕ)
    (render : ℕ → List ρ → Except ε (List β)) (rows : List ρ) : Prop :=
  ∃ shares : List (List ρ), shares.flatten = rows ∧ (∀ s ∈ shares, s.length ≤ limit) ∧
    shares.length ≤ requests rows.length limit ∧
    walk fetch (requests rows.length limit) 0 none = serve render 0 shares

/-- The walk serves every row, and ends. -/
def VisitsAll (fetch : ℕ → Option χ → Except ε (Page β χ)) (limit : ℕ)
    (show_ : ℕ → List ρ → List β) (rows : List ρ) : Prop :=
  ∃ shares : List (List ρ), shares.flatten = rows ∧ (∀ s ∈ shares, s.length ≤ limit) ∧
    shares.length ≤ requests rows.length limit ∧
    walk fetch (requests rows.length limit) 0 none = (shares.mapIdx show_, .done)

theorem Serves.visits (h : Serves fetch tok limit render rows) (hpos : 0 < limit) :
    Visits fetch limit render rows := by
  have hlen : rows.length ≤ limit * ((rows.length + limit - 1) / limit) := by
    have hdiv := Nat.div_add_mod (rows.length + limit - 1) limit
    have hmod := Nat.mod_lt (rows.length + limit - 1) hpos
    omega
  exact h.walk_rest hpos _ (List.nil_append rows).symm hlen

/-- Nothing fails where every share of the rows can be rendered. -/
theorem serve_done {g : ℕ → List ρ → List β} {shares : List (List ρ)} :
    ∀ {i : ℕ}, (∀ j, ∀ s ∈ shares, render j s = .ok (g j s)) →
      serve render i shares = (shares.mapIdx fun j s => g (i + j) s, .done) := by
  induction shares with
  | nil => exact fun _ => rfl
  | cons s shares ih =>
    intro i hg
    have hrest := ih (i := i + 1) fun j s' hs' => hg j s' (List.mem_cons_of_mem _ hs')
    rw [serve, hg i s List.mem_cons_self, hrest, List.mapIdx_cons]
    simp only [Nat.add_zero, Nat.add_assoc, Nat.add_comm 1]

/-- A walk over rows that can all be rendered serves them all. -/
theorem Visits.all {show_ : ℕ → List ρ → List β} (h : Visits fetch limit render rows)
    (hshow : ∀ j, ∀ s : List ρ, (∀ r ∈ s, r ∈ rows) → render j s = .ok (show_ j s)) :
    VisitsAll fetch limit show_ rows := by
  obtain ⟨shares, hflat, hshort, hcount, hwalk⟩ := h
  refine ⟨shares, hflat, hshort, hcount, ?_⟩
  have hshares : ∀ j, ∀ s ∈ shares, render j s = .ok (show_ j s) := fun j s hs =>
    hshow j s fun r hr => hflat ▸ List.mem_flatten_of_mem hs hr
  have hserve := serve_done (i := 0) hshares
  rw [hwalk, hserve]
  simp only [Nat.zero_add]

end Walk

section Groups

variable [DecidableEq ι] {key : ρ → ι} {init : σ} {f : σ → ρ → Except ε σ} {rows : List ρ}

/-- The entry of a key is the fold of its own rows. -/
theorem groupM_entry : ∀ {rows : List ρ} {m m' : ι → Option σ},
    groupM key init f m rows = .ok m' → ∀ k,
      (rows.filter fun r => key r = k).foldlM f ((m k).getD init) = .ok ((m' k).getD init)
  | [], m, m', h, k => by
    cases h
    rfl
  | row :: rows, m, m', h, k => by
    rw [groupM] at h
    cases he : f ((m (key row)).getD init) row with
    | error =>
      rw [he] at h
      cases h
    | ok =>
      rw [he] at h
      have hrest := groupM_entry h k
      by_cases hk : key row = k
      · subst hk
        rw [Function.update_self] at hrest
        rw [filter_pick rfl, List.foldlM_cons, he]
        exact hrest
      · rw [Function.update_of_ne (Ne.symm hk)] at hrest
        rw [filter_skip hk]
        exact hrest

/-- Rows whose own folds all go through can be folded together. -/
theorem groupM_ok : ∀ (rows : List ρ) (m : ι → Option σ),
    (∀ k, ∃ s, (rows.filter fun r => key r = k).foldlM f ((m k).getD init) = .ok s) →
      ∃ m', groupM key init f m rows = .ok m'
  | [], m, _ => ⟨m, rfl⟩
  | row :: rows, m, h => by
    obtain ⟨s, hs⟩ := h (key row)
    rw [filter_pick rfl, List.foldlM_cons] at hs
    cases he : f ((m (key row)).getD init) row with
    | error =>
      rw [he] at hs
      cases hs
    | ok entry =>
      rw [he] at hs
      obtain ⟨m', hm⟩ := groupM_ok rows (Function.update m (key row) (some entry)) fun k => by
          by_cases hk : key row = k
          · subst hk
            rw [Function.update_self]
            exact ⟨s, hs⟩
          · rw [Function.update_of_ne (Ne.symm hk)]
            obtain ⟨s', hs'⟩ := h k
            rw [filter_skip hk] at hs'
            exact ⟨s', hs'⟩
      refine ⟨m', ?_⟩
      rw [groupM, he]
      exact hm

variable [LinearOrder κ] {sort : ρ → κ} {ids : List ι}

/-- The rows of one key among those selected. -/
theorem select_filter {id : ι} (h : id ∈ ids) :
    (orderBy sort (rows.filter fun r => key r ∈ ids)).filter (fun r => key r = id) =
      orderBy sort (rows.filter fun r => key r = id) := by
  rw [← orderBy_filter, List.filter_filter]
  refine congrArg (orderBy sort) (List.filter_congr fun r _ => ?_)
  by_cases hr : key r = id
  · subst hr
    simp [h]
  · simp [hr]

/-- Groups that can be selected one by one can be selected together, with the same entries. -/
theorem selectGroups_of_single (sort : ρ → κ) (key : ρ → ι) (init : σ) (f : σ → ρ → Except ε σ)
    (rows : List ρ) (h : ∀ id ∈ ids, ∃ m, selectGroups sort key init f rows [id] = .ok m) :
    ∃ m', selectGroups sort key init f rows ids = .ok m' ∧ ∀ id ∈ ids, ∀ m,
      selectGroups sort key init f rows [id] = .ok m → (m' id).getD init = (m id).getD init := by
  have hfold (id : ι) (m : ι → Option σ) (hm : selectGroups sort key init f rows [id] = .ok m) :
      (orderBy sort (rows.filter fun r => key r = id)).foldlM f init =
        .ok ((m id).getD init) := by
    have hentry := groupM_entry hm id
    rw [select_filter (List.mem_singleton_self id)] at hentry
    exact hentry
  have hgroups : ∃ m', selectGroups sort key init f rows ids = .ok m' := by
    refine groupM_ok _ (fun _ => none) fun k => ?_
    by_cases hk : k ∈ ids
    · obtain ⟨m, hm⟩ := h k hk
      rw [select_filter hk]
      exact ⟨_, hfold k m hm⟩
    · refine ⟨init, ?_⟩
      have hnil : (orderBy sort (rows.filter fun r => key r ∈ ids)).filter
          (fun r => key r = k) = [] := by
        refine List.filter_eq_nil_iff.mpr fun r hr => ?_
        have hin := List.of_mem_filter ((orderBy_perm sort _).mem_iff.mp hr)
        rw [decide_eq_true_eq] at hin ⊢
        exact fun he => hk (he ▸ hin)
      rw [hnil]
      rfl
  obtain ⟨m', hm'⟩ := hgroups
  refine ⟨m', hm', fun id hid m hm => ?_⟩
  have hentry := groupM_entry hm' id
  rw [select_filter hid] at hentry
  exact Except.ok.inj (hentry.symm.trans (hfold id m hm))

end Groups

end Dexdo.Keyset
