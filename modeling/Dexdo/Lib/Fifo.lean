import Mathlib.Data.List.Range
import Mathlib.Logic.Function.Basic
import Mathlib.Tactic

namespace Dexdo

variable {α : Type}

/-- Contents of a ring buffer with `size` occupied slots from `head` on. -/
def ring (cap : ℕ) (f : ℕ → α) (head size : ℕ) : List α :=
  (List.range size).map fun j => f ((head + j) % cap)

namespace Ring

variable {c : ℕ} {f : ℕ → α} {h n : ℕ}

@[simp] theorem length : (ring c f h n).length = n := by simp [ring]

theorem slot_inj {i j : ℕ} (hi : i < c) (hj : j < c) (hij : (h + i) % c = (h + j) % c) :
    i = j := by
  have hm : i ≡ j [MOD c] := Nat.ModEq.add_left_cancel' h hij
  exact Nat.ModEq.eq_of_lt_of_lt hm hi hj

theorem congr {g : ℕ → α} (hg : ∀ j < n, g ((h + j) % c) = f ((h + j) % c)) :
    ring c g h n = ring c f h n :=
  List.map_congr_left fun j hj => hg j (List.mem_range.mp hj)

/-- Writing the slot behind the last one appends. -/
theorem push (hs : n < c) (x : α) :
    ring c (Function.update f ((h + n) % c) x) h (n + 1) = ring c f h n ++ [x] := by
  have hle : ring c (Function.update f ((h + n) % c) x) h n = ring c f h n := by
    refine congr fun j hj => Function.update_of_ne (fun e => ?_) _ _
    exact hj.ne (slot_inj (hj.trans hs) hs e)
  rw [← hle]
  simp [ring, List.range_succ]

theorem cons (hs : 0 < n) :
    ring c f h n = f (h % c) :: ring c f (h + 1) (n - 1) := by
  obtain ⟨n, rfl⟩ : ∃ k, n = k + 1 := ⟨n - 1, by omega⟩
  simp only [ring, List.range_succ_eq_map, List.map_cons, List.map_map, Nat.add_zero,
    Nat.add_sub_cancel, List.cons.injEq, true_and]
  refine List.map_congr_left fun j _ => ?_
  simp only [Function.comp_apply]
  congr 2
  omega

theorem head_mod : ring c f (h % c) n = ring c f h n := by
  refine List.map_congr_left fun j _ => ?_
  simp only [Nat.mod_add_mod]

/-- Clearing the head slot and moving the head drops the first element. -/
theorem pop (hs : 0 < n) (hle : n ≤ c) (d : α) :
    ring c (Function.update f (h % c) d) ((h + 1) % c) (n - 1) =
      (ring c f h n).tail := by
  rw [head_mod, cons hs, List.tail_cons]
  refine congr fun j hj => Function.update_of_ne (fun e => ?_) _ _
  have : (h + (1 + j)) % c = (h + 0) % c := by rw [← Nat.add_assoc, e, Nat.add_zero]
  have := slot_inj (by omega) (by omega) this
  omega

theorem set_head (hs : 0 < n) (hle : n ≤ c) (x : α) :
    ring c (Function.update f (h % c) x) h n = x :: (ring c f h n).tail := by
  have ht := pop (f := f) (h := h) hs hle x
  rw [head_mod] at ht
  rw [cons hs, Function.update_self, ht]

theorem set_last (hs : 0 < n) (hle : n ≤ c) (x : α) :
    ring c (Function.update f ((h + (n - 1)) % c) x) h n =
      ring c f h (n - 1) ++ [x] := by
  have hp := push (f := f) (h := h) (n := n - 1) (c := c) (by omega) x
  rwa [Nat.sub_add_cancel hs] at hp

theorem snoc (hs : 0 < n) : ring c f h n =
    ring c f h (n - 1) ++ [f ((h + (n - 1)) % c)] := by
  obtain ⟨n, rfl⟩ : ∃ k, n = k + 1 := ⟨n - 1, by omega⟩
  simp [ring, List.range_succ]

/-- Head slot, next slot and number of occupied slots agree. -/
structure Agree (c h t n : ℕ) : Prop where
  head_lt : h < c
  size_le : n ≤ c
  tail_eq : t = (h + n) % c

namespace Agree

variable {t : ℕ}

/-- Writing the next slot appends. -/
theorem push (ha : Agree c h t n) (hn : n < c) (x : α) : Agree c h ((t + 1) % c) (n + 1) ∧
    ring c (Function.update f t x) h (n + 1) = ring c f h n ++ [x] := by
  refine ⟨⟨ha.head_lt, hn, ?_⟩, ?_⟩
  · rw [ha.tail_eq, Nat.mod_add_mod, Nat.add_assoc]
  · rw [ha.tail_eq]
    exact Ring.push hn x

/-- Clearing the head slot and moving on drops the first element. -/
theorem pop (ha : Agree c h t n) (hn : n ≠ 0) (d : α) : Agree c ((h + 1) % c) t (n - 1) ∧
    ring c (Function.update f h d) ((h + 1) % c) (n - 1) = (ring c f h n).tail := by
  have hp := Nat.pos_of_ne_zero hn
  refine ⟨⟨Nat.mod_lt _ (hp.trans_le ha.size_le), (Nat.sub_le n 1).trans ha.size_le, ?_⟩, ?_⟩
  · rw [ha.tail_eq, Nat.mod_add_mod, Nat.add_assoc, Nat.add_sub_cancel' hp]
  · have hpop := Ring.pop (f := f) (h := h) hp ha.size_le d
    rwa [Nat.mod_eq_of_lt ha.head_lt] at hpop

theorem set_head (ha : Agree c h t n) (hn : n ≠ 0) (x : α) :
    ring c (Function.update f h x) h n = x :: (ring c f h n).tail := by
  have hset := Ring.set_head (f := f) (h := h) (Nat.pos_of_ne_zero hn) ha.size_le x
  rwa [Nat.mod_eq_of_lt ha.head_lt] at hset

theorem cons (ha : Agree c h t n) (hn : n ≠ 0) : ring c f h n = f h :: (ring c f h n).tail := by
  have hcons := Ring.cons (c := c) (f := f) (h := h) (Nat.pos_of_ne_zero hn)
  rw [Nat.mod_eq_of_lt ha.head_lt] at hcons
  rw [hcons, List.tail_cons]

end Agree

end Ring

/-- A first-in first-out line: the entries that have left it, oldest first, and those that wait. -/
structure Fifo (α : Type) where
  finished : List α
  waiting : List α

namespace Fifo

def empty : Fifo α := ⟨[], []⟩

/-- Operations on a line; `amend` changes the entry accepted last. -/
inductive Op (α : Type)
  | enter (limit : ℕ) (entry : α)
  | amend (change : α → α)
  | rewrite (head : α)
  | advance

/-- An entry is turned away at the limit; the other operations need a waiting entry. -/
def step (q : Fifo α) : Op α → Option (Fifo α)
  | .enter limit entry =>
    if q.waiting.length < limit then some { q with waiting := q.waiting ++ [entry] } else some q
  | .amend change =>
    match q.waiting.getLast? with
    | none => none
    | some x => some { q with waiting := q.waiting.dropLast ++ [change x] }
  | .rewrite head =>
    match q.waiting with
    | [] => none
    | _ :: rest => some { q with waiting := head :: rest }
  | .advance =>
    match q.waiting with
    | [] => none
    | x :: rest => some ⟨q.finished ++ [x], rest⟩

/-- A sequence of operations. -/
def run (q : Fifo α) : List (Op α) → Option (Fifo α)
  | [] => some q
  | op :: ops => (q.step op).bind fun r => r.run ops

theorem run_concat (q : Fifo α) (ops : List (Op α)) (op : Op α) :
    q.run (ops ++ [op]) = (q.run ops).bind fun r => r.step op := by
  induction ops generalizing q with
  | nil => exact Option.bind_fun_some _
  | cons x ops ih =>
    change ((q.step x).bind fun r => r.run (ops ++ [op])) = _
    rw [funext ih]
    exact (Option.bind_assoc ..).symm

section Works

variable {σ κ : Type}

/-- Operations on a line that is kept in a part of a larger state, with anything in between that
leaves that part alone. -/
inductive Works (part : σ → κ) (move : σ → Op α → σ → Prop) (s : σ) : List (Op α) → σ → Prop
  | nil : Works part move s [] s
  | other {ops : List (Op α)} {t u : σ} :
      Works part move s ops t → part u = part t → Works part move s ops u
  | snoc {ops : List (Op α)} {op : Op α} {t u : σ} :
      Works part move s ops t → move t op u → Works part move s (ops ++ [op]) u

variable {part : σ → κ} {move : σ → Op α → σ → Prop} {s t u : σ} {ops ops' : List (Op α)}

theorem Works.append (h : Works part move s ops t) (h' : Works part move t ops' u) :
    Works part move s (ops ++ ops') u := by
  induction h' with
  | nil => rwa [List.append_nil]
  | other _ hp ih => exact ih.other hp
  | snoc _ hm ih =>
    rw [← List.append_assoc]
    exact ih.snoc hm

/-- When every move keeps the part a picture of the line, so does every sequence of moves. -/
theorem Works.picture {holds : κ → List α → Prop} {q : Fifo α}
    (hmove : ∀ s op t (q : Fifo α), move s op t → holds (part s) q.waiting →
      ∃ r, q.step op = some r ∧ holds (part t) r.waiting)
    (h : Works part move s ops t) (hs : holds (part s) q.waiting) :
    ∃ r, q.run ops = some r ∧ holds (part t) r.waiting := by
  induction h with
  | nil => exact ⟨q, rfl, hs⟩
  | other _ hp ih =>
    obtain ⟨r, hr, ht⟩ := ih
    exact ⟨r, hr, hp ▸ ht⟩
  | snoc _ hm ih =>
    obtain ⟨r, hr, ht⟩ := ih
    obtain ⟨r', hr', hu⟩ := hmove _ _ _ r hm ht
    refine ⟨r', ?_, hu⟩
    rw [run_concat, hr]
    exact hr'

variable (part move) in
/-- The part of `t` comes from the part of `s` by moves. -/
def Worked (s t : σ) : Prop := ∃ ops, Works part move s ops t

theorem Worked.refl (s : σ) : Worked part move s s := ⟨[], .nil⟩

theorem Worked.trans (h : Worked part move s t) (h' : Worked part move t u) :
    Worked part move s u := by
  obtain ⟨ops, h⟩ := h
  obtain ⟨ops', h'⟩ := h'
  exact ⟨ops ++ ops', h.append h'⟩

theorem Worked.other (h : Worked part move s t) (hp : part u = part t) :
    Worked part move s u := by
  obtain ⟨ops, h⟩ := h
  exact ⟨ops, h.other hp⟩

theorem Worked.of_eq (hp : part t = part s) : Worked part move s t := (Worked.refl s).other hp

theorem Worked.one {op : Op α} (hm : move s op t) : Worked part move s t := ⟨[op], .snoc .nil hm⟩

end Works

end Fifo

namespace Ring

variable {c : ℕ} {d x : α} {f : ℕ → α} {h t n : ℕ} {l : List α}

/-- A ring of `c` slots, `n` of them occupied from `h` on, holds the line `l`: `t` is the next slot
and every other slot is blank. -/
structure Holds (c : ℕ) (d : α) (f : ℕ → α) (h t n : ℕ) (l : List α) : Prop where
  contents : ring c f h n = l
  head_lt : h < c
  size_le : n ≤ c
  tail_eq : t = (h + n) % c
  blank : ∀ k, (∀ j < n, (h + j) % c ≠ k) → f k = d

namespace Holds

theorem empty (hc : 0 < c) : Holds c d (fun _ => d) 0 0 0 [] :=
  ⟨rfl, hc, Nat.zero_le c, (Nat.zero_mod c).symm, fun _ _ => rfl⟩

theorem size (hr : Holds c d f h t n l) : n = l.length := by
  rw [← hr.contents, Ring.length]

theorem ne_nil (hr : Holds c d f h t n l) (hn : n ≠ 0) : l ≠ [] := by
  intro hl
  apply hn
  rw [hr.size, hl, List.length_nil]

/-- The slot behind the line is free as long as there is one. -/
theorem room (hr : Holds c d f h t n l) (hn : n < c) {j : ℕ} (hj : j < n) : (h + j) % c ≠ t := by
  intro he
  rw [hr.tail_eq] at he
  exact hj.ne (slot_inj (hj.trans hn) hn he)

theorem ends (hr : Holds c d f h t n l) : h = t ↔ l = [] ∨ l.length = c := by
  have hz : (h + 0) % c = h := Nat.mod_eq_of_lt hr.head_lt
  rw [← List.length_eq_zero_iff, ← hr.size, hr.tail_eq]
  constructor
  · intro he
    by_cases hn : n < c
    · have := slot_inj (h := h) hn (hr.head_lt.pos) (he.symm.trans hz.symm)
      exact .inl this
    · exact .inr (le_antisymm hr.size_le (not_lt.mp hn))
  · rintro (rfl | rfl)
    · exact hz.symm
    · rw [Nat.add_mod_right, Nat.mod_eq_of_lt hr.head_lt]

theorem agree (hr : Holds c d f h t n l) : Agree c h t n := ⟨hr.head_lt, hr.size_le, hr.tail_eq⟩

theorem push (hr : Holds c d f h t n l) (hn : n < c) (x : α) :
    Holds c d (Function.update f t x) h ((t + 1) % c) (n + 1) (l ++ [x]) := by
  obtain ⟨ha, hl⟩ := hr.agree.push (f := f) hn x
  refine ⟨hr.contents ▸ hl, ha.head_lt, ha.size_le, ha.tail_eq, fun k hk => ?_⟩
  have hkt : k ≠ t := by
    rw [hr.tail_eq]
    exact (hk n n.lt_succ_self).symm
  rw [Function.update_of_ne hkt]
  exact hr.blank k fun j hj => hk j (hj.trans n.lt_succ_self)

theorem pop (hr : Holds c d f h t n l) (hn : n ≠ 0) :
    Holds c d (Function.update f h d) ((h + 1) % c) t (n - 1) l.tail := by
  obtain ⟨ha, hl⟩ := hr.agree.pop (f := f) hn d
  refine ⟨hr.contents ▸ hl, ha.head_lt, ha.size_le, ha.tail_eq, fun k hk => ?_⟩
  by_cases hkh : k = h
  · rw [hkh, Function.update_self]
  rw [Function.update_of_ne hkh]
  apply hr.blank k
  intro j hj
  cases j with
  | zero => rwa [Nat.add_zero, Nat.mod_eq_of_lt hr.head_lt, ne_comm]
  | succ j =>
    have := hk j (by omega)
    rwa [Nat.mod_add_mod, Nat.add_assoc, Nat.add_comm 1] at this

theorem set_head (hr : Holds c d f h t n l) (hn : n ≠ 0) (x : α) :
    Holds c d (Function.update f h x) h t n (x :: l.tail) := by
  refine ⟨?_, hr.head_lt, hr.size_le, hr.tail_eq, fun k hk => ?_⟩
  · rw [hr.agree.set_head hn, hr.contents]
  · have hkh : k ≠ h := by
      have := hk 0 (Nat.pos_of_ne_zero hn)
      rwa [Nat.add_zero, Nat.mod_eq_of_lt hr.head_lt, ne_comm] at this
    rw [Function.update_of_ne hkh]
    exact hr.blank k hk

/-- The slot before the next one holds the entry accepted last. -/
theorem last_slot (hr : Holds c d f h t n l) (hn : n ≠ 0) :
    (if t = 0 then c - 1 else t - 1) = (h + (n - 1)) % c := by
  have ht := hr.tail_eq
  have hh := hr.head_lt
  have hle := hr.size_le
  by_cases hw : h + n < c
  · rw [Nat.mod_eq_of_lt hw] at ht
    rw [Nat.mod_eq_of_lt (by omega), if_neg (by omega)]
    omega
  · rw [Nat.mod_eq_sub_mod (not_lt.mp hw), Nat.mod_eq_of_lt (by omega)] at ht
    by_cases hz : t = 0
    · rw [if_pos hz, Nat.mod_eq_of_lt (by omega)]
      omega
    · rw [if_neg hz, Nat.mod_eq_sub_mod (by omega), Nat.mod_eq_of_lt (by omega)]
      omega

theorem set_last {es : List α} {e : α} (hr : Holds c d f h t n (es ++ [e])) (x : α) :
    Holds c d (Function.update f ((h + (n - 1)) % c) x) h t n (es ++ [x]) ∧
      f ((h + (n - 1)) % c) = e := by
  have hp : 0 < n := by
    rw [hr.size, List.length_append]
    exact Nat.succ_pos _
  have hc := hr.contents
  rw [Ring.snoc hp] at hc
  obtain ⟨h1, h2⟩ := List.append_inj' hc rfl
  refine ⟨⟨?_, hr.head_lt, hr.size_le, hr.tail_eq, fun k hk => ?_⟩, List.singleton_inj.mp h2⟩
  · rw [Ring.set_last hp hr.size_le, h1]
  · rw [Function.update_of_ne (hk (n - 1) (by omega)).symm]
    exact hr.blank k hk

end Holds

/-- What the holder of a ring may read off it. -/
structure Line (c : ℕ) (d : α) (f : ℕ → α) (h t n : ℕ) (l : List α) : Prop where
  contents : ring c f h n = l
  size : n = l.length
  size_le : n ≤ c
  ends : h = t ↔ l = [] ∨ l.length = c
  room : n < c → ∀ j < n, (h + j) % c ≠ t
  blank : ∀ k, (∀ j < n, (h + j) % c ≠ k) → f k = d

theorem Holds.line (hr : Holds c d f h t n l) : Line c d f h t n l :=
  ⟨hr.contents, hr.size, hr.size_le, hr.ends, fun hn _ => hr.room hn, hr.blank⟩

end Ring

namespace Fifo

variable {c : ℕ} {d : α} {f : ℕ → α} {h t n : ℕ} {q : Fifo α}

/-- Writing the next slot is entering the line. -/
theorem ring_enter {limit : ℕ} (hr : Ring.Holds c d f h t n q.waiting) (hc : limit ≤ c)
    (hn : n < limit) (x : α) : ∃ r, q.step (.enter limit x) = some r ∧
      Ring.Holds c d (Function.update f t x) h ((t + 1) % c) (n + 1) r.waiting :=
  ⟨_, if_pos (hr.size ▸ hn), hr.push (hn.trans_le hc) x⟩

/-- An entry that finds the line at the limit is turned away. -/
theorem ring_full {limit : ℕ} (hr : Ring.Holds c d f h t n q.waiting) (hn : ¬ n < limit) (x : α) :
    q.step (.enter limit x) = some q := if_neg (hr.size ▸ hn)

theorem ring_rewrite (hr : Ring.Holds c d f h t n q.waiting) (hn : n ≠ 0) (x : α) :
    ∃ r, q.step (.rewrite x) = some r ∧
      Ring.Holds c d (Function.update f h x) h t n r.waiting := by
  obtain ⟨y, l, hl⟩ := List.exists_cons_of_ne_nil (hr.ne_nil hn)
  have hx := hr.set_head hn x
  refine ⟨{ q with waiting := x :: l }, ?_, ?_⟩
  · rw [step, hl]
  · rwa [hl] at hx

theorem ring_advance (hr : Ring.Holds c d f h t n q.waiting) (hn : n ≠ 0) :
    ∃ r, q.step .advance = some r ∧
      Ring.Holds c d (Function.update f h d) ((h + 1) % c) t (n - 1) r.waiting := by
  obtain ⟨y, l, hl⟩ := List.exists_cons_of_ne_nil (hr.ne_nil hn)
  have hx := hr.pop hn
  refine ⟨⟨q.finished ++ [y], l⟩, ?_, ?_⟩
  · rw [step, hl]
  · rwa [hl] at hx

/-- Changing the slot before the next one changes the entry accepted last. -/
theorem ring_amend {slot : ℕ} (hr : Ring.Holds c d f h t n q.waiting) (hn : n ≠ 0)
    (hs : slot = if t = 0 then c - 1 else t - 1) (change : α → α) :
    ∃ r, q.step (.amend change) = some r ∧
      Ring.Holds c d (Function.update f slot (change (f slot))) h t n r.waiting := by
  obtain ⟨es, e, hl⟩ := (List.eq_nil_or_concat' q.waiting).resolve_left (hr.ne_nil hn)
  have hlast := hr.last_slot hn
  rw [hl] at hr
  obtain ⟨hx, he⟩ := hr.set_last (change e)
  rw [hs, hlast, he]
  refine ⟨{ q with waiting := es ++ [change e] }, ?_, hx⟩
  rw [step, hl, List.getLast?_concat, List.dropLast_concat]

end Fifo

end Dexdo
