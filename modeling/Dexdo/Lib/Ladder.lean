import Dexdo.Lib.Dict

namespace Dexdo

variable {κ β : Type} [LinearOrder κ]

/-- `x` comes before `y` on a walk through the keys, upwards or downwards. -/
def ahead (up : Bool) (x y : κ) : Prop := if up then x < y else y < x

instance (up : Bool) (x y : κ) : Decidable (ahead up x y) :=
  inferInstanceAs (Decidable (if up then x < y else y < x))

theorem ahead_trans {up : Bool} {x y z : κ} (h : ahead up x y) (h' : ahead up y z) :
    ahead up x z := by
  cases up
  · exact lt_trans h' h
  · exact lt_trans h h'

theorem ahead_irrefl {up : Bool} {x : κ} : ¬ ahead up x x := by
  cases up <;> exact lt_irrefl x

theorem ahead_trichotomy (up : Bool) (x y : κ) : ahead up x y ∨ x = y ∨ ahead up y x := by
  cases up
  · rcases lt_trichotomy x y with h | h | h
    · exact .inr (.inr h)
    · exact .inr (.inl h)
    · exact .inl h
  · exact lt_trichotomy x y

theorem not_ahead_of_ahead {up : Bool} {x y : κ} (h : ahead up x y) : ¬ ahead up y x :=
  fun h' => ahead_irrefl (ahead_trans h h')

namespace Dict

variable (d : Dict κ β) (up : Bool)

/-- The entry a walk starts at. -/
def best? : Option (κ × β) := if up then d.min? else d.max?

/-- The entry a walk comes to after key `k`. -/
def after? (k : κ) : Option (κ × β) := if up then d.next? k else d.prev? k

/-- Number of keys a walk has still to visit after `k`. -/
def behind (k : κ) : ℕ := (d.keys.filter fun x => decide (ahead up k x)).length

variable {d up} {k : κ} {e : κ × β}

theorem mem_keys_of_mem (h : e ∈ d.entries) : e.1 ∈ d.keys := List.mem_map_of_mem h

theorem best?_none (h : d.best? up = none) : d.keys = [] := by
  cases up
  · simpa [best?, max?, keys] using h
  · simpa [best?, min?, keys] using h

theorem best?_some (h : d.best? up = some e) :
    e.1 ∈ d.keys ∧ ∀ x ∈ d.keys, ¬ ahead up x e.1 := by
  cases up with
  | false =>
    have hl : d.entries.reverse.head? = some e := h
    obtain ⟨l, hl⟩ := List.head?_eq_some_iff.mp hl
    have hs : (e :: l).Pairwise fun a b => b.1 < a.1 := by
      rw [← hl, List.pairwise_reverse]
      exact d.sorted
    have hm (x : κ × β) : x ∈ d.entries ↔ x ∈ e :: l := by rw [← hl, List.mem_reverse]
    refine ⟨mem_keys_of_mem ((hm e).mpr (by simp)), fun x hx hlt => ?_⟩
    obtain ⟨y, hy, rfl⟩ := List.mem_map.mp hx
    rcases List.mem_cons.mp ((hm y).mp hy) with rfl | hy
    · exact ahead_irrefl hlt
    · exact not_ahead_of_ahead hlt ((List.pairwise_cons.mp hs).1 y hy)
  | true =>
    have hl : d.entries.head? = some e := h
    obtain ⟨l, hl⟩ := List.head?_eq_some_iff.mp hl
    have hs := d.sorted
    rw [hl] at hs
    refine ⟨mem_keys_of_mem (by simp [hl]), fun x hx hlt => ?_⟩
    obtain ⟨y, hy, rfl⟩ := List.mem_map.mp hx
    rw [hl] at hy
    rcases List.mem_cons.mp hy with rfl | hy
    · exact ahead_irrefl hlt
    · exact not_ahead_of_ahead hlt ((List.pairwise_cons.mp hs).1 y hy)

theorem after?_none (h : d.after? up k = none) : ∀ x ∈ d.keys, ¬ ahead up k x := by
  intro x hx
  obtain ⟨y, hy, rfl⟩ := List.mem_map.mp hx
  cases up with
  | false =>
    have := List.find?_eq_none.mp (show d.entries.reverse.find? _ = none from h) y
      (List.mem_reverse.mpr hy)
    simpa [ahead] using this
  | true =>
    have := List.find?_eq_none.mp (show d.entries.find? _ = none from h) y hy
    simpa [ahead] using this

theorem after?_some (h : d.after? up k = some e) :
    e.1 ∈ d.keys ∧ ahead up k e.1 ∧ ∀ x ∈ d.keys, ahead up k x → ¬ ahead up x e.1 := by
  cases up with
  | false =>
    have hf : d.entries.reverse.find? (fun y => decide (y.1 < k)) = some e := h
    obtain ⟨hk, u, v, huv, hu⟩ := List.find?_eq_some_iff_append.mp hf
    have hs : (u ++ e :: v).Pairwise fun a b => b.1 < a.1 := by
      rw [← huv, List.pairwise_reverse]
      exact d.sorted
    have hm (x : κ × β) : x ∈ d.entries ↔ x ∈ u ++ e :: v := by rw [← huv, List.mem_reverse]
    refine ⟨mem_keys_of_mem ((hm e).mpr (by simp)), by simpa [ahead] using hk, ?_⟩
    intro x hx hkx hlt
    obtain ⟨y, hy, rfl⟩ := List.mem_map.mp hx
    rcases List.mem_append.mp ((hm y).mp hy) with hy | hy
    · have := hu y hy
      simp only [Bool.not_eq_true', decide_eq_false_iff_not] at this
      exact this hkx
    rcases List.mem_cons.mp hy with rfl | hy
    · exact ahead_irrefl hlt
    · exact not_ahead_of_ahead hlt
        ((List.pairwise_cons.mp (List.pairwise_append.mp hs).2.1).1 y hy)
  | true =>
    have hf : d.entries.find? (fun y => decide (k < y.1)) = some e := h
    obtain ⟨hk, u, v, huv, hu⟩ := List.find?_eq_some_iff_append.mp hf
    have hs := d.sorted
    rw [huv] at hs
    refine ⟨mem_keys_of_mem (by simp [huv]), by simpa [ahead] using hk, ?_⟩
    intro x hx hkx hlt
    obtain ⟨y, hy, rfl⟩ := List.mem_map.mp hx
    rw [huv] at hy
    rcases List.mem_append.mp hy with hy | hy
    · have := hu y hy
      simp only [Bool.not_eq_true', decide_eq_false_iff_not] at this
      exact this hkx
    rcases List.mem_cons.mp hy with rfl | hy
    · exact ahead_irrefl hlt
    · exact not_ahead_of_ahead hlt
        ((List.pairwise_cons.mp (List.pairwise_append.mp hs).2.1).1 y hy)

/-- The next key depends on the keys that are to be visited only. -/
theorem after?_congr {d' : Dict κ β} (h : ∀ x, ahead up k x → (x ∈ d.keys ↔ x ∈ d'.keys)) :
    (d.after? up k).map Prod.fst = (d'.after? up k).map Prod.fst := by
  cases hd : d.after? up k with
  | none =>
    cases hd' : d'.after? up k with
    | none => rfl
    | some =>
      obtain ⟨hm, hk, -⟩ := after?_some hd'
      exact absurd hk (after?_none hd _ ((h _ hk).mpr hm))
  | some e =>
    obtain ⟨hm, hk, hleast⟩ := after?_some hd
    cases hd' : d'.after? up k with
    | none => exact absurd hk (after?_none hd' _ ((h _ hk).mp hm))
    | some e' =>
      obtain ⟨hm', hk', hleast'⟩ := after?_some hd'
      have h1 := hleast _ ((h _ hk').mpr hm') hk'
      have h2 := hleast' _ ((h _ hk).mp hm) hk
      rcases ahead_trichotomy up e.1 e'.1 with h3 | h3 | h3
      · exact absurd h3 h2
      · exact congrArg some h3
      · exact absurd h3 h1

theorem behind_le_length : d.behind up k ≤ d.entries.length := by
  have := List.length_filter_le (fun x => decide (ahead up k x)) d.keys
  simpa [behind, keys] using this

/-- Fewer keys leave fewer to visit. -/
theorem behind_mono {d' : Dict κ β} (h : ∀ x ∈ d'.keys, x ∈ d.keys) :
    d'.behind up k ≤ d.behind up k := by
  have hn : d'.keys.Nodup := d'.keys_sorted.imp ne_of_lt
  apply (hn.filter _).length_le_of_subset
  intro x hx
  rw [List.mem_filter] at hx ⊢
  exact ⟨h x hx.1, hx.2⟩

/-- The next key is one of those that were to be visited. -/
theorem behind_after (h : d.after? up k = some e) : d.behind up e.1 < d.behind up k := by
  obtain ⟨hm, hk, -⟩ := after?_some h
  have hn : d.keys.Nodup := d.keys_sorted.imp ne_of_lt
  have he : e.1 ∈ d.keys.filter fun x => decide (ahead up k x) :=
    List.mem_filter.mpr ⟨hm, by simpa using hk⟩
  have hsub : (d.keys.filter fun x => decide (ahead up e.1 x)) ⊆
      (d.keys.filter fun x => decide (ahead up k x)).erase e.1 := by
    intro x hx
    obtain ⟨h1, h2⟩ := List.mem_filter.mp hx
    have h2 : ahead up e.1 x := by simpa using h2
    refine ((hn.filter _).mem_erase_iff).mpr ⟨?_, List.mem_filter.mpr ⟨h1, ?_⟩⟩
    · rintro rfl
      exact ahead_irrefl h2
    · simpa using ahead_trans hk h2
  have hle := (hn.filter _).length_le_of_subset hsub
  have hpos := List.length_pos_of_mem he
  rw [List.length_erase_of_mem he] at hle
  unfold behind
  omega

end Dict

end Dexdo
