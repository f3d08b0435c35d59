import Mathlib.Algebra.BigOperators.Group.List.Basic
import Mathlib.Algebra.Order.Group.Nat
import Mathlib.Tactic

/-! Counters packed in the digits of one number. -/

namespace Dexdo.Packed

/-- Digit `i` of a number. -/
def digit (B n i : ℕ) : ℕ := n / B ^ i % B

/-- One unit at place `i` for each entry `i`. -/
def packed (B : ℕ) (l : List ℕ) : ℕ := (l.map (B ^ ·)).sum

variable {B : ℕ}

@[simp] theorem packed_nil : packed B [] = 0 := rfl

@[simp] theorem packed_cons (i : ℕ) (l : List ℕ) : packed B (i :: l) = B ^ i + packed B l :=
  List.sum_cons

@[simp] theorem packed_append (l l' : List ℕ) :
    packed B (l ++ l') = packed B l + packed B l' := by
  rw [packed, List.map_append, List.sum_append]
  rfl

theorem packed_perm {l l' : List ℕ} (h : l.Perm l') : packed B l = packed B l' :=
  (h.map _).sum_eq

/-- The places below `i + 1` are those below `i` and the units at `i`. -/
theorem packed_below_succ (l : List ℕ) (i : ℕ) :
    packed B (l.filter (· < i + 1)) = packed B (l.filter (· < i)) + l.count i * B ^ i := by
  induction l with
  | nil => simp
  | cons j l ih =>
    rcases lt_trichotomy j i with h | h | h
    · have h' : j < i + 1 := by omega
      simp only [List.filter_cons, h, h', decide_true, if_true, packed_cons, ih,
        List.count_cons_of_ne h.ne]
      omega
    · subst h
      simp only [List.filter_cons, lt_irrefl, Nat.lt_succ_self, decide_true, decide_false,
        if_true, packed_cons, ih, List.count_cons_self]
      simp only [Bool.false_eq_true, if_false]
      ring
    · have h1 : ¬ j < i := by omega
      have h2 : ¬ j < i + 1 := by omega
      simp only [List.filter_cons, h1, h2, decide_false, Bool.false_eq_true, if_false, ih,
        List.count_cons_of_ne h.ne']

theorem packed_below_lt {l : List ℕ} (h : ∀ i, l.count i < B) (i : ℕ) :
    packed B (l.filter (· < i)) < B ^ i := by
  induction i with
  | zero => simp
  | succ i ih =>
    have hc : (l.count i + 1) * B ^ i ≤ B * B ^ i := Nat.mul_le_mul_right _ (h i)
    have hs : (l.count i + 1) * B ^ i = l.count i * B ^ i + B ^ i := Nat.succ_mul ..
    rw [packed_below_succ, pow_succ, mul_comm (B ^ i)]
    omega

/-- What stands at `i` and above is a multiple of the unit at `i`. -/
theorem dvd_packed {l : List ℕ} {i : ℕ} (h : ∀ j ∈ l, i ≤ j) : B ^ i ∣ packed B l := by
  induction l with
  | nil => exact dvd_zero _
  | cons j l ih =>
    rw [packed_cons]
    exact dvd_add (pow_dvd_pow B (h j (by simp))) (ih fun k hk => h k (List.mem_cons_of_mem j hk))

theorem packed_split (l : List ℕ) (i : ℕ) :
    packed B l = packed B (l.filter (· < i)) + packed B (l.filter fun j => ! decide (j < i)) := by
  rw [← packed_append]
  exact packed_perm (List.filter_append_perm _ l).symm

/-- As long as no place overflows, each digit counts its own entries. -/
theorem digit_packed {l : List ℕ} (h : ∀ i, l.count i < B) (i : ℕ) :
    digit B (packed B l) i = l.count i := by
  have hB : 0 < B := (Nat.zero_le _).trans_lt (h 0)
  obtain ⟨q, hq⟩ : B ^ (i + 1) ∣ packed B (l.filter fun j => ! decide (j < i + 1)) := by
    apply dvd_packed
    intro j hj
    have := (List.mem_filter.mp hj).2
    simp only [Bool.not_eq_true', decide_eq_false_iff_not] at this
    omega
  have hsum : packed B l =
      packed B (l.filter (· < i)) + B ^ i * (l.count i + B * q) := by
    rw [packed_split l (i + 1), hq, packed_below_succ, pow_succ]
    ring
  have hlow := packed_below_lt h i
  rw [digit, hsum, Nat.add_mul_div_left _ _ (pow_pos hB i), Nat.div_eq_of_lt hlow, zero_add,
    Nat.add_mul_mod_self_left, Nat.mod_eq_of_lt (h i)]

end Dexdo.Packed
