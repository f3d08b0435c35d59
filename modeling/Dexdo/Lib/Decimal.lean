import Mathlib.Data.Nat.Digits.Defs
import Mathlib.Tactic

namespace Dexdo.Decimal

/-- The last `p` decimal digits of `n`, zeros in front. -/
def lastDigits : ℕ → ℕ → List Char
  | 0, _ => []
  | p + 1, n => lastDigits p (n / 10) ++ [Nat.digitChar (n % 10)]

@[simp] theorem length_lastDigits (p n : ℕ) : (lastDigits p n).length = p := by
  induction p generalizing n with
  | zero => rfl
  | succ p ih => simp [lastDigits, ih]

theorem lastDigits_mod (p n : ℕ) : lastDigits p (n % 10 ^ p) = lastDigits p n := by
  induction p generalizing n with
  | zero => rfl
  | succ p ih =>
    have hd : n % 10 ^ (p + 1) / 10 = n / 10 % 10 ^ p := by
      rw [pow_succ']
      exact Nat.mod_mul_right_div_self n 10 (10 ^ p)
    have hm : n % 10 ^ (p + 1) % 10 = n % 10 :=
      Nat.mod_mod_of_dvd n (Dvd.intro_left (10 ^ p) rfl)
    simp only [lastDigits, hd, hm, ih]

theorem lastDigits_zero (p : ℕ) : lastDigits p 0 = List.replicate p '0' := by
  induction p with
  | zero => rfl
  | succ p ih => simp [lastDigits, ih, List.replicate_succ']

/-- A number's digits are those of its quotient followed by its last ones. -/
theorem toDigits_append_lastDigits {p n : ℕ} (h : 10 ^ p ≤ n) :
    Nat.toDigits 10 n = Nat.toDigits 10 (n / 10 ^ p) ++ lastDigits p n := by
  induction p generalizing n with
  | zero => simp [lastDigits]
  | succ p ih =>
    rw [pow_succ] at h
    have hp : 0 < 10 ^ p := by positivity
    have hn : 10 ≤ n := by omega
    have hq : 10 ^ p ≤ n / 10 := (Nat.le_div_iff_mul_le (by decide)).mpr h
    rw [Nat.toDigits_of_base_le (by decide) hn, ih hq, Nat.div_div_eq_div_mul, pow_succ']
    simp [lastDigits]

/-- Short numbers are padded to their last digits. -/
theorem replicate_append_toDigits {p n : ℕ} (hp : 0 < p) (h : n < 10 ^ p) :
    List.replicate (p - (Nat.toDigits 10 n).length) '0' ++ Nat.toDigits 10 n = lastDigits p n := by
  induction p generalizing n with
  | zero => exact absurd hp (lt_irrefl 0)
  | succ p ih =>
    by_cases hn : n < 10
    · rw [Nat.toDigits_of_lt_base hn, lastDigits, Nat.div_eq_of_lt hn, Nat.mod_eq_of_lt hn,
        lastDigits_zero]
      rfl
    · have hp0 : 0 < p := by
        by_contra h0
        obtain rfl : p = 0 := by omega
        exact hn (by simpa using h)
      have hq : n / 10 < 10 ^ p := by
        rw [Nat.div_lt_iff_lt_mul (by decide), ← pow_succ]
        exact h
      rw [Nat.toDigits_of_base_le (by decide) (by omega : 10 ≤ n), lastDigits, ← ih hp0 hq,
        List.length_append, List.length_singleton, Nat.add_sub_add_right, List.append_assoc]

/-- Scaling by a power of ten appends zeros. -/
theorem toDigits_mul_pow {n : ℕ} (h : 0 < n) (k : ℕ) :
    Nat.toDigits 10 (n * 10 ^ k) = Nat.toDigits 10 n ++ List.replicate k '0' := by
  have hk : 0 < 10 ^ k := by positivity
  have hmod : n * 10 ^ k % 10 ^ k = 0 := Nat.mul_mod_left n (10 ^ k)
  rw [toDigits_append_lastDigits (Nat.le_mul_of_pos_left _ h), Nat.mul_div_cancel n hk,
    ← lastDigits_mod, hmod, lastDigits_zero]

/-- Fixed-point notation of `n / 10 ^ p`. -/
def fixed (p n : ℕ) : List Char :=
  if p = 0 then Nat.toDigits 10 n else Nat.toDigits 10 (n / 10 ^ p) ++ '.' :: lastDigits p n

/-- Slicing the digits of a number gives its fixed-point notation. -/
theorem fixed_of_lt {p n : ℕ} (hp : 0 < p) (h : n < 10 ^ p) :
    '0' :: '.' :: (List.replicate (p - (Nat.toDigits 10 n).length) '0' ++ Nat.toDigits 10 n) =
      fixed p n := by
  rw [fixed, if_neg hp.ne', Nat.div_eq_of_lt h, replicate_append_toDigits hp h]
  rfl

theorem fixed_of_le {p n : ℕ} (hp : 0 < p) (h : 10 ^ p ≤ n) :
    (Nat.toDigits 10 n).take ((Nat.toDigits 10 n).length - p) ++
      '.' :: (Nat.toDigits 10 n).drop ((Nat.toDigits 10 n).length - p) = fixed p n := by
  have hlen : (Nat.toDigits 10 n).length - p = (Nat.toDigits 10 (n / 10 ^ p)).length := by
    rw [toDigits_append_lastDigits h, List.length_append, length_lastDigits, Nat.add_sub_cancel]
  rw [hlen, toDigits_append_lastDigits h, List.take_left, List.drop_left, fixed, if_neg hp.ne']

/-- Dividing first and padding the remainder gives it too. -/
theorem fixed_of_div {p n : ℕ} (hp : 0 < p) :
    Nat.toDigits 10 (n / 10 ^ p) ++ '.' ::
      (List.replicate (p - (Nat.toDigits 10 (n % 10 ^ p)).length) '0' ++
        Nat.toDigits 10 (n % 10 ^ p)) = fixed p n := by
  rw [fixed, if_neg hp.ne', replicate_append_toDigits hp (Nat.mod_lt n (by positivity)),
    lastDigits_mod]

section Reading

variable {l : List Char}

/-- The last digits carry the remainder. -/
theorem ofDigitChars_lastDigits (p n m : ℕ) :
    Nat.ofDigitChars 10 (lastDigits p n) m = 10 ^ p * m + n % 10 ^ p := by
  induction p generalizing n m with
  | zero => simp [lastDigits, Nat.mod_one]
  | succ p ih =>
    have hlt : n % 10 < 10 := Nat.mod_lt n (by decide)
    have hsplit : n % 10 ^ (p + 1) = 10 * (n / 10 % 10 ^ p) + n % 10 := by
      rw [pow_succ', Nat.mod_mul]
      exact Nat.add_comm _ _
    rw [lastDigits, Nat.ofDigitChars_append, ih,
      Nat.ofDigitChars_cons_digitChar_of_lt_ten hlt, Nat.ofDigitChars_nil, hsplit, pow_succ']
    ring

theorem digit_bounds {c : Char} (h : c.isDigit = true) : c.toNat - '0'.toNat < 10 ∧
    (c.toNat - '0'.toNat = 0 ↔ c = '0') := by
  have hc : 48 ≤ c.toNat ∧ c.toNat ≤ 57 := by
    simpa [Char.isDigit, UInt32.le_iff_toNat_le] using h
  refine ⟨by simp only [Char.reduceToNat]; omega, ?_⟩
  constructor
  · intro h0
    have h48 : c.toNat = '0'.toNat := by
      simp only [Char.reduceToNat] at h0 ⊢
      omega
    exact Char.toNat_inj.mp h48
  · rintro rfl
    rfl

/-- Digits stand for a number below the power of their count. -/
theorem ofDigitChars_lt (h : ∀ c ∈ l, c.isDigit = true) :
    Nat.ofDigitChars 10 l 0 < 10 ^ l.length := by
  induction l with
  | nil => simp
  | cons c l ih =>
    have hl := ih fun x hx => h x (List.mem_cons_of_mem c hx)
    have hc := (digit_bounds (h c List.mem_cons_self)).1
    rw [Nat.ofDigitChars_cons, Nat.ofDigitChars_eq_ofDigitChars_zero, List.length_cons, pow_succ]
    have hmul : 10 ^ l.length * (10 * 0 + (c.toNat - '0'.toNat)) ≤ 10 ^ l.length * 9 :=
      Nat.mul_le_mul_left _ (by omega)
    omega

theorem ofDigitChars_eq_zero (h : ∀ c ∈ l, c.isDigit = true) :
    Nat.ofDigitChars 10 l 0 = 0 ↔ ∀ c ∈ l, c = '0' := by
  induction l with
  | nil => simp
  | cons c l ih =>
    have hl := ih fun x hx => h x (List.mem_cons_of_mem c hx)
    have hc := (digit_bounds (h c List.mem_cons_self)).2
    rw [Nat.ofDigitChars_cons, Nat.ofDigitChars_eq_ofDigitChars_zero, Nat.add_eq_zero_iff, hl,
      Nat.mul_eq_zero, Nat.mul_zero, Nat.zero_add, hc, List.forall_mem_cons]
    simp

/-- Fixed-point digits give the number back. -/
theorem ofDigitChars_fixed (p n : ℕ) :
    Nat.ofDigitChars 10 (Nat.toDigits 10 (n / 10 ^ p) ++ lastDigits p n) 0 = n := by
  rw [Nat.ofDigitChars_append, Nat.ofDigitChars_ten_toDigits, ofDigitChars_lastDigits]
  exact Nat.div_add_mod n (10 ^ p)

theorem isDigit_lastDigits (p n : ℕ) : ∀ c ∈ lastDigits p n, c.isDigit = true := by
  induction p generalizing n with
  | zero =>
    intro c hc
    cases hc
  | succ p ih =>
    intro c hc
    rw [lastDigits, List.mem_append, List.mem_singleton] at hc
    rcases hc with hc | rfl
    · exact ih (n / 10) c hc
    · rw [Nat.isDigit_digitChar, decide_eq_true_eq]
      exact Nat.mod_lt n (by decide)

end Reading

end Dexdo.Decimal
