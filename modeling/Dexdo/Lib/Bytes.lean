import Mathlib.Data.Nat.Digits.Lemmas
import Mathlib.Tactic

namespace Dexdo.Bytes

/-- The `n` low bytes of a number, lowest first. -/
def le : ℕ → ℕ → List ℕ
  | 0, _ => []
  | n + 1, v => v % 256 :: le n (v / 256)

/-- The same bytes, highest first. -/
def be (n v : ℕ) : List ℕ := (le n v).reverse

/-- The number of a string of bytes, the first of them the highest. -/
def ofBE (bs : List ℕ) : ℕ := Nat.ofDigits 256 bs.reverse

/-- The bytes of a number in the other order. -/
def swap (n v : ℕ) : ℕ := ofBE (le n v)

variable {m n v w a : ℕ} {bs : List ℕ}

@[simp] theorem le_length (n v : ℕ) : (le n v).length = n := by
  induction n generalizing v with
  | zero => rfl
  | succ n ih => rw [le, List.length_cons, ih]

@[simp] theorem be_length (n v : ℕ) : (be n v).length = n := by
  rw [be, List.length_reverse, le_length]

theorem le_lt (n v : ℕ) : ∀ b ∈ le n v, b < 256 := by
  induction n generalizing v with
  | zero => simp [le]
  | succ n ih =>
    rw [le, List.forall_mem_cons]
    exact ⟨Nat.mod_lt _ (by norm_num), ih (v / 256)⟩

theorem ofDigits_le (n v : ℕ) : Nat.ofDigits 256 (le n v) = v % 256 ^ n := by
  induction n generalizing v with
  | zero => simp [le, Nat.mod_one]
  | succ n ih => rw [le, Nat.ofDigits_cons, ih, Nat.pow_succ', Nat.mod_mul]

theorem le_inj (hv : v < 256 ^ n) (hw : w < 256 ^ n) (h : le n v = le n w) : v = w := by
  have hd := congrArg (Nat.ofDigits 256) h
  rwa [ofDigits_le, ofDigits_le, Nat.mod_eq_of_lt hv, Nat.mod_eq_of_lt hw] at hd

theorem be_inj (hv : v < 256 ^ n) (hw : w < 256 ^ n) (h : be n v = be n w) : v = w :=
  le_inj hv hw (List.reverse_injective h)

theorem le_zero (n : ℕ) : le n 0 = List.replicate n 0 := by
  induction n with
  | zero => rfl
  | succ n ih => rw [le, Nat.zero_mod, Nat.zero_div, ih, List.replicate_succ]

/-- A number of `m` bytes has zeros above them. -/
theorem le_pad (n : ℕ) (h : v < 256 ^ m) : le (m + n) v = le m v ++ List.replicate n 0 := by
  induction m generalizing v with
  | zero =>
    obtain rfl : v = 0 := by simpa using h
    rw [Nat.zero_add, le_zero]
    rfl
  | succ m ih =>
    have hv : v / 256 < 256 ^ m := Nat.div_lt_of_lt_mul (by rwa [← Nat.pow_succ'])
    rw [Nat.succ_add, le, le, ih hv, List.cons_append]

theorem ofBE_cons (a : ℕ) (bs : List ℕ) : ofBE (a :: bs) = a * 256 ^ bs.length + ofBE bs := by
  rw [ofBE, List.reverse_cons, Nat.ofDigits_append, Nat.ofDigits_singleton, List.length_reverse,
    Nat.add_comm, Nat.mul_comm]
  rfl

theorem ofBE_pad (bs : List ℕ) (n : ℕ) :
    ofBE (bs ++ List.replicate n 0) = ofBE bs * 256 ^ n := by
  rw [ofBE, List.reverse_append, List.reverse_replicate, Nat.ofDigits_append,
    Nat.ofDigits_replicate_zero, List.length_replicate, Nat.zero_add, Nat.mul_comm]
  rfl

/-- One byte moves from the low end to the high end. -/
theorem swap_succ (n v : ℕ) : swap (n + 1) v = v % 256 * 256 ^ n + swap n (v / 256) := by
  rw [swap, le, ofBE_cons, le_length]
  rfl

theorem swap_pad (n : ℕ) (h : v < 256 ^ m) : swap (m + n) v = swap m v * 256 ^ n := by
  rw [swap, le_pad n h, ofBE_pad]
  rfl

theorem swap_inj (hv : v < 256 ^ n) (hw : w < 256 ^ n) (h : swap n v = swap n w) : v = w := by
  apply le_inj hv hw
  apply List.reverse_injective
  exact Nat.ofDigits_inj_of_len_eq (by norm_num) (by simp)
    (fun b hb => le_lt n v b (List.mem_reverse.mp hb))
    (fun b hb => le_lt n w b (List.mem_reverse.mp hb)) h

section Shifts

theorem and_byte (v : ℕ) : v &&& 0xff = v % 256 := Nat.and_two_pow_sub_one_eq_mod v 8

theorem byte_lt (v : ℕ) : v &&& 0xff < 256 := by
  rw [and_byte]
  exact Nat.mod_lt v (by norm_num)

theorem le_eq_shift (n v : ℕ) : le n v = (List.range n).map fun i => (v >>> (8 * i)) &&& 0xff := by
  induction n generalizing v with
  | zero => rfl
  | succ n ih =>
    rw [le, ih, List.range_succ_eq_map, List.map_cons, List.map_map, and_byte]
    refine congrArg _ (List.map_congr_left fun i _ => ?_)
    have hv : v / 256 = v >>> 8 := (Nat.shiftRight_eq_div_pow v 8).symm
    rw [hv, ← Nat.shiftRight_add]
    congr 2
    omega

/-- Below a shifted number there is room for one byte. -/
theorem or_shift (h : a < 256) (v : ℕ) : a ||| (v <<< 8) = v * 256 + a := by
  rw [Nat.or_comm, ← Nat.shiftLeft_add_eq_or_of_lt (i := 8) h, Nat.shiftLeft_eq]

theorem ofDigits_cons_or (h : a < 256) (bs : List ℕ) :
    Nat.ofDigits 256 (a :: bs) = a ||| (Nat.ofDigits 256 bs <<< 8) := by
  rw [or_shift h, Nat.ofDigits_cons, Nat.mul_comm, Nat.add_comm]

end Shifts

end Dexdo.Bytes
