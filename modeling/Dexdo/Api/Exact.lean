import Dexdo.Api.Decimal

namespace Dexdo.Api

/-- A single plus sign in front is dropped. -/
def stripPlus : List Char → List Char
  | '+' :: tail => if tail.head? = some '+' then '+' :: tail else tail
  | value => value

/-- `BigUint::from_str`, by the documented grammar of its crate: decimal digits, with a plus sign in
front and underscores behind a digit let through. -/
def bigUintFromStr (value : List Char) : Option ℕ :=
  let s := stripPlus value
  if s.head? = some '_' then none else parseBytes (s.filter (· != '_'))

def MAX_DECIMALS : ℕ := 38

def U32_MAX : ℕ := 2 ^ 32 - 1

/-- An integer string as a decimal with `decimals` fractional digits; `0` gets a digit all the
same. -/
def scaleDecimal (raw : List Char) (decimals : ℕ) : Except DomainError (List Char) :=
  if MAX_DECIMALS < decimals then .error .marketInconsistent
  else
    match bigUintFromStr (if raw = [] then ['0'] else raw) with
    | none => .error .marketInconsistent
    | some canonical =>
      let raw := Nat.toDigits 10 canonical
      if decimals = 0 then .ok (raw ++ ['.', '0'])
      else if raw.length ≤ decimals then
        .ok ('0' :: '.' :: (List.replicate (decimals - raw.length) '0' ++ raw))
      else .ok (raw.take (raw.length - decimals) ++ '.' :: raw.drop (raw.length - decimals))

/-- A decimal string of the read model as a scaled number and the count of its fractional
digits. -/
def parseDecimalString (s : List Char) : Except DomainError (ℕ × ℕ) :=
  let normalized := trim s
  if normalized = [] then .error .marketInconsistent
  else
    let parts := splitPoint normalized
    if parts.1 = [] ∧ parts.2 = [] then .error .marketInconsistent
    else if ¬ (parts.1 ++ parts.2).all Char.isDigit then .error .marketInconsistent
    else match parseBytes (parts.1 ++ parts.2) with
      | none => .error .marketInconsistent
      | some value => .ok (value, parts.2.length)

def decimalStringIsZero (s : List Char) : Except DomainError Bool := do
  let (value, _) ← parseDecimalString s
  return value == 0

def decimalStringValidate (s : List Char) : Except DomainError Unit := do
  let _ ← parseDecimalString s
  return ()

/-- Order of two decimal strings at their common scale; the shift is a `u32`. -/
def decimalStringCmp (left right : List Char) : Except DomainError Ordering := do
  let (leftValue, leftScale) ← parseDecimalString left
  let (rightValue, rightScale) ← parseDecimalString right
  if leftScale < rightScale then
    if U32_MAX < rightScale - leftScale then .error .marketInconsistent
    else return compare (leftValue * 10 ^ (rightScale - leftScale)) rightValue
  else if rightScale < leftScale then
    if U32_MAX < leftScale - rightScale then .error .marketInconsistent
    else return compare leftValue (rightValue * 10 ^ (leftScale - rightScale))
  else return compare leftValue rightValue

def decimalStringLte (left right : List Char) : Except DomainError Bool := do
  return (← decimalStringCmp left right) != .gt

def decimalStringLt (left right : List Char) : Except DomainError Bool := do
  return (← decimalStringCmp left right) == .lt

/-- `t` is digits with at most one point: `whole` before it and `frac` behind it. -/
structure Numeral (t whole frac : List Char) : Prop where
  digits : (whole ++ frac).all Char.isDigit = true
  nonempty : whole ++ frac ≠ []
  shape : t = whole ++ '.' :: frac ∨ t = whole ∧ frac = []

/-- The number the digits stand for. -/
def ratOf (whole frac : List Char) : ℚ :=
  Nat.ofDigitChars 10 whole 0 + Nat.ofDigitChars 10 frac 0 / 10 ^ frac.length

/-- Between white space, `value` is the number `q` with `k` fractional digits. -/
def Reads (value : List Char) (k : ℕ) (q : ℚ) : Prop :=
  ∃ whole frac, Numeral (trim value) whole frac ∧ frac.length = k ∧ q = ratOf whole frac

section Parsing

variable {value t whole frac : List Char} {n k m : ℕ} {q r : ℚ}

theorem splitPoint_shape (t : List Char) : t = (splitPoint t).1 ++ '.' :: (splitPoint t).2 ∨
    t = (splitPoint t).1 ∧ (splitPoint t).2 = [] := by
  have ht := List.takeWhile_append_dropWhile (p := (· != '.')) (l := t)
  have hd : t.drop (t.takeWhile (· != '.')).length = t.dropWhile (· != '.') :=
    calc t.drop (t.takeWhile (· != '.')).length
        = (t.takeWhile (· != '.') ++ t.dropWhile (· != '.')).drop
            (t.takeWhile (· != '.')).length := by rw [ht]
      _ = t.dropWhile (· != '.') := List.drop_left
  have h2 : (splitPoint t).2 = (t.dropWhile (· != '.')).tail := by
    rw [← hd, List.tail_drop]
    rfl
  rw [h2]
  change t = t.takeWhile (· != '.') ++ _ ∨ t = t.takeWhile (· != '.') ∧ _
  cases hw : t.dropWhile (· != '.') with
  | nil =>
    rw [hw, List.append_nil] at ht
    exact .inr ⟨ht.symm, rfl⟩
  | cons c =>
    have hc : c = '.' := by
      have hne : t.dropWhile (· != '.') ≠ [] := by simp [hw]
      have := List.head_dropWhile_not (· != '.') hne
      simpa [hw] using this
    rw [hw, hc] at ht
    exact .inl ht.symm

theorem not_point_of_digit {c : Char} (h : c.isDigit = true) : (c != '.') = true := by
  rw [bne_iff_ne]
  rintro rfl
  exact absurd h (by decide)

theorem Numeral.split (h : Numeral t whole frac) : splitPoint t = (whole, frac) := by
  have hw : ∀ c ∈ whole, (c != '.') = true := fun c hc =>
    not_point_of_digit (List.all_eq_true.mp h.digits c (List.mem_append_left _ hc))
  rcases h.shape with rfl | ⟨rfl, rfl⟩
  · have : (whole ++ '.' :: frac).takeWhile (· != '.') = whole := by
      rw [List.takeWhile_append_of_pos hw]
      simp
    simp [splitPoint, this]
  · have : t.takeWhile (· != '.') = t := List.takeWhile_eq_self_iff.mpr hw
    simp [splitPoint, this]

theorem parseBytes_eq {ds : List Char} : parseBytes ds = some n ↔
    (ds ≠ [] ∧ ds.all Char.isDigit = true) ∧ n = Nat.ofDigitChars 10 ds 0 := by
  unfold parseBytes
  split_ifs with h
  · rw [Option.some.injEq, and_iff_right h, eq_comm]
  · constructor
    · intro hn
      cases hn
    · exact fun hn => absurd hn.1 h

theorem parseDecimalString_eq : parseDecimalString value = .ok (n, k) ↔
    ∃ whole frac, Numeral (trim value) whole frac ∧ frac.length = k ∧
      n = Nat.ofDigitChars 10 (whole ++ frac) 0 := by
  constructor
  · intro h
    simp only [parseDecimalString] at h
    split_ifs at h with h1 h2 h3
    split at h
    · cases h
    · rename_i x hx
      obtain ⟨⟨hne, hd⟩, rfl⟩ := parseBytes_eq.mp hx
      cases h
      exact ⟨_, _, ⟨hd, hne, splitPoint_shape _⟩, rfl, rfl⟩
  · rintro ⟨whole, frac, hn, rfl, rfl⟩
    have hne : trim value ≠ [] := by
      intro h0
      rcases hn.shape with hs | ⟨hs, rfl⟩
      · rw [h0] at hs
        exact List.append_ne_nil_of_right_ne_nil _ (List.cons_ne_nil _ _) hs.symm
      · exact hn.nonempty (by rw [← hs, h0, List.nil_append])
    have hparts : ¬ (whole = [] ∧ frac = []) := fun h => hn.nonempty (by simp [h])
    have hp := parseBytes_eq.mpr ⟨⟨hn.nonempty, hn.digits⟩, rfl⟩
    simp only [parseDecimalString, hn.split]
    rw [if_neg hne, if_neg hparts, if_neg (not_not.mpr hn.digits), hp]

/-- The parser of the requests reads the same up to its bound. -/
theorem parsePositiveDecimal_eq : parsePositiveDecimal value m = .ok (n, k) ↔
    parseDecimalString value = .ok (n, k) ∧ k ≤ m := by
  constructor
  · intro h
    refine ⟨parseDecimalString_eq.mpr ?_, parse_le h⟩
    simp only [parsePositiveDecimal] at h
    split_ifs at h with h1 h2 h3 h4
    split at h
    · cases h
    · rename_i x hx
      obtain ⟨⟨hne, hd⟩, rfl⟩ := parseBytes_eq.mp hx
      cases h
      exact ⟨_, _, ⟨hd, hne, splitPoint_shape _⟩, rfl, rfl⟩
  · rintro ⟨h, hk⟩
    obtain ⟨whole, frac, hn, rfl, rfl⟩ := parseDecimalString_eq.mp h
    simp only [parseDecimalString, hn.split] at h
    split_ifs at h with h1 h2 h3
    have hall : (trim value).all (fun c => c.isDigit || c == '.') = true := by
      have hw : ∀ c ∈ whole ++ frac, c.isDigit = true := List.all_eq_true.mp hn.digits
      rw [List.all_eq_true]
      intro c hc
      rcases hn.shape with hs | ⟨hs, rfl⟩
      · rw [hs, List.mem_append, List.mem_cons] at hc
        rcases hc with hc | rfl | hc
        · simp [hw c (List.mem_append_left _ hc)]
        · rfl
        · simp [hw c (List.mem_append_right _ hc)]
      · rw [hs] at hc
        simp [hw c (List.mem_append_left _ hc)]
    have hp := parseBytes_eq.mpr ⟨⟨hn.nonempty, hn.digits⟩, rfl⟩
    simp only [parsePositiveDecimal, hn.split]
    rw [if_neg h1, if_neg (not_not.mpr hall), if_neg h2, if_neg (not_lt.mpr hk), hp]

theorem ratOf_eq (whole frac : List Char) :
    ratOf whole frac = Nat.ofDigitChars 10 (whole ++ frac) 0 / 10 ^ frac.length := by
  have h10 : (10 : ℚ) ^ frac.length ≠ 0 := by positivity
  have hsplit : Nat.ofDigitChars 10 (whole ++ frac) 0 =
      10 ^ frac.length * Nat.ofDigitChars 10 whole 0 + Nat.ofDigitChars 10 frac 0 := by
    rw [Nat.ofDigitChars_append]
    exact Nat.ofDigitChars_eq_ofDigitChars_zero
  rw [ratOf, hsplit, Nat.cast_add, Nat.cast_mul, Nat.cast_pow, Nat.cast_ofNat, add_div,
    mul_div_cancel_left₀ _ h10]

theorem reads_iff : Reads value k q ↔
    ∃ n, parseDecimalString value = .ok (n, k) ∧ q = n / 10 ^ k := by
  constructor
  · rintro ⟨whole, frac, hn, rfl, rfl⟩
    exact ⟨_, parseDecimalString_eq.mpr ⟨whole, frac, hn, rfl, rfl⟩, ratOf_eq whole frac⟩
  · rintro ⟨n, hp, rfl⟩
    obtain ⟨whole, frac, hn, rfl, rfl⟩ := parseDecimalString_eq.mp hp
    exact ⟨whole, frac, hn, rfl, (ratOf_eq whole frac).symm⟩

end Parsing

section Arithmetic

variable {value step left right price quantity minNotional : List Char} {n k t x : ℕ} {q r : ℚ}
  {b : Bool} {o : Ordering}

theorem lift_iff : liftDecimal value t = .ok x ↔
    ∃ k q, Reads value k q ∧ k ≤ t ∧ (x : ℚ) = q * 10 ^ t := by
  have h10 (k : ℕ) : (10 : ℚ) ^ k ≠ 0 := by positivity
  have hpow {n k : ℕ} (hk : k ≤ t) : ((n * 10 ^ (t - k) : ℕ) : ℚ) = n / 10 ^ k * 10 ^ t := by
    rw [div_mul_eq_mul_div, eq_div_iff (h10 k)]
    push_cast
    rw [mul_assoc, ← pow_add, Nat.sub_add_cancel hk]
  rw [lift_eq_ok]
  constructor
  · rintro ⟨n, k, hp, rfl⟩
    obtain ⟨hs, hk⟩ := parsePositiveDecimal_eq.mp hp
    exact ⟨k, _, reads_iff.mpr ⟨n, hs, rfl⟩, hk, hpow hk⟩
  · rintro ⟨k, q, hq, hk, hx⟩
    obtain ⟨n, hs, rfl⟩ := reads_iff.mp hq
    refine ⟨n, k, parsePositiveDecimal_eq.mpr ⟨hs, hk⟩, ?_⟩
    rw [← hpow hk] at hx
    exact_mod_cast hx

theorem count_iff : countDecimals value = .ok k ↔
    (∃ q, Reads value k q) ∧ k ≤ MAX_DECIMAL_DIGITS := by
  rw [count_eq_ok]
  constructor
  · rintro ⟨n, hp⟩
    obtain ⟨hs, hk⟩ := parsePositiveDecimal_eq.mp hp
    exact ⟨⟨_, reads_iff.mpr ⟨n, hs, rfl⟩⟩, hk⟩
  · rintro ⟨⟨q, hq⟩, hk⟩
    obtain ⟨n, hs, -⟩ := reads_iff.mp hq
    exact ⟨n, parsePositiveDecimal_eq.mpr ⟨hs, hk⟩⟩

theorem Reads.unique {j : ℕ} (hq : Reads value k q) (hr : Reads value j r) : k = j ∧ q = r := by
  obtain ⟨n, hn, rfl⟩ := reads_iff.mp hq
  obtain ⟨m, hm, rfl⟩ := reads_iff.mp hr
  rw [hn] at hm
  cases hm
  exact ⟨rfl, rfl⟩

theorem Reads.lift (hq : Reads value k q) (hk : k ≤ t) :
    ∃ x, liftDecimal value t = .ok x ∧ (x : ℚ) = q * 10 ^ t := by
  obtain ⟨n, hs, -⟩ := reads_iff.mp hq
  have hp := lift_eq_ok.mpr ⟨n, k, parsePositiveDecimal_eq.mpr ⟨hs, hk⟩, rfl⟩
  obtain ⟨j, r, hr, -, hx⟩ := lift_iff.mp hp
  obtain ⟨-, rfl⟩ := hq.unique hr
  exact ⟨_, hp, hx⟩

/-- Whether one decimal is a multiple of another. -/
theorem isMultipleOf_iff : isMultipleOf value step = .ok b ↔
    ∃ k j q r, (Reads value k q ∧ k ≤ MAX_DECIMAL_DIGITS) ∧
      (Reads step j r ∧ j ≤ MAX_DECIMAL_DIGITS) ∧ r ≠ 0 ∧ (b = true ↔ ∃ m : ℕ, q = m * r) := by
  have h10 (k : ℕ) : (10 : ℚ) ^ k ≠ 0 := by positivity
  have hdvd {q r : ℚ} {v s c : ℕ} (hv : (v : ℚ) = q * 10 ^ c) (hs : (s : ℚ) = r * 10 ^ c) :
      (v % s == 0) = true ↔ ∃ m : ℕ, q = m * r := by
    rw [beq_iff_eq, ← Nat.dvd_iff_mod_eq_zero]
    constructor
    · rintro ⟨m, hm⟩
      refine ⟨m, mul_right_cancel₀ (h10 c) ?_⟩
      rw [← hv, hm, Nat.cast_mul, hs]
      ring
    · rintro ⟨m, rfl⟩
      refine ⟨m, ?_⟩
      have : (v : ℚ) = ((s * m : ℕ) : ℚ) := by
        rw [hv, Nat.cast_mul, hs]
        ring
      exact_mod_cast this
  have hzero {r : ℚ} {s c : ℕ} (hs : (s : ℚ) = r * 10 ^ c) : s = 0 ↔ r = 0 := by
    rw [← Nat.cast_eq_zero (R := ℚ), hs, mul_eq_zero, or_iff_left (h10 c)]
  constructor
  · intro h
    obtain ⟨k, hk, h⟩ := bind_eq_ok.mp h
    obtain ⟨j, hj, h⟩ := bind_eq_ok.mp h
    obtain ⟨v, hv, h⟩ := bind_eq_ok.mp h
    obtain ⟨s, hs, h⟩ := bind_eq_ok.mp h
    split_ifs at h with h0
    obtain ⟨⟨q, hq⟩, hk⟩ := count_iff.mp hk
    obtain ⟨⟨r, hr⟩, hj⟩ := count_iff.mp hj
    obtain ⟨k', q', hq', -, hv⟩ := lift_iff.mp hv
    obtain ⟨j', r', hr', -, hs⟩ := lift_iff.mp hs
    obtain ⟨-, rfl⟩ := hq.unique hq'
    obtain ⟨-, rfl⟩ := hr.unique hr'
    refine ⟨k, j, q, r, ⟨hq, hk⟩, ⟨hr, hj⟩, fun hr0 => h0 ((hzero hs).mpr hr0), ?_⟩
    rw [← Except.ok.inj h]
    exact hdvd hv hs
  · rintro ⟨k, j, q, r, ⟨hq, hk⟩, ⟨hr, hj⟩, hr0, hb⟩
    obtain ⟨v, hv, hvq⟩ := hq.lift (le_max_left k j)
    obtain ⟨s, hs, hsr⟩ := hr.lift (le_max_right k j)
    have hc := count_iff.mpr ⟨⟨q, hq⟩, hk⟩
    have hd := count_iff.mpr ⟨⟨r, hr⟩, hj⟩
    refine bind_eq_ok.mpr ⟨k, hc, bind_eq_ok.mpr ⟨j, hd, bind_eq_ok.mpr ⟨v, hv,
      bind_eq_ok.mpr ⟨s, hs, ?_⟩⟩⟩⟩
    rw [if_neg (fun h0 => hr0 ((hzero hsr).mp h0))]
    exact congrArg Except.ok (Bool.eq_iff_iff.mpr ((hdvd hvq hsr).trans hb.symm))

/-- Whether a notional reaches the minimum; its scale fits a byte. -/
theorem notionalMeetsMinimum_iff : notionalMeetsMinimum price quantity minNotional = .ok b ↔
    ∃ i j k p q w, (Reads price i p ∧ i ≤ MAX_DECIMAL_DIGITS) ∧
      (Reads quantity j q ∧ j ≤ MAX_DECIMAL_DIGITS) ∧
      (Reads minNotional k w ∧ k ≤ MAX_DECIMAL_DIGITS) ∧ max (i + j) k < 2 ^ 8 ∧
      (b = true ↔ w ≤ p * q) := by
  have hle {p q w : ℚ} {u v m i j c : ℕ} (hu : (u : ℚ) = p * 10 ^ i) (hv : (v : ℚ) = q * 10 ^ j)
      (hm : (m : ℚ) = w * 10 ^ c) (hc : i + j ≤ c) :
      decide (m ≤ u * v * 10 ^ (c - (i + j))) = true ↔ w ≤ p * q := by
    have h10 : (0 : ℚ) < 10 ^ c := by positivity
    have hprod : ((u * v * 10 ^ (c - (i + j)) : ℕ) : ℚ) = p * q * 10 ^ c := by
      push_cast
      calc (u : ℚ) * v * 10 ^ (c - (i + j))
          = p * q * (10 ^ (i + j) * 10 ^ (c - (i + j))) := by rw [hu, hv]; ring
        _ = p * q * 10 ^ c := by rw [← pow_add, Nat.add_sub_cancel' hc]
    rw [decide_eq_true_eq, ← Nat.cast_le (α := ℚ), hm, hprod]
    exact mul_le_mul_iff_left₀ h10
  have hsmall {i j k : ℕ} (hi : i ≤ MAX_DECIMAL_DIGITS) (hj : j ≤ MAX_DECIMAL_DIGITS)
      (hk : k ≤ MAX_DECIMAL_DIGITS) : max (i + j) k < 2 ^ 8 := by
    unfold MAX_DECIMAL_DIGITS at hi hj hk
    omega
  constructor
  · intro h
    obtain ⟨i, hi, h⟩ := bind_eq_ok.mp h
    obtain ⟨j, hj, h⟩ := bind_eq_ok.mp h
    obtain ⟨k, hk, h⟩ := bind_eq_ok.mp h
    obtain ⟨u, hu, h⟩ := bind_eq_ok.mp h
    obtain ⟨v, hv, h⟩ := bind_eq_ok.mp h
    obtain ⟨m, hm, h⟩ := bind_eq_ok.mp h
    obtain ⟨⟨p, hp⟩, hi⟩ := count_iff.mp hi
    obtain ⟨⟨q, hq⟩, hj⟩ := count_iff.mp hj
    obtain ⟨⟨w, hw⟩, hk⟩ := count_iff.mp hk
    obtain ⟨_, p', hp', -, hu⟩ := lift_iff.mp hu
    obtain ⟨_, q', hq', -, hv⟩ := lift_iff.mp hv
    obtain ⟨_, w', hw', -, hm⟩ := lift_iff.mp hm
    obtain ⟨-, rfl⟩ := hp.unique hp'
    obtain ⟨-, rfl⟩ := hq.unique hq'
    obtain ⟨-, rfl⟩ := hw.unique hw'
    refine ⟨i, j, k, p, q, w, ⟨hp, hi⟩, ⟨hq, hj⟩, ⟨hw, hk⟩, hsmall hi hj hk, ?_⟩
    rw [← Except.ok.inj h]
    exact hle hu hv hm (le_max_left _ _)
  · rintro ⟨i, j, k, p, q, w, ⟨hp, hi⟩, ⟨hq, hj⟩, ⟨hw, hk⟩, -, hb⟩
    obtain ⟨u, hu, hup⟩ := hp.lift le_rfl
    obtain ⟨v, hv, hvq⟩ := hq.lift le_rfl
    obtain ⟨m, hm, hmw⟩ := hw.lift (le_max_right (i + j) k)
    refine bind_eq_ok.mpr ⟨i, count_iff.mpr ⟨⟨p, hp⟩, hi⟩, bind_eq_ok.mpr ⟨j,
      count_iff.mpr ⟨⟨q, hq⟩, hj⟩, bind_eq_ok.mpr ⟨k, count_iff.mpr ⟨⟨w, hw⟩, hk⟩,
      bind_eq_ok.mpr ⟨u, hu, bind_eq_ok.mpr ⟨v, hv, bind_eq_ok.mpr ⟨m, hm, ?_⟩⟩⟩⟩⟩⟩
    exact congrArg Except.ok
      (Bool.eq_iff_iff.mpr ((hle hup hvq hmw (le_max_left _ _)).trans hb.symm))

theorem decimalStringIsZero_iff : decimalStringIsZero value = .ok b ↔
    ∃ k q, Reads value k q ∧ (b = true ↔ q = 0) := by
  have hzero (n k : ℕ) : (n == 0) = true ↔ (n : ℚ) / 10 ^ k = 0 := by
    have h10 : (10 : ℚ) ^ k ≠ 0 := by positivity
    rw [beq_iff_eq, div_eq_zero_iff, or_iff_left h10, Nat.cast_eq_zero]
  constructor
  · intro h
    obtain ⟨⟨n, k⟩, hp, h⟩ := bind_eq_ok.mp h
    refine ⟨k, _, reads_iff.mpr ⟨n, hp, rfl⟩, ?_⟩
    rw [← Except.ok.inj h]
    exact hzero n k
  · rintro ⟨k, q, hq, hb⟩
    obtain ⟨n, hp, rfl⟩ := reads_iff.mp hq
    refine bind_eq_ok.mpr ⟨(n, k), hp, ?_⟩
    exact congrArg Except.ok (Bool.eq_iff_iff.mpr ((hzero n k).trans hb.symm))

theorem compare_scaled {n m : ℕ} {c : ℚ} (hc : 0 < c) (hn : (n : ℚ) = q * c)
    (hm : (m : ℚ) = r * c) : compare n m = o ↔ o.Compares q r := by
  have hlt {n m : ℕ} {q r : ℚ} (hn : (n : ℚ) = q * c) (hm : (m : ℚ) = r * c) : n < m ↔ q < r := by
    rw [← Nat.cast_lt (α := ℚ), hn, hm]
    exact mul_lt_mul_iff_left₀ hc
  have heq : n = m ↔ q = r := by
    rw [← Nat.cast_inj (R := ℚ), hn, hm]
    exact mul_left_inj' hc.ne'
  rw [compare_iff]
  cases o with
  | lt => exact hlt hn hm
  | eq => exact heq
  | gt => exact hlt hm hn

/-- The comparison is that of the numbers, for scales a `u32` apart. -/
theorem decimalStringCmp_iff : decimalStringCmp left right = .ok o ↔
    ∃ k j q r, Reads left k q ∧ Reads right j r ∧ k ≤ j + U32_MAX ∧ j ≤ k + U32_MAX ∧
      o.Compares q r := by
  have hshift {n k j : ℕ} (h : k ≤ j) :
      ((n * 10 ^ (j - k) : ℕ) : ℚ) = n / 10 ^ k * 10 ^ j := by
    have h10 : (10 : ℚ) ^ k ≠ 0 := by positivity
    rw [div_mul_eq_mul_div, eq_div_iff h10]
    push_cast
    rw [mul_assoc, ← pow_add, Nat.sub_add_cancel h]
  have hplain {n k : ℕ} : (n : ℚ) = n / 10 ^ k * 10 ^ k :=
    (div_mul_cancel₀ _ (by positivity)).symm
  have hpow (k : ℕ) : (0 : ℚ) < 10 ^ k := by positivity
  -- the two parses leave a comparison of scaled numbers
  have hcore {n m k j : ℕ} (hl : parseDecimalString left = .ok (n, k))
      (hr : parseDecimalString right = .ok (m, j)) : decimalStringCmp left right = .ok o ↔
        k ≤ j + U32_MAX ∧ j ≤ k + U32_MAX ∧ o.Compares ((n : ℚ) / 10 ^ k) (m / 10 ^ j) := by
    unfold decimalStringCmp
    rw [hl, hr]
    simp only [bind, Except.bind, pure, Except.pure]
    rcases lt_trichotomy k j with h | rfl | h
    · rw [if_pos h]
      by_cases hb : U32_MAX < j - k
      · rw [if_pos hb]
        constructor
        · intro h
          cases h
        · intro h
          omega
      · rw [if_neg hb, Except.ok.injEq, compare_scaled (hpow j) (hshift h.le) hplain]
        constructor
        · exact fun ho => ⟨by omega, by omega, ho⟩
        · exact fun ho => ho.2.2
    · rw [if_neg (lt_irrefl k), if_neg (lt_irrefl k), Except.ok.injEq,
        compare_scaled (hpow k) hplain hplain]
      constructor
      · exact fun ho => ⟨Nat.le_add_right _ _, Nat.le_add_right _ _, ho⟩
      · exact fun ho => ho.2.2
    · rw [if_neg h.not_gt, if_pos h]
      by_cases hb : U32_MAX < k - j
      · rw [if_pos hb]
        constructor
        · intro h
          cases h
        · intro h
          omega
      · rw [if_neg hb, Except.ok.injEq, compare_scaled (hpow k) hplain (hshift h.le)]
        constructor
        · exact fun ho => ⟨by omega, by omega, ho⟩
        · exact fun ho => ho.2.2
  constructor
  · intro h
    obtain ⟨⟨n, k⟩, hl, h'⟩ := bind_eq_ok.mp h
    obtain ⟨⟨m, j⟩, hr, -⟩ := bind_eq_ok.mp h'
    obtain ⟨h1, h2, ho⟩ := (hcore hl hr).mp h
    exact ⟨k, j, _, _, reads_iff.mpr ⟨n, hl, rfl⟩, reads_iff.mpr ⟨m, hr, rfl⟩, h1, h2, ho⟩
  · rintro ⟨k, j, q, r, hq, hr, h1, h2, ho⟩
    obtain ⟨n, hl, rfl⟩ := reads_iff.mp hq
    obtain ⟨m, hm, rfl⟩ := reads_iff.mp hr
    exact (hcore hl hm).mpr ⟨h1, h2, ho⟩

end Arithmetic

section Integers

variable {raw s : List Char} {k n p x : ℕ}

/-- Between white space, `raw` is the digits of the integer `n`. -/
def Integral (raw : List Char) (n : ℕ) : Prop :=
  trim raw ≠ [] ∧ (∀ c ∈ trim raw, c.isDigit = true) ∧ n = Nat.ofDigitChars 10 (trim raw) 0

theorem trim_eq_self (h : ∀ c ∈ s, isWhite c = false) : trim s = s := by
  have hw : ∀ c ∈ s, ¬ isWhite c = true := fun c hc => by simp [h c hc]
  rw [trim, List.dropWhile_eq_self_iff.mpr, List.rdropWhile_eq_self_iff]
  · exact fun hl => hw _ (List.getLast_mem hl)
  · exact fun hl => hw _ (List.getElem_mem hl)

theorem integral_toDigits (n : ℕ) : Integral (Nat.toDigits 10 n) n := by
  rw [Integral, trim_toDigits]
  exact ⟨Nat.toDigits_ne_nil, List.all_eq_true.mp (toDigits_all n),
    Nat.ofDigitChars_ten_toDigits.symm⟩

/-- Dropping digits divides, when they are all zeros. -/
theorem descale_digits (h : ∀ c ∈ s, c.isDigit = true) (k : ℕ) :
    (10 ^ k ∣ Nat.ofDigitChars 10 s 0 ↔ ∀ c ∈ s.drop (s.length - k), c = '0') ∧
      ((∀ c ∈ s.drop (s.length - k), c = '0') →
        Nat.ofDigitChars 10 (s.take (s.length - k)) 0 = Nat.ofDigitChars 10 s 0 / 10 ^ k) := by
  have hdrop : ∀ c ∈ s.drop (s.length - k), c.isDigit = true := fun c hc =>
    h c (List.mem_of_mem_drop hc)
  have hlt := Decimal.ofDigitChars_lt hdrop
  have hzero := Decimal.ofDigitChars_eq_zero hdrop
  have hsplit : Nat.ofDigitChars 10 s 0 =
      10 ^ (s.drop (s.length - k)).length * Nat.ofDigitChars 10 (s.take (s.length - k)) 0 +
        Nat.ofDigitChars 10 (s.drop (s.length - k)) 0 := by
    conv_lhs => rw [← List.take_append_drop (s.length - k) s, Nat.ofDigitChars_append]
    exact Nat.ofDigitChars_eq_ofDigitChars_zero
  rw [← hzero, hsplit]
  by_cases hk : k ≤ s.length
  · have hlen : (s.drop (s.length - k)).length = k := by
      rw [List.length_drop]
      omega
    rw [hlen] at hlt ⊢
    refine ⟨?_, fun h0 => ?_⟩
    · rw [Nat.dvd_add_right (Nat.dvd_mul_right _ _)]
      refine ⟨fun hd => Nat.eq_zero_of_dvd_of_lt hd hlt, fun h0 => ?_⟩
      rw [h0]
      exact Nat.dvd_zero _
    · rw [h0, Nat.add_zero, Nat.mul_div_cancel_left _ (by positivity)]
  · have hz : s.length - k = 0 := by omega
    rw [hz, List.take_zero, List.drop_zero, Nat.ofDigitChars_nil, Nat.mul_zero, Nat.zero_add]
    rw [hz, List.drop_zero] at hlt
    have hlt' := hlt.trans_le (Nat.pow_le_pow_right (by decide) (le_of_not_ge hk))
    refine ⟨⟨fun hd => Nat.eq_zero_of_dvd_of_lt hd hlt', fun h0 => ?_⟩, fun h0 => ?_⟩
    · rw [h0]
      exact Nat.dvd_zero _
    · rw [h0, Nat.zero_div]

theorem descalePow10_ok (hne : trim raw ≠ []) (hd : ∀ c ∈ trim raw, c.isDigit = true)
    (hz : ∀ c ∈ (trim raw).drop ((trim raw).length - k), c = '0') :
    descalePow10 raw k = .ok (if (trim raw).take ((trim raw).length - k) = [] then ['0']
      else (trim raw).take ((trim raw).length - k)) := by
  have hin : ¬ (trim raw = [] ∨ ¬ (trim raw).all Char.isDigit = true) :=
    not_or.mpr ⟨hne, not_not.mpr (List.all_eq_true.mpr hd)⟩
  have hany : ¬ ((trim raw).drop ((trim raw).length - k)).any (· != '0') = true := by
    simpa using hz
  rw [descalePow10, if_neg hin]
  by_cases hk : k = 0
  · subst hk
    rw [if_pos rfl, Nat.sub_zero, List.take_length, if_neg hne]
  · rw [if_neg hk]
    dsimp only
    rw [if_neg hany]
    split_ifs <;> rfl

theorem descalePow10_error (hne : trim raw ≠ []) (hd : ∀ c ∈ trim raw, c.isDigit = true)
    (hz : ¬ ∀ c ∈ (trim raw).drop ((trim raw).length - k), c = '0') :
    descalePow10 raw k = .error .marketInconsistent := by
  have hin : ¬ (trim raw = [] ∨ ¬ (trim raw).all Char.isDigit = true) :=
    not_or.mpr ⟨hne, not_not.mpr (List.all_eq_true.mpr hd)⟩
  have hany : ((trim raw).drop ((trim raw).length - k)).any (· != '0') = true := by
    simpa using hz
  have hk : k ≠ 0 := by
    rintro rfl
    rw [Nat.sub_zero, List.drop_length] at hz
    exact hz fun _ hc => absurd hc List.not_mem_nil
  rw [descalePow10, if_neg hin, if_neg hk]
  dsimp only
  rw [if_pos hany]

theorem descalePow10_iff :
    (∃ s, descalePow10 raw k = .ok s) ↔ ∃ n, Integral raw n ∧ 10 ^ k ∣ n := by
  constructor
  · rintro ⟨s, hs⟩
    have hin : trim raw ≠ [] ∧ ∀ c ∈ trim raw, c.isDigit = true := by
      by_contra hin
      have : trim raw = [] ∨ ¬ (trim raw).all Char.isDigit = true := by
        rw [← List.all_eq_true] at hin
        tauto
      rw [descalePow10, if_pos this] at hs
      cases hs
    refine ⟨_, ⟨hin.1, hin.2, rfl⟩, (descale_digits hin.2 k).1.mpr ?_⟩
    by_contra hz
    rw [descalePow10_error hin.1 hin.2 hz] at hs
    cases hs
  · rintro ⟨n, ⟨hne, hd, rfl⟩, hdvd⟩
    have hz := (descale_digits hd k).1.mp hdvd
    exact ⟨_, descalePow10_ok hne hd hz⟩

theorem descalePow10_value (hs : descalePow10 raw k = .ok s) (hn : Integral raw n) :
    Integral s (n / 10 ^ k) := by
  obtain ⟨hne, hd, rfl⟩ := hn
  have hz : ∀ c ∈ (trim raw).drop ((trim raw).length - k), c = '0' := by
    by_contra hz
    rw [descalePow10_error hne hd hz] at hs
    cases hs
  rw [descalePow10_ok hne hd hz] at hs
  split_ifs at hs with hnil
  · cases hs
    rw [← (descale_digits hd k).2 hz, hnil]
    exact integral_toDigits 0
  · cases hs
    have htake : ∀ c ∈ (trim raw).take ((trim raw).length - k), c.isDigit = true := fun c hc =>
      hd c (List.mem_of_mem_take hc)
    rw [Integral, trim_eq_self fun c hc => isWhite_of_isDigit (htake c hc)]
    exact ⟨hnil, htake, ((descale_digits hd k).2 hz).symm⟩

theorem parse_fixed (p n : ℕ) : parseDecimalString (Decimal.fixed p n) = .ok (n, p) := by
  have hd : ∀ c ∈ Nat.toDigits 10 (n / 10 ^ p), c.isDigit = true :=
    List.all_eq_true.mp (toDigits_all _)
  rw [parseDecimalString_eq]
  by_cases hp : p = 0
  · subst hp
    rw [pow_zero, Nat.div_one] at hd
    refine ⟨Nat.toDigits 10 n, [], ⟨?_, ?_, .inr ⟨?_, rfl⟩⟩, rfl, ?_⟩
    · rw [List.append_nil]
      exact toDigits_all n
    · rw [List.append_nil]
      exact Nat.toDigits_ne_nil
    · rw [Decimal.fixed, if_pos rfl, trim_toDigits]
    · rw [List.append_nil, Nat.ofDigitChars_ten_toDigits]
  · have htrim : trim (Decimal.fixed p n) = Decimal.fixed p n := by
      refine trim_eq_self fun c hc => ?_
      rw [Decimal.fixed, if_neg hp, List.mem_append, List.mem_cons] at hc
      rcases hc with hc | rfl | hc
      · exact isWhite_of_isDigit (hd c hc)
      · decide
      · exact isWhite_of_isDigit (Decimal.isDigit_lastDigits p n c hc)
    refine ⟨Nat.toDigits 10 (n / 10 ^ p), Decimal.lastDigits p n, ⟨?_, ?_, .inl ?_⟩,
      Decimal.length_lastDigits p n, (Decimal.ofDigitChars_fixed p n).symm⟩
    · rw [List.all_append, toDigits_all, Bool.true_and]
      exact List.all_eq_true.mpr (Decimal.isDigit_lastDigits p n)
    · exact List.append_ne_nil_of_left_ne_nil Nat.toDigits_ne_nil _
    · rw [htrim, Decimal.fixed, if_neg hp]

theorem cmp_fixed (p n m : ℕ) :
    decimalStringCmp (Decimal.fixed p n) (Decimal.fixed p m) = .ok (compare n m) := by
  rw [decimalStringCmp, parse_fixed, parse_fixed]
  simp only [bind, Except.bind, lt_irrefl, if_false, pure, Except.pure]

theorem isZero_toDigits (n : ℕ) : decimalStringIsZero (Nat.toDigits 10 n) = .ok (n == 0) := by
  have := parse_fixed 0 n
  rw [Decimal.fixed, if_pos rfl] at this
  rw [decimalStringIsZero, this]
  rfl

theorem lift_fixed (p n : ℕ) : liftDecimal (Decimal.fixed p n) p = .ok n := by
  refine lift_eq_ok.mpr ⟨n, p, parsePositiveDecimal_eq.mpr ⟨parse_fixed p n, le_rfl⟩, ?_⟩
  rw [Nat.sub_self, pow_zero, Nat.mul_one]

theorem bigUintFromStr_toDigits (n : ℕ) : bigUintFromStr (Nat.toDigits 10 n) = some n := by
  have hd : ∀ c ∈ Nat.toDigits 10 n, c.isDigit = true := List.all_eq_true.mp (toDigits_all n)
  obtain ⟨c, l, hl⟩ := List.exists_cons_of_ne_nil (Nat.toDigits_ne_nil (b := 10) (n := n))
  have hc : c.isDigit = true := hd c (by rw [hl]; exact List.mem_cons_self)
  have hplus : c ≠ '+' := by
    rintro rfl
    exact absurd hc (by decide)
  have hunder : ∀ x ∈ c :: l, (x != '_') = true := by
    intro x hx
    rw [bne_iff_ne]
    rintro rfl
    exact absurd (hd _ (hl ▸ hx)) (by decide)
  have hhead : ¬ (c :: l).head? = some '_' := by
    intro h
    have := hunder c List.mem_cons_self
    rw [Option.some.inj h] at this
    exact absurd this (by decide)
  have hp : parseBytes (c :: l) = some n := by
    refine parseBytes_eq.mpr ⟨⟨List.cons_ne_nil c l, ?_⟩, ?_⟩
    · rw [← hl]
      exact toDigits_all n
    · rw [← hl, Nat.ofDigitChars_ten_toDigits]
  have hs : stripPlus (c :: l) = c :: l := by
    unfold stripPlus
    split
    · rename_i tail heq
      exact absurd (List.cons.inj heq).1 hplus
    · rfl
  rw [hl, bigUintFromStr, hs, if_neg hhead, List.filter_eq_self.mpr hunder, hp]

theorem scaleDecimal_toDigits (hp : p ≤ MAX_DECIMALS) (n : ℕ) :
    scaleDecimal (Nat.toDigits 10 n) p =
      .ok (if p = 0 then Nat.toDigits 10 n ++ ['.', '0'] else Decimal.fixed p n) := by
  rw [← scaleUint_toDigits, scaleDecimal, if_neg (not_lt.mpr hp), if_neg Nat.toDigits_ne_nil,
    bigUintFromStr_toDigits]
  unfold scaleUintToDecimal
  dsimp only
  split_ifs <;> rfl

theorem normalize_reads {value : List Char} {t : ℕ} (h : liftDecimal value t = .ok x) :
    ∃ s, normalizeDecimal value t = .ok s ∧ Reads s t ((x : ℚ) / 10 ^ t) ∧
      liftDecimal s t = .ok x :=
  ⟨_, normalize_of_lift h, reads_iff.mpr ⟨x, parse_fixed t x, rfl⟩, lift_fixed t x⟩

theorem normalize_error {value : List Char} {t : ℕ} {e : DomainError}
    (h : liftDecimal value t = .error e) : normalizeDecimal value t = .error e := by
  rw [normalizeDecimal, h]
  rfl

theorem parsePositiveDecimal_iff {value : List Char} {m : ℕ} :
    parsePositiveDecimal value m = .ok (n, k) ↔ ∃ whole frac, Numeral (trim value) whole frac ∧
      frac.length = k ∧ k ≤ m ∧ (n : ℚ) = ratOf whole frac * 10 ^ k := by
  have h10 (k : ℕ) : (10 : ℚ) ^ k ≠ 0 := by positivity
  rw [parsePositiveDecimal_eq, parseDecimalString_eq]
  constructor
  · rintro ⟨⟨whole, frac, hn, rfl, rfl⟩, hk⟩
    refine ⟨whole, frac, hn, rfl, hk, ?_⟩
    rw [ratOf_eq, div_mul_cancel₀ _ (h10 _)]
  · rintro ⟨whole, frac, hn, rfl, hk, hx⟩
    rw [ratOf_eq, div_mul_cancel₀ _ (h10 _)] at hx
    exact ⟨⟨whole, frac, hn, rfl, by exact_mod_cast hx⟩, hk⟩

end Integers

/-- The decimal strings of the API and of the read model are exact rational arithmetic. -/
theorem decimal_algebra_exact :
    (∀ value maxDecimals n k, parsePositiveDecimal value maxDecimals = .ok (n, k) ↔
      ∃ whole frac, Numeral (trim value) whole frac ∧ frac.length = k ∧ k ≤ maxDecimals ∧
        (n : ℚ) = ratOf whole frac * 10 ^ k) ∧
    (∀ value maxDecimals n k, parsePositiveDecimal value maxDecimals = .ok (n, k) ↔
      parseDecimalString value = .ok (n, k) ∧ k ≤ maxDecimals) ∧
    (∀ value t x, liftDecimal value t = .ok x ↔
      ∃ k q, Reads value k q ∧ k ≤ t ∧ (x : ℚ) = q * 10 ^ t) ∧
    (∀ value t, (∀ x, liftDecimal value t = .ok x → ∃ s, normalizeDecimal value t = .ok s ∧
        Reads s t ((x : ℚ) / 10 ^ t) ∧ liftDecimal s t = .ok x) ∧
      ∀ e, liftDecimal value t = .error e → normalizeDecimal value t = .error e) ∧
    (∀ value step b, isMultipleOf value step = .ok b ↔
      ∃ k j q r, (Reads value k q ∧ k ≤ MAX_DECIMAL_DIGITS) ∧
        (Reads step j r ∧ j ≤ MAX_DECIMAL_DIGITS) ∧ r ≠ 0 ∧ (b = true ↔ ∃ m : ℕ, q = m * r)) ∧
    (∀ price quantity minNotional b, notionalMeetsMinimum price quantity minNotional = .ok b ↔
      ∃ i j k p q w, (Reads price i p ∧ i ≤ MAX_DECIMAL_DIGITS) ∧
        (Reads quantity j q ∧ j ≤ MAX_DECIMAL_DIGITS) ∧
        (Reads minNotional k w ∧ k ≤ MAX_DECIMAL_DIGITS) ∧ max (i + j) k < 2 ^ 8 ∧
        (b = true ↔ w ≤ p * q)) ∧
    (∀ left right o, decimalStringCmp left right = .ok o ↔
      ∃ k j q r, Reads left k q ∧ Reads right j r ∧ k ≤ j + U32_MAX ∧ j ≤ k + U32_MAX ∧
        o.Compares q r) ∧
    (∀ value b, decimalStringIsZero value = .ok b ↔
      ∃ k q, Reads value k q ∧ (b = true ↔ q = 0)) ∧
    (∀ raw k, ((∃ s, descalePow10 raw k = .ok s) ↔ ∃ n, Integral raw n ∧ 10 ^ k ∣ n) ∧
      ∀ s n, descalePow10 raw k = .ok s → Integral raw n → Integral s (n / 10 ^ k)) ∧
    (∀ n scale, liftDecimal (scaleUintToDecimal (Nat.toDigits 10 n) scale) scale = .ok n) ∧
    ∀ n scale, scale ≤ MAX_DECIMALS →
      if scale = 0 then
        scaleDecimal (Nat.toDigits 10 n) scale = .ok (Nat.toDigits 10 n ++ ['.', '0'])
      else ∃ s, scaleDecimal (Nat.toDigits 10 n) scale = .ok s ∧ liftDecimal s scale = .ok n := by
  refine ⟨fun _ _ _ _ => parsePositiveDecimal_iff, fun _ _ _ _ => parsePositiveDecimal_eq,
    fun _ _ _ => lift_iff, fun _ _ => ⟨fun _ => normalize_reads, fun _ => normalize_error⟩,
    fun _ _ _ => isMultipleOf_iff, fun _ _ _ _ => notionalMeetsMinimum_iff,
    fun _ _ _ => decimalStringCmp_iff, fun _ _ => decimalStringIsZero_iff,
    fun _ _ => ⟨descalePow10_iff, fun _ _ => descalePow10_value⟩, fun n scale => ?_,
    fun n scale hs => ?_⟩
  · rw [scaleUint_toDigits]
    exact lift_fixed scale n
  · have hr := scaleDecimal_toDigits hs n
    split_ifs with h0
    · rw [hr, if_pos h0]
    · exact ⟨_, hr.trans (congrArg _ (if_neg h0)), lift_fixed scale n⟩

end Dexdo.Api
