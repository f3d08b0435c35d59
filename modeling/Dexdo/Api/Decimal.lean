import Dexdo.Lib.Decimal
import Mathlib.Data.List.DropRight
import Mathlib.Data.Rat.Defs

namespace Dexdo.Api

inductive DomainError
  | missingParameter
  | invalidParameter
  | precisionExceeded
  | orderValidationFailed
  | marketInconsistent
  | unexpected
  deriving DecidableEq, Repr

/-- Scale of an on-chain price: a price is kept in basis points. -/
def PRICE_BPS_DECIMALS : ℕ := 4

def MAX_DECIMAL_DIGITS : ℕ := 38

/-- White space as `str::trim` strips it. -/
def isWhite (c : Char) : Bool :=
  (9 ≤ c.toNat && c.toNat ≤ 13) || c.toNat == 0x20 || c.toNat == 0x85 || c.toNat == 0xA0 ||
    c.toNat == 0x1680 || (0x2000 ≤ c.toNat && c.toNat ≤ 0x200A) || c.toNat == 0x2028 ||
    c.toNat == 0x2029 || c.toNat == 0x202F || c.toNat == 0x205F || c.toNat == 0x3000

def trim (value : List Char) : List Char := (value.dropWhile isWhite).rdropWhile isWhite

/-- The parts before and after the first point; all and nothing without one. -/
def splitPoint (value : List Char) : List Char × List Char :=
  let intPart := value.takeWhile (· != '.')
  (intPart, value.drop (intPart.length + 1))

/-- `BigUint::parse_bytes` in base ten. -/
def parseBytes (value : List Char) : Option ℕ :=
  if value ≠ [] ∧ value.all Char.isDigit then some (Nat.ofDigitChars 10 value 0) else none

/-- A decimal string as a scaled number and the count of its fractional digits. -/
def parsePositiveDecimal (value : List Char) (maxDecimals : ℕ) : Except DomainError (ℕ × ℕ) :=
  let trimmed := trim value
  if trimmed = [] then .error .missingParameter
  else if ¬ trimmed.all fun c => c.isDigit || c == '.' then .error .invalidParameter
  else
    let parts := splitPoint trimmed
    if parts.1 = [] ∧ parts.2 = [] then .error .invalidParameter
    else if maxDecimals < parts.2.length then .error .precisionExceeded
    else match parseBytes (parts.1 ++ parts.2) with
      | none => .error .invalidParameter
      | some scaled => .ok (scaled, parts.2.length)

/-- The number at exactly `targetDecimals` fractional digits. -/
def liftDecimal (value : List Char) (targetDecimals : ℕ) : Except DomainError ℕ := do
  let (scaled, actual) ← parsePositiveDecimal value targetDecimals
  return scaled * 10 ^ (targetDecimals - actual)

/-- An integer string divided by `10 ^ k`, refused unless the dropped digits are zeros. -/
def descalePow10 (raw : List Char) (k : ℕ) : Except DomainError (List Char) :=
  let raw := trim raw
  if raw = [] ∨ ¬ raw.all Char.isDigit then .error .marketInconsistent
  else if k = 0 then .ok raw
  else
    let keep := raw.length - k
    if (raw.drop keep).any (· != '0') then .error .marketInconsistent
    else if raw.take keep = [] then .ok ['0']
    else .ok (raw.take keep)

def countDecimals (value : List Char) : Except DomainError ℕ := do
  let (_, dp) ← parsePositiveDecimal value MAX_DECIMAL_DIGITS
  return dp

def precisionWithin (value : List Char) (maxDecimals : ℕ) : Except DomainError Unit := do
  let _ ← parsePositiveDecimal value maxDecimals
  return ()

def isMultipleOf (value step : List Char) : Except DomainError Bool := do
  let valueDp ← countDecimals value
  let stepDp ← countDecimals step
  let scale := max valueDp stepDp
  let v ← liftDecimal value scale
  let s ← liftDecimal step scale
  if s = 0 then .error .invalidParameter else return v % s == 0

/-- A decimal string with exactly `targetDecimals` fractional digits. -/
def normalizeDecimal (value : List Char) (targetDecimals : ℕ) :
    Except DomainError (List Char) := do
  let scaled ← liftDecimal value targetDecimals
  if targetDecimals = 0 then return Nat.toDigits 10 scaled
  else
    let intPart := scaled / 10 ^ targetDecimals
    let fracStr := Nat.toDigits 10 (scaled % 10 ^ targetDecimals)
    return Nat.toDigits 10 intPart ++
      '.' :: (List.replicate (targetDecimals - fracStr.length) '0' ++ fracStr)

/-- Whether `price * quantity` is at least `minNotional`, at their common scale. -/
def notionalMeetsMinimum (price quantity minNotional : List Char) : Except DomainError Bool := do
  let priceDp ← countDecimals price
  let qtyDp ← countDecimals quantity
  let minDp ← countDecimals minNotional
  let p ← liftDecimal price priceDp
  let q ← liftDecimal quantity qtyDp
  let commonDp := max (priceDp + qtyDp) minDp
  let productScaled := p * q * 10 ^ (commonDp - (priceDp + qtyDp))
  let minScaled ← liftDecimal minNotional commonDp
  return decide (minScaled ≤ productScaled)

/-- An integer string with its last `scale` digits after the point. -/
def scaleUintToDecimal (raw : List Char) (scale : ℕ) : List Char :=
  if scale = 0 then raw
  else if raw.length ≤ scale then
    '0' :: '.' :: (List.replicate (scale - raw.length) '0' ++ raw)
  else raw.take (raw.length - scale) ++ '.' :: raw.drop (raw.length - scale)

section Values

/-- `value` is a decimal string for the number `q`. -/
def Worth (value : List Char) (q : ℚ) : Prop :=
  ∃ n k, parsePositiveDecimal value k = .ok (n, k) ∧ q = n / 10 ^ k

variable {value step price quantity minNotional : List Char} {t n k x y : ℕ} {q r w : ℚ}

theorem bind_eq_ok {α β ε : Type} {f : α → Except ε β} {o : Except ε α} {b : β} :
    o >>= f = .ok b ↔ ∃ a, o = .ok a ∧ f a = .ok b := by
  cases o with
  | error =>
    constructor
    · intro h
      cases h
    · rintro ⟨a, ha, -⟩
      cases ha
  | ok a =>
    constructor
    · exact fun h => ⟨a, rfl, h⟩
    · rintro ⟨a', ha, h⟩
      cases ha
      exact h

theorem parse_le (h : parsePositiveDecimal value t = .ok (n, k)) : k ≤ t := by
  simp only [parsePositiveDecimal] at h
  split_ifs at h with h1 h2 h3 h4
  split at h
  · cases h
  · simp only [Except.ok.injEq, Prod.mk.injEq] at h
    omega

theorem parse_bound {t' : ℕ} (h : parsePositiveDecimal value t = .ok (n, k)) (hk : k ≤ t') :
    parsePositiveDecimal value t' = .ok (n, k) := by
  simp only [parsePositiveDecimal] at h ⊢
  split_ifs at h with h1 h2 h3 h4
  have h5 : (splitPoint (trim value)).2.length = k := by
    split at h
    · cases h
    · simp only [Except.ok.injEq, Prod.mk.injEq] at h
      exact h.2
  rw [if_neg h1, if_neg (not_not.mpr h2), if_neg h3, if_neg (by omega)]
  exact h

theorem lift_eq_ok : liftDecimal value t = .ok x ↔
    ∃ n k, parsePositiveDecimal value t = .ok (n, k) ∧ x = n * 10 ^ (t - k) := by
  rw [liftDecimal, bind_eq_ok]
  constructor
  · rintro ⟨⟨n, k⟩, hp, hx⟩
    exact ⟨n, k, hp, (Except.ok.inj hx).symm⟩
  · rintro ⟨n, k, hp, rfl⟩
    exact ⟨(n, k), hp, rfl⟩

theorem count_eq_ok : countDecimals value = .ok k ↔
    ∃ n, parsePositiveDecimal value MAX_DECIMAL_DIGITS = .ok (n, k) := by
  rw [countDecimals, bind_eq_ok]
  constructor
  · rintro ⟨⟨n, k'⟩, hp, hk⟩
    cases hk
    exact ⟨n, hp⟩
  · rintro ⟨n, hp⟩
    exact ⟨(n, k), hp, rfl⟩

theorem Worth.unique (hq : Worth value q) (hr : Worth value r) : q = r := by
  obtain ⟨n, k, hn, rfl⟩ := hq
  obtain ⟨m, j, hm, rfl⟩ := hr
  have hle := le_total k j
  rcases hle with hle | hle
  · have := parse_bound hn hle
    rw [hm] at this
    cases this
    rfl
  · have := parse_bound hm hle
    rw [hn] at this
    cases this
    rfl

theorem Worth.lift (hq : Worth value q) (h : liftDecimal value t = .ok x) : (x : ℚ) = q * 10 ^ t := by
  obtain ⟨n, k, hp, rfl⟩ := lift_eq_ok.mp h
  have hk := parse_le hp
  have hw : Worth value (n / 10 ^ k) := ⟨n, k, parse_bound hp le_rfl, rfl⟩
  rw [hq.unique hw]
  have h10 : (10 : ℚ) ^ k ≠ 0 := by positivity
  push_cast
  rw [div_mul_eq_mul_div, eq_div_iff h10, mul_assoc, ← pow_add, Nat.sub_add_cancel hk]

theorem worth_of_parse (h : parsePositiveDecimal value t = .ok (n, k)) :
    Worth value (n / 10 ^ k) := ⟨n, k, parse_bound h le_rfl, rfl⟩

theorem worth_of_lift (h : liftDecimal value t = .ok x) : ∃ q, Worth value q := by
  obtain ⟨n, k, hp, -⟩ := lift_eq_ok.mp h
  exact ⟨_, worth_of_parse hp⟩

theorem lift_of_precision {d : ℕ} (h : precisionWithin value d = .ok ()) :
    ∃ x, liftDecimal value d = .ok x := by
  obtain ⟨⟨n, k⟩, hp, -⟩ := bind_eq_ok.mp h
  exact ⟨_, lift_eq_ok.mpr ⟨n, k, hp, rfl⟩⟩

theorem lift_mono {d : ℕ} (h : liftDecimal value d = .ok y) (hd : d ≤ t) :
    liftDecimal value t = .ok (y * 10 ^ (t - d)) := by
  obtain ⟨n, k, hp, rfl⟩ := lift_eq_ok.mp h
  have hk := parse_le hp
  refine lift_eq_ok.mpr ⟨n, k, parse_bound hp (hk.trans hd), ?_⟩
  rw [mul_assoc, ← pow_add]
  congr 2
  omega

theorem Worth.multiple (hq : Worth value q) (hr : Worth step r)
    (h : isMultipleOf value step = .ok true) : ∃ m : ℕ, q = m * r := by
  obtain ⟨d, -, h⟩ := bind_eq_ok.mp h
  obtain ⟨e, -, h⟩ := bind_eq_ok.mp h
  obtain ⟨v, hv, h⟩ := bind_eq_ok.mp h
  obtain ⟨s, hs, h⟩ := bind_eq_ok.mp h
  split_ifs at h with h0
  have hmod : v % s = 0 := by simpa using Except.ok.inj h
  have h10 : (10 : ℚ) ^ max d e ≠ 0 := by positivity
  refine ⟨v / s, mul_right_cancel₀ h10 ?_⟩
  rw [← hq.lift hv, mul_assoc, ← hr.lift hs, ← Nat.cast_mul,
    Nat.div_mul_cancel (Nat.dvd_of_mod_eq_zero hmod)]

theorem Worth.minimum (hp : Worth price q) (hq : Worth quantity r) (hm : Worth minNotional w)
    (h : notionalMeetsMinimum price quantity minNotional = .ok true) : w ≤ q * r := by
  obtain ⟨a, -, h⟩ := bind_eq_ok.mp h
  obtain ⟨b, -, h⟩ := bind_eq_ok.mp h
  obtain ⟨c, -, h⟩ := bind_eq_ok.mp h
  obtain ⟨p, hp', h⟩ := bind_eq_ok.mp h
  obtain ⟨u, hu, h⟩ := bind_eq_ok.mp h
  obtain ⟨v, hv, h⟩ := bind_eq_ok.mp h
  have hle : v ≤ p * u * 10 ^ (max (a + b) c - (a + b)) := by simpa using Except.ok.inj h
  have hle : (v : ℚ) ≤ p * u * 10 ^ (max (a + b) c - (a + b)) := by exact_mod_cast hle
  have h10 : (0 : ℚ) < 10 ^ max (a + b) c := by positivity
  rw [hm.lift hv, hp.lift hp', hq.lift hu] at hle
  refine le_of_mul_le_mul_right ?_ h10
  calc w * 10 ^ max (a + b) c
      ≤ q * 10 ^ a * (r * 10 ^ b) * 10 ^ (max (a + b) c - (a + b)) := hle
    _ = q * r * (10 ^ (a + b) * 10 ^ (max (a + b) c - (a + b))) := by ring
    _ = q * r * 10 ^ max (a + b) c := by rw [← pow_add, Nat.add_sub_cancel' (le_max_left _ _)]

end Values

section Display

variable {value : List Char} {t n k : ℕ}

theorem toDigits_all (n : ℕ) : (Nat.toDigits 10 n).all Char.isDigit = true :=
  List.all_eq_true.mpr fun _ hc => Nat.isDigit_of_mem_toDigits (by decide) (by decide) hc

theorem isWhite_of_isDigit {c : Char} (h : c.isDigit = true) : isWhite c = false := by
  have hc : 48 ≤ c.toNat ∧ c.toNat ≤ 57 := by
    simpa [Char.isDigit, UInt32.le_iff_toNat_le] using h
  simp only [isWhite, Bool.or_eq_false_iff, Bool.and_eq_false_iff, beq_eq_false_iff_ne,
    decide_eq_false_iff_not]
  omega

theorem trim_toDigits (n : ℕ) : trim (Nat.toDigits 10 n) = Nat.toDigits 10 n := by
  have hw : ∀ c ∈ Nat.toDigits 10 n, ¬ isWhite c = true := by
    intro c hc
    rw [isWhite_of_isDigit (Nat.isDigit_of_mem_toDigits (by decide) (by decide) hc)]
    decide
  rw [trim, List.dropWhile_eq_self_iff.mpr, List.rdropWhile_eq_self_iff]
  · exact fun hl => hw _ (List.getLast_mem hl)
  · exact fun hl => hw _ (List.getElem_mem hl)

theorem scaleUint_toDigits (n p : ℕ) :
    scaleUintToDecimal (Nat.toDigits 10 n) p = Decimal.fixed p n := by
  unfold scaleUintToDecimal
  by_cases hp : p = 0
  · rw [if_pos hp, Decimal.fixed, if_pos hp]
  · have hp' : 0 < p := Nat.pos_of_ne_zero hp
    rw [if_neg hp]
    by_cases hn : n < 10 ^ p
    · rw [if_pos ((Nat.length_toDigits_le_iff (by decide) hp').mpr hn), Decimal.fixed_of_lt hp' hn]
    · have hlen : ¬ (Nat.toDigits 10 n).length ≤ p :=
        fun h => hn ((Nat.length_toDigits_le_iff (by decide) hp').mp h)
      rw [if_neg hlen, Decimal.fixed_of_le hp' (Nat.le_of_not_lt hn)]

theorem normalize_of_lift {p x : ℕ} (h : liftDecimal value p = .ok x) :
    normalizeDecimal value p = .ok (Decimal.fixed p x) := by
  rw [normalizeDecimal, h]
  by_cases hp : p = 0
  · subst hp
    rfl
  · simp only [bind, Except.bind, if_neg hp]
    exact congrArg _ (Decimal.fixed_of_div (Nat.pos_of_ne_zero hp))

theorem descale_toDigits (n k : ℕ) :
    descalePow10 (Nat.toDigits 10 (n * 10 ^ k)) k = .ok (Nat.toDigits 10 n) := by
  have hdig : ¬ (Nat.toDigits 10 (n * 10 ^ k) = [] ∨
      ¬ (Nat.toDigits 10 (n * 10 ^ k)).all Char.isDigit = true) := by
    simp [toDigits_all]
  rw [descalePow10, trim_toDigits, if_neg hdig]
  by_cases hk : k = 0
  · subst hk
    simp
  · rw [if_neg hk]
    rcases Nat.eq_zero_or_pos n with rfl | hn
    · have hlen : 1 - k = 0 := by omega
      simp [hlen]
    · have hlen : (Nat.toDigits 10 n ++ List.replicate k '0').length - k =
          (Nat.toDigits 10 n).length := by simp
      rw [Decimal.toDigits_mul_pow hn]
      simp only [hlen, List.drop_left, List.take_left, Nat.toDigits_ne_nil, if_false]
      rw [if_neg (by simp)]

end Display

end Dexdo.Api
