import Dexdo.Lib.Bytes

namespace Dexdo.RootPN

open Bytes

/-- `_u64ToFr`: the bytes of the number, lowest first, in front of 24 zero bytes. -/
def u64ToFr (v : ℕ) : ℕ :=
  (((v >>> 56) &&& 0xff)
    ||| (((v >>> 48) &&& 0xff) <<< 8)
    ||| (((v >>> 40) &&& 0xff) <<< 16)
    ||| (((v >>> 32) &&& 0xff) <<< 24)
    ||| (((v >>> 24) &&& 0xff) <<< 32)
    ||| (((v >>> 16) &&& 0xff) <<< 40)
    ||| (((v >>> 8) &&& 0xff) <<< 48)
    ||| ((v &&& 0xff) <<< 56)) <<< 192

/-- `_u32ToFr`. -/
def u32ToFr (v : ℕ) : ℕ :=
  (((v >>> 24) &&& 0xff)
    ||| (((v >>> 16) &&& 0xff) <<< 8)
    ||| (((v >>> 8) &&& 0xff) <<< 16)
    ||| ((v &&& 0xff) <<< 24)) <<< 224

def FR_MODULUS : ℕ := 0x30644e72e131a029b85045b68181585d2833e84879b9709143e1f593f0000001

/-- The loop of `_u256ToFr` with the number of rounds left. -/
def swapBytes : ℕ → ℕ → ℕ → ℕ
  | 0, r, _ => r
  | i + 1, r, reduced => swapBytes i ((r <<< 8) ||| (reduced &&& 0xff)) (reduced >>> 8)

/-- `_u256ToFr`. -/
def u256ToFr (v : ℕ) : ℕ := swapBytes 32 0 (v % FR_MODULUS)

variable {v w : ℕ}

/-- Order of the scalar field of BN254, as the family of its curves gives it. -/
def bn254Order : ℕ :=
  let u := 4965661367192848881
  36 * u ^ 4 + 36 * u ^ 3 + 18 * u ^ 2 + 6 * u + 1

theorem modulus_eq : FR_MODULUS = bn254Order := by decide

theorem modulus_pos : 0 < FR_MODULUS := by decide

theorem modulus_lt : FR_MODULUS < 256 ^ 32 := by decide

theorem u64_lt (hv : v < 2 ^ 64) : v < FR_MODULUS := hv.trans (by decide)

theorem u32_lt (hv : v < 2 ^ 32) : v < FR_MODULUS := hv.trans (by decide)

theorem u64ToFr_eq (v : ℕ) : u64ToFr v = swap 8 v * 256 ^ 24 := by
  have hbytes : (le 8 v).reverse = [(v >>> 56) &&& 0xff, (v >>> 48) &&& 0xff, (v >>> 40) &&& 0xff,
      (v >>> 32) &&& 0xff, (v >>> 24) &&& 0xff, (v >>> 16) &&& 0xff, (v >>> 8) &&& 0xff,
      v &&& 0xff] := by
    rw [le_eq_shift]
    rfl
  have hpow : (256 : ℕ) ^ 24 = 2 ^ 192 := by norm_num
  unfold u64ToFr
  rw [hpow, ← Nat.shiftLeft_eq]
  congr 1
  rw [swap, ofBE, hbytes]
  simp only [ofDigits_cons_or (byte_lt _), Nat.ofDigits_nil, Nat.shiftLeft_or_distrib,
    ← Nat.shiftLeft_add, Nat.or_assoc, Nat.zero_shiftLeft, Nat.or_zero, Nat.reduceAdd]

theorem u32ToFr_eq (v : ℕ) : u32ToFr v = swap 4 v * 256 ^ 28 := by
  have hbytes : (le 4 v).reverse =
      [(v >>> 24) &&& 0xff, (v >>> 16) &&& 0xff, (v >>> 8) &&& 0xff, v &&& 0xff] := by
    rw [le_eq_shift]
    rfl
  have hpow : (256 : ℕ) ^ 28 = 2 ^ 224 := by norm_num
  unfold u32ToFr
  rw [hpow, ← Nat.shiftLeft_eq]
  congr 1
  rw [swap, ofBE, hbytes]
  simp only [ofDigits_cons_or (byte_lt _), Nat.ofDigits_nil, Nat.shiftLeft_or_distrib,
    ← Nat.shiftLeft_add, Nat.or_assoc, Nat.zero_shiftLeft, Nat.or_zero, Nat.reduceAdd]

theorem swapBytes_eq (i r reduced : ℕ) : swapBytes i r reduced = r * 256 ^ i + swap i reduced := by
  induction i generalizing r reduced with
  | zero => simp [swapBytes, swap, le, ofBE]
  | succ i ih =>
    have hround : (r <<< 8) ||| (reduced &&& 0xff) = r * 256 + reduced % 256 := by
      rw [Nat.or_comm, or_shift (byte_lt reduced), and_byte]
    have hrest : reduced >>> 8 = reduced / 256 := Nat.shiftRight_eq_div_pow reduced 8
    rw [swapBytes, ih, hround, hrest, swap_succ]
    ring

theorem u256ToFr_eq (v : ℕ) : u256ToFr v = swap 32 (v % FR_MODULUS) := by
  rw [u256ToFr, swapBytes_eq, Nat.zero_mul, Nat.zero_add]

theorem mod_lt (v : ℕ) : v % FR_MODULUS < 256 ^ 32 :=
  (Nat.mod_lt v modulus_pos).trans modulus_lt

theorem u256ToFr_eq_iff : u256ToFr v = u256ToFr w ↔ v ≡ w [MOD FR_MODULUS] := by
  rw [u256ToFr_eq, u256ToFr_eq]
  constructor
  · exact swap_inj (mod_lt v) (mod_lt w)
  · exact congrArg (swap 32)

theorem u256ToFr_inj (hv : v < FR_MODULUS) (hw : w < FR_MODULUS) (h : u256ToFr v = u256ToFr w) :
    v = w := (u256ToFr_eq_iff.mp h).eq_of_lt_of_lt hv hw

theorem u64ToFr_agrees (hv : v < 2 ^ 64) : u64ToFr v = u256ToFr v := by
  rw [u64ToFr_eq, u256ToFr_eq, Nat.mod_eq_of_lt (u64_lt hv)]
  exact (swap_pad 24 hv).symm

theorem u32ToFr_agrees (hv : v < 2 ^ 32) : u32ToFr v = u256ToFr v := by
  rw [u32ToFr_eq, u256ToFr_eq, Nat.mod_eq_of_lt (u32_lt hv)]
  exact (swap_pad 28 hv).symm

theorem u64ToFr_inj (hv : v < 2 ^ 64) (hw : w < 2 ^ 64) (h : u64ToFr v = u64ToFr w) : v = w := by
  rw [u64ToFr_agrees hv, u64ToFr_agrees hw] at h
  exact u256ToFr_inj (u64_lt hv) (u64_lt hw) h

theorem u32ToFr_inj (hv : v < 2 ^ 32) (hw : w < 2 ^ 32) (h : u32ToFr v = u32ToFr w) : v = w := by
  rw [u32ToFr_agrees hv, u32ToFr_agrees hw] at h
  exact u256ToFr_inj (u32_lt hv) (u32_lt hw) h

namespace Word

/-- `_u64ToFr` in the widths of its types. -/
def u64ToFr (v : BitVec 64) : BitVec 256 :=
  let swapped : BitVec 64 :=
    ((v >>> 56) &&& 0xff#64)
      ||| (((v >>> 48) &&& 0xff#64) <<< 8)
      ||| (((v >>> 40) &&& 0xff#64) <<< 16)
      ||| (((v >>> 32) &&& 0xff#64) <<< 24)
      ||| (((v >>> 24) &&& 0xff#64) <<< 32)
      ||| (((v >>> 16) &&& 0xff#64) <<< 40)
      ||| (((v >>> 8) &&& 0xff#64) <<< 48)
      ||| ((v &&& 0xff#64) <<< 56)
  swapped.setWidth 256 <<< 192

def u32ToFr (v : BitVec 32) : BitVec 256 :=
  let swapped : BitVec 32 :=
    ((v >>> 24) &&& 0xff#32)
      ||| (((v >>> 16) &&& 0xff#32) <<< 8)
      ||| (((v >>> 8) &&& 0xff#32) <<< 16)
      ||| ((v &&& 0xff#32) <<< 24)
  swapped.setWidth 256 <<< 224

def swapBytes : ℕ → BitVec 256 → BitVec 256 → BitVec 256
  | 0, r, _ => r
  | i + 1, r, reduced => swapBytes i ((r <<< 8) ||| (reduced &&& 0xff#256)) (reduced >>> 8)

def u256ToFr (v : BitVec 256) : BitVec 256 :=
  swapBytes 32 0 (v % BitVec.ofNat 256 FR_MODULUS)

theorem toNat_byte {n : ℕ} (x : BitVec n) (k : ℕ) (hk : k + 8 ≤ n) :
    ((x &&& 0xff#n) <<< k).toNat = (x.toNat &&& 0xff) <<< k := by
  have hn : 2 ^ k * 256 ≤ 2 ^ n := by
    rw [show 256 = 2 ^ 8 from rfl, ← Nat.pow_add]
    exact Nat.pow_le_pow_right (by norm_num) hk
  have hff : (0xff#n).toNat = 0xff := by
    have hone := Nat.one_le_two_pow (n := k)
    exact Nat.mod_eq_of_lt (by nlinarith)
  have hlt : (x.toNat &&& 0xff) * 2 ^ k < 2 ^ n := by
    have hb := byte_lt x.toNat
    have hpos := Nat.two_pow_pos k
    nlinarith
  rw [BitVec.toNat_shiftLeft, BitVec.toNat_and, hff, Nat.shiftLeft_eq, Nat.mod_eq_of_lt hlt]

theorem toNat_high {m n : ℕ} (x : BitVec m) (k : ℕ) (hk : m + k ≤ n) :
    (x.setWidth n <<< k).toNat = x.toNat <<< k := by
  have hm : x.toNat < 2 ^ n := x.isLt.trans_le (Nat.pow_le_pow_right (by norm_num) (by omega))
  have hlt : x.toNat * 2 ^ k < 2 ^ n := by
    have hx : x.toNat * 2 ^ k < 2 ^ (m + k) := by
      rw [Nat.pow_add]
      exact Nat.mul_lt_mul_of_pos_right x.isLt (Nat.two_pow_pos k)
    exact hx.trans_le (Nat.pow_le_pow_right (by norm_num) hk)
  rw [BitVec.toNat_shiftLeft, BitVec.toNat_setWidth, Nat.mod_eq_of_lt hm, Nat.shiftLeft_eq,
    Nat.mod_eq_of_lt hlt]

theorem toNat_u64ToFr (v : BitVec 64) : (u64ToFr v).toNat = RootPN.u64ToFr v.toNat := by
  have htop : ((v >>> 56) &&& 0xff#64).toNat = (v.toNat >>> 56) &&& 0xff := rfl
  unfold u64ToFr RootPN.u64ToFr
  rw [toNat_high _ 192 (by norm_num)]
  simp (disch := norm_num) only [BitVec.toNat_or, toNat_byte, BitVec.toNat_ushiftRight, htop]

theorem toNat_u32ToFr (v : BitVec 32) : (u32ToFr v).toNat = RootPN.u32ToFr v.toNat := by
  have htop : ((v >>> 24) &&& 0xff#32).toNat = (v.toNat >>> 24) &&& 0xff := rfl
  unfold u32ToFr RootPN.u32ToFr
  rw [toNat_high _ 224 (by norm_num)]
  simp (disch := norm_num) only [BitVec.toNat_or, toNat_byte, BitVec.toNat_ushiftRight, htop]

theorem toNat_swapBytes (i : ℕ) (r reduced : BitVec 256) (h : (r.toNat + 1) * 256 ^ i ≤ 2 ^ 256) :
    (swapBytes i r reduced).toNat = RootPN.swapBytes i r.toNat reduced.toNat := by
  induction i generalizing r reduced with
  | zero => rfl
  | succ i ih =>
    have hround : ((r <<< 8) ||| (reduced &&& 0xff#256)).toNat =
        (r.toNat <<< 8) ||| (reduced.toNat &&& 0xff) := by
      have hlt : r.toNat * 2 ^ 8 < 2 ^ 256 := by
        rw [Nat.pow_succ] at h
        have hpos := Nat.one_le_pow i 256 (by norm_num)
        nlinarith
      rw [BitVec.toNat_or, BitVec.toNat_shiftLeft, Nat.shiftLeft_eq, Nat.mod_eq_of_lt hlt]
      rfl
    rw [swapBytes, RootPN.swapBytes, ih, hround]
    · rfl
    · rw [hround, Nat.or_comm, or_shift (byte_lt _)]
      have hb := byte_lt reduced.toNat
      rw [Nat.pow_succ] at h
      nlinarith

theorem toNat_u256ToFr (v : BitVec 256) : (u256ToFr v).toNat = RootPN.u256ToFr v.toNat := by
  unfold u256ToFr RootPN.u256ToFr
  rw [toNat_swapBytes 32 0 _ (by decide)]
  rfl

theorem u256ToFr_value (v : BitVec 256) :
    (u256ToFr v).toNat = ofBE (le 32 (v.toNat % bn254Order)) := by
  rw [toNat_u256ToFr, u256ToFr_eq, modulus_eq]
  rfl

theorem u64ToFr_word (v : BitVec 64) : u64ToFr v = u256ToFr (v.setWidth 256) := by
  apply BitVec.eq_of_toNat_eq
  rw [toNat_u64ToFr, toNat_u256ToFr, BitVec.toNat_setWidth,
    Nat.mod_eq_of_lt (v.isLt.trans (by norm_num))]
  exact u64ToFr_agrees v.isLt

theorem u32ToFr_word (v : BitVec 32) : u32ToFr v = u256ToFr (v.setWidth 256) := by
  apply BitVec.eq_of_toNat_eq
  rw [toNat_u32ToFr, toNat_u256ToFr, BitVec.toNat_setWidth,
    Nat.mod_eq_of_lt (v.isLt.trans (by norm_num))]
  exact u32ToFr_agrees v.isLt

theorem u64ToFr_injective : Function.Injective u64ToFr := by
  intro v w h
  apply BitVec.eq_of_toNat_eq
  apply u64ToFr_inj v.isLt w.isLt
  rw [← toNat_u64ToFr, ← toNat_u64ToFr, h]

theorem u32ToFr_injective : Function.Injective u32ToFr := by
  intro v w h
  apply BitVec.eq_of_toNat_eq
  apply u32ToFr_inj v.isLt w.isLt
  rw [← toNat_u32ToFr, ← toNat_u32ToFr, h]

theorem u256ToFr_injOn : Set.InjOn u256ToFr {v | v.toNat < bn254Order} := by
  intro v hv w hw h
  apply BitVec.eq_of_toNat_eq
  apply u256ToFr_inj (modulus_eq ▸ hv) (modulus_eq ▸ hw)
  rw [← toNat_u256ToFr, ← toNat_u256ToFr, h]

/-- `bytes(bytes32(x))`. -/
def bytes32 (x : BitVec 256) : List ℕ := be 32 x.toNat

theorem bytes32_injective : Function.Injective bytes32 := by
  intro x y h
  exact BitVec.eq_of_toNat_eq (be_inj x.isLt y.isLt h)

/-- What a proof binds beside its hashes. -/
structure Bound where
  value : BitVec 64
  tokenType : BitVec 32
  ephemeralPubkey : BitVec 256
  deriving DecidableEq

/-- The `pubInputs` of a message that passes the requires on nominal and token type. -/
def Bound.pubInputs (x : Bound) (depositIdentifierHash finalLayerHistoricalHashRoot : BitVec 256) :
    List ℕ :=
  bytes32 depositIdentifierHash ++ bytes32 finalLayerHistoricalHashRoot ++
    bytes32 (u64ToFr x.value) ++ bytes32 (u32ToFr x.tokenType) ++
    bytes32 (u256ToFr x.ephemeralPubkey)

theorem Bound.instances {x y : Bound} {dih root dih' root' : BitVec 256}
    (h : x.pubInputs dih root = y.pubInputs dih' root') :
    u64ToFr x.value = u64ToFr y.value ∧ u32ToFr x.tokenType = u32ToFr y.tokenType ∧
      u256ToFr x.ephemeralPubkey = u256ToFr y.ephemeralPubkey := by
  have hlen (a b : BitVec 256) : (bytes32 a).length = (bytes32 b).length := by
    rw [bytes32, bytes32, be_length, be_length]
  obtain ⟨h, hkey⟩ := List.append_inj' h (hlen _ _)
  obtain ⟨h, htype⟩ := List.append_inj' h (hlen _ _)
  obtain ⟨-, hvalue⟩ := List.append_inj' h (hlen _ _)
  exact ⟨bytes32_injective hvalue, bytes32_injective htype, bytes32_injective hkey⟩

/-- The three encodings are one, and tell values below the order of the field apart; so do the
instances of a proof. -/
theorem field_encodings :
    (∀ v : BitVec 256, (u256ToFr v).toNat = ofBE (le 32 (v.toNat % bn254Order))) ∧
    (∀ v : BitVec 64, u64ToFr v = u256ToFr (v.setWidth 256)) ∧
    (∀ v : BitVec 32, u32ToFr v = u256ToFr (v.setWidth 256)) ∧
    Function.Injective u64ToFr ∧ Function.Injective u32ToFr ∧
    Set.InjOn u256ToFr {v | v.toNat < bn254Order} ∧
    ∀ x y : Bound, x.ephemeralPubkey.toNat < bn254Order → y.ephemeralPubkey.toNat < bn254Order →
      x ≠ y → ∀ dih root dih' root', x.pubInputs dih root ≠ y.pubInputs dih' root' := by
  refine ⟨u256ToFr_value, u64ToFr_word, u32ToFr_word, u64ToFr_injective, u32ToFr_injective,
    u256ToFr_injOn, ?_⟩
  intro x y hx hy hne dih root dih' root' h
  obtain ⟨hvalue, htype, hkey⟩ := Bound.instances h
  apply hne
  obtain ⟨value, tokenType, ephemeralPubkey⟩ := x
  obtain rfl : value = y.value := u64ToFr_injective hvalue
  obtain rfl : tokenType = y.tokenType := u32ToFr_injective htype
  obtain rfl : ephemeralPubkey = y.ephemeralPubkey := u256ToFr_injOn hx hy hkey
  rfl

/-- A `uint64` is encoded as the word of its value, which is read back modulo the order, and notes
of two keys have two public inputs. -/
theorem field_encodings_sample :
    u64ToFr 100 = u256ToFr (BitVec.setWidth 256 100#64) ∧
    (u256ToFr (BitVec.setWidth 256 100#64)).toNat = ofBE (le 32 100) ∧
    u64ToFr 100 ≠ u64ToFr 101 ∧ u32ToFr 2 ≠ u32ToFr 3 ∧
    u256ToFr 7 ≠ u256ToFr 8 ∧ Bound.pubInputs ⟨100, 2, 7⟩ 1 1 ≠ Bound.pubInputs ⟨100, 2, 8⟩ 1 1 := by
  obtain ⟨hvalue, hword, -, hinj64, hinj32, hinj, hpub⟩ := field_encodings
  refine ⟨hword 100, hvalue (BitVec.setWidth 256 100#64), hinj64.ne (by decide),
    hinj32.ne (by decide), hinj.ne (by decide) (by decide) (by decide), ?_⟩
  exact hpub ⟨100, 2, 7⟩ ⟨100, 2, 8⟩ (by decide) (by decide) (by decide) 1 1 1 1

end Word

end Dexdo.RootPN
