import Mathlib.Tactic

namespace Dexdo.Split

variable {α : Type} [DecidableEq α] {c : α} {s front back : List α}

/-- The parts before and after the first separator; none without one. -/
def splitOnce (c : α) (s : List α) : Option (List α × List α) :=
  if c ∈ s then
    let front := s.takeWhile (· != c)
    some (front, s.drop (front.length + 1))
  else none

theorem splitOnce_append (h : c ∉ front) : splitOnce c (front ++ c :: back) = some (front, back) := by
  have hfront : ∀ a ∈ front, (a != c) = true := by
    intro a ha
    refine bne_iff_ne.mpr fun he => h ?_
    rw [← he]
    exact ha
  have htake : (front ++ c :: back).takeWhile (· != c) = front := by
    rw [List.takeWhile_append_of_pos hfront]
    simp
  rw [splitOnce, if_pos (by simp), htake]
  simp [List.drop_append]

theorem splitOnce_none (h : c ∉ s) : splitOnce c s = none := if_neg h

/-- What is split is the two parts around the first separator. -/
theorem splitOnce_some (h : splitOnce c s = some (front, back)) :
    c ∉ front ∧ s = front ++ c :: back := by
  by_cases hc : c ∈ s
  · obtain ⟨l, r, rfl, hl⟩ := List.eq_append_cons_of_mem hc
    rw [splitOnce_append hl] at h
    cases h
    exact ⟨hl, rfl⟩
  · rw [splitOnce_none hc] at h
    cases h

/-- No part of a split text holds the separator. -/
theorem not_mem_splitOn : ∀ {s part : List α}, part ∈ s.splitOn c → c ∉ part
  | [], part, h => by
    rw [List.splitOn_nil] at h
    rw [List.mem_singleton.mp h]
    exact List.not_mem_nil
  | a :: s, part, h => by
    rw [List.splitOn_cons_eq_if_modifyHead] at h
    by_cases ha : a = c
    · rw [if_pos (beq_iff_eq.mpr ha)] at h
      rcases List.mem_cons.mp h with rfl | h
      · exact List.not_mem_nil
      · exact not_mem_splitOn h
    · rw [if_neg (by simpa using ha)] at h
      obtain ⟨first, parts, hparts⟩ := List.exists_cons_of_ne_nil (List.splitOn_ne_nil c s)
      rw [hparts, List.modifyHead_cons] at h
      rcases List.mem_cons.mp h with rfl | h
      · intro hc
        rcases List.mem_cons.mp hc with he | hc
        · exact ha he.symm
        · exact not_mem_splitOn (hparts ▸ List.mem_cons_self) hc
      · exact not_mem_splitOn (hparts ▸ List.mem_cons_of_mem _ h)

end Dexdo.Split

namespace Dexdo.Base64

/- The engine `URL_SAFE_NO_PAD` by its documentation: the alphabet that is safe in a URL, no padding
written or accepted, and an error on stray last bits. -/

/-- The character of a digit, in the alphabet that is safe in a URL. -/
def symbol (d : ℕ) : Char :=
  if d < 26 then Char.ofNat (d + 65)
  else if d < 52 then Char.ofNat (d - 26 + 97)
  else if d < 62 then Char.ofNat (d - 52 + 48)
  else if d = 62 then '-'
  else '_'

def digit (c : Char) : Option ℕ :=
  if 65 ≤ c.toNat ∧ c.toNat ≤ 90 then some (c.toNat - 65)
  else if 97 ≤ c.toNat ∧ c.toNat ≤ 122 then some (c.toNat - 97 + 26)
  else if 48 ≤ c.toNat ∧ c.toNat ≤ 57 then some (c.toNat - 48 + 52)
  else if c = '-' then some 62
  else if c = '_' then some 63
  else none

/-- Digit of the sister alphabet of sixteen, in either case. -/
def base16Digit (c : Char) : Option ℕ :=
  if 48 ≤ c.toNat ∧ c.toNat ≤ 57 then some (c.toNat - 48)
  else if 97 ≤ c.toNat ∧ c.toNat ≤ 102 then some (c.toNat - 87)
  else if 65 ≤ c.toNat ∧ c.toNat ≤ 70 then some (c.toNat - 55)
  else none

/-- Three bytes are four digits; one or two bytes left over are two or three, without padding. -/
def encode : List UInt8 → List Char
  | a :: b :: c :: rest =>
    symbol (a.toNat / 4) :: symbol (a.toNat % 4 * 16 + b.toNat / 16) ::
      symbol (b.toNat % 16 * 4 + c.toNat / 64) :: symbol (c.toNat % 64) :: encode rest
  | [a, b] =>
    [symbol (a.toNat / 4), symbol (a.toNat % 4 * 16 + b.toNat / 16), symbol (b.toNat % 16 * 4)]
  | [a] => [symbol (a.toNat / 4), symbol (a.toNat % 4 * 16)]
  | [] => []

/-- The bytes of a text; none for a foreign character, a lone last digit or stray last bits. -/
def decode : List Char → Option (List UInt8)
  | w :: x :: y :: z :: rest => do
    let w ← digit w
    let x ← digit x
    let y ← digit y
    let z ← digit z
    let bytes ← decode rest
    return UInt8.ofNat (w * 4 + x / 16) :: UInt8.ofNat (x % 16 * 16 + y / 4) ::
      UInt8.ofNat (y % 4 * 64 + z) :: bytes
  | [w, x, y] => do
    let w ← digit w
    let x ← digit x
    let y ← digit y
    if y % 4 = 0 then
      return [UInt8.ofNat (w * 4 + x / 16), UInt8.ofNat (x % 16 * 16 + y / 4)]
    else none
  | [w, x] => do
    let w ← digit w
    let x ← digit x
    if x % 16 = 0 then return [UInt8.ofNat (w * 4 + x / 16)] else none
  | [_] => none
  | [] => some []

theorem digit_symbol {d : ℕ} (h : d < 64) : digit (symbol d) = some d := by
  have hall : ∀ d < 64, digit (symbol d) = some d := by decide
  exact hall d h

theorem ofNat_eq {a : UInt8} {n : ℕ} (h : n = a.toNat) : UInt8.ofNat n = a := by
  rw [h]
  exact UInt8.ofNat_toNat

theorem decode_encode (bytes : List UInt8) : decode (encode bytes) = some bytes := by
  induction bytes using encode.induct with
  | case1 a b c rest ih =>
    have ha := a.toNat_lt
    have hb := b.toNat_lt
    have hc := c.toNat_lt
    rw [encode, decode, digit_symbol (by omega), digit_symbol (by omega), digit_symbol (by omega),
      digit_symbol (by omega), ih]
    simp only [Option.bind_eq_bind, Option.bind_some, Option.pure_def]
    rw [ofNat_eq (a := a) (by omega), ofNat_eq (a := b) (by omega), ofNat_eq (a := c) (by omega)]
  | case2 a b =>
    have ha := a.toNat_lt
    have hb := b.toNat_lt
    rw [encode, decode, digit_symbol (by omega), digit_symbol (by omega), digit_symbol (by omega)]
    simp only [Option.bind_eq_bind, Option.bind_some, Option.pure_def]
    rw [if_pos (by omega), ofNat_eq (a := a) (by omega), ofNat_eq (a := b) (by omega)]
  | case3 a =>
    have ha := a.toNat_lt
    rw [encode, decode, digit_symbol (by omega), digit_symbol (by omega)]
    simp only [Option.bind_eq_bind, Option.bind_some, Option.pure_def]
    rw [if_pos (by omega), ofNat_eq (a := a) (by omega)]
  | case4 => rfl

/-- A text as the base64 of its UTF-8 bytes. -/
def encodeText (s : List Char) : List Char := encode (s.flatMap String.utf8EncodeChar)

def decodeText (raw : List Char) : Option (List Char) := do
  let bytes ← decode raw
  let chars ← bytes.toByteArray.utf8Decode?
  return chars.toList

theorem decodeText_encodeText (s : List Char) : decodeText (encodeText s) = some s := by
  have hutf : (s.flatMap String.utf8EncodeChar).toByteArray.utf8Decode? = some s.toArray :=
    List.utf8Decode?_utf8Encode
  rw [decodeText, encodeText, decode_encode]
  simp only [Option.bind_eq_bind, Option.bind_some, hutf, Option.pure_def]

end Dexdo.Base64
