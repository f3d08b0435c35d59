import Dexdo.Api.Decimal
import Dexdo.Lib.Text
import Dexdo.Lib.Keyset

namespace Dexdo.Api.Signing

/-- Texts and bodies as they are signed: a query is read as its UTF-8 bytes. -/
abbrev Bytes := List UInt8

/-- `&`. -/
def AMP : UInt8 := 38

/-- `=`. -/
def EQ : UInt8 := 61

/-- `signature`. -/
def SIGNATURE : Bytes := [115, 105, 103, 110, 97, 116, 117, 114, 101]

/-- A query parameter; it may have come without a `=`. -/
structure Pair where
  key : Bytes
  value : Bytes
  hadEq : Bool
  deriving DecidableEq, Repr

def Pair.text (p : Pair) : Bytes := if p.hadEq then p.key ++ EQ :: p.value else p.key

/-- A parameter read from its text. -/
def parsePair (kv : Bytes) : Pair :=
  match Split.splitOnce EQ kv with
  | some (k, v) => ⟨k, v, true⟩
  | none => ⟨kv, [], false⟩

/-- A parameter read from its text, unless it is the signature. -/
def signedPair (kv : Bytes) : Option Pair :=
  match Split.splitOnce EQ kv with
  | some (k, v) => if k = SIGNATURE then none else some ⟨k, v, true⟩
  | none => if kv = SIGNATURE then none else some ⟨kv, [], false⟩

/-- Order of the keys, byte by byte. -/
def keyOrder (p : Pair) : List ℕ := p.key.map UInt8.toNat

def canonicalQueryString (rawQuery : Bytes) : Bytes :=
  if rawQuery = [] then []
  else
    let pairs := (rawQuery.splitOn AMP).filterMap signedPair
    [AMP].intercalate ((Keyset.orderBy keyOrder pairs).map Pair.text)

inductive AuthError
  | unexpected
  | invalidSignature
  deriving DecidableEq, Repr

/-- `hex::decode`, as its crate documents it: two digits of either case a byte, and an error on an
odd length or any other character. -/
def hexDecode : List Char → Option Bytes
  | [] => some []
  | [_] => none
  | a :: b :: rest => do
    let hi ← Base64.base16Digit a
    let lo ← Base64.base16Digit b
    let bytes ← hexDecode rest
    return UInt8.ofNat (16 * hi + lo) :: bytes

/-- Check of a signature over the canonical query and the body under a secret; `hmac` gives the
code of a message under a secret of a length it takes. -/
def verifyHmac (hmac : Bytes → Option (Bytes → Bytes)) (canonicalQuery body secret : Bytes)
    (signatureHex : List Char) : Except AuthError Unit :=
  match hmac secret with
  | none => .error .unexpected
  | some mac =>
    let expected := mac (canonicalQuery ++ body)
    match hexDecode (trim signatureHex) with
    | none => .error .invalidSignature
    | some provided =>
      if provided.length ≠ expected.length then .error .invalidSignature
      else if provided = expected then .ok ()
      else .error .invalidSignature

/-- What of a request is signed. -/
structure Request where
  rawQuery : Bytes
  body : Bytes
  signatureHex : List Char

/-- The signature step of `authenticate`. -/
def Request.verify (hmac : Bytes → Option (Bytes → Bytes)) (secret : Bytes) (r : Request) :
    Except AuthError Unit :=
  verifyHmac hmac (canonicalQueryString r.rawQuery) r.body secret r.signatureHex

/-- The parameters of a query; an empty query has none. -/
def queryPairs (rawQuery : Bytes) : List Pair :=
  if rawQuery = [] then [] else (rawQuery.splitOn AMP).map parsePair

/-- A lone parameter without a text leaves no trace in a query. -/
def visible (pairs : List Pair) : List Pair := if pairs = [⟨[], [], false⟩] then [] else pairs

/-- The parameters a signature speaks of. -/
def signedPairs (rawQuery : Bytes) : List Pair :=
  visible ((queryPairs rawQuery).filter (·.key ≠ SIGNATURE))

section Canonical

/-- A parameter as a query can hold it. -/
def Pair.Sound (p : Pair) : Prop :=
  AMP ∉ p.text ∧ EQ ∉ p.key ∧ (p.hadEq = false → p.value = [])

theorem parsePair_sound {kv : Bytes} (h : AMP ∉ kv) :
    (parsePair kv).Sound ∧ (parsePair kv).text = kv := by
  unfold parsePair
  cases hs : Split.splitOnce EQ kv with
  | none =>
    have hno : EQ ∉ kv := by
      intro hm
      rw [Split.splitOnce, if_pos hm] at hs
      cases hs
    exact ⟨⟨h, hno, fun _ => rfl⟩, rfl⟩
  | some parts =>
    obtain ⟨k, v⟩ := parts
    obtain ⟨hk, rfl⟩ := Split.splitOnce_some hs
    exact ⟨⟨h, hk, fun hf => by cases hf⟩, rfl⟩

theorem Pair.Sound.parse {p : Pair} (h : p.Sound) : parsePair p.text = p := by
  obtain ⟨key, value, hadEq⟩ := p
  obtain ⟨-, hkey, hvalue⟩ := h
  cases hadEq with
  | true =>
    rw [parsePair, Pair.text, if_pos rfl, Split.splitOnce_append hkey]
  | false =>
    rw [parsePair, Pair.text, if_neg Bool.false_ne_true, Split.splitOnce_none hkey]
    exact congrArg (fun v => Pair.mk key v false) (hvalue rfl).symm

theorem queryPairs_sound (rawQuery : Bytes) : ∀ p ∈ queryPairs rawQuery, p.Sound := by
  intro p hp
  unfold queryPairs at hp
  split at hp
  · cases hp
  · obtain ⟨kv, hkv, rfl⟩ := List.mem_map.mp hp
    exact (parsePair_sound (Split.not_mem_splitOn hkv)).1

theorem signedPair_eq (kv : Bytes) :
    signedPair kv = if (parsePair kv).key = SIGNATURE then none else some (parsePair kv) := by
  unfold signedPair parsePair
  cases Split.splitOnce EQ kv with
  | none => rfl
  | some => rfl

theorem filterMap_signedPair (parts : List Bytes) :
    parts.filterMap signedPair = (parts.map parsePair).filter (·.key ≠ SIGNATURE) := by
  induction parts with
  | nil => rfl
  | cons kv parts ih =>
    rw [List.filterMap_cons, List.map_cons, signedPair_eq, ih]
    by_cases h : (parsePair kv).key = SIGNATURE
    · rw [if_pos h, List.filter_cons_of_neg (by simpa using h)]
    · rw [if_neg h, List.filter_cons_of_pos (by simpa using h)]

/-- Parameters joined to a query. -/
def joinPairs (pairs : List Pair) : Bytes := [AMP].intercalate (pairs.map Pair.text)

theorem text_eq_nil {p : Pair} (h : p.Sound) : p.text = [] ↔ p = ⟨[], [], false⟩ := by
  obtain ⟨key, value, hadEq⟩ := p
  cases hadEq with
  | true => simp [Pair.text]
  | false =>
    have hv : value = [] := h.2.2 rfl
    simp [Pair.text, hv]

theorem joinPairs_eq_nil {pairs : List Pair} (h : ∀ p ∈ pairs, p.Sound) :
    joinPairs pairs = [] ↔ visible pairs = [] := by
  match pairs with
  | [] => simp [joinPairs, visible]
  | [p] =>
    have hp := text_eq_nil (h p List.mem_cons_self)
    unfold joinPairs visible
    simp only [List.map_cons, List.map_nil, List.intercalate_singleton, List.cons.injEq, and_true]
    rw [hp]
    split <;> simp_all
  | p :: q :: rest => simp [joinPairs, visible]

theorem queryPairs_join {pairs : List Pair} (h : ∀ p ∈ pairs, p.Sound) :
    queryPairs (joinPairs pairs) = visible pairs := by
  by_cases hnil : joinPairs pairs = []
  · rw [queryPairs, if_pos hnil, (joinPairs_eq_nil h).mp hnil]
  · have hvis : visible pairs ≠ [] := fun hv => hnil ((joinPairs_eq_nil h).mpr hv)
    have hne : pairs ≠ [] := by
      rintro rfl
      exact hvis rfl
    have hlone : pairs ≠ [⟨[], [], false⟩] := fun hl => hvis (if_pos hl)
    have hamp : ∀ l ∈ pairs.map Pair.text, AMP ∉ l := by
      intro l hl
      obtain ⟨p, hp, rfl⟩ := List.mem_map.mp hl
      exact (h p hp).1
    rw [queryPairs, if_neg hnil, joinPairs,
      List.splitOn_intercalate AMP hamp (by simpa using hne), List.map_map, visible, if_neg hlone]
    conv_rhs => rw [← List.map_id pairs]
    exact List.map_congr_left fun p hp => (h p hp).parse

theorem canonical_eq (rawQuery : Bytes) : canonicalQueryString rawQuery =
    joinPairs (Keyset.orderBy keyOrder ((queryPairs rawQuery).filter (·.key ≠ SIGNATURE))) := by
  unfold canonicalQueryString queryPairs
  by_cases h : rawQuery = []
  · rw [if_pos h, if_pos h]
    rfl
  · rw [if_neg h, if_neg h, filterMap_signedPair]
    rfl

theorem visible_orderBy (pairs : List Pair) :
    visible (Keyset.orderBy keyOrder pairs) = Keyset.orderBy keyOrder (visible pairs) := by
  by_cases h : pairs = [⟨[], [], false⟩]
  · subst h
    rfl
  · have hs : Keyset.orderBy keyOrder pairs ≠ [⟨[], [], false⟩] := fun hs =>
      h (List.perm_singleton.mp (hs ▸ (Keyset.orderBy_perm keyOrder pairs).symm))
    rw [visible, visible, if_neg h, if_neg hs]

theorem queryPairs_canonical (rawQuery : Bytes) : queryPairs (canonicalQueryString rawQuery) =
    Keyset.orderBy keyOrder (signedPairs rawQuery) := by
  have hsound : ∀ p ∈ Keyset.orderBy keyOrder
      ((queryPairs rawQuery).filter (·.key ≠ SIGNATURE)), p.Sound := by
    intro p hp
    have hp' := (Keyset.orderBy_perm keyOrder _).mem_iff.mp hp
    exact queryPairs_sound rawQuery p (List.mem_of_mem_filter hp')
  rw [canonical_eq, queryPairs_join hsound, visible_orderBy]
  rfl

theorem joinPairs_visible (pairs : List Pair) : joinPairs (visible pairs) = joinPairs pairs := by
  unfold visible
  split
  · next h =>
    subst h
    rfl
  · rfl

theorem canonical_signed (rawQuery : Bytes) : canonicalQueryString rawQuery =
    joinPairs (Keyset.orderBy keyOrder (signedPairs rawQuery)) := by
  rw [canonical_eq, ← joinPairs_visible, visible_orderBy]
  rfl

theorem keyOrder_eq {p : Pair} {k : Bytes} : keyOrder p = k.map UInt8.toNat ↔ p.key = k :=
  (List.map_injective_iff.mpr fun _ _ h => UInt8.toNat_inj.mp h).eq_iff

theorem filter_keyOrder (k : Bytes) {_ : ∀ p : Pair, Decidable (keyOrder p = k.map UInt8.toNat)}
    (pairs : List Pair) :
    (pairs.filter fun p => decide (keyOrder p = k.map UInt8.toNat)) =
      pairs.filter fun p => decide (p.key = k) :=
  List.filter_congr fun _ _ => decide_eq_decide.mpr keyOrder_eq

theorem canonical_eq_iff {r r' : Bytes} : canonicalQueryString r = canonicalQueryString r' ↔
    ∀ k, (signedPairs r).filter (·.key = k) = (signedPairs r').filter (·.key = k) := by
  constructor
  · intro h k
    have hs : Keyset.orderBy keyOrder (signedPairs r) = Keyset.orderBy keyOrder (signedPairs r') := by
      rw [← queryPairs_canonical, h, queryPairs_canonical]
    exact (filter_keyOrder k _).symm.trans ((Keyset.orderBy_eq_iff.mp hs (k.map UInt8.toNat)).trans (filter_keyOrder k _))
  · intro h
    rw [canonical_signed, canonical_signed]
    refine congrArg joinPairs (Keyset.orderBy_eq_iff.mpr fun k => ?_)
    by_cases hk : ∃ k' : Bytes, k'.map UInt8.toNat = k
    · obtain ⟨k', rfl⟩ := hk
      exact (filter_keyOrder k' _).trans ((h k').trans (filter_keyOrder k' _).symm)
    · have hno (p : Pair) : ¬ keyOrder p = k := fun he => hk ⟨p.key, he⟩
      rw [List.filter_eq_nil_iff.mpr fun p _ => by simpa using hno p,
        List.filter_eq_nil_iff.mpr fun p _ => by simpa using hno p]

theorem signed_perm {r r' : Bytes} (h : canonicalQueryString r = canonicalQueryString r') :
    (signedPairs r).Perm (signedPairs r') := by
  have hs : Keyset.orderBy keyOrder (signedPairs r) = Keyset.orderBy keyOrder (signedPairs r') := by
    rw [← queryPairs_canonical, h, queryPairs_canonical]
  have hp := Keyset.orderBy_perm keyOrder (signedPairs r')
  rw [← hs] at hp
  exact (Keyset.orderBy_perm keyOrder (signedPairs r)).symm.trans hp

theorem sorted_filter (rawQuery k : Bytes) :
    (Keyset.orderBy keyOrder (signedPairs rawQuery)).filter (·.key = k) =
      (signedPairs rawQuery).filter (·.key = k) := by
  exact (filter_keyOrder k _).symm.trans
    ((Keyset.orderBy_filter_key keyOrder _ _).trans (filter_keyOrder k _))

theorem signedPairs_canonical (rawQuery : Bytes) : signedPairs (canonicalQueryString rawQuery) =
    Keyset.orderBy keyOrder (signedPairs rawQuery) := by
  have hkeep : (Keyset.orderBy keyOrder (signedPairs rawQuery)).filter (·.key ≠ SIGNATURE) =
      Keyset.orderBy keyOrder (signedPairs rawQuery) := by
    refine List.filter_eq_self.mpr fun p hp => ?_
    have hp' := (Keyset.orderBy_perm keyOrder _).mem_iff.mp hp
    unfold signedPairs visible at hp'
    split at hp'
    · cases hp'
    · exact (List.mem_filter.mp hp').2
  have hvis : visible (signedPairs rawQuery) = signedPairs rawQuery := by
    unfold signedPairs visible
    split <;> simp_all
  rw [signedPairs, queryPairs_canonical, hkeep, visible_orderBy, hvis]

end Canonical

section Verify

variable {hmac : Bytes → Option (Bytes → Bytes)} {mac : Bytes → Bytes} {secret : Bytes}

/-- What a code is taken of. -/
def Request.message (r : Request) : Bytes := canonicalQueryString r.rawQuery ++ r.body

theorem verify_ok {r : Request} (hmac_some : hmac secret = some mac)
    (h : r.verify hmac secret = .ok ()) : hexDecode (trim r.signatureHex) = some (mac r.message) := by
  unfold Request.verify verifyHmac at h
  rw [hmac_some] at h
  dsimp only at h
  cases hd : hexDecode (trim r.signatureHex) with
  | none =>
    rw [hd] at h
    cases h
  | some =>
    rw [hd] at h
    dsimp only at h
    split_ifs at h with hlen heq
    rw [heq]
    rfl

end Verify

/-- What a signature covers. Two requests that pass under one signature have the same canonical
query and body in a row; the bodies and the parameters are the same exactly where the bodies are
of one length, and a lone parameter without a text counts as none. The canonical query holds all
parameters but the signature, those of one key in their order, and nothing else about the query. -/
theorem signature_covers (hmac : Bytes → Option (Bytes → Bytes)) :
    (∀ (secret : Bytes) (mac : Bytes → Bytes) (r r' : Request), hmac secret = some mac →
      (mac r.message = mac r'.message → r.message = r'.message) →
      r.verify hmac secret = .ok () → r'.verify hmac secret = .ok () →
      r.signatureHex = r'.signatureHex →
      canonicalQueryString r.rawQuery ++ r.body = canonicalQueryString r'.rawQuery ++ r'.body ∧
      (r.body = r'.body ↔ r.body.length = r'.body.length) ∧
      (r.body = r'.body → (signedPairs r.rawQuery).Perm (signedPairs r'.rawQuery))) ∧
    ∀ rawQuery : Bytes,
      (queryPairs (canonicalQueryString rawQuery)).Perm (signedPairs rawQuery) ∧
      canonicalQueryString (canonicalQueryString rawQuery) = canonicalQueryString rawQuery ∧
      (∀ k, (queryPairs (canonicalQueryString rawQuery)).filter (·.key = k) =
        (signedPairs rawQuery).filter (·.key = k)) ∧
      ∀ rawQuery' : Bytes,
        (canonicalQueryString rawQuery = canonicalQueryString rawQuery' ↔
          ∀ k, (signedPairs rawQuery).filter (·.key = k) =
            (signedPairs rawQuery').filter (·.key = k)) ∧
        (canonicalQueryString rawQuery = canonicalQueryString rawQuery' →
          (signedPairs rawQuery).Perm (signedPairs rawQuery')) := by
  constructor
  · intro secret mac r r' hmac_some hfree hr hr' hsig
    have hcode : mac r.message = mac r'.message := by
      have h := verify_ok hmac_some hr
      rw [hsig, verify_ok hmac_some hr'] at h
      exact (Option.some.inj h).symm
    have hmessage : canonicalQueryString r.rawQuery ++ r.body =
        canonicalQueryString r'.rawQuery ++ r'.body := hfree hcode
    refine ⟨hmessage, ⟨fun h => congrArg List.length h, fun h => ?_⟩, fun h => ?_⟩
    · exact (List.append_inj' hmessage h).2
    · rw [h] at hmessage
      exact signed_perm (List.append_cancel_right hmessage)
  · intro rawQuery
    have hpairs := queryPairs_canonical rawQuery
    refine ⟨?_, ?_, fun k => ?_, fun rawQuery' => ⟨canonical_eq_iff, signed_perm⟩⟩
    · rw [hpairs]
      exact Keyset.orderBy_perm keyOrder _
    · refine canonical_eq_iff.mpr fun k => ?_
      rw [signedPairs_canonical]
      exact sorted_filter rawQuery k
    · rw [hpairs]
      exact sorted_filter rawQuery k

/-- A code of 32 bytes: the message, cut off or filled up with zeros. -/
def sampleMac (message : Bytes) : Bytes := (message ++ List.replicate 32 0).take 32

/-- The 64 digits of such a code. -/
def sampleHex (digits : String) : List Char :=
  (digits.toList ++ List.replicate 64 '0').take 64

/-- Two requests that pass under one signature are told apart by nothing but where the query ends
and the body begins; and a query of one nameless parameter looks like none. -/
theorem signature_ambiguous :
    let hmac := fun _ : Bytes => some sampleMac
    let r : Request := ⟨[97, 61, 49], [50], sampleHex "613d3132"⟩
    let r' : Request := ⟨[97, 61, 49, 50], [], sampleHex "613d3132"⟩
    r.verify hmac [] = .ok () ∧ r'.verify hmac [] = .ok () ∧ r.body ≠ r'.body ∧
      ¬ ((queryPairs r.rawQuery).filter (·.key ≠ SIGNATURE)).Perm
        ((queryPairs r'.rawQuery).filter (·.key ≠ SIGNATURE)) ∧
      canonicalQueryString (AMP :: SIGNATURE) = canonicalQueryString SIGNATURE ∧
      ¬ ((queryPairs (AMP :: SIGNATURE)).filter (·.key ≠ SIGNATURE)).Perm
        ((queryPairs SIGNATURE).filter (·.key ≠ SIGNATURE)) := by
  decide +kernel

theorem signature_covers_sample :
    let r : Request := ⟨[98, 61, 49, 38, 97], [50], sampleHex "6126623d3132"⟩
    let r' : Request := ⟨[97, 38, 98, 61, 49], [50], sampleHex "6126623d3132"⟩
    (signedPairs r.rawQuery).Perm (signedPairs r'.rawQuery) := by
  intro r r'
  have hmessage : r.message = r'.message := by decide +kernel
  exact ((signature_covers fun _ => some sampleMac).1 [] sampleMac r r' rfl (fun _ => hmessage)
    (by decide +kernel) (by decide +kernel) rfl).2.2 rfl

end Dexdo.Api.Signing
