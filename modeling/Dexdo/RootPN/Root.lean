import Dexdo.RootPN.Fields
import Dexdo.RootPN.Voucher

namespace Dexdo.RootPN

/-- A code cell. Addresses depend on its hash and depth only. -/
structure Code where
  hash : ℕ
  depth : ℕ
  deriving DecidableEq

def Code.empty : Code := ⟨0, 0⟩

/-- A note's address is derived from its code and its deposit identifier hash. -/
structure NoteAddr where
  code : Code
  depositIdentifierHash : ℕ
  deriving DecidableEq

structure NullifierAddr where
  code : Code
  nullifierHash : ℕ
  deriving DecidableEq

/-- An order book's address is derived from three codes and its market. -/
structure BookAddr where
  privateNoteCode : Code
  pmpCode : Code
  orderBookCode : Code
  market : MarketId
  deriving DecidableEq

/-- The cell `onCodeUpgrade` decodes. -/
structure Migration where
  pmpCode : Code
  privateNoteCode : Code
  nullifierCode : Code
  oracleCode : Code
  oracleEventListCode : Code
  orderBookCode : Code
  ownerPubkey : ℕ

/-- Storage of the root, and the currencies its account holds. -/
structure Root where
  privateNoteCode : Code
  prevPrivateNoteCode : Code
  pmpCode : Code
  nullifierCode : Code
  oracleCode : Code
  oracleEventListCode : Code
  orderBookCode : Code
  inferenceOrderBookCode : Code
  tokenContractCode : Code
  ownerPubkey : ℕ
  deployedValues : ℕ → ℕ
  protocolFees : ℕ → ℕ
  writtenOff : ℕ → ℕ
  currencies : ℕ → ℕ

/-- Outcome of `withdrawTokens`. -/
inductive Withdrawal
  | refused
  | revert
  | paid (root : Root)

namespace Root

/-- A root just installed. -/
def installed (cell : Migration) (currencies : ℕ → ℕ) : Root where
  privateNoteCode := cell.privateNoteCode
  prevPrivateNoteCode := .empty
  pmpCode := cell.pmpCode
  nullifierCode := cell.nullifierCode
  oracleCode := cell.oracleCode
  oracleEventListCode := cell.oracleEventListCode
  orderBookCode := cell.orderBookCode
  inferenceOrderBookCode := .empty
  tokenContractCode := .empty
  ownerPubkey := cell.ownerPubkey
  deployedValues _ := 0
  protocolFees _ := 0
  writtenOff _ := 0
  currencies := currencies

/-- The storage is reset, and what the cell brings is set; the currencies stay. -/
def onCodeUpgrade (r : Root) (cell : Migration) : Option Root :=
  if cell.ownerPubkey ≠ 0 then some (installed cell r.currencies) else none

def updateCode (r : Root) (pubkey : ℕ) (cell : Migration) : Option Root :=
  if pubkey = r.ownerPubkey then r.onCodeUpgrade cell else none

def setInferenceOrderBookCode (r : Root) (pubkey : ℕ) (code : Code) : Option Root :=
  if pubkey = r.ownerPubkey then some { r with inferenceOrderBookCode := code } else none

def setTokenContractCode (r : Root) (pubkey : ℕ) (code : Code) : Option Root :=
  if pubkey = r.ownerPubkey then some { r with tokenContractCode := code } else none

def setPrivateNoteCode (r : Root) (pubkey : ℕ) (code : Code) : Option Root :=
  if pubkey = r.ownerPubkey then some { r with privateNoteCode := code } else none

def setPrevPrivateNoteCode (r : Root) (pubkey : ℕ) (code : Code) : Option Root :=
  if pubkey = r.ownerPubkey then some { r with prevPrivateNoteCode := code } else none

/-- `amount` of one currency comes in. -/
def receive (r : Root) (tokenType amount : ℕ) : Root :=
  { r with currencies := Function.update r.currencies tokenType (r.currencies tokenType + amount) }

def pay (r : Root) (tokenType amount : ℕ) : Root :=
  { r with currencies := Function.update r.currencies tokenType (r.currencies tokenType - amount) }

/-- A note reports its value; only notes of the current code are heard. -/
def privateNoteDeployed (r : Root) (sender : NoteAddr) (depositIdentifierHash tokenType
    deployedValue : ℕ) : Root :=
  if sender = ⟨r.privateNoteCode, depositIdentifierHash⟩ ∧
      r.deployedValues tokenType + deployedValue < 2 ^ 128 then
    { r with
      deployedValues := Function.update r.deployedValues tokenType
        (r.deployedValues tokenType + deployedValue) }
  else r

/-- `senderIsNoteOfAnyGeneration`. -/
def serves (r : Root) (sender : NoteAddr) (initialDataHash : ℕ) : Bool :=
  decide (sender = ⟨r.privateNoteCode, initialDataHash⟩) ||
    (decide (r.prevPrivateNoteCode.hash ≠ 0) &&
      decide (sender = ⟨r.prevPrivateNoteCode, initialDataHash⟩))

/-- Reserve of a currency without what the message brought along; `none` where a cast throws. -/
def reserve (r : Root) (attached : Currencies) (tokenType : ℕ) : Option ℕ :=
  (cast128 ((attached.get? tokenType).getD 0)).bind fun amount =>
    (cast128 (r.currencies tokenType + (attached.get? tokenType).getD 0)).map fun held =>
      if amount < held then held - amount else 0

/-- Whether reserves and deployed values cover the amounts, up to the first that they do not. -/
def covers (r : Root) (attached : Currencies) : List (ℕ × ℕ) → Option Bool
  | [] => some true
  | e :: amounts => (r.reserve attached e.1).bind fun reserve =>
    if 0 < e.2 ∧ (reserve < e.2 ∨ r.deployedValues e.1 < e.2) then some false
    else r.covers attached amounts

/-- What the note attached passes through, so the currencies of the root only lose the amounts. A
call that throws is not sent back. -/
def withdrawTokens (r : Root) (sender : NoteAddr) (attached amounts : Currencies)
    (initialDataHash : ℕ) : Withdrawal :=
  if ¬ r.serves sender initialDataHash then .refused
  else match r.covers attached amounts.entries with
    | none => .refused
    | some false => .revert
    | some true => .paid { r with
      deployedValues := fun k => r.deployedValues k - (amounts.get? k).getD 0
      currencies := fun k => r.currencies k - (amounts.get? k).getD 0 }

def reportDealWriteOff (r : Root) (sender : Addr) (sellerPubkey nonce amount : ℕ) : Option Root :=
  if sender = .deal sellerPubkey nonce ∧
      r.writtenOff CURRENCIES_ID_SHELL + amount < 2 ^ 128 then
    let pool := r.deployedValues CURRENCIES_ID_SHELL
    some { r with
      writtenOff := Function.update r.writtenOff CURRENCIES_ID_SHELL
        (r.writtenOff CURRENCIES_ID_SHELL + amount)
      deployedValues := Function.update r.deployedValues CURRENCIES_ID_SHELL
        (if amount < pool then pool - amount else 0) }
  else none

def collectProtocolFee (r : Root) (sender : BookAddr) (market : MarketId) (amount : ℕ) :
    Option Root :=
  if sender = ⟨r.privateNoteCode, r.pmpCode, r.orderBookCode, market⟩ ∧
      r.protocolFees market.tokenType + amount < 2 ^ 128 then
    some { r with
      protocolFees := Function.update r.protocolFees market.tokenType
        (r.protocolFees market.tokenType + amount) }
  else none

/-- The requires of `withdrawProtocolFees`. -/
def feesCovered (r : Root) (tokenType amount : ℕ) : Prop :=
  (0 < amount ∧ amount ≤ r.protocolFees tokenType) ∧
    amount ≤ r.currencies tokenType ∧ amount ≤ r.deployedValues tokenType

instance (r : Root) (tokenType amount : ℕ) : Decidable (r.feesCovered tokenType amount) :=
  inferInstanceAs (Decidable (_ ∧ _))

def withdrawProtocolFees (r : Root) (pubkey tokenType amount : ℕ) : Option Root :=
  if pubkey = r.ownerPubkey ∧ r.feesCovered tokenType amount then
    some { r with
      protocolFees := Function.update r.protocolFees tokenType (r.protocolFees tokenType - amount)
      deployedValues := Function.update r.deployedValues tokenType
        (r.deployedValues tokenType - amount)
      currencies := Function.update r.currencies tokenType (r.currencies tokenType - amount) }
  else none

end Root

/-- Public inputs of the proof. -/
structure PubInputs where
  depositIdentifierHash : ℕ
  finalLayerHistoricalHashRoot : ℕ
  voucherNominalFr : ℕ
  tokenTypeFr : ℕ
  ephemeralPubkeyFr : ℕ

/-- What the node checks: whether a hash is a root over the vouchers emitted so far, and a proof
against public inputs. A proof that passes both names, by its first instance, one voucher that was
emitted, with the nominal and the token type of the inputs. -/
structure Prover (Proof : Type) where
  dihOf : Voucher → ℕ
  checkLayerHash : List Voucher → ℕ → ℕ → Bool
  zkhalo2verify : PubInputs → Proof → Bool
  sound : ∀ {emitted : List Voucher} {layer : ℕ} {pub : PubInputs} {proof : Proof},
    checkLayerHash emitted pub.finalLayerHistoricalHashRoot layer = true →
    zkhalo2verify pub proof = true →
    ∃ v ∈ emitted, (dihOf v = pub.depositIdentifierHash ∧
      u256ToFr v.voucherNominal = pub.voucherNominalFr ∧ u32ToFr v.tokenType = pub.tokenTypeFr) ∧
      ∀ v' ∈ emitted, dihOf v' = pub.depositIdentifierHash → v' = v

/-- Arguments of `deployPrivateNote`, with the key that signed the message. -/
structure DeployArgs (Proof : Type) where
  zkproof : Proof
  depositIdentifierHash : ℕ
  finalLayerHistoricalHashRoot : ℕ
  voucherNominalFr : ℕ
  tokenTypeFr : ℕ
  ephemeralPubkey : ℕ
  value : ℕ
  tokenType : ℕ
  layerNumber : ℕ
  pubkey : ℕ
  tokenType_lt : tokenType < 2 ^ 32
  value_lt : value < 2 ^ 64

/-- Arguments of `sendEccShellToPrivateNote`, with the key that signed the message. -/
structure FeeArgs (Proof : Type) where
  proof : Proof
  nullifierHash : ℕ
  depositIdentifierHash : ℕ
  finalLayerHistoricalHashRoot : ℕ
  voucherNominalFr : ℕ
  tokenTypeFr : ℕ
  value : ℕ
  layerNumber : ℕ
  recipientEphemeralPubkey : ℕ
  pubkey : ℕ
  value_lt : value < 2 ^ 64

/-- Figures of a note. -/
structure Note where
  ephemeralPubkey : ℕ
  balance : Currencies
  hasWithdrawn : Bool

/-- Messages between the root, its notes and its nullifiers. -/
inductive Mail
  | deployNote (note : NoteAddr) (value ephemeralPubkey tokenType : ℕ)
  | deployNullifier (nullifier : NullifierAddr) (note : NoteAddr) (value : ℕ)
  | bounce (value : ℕ)
  | privateNoteDeployed (note : NoteAddr) (tokenType value : ℕ)
  | transfer (note : NoteAddr) (value : ℕ)
  | withdrawTokens (note : NoteAddr) (amounts : Currencies) (held : ℕ)
  | revertWithdraw (note : NoteAddr) (amounts : Currencies) (held : ℕ)

/-- The root with its vouchers, the notes and nullifiers that exist, SHELL on the accounts of
notes, and the messages on their way. -/
structure Vault where
  root : Root
  emitted : List Voucher
  notes : List NoteAddr
  note : NoteAddr → Note
  shell : NoteAddr → ℕ
  nullifiers : List NullifierAddr
  mail : List Mail

/-- What happens next: a call of the root, currency that comes in without one, a withdrawal of a
note, another operation of a note with its markets, or the arrival of a message. A deploy may fail
on arrival. -/
inductive Event (Proof : Type)
  | generateVoucher (currencies : Currencies) (skUCommit : ℕ) (isFee : Bool)
  | deployPrivateNote (a : DeployArgs Proof)
  | sendEccShellToPrivateNote (a : FeeArgs Proof)
  | updateCode (pubkey : ℕ) (cell : Migration)
  | setPrivateNoteCode (pubkey : ℕ) (code : Code)
  | setPrevPrivateNoteCode (pubkey : ℕ) (code : Code)
  | setInferenceOrderBookCode (pubkey : ℕ) (code : Code)
  | setTokenContractCode (pubkey : ℕ) (code : Code)
  | reportDealWriteOff (sender : Addr) (sellerPubkey nonce amount : ℕ)
  | collectProtocolFee (sender : BookAddr) (market : MarketId) (amount : ℕ)
  | withdrawProtocolFees (pubkey tokenType amount : ℕ)
  | receive (tokenType amount : ℕ)
  | withdrawTokens (note : NoteAddr)
  | trade (note : NoteAddr) (balance : Currencies) (shell : ℕ)
  | arrive (i : ℕ) (fails : Bool)

namespace Vault

variable {Proof : Type}

def init (root : Root) : Vault :=
  ⟨root, [], [], fun _ => ⟨0, Dict.empty, false⟩, fun _ => 0, [], []⟩

def post (s : Vault) (m : Mail) : Vault := { s with mail := s.mail ++ [m] }

/-- The requires of `deployPrivateNote`. -/
def admits (node : Prover Proof) (s : Vault) (a : DeployArgs Proof) : Bool :=
  node.checkLayerHash s.emitted a.finalLayerHistoricalHashRoot a.layerNumber &&
  decide (u64ToFr a.value = a.voucherNominalFr) &&
  decide (u32ToFr a.tokenType = a.tokenTypeFr) &&
  decide (a.ephemeralPubkey ≠ 0) &&
  decide (a.pubkey = a.ephemeralPubkey) &&
  decide (a.tokenType ≠ CURRENCIES_ID_SHELL_FEE) &&
  node.zkhalo2verify ⟨a.depositIdentifierHash, a.finalLayerHistoricalHashRoot, a.voucherNominalFr,
    a.tokenTypeFr, u256ToFr a.ephemeralPubkey⟩ a.zkproof

/-- The requires of `sendEccShellToPrivateNote`. -/
def admitsFee (node : Prover Proof) (s : Vault) (a : FeeArgs Proof) : Bool :=
  decide (a.pubkey = a.recipientEphemeralPubkey) &&
  decide (a.recipientEphemeralPubkey ≠ 0) &&
  node.checkLayerHash s.emitted a.finalLayerHistoricalHashRoot a.layerNumber &&
  decide (u64ToFr a.value = a.voucherNominalFr) &&
  decide (u32ToFr CURRENCIES_ID_SHELL_FEE = a.tokenTypeFr) &&
  node.zkhalo2verify ⟨a.nullifierHash, a.finalLayerHistoricalHashRoot, a.voucherNominalFr,
    a.tokenTypeFr, u256ToFr a.recipientEphemeralPubkey⟩ a.proof

/-- Root of the system after an owner's call. -/
def withRoot (s : Vault) : Option Root → Option Vault
  | none => none
  | some root => some { s with root := root }

/-- The constructor of a note, whose deploy carried `GAS_DEPOSIT`. -/
def construct (s : Vault) (note : NoteAddr) (value ephemeralPubkey tokenType : ℕ) : Vault :=
  { s with
    notes := note :: s.notes
    note := Function.update s.note note ⟨ephemeralPubkey, Dict.empty.insert tokenType value, false⟩
    shell := Function.update s.shell note (s.shell note + GAS_DEPOSIT) }.post
      (.privateNoteDeployed note tokenType value)

/-- The constructor of a nullifier. -/
def nullify (s : Vault) (nullifier : NullifierAddr) (note : NoteAddr) (value : ℕ) : Vault :=
  { s with nullifiers := nullifier :: s.nullifiers }.post (.transfer note value)

/-- The amounts of a withdrawal on top of a balance. -/
def restored (balance amounts : Currencies) : Currencies :=
  amounts.entries.foldl (fun b e => b.insert e.1 ((b.get? e.1).getD 0 + e.2)) balance

/-- SHELL attached to a withdrawal. -/
def attached (held : ℕ) : Currencies :=
  if 0 < held then Dict.empty.insert CURRENCIES_ID_SHELL held else Dict.empty

/-- A message arrives. A deploy to an account that exists fails, and a deploy that fails bounces
with its currency; a withdrawal does not bounce. -/
def receive (s : Vault) (fails : Bool) : Mail → Vault
  | .deployNote note value ephemeralPubkey tokenType =>
    if fails ∨ note ∈ s.notes then s.post (.bounce GAS_DEPOSIT)
    else s.construct note value ephemeralPubkey tokenType
  | .deployNullifier nullifier note value =>
    if fails ∨ nullifier ∈ s.nullifiers then s.post (.bounce value)
    else s.nullify nullifier note value
  | .bounce value => { s with root := s.root.receive CURRENCIES_ID_SHELL value }
  | .privateNoteDeployed note tokenType value => { s with
      root := s.root.privateNoteDeployed note note.depositIdentifierHash tokenType value }
  | .transfer note value =>
    { s with shell := Function.update s.shell note (s.shell note + value) }
  | .withdrawTokens note amounts held =>
    match s.root.withdrawTokens note (attached held) amounts note.depositIdentifierHash with
    | .refused => { s with root := s.root.receive CURRENCIES_ID_SHELL held }
    | .revert => s.post (.revertWithdraw note amounts held)
    | .paid root => { s with root := root }
  | .revertWithdraw note amounts held => { s with
      note := Function.update s.note note { s.note note with
        balance := restored (s.note note).balance amounts
        hasWithdrawn := false }
      shell := Function.update s.shell note (s.shell note + held) }

/-- A note withdraws all it has; `none` where it is gone or has withdrawn. -/
def withdraw (s : Vault) (note : NoteAddr) : Option Vault :=
  if note ∈ s.notes ∧ (s.note note).hasWithdrawn = false then
    some ({ s with
      note := Function.update s.note note { s.note note with
        balance := Dict.empty
        hasWithdrawn := true }
      shell := Function.update s.shell note 0 }.post
        (.withdrawTokens note (s.note note).balance (s.shell note)))
  else none

/-- One event; `none` where a call is refused. -/
def step (node : Prover Proof) (s : Vault) : Event Proof → Option Vault
  | .generateVoucher currencies skUCommit isFee =>
    match RootPN.generateVoucher currencies skUCommit isFee with
    | .error _ => none
    | .ok v => some { s with
        emitted := s.emitted ++ [v]
        root := { s.root with
          currencies := fun k => s.root.currencies k + (currencies.get? k).getD 0 } }
  | .deployPrivateNote a =>
    if s.admits node a ∧ GAS_DEPOSIT ≤ s.root.currencies CURRENCIES_ID_SHELL then
      some ({ s with root := s.root.pay CURRENCIES_ID_SHELL GAS_DEPOSIT }.post
        (.deployNote ⟨s.root.privateNoteCode, a.depositIdentifierHash⟩ a.value a.ephemeralPubkey
          a.tokenType))
    else none
  | .sendEccShellToPrivateNote a =>
    if s.admitsFee node a ∧ a.value ≤ s.root.currencies CURRENCIES_ID_SHELL then
      some ({ s with root := s.root.pay CURRENCIES_ID_SHELL a.value }.post
        (.deployNullifier ⟨s.root.nullifierCode, a.nullifierHash⟩
          ⟨s.root.privateNoteCode, a.depositIdentifierHash⟩ a.value))
    else none
  | .updateCode pubkey cell => s.withRoot (s.root.updateCode pubkey cell)
  | .setPrivateNoteCode pubkey code => s.withRoot (s.root.setPrivateNoteCode pubkey code)
  | .setPrevPrivateNoteCode pubkey code => s.withRoot (s.root.setPrevPrivateNoteCode pubkey code)
  | .setInferenceOrderBookCode pubkey code =>
    s.withRoot (s.root.setInferenceOrderBookCode pubkey code)
  | .setTokenContractCode pubkey code => s.withRoot (s.root.setTokenContractCode pubkey code)
  | .reportDealWriteOff sender sellerPubkey nonce amount =>
    s.withRoot (s.root.reportDealWriteOff sender sellerPubkey nonce amount)
  | .collectProtocolFee sender market amount =>
    s.withRoot (s.root.collectProtocolFee sender market amount)
  | .withdrawProtocolFees pubkey tokenType amount =>
    s.withRoot (s.root.withdrawProtocolFees pubkey tokenType amount)
  | .receive tokenType amount => some { s with root := s.root.receive tokenType amount }
  | .withdrawTokens note => s.withdraw note
  | .trade note balance shell =>
    if note ∈ s.notes then
      some { s with
        note := Function.update s.note note { s.note note with balance := balance }
        shell := Function.update s.shell note shell }
    else none
  | .arrive i fails =>
    match s.mail[i]? with
    | none => none
    | some m => some ({ s with mail := s.mail.eraseIdx i }.receive fails m)

end Vault

end Dexdo.RootPN
