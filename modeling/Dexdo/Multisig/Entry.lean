import Dexdo.Lib.Dict
import Dexdo.Lib.Mapping

namespace Dexdo

/-- What the wallet uses of the virtual machine: the hash of a cell with a key and an address,
taken to be free of collisions, and the cast of an amount to `varuint16`, which may throw. -/
structure Tvm where
  hash : ℕ → ℕ → ℕ
  hash_inj : ∀ {k a k' a' : ℕ}, hash k a = hash k' a' → k = k' ∧ a = a'
  varuint16 : ℕ → Option ℕ

namespace Multisig

def MAX_QUEUED_REQUESTS : ℕ := 5

/-- Lifetime of a request in seconds, one hour. -/
def EXPIRATION_TIME : ℕ := 3601

def MAX_CUSTODIAN_COUNT : ℕ := 32
def ZERO_TIME : ℕ := 1000000000
def SENDMSG_ALL_BALANCE : ℕ := 128

structure Custodian where
  ownerPubkey : Option ℕ
  ownerAddress : Option ℕ
  index : ℕ
  deriving DecidableEq, Inhabited

/-- A transfer a custodian asks for. Addresses are numbers, zero for `address(0)`. -/
structure Transfer (Cell : Type) where
  dest : ℕ
  value : ℕ
  cc : Mapping ℕ ℕ
  sendFlags : ℕ
  payload : Cell
  bounce : Bool
  dappId : ℕ

/-- Custodians and numbers of confirmations, as the constructor and an update name them. -/
structure Owners where
  ownersPubkey : List ℕ
  ownersAddress : List ℕ
  reqConfirms : ℕ
  reqConfirmsData : ℕ
  deriving DecidableEq

/-- A request waiting for confirmations. The two kinds differ in their last fields, the `body`. -/
structure Request (α : Type) where
  id : ℕ
  confirmationsMask : ℕ
  signsRequired : ℕ
  signsReceived : ℕ
  creator : Custodian
  body : α

abbrev Transaction (Cell : Type) := Request (Transfer Cell)
abbrev UpdateData := Request Owners

/-- Requests by id. -/
abbrev Queue (α : Type) := Dict ℕ (Request α)

/-- Outgoing message of `dest.transfer`. -/
structure Message (Cell : Type) where
  dest : ℕ
  value : ℕ
  bounce : Bool
  flags : ℕ
  payload : Cell
  cc : Mapping ℕ ℕ

/-- A failed `require`, or a number outside the range of its type. -/
inductive Fault
  | require (code : ℕ)
  | range
  deriving DecidableEq

inductive Kind
  | transfer
  | update
  deriving DecidableEq

/-- What an entry that did not throw has done: sent a message, installed custodians, stored a
confirmation, deleted an expired request, or none of these. The id is that of the request; what
needs one confirmation only is done at once and has none. -/
inductive Effect (Cell : Type)
  | sent (id : Option ℕ) (m : Message Cell)
  | updated (id : Option ℕ) (p : Owners)
  | confirmed (kind : Kind) (id : ℕ)
  | dropped (kind : Kind) (id : ℕ)
  | limited

/-- Time and logical time of the transaction. The clock has 32 bits, so ids have 64. -/
structure Block where
  now : ℕ
  logicaltime : ℕ

/-- Public entries. -/
inductive Call (Cell : Type)
  | setMaxCleanupOperations (value : ℕ)
  | sendTransaction (t : Transfer Cell)
  | submitTransaction (t : Transfer Cell)
  | confirmTransaction (transactionId : ℕ)
  | submitDataUpdate (p : Owners)
  | confirmDataUpdate (dataUpdateId : ℕ)

/-- An incoming message: `msg.pubkey()`, `msg.sender` and the entry. An external message has
`address(0)` as sender, an internal one no key. -/
structure Incoming (Cell : Type) where
  block : Block
  pubkey : ℕ
  sender : ℕ
  call : Call Cell

end Multisig

open Multisig in
/-- Storage of the wallet. -/
structure Multisig (Cell : Type) where
  ownerKey : Option ℕ
  ownerAddress : Option ℕ
  requestsMask : ℕ
  requestsMaskData : ℕ
  transactions : Queue (Transfer Cell)
  data : Queue Owners
  custodians : Mapping ℕ Custodian
  custodianCount : ℕ
  defaultRequiredConfirmations : ℕ
  defaultRequiredConfirmationsData : ℕ
  maxCleanupOperations : ℕ

namespace Multisig

/-- Storage after a message, and its effect. -/
structure Answer (Cell : Type) where
  storage : Multisig Cell
  effect : Except Fault (Effect Cell)

/-- Who signed or sent a message. -/
def Incoming.who {Cell : Type} (l : Incoming Cell) : ℕ × ℕ := (l.pubkey, l.sender)

/-- The identities that may confirm, in the order of their indices. -/
def Owners.owners (p : Owners) : List (ℕ × ℕ) :=
  p.ownersPubkey.map (·, 0) ++ p.ownersAddress.map (0, ·)

end Multisig

end Dexdo

namespace Dexdo.Multisig

variable {Cell α : Type}

/-- `_getMaskValue`. -/
def getMaskValue (mask index : ℕ) : ℕ := (mask >>> (8 * index)) &&& 0xFF

/-- `_incMaskValue` in 256 bits. -/
def incMaskValue (mask index : ℕ) : Option ℕ :=
  let sum := mask + (1 <<< (8 * index))
  if sum < 2 ^ 256 then some sum else none

/-- `_decMaskValue`. -/
def decMaskValue (mask index : ℕ) : Option ℕ :=
  let unit := 1 <<< (8 * index)
  if unit ≤ mask then some (mask - unit) else none

/-- `_checkBit`, under the name it is called by. -/
def isConfirmed (mask custodianIndex : ℕ) : Bool := decide (mask &&& (1 <<< custodianIndex) ≠ 0)

/-- `_setConfirmed`. -/
def setConfirmed (mask custodianIndex : ℕ) : ℕ := mask ||| (1 <<< custodianIndex)

namespace Block

/-- `_generateId`. -/
def generateId (b : Block) : Option ℕ :=
  if ZERO_TIME ≤ b.now then
    some (((b.now - ZERO_TIME) <<< 32) ||| (b.logicaltime &&& 0xFFFFFFFF))
  else none

/-- `_getExpirationBound`. -/
def getExpirationBound (b : Block) : Option ℕ :=
  if EXPIRATION_TIME + ZERO_TIME ≤ b.now then some ((b.now - EXPIRATION_TIME - ZERO_TIME) <<< 32)
  else none

end Block

/-- A loop of `_initialize`: the owners of one list take the indices that follow, those already
there are passed over. -/
def enlist (tvm : Tvm) (owner : ℕ → ℕ × ℕ) (custodian : ℕ → ℕ → Custodian) :
    List ℕ → Mapping ℕ Custodian × ℕ → Except Fault (Mapping ℕ Custodian × ℕ)
  | [], acc => .ok acc
  | x :: xs, acc =>
    if x = 0 then .error (.require 101)
    else
      let hashKey := tvm.hash (owner x).1 (owner x).2
      enlist tvm owner custodian xs
        (if acc.1.has hashKey then acc
        else (AList.insert hashKey (custodian x acc.2) acc.1, acc.2 + 1))

def enlistPubkeys (tvm : Tvm) := enlist tvm (·, 0) fun key index => ⟨some key, none, index⟩

def enlistAddresses (tvm : Tvm) := enlist tvm (0, ·) fun addr index => ⟨none, some addr, index⟩

/-- `_initialize`, which overwrites the whole storage. -/
def initializeOwners (tvm : Tvm) (p : Owners) : Except Fault (Multisig Cell) :=
  let keysCount := p.ownersPubkey.length + p.ownersAddress.length
  if ¬ (0 < keysCount ∧ keysCount ≤ MAX_CUSTODIAN_COUNT) then .error (.require 117)
  else
    match enlistPubkeys tvm p.ownersPubkey (∅, 0) with
    | .error e => .error e
    | .ok acc =>
      match enlistAddresses tvm p.ownersAddress acc with
      | .error e => .error e
      | .ok (custodians, ownerCount) =>
        if ¬ 0 < ownerCount then .error (.require 101)
        else
          let required := if ownerCount ≤ p.reqConfirms then ownerCount else p.reqConfirms
          let requiredData :=
            if ownerCount ≤ p.reqConfirmsData then ownerCount else p.reqConfirmsData
          .ok
            { ownerKey := p.ownersPubkey.head?
              ownerAddress := p.ownersAddress.head?
              requestsMask := 0
              requestsMaskData := 0
              transactions := .empty
              data := .empty
              custodians := custodians
              custodianCount := ownerCount
              defaultRequiredConfirmations := required
              defaultRequiredConfirmationsData :=
                if requiredData ≤ required then required else requiredData
              maxCleanupOperations := 40 }

/-- The constructor, signed with `pubkey` for a contract deployed under `ownPubkey`. -/
def deploy (tvm : Tvm) (pubkey ownPubkey : ℕ) (p : Owners) : Except Fault (Multisig Cell) :=
  if pubkey ≠ ownPubkey then .error (.require 100)
  else if p.reqConfirms = 0 ∨ p.reqConfirmsData = 0 then .error (.require 123)
  else initializeOwners tvm p

/-- `dest.transfer`. -/
def Transfer.message (tvm : Tvm) (t : Transfer Cell) : Option (Message Cell) :=
  (tvm.varuint16 t.value).map fun value => ⟨t.dest, value, t.bounce, t.sendFlags, t.payload, t.cc⟩

/-- What `submitTransaction` makes of its arguments. -/
def Transfer.queued (t : Transfer Cell) : Transfer Cell :=
  if t.sendFlags &&& SENDMSG_ALL_BALANCE ≠ 0 then { t with value := 0 } else t

/-- The loop of `_removeExpiredTransactions` and `_removeExpiredDataUpdate` with the number of
operations left; the request at hand is expired. -/
def cleanup (marker : ℕ) : ℕ → ℕ × Request α → ℕ × Queue α → Option (ℕ × Queue α)
  | 0, _, acc => some acc
  | n + 1, (id, r), (mask, queue) =>
    match decMaskValue mask r.creator.index with
    | none => none
    | some mask =>
      let queue := queue.erase id
      match queue.next? id with
      | none => some (mask, queue)
      | some e => if e.1 ≤ marker then cleanup marker n e (mask, queue) else some (mask, queue)

/-- A counter mask and the queue it counts, without the expired requests found first. -/
def removeExpired (marker maxCleanup mask : ℕ) (queue : Queue α) : Option (ℕ × Queue α) :=
  match queue.min? with
  | none => some (mask, queue)
  | some e => if e.1 ≤ marker then cleanup marker maxCleanup e (mask, queue)
    else some (mask, queue)

/-- A request with one more confirmation stored. -/
def Request.confirm (r : Request α) (custodianIndex : ℕ) : Request α :=
  { r with
    confirmationsMask := setConfirmed r.confirmationsMask custodianIndex
    signsReceived := r.signsReceived + 1 }

/-- The next confirmation is the last one needed. -/
def Request.isComplete (r : Request α) : Bool := decide (r.signsRequired ≤ r.signsReceived + 1)

section Wallet

variable (tvm : Tvm) (s : Multisig Cell) (l : Incoming Cell)

/-- `_findCustodian`. -/
def findCustodian : Option Custodian := s.custodians.lookup (tvm.hash l.pubkey l.sender)

def removeExpiredTransactions (b : Block) : Option (Multisig Cell) :=
  match b.getExpirationBound with
  | none => none
  | some marker =>
    (removeExpired marker s.maxCleanupOperations s.requestsMask s.transactions).map fun acc =>
      { s with requestsMask := acc.1, transactions := acc.2 }

def removeExpiredDataUpdate (b : Block) : Option (Multisig Cell) :=
  match b.getExpirationBound with
  | none => none
  | some marker =>
    (removeExpired marker s.maxCleanupOperations s.requestsMaskData s.data).map fun acc =>
      { s with requestsMaskData := acc.1, data := acc.2 }

/-- `_confirmTransaction`. -/
def confirmTxn (transactionId : ℕ) (txn : Transaction Cell) (custodianIndex : ℕ) :
    Except Fault (Multisig Cell × Effect Cell) :=
  if txn.isComplete then
    match txn.body.message tvm, decMaskValue s.requestsMask txn.creator.index with
    | some m, some mask =>
      .ok ({ s with requestsMask := mask, transactions := s.transactions.erase transactionId },
        .sent (some transactionId) m)
    | _, _ => .error .range
  else
    .ok ({ s with
      transactions := s.transactions.insert transactionId (txn.confirm custodianIndex) },
      .confirmed .transfer transactionId)

/-- `_confirmDataUpdate`. -/
def confirmUpdate (dataUpdateId : ℕ) (du : UpdateData) (custodianIndex : ℕ) :
    Except Fault (Multisig Cell × Effect Cell) :=
  if du.isComplete then
    match initializeOwners tvm du.body with
    | .error e => .error e
    | .ok s => .ok (s, .updated (some dataUpdateId) du.body)
  else
    .ok ({ s with data := s.data.insert dataUpdateId (du.confirm custodianIndex) },
      .confirmed .update dataUpdateId)

def setMaxCleanupOperations (value : ℕ) : Except Fault (Multisig Cell × Effect Cell) :=
  match s.findCustodian tvm l with
  | none => .error (.require 100)
  | some _ => .ok ({ s with maxCleanupOperations := value }, .limited)

def sendTransaction (t : Transfer Cell) : Except Fault (Multisig Cell × Effect Cell) :=
  if s.custodianCount ≠ 1 then .error (.require 108)
  else if s.ownerAddress.isSome ∧ s.ownerAddress ≠ some l.sender then .error (.require 100)
  else if s.ownerKey.isSome ∧ s.ownerKey ≠ some l.pubkey then .error (.require 100)
  else
    match t.message tvm with
    | none => .error .range
    | some m => .ok (s, .sent none m)

/-- `submitTransaction` after the removal of expired requests. -/
def submitTransaction (cstd : Custodian) (t : Transfer Cell) :
    Except Fault (Multisig Cell × Effect Cell) :=
  if ¬ getMaskValue s.requestsMask cstd.index < MAX_QUEUED_REQUESTS then .error (.require 113)
  else if s.defaultRequiredConfirmations = 1 then
    match t.queued.message tvm with
    | none => .error .range
    | some m => .ok (s, .sent none m)
  else
    match incMaskValue s.requestsMask cstd.index, l.block.generateId with
    | some mask, some trId =>
      confirmTxn tvm { s with requestsMask := mask } trId
        ⟨trId, 0, s.defaultRequiredConfirmations, 0, cstd, t.queued⟩ cstd.index
    | _, _ => .error .range

/-- `confirmTransaction` after the removal of expired requests. -/
def confirmTransaction (cstd : Custodian) (transactionId : ℕ) :
    Except Fault (Multisig Cell × Effect Cell) :=
  match s.transactions.get? transactionId with
  | none => .error (.require 102)
  | some txn =>
    if isConfirmed txn.confirmationsMask cstd.index then .error (.require 103)
    else
      match l.block.getExpirationBound with
      | none => .error .range
      | some marker =>
        if transactionId ≤ marker then
          .ok ({ s with transactions := s.transactions.erase transactionId },
            .dropped .transfer transactionId)
        else confirmTxn tvm s transactionId txn cstd.index

/-- `submitDataUpdate` after the removal of expired requests. -/
def submitDataUpdate (cstd : Custodian) (p : Owners) : Except Fault (Multisig Cell × Effect Cell) :=
  if ¬ getMaskValue s.requestsMaskData cstd.index < MAX_QUEUED_REQUESTS then .error (.require 113)
  else if s.defaultRequiredConfirmationsData = 1 then
    match initializeOwners tvm p with
    | .error e => .error e
    | .ok s => .ok (s, .updated none p)
  else
    match incMaskValue s.requestsMaskData cstd.index, l.block.generateId with
    | some mask, some dataUpdateId =>
      confirmUpdate tvm { s with requestsMaskData := mask } dataUpdateId
        ⟨dataUpdateId, 0, s.defaultRequiredConfirmationsData, 0, cstd, p⟩ cstd.index
    | _, _ => .error .range

/-- `confirmDataUpdate` after the removal of expired requests. -/
def confirmDataUpdate (cstd : Custodian) (dataUpdateId : ℕ) :
    Except Fault (Multisig Cell × Effect Cell) :=
  match s.data.get? dataUpdateId with
  | none => .error (.require 102)
  | some du =>
    if isConfirmed du.confirmationsMask cstd.index then .error (.require 103)
    else
      match l.block.getExpirationBound with
      | none => .error .range
      | some marker =>
        if dataUpdateId ≤ marker then
          .ok ({ s with data := s.data.erase dataUpdateId }, .dropped .update dataUpdateId)
        else confirmUpdate tvm s dataUpdateId du cstd.index

/-- The outcome of an entry that started in `s`: what was computed, or `s` and the error. -/
def settle : Except Fault (Multisig Cell × Effect Cell) → Answer Cell
  | .error e => ⟨s, .error e⟩
  | .ok (s', e) => ⟨s', .ok e⟩

/-- The four entries about requests start alike: they look the sender up and remove expired
requests. A removal is committed, so it stands when a check after it fails; where nothing was
expired the storage is the old one anyway. -/
def onRequests (cleaned : Option (Multisig Cell))
    (entry : Multisig Cell → Custodian → Except Fault (Multisig Cell × Effect Cell)) :
    Answer Cell :=
  match s.findCustodian tvm l with
  | none => ⟨s, .error (.require 100)⟩
  | some cstd =>
    match cleaned with
    | none => ⟨s, .error .range⟩
    | some s => s.settle (entry s cstd)

/-- One message. -/
def act : Answer Cell :=
  match l.call with
  | .setMaxCleanupOperations value => s.settle (s.setMaxCleanupOperations tvm l value)
  | .sendTransaction t => s.settle (s.sendTransaction tvm l t)
  | .submitTransaction t =>
    s.onRequests tvm l (s.removeExpiredTransactions l.block) (submitTransaction tvm · l · t)
  | .confirmTransaction id =>
    s.onRequests tvm l (s.removeExpiredTransactions l.block) (confirmTransaction tvm · l · id)
  | .submitDataUpdate p =>
    if p.reqConfirms = 0 ∨ p.reqConfirmsData = 0 then ⟨s, .error (.require 123)⟩
    else s.onRequests tvm l (s.removeExpiredDataUpdate l.block) (submitDataUpdate tvm · l · p)
  | .confirmDataUpdate id =>
    s.onRequests tvm l (s.removeExpiredDataUpdate l.block) (confirmDataUpdate tvm · l · id)

/-- A message always leaves a state behind. -/
def step (s : Multisig Cell) (l : Incoming Cell) : Option (Multisig Cell) :=
  some (s.act tvm l).storage

end Wallet

end Dexdo.Multisig
