import Dexdo.Modifiers
import Mathlib.Tactic

namespace Dexdo

/- Constants of `AiRegistryModifiers` and `TokenContract`. A tick is `DEAL_TICK_SIZE` tokens. -/
def DEAL_TICK_SIZE : ℕ := 1000000
def MAX_CLAIM_DELTA : ℕ := DEAL_TICK_SIZE
def PRICE_STEP : ℕ := 1000000000
def BPS_DENOMINATOR : ℕ := 10000
def PLATFORM_FEE_BPS : ℕ := 250
def REBATE_MAX_BPS : ℕ := 200
def REBATE_SLOPE_BPS : ℕ := 4
def PROBE_WINDOW : ℕ := 180
def DISPUTE_WINDOW : ℕ := 600
def MATCH_OPEN_TIMEOUT : ℕ := 600
def SUB_WEEK_LEN : ℕ := 604800
def SUB_WEEKS : ℕ := 4
def SUB_TICKS_PER_WEEK : ℕ := 10080
def MIN_SECONDS_PER_TICK : ℕ := 60
def CLAIM_PROMOTE_WINDOW : ℕ := MIN_SECONDS_PER_TICK
def MIN_CLAIM_INTERVAL : ℕ := MIN_SECONDS_PER_TICK
def FLAG_SUBSCRIPTION : ℕ := 0x40

/-- Whom a deal pays, and as what: the buyer, the seller, or the seller's note as the address a
destruct sweeps the rest to. -/
inductive Payee
  | buyer
  | seller
  | residual
  deriving DecidableEq

/-- External events of a deal. -/
inductive DealEvent
  | streamFunded (buyer : Addr) (deposit : ℕ)
  | sellerBondFunded (amount : ℕ)
  | buyerBondFunded (amount : ℕ)
  | streamOpened (buyer : Addr) (pricePerTick : ℕ)
  | endpointSet (endpointCipher : List ℕ)
  | tickFinalized (finalizedOwed deposit : ℕ)
  | ticksClaimed (trusted claimed : ℕ)
  | streamStopped (buyer : Addr) (toSeller refundToBuyer : ℕ)
  | probeAccepted (buyer : Addr) (toSeller bondReturned : ℕ)
  | probeBurned (buyer : Addr) (burnedProbe burnedBond refundToBuyer : ℕ)
  | streamDisputed (buyer : Addr) (time : ℕ)
  | disputeResolved (toSeller refundToBuyer : ℕ) (released : Bool)
  | shellWithdrawn (recipient : Addr) (amount : ℕ)
  | contractDestroyed
  deriving DecidableEq

/-- Outgoing actions of a deal transaction. -/
inductive DealAction
  | event (e : DealEvent)
  | creditFromDeal (payee : Payee) (dest : Addr) (amount : ℕ)
  | reportDealWriteOff (amount : ℕ)
  | onHandoverAccepted (book : Addr)
  | placeSellOffer (book : Addr) (pricePerTick maxTicks flags deadline : ℕ)
  | reportFinalized (book : Addr) (pricePerTick ticksFinalized : ℕ)
  | onDealClosed (note : Addr)
  | selfdestruct (dest : Addr)
  deriving DecidableEq

/-- Static fields and constructor arguments. -/
structure Terms where
  sellerPubkey : ℕ
  nonce : ℕ
  modelHash : ℕ
  pricePerTick : ℕ
  maxTicks : ℕ
  sellerNote : Addr

/-- The deal's SHELL and the earmarks within it. -/
structure Purse where
  balance : ℕ
  deposit : ℕ
  probeTick : ℕ
  finalizedOwed : ℕ
  feeAccrued : ℕ
  buyerBond : ℕ
  sellerBond : ℕ

/-- Deal shape and consumption, in cumulative tokens. -/
structure Meter where
  subWeeks : ℕ
  weekIndex : ℕ
  tokensPerWeek : ℕ
  fundedTokens : ℕ
  tokensPaid : ℕ
  periodStart : ℕ
  weekBaseTokens : ℕ
  tokensFinal : ℕ
  tokensPend : ℕ
  lastClaimTime : ℕ
  ticksFinalized : ℕ

/-- Parties, latches and clocks. -/
structure Stage where
  iobHash : ℕ
  iobDepth : ℕ
  noteAuthorized : Bool
  offerPosted : Bool
  buyer : Option Addr
  buyerPubkey : ℕ
  endpointCipher : List ℕ
  dealFlags : ℕ
  funded : Bool
  opened : Bool
  everOpened : Bool
  disputed : Bool
  everDisputed : Bool
  probeAccepted : Bool
  sellerBondFunded : Bool
  buyerBondFunded : Bool
  probeTime : ℕ
  fundedTime : ℕ
  disputeTime : ℕ
  destroyed : Bool

/-- Storage of one deal and the action list of its current transaction. The gas reserve the entries
burn from is apart from `balance`; an entry it does not cover is reverted and is no step. -/
structure TokenContract extends Terms, Purse, Meter, Stage where
  actions : List DealAction

def Purse.empty : Purse := ⟨0, 0, 0, 0, 0, 0, 0⟩

def Meter.empty : Meter := ⟨0, 0, 0, 0, 0, 0, 0, 0, 0, 0, 0⟩

def Stage.empty : Stage where
  iobHash := 0
  iobDepth := 0
  noteAuthorized := false
  offerPosted := false
  buyer := none
  buyerPubkey := 0
  endpointCipher := []
  dealFlags := 0
  funded := false
  opened := false
  everOpened := false
  disputed := false
  everDisputed := false
  probeAccepted := false
  sellerBondFunded := false
  buyerBondFunded := false
  probeTime := 0
  fundedTime := 0
  disputeTime := 0
  destroyed := false

/-- Platform fee on an amount. The casts of this and the figures below fit where the terms are
valid (`feeOf_eq`, `payOf_eq`, `rebate_eq`), so none throws. -/
def feeOf (amount : ℕ) : ℕ := toUint128 (amount * PLATFORM_FEE_BPS / BPS_DENOMINATOR)

namespace Terms

variable (t : Terms)

/-- Escrow of one tick: its price and the fee on it. -/
def unit : ℕ := t.pricePerTick + feeOf t.pricePerTick

def bondAmount : ℕ := 2 * t.pricePerTick

/-- Value of `n` tokens. -/
def payOf (n : ℕ) : ℕ := toUint128 (n * t.pricePerTick / DEAL_TICK_SIZE)

/-- Fee on the value of `n` tokens. -/
def payFeeOf (n : ℕ) : ℕ := feeOf (t.payOf n)

def rebate (n : ℕ) : ℕ :=
  let rateBps := if REBATE_MAX_BPS < REBATE_SLOPE_BPS * n then REBATE_MAX_BPS
    else REBATE_SLOPE_BPS * n
  toUint128 (rateBps * n * t.pricePerTick / BPS_DENOMINATOR)

/-- What the constructor checks of the terms. -/
def Valid : Prop :=
  0 < t.pricePerTick ∧ 2 ≤ t.maxTicks ∧ t.maxTicks * t.unit < 2 ^ 128

instance : Decidable t.Valid := inferInstanceAs (Decidable (_ ∧ _ ∧ _))

end Terms

namespace TokenContract

/-- Storage after the constructor. -/
def init (t : Terms) : TokenContract where
  toTerms := t
  toPurse := Purse.empty
  toMeter := Meter.empty
  toStage := Stage.empty
  actions := []

@[simps toTerms toPurse toMeter toStage actions]
def act (s : TokenContract) (a : DealAction) : TokenContract :=
  { s with actions := s.actions ++ [a] }

@[simps toTerms toPurse toMeter toStage actions]
def setPurse (s : TokenContract) (p : Purse) : TokenContract := { s with toPurse := p }

@[simps toTerms toPurse toMeter toStage actions]
def setMeter (s : TokenContract) (m : Meter) : TokenContract := { s with toMeter := m }

@[simps toTerms toPurse toMeter toStage actions]
def setStage (s : TokenContract) (g : Stage) : TokenContract := { s with toStage := g }

def emit (s : TokenContract) (e : DealEvent) : TokenContract := s.act (.event e)

/-- The address the deal holds for its buyer; address zero until a match. -/
def buyerAddr (s : TokenContract) : Addr := s.buyer.getD (.ext 0)

def isSubscription (s : TokenContract) : Bool := decide (s.subWeeks ≠ 0)

def orderBook (s : TokenContract) : Addr := .inferenceBook s.iobHash s.iobDepth s.modelHash

end TokenContract

end Dexdo
