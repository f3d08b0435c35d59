import Dexdo.InferenceBook.Book

namespace Dexdo.InferenceOrderBook

/-- Hand a match over to its deal and tell both notes; the result includes what the buyer's escrow
is debited. The casts fit the budget of the match (`Meets.debit_eq`), so none throws. -/
def settleFill (s : InferenceOrderBook) (makerId takerId : ℕ) (buyerNote sellerNote : Addr)
    (buyerPubkey : ℕ) (sellerTC : Addr) (trade clearing : ℕ) (takerIsBuy : Bool)
    (dealFlags : UInt8) (takerClientId : ℕ) : InferenceOrderBook × ℕ :=
  let cost := toUint128 (trade * unit clearing)
  let bond := if has dealFlags FLAG_SUBSCRIPTION then toUint128 (2 * clearing) else 0
  let debit := cost + bond
  let s := { s with handoverBuyer := AList.insert sellerTC buyerNote s.handoverBuyer }
  let s := s.toDeal sellerTC (.fundFromOrderBook debit buyerNote buyerPubkey dealFlags)
  let s := { s with
    executedNotional := s.executedNotional + toUint128 (trade * clearing)
    executedTicks := s.executedTicks + trade
    matchSeq := s.matchSeq + 1 }
  let s := s.emit (.filled makerId takerId trade clearing sellerTC buyerNote sellerNote)
  let s := s.emit (.executed trade clearing cost)
  let buyerOrderId := if takerIsBuy then takerId else makerId
  let sellerOrderId := if takerIsBuy then makerId else takerId
  let makerClientId := (s.order makerId).clientOrderId
  let buyerClientId := if takerIsBuy then takerClientId else makerClientId
  let sellerClientId := if takerIsBuy then makerClientId else takerClientId
  let s := s.toNote buyerNote
    (.onInferenceFilled sellerTC buyerOrderId buyerClientId trade clearing debit true)
  let s := s.toNote sellerNote
    (.onInferenceFilled sellerTC sellerOrderId sellerClientId trade clearing debit false)
  (s, debit)

/-- Ask at which a taker trades with a maker of level `lp`. -/
def clearingOf (e : QueueEntry) (lp : ℕ) : ℕ := if e.isBuy then lp else e.price

/-- Escrow that pays for a trade of the taker with maker `mk`. -/
def budgetOf (e : QueueEntry) (mk : Order) (leftover : ℕ) : ℕ :=
  if e.isBuy then leftover else mk.escrow

/-- Ticks a budget buys, which fit as the budget does; `trade` when a tick is free. -/
def affordable (budget price trade : ℕ) : ℕ :=
  if 0 < unit price then toUint128 (budget / unit price) else trade

/-- Ticks the taker can trade with maker `mk` of level `lp`. -/
def tradeSize (e : QueueEntry) (mk : Order) (lp remaining leftover : ℕ) : ℕ :=
  let trade := if remaining < mk.amount then remaining else mk.amount
  let afford := affordable (budgetOf e mk leftover) (clearingOf e lp) trade
  if afford < trade then afford else trade

/-- An all-or-none side does not get its whole amount. -/
def breaksAon (takerFlags : UInt8) (mk : Order) (trade remaining : ℕ) : Bool :=
  (has takerFlags FLAG_AON && decide (trade < remaining)) ||
    (has mk.flags FLAG_AON && decide (trade < mk.amount))

/-- What becomes of a maker the match looks at. -/
inductive Verdict
  | skip
  | expired
  | stop
  | dust
  | fill (trade : ℕ)
  deriving DecidableEq

/-- Body of the inner match loop up to the settlement. -/
def verdict (now : ℕ) (e : QueueEntry) (mk : Order) (lp remaining leftover : ℕ) : Verdict :=
  if ¬ dealCompatible e.isBuy e.flags mk.flags then .skip
  else if isExpired now mk.deadline then .expired
  else
    let trade := tradeSize e mk lp remaining leftover
    if breaksAon e.flags mk trade remaining then .skip
    else if trade < 2 then (if e.isBuy then .stop else .dust)
    else .fill trade

/-- Why a match stopped early: a budget was used up at order `cur`, or the taker can buy no more. -/
inductive Halt
  | none
  | capped (cur : ℕ)
  | stopped
  deriving DecidableEq

/-- State of a match; `scans` is what is left of `MAX_SCAN_PER_CALL`. -/
structure MatchState where
  book : InferenceOrderBook
  remaining : ℕ
  leftover : ℕ
  matched : ℕ
  scans : ℕ
  halt : Halt

/-- The write of a fill to its maker: an ask is consumed whole, a bid shrinks or is used up. -/
def reduceMaker (s : InferenceOrderBook) (takerIsBuy : Bool) (cur : ℕ) (mk : Order)
    (trade cost : ℕ) : InferenceOrderBook :=
  let s := if takerIsBuy then s else
    s.setBook (s.toBook.modifyOrder cur ({ · with escrow := mk.escrow - cost }))
  let s := s.setBook (s.toBook.modifyOrder cur fun o => { o with filledAccum := o.filledAccum + trade })
  if takerIsBuy then s.removeFromBook cur REMOVED_FILLED 0
  else if mk.amount = trade then s.refundAndRemove cur REMOVED_FILLED
  else s.setBook (s.toBook.modifyOrder cur ({ · with amount := mk.amount - trade }))

/-- Settle a fill of the taker with resting order `cur`. -/
def fillMaker (e : QueueEntry) (takerId lp cur trade : ℕ) (m : MatchState) : MatchState :=
  let s := m.book
  let mk := s.order cur
  let clearing := clearingOf e lp
  let buyFlags := if e.isBuy then e.flags else mk.flags
  let dealFlags := buyFlags &&& DEAL_FLAGS_MASK
  let r := if e.isBuy
    then s.settleFill cur takerId e.owner mk.note e.buyerPubkey mk.tokenContract trade clearing
      e.isBuy dealFlags e.clientOrderId
    else s.settleFill cur takerId mk.note e.owner mk.buyerPubkey e.tokenContract trade clearing
      e.isBuy dealFlags e.clientOrderId
  let s := r.1
  let cost := r.2
  let fill : Fill :=
    ⟨cur, mk, e.isBuy, m.remaining, budgetOf e mk m.leftover, trade, clearing, cost, dealFlags⟩
  let s := { s with fills := s.fills ++ [fill] }
  { m with
    book := s.reduceMaker e.isBuy cur mk trade cost
    leftover := if e.isBuy then m.leftover - cost else m.leftover
    -- a taker SELL is one deal: one fill and it is consumed
    remaining := if e.isBuy then m.remaining - trade else 0
    matched := m.matched + 1 }

/-- Drop an expired maker. -/
def dropExpired (e : QueueEntry) (cur : ℕ) (m : MatchState) : MatchState :=
  { m with
    book := if e.isBuy then m.book.removeExpiredSell cur else m.book.removeExpiredBid cur
    matched := m.matched + 1 }

/-- Refund a bid too small to trade with. -/
def dropDust (cur : ℕ) (m : MatchState) : MatchState :=
  { m with
    book := { m.book with dust := m.book.dust ++ [m.book.order cur] }.refundAndRemove cur REMOVED_DUST
    matched := m.matched + 1 }

/-- Inner match loop over one level; the first argument is what is left of `MAX_SCAN_PER_CALL`. -/
def matchLevel (now : ℕ) (e : QueueEntry) (takerId lp : ℕ) : ℕ → ℕ → MatchState → MatchState
  | scans, cur, m =>
    if cur = 0 ∨ m.remaining = 0 then { m with scans := scans }
    else match scans with
      | 0 => { m with scans := 0, halt := .capped cur }
      | scans + 1 =>
        if MAX_MATCHES_PER_CALL ≤ m.matched then { m with scans := scans + 1, halt := .capped cur }
        else
          let mk := m.book.order cur
          match verdict now e mk lp m.remaining m.leftover with
          | .skip => matchLevel now e takerId lp scans mk.nextAtPrice m
          | .expired => matchLevel now e takerId lp scans mk.nextAtPrice (dropExpired e cur m)
          | .stop => { m with scans := scans, halt := .stopped }
          | .dust => matchLevel now e takerId lp scans mk.nextAtPrice (dropDust cur m)
          | .fill trade =>
            matchLevel now e takerId lp scans mk.nextAtPrice (fillMaker e takerId lp cur trade m)

/-- Outer match loop over the opposite levels, best first; a nonzero `start` is the order the
first of them is resumed at. -/
def matchLevels (now : ℕ) (e : QueueEntry) (takerId : ℕ) :
    (fuel start : ℕ) → Option (ℕ × PriceLevel) → MatchState → MatchState
  | 0, _, _, m => m
  | _ + 1, _, none, m => m
  | fuel + 1, start, some (lp, _), m =>
    if m.remaining = 0 ∨ ¬ crosses e.isBuy e.price (has e.flags FLAG_MARKET) lp then m
    else
      let cur := if start ≠ 0 then start else (m.book.level (!e.isBuy) lp).firstOrderId
      let m := matchLevel now e takerId lp m.scans cur m
      if m.halt = .none then
        matchLevels now e takerId fuel 0 (m.book.nextOpposite e.isBuy lp) m
      else m

/-- Resting order a match of taker `e` resumes at, zero for the best level. -/
def resumePoint (s : InferenceOrderBook) (e : QueueEntry) (resumeFrom : ℕ) : ℕ :=
  if resumeFrom ≠ 0 ∧ (s.order resumeFrom).amount ≠ 0 ∧ (s.order resumeFrom).isBuy ≠ e.isBuy
  then resumeFrom else 0

/-- First level of a match. -/
def startLevel (s : InferenceOrderBook) (e : QueueEntry) (start : ℕ) : Option (ℕ × PriceLevel) :=
  if start ≠ 0 then
    some ((s.order start).price, s.level (!e.isBuy) (s.order start).price)
  else s.bestOpposite e.isBuy

/-- The whole match; every level is entered at most once, so their number bounds the outer loop. -/
def matchOrder (s : InferenceOrderBook) (now : ℕ) (e : QueueEntry)
    (takerId amount buyEscrow resumeFrom : ℕ) : MatchState :=
  let start := s.resumePoint e resumeFrom
  matchLevels now e takerId ((s.levels (!e.isBuy)).entries.length + 1) start
    (s.startLevel e start) ⟨s, amount, buyEscrow, 0, MAX_SCAN_PER_CALL, .none⟩

end Dexdo.InferenceOrderBook
