import Dexdo.OrderBook.Latch
import Dexdo.PrivateNote.Ties

namespace Dexdo

/-- What reaches a note from the order book of a market: a callback, or a message of its own that
bounced. -/
inductive Reply
  | callback (cb : Callback)
  | bounce

/-- The note takes the message for one of an order book. -/
def Caller.isBook : Caller → Bool
  | internal (.orderBook _) => true
  | _ => false

/-- Sender of a message the book processes; `processHead` is a call of the book to itself. -/
def Call.sender? : Call → Option Addr
  | executeBatch sender .. | cancelAllOrders sender .. | setResultStart sender .. |
    shutdown sender => some sender
  | processHead => none

/-- One note, the order books of all markets, and the messages between the note and each book, in
the order they were sent. -/
structure Desk where
  note : PrivateNote
  book : MarketId → Option OrderBook
  requests : MarketId → List Request
  replies : MarketId → List Reply

namespace Desk

inductive Event
  /-- A message to the note from anyone but an order book. -/
  | note (input : PrivateNote.Input)
  /-- The book of `m` processes the next message of the note. -/
  | deliver (m : MarketId) (now : ℕ)
  /-- The next message of the note comes back from the book of `m` unprocessed. -/
  | bounce (m : MarketId)
  /-- The note processes what comes next from the book of `m`. -/
  | reply (m : MarketId) (now : ℕ) (currencies : ℕ → ℕ)
  /-- A message to the book of `m` from anyone but the note. -/
  | book (m : MarketId) (call : Call)
  | deploy (m : MarketId) (resultStart numOutcomes : ℕ)

/-- Callbacks of a transaction of a book to note `d`. -/
def repliesTo (d : ℕ) (os : List Out) : List Reply :=
  (os.filter fun o => decide (o.dest = d)).map fun o => .callback o.cb

/-- Message of the note that `x` stands for. -/
def input (m : MarketId) (now : ℕ) (currencies : ℕ → ℕ) : Reply → PrivateNote.Input
  | .callback cb => ⟨⟨.internal (.orderBook m), now, currencies⟩, .orderBook m cb⟩
  | .bounce => ⟨⟨.internal (.orderBook m), now, currencies⟩, .onBounce .other⟩

/-- The note after a transaction, with what it sends to the order books. -/
def told (D : Desk) (t : PrivateNote) : Desk :=
  { D with
    note := t
    requests := fun m => D.requests m ++ (t.ties.requests.filter fun x => x.1 = m).map Prod.snd }

/-- The book of `m` after a transaction, with what it sends to the note. -/
def ran (D : Desk) (m : MarketId) (t : OrderBook) : Desk :=
  { D with
    book := Function.update D.book m (some t)
    replies := Function.update D.replies m
      (D.replies m ++ repliesTo D.note.depositIdentifierHash t.outs) }

def step (D : Desk) : Event → Option Desk
  | .note i => do
    guard (i.caller.isBook = false)
    return D.told (← D.note.step i)
  | .deliver m now =>
    match D.requests m with
    | [] => none
    | r :: rs => do
      let s ← D.book m
      let t ← s.step (r.call (.note D.note.depositIdentifierHash) now)
      return { D with requests := Function.update D.requests m rs }.ran m t
  | .bounce m =>
    match D.requests m with
    | [] => none
    | _ :: rs => some { D with
        requests := Function.update D.requests m rs
        replies := Function.update D.replies m (D.replies m ++ [.bounce]) }
  | .reply m now currencies =>
    match D.replies m with
    | [] => none
    | x :: xs => do
      let t ← D.note.step (input m now currencies x)
      return { D with replies := Function.update D.replies m xs }.told t
  | .book m call => do
    guard (call.sender? ≠ some (.note D.note.depositIdentifierHash))
    let s ← D.book m
    return D.ran m (← s.step call)
  | .deploy m resultStart numOutcomes => do
    guard ((D.book m).all OrderBook.destroyed)
    return { D with
      book := Function.update D.book m (some (.init m resultStart numOutcomes)) }

/-- A note the root has just made. No book has been deployed yet: those the note finds are deployed
and run before its first message. -/
def start (depositIdentifierHash value ephemeralPubkey tokenType codeHash codeDepth : ℕ) :
    Desk where
  note := .init depositIdentifierHash value ephemeralPubkey tokenType codeHash codeDepth
  book := fun _ => none
  requests := fun _ => []
  replies := fun _ => []

end Desk

end Dexdo
