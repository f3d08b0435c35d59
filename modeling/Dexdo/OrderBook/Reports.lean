import Dexdo.OrderBook.Turn

namespace Dexdo

/-- What an OrderPlaced event says about the order it announces. -/
structure Announcement where
  outcomeId : ℕ
  isBuy : Bool
  flags : UInt8
  price : ℕ
  amount : ℕ
  deriving DecidableEq

def Announcement.isMarket (a : Announcement) : Bool := a.flags &&& FLAG_MARKET != 0

/-- One side of a fill, as its OrderFilled event reports it. -/
structure Leg where
  orderId : ℕ
  amount : ℕ
  price : ℕ
  isTaker : Bool
  matchId : ℕ
  deriving DecidableEq

def Action.announces? (id : ℕ) : Action → Option Announcement
  | .event (.orderPlaced orderId outcomeId isBuy flags price amount _ _ _) =>
    if orderId = id then some ⟨outcomeId, isBuy, flags, price, amount⟩ else none
  | _ => none

def Action.leg? : Action → Option Leg
  | .event (.orderFilled orderId filledAmount clearingPrice _ isTaker matchId _) =>
    some ⟨orderId, filledAmount, clearingPrice, isTaker, matchId⟩
  | _ => none

/-- Announcements of order `id`. -/
def announced (id : ℕ) (as : List Action) : List Announcement := as.filterMap (Action.announces? id)

/-- All fill legs, oldest first. -/
def legs (as : List Action) : List Leg := as.filterMap Action.leg?

/-- Amount filled for order `id`, as maker and as taker. -/
def filledOf (id : ℕ) (as : List Action) : ℕ :=
  (((legs as).filter fun l => decide (l.orderId = id)).map Leg.amount).sum

/-- Actions of a run, oldest first. -/
def traceActions (tr : List (Call × OrderBook)) : List Action := tr.flatMap fun x => x.2.actions

/-- The announcement of an order with the parameters of a queue entry. -/
def PlaceParams.announcement (p : PlaceParams) : Announcement :=
  ⟨p.outcomeId, p.isBuy, p.flags, p.price, p.amount⟩

section Lists

variable (id : ℕ) (as as' : List Action)

theorem announced_append : announced id (as ++ as') = announced id as ++ announced id as' :=
  List.filterMap_append

theorem legs_append : legs (as ++ as') = legs as ++ legs as' := List.filterMap_append

theorem filledOf_append : filledOf id (as ++ as') = filledOf id as + filledOf id as' := by
  simp [filledOf, legs_append]

theorem traceActions_snoc (tr : List (Call × OrderBook)) (c : Call) (t : OrderBook) :
    traceActions (tr ++ [(c, t)]) = traceActions tr ++ t.actions := by simp [traceActions]

/-- Callbacks among the actions. -/
def outsOf (as : List Action) : List Out := as.filterMap Action.out?

@[simp] theorem outsOf_nil : outsOf [] = [] := rfl

@[simp] theorem outsOf_event (ev : BookEvent) (as : List Action) :
    outsOf (.event ev :: as) = outsOf as := rfl

@[simp] theorem outsOf_callback (dest : ℕ) (cb : Callback) (sub : ℕ) (c : Option ℕ)
    (as : List Action) :
    outsOf (.callback dest cb sub c :: as) = ⟨dest, cb, sub, c⟩ :: outsOf as := rfl

theorem outsOf_append (as as' : List Action) : outsOf (as ++ as') = outsOf as ++ outsOf as' :=
  List.filterMap_append

theorem filterMap_history {β : Type} (f : Action → Option β)
    (hf : ∀ a, a.isTrade = false → f a = none) (s : OrderBook) :
    s.actions.filterMap f = s.history.filterMap f := by
  unfold OrderBook.history
  rw [List.filterMap_filter]
  refine List.filterMap_congr fun a _ => ?_
  cases h : a.isTrade with
  | true => simp
  | false => simp [hf a h]

theorem announced_actions (s : OrderBook) : announced id s.actions = announced id s.history := by
  apply filterMap_history
  intro a ha
  unfold Action.isTrade at ha
  split at ha <;> simp_all [Action.announces?]

theorem legs_actions (s : OrderBook) : legs s.actions = legs s.history := by
  apply filterMap_history
  intro a ha
  unfold Action.isTrade at ha
  split at ha <;> simp_all [Action.leg?]

theorem filledOf_actions (s : OrderBook) : filledOf id s.actions = filledOf id s.history := by
  rw [filledOf, legs_actions, ← filledOf]

end Lists

namespace OrderBook

/-- One fill with its two orders. -/
structure Match where
  makerId : ℕ
  takerId : ℕ
  amount : ℕ
  price : ℕ
  matchId : ℕ

def Match.legs (m : Match) : List Leg :=
  [⟨m.makerId, m.amount, m.price, false, m.matchId⟩, ⟨m.takerId, m.amount, m.price, true, m.matchId⟩]

/-- The matches of the fills of one pass, numbered from `matchSeq + 1` on. -/
def matchesOf (takerId : ℕ) : (matchSeq : ℕ) → List Fill → List Match
  | _, [] => []
  | matchSeq, f :: fills =>
    ⟨f.maker.id, takerId, f.trade, f.maker.price, matchSeq + 1⟩ ::
      matchesOf takerId (matchSeq + 1) fills

/-- Amount the fills take from the resting order `id`. -/
def makerFilled (id : ℕ) (fills : List Fill) : ℕ :=
  ((fills.filter fun f => decide (f.maker.id = id)).map Fill.trade).sum

variable {u : OrderBook} {e : QueueEntry} {b : Book} {orderId N seq : ℕ} {fills : List Fill} {i : ℕ}

theorem announced_placedActions : announced i (placedActions e orderId) =
    if orderId = i then [e.params.announcement] else [] := by
  unfold announced placedActions
  by_cases h : orderId = i <;> simp [Action.announces?, h, PlaceParams.announcement]

theorem legs_placedActions : legs (placedActions e orderId) = [] := rfl

theorem announced_openedActions : announced i (u.openedActions e) =
    if e.targetOrderId = 0 ∧ u.nextOrderId = i then [e.params.announcement] else [] := by
  unfold openedActions
  by_cases h0 : e.targetOrderId = 0
  · rw [if_pos h0, announced_placedActions]
    simp [h0]
  · simp [h0, announced]

theorem legs_openedActions : legs (u.openedActions e) = [] := by
  unfold openedActions
  split_ifs
  · exact legs_placedActions
  · rfl

theorem announced_tradeActions : announced i (tradeActions b e orderId N seq fills) = [] := by
  induction fills generalizing seq with
  | nil => rfl
  | cons f fills ih =>
    rw [tradeActions, announced_append, ih]
    rfl

theorem legs_tradeActions : legs (tradeActions b e orderId N seq fills) =
    (matchesOf orderId seq fills).flatMap Match.legs := by
  induction fills generalizing seq with
  | nil => rfl
  | cons f fills ih =>
    rw [tradeActions, legs_append, ih, matchesOf, List.flatMap_cons]
    rfl

theorem makerFilled_cons (f : Fill) (fills : List Fill) : makerFilled i (f :: fills) =
    (if f.maker.id = i then f.trade else 0) + makerFilled i fills := by
  unfold makerFilled
  by_cases h : f.maker.id = i <;> simp [h]

theorem makerFilled_eq_zero (h : ∀ f ∈ fills, f.maker.id ≠ i) : makerFilled i fills = 0 := by
  induction fills with
  | nil => rfl
  | cons f fills ih =>
    rw [makerFilled_cons, if_neg (h f (by simp)), ih fun g hg => h g (by simp [hg])]

theorem makerFilled_of_mem (hn : (fills.map fun f => f.maker.id).Nodup) {f : Fill}
    (hf : f ∈ fills) : makerFilled f.maker.id fills = f.trade := by
  induction fills with
  | nil => cases hf
  | cons g fills ih =>
    obtain ⟨hg, hn⟩ := List.nodup_cons.mp hn
    rw [makerFilled_cons]
    rcases List.mem_cons.mp hf with rfl | hf
    · rw [if_pos rfl, makerFilled_eq_zero, Nat.add_zero]
      intro x hx he
      exact hg (List.mem_map.mpr ⟨x, hx, he⟩)
    · have hne : g.maker.id ≠ f.maker.id := fun he => hg (List.mem_map.mpr ⟨f, hf, he.symm⟩)
      rw [if_neg hne, ih hn hf, Nat.zero_add]

theorem filledOf_tradeActions : filledOf i (tradeActions b e orderId N seq fills) =
    makerFilled i fills + if orderId = i then (fills.map Fill.trade).sum else 0 := by
  unfold filledOf
  rw [legs_tradeActions]
  induction fills generalizing seq with
  | nil => simp [matchesOf, makerFilled]
  | cons f fills ih =>
    rw [matchesOf, List.flatMap_cons, List.filter_append, List.map_append, List.sum_append, ih,
      makerFilled_cons]
    by_cases h1 : f.maker.id = i <;> by_cases h2 : orderId = i <;>
      simp [Match.legs, h1, h2] <;> omega

theorem matchActions_reports (i : ℕ) :
    announced i (u.matchActions e) = announced i (u.openedActions e) ∧
    filledOf i (u.matchActions e) = makerFilled i (u.passWalk e.params).fills +
      if (u.openOrder e).2 = i then ((u.passWalk e.params).fills.map Fill.trade).sum else 0 := by
  unfold matchActions
  rw [announced_append, filledOf_append, announced_tradeActions, filledOf_tradeActions,
    List.append_nil, filledOf, legs_openedActions]
  simp

end OrderBook

end Dexdo
