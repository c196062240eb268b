import Mathlib.Data.List.Sort
import SideProjects.OrderbookTrace

/-!
# Price-time priority

What the order book is for. A side is one list, best price first and, at a price, earliest first;
the maps, the queues and the index of `Orderbook` are a representation of two such lists. An
incoming order is swept against the other side from the front, alone, and what is left of it is
queued behind the orders at its price or a better one, or dropped if it is `FillAndKill`. Nothing
else ever moves, so at a price the orders stand as they came.

`Fills` is the matching loop on the two lists, whichever order came last: as long as the two fronts
cross, they trade.
-/

namespace SideProjects

namespace Orderbook

def Side.opposite : Side → Side
  | .buy => .sell
  | .sell => .buy

/-- What is left of an order after a fill. -/
def Order.less (order : Order) (quantity : Quantity) : Order :=
  { order with remainingQuantity := order.remainingQuantity - quantity }

def Node.less (node : Node) (quantity : Quantity) : Node :=
  { node with order := node.order.less quantity }

/-- A limit `x` on side `s` reaches the price `y` of the other side. -/
def Crosses (s : Side) (x y : Price) : Prop := ¬ better s y x

instance (s : Side) : DecidableRel (Crosses s) := fun x y =>
  inferInstanceAs (Decidable (¬ better s y x))

namespace PriceTime

/-- The resting orders of each side. -/
structure Book where
  bids : List Order
  asks : List Order
  deriving DecidableEq

def Book.side (book : Book) : Side → List Order
  | .buy => book.bids
  | .sell => book.asks

/-- The book with the orders of side `s` and those of the other side. -/
def Book.ofSides : Side → List Order → List Order → Book
  | .buy, own, other => ⟨own, other⟩
  | .sell, own, other => ⟨other, own⟩

/-- A trade of an incoming order with a resting one. -/
def tradeWith (incoming resting : Order) (quantity : Quantity) : Trade :=
  match incoming.side with
  | .buy => tradeOf incoming resting quantity
  | .sell => tradeOf resting incoming quantity

structure Swept where
  trades : List Trade
  incoming : Order
  resting : List Order
  deriving DecidableEq

/-- The incoming order alone against the other side, while it is unfilled and crosses its front. -/
def sweep (incoming : Order) : List Order → Swept
  | [] => ⟨[], incoming, []⟩
  | front :: rest =>
    if incoming.isFilled ∨ ¬ Crosses incoming.side incoming.price front.price then
      ⟨[], incoming, front :: rest⟩
    else
      let quantity := min incoming.remainingQuantity front.remainingQuantity
      let front' := front.less quantity
      let swept :=
        if front'.isFilled then sweep (incoming.less quantity) rest
        else ⟨[], incoming.less quantity, front' :: rest⟩
      { swept with trades := tradeWith incoming front quantity :: swept.trades }

/-- Behind every order at the same price or a better one. -/
def enqueue (order : Order) (resting : List Order) : List Order :=
  resting.orderedInsert (fun a b => better order.side a.price b.price) order

def add (book : Book) (order : Order) : List Trade × Book :=
  let swept := sweep order (book.side order.side.opposite)
  let own :=
    if swept.incoming.isFilled ∨ order.orderType = .fillAndKill then book.side order.side
    else enqueue swept.incoming (book.side order.side)
  (swept.trades, .ofSides order.side own swept.resting)

/-- The book without the order of an id. -/
def cancel (book : Book) (orderId : OrderId) : Book :=
  ⟨book.bids.filter (·.orderId != orderId), book.asks.filter (·.orderId != orderId)⟩

def find? (book : Book) (orderId : OrderId) : Option Order :=
  (book.bids ++ book.asks).find? (·.orderId == orderId)

def call (book : Book) : Call → List Trade × Book
  | .addOrder orderType orderId side price quantity =>
    match find? book orderId with
    | none => add book (.new orderType orderId side price quantity)
    | some _ => ([], book)
  | .cancelOrder orderId => ([], cancel book orderId)
  | .matchOrder order =>
    match find? book order.orderId with
    | none => ([], book)
    | some existing =>
      add (cancel book order.orderId) (order.toOrderPointer existing.orderType)

/-- The trades each call returns, and the book the calls leave. -/
def run (calls : List Call) : List (List Trade) × Book := feed call ⟨[], []⟩ calls

/-- The orders of a side cut into price levels. -/
def levels : List Order → List (Price × List Order)
  | [] => []
  | order :: rest =>
    match levels rest with
    | [] => [(order.price, [order])]
    | (price, queue) :: below =>
      if order.price = price then (price, order :: queue) :: below
      else (order.price, [order]) :: (price, queue) :: below

end PriceTime

/-- No order of nothing is placed. -/
def Call.AtLeastOne : Call → Prop
  | .addOrder _ _ _ _ quantity => 1 ≤ quantity
  | .cancelOrder _ => True
  | .matchOrder order => 1 ≤ order.quantity

instance : DecidablePred Call.AtLeastOne
  | .addOrder _ _ _ _ quantity => inferInstanceAs (Decidable (1 ≤ quantity))
  | .cancelOrder _ => inferInstanceAs (Decidable True)
  | .matchOrder order => inferInstanceAs (Decidable (1 ≤ order.quantity))

/-- The two sides of the book as lists. -/
def priceTime (book : Orderbook) : PriceTime.Book :=
  ⟨(queued book.bids).map Node.order, (queued book.asks).map Node.order⟩

/-- The map of a side, its nodes read as the orders they point at. -/
def levelOrders {s : Side} (levels : Levels s) : List (Price × List Order) :=
  levels.entries.map fun l => (l.1, l.2.map Node.order)

/-- The book holds exactly the orders of `ref`: its maps are their price levels, and its index knows
their ids and no others. -/
structure Shows (book : Orderbook) (ref : PriceTime.Book) : Prop where
  bids : levelOrders book.bids = PriceTime.levels ref.bids
  asks : levelOrders book.asks = PriceTime.levels ref.asks
  orders : ∀ id, book.orders.contains id ↔ ∃ order ∈ ref.bids ++ ref.asks, order.orderId = id

/-! ## The matching loop on two lists -/

/-- The quantity two fronts trade. -/
def fillQuantity (x y : Node) : Quantity := min x.order.remainingQuantity y.order.remainingQuantity

/-- The events of a trade of the front `x` of side `s` with the front `y` of the other. -/
def frontEvents : Side → Node → Node → List Event
  | .buy, x, y => fillEvents (x.order.less (fillQuantity x y)) (y.order.less (fillQuantity x y))
      (fillQuantity x y)
  | .sell, x, y => fillEvents (y.order.less (fillQuantity y x)) (x.order.less (fillQuantity y x))
      (fillQuantity y x)

/-- The fronts of side `s` and of the other side cross and trade, any number of times. -/
inductive Fills (s : Side) :
    List Node → List Node → List Event → List Node → List Node → Prop
  | nil {xs ys} : Fills s xs ys [] xs ys
  | cons {x y xs ys events xs' ys'} (hc : Crosses s x.order.price y.order.price)
      (h : Fills s (settleQueue (x.less (fillQuantity x y)) xs)
        (settleQueue (y.less (fillQuantity x y)) ys) events xs' ys') :
      Fills s (x :: xs) (y :: ys) (frontEvents s x y ++ events) xs' ys'

end Orderbook

end SideProjects
