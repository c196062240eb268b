import SideProjects.Lib.SortedMap

/-!
# The order book

`codealongs/cpp_orderbook/main.cpp`. Bids and asks are maps from a price to the queue of the orders
resting at it, bids from the highest price down and asks from the lowest up; `orders` finds an
order, and its place in its queue, by its id.

The C++ code reads `bid`, `ask`, `bids`, `asks`, `order` and `iterator` through references, also after
it has popped or erased what they refer to. These are uses after free, undefined in C++. A reference is
read here as the value it named, so what is proved holds where freed memory still has its values.

An `std::list` iterator is the location of a list node. A new node gets a location no queued node
has, and keeps it while it is queued. The pointer in a queue and the one in `orders` share their
order, so a fill changes both.

A loop takes fuel, and ends in `diverges` if it would still go round after it.
-/

namespace SideProjects

namespace Orderbook

inductive OrderType
  | goodTillCancel
  | fillAndKill
  deriving DecidableEq, Repr

inductive Side
  | buy
  | sell
  deriving DecidableEq, Repr

abbrev Price := Int32
abbrev Quantity := UInt32
abbrev OrderId := UInt64

/-- How a call can fail to return: an exception, undefined behaviour other than that of reading what is
freed, or a loop without end. -/
inductive Fault
  | logicError (what : String)
  | outOfRange
  | undefinedBehaviour
  | diverges
  deriving DecidableEq, Repr

structure Order where
  orderType : OrderType
  orderId : OrderId
  side : Side
  price : Price
  initialQuantity : Quantity
  remainingQuantity : Quantity
  deriving DecidableEq, Repr

namespace Order

/-- The constructor. -/
def new (orderType : OrderType) (orderId : OrderId) (side : Side) (price : Price)
    (quantity : Quantity) : Order :=
  ⟨orderType, orderId, side, price, quantity, quantity⟩

def isFilled (order : Order) : Bool := order.remainingQuantity == 0

def fill (order : Order) (quantity : Quantity) : Except Fault Order :=
  if order.remainingQuantity < quantity then
    .error (.logicError ("Order (" ++ toString order.orderId ++
      ") cannot be filled for more than its remaining quantity."))
  else .ok { order with remainingQuantity := order.remainingQuantity - quantity }

end Order

structure OrderModify where
  orderId : OrderId
  side : Side
  price : Price
  quantity : Quantity
  deriving DecidableEq, Repr

def OrderModify.toOrderPointer (order : OrderModify) (type : OrderType) : Order :=
  .new type order.orderId order.side order.price order.quantity

structure TradeInfo where
  orderId : OrderId
  price : Price
  quantity : Quantity
  deriving DecidableEq, Repr

structure Trade where
  bidTrade : TradeInfo
  askTrade : TradeInfo
  deriving DecidableEq, Repr

/-- A list node: where it is, and the order its pointer points at. -/
structure Node where
  location : ℕ
  order : Order
  deriving DecidableEq, Repr

abbrev OrderPointers := List Node

structure OrderEntry where
  order : Order
  location : ℕ
  deriving DecidableEq, Repr

/-- The comparison a side's prices are kept in: `std::greater` for bids, `std::less` for asks. -/
def better : Side → Price → Price → Prop
  | .buy, p, q => p > q
  | .sell, p, q => p < q

instance : ∀ s, DecidableRel (better s)
  | .buy, p, q => inferInstanceAs (Decidable (q < p))
  | .sell, p, q => inferInstanceAs (Decidable (p < q))

instance (s : Side) : IsStrictTotalOrder Price (better s) where
  irrefl p := by cases s <;> simp [better]
  trans p q r := by cases s <;> simp only [better] <;> grind
  trichotomous p q := by cases s <;> simp only [better] <;> grind

instance : IsStrictTotalOrder OrderId (· < ·) where
  irrefl p := by simp
  trans p q r := UInt64.lt_trans
  trichotomous p q := by grind

/-- One side of the book. -/
abbrev Levels (s : Side) := SortedMap Price OrderPointers (better s)

/-- A side's queues one after the other, best price first. -/
def queued {s : Side} (levels : Levels s) : List Node := levels.entries.flatMap Prod.snd

end Orderbook

open Orderbook in
/-- The three containers. Nothing iterates `orders_`, so its order is free: it is kept by id. -/
structure Orderbook where
  bids : Levels .buy
  asks : Levels .sell
  orders : SortedMap OrderId OrderEntry (· < ·)
  deriving DecidableEq

namespace Orderbook

def empty : Orderbook := ⟨.empty, .empty, .empty⟩

/-- Every order in the book, with its node. -/
def nodes (book : Orderbook) : List Node := queued book.bids ++ queued book.asks

/-- Where `push_back` puts a new node. -/
def newLocation (book : Orderbook) : ℕ := (book.nodes.map Node.location).foldr max 0 + 1

def size (book : Orderbook) : ℕ := book.orders.size

def canMatch (book : Orderbook) : Side → Price → Bool
  | .buy, price =>
    match book.asks.begin? with
    | none => false
    | some (bestAsk, _) => decide (price ≥ bestAsk)
  | .sell, price =>
    match book.bids.begin? with
    | none => false
    | some (bestBid, _) => decide (price ≤ bestBid)

/-- A level's queue after a change, or no level where the change emptied it. -/
def putLevel {s : Side} (levels : Levels s) (price : Price) (queue : OrderPointers) : Levels s :=
  if queue.isEmpty then levels.erase price else levels.set price queue

/-- `levels.at(price)`, the iterator's node erased there, and the level with it if it is empty. -/
def eraseNode {s : Side} (levels : Levels s) (price : Price) (iterator : ℕ) :
    Except Fault (Levels s) :=
  match levels.find? price with
  | none => .error .outOfRange
  | some orders =>
    if orders.any (·.location == iterator) then
      .ok (putLevel levels price (orders.filter (·.location != iterator)))
    else .error .undefinedBehaviour

def cancelOrder (book : Orderbook) (orderId : OrderId) : Except Fault Orderbook :=
  match book.orders.find? orderId with
  | none => .ok book
  | some ⟨order, iterator⟩ =>
    let orders := book.orders.erase orderId
    match order.side with
    | .sell => do
      let asks ← eraseNode book.asks order.price iterator
      .ok { book with asks, orders }
    | .buy => do
      let bids ← eraseNode book.bids order.price iterator
      .ok { book with bids, orders }

/-- A queue after its front was filled to `front`: `pop_front` if nothing remains of it. -/
def settleQueue (front : Node) (queue : OrderPointers) : OrderPointers :=
  if front.order.isFilled then queue else front :: queue

/-- `orders_` after a front was filled to `front`. -/
def settleOrders (front : Node) (orders : SortedMap OrderId OrderEntry (· < ·)) :
    SortedMap OrderId OrderEntry (· < ·) :=
  if front.order.isFilled then orders.erase front.order.orderId
  else orders.set front.order.orderId ⟨front.order, front.location⟩

def tradeOf (bid ask : Order) (quantity : Quantity) : Trade :=
  ⟨⟨bid.orderId, bid.price, quantity⟩, ⟨ask.orderId, ask.price, quantity⟩⟩

/-- The inner loop of `MatchOrders`, on the queues of the best bid and the best ask. -/
def matchLevel (bidPrice askPrice : Price) : ℕ → OrderPointers → OrderPointers → Orderbook →
    List Trade → Except Fault (List Trade × Orderbook)
  | fuel + 1, bid :: bids, ask :: asks, book, trades => do
    let quantity := min bid.order.remainingQuantity ask.order.remainingQuantity
    let bidOrder ← bid.order.fill quantity
    let askOrder ← ask.order.fill quantity
    let bid := { bid with order := bidOrder }
    let ask := { ask with order := askOrder }
    let bids := settleQueue bid bids
    let asks := settleQueue ask asks
    matchLevel bidPrice askPrice fuel bids asks
      { bids := putLevel book.bids bidPrice bids
        asks := putLevel book.asks askPrice asks
        orders := settleOrders ask (settleOrders bid book.orders) }
      (trades ++ [tradeOf bid.order ask.order quantity])
  | 0, _ :: _, _ :: _, _, _ => .error .diverges
  | _, _, _, book, trades => .ok (trades, book)

/-- The outer loop of `MatchOrders`. -/
def matchLevels : ℕ → Orderbook → List Trade → Except Fault (List Trade × Orderbook)
  | 0, _, _ => .error .diverges
  | fuel + 1, book, trades =>
    match book.bids.begin?, book.asks.begin? with
    | some (bidPrice, bids), some (askPrice, asks) =>
      if bidPrice < askPrice then .ok (trades, book)
      else do
        let (trades, book) ←
          matchLevel bidPrice askPrice (bids.length + asks.length) bids asks book trades
        matchLevels fuel book trades
    | _, _ => .ok (trades, book)

/-- The end of `MatchOrders`, for one side: the front of its best level goes if it is
`FillAndKill`. -/
def killFront {s : Side} (levels : Levels s) (book : Orderbook) : Except Fault Orderbook :=
  match levels.begin? with
  | none => .ok book
  | some (_, []) => .error .undefinedBehaviour
  | some (_, front :: _) =>
    if front.order.orderType = .fillAndKill then book.cancelOrder front.order.orderId else .ok book

def matchOrders (book : Orderbook) : Except Fault (List Trade × Orderbook) := do
  let (trades, book) ← matchLevels (book.bids.size + book.asks.size + 1) book []
  let book ← killFront book.bids book
  let book ← killFront book.asks book
  .ok (trades, book)

/-- `push_back` on the level of the order's price, and the order's entry. -/
def queueOrder (book : Orderbook) (order : Order) : Orderbook :=
  let node : Node := ⟨book.newLocation, order⟩
  let orders := book.orders.set order.orderId ⟨order, node.location⟩
  match order.side with
  | .buy =>
    let level := (book.bids.find? order.price).getD []
    { book with bids := book.bids.set order.price (level ++ [node]), orders }
  | .sell =>
    let level := (book.asks.find? order.price).getD []
    { book with asks := book.asks.set order.price (level ++ [node]), orders }

def addOrder (book : Orderbook) (order : Order) : Except Fault (List Trade × Orderbook) :=
  if book.orders.contains order.orderId then .ok ([], book)
  else if order.orderType = .fillAndKill ∧ !book.canMatch order.side order.price then .ok ([], book)
  else (book.queueOrder order).matchOrders

def matchOrder (book : Orderbook) (order : OrderModify) : Except Fault (List Trade × Orderbook) :=
  match book.orders.find? order.orderId with
  | none => .ok ([], book)
  | some existing => do
    let book ← book.cancelOrder order.orderId
    book.addOrder (order.toOrderPointer existing.order.orderType)

/-! ## The depth of the book -/

structure LevelInfo where
  price : Price
  quantity : Quantity
  deriving DecidableEq, Repr

structure OrderbookLevelInfos where
  bids : List LevelInfo
  asks : List LevelInfo
  deriving DecidableEq, Repr

/-- `std::accumulate` keeps its sum in a `Quantity`; the lambda widens it to `size_t` to add. -/
def createLevelInfos (price : Price) (orders : OrderPointers) : LevelInfo :=
  ⟨price, orders.foldl (fun runningSum node =>
    (runningSum.toUInt64 + node.order.remainingQuantity.toUInt64).toUInt32) 0⟩

def getOrderInfos (book : Orderbook) : OrderbookLevelInfos where
  bids := book.bids.entries.map fun l => createLevelInfos l.1 l.2
  asks := book.asks.entries.map fun l => createLevelInfos l.1 l.2

/-! ## Calls -/

/-- A call of the public interface. -/
inductive Call
  | addOrder (orderType : OrderType) (orderId : OrderId) (side : Side) (price : Price)
      (quantity : Quantity)
  | cancelOrder (orderId : OrderId)
  | matchOrder (order : OrderModify)
  deriving DecidableEq, Repr

def call (book : Orderbook) : Call → Except Fault (List Trade × Orderbook)
  | .addOrder orderType orderId side price quantity =>
    book.addOrder (.new orderType orderId side price quantity)
  | .cancelOrder orderId => do
    let book ← book.cancelOrder orderId
    .ok ([], book)
  | .matchOrder order => book.matchOrder order

end Orderbook

end SideProjects
