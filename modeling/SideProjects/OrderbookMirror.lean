import SideProjects.PriceTime

/-!
# The mirrored book

Buying and selling exchanged: a price `p` becomes `-1 - p`, which turns the order of the prices
around and stays within them, the bids become the asks and the asks the bids. A mirrored trade has
its two legs exchanged.
-/

namespace SideProjects

namespace Orderbook

def mirrorPrice (price : Price) : Price := -1 - price

def Order.mirror (order : Order) : Order :=
  { order with side := order.side.opposite, price := mirrorPrice order.price }

def OrderModify.mirror (order : OrderModify) : OrderModify :=
  { order with side := order.side.opposite, price := mirrorPrice order.price }

def TradeInfo.mirror (info : TradeInfo) : TradeInfo := { info with price := mirrorPrice info.price }

def Trade.mirror (trade : Trade) : Trade := ⟨trade.askTrade.mirror, trade.bidTrade.mirror⟩

def Node.mirror (node : Node) : Node := { node with order := node.order.mirror }

def OrderEntry.mirror (entry : OrderEntry) : OrderEntry := { entry with order := entry.order.mirror }

def Call.mirror : Call → Call
  | .addOrder orderType orderId side price quantity =>
    .addOrder orderType orderId side.opposite (mirrorPrice price) quantity
  | .cancelOrder orderId => .cancelOrder orderId
  | .matchOrder order => .matchOrder order.mirror

theorem toInt_mirrorPrice (price : Price) : (mirrorPrice price).toInt = -1 - price.toInt := by
  have h₁ := price.toInt_lt
  have h₂ := price.le_toInt
  unfold mirrorPrice
  rw [Int32.toInt_sub, show (-1 : Int32).toInt = -1 from rfl]
  exact Int.bmod_eq_of_le (by omega) (by omega)

theorem better_mirror (s : Side) (p q : Price) :
    better s.opposite (mirrorPrice p) (mirrorPrice q) ↔ better s p q := by
  cases s <;> simp only [better, Side.opposite, Int32.lt_iff_toInt_lt, gt_iff_lt,
    toInt_mirrorPrice] <;> omega

/-- A side's levels as the other side's. -/
def mirrorLevels {s : Side} : Levels s → Levels s.opposite :=
  SortedMap.map mirrorPrice (List.map Node.mirror) fun p q => (better_mirror s p q).mpr

def mirror (book : Orderbook) : Orderbook where
  bids := mirrorLevels book.asks
  asks := mirrorLevels book.bids
  orders := book.orders.map id OrderEntry.mirror fun _ _ h => h

end Orderbook

end SideProjects
