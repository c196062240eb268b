import SideProjects.Orderbook
import SideProjects.Lib.Runs

/-!
# What happens inside a call

The calls of `Orderbook` again, recording every order's arrival, every trade and every departure in
the order they happen. A departing order is recorded as it was when it left, with what remained of
it. Forgetting the arrivals and departures gives back the calls and the trades they return.
-/

namespace SideProjects

namespace Orderbook

inductive Event
  | inserted (order : Order)
  | traded (trade : Trade)
  | removed (order : Order)
  deriving DecidableEq, Repr

def Event.trade? : Event → Option Trade
  | .traded trade => some trade
  | _ => none

def tradesOf (events : List Event) : List Trade := events.filterMap Event.trade?

/-- The events of one round of the inner loop, which filled its two fronts to `bid` and `ask`. -/
def fillEvents (bid ask : Order) (quantity : Quantity) : List Event :=
  .traded (tradeOf bid ask quantity) ::
    ((if bid.isFilled then [.removed bid] else []) ++ if ask.isFilled then [.removed ask] else [])

namespace Traced

abbrev Result := Except Fault (List Event × Orderbook)

def cancelOrder (book : Orderbook) (orderId : OrderId) : Result :=
  (book.cancelOrder orderId).map fun book' =>
    ((book.orders.find? orderId).toList.map fun entry => .removed entry.order, book')

def matchLevel (bidPrice askPrice : Price) :
    ℕ → OrderPointers → OrderPointers → Orderbook → List Event → Result
  | fuel + 1, bid :: bids, ask :: asks, book, events => do
    let quantity := min bid.order.remainingQuantity ask.order.remainingQuantity
    let bidOrder ← bid.order.fill quantity
    let askOrder ← ask.order.fill quantity
    let bid := { bid with order := bidOrder }
    let ask := { ask with order := askOrder }
    let bids := settleQueue bid bids
    let asks := settleQueue ask asks
    matchLevel bidPrice askPrice fuel bids asks
      { bids := putLevel book.bids bidPrice bids
        asks := putLevel book.asks askPrice asks
        orders := settleOrders ask (settleOrders bid book.orders) }
      (events ++ fillEvents bid.order ask.order quantity)
  | 0, _ :: _, _ :: _, _, _ => .error .diverges
  | _, _, _, book, events => .ok (events, book)

def matchLevels : ℕ → Orderbook → List Event → Result
  | 0, _, _ => .error .diverges
  | fuel + 1, book, events =>
    match book.bids.begin?, book.asks.begin? with
    | some (bidPrice, bids), some (askPrice, asks) =>
      if bidPrice < askPrice then .ok (events, book)
      else do
        let (events, book) ←
          matchLevel bidPrice askPrice (bids.length + asks.length) bids asks book events
        matchLevels fuel book events
    | _, _ => .ok (events, book)

def killFront {s : Side} (levels : Levels s) (book : Orderbook) : Result :=
  match levels.begin? with
  | none => .ok ([], book)
  | some (_, []) => .error .undefinedBehaviour
  | some (_, front :: _) =>
    if front.order.orderType = .fillAndKill then cancelOrder book front.order.orderId
    else .ok ([], book)

def matchOrders (book : Orderbook) : Result := do
  let (fills, book) ← matchLevels (book.bids.size + book.asks.size + 1) book []
  let (bidKill, book) ← killFront book.bids book
  let (askKill, book) ← killFront book.asks book
  .ok (fills ++ bidKill ++ askKill, book)

def addOrder (book : Orderbook) (order : Order) : Result :=
  if book.orders.contains order.orderId then .ok ([], book)
  else if order.orderType = .fillAndKill ∧ !book.canMatch order.side order.price then .ok ([], book)
  else do
    let (events, book) ← matchOrders (book.queueOrder order)
    .ok (.inserted order :: events, book)

def matchOrder (book : Orderbook) (order : OrderModify) : Result :=
  match book.orders.find? order.orderId with
  | none => .ok ([], book)
  | some existing => do
    let (cancelled, book) ← cancelOrder book order.orderId
    let (events, book) ← addOrder book (order.toOrderPointer existing.order.orderType)
    .ok (cancelled ++ events, book)

def call (book : Orderbook) : Call → Result
  | .addOrder orderType orderId side price quantity =>
    addOrder book (.new orderType orderId side price quantity)
  | .cancelOrder orderId => cancelOrder book orderId
  | .matchOrder order => matchOrder book order

/-- The events of a call, forgotten but for the trades. -/
def forget (r : Result) : Except Fault (List Trade × Orderbook) :=
  r.map fun r => (tradesOf r.1, r.2)

end Traced

@[simp]
theorem tradesOf_nil : tradesOf [] = [] := rfl

@[simp]
theorem tradesOf_append (l l' : List Event) : tradesOf (l ++ l') = tradesOf l ++ tradesOf l' :=
  List.filterMap_append

@[simp]
theorem tradesOf_fillEvents (bid ask : Order) (quantity : Quantity) :
    tradesOf (fillEvents bid ask quantity) = [tradeOf bid ask quantity] := by
  unfold fillEvents
  split_ifs <;> rfl

@[simp]
theorem tradesOf_inserted (order : Order) (events : List Event) :
    tradesOf (.inserted order :: events) = tradesOf events := rfl

@[simp]
theorem tradesOf_removed (o : Option OrderEntry) :
    tradesOf (o.toList.map fun entry => .removed entry.order) = [] := by
  cases o <;> rfl

namespace Traced

theorem forget_cancelOrder (book : Orderbook) (orderId : OrderId) :
    forget (cancelOrder book orderId) = (book.cancelOrder orderId).map fun b => ([], b) := by
  unfold forget cancelOrder
  cases book.cancelOrder orderId <;> simp

theorem forget_matchLevel (bidPrice askPrice : Price) : ∀ (fuel : ℕ) (bids asks : OrderPointers)
    (book : Orderbook) (events : List Event),
    forget (matchLevel bidPrice askPrice fuel bids asks book events) =
      Orderbook.matchLevel bidPrice askPrice fuel bids asks book (tradesOf events)
  | fuel + 1, bid :: bids, ask :: asks, book, events => by
    simp only [matchLevel, Orderbook.matchLevel]
    generalize bid.order.fill _ = bidFill
    generalize ask.order.fill _ = askFill
    cases bidFill with
    | error e => rfl
    | ok bidOrder =>
      cases askFill with
      | error e => rfl
      | ok askOrder =>
        simp only [Except.ok_bind]
        rw [forget_matchLevel, tradesOf_append, tradesOf_fillEvents]
  | 0, _ :: _, _ :: _, _, _ => rfl
  | 0, [], _, _, _ => rfl
  | _ + 1, [], _, _, _ => rfl
  | 0, _ :: _, [], _, _ => rfl
  | _ + 1, _ :: _, [], _, _ => rfl

theorem forget_matchLevels : ∀ (fuel : ℕ) (book : Orderbook) (events : List Event),
    forget (matchLevels fuel book events) = Orderbook.matchLevels fuel book (tradesOf events)
  | 0, _, _ => rfl
  | fuel + 1, book, events => by
    simp only [matchLevels, Orderbook.matchLevels]
    rcases book.bids.begin? with _ | ⟨bidPrice, bids⟩
    · rfl
    rcases book.asks.begin? with _ | ⟨askPrice, asks⟩
    · rfl
    simp only
    split_ifs
    · rfl
    · rw [← forget_matchLevel]
      rcases matchLevel _ _ _ _ _ _ _ with e | ⟨events', book'⟩
      · rfl
      · exact forget_matchLevels fuel book' events'

/-- A kill fails as the recorded kill does, and returns what that returns, which are no trades. -/
theorem killFront_cases {s : Side} (levels : Levels s) (book : Orderbook) :
    (∃ e, killFront levels book = .error e ∧ Orderbook.killFront levels book = .error e) ∨
      ∃ events book', killFront levels book = .ok (events, book') ∧ tradesOf events = [] ∧
        Orderbook.killFront levels book = .ok book' := by
  unfold killFront Orderbook.killFront
  rcases levels.begin? with _ | ⟨price, _ | ⟨front, rest⟩⟩
  · exact .inr ⟨[], book, rfl, rfl, rfl⟩
  · exact .inl ⟨_, rfl, rfl⟩
  · simp only
    split_ifs
    · unfold cancelOrder
      rcases book.cancelOrder front.order.orderId with e | book'
      · exact .inl ⟨e, rfl, rfl⟩
      · exact .inr ⟨_, book', rfl, tradesOf_removed _, rfl⟩
    · exact .inr ⟨[], book, rfl, rfl, rfl⟩

theorem forget_matchOrders (book : Orderbook) :
    forget (matchOrders book) = book.matchOrders := by
  unfold matchOrders Orderbook.matchOrders
  rw [show ([] : List Trade) = tradesOf [] from rfl, ← forget_matchLevels]
  rcases matchLevels _ _ _ with e | ⟨fills, book₁⟩
  · rfl
  obtain ⟨e, hk, hk'⟩ | ⟨bidKill, book₂, hk, ht, hk'⟩ := killFront_cases book₁.bids book₁
  · simp [forget, hk, hk']
  obtain ⟨e, ha, ha'⟩ | ⟨askKill, book₃, ha, ht', ha'⟩ := killFront_cases book₂.asks book₂
  · simp [forget, hk, hk', ha, ha']
  · simp [forget, hk, hk', ha, ha', ht, ht']

theorem forget_addOrder (book : Orderbook) (order : Order) :
    forget (addOrder book order) = book.addOrder order := by
  unfold addOrder Orderbook.addOrder
  split_ifs
  · rfl
  · rfl
  · rw [← forget_matchOrders]
    cases matchOrders (book.queueOrder order) <;> rfl

theorem forget_matchOrder (book : Orderbook) (order : OrderModify) :
    forget (matchOrder book order) = book.matchOrder order := by
  unfold matchOrder Orderbook.matchOrder cancelOrder
  rcases book.orders.find? order.orderId with _ | existing
  · rfl
  rcases book.cancelOrder order.orderId with e | book'
  · rfl
  simp only [Except.map_ok', Except.ok_bind]
  rw [← forget_addOrder]
  rcases addOrder book' _ with e | ⟨events, book''⟩
  · rfl
  · rfl

/-- The recorded calls are the calls. -/
theorem forget_call (book : Orderbook) (c : Call) : forget (call book c) = book.call c := by
  cases c with
  | addOrder => exact forget_addOrder book _
  | cancelOrder orderId =>
    rw [show call book (.cancelOrder orderId) = cancelOrder book orderId from rfl,
      forget_cancelOrder]
    simp only [Orderbook.call]
    cases book.cancelOrder orderId <;> rfl
  | matchOrder order => exact forget_matchOrder book order

end Traced

end Orderbook

end SideProjects
