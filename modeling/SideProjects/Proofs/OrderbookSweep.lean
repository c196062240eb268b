import SideProjects.Proofs.OrderbookCalls

/-!
# The order book keeps price-time priority

A book whose containers are in step is determined by its two sides read as lists: a level is the
orders of its price (`Placed.find?_eq`), so the maps are the price levels of the lists
(`Placed.levelOrders_eq`), and the index follows. What `AddOrder` does to the lists is the sweep of
`PriceTime.add` (`addOrder_add`), so every run of calls is a run of `PriceTime` (`run_priceTime`);
and since a sweep does not look at the order's type, a `FillAndKill` order does what a
`GoodTillCancel` order does that is cancelled right after (`fillAndKill_eq_cancel`).
-/

namespace SideProjects

namespace Orderbook

/-! ## The lists determine the book -/

section Determined

variable {s : Side} {levels : Levels s}

/-- A level holds the orders of its price. -/
theorem Placed.find?_eq (h : Placed levels) (price : Price) :
    levels.find? price =
      let queue := (queued levels).filter fun n => n.order.price = price
      if queue.isEmpty then none else some queue := by
  obtain ⟨l₁, l₂, h₁, h₂, hold, hq, -⟩ := queued_split levels price
  have hdrop : ∀ l : List (Price × OrderPointers), (∀ e ∈ l, e ∈ levels.entries) →
      (∀ e ∈ l, e.1 ≠ price) →
      (l.flatMap Prod.snd).filter (fun n => decide (n.order.price = price)) = [] := by
    intro l hl hne
    refine List.filter_eq_nil_iff.mpr fun n hn => ?_
    obtain ⟨e, he, hn⟩ := List.mem_flatMap.mp hn
    rw [(h.own e (hl e he) n hn).2]
    simpa using hne e he
  have hown : ((levels.find? price).getD []).filter (fun n => decide (n.order.price = price)) =
      (levels.find? price).getD [] := by
    refine List.filter_eq_self.mpr fun n hn => ?_
    rcases hf : levels.find? price with _ | queue <;> rw [hf] at hn
    · simp at hn
    · simpa using (h.own _ (SortedMap.mem_entries_iff.mpr hf) n hn).2
  have hall : (queued levels).filter (fun n => decide (n.order.price = price)) =
      (levels.find? price).getD [] := by
    rw [hq, List.filter_append, List.filter_append, hown,
      hdrop l₁ (fun e he => hold e (List.mem_append_left _ he))
        fun e he => SortedMap.ne_of_lt (h₁ e he),
      hdrop l₂ (fun e he => hold e (List.mem_append_right _ he))
        fun e he => (SortedMap.ne_of_lt (h₂ e he)).symm]
    simp
  simp only [hall]
  rcases hf : levels.find? price with _ | queue
  · simp
  · have := h.nonempty _ (SortedMap.mem_entries_iff.mpr hf)
    simp [this]

theorem Placed.ext {levels' : Levels s} (h : Placed levels) (h' : Placed levels')
    (hq : queued levels = queued levels') : levels = levels' :=
  SortedMap.ext_find? fun price => by rw [h.find?_eq, h'.find?_eq, hq]

theorem Rep.ext {book book' : Orderbook} (h : Rep book) (h' : Rep book')
    (hside : ∀ s, book.sideNodes s = book'.sideNodes s) : book = book' := by
  have hnodes : book.nodes = book'.nodes := congrArg₂ (· ++ ·) (hside .buy) (hside .sell)
  obtain ⟨bids, asks, orders⟩ := book
  obtain ⟨bids', asks', orders'⟩ := book'
  obtain rfl : bids = bids' := h.bids.ext h'.bids (hside .buy)
  obtain rfl : asks = asks' := h.asks.ext h'.asks (hside .sell)
  have horders : orders = orders' := by
    refine SortedMap.ext_find? fun id => Option.ext fun entry => ?_
    exact (h.index.find id entry).trans (hnodes ▸ (h'.index.find id entry).symm)
  rw [horders]

theorem Rep.ext_sides {book book' : Orderbook} (h : Rep book) (h' : Rep book') {s : Side}
    (hown : book.sideNodes s = book'.sideNodes s)
    (hother : book.sideNodes s.opposite = book'.sideNodes s.opposite) : book = book' := by
  refine h.ext h' fun s' => ?_
  by_cases hs : s' = s
  · exact hs ▸ hown
  · have : s' = s.opposite := by cases s <;> cases s' <;> simp_all [Side.opposite]
    exact this ▸ hother

theorem levels_append {price : Price} {below : List Order}
    (hbelow : ∀ l ∈ PriceTime.levels below, l.1 ≠ price) : ∀ queue : List Order, queue ≠ [] →
    (∀ order ∈ queue, order.price = price) →
    PriceTime.levels (queue ++ below) = (price, queue) :: PriceTime.levels below
  | [order], _, hp => by
    obtain rfl := hp order List.mem_cons_self
    rw [List.singleton_append, PriceTime.levels]
    split
    · rename_i hl
      rw [hl]
    · rename_i price' queue' below' hl
      rw [hl, if_neg]
      exact fun e => hbelow (price', queue') (by simp [hl]) e.symm
  | order :: order' :: queue, _, hp => by
    obtain rfl := hp order List.mem_cons_self
    have ih := levels_append hbelow (order' :: queue) (by simp)
      fun o ho => hp o (List.mem_cons_of_mem _ ho)
    rw [List.cons_append, PriceTime.levels, ih]
    simp

/-- The map of a side is its list cut into price levels. -/
theorem Placed.levelOrders_eq (h : Placed levels) :
    levelOrders levels = PriceTime.levels ((queued levels).map Node.order) := by
  have hs := levels.sorted
  have hown := h.own
  have hne := h.nonempty
  unfold levelOrders queued
  generalize levels.entries = entries at hs hown hne
  induction entries with
  | nil => rfl
  | cons l entries ih =>
    obtain ⟨hl, hs⟩ := List.pairwise_cons.mp hs
    have ih := ih hs (fun e he => hown e (List.mem_cons_of_mem _ he))
      fun e he => hne e (List.mem_cons_of_mem _ he)
    have hbelow : ∀ e ∈ PriceTime.levels ((entries.flatMap Prod.snd).map Node.order),
        e.1 ≠ l.1 := by
      rw [← ih]
      intro e he
      obtain ⟨e', he', rfl⟩ := List.mem_map.mp he
      exact (SortedMap.ne_of_lt (hl e' he')).symm
    rw [List.map_cons, ih, List.flatMap_cons, List.map_append, levels_append hbelow]
    · simpa using hne l List.mem_cons_self
    · intro order ho
      obtain ⟨n, hn, rfl⟩ := List.mem_map.mp ho
      exact (hown l List.mem_cons_self n hn).2

theorem Rep.shows {book : Orderbook} (h : Rep book) : Shows book book.priceTime where
  bids := h.bids.levelOrders_eq
  asks := h.asks.levelOrders_eq
  orders id := by
    rw [h.contains_iff, nodes, priceTime, ← List.map_append]
    constructor
    · rintro ⟨n, hn, rfl⟩
      exact ⟨n.order, List.mem_map_of_mem hn, rfl⟩
    · rintro ⟨order, ho, rfl⟩
      obtain ⟨n, hn, rfl⟩ := List.mem_map.mp ho
      exact ⟨n, hn, rfl⟩

end Determined

/-! ## The sweep -/

section Sweep

theorem tradesOf_frontEvents (x y : Node) :
    tradesOf (frontEvents x.order.side x y) =
      [PriceTime.tradeWith x.order y.order
        (min x.order.remainingQuantity y.order.remainingQuantity)] := by
  unfold frontEvents PriceTime.tradeWith
  rcases x.order.side with _ | _
  · simp only [tradesOf_fillEvents]
    rfl
  · simp only [tradesOf_fillEvents, fillQuantity_comm y x]
    rfl

/-- The loop's sweep of an unfilled order is the sweep of `PriceTime`. -/
theorem sweep_eq : ∀ (x : Node) (ys : List Node), x.order.isFilled = false →
    ∃ incoming, PriceTime.sweep x.order (ys.map Node.order) =
        ⟨tradesOf (sweepFrom x.order.side x ys).1, incoming,
          (sweepFrom x.order.side x ys).2.2.map Node.order⟩ ∧
      (sweepFrom x.order.side x ys).2.1.map Node.order =
        if incoming.isFilled then none else some incoming
  | x, [], hx => ⟨x.order, rfl, by simp [sweepFrom, hx]⟩
  | x, y :: ys, hx => by
    simp only [List.map_cons, PriceTime.sweep, sweepFrom]
    by_cases hc : Crosses x.order.side x.order.price y.order.price
    · rw [if_neg (by simp [hx, hc]), if_pos hc]
      have hq : min x.order.remainingQuantity y.order.remainingQuantity = fillQuantity x y := rfl
      by_cases hf : (x.less (fillQuantity x y)).order.isFilled = true
      · have hf' : (x.order.less (fillQuantity x y)).isFilled = true := hf
        refine ⟨x.order.less (fillQuantity x y), ?_, by simp [hf, hf']⟩
        rw [if_pos hf, hq, tradesOf_frontEvents]
        by_cases hy : (y.order.less (fillQuantity x y)).isFilled = true
        · rw [if_pos hy, settleQueue_filled (n := y.less _) hy]
          cases ys with
          | nil => rfl
          | cons z ys => simp [PriceTime.sweep, hf', hq]
        · rw [if_neg hy, settleQueue_unfilled (n := y.less _) hy]
          rfl
      · have hy := (filled_of_fill x y).resolve_left hf
        have hy' : (y.order.less (fillQuantity x y)).isFilled = true := hy
        obtain ⟨incoming, hsweep, hleft⟩ := sweep_eq (x.less (fillQuantity x y)) ys
          (by simpa using hf)
        refine ⟨incoming, ?_, by rw [if_neg hf]; exact hleft⟩
        have hsweep' : PriceTime.sweep (x.order.less (fillQuantity x y)) (ys.map Node.order) = _ :=
          hsweep
        rw [if_neg hf, hq, if_pos hy', hsweep', tradesOf_append, tradesOf_frontEvents]
        rfl
    · rw [if_pos (.inr hc), if_neg hc]
      exact ⟨x.order, rfl, by simp [hx]⟩

theorem map_orderedInsert_order {s : Side} {n : Node} (hs : n.order.side = s) (l : List Node) :
    (l.orderedInsert (byPrice s) n).map Node.order = PriceTime.enqueue n.order (l.map Node.order) := by
  subst hs
  exact List.map_orderedInsert (byPrice n.order.side)
    (fun a b => better n.order.side a.price b.price) Node.order l n (fun _ _ => Iff.rfl)
    fun _ _ => Iff.rfl

end Sweep

theorem priceTime_side (book : Orderbook) (s : Side) :
    book.priceTime.side s = (book.sideNodes s).map Node.order := by
  cases s <;> rfl

theorem priceTime_eq_ofSides (book : Orderbook) (s : Side) : book.priceTime =
    .ofSides s ((book.sideNodes s).map Node.order) ((book.sideNodes s.opposite).map Node.order) := by
  cases s <;> rfl

theorem tradesOf_arrivalEvents {book : Orderbook} (h : Rep book) (order : Order) :
    tradesOf (arrivalEvents book order) = tradesOf (arrive book order).1 := by
  unfold arrivalEvents
  split_ifs with hrej hfak
  · rw [arrive_of_not_canMatch h order (by simpa using hrej.2)]
  · rw [tradesOf_inserted, tradesOf_append]
    cases (arrive book order).2.1 <;> simp [tradesOf, Event.trade?]
  · simp

theorem addOrder_eq_of_traced {book book' : Orderbook} (h : Rep book) {order : Order}
    (hr : Traced.addOrder book order = .ok (arrivalEvents book order, book')) :
    book.addOrder order = .ok (tradesOf (arrive book order).1, book') := by
  rw [← Traced.forget_addOrder, hr, ← tradesOf_arrivalEvents h]
  rfl

/-- An order of at least one, with an id that is not resting, trades as the sweep of it through the
other side does, and leaves the book the sweep leaves. -/
theorem addOrder_add {book : Orderbook} (h : Quiet book) {order : Order}
    (hid : book.orders.contains order.orderId = false) (hq : order.isFilled = false) :
    ∃ book', book.addOrder order = .ok ((PriceTime.add book.priceTime order).1, book') ∧
      Quiet book' ∧ book'.priceTime = (PriceTime.add book.priceTime order).2 := by
  obtain ⟨book', hr, hquiet', hown, hother⟩ := addOrder_spec h order hid
  obtain ⟨incoming, hsweep, hleft⟩ :=
    sweep_eq (book.arrivalNode order) (book.sideNodes order.side.opposite) hq
  have hadd : PriceTime.add book.priceTime order =
      (tradesOf (arrive book order).1, book'.priceTime) := by
    have hsweep' : PriceTime.sweep order ((book.sideNodes order.side.opposite).map Node.order) =
        ⟨tradesOf (arrive book order).1, incoming, (arrive book order).2.2.map Node.order⟩ := hsweep
    have hleft' : (arrive book order).2.1.map Node.order =
        if incoming.isFilled then none else some incoming := hleft
    unfold PriceTime.add
    rw [priceTime_side, priceTime_side, hsweep', priceTime_eq_ofSides book' order.side, hown,
      hother]
    refine Prod.ext rfl ?_
    simp only
    congr 1
    unfold remains
    by_cases hfak : order.orderType = .fillAndKill
    · simp [hfak, queueLeft]
    · rw [if_neg hfak]
      rcases hl : (arrive book order).2.1 with _ | left
      · have hf : incoming.isFilled = true := by
          by_contra hf
          simp [hl, hf] at hleft'
        simp [hf, queueLeft]
      · have hf : ¬ incoming.isFilled = true := by
          intro hf
          simp [hl, hf] at hleft'
        obtain rfl : left.order = incoming := by simpa [hl, hf] using hleft'
        obtain ⟨remaining, hrem⟩ := sweepFrom_left hl
        have hside : left.order.side = order.side := by rw [hrem]; rfl
        rw [if_neg (by simp [hf, hfak]), queueLeft, map_orderedInsert_order hside]
  rw [hadd]
  exact ⟨book', addOrder_eq_of_traced h.rep hr, hquiet', rfl⟩

theorem not_filled_new (orderType : OrderType) (orderId : OrderId) (side : Side) (price : Price)
    {quantity : Quantity} (hq : 1 ≤ quantity) :
    (Order.new orderType orderId side price quantity).isFilled = false := by
  have : quantity ≠ 0 := by
    rintro rfl
    simp at hq
  simpa [Order.new, Order.isFilled] using this

theorem priceTime_find? {book : Orderbook} (h : Rep book) (id : OrderId) :
    PriceTime.find? book.priceTime id = (book.orders.find? id).map OrderEntry.order := by
  unfold PriceTime.find? priceTime
  rw [← List.map_append, List.find?_map]
  show ((book.nodes.find? fun n => n.order.orderId == id).map Node.order) = _
  rcases hf : book.nodes.find? fun n => n.order.orderId == id with _ | n
  · rcases ho : book.orders.find? id with _ | entry
    · rw [hf]
      rfl
    · obtain ⟨n, hn, hid, -⟩ := (h.index.find id entry).mp ho
      have := List.find?_eq_none.mp hf n hn
      simp [hid] at this
  · obtain rfl : n.order.orderId = id := by simpa using List.find?_some hf
    rw [hf, h.index.find?_of_mem (List.mem_of_find?_eq_some hf)]
    rfl

theorem priceTime_cancel {book book' : Orderbook} {id : OrderId}
    (hside : ∀ s, book'.sideNodes s = (book.sideNodes s).filter fun n => n.order.orderId != id) :
    book'.priceTime = PriceTime.cancel book.priceTime id := by
  have hmap : ∀ s, (book'.sideNodes s).map Node.order =
      ((book.sideNodes s).map Node.order).filter (·.orderId != id) := by
    intro s
    rw [hside, List.filter_map]
    rfl
  exact congrArg₂ PriceTime.Book.mk (hmap .buy) (hmap .sell)

/-- A call does to the containers what it does to the two lists. -/
theorem call_priceTime {book : Orderbook} {c : Call} (hc : c.AtLeastOne) (h : Quiet book) :
    ∃ book', book.call c = .ok ((PriceTime.call book.priceTime c).1, book') ∧ Quiet book' ∧
      book'.priceTime = (PriceTime.call book.priceTime c).2 := by
  cases c with
  | addOrder orderType orderId side price quantity =>
    simp only [call, PriceTime.call, priceTime_find? h.rep]
    rcases hf : book.orders.find? orderId with _ | entry
    · exact addOrder_add h (by simp [Order.new, SortedMap.contains, hf])
        (not_filled_new orderType orderId side price hc)
    · exact ⟨book, by simp [addOrder, Order.new, SortedMap.contains, hf], h, rfl⟩
  | cancelOrder orderId =>
    obtain ⟨book', hr, hquiet, -, hside⟩ := cancelOrder_quiet h orderId
    exact ⟨book', by simp [call, PriceTime.call, hr], hquiet, priceTime_cancel hside⟩
  | matchOrder order =>
    simp only [call, matchOrder, PriceTime.call, priceTime_find? h.rep]
    rcases hf : book.orders.find? order.orderId with _ | existing
    · exact ⟨book, rfl, h, rfl⟩
    · obtain ⟨book₁, hr, hquiet₁, hid, hside⟩ := cancelOrder_quiet h order.orderId
      simp only [hr, Except.ok_bind, Option.map_some, ← priceTime_cancel hside]
      exact addOrder_add hquiet₁ hid (not_filled_new existing.order.orderType _ _ _ hc)

/-- A run whose orders are for at least one is a run of `PriceTime`. -/
theorem run_priceTime {calls : List Call} (hcalls : ∀ c ∈ calls, c.AtLeastOne) :
    ∃ book, run calls = .ok ((PriceTime.run calls).1, book) ∧ Quiet book ∧
      book.priceTime = (PriceTime.run calls).2 :=
  runAll_simulates (fun _ _ hc hs => call_priceTime hc hs) calls empty hcalls quiet_empty

/-- After any calls, an order of at least one arrives with an id that is not resting. The book is that
of the run of `PriceTime`, and the order trades as its sweep there does and leaves the book the sweep
leaves. -/
theorem addOrder_priceTime {calls : List Call} (hcalls : ∀ c ∈ calls, c.AtLeastOne)
    {trades : List (List Trade)} {book : Orderbook} (h : run calls = .ok (trades, book))
    (orderType : OrderType) (orderId : OrderId) (side : Side) (price : Price) (quantity : Quantity)
    (hid : book.orders.contains orderId = false) (hq : 1 ≤ quantity) :
    Shows book (PriceTime.run calls).2 ∧
      ∃ book', book.addOrder (.new orderType orderId side price quantity) = .ok
          ((PriceTime.add (PriceTime.run calls).2 (.new orderType orderId side price quantity)).1,
            book') ∧
        Shows book'
          (PriceTime.add (PriceTime.run calls).2 (.new orderType orderId side price quantity)).2 := by
  obtain ⟨book₀, h₀, hquiet, href⟩ := run_priceTime hcalls
  obtain ⟨-, rfl⟩ : (PriceTime.run calls).1 = trades ∧ book₀ = book := by simpa [h₀] using h
  obtain ⟨book', hadd, hquiet', href'⟩ :=
    addOrder_add hquiet hid (not_filled_new orderType orderId side price hq)
  rw [← href, ← href']
  exact ⟨hquiet.rep.shows, book', hadd, hquiet'.rep.shows⟩

/-- A buy of seven through two ask levels of five: the first is used up, the second keeps three. -/
theorem addOrder_priceTime_two_levels : ∃ trades book book',
    run [.addOrder .goodTillCancel 1 .sell 100 5, .addOrder .goodTillCancel 2 .sell 101 5] =
        .ok (trades, book) ∧
      book.addOrder (.new .goodTillCancel 3 .buy 101 7) =
        .ok ([⟨⟨3, 101, 5⟩, ⟨1, 100, 5⟩⟩, ⟨⟨3, 101, 2⟩, ⟨2, 101, 2⟩⟩], book') ∧
      Shows book' ⟨[], [⟨.goodTillCancel, 2, .sell, 101, 5, 3⟩]⟩ :=
  have h : run [.addOrder .goodTillCancel 1 .sell 100 5, .addOrder .goodTillCancel 2 .sell 101 5] =
      .ok (_, _) := rfl
  have ⟨book', hadd⟩ := (addOrder_priceTime (by decide) h .goodTillCancel 3 .buy 101 7 (by decide)
    (by decide)).2
  ⟨_, _, book', h, hadd⟩

/-! ## FillAndKill is GoodTillCancel, cancelled -/

def Node.retype (orderType : OrderType) (n : Node) : Node :=
  { n with order := { n.order with orderType } }

/-- A sweep does not look at the type of the order it sweeps. -/
theorem sweepFrom_retype (s : Side) (t : OrderType) : ∀ (x : Node) (ys : List Node),
    tradesOf (sweepFrom s (x.retype t) ys).1 = tradesOf (sweepFrom s x ys).1 ∧
      (sweepFrom s (x.retype t) ys).2.1 = (sweepFrom s x ys).2.1.map (Node.retype t) ∧
      (sweepFrom s (x.retype t) ys).2.2 = (sweepFrom s x ys).2.2
  | x, [] => ⟨rfl, rfl, rfl⟩
  | x, y :: ys => by
    have hfront : tradesOf (frontEvents s (x.retype t) y) = tradesOf (frontEvents s x y) := by
      cases s <;> simp only [frontEvents, tradesOf_fillEvents] <;> rfl
    have hq : fillQuantity (x.retype t) y = fillQuantity x y := rfl
    have hless : (x.retype t).less (fillQuantity x y) = (x.less (fillQuantity x y)).retype t := rfl
    have hfill : ((x.less (fillQuantity x y)).retype t).order.isFilled =
        (x.less (fillQuantity x y)).order.isFilled := rfl
    have hprice : (x.retype t).order.price = x.order.price := rfl
    obtain ⟨h₁, h₂, h₃⟩ := sweepFrom_retype s t (x.less (fillQuantity x y)) ys
    simp only [sweepFrom, hq, hless, hfill, hprice]
    split_ifs
    · exact ⟨hfront, rfl, rfl⟩
    · exact ⟨by rw [tradesOf_append, tradesOf_append, hfront, h₁], h₂, h₃⟩
    · exact ⟨rfl, rfl, rfl⟩

theorem filter_orderedInsert_self {s : Side} (n : Node) : ∀ l : List Node,
    (l.orderedInsert (byPrice s) n).filter (fun m => m.order.orderId != n.order.orderId) =
      l.filter fun m => m.order.orderId != n.order.orderId
  | [] => by simp
  | m :: l => by
    rw [List.orderedInsert_cons]
    split_ifs
    · rw [List.filter_cons, if_neg (by simp)]
    · rw [List.filter_cons, filter_orderedInsert_self n l, List.filter_cons]

/-- In a reachable book, an order with an id that is not resting trades the same as `FillAndKill`
and as `GoodTillCancel`, and cancelling the second leaves the book the first leaves, which is the
book before if the order could not match. -/
theorem fillAndKill_eq_cancel {calls : List Call} {trades : List (List Trade)} {book : Orderbook}
    (h : run calls = .ok (trades, book)) {orderId : OrderId}
    (hid : book.orders.contains orderId = false) (side : Side) (price : Price)
    (quantity : Quantity) :
    ∃ returned book₁ book₂,
      book.addOrder (.new .fillAndKill orderId side price quantity) = .ok (returned, book₁) ∧
        book.addOrder (.new .goodTillCancel orderId side price quantity) = .ok (returned, book₂) ∧
        book₂.cancelOrder orderId = .ok book₁ ∧
        (book.canMatch side price = false → returned = [] ∧ book₁ = book) := by
  have hquiet := quiet_of_run h
  set kill := Order.new .fillAndKill orderId side price quantity with hkill
  set keep := Order.new .goodTillCancel orderId side price quantity with hkeep
  obtain ⟨book₁, hr₁, hquiet₁, hown₁, hother₁⟩ := addOrder_spec hquiet kill hid
  obtain ⟨book₂, hr₂, hquiet₂, hown₂, hother₂⟩ := addOrder_spec hquiet keep hid
  obtain ⟨book₃, hc, hquiet₃, -, hside₃⟩ := cancelOrder_quiet hquiet₂ orderId
  obtain ⟨htrades, -, hrest⟩ : tradesOf (arrive book kill).1 = tradesOf (arrive book keep).1 ∧
      (arrive book kill).2.1 = (arrive book keep).2.1.map (Node.retype .fillAndKill) ∧
      (arrive book kill).2.2 = (arrive book keep).2.2 :=
    sweepFrom_retype side .fillAndKill (book.arrivalNode keep) (book.sideNodes side.opposite)
  have hown₃ : book₃.sideNodes side = book₁.sideNodes side := by
    have h₁ : book₁.sideNodes side = book.sideNodes side := hown₁
    have h₂ : book₂.sideNodes side = queueLeft side (arrive book keep).2.1 (book.sideNodes side) :=
      hown₂
    have hfresh := filter_ne_eq_self (l := book.sideNodes side) fun n hn =>
      ne_of_not_contains hquiet.rep hid hn
    rw [hside₃, h₁, h₂]
    rcases hl : (arrive book keep).2.1 with _ | left
    · exact hfresh
    · obtain ⟨remaining, hrem⟩ := sweepFrom_left hl
      have hleft : left.order.orderId = orderId := by rw [hrem]; rfl
      have hdrop := filter_orderedInsert_self (s := side) left (book.sideNodes side)
      rw [hleft] at hdrop
      exact hdrop.trans hfresh
  have hother₃ : book₃.sideNodes side.opposite = book₁.sideNodes side.opposite := by
    have h₁ : book₁.sideNodes side.opposite = (arrive book kill).2.2 := hother₁
    have h₂ : book₂.sideNodes side.opposite = (arrive book keep).2.2 := hother₂
    rw [hside₃, h₁, h₂, hrest]
    refine filter_ne_eq_self fun n hn => ?_
    obtain ⟨y, hy, remaining, rfl⟩ := sweepFrom_rest hn
    exact ne_of_not_contains (n := y) hquiet.rep hid hy
  have hbook : book₃ = book₁ := hquiet₃.rep.ext_sides hquiet₁.rep hown₃ hother₃
  have hadd₁ := addOrder_eq_of_traced hquiet.rep hr₁
  have hadd₂ := addOrder_eq_of_traced hquiet.rep hr₂
  refine ⟨tradesOf (arrive book kill).1, book₁, book₂, hadd₁, htrades ▸ hadd₂, hbook ▸ hc,
    fun hm => ?_⟩
  have ha := arrive_of_not_canMatch hquiet.rep kill hm
  refine ⟨by rw [ha]; rfl, ?_⟩
  have : book.addOrder kill = .ok ([], book) := by
    simp [addOrder, hkill, Order.new, hid, hm]
  rw [hadd₁, ha] at this
  cases this
  rfl

/-- A buy of seven against an ask of five, as `FillAndKill` and as `GoodTillCancel`. -/
theorem fillAndKill_eq_cancel_overfill : ∃ trades book,
    run [.addOrder .goodTillCancel 1 .sell 100 5] = .ok (trades, book) ∧
      ∃ returned book₁ book₂,
        book.addOrder (.new .fillAndKill 2 .buy 100 7) = .ok (returned, book₁) ∧
        book.addOrder (.new .goodTillCancel 2 .buy 100 7) = .ok (returned, book₂) ∧
        book₂.cancelOrder 2 = .ok book₁ ∧
        (book.canMatch .buy 100 = false → returned = [] ∧ book₁ = book) :=
  have h : run [.addOrder .goodTillCancel 1 .sell 100 5] = .ok (_, _) := rfl
  ⟨_, _, h, fillAndKill_eq_cancel h (by decide) .buy 100 7⟩

end Orderbook

end SideProjects
