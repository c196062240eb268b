import SideProjects.Proofs.OrderbookCalls

/-!
# The rounds of a matching

A call enters `MatchOrders` when it has queued an order (`arrival`, `call_cases`). From there every
round of the inner loop trades once and takes one of its two orders out of `orders_` in the same
breath (`Clears`), and what is in `orders_` at the end is what was there at the start less what the
rounds and the two last inspections took out (`matchOrders_departs`). So the loops end, and there are
no more trades than there were orders.
-/

namespace SideProjects

namespace Orderbook

/-! ## The calls that match -/

/-- `AddOrder` queues the order: its id is new, and it can match if it has to. -/
def admits (book : Orderbook) (order : Order) : Bool :=
  !book.orders.contains order.orderId &&
    !(order.orderType = .fillAndKill && !book.canMatch order.side order.price)

/-- The order a call queues, and the book it queues it in, if it gets that far. -/
def arrival (book : Orderbook) : Call → Option (Orderbook × Order)
  | .addOrder orderType orderId side price quantity =>
    let order := .new orderType orderId side price quantity
    if book.admits order then some (book, order) else none
  | .cancelOrder _ => none
  | .matchOrder order =>
    match book.orders.find? order.orderId, book.cancelOrder order.orderId with
    | some existing, .ok book =>
      let order := order.toOrderPointer existing.order.orderType
      if book.admits order then some (book, order) else none
    | _, _ => none

section Arrival

variable {book : Orderbook}

theorem contains_of_admits {order : Order} (h : book.admits order = true) :
    book.orders.contains order.orderId = false := by
  simp only [admits, Bool.and_eq_true, Bool.not_eq_true'] at h
  exact h.1

theorem canMatch_of_admits {order : Order} (h : book.admits order = true)
    (hfak : order.orderType = .fillAndKill) : book.canMatch order.side order.price = true := by
  simp only [admits, Bool.and_eq_true, Bool.not_eq_true'] at h
  simpa [hfak] using h.2

theorem addOrder_of_admits {order : Order} (h : book.admits order = true) :
    book.addOrder order = (book.queueOrder order).matchOrders := by
  have hid := contains_of_admits h
  unfold addOrder
  rw [hid, if_neg (by simp), if_neg]
  rintro ⟨hfak, hm⟩
  simp [canMatch_of_admits h hfak] at hm

theorem addOrder_of_not_admits {order : Order} (h : book.admits order = false) :
    book.addOrder order = .ok ([], book) := by
  unfold addOrder
  split_ifs with hid hrej
  · rfl
  · rfl
  · refine absurd ?_ hrej
    simpa [admits, hid] using h

/-- A call either queues nothing, returns no trades and moves nothing it leaves, or it queues an
order in a quiet book made of orders that were resting, and matches. -/
theorem call_cases (h : Quiet book) (c : Call) :
    (book.arrival c = none ∧ ∃ book', book.call c = .ok ([], book') ∧ Quiet book' ∧
      ∀ n ∈ book'.nodes, n ∈ book.nodes) ∨
    ∃ b order, book.arrival c = some (b, order) ∧ Quiet b ∧ b.admits order = true ∧
      (∀ n ∈ b.nodes, n ∈ book.nodes) ∧ (c.AtLeastOne ↔ 1 ≤ order.remainingQuantity) ∧
      book.call c = b.addOrder order := by
  cases c with
  | addOrder orderType orderId side price quantity =>
    set order := Order.new orderType orderId side price quantity with horder
    have hc : book.call (.addOrder orderType orderId side price quantity) = book.addOrder order :=
      rfl
    rcases hadm : book.admits order with _ | _
    · exact .inl ⟨by simp [arrival, ← horder, hadm], book,
        hc.trans (addOrder_of_not_admits hadm), h, fun _ hn => hn⟩
    · exact .inr ⟨book, order, by simp [arrival, ← horder, hadm], h, hadm, fun _ hn => hn, Iff.rfl,
        hc⟩
  | cancelOrder orderId =>
    obtain ⟨book', hc, hq, -, hside⟩ := cancelOrder_quiet h orderId
    exact .inl ⟨rfl, book', by simp [call, hc], hq, fun _ hn => mem_nodes_of_filter hside hn⟩
  | matchOrder modify =>
    rcases hf : book.orders.find? modify.orderId with _ | existing
    · exact .inl ⟨by simp [arrival, hf], book, by simp [call, matchOrder, hf], h, fun _ hn => hn⟩
    obtain ⟨b, hc, hq, -, hside⟩ := cancelOrder_quiet h modify.orderId
    set order := modify.toOrderPointer existing.order.orderType with horder
    have hcall : book.call (.matchOrder modify) = b.addOrder order := by
      simp [call, matchOrder, hf, hc, ← horder]
    have hmem : ∀ n ∈ b.nodes, n ∈ book.nodes := fun _ hn => mem_nodes_of_filter hside hn
    rcases hadm : b.admits order with _ | _
    · exact .inl ⟨by simp [arrival, hf, hc, ← horder, hadm], b,
        hcall.trans (addOrder_of_not_admits hadm), hq, hmem⟩
    · exact .inr ⟨b, order, by simp [arrival, hf, hc, ← horder, hadm], hq, hadm, hmem, Iff.rfl,
        hcall⟩

end Arrival

/-! ## Departures -/

/-- The ids that leave `orders_`. -/
def departures (events : List Event) : List OrderId :=
  events.filterMap fun
    | .removed order => some order.orderId
    | _ => none

/-- Each trade is followed at once by the departure of one of its two orders. -/
def Clears : List Event → Prop
  | [] => True
  | .traded trade :: .removed gone :: events =>
    (gone.orderId = trade.bidTrade.orderId ∨ gone.orderId = trade.askTrade.orderId) ∧ Clears events
  | .traded _ :: _ => False
  | _ :: events => Clears events

theorem departures_append (l l' : List Event) :
    departures (l ++ l') = departures l ++ departures l' := List.filterMap_append

theorem Clears.append {events events' : List Event} (h : Clears events) (h' : Clears events') :
    Clears (events ++ events') := by
  fun_induction Clears events with
  | case1 => exact h'
  | case2 trade gone events ih => exact ⟨h.1, ih h.2⟩
  | case3 => exact h.elim
  | case4 event events _ hne ih =>
    cases event with
    | inserted => exact ih h
    | traded trade => exact absurd rfl (hne trade)
    | removed => exact ih h

theorem Clears.length_le {events : List Event} (h : Clears events) :
    (tradesOf events).length ≤ (departures events).length := by
  fun_induction Clears events with
  | case1 => exact le_rfl
  | case2 trade gone events ih =>
    have := ih h.2
    simp only [tradesOf, departures, List.filterMap_cons, Event.trade?, List.length_cons] at this ⊢
    omega
  | case3 => exact h.elim
  | case4 event events _ hne ih =>
    have := ih h
    cases event with
    | inserted => exact this
    | traded trade => exact absurd rfl (hne trade)
    | removed =>
      simp only [tradesOf, departures, List.filterMap_cons, Event.trade?, List.length_cons] at this ⊢
      omega

/-- The ids of `orders_`. -/
def ids (book : Orderbook) : List OrderId := book.orders.entries.map Prod.fst

theorem Rep.ids_perm {book : Orderbook} (h : Rep book) :
    book.ids.Perm (book.nodes.map (·.order.orderId)) := h.index.keys_perm

section Rounds

variable {book : Orderbook}

theorem clears_fillEvents {bid ask : Order} (h : bid.isFilled = true ∨ ask.isFilled = true)
    (quantity : Quantity) : Clears (fillEvents bid ask quantity) := by
  unfold fillEvents
  split_ifs with hb ha ha
  · simp [Clears, tradeOf]
  · simp [Clears, tradeOf]
  · simp [Clears, tradeOf]
  · exact absurd h (by simp [hb, ha])

theorem departures_fillEvents (bid ask : Order) (quantity : Quantity) :
    departures (fillEvents bid ask quantity) =
      (if bid.isFilled then [bid.orderId] else []) ++ if ask.isFilled then [ask.orderId] else [] := by
  unfold fillEvents
  split_ifs <;> rfl

theorem ids_settleQueue (n : Node) (quantity : Quantity) (l : List Node) :
    (n.order.orderId :: l.map (·.order.orderId)).Perm
      ((if (n.less quantity).order.isFilled then [n.order.orderId] else []) ++
        (settleQueue (n.less quantity) l).map (·.order.orderId)) := by
  unfold settleQueue
  split_ifs
  · exact .rfl
  · exact .rfl

/-- Each round takes one of its orders out, and nothing else goes. -/
theorem Fills.departs {xs ys xs' ys' : List Node} {events : List Event}
    (h : Fills .buy xs ys events xs' ys') : Clears events ∧
      (xs.map (·.order.orderId) ++ ys.map (·.order.orderId)).Perm
        (departures events ++ (xs'.map (·.order.orderId) ++ ys'.map (·.order.orderId))) := by
  induction h with
  | nil => exact ⟨trivial, .rfl⟩
  | @cons x y xs ys events xs' ys' _ _ ih =>
    refine ⟨(clears_fillEvents (filled_of_fill x y) _).append ih.1, ?_⟩
    have hx := ids_settleQueue x (fillQuantity x y) xs
    have hy := ids_settleQueue y (fillQuantity x y) ys
    have hrest := ih.2
    have hfront : departures (frontEvents .buy x y) =
        (if (x.less (fillQuantity x y)).order.isFilled then [x.order.orderId] else []) ++
          if (y.less (fillQuantity x y)).order.isFilled then [y.order.orderId] else [] :=
      departures_fillEvents _ _ _
    rw [departures_append, hfront]
    rw [List.perm_iff_count] at hx hy hrest ⊢
    intro id
    have := hx id
    have := hy id
    have := hrest id
    simp only [List.map_cons, List.count_append] at *
    omega

/-- The end of `MatchOrders` for one side takes out at most its front. -/
theorem killFront_departs (h : Rep book) {s : Side} {levels : Levels s} (hp : Placed levels)
    (hl : ∀ n ∈ queued levels, n ∈ book.nodes) : ∃ events book',
      Traced.killFront levels book = .ok (events, book') ∧ Rep book' ∧ Clears events ∧
        book.ids.Perm (departures events ++ book'.ids) := by
  by_cases hk : ∀ n ∈ (queued levels).head?, n.order.orderType ≠ .fillAndKill
  · exact ⟨[], book, killFront_keep levels hp hk, h, trivial, .rfl⟩
  · push Not at hk
    obtain ⟨n, hn, hfak⟩ := hk
    have hmem := hl n (List.mem_of_mem_head? hn)
    obtain ⟨book', hc, hrep, hside⟩ := traced_cancelOrder_spec h hmem
    refine ⟨[.removed n.order], book', (killFront_kill levels hp hn hfak).trans hc, hrep, trivial,
      ?_⟩
    have hnodes : book'.nodes = book.nodes.filter fun m => m.order.orderId != n.order.orderId := by
      rw [nodes, nodes, List.filter_append]
      exact congrArg₂ (· ++ ·) (hside .buy) (hside .sell)
    refine h.ids_perm.trans (.trans ?_ (hrep.ids_perm.symm.cons n.order.orderId))
    refine (List.perm_ext_iff_of_nodup h.index.ids ?_).mpr fun id => ?_
    · refine List.nodup_cons.mpr ⟨?_, hrep.index.ids⟩
      simp [hnodes]
    · simp only [hnodes, List.mem_map, List.mem_filter, List.mem_cons, bne_iff_ne, ne_eq]
      constructor
      · rintro ⟨m, hm, rfl⟩
        by_cases he : m.order.orderId = n.order.orderId
        · exact .inl he
        · exact .inr ⟨m, ⟨hm, he⟩, rfl⟩
      · rintro (rfl | ⟨m, ⟨hm, -⟩, rfl⟩)
        · exact ⟨n, hmem, rfl⟩
        · exact ⟨m, hm, rfl⟩

/-- On a book whose containers are in step `MatchOrders` returns, and the ids it found in `orders_`
are those it took out and those it left. -/
theorem matchOrders_departs (h : Rep book) : ∃ events book',
    Traced.matchOrders book = .ok (events, book') ∧ Clears events ∧
      book.ids.Perm (departures events ++ book'.ids) := by
  obtain ⟨fills, book₁, hr, hrep₁, hfills, -⟩ := matchLevels_spec _ book [] (Nat.lt_succ_self _) h
  obtain ⟨hclears, hperm⟩ := hfills.departs
  obtain ⟨bidKill, book₂, hb, hrep₂, hbc, hbp⟩ :=
    killFront_departs hrep₁ hrep₁.bids fun _ => List.mem_append_left _
  obtain ⟨askKill, book₃, ha, -, hac, hap⟩ :=
    killFront_departs hrep₂ hrep₂.asks fun _ => List.mem_append_right _
  have hperm₁ : book.ids.Perm (departures fills ++ book₁.ids) := by
    refine h.ids_perm.trans ?_
    rw [nodes, List.map_append]
    refine hperm.trans (.append_left _ ?_)
    rw [← List.map_append]
    exact hrep₁.ids_perm.symm
  refine ⟨fills ++ bidKill ++ askKill, book₃, ?_, (hclears.append hbc).append hac, ?_⟩
  · rw [List.nil_append] at hr
    rw [Traced.matchOrders, hr, Except.ok_bind]
    simp only [hb, Except.ok_bind, ha]
  · rw [departures_append, departures_append, List.append_assoc, List.append_assoc]
    exact hperm₁.trans (.append_left _ (hbp.trans (.append_left _ hap)))

end Rounds

/-- Whatever the calls, and whatever the call that then gets as far as `MatchOrders`, with the book
and the order it has queued: the loops end and nothing in them throws, each trade takes one of its
two orders out of `orders_` at once, an id goes once, and there are no more trades than `orders_` had
entries. A level or an order that has been freed counts as read with the values it had. -/
theorem matchOrders_ends {calls : List Call} {trades : List (List Trade)} {book : Orderbook}
    (h : run calls = .ok (trades, book)) {c : Call} {before : Orderbook} {order : Order}
    (hc : book.arrival c = some (before, order)) :
    book.call c = (before.queueOrder order).matchOrders ∧
      ∃ events after, Traced.matchOrders (before.queueOrder order) = .ok (events, after) ∧
        (before.queueOrder order).matchOrders = .ok (tradesOf events, after) ∧ Clears events ∧
        (before.queueOrder order).ids.Perm (departures events ++ after.ids) ∧
        (before.queueOrder order).ids.Nodup ∧
        (tradesOf events).length ≤ (before.queueOrder order).orders.size := by
  obtain ⟨hnone, -⟩ | ⟨b, o, hsome, hq, hadm, -, -, hcall⟩ := call_cases (quiet_of_run h) c
  · rw [hnone] at hc
    exact absurd hc (by simp)
  · obtain ⟨rfl, rfl⟩ : b = before ∧ o = order := by simpa [hsome] using hc
    have hrep := (queueOrder_spec hq.rep (contains_of_admits hadm)).1
    obtain ⟨events, after, htraced, hclears, hperm⟩ := matchOrders_departs hrep
    refine ⟨hcall.trans (addOrder_of_admits hadm), events, after, htraced, ?_, hclears, hperm,
      (b.queueOrder o).orders.nodup_keys, ?_⟩
    · rw [← Traced.forget_matchOrders, htraced]
      rfl
    · calc (tradesOf events).length ≤ (departures events).length := hclears.length_le
        _ ≤ (departures events ++ after.ids).length := by simp
        _ = (b.queueOrder o).orders.size := by
          rw [← hperm.length_eq, ids, List.length_map]
          rfl

/-- A buy of nothing reaches two asks. -/
theorem matchOrders_ends_zero : ∃ trades book events after,
    run [.addOrder .goodTillCancel 1 .sell 100 5, .addOrder .goodTillCancel 2 .sell 101 5] =
        .ok (trades, book) ∧
      book.arrival (.addOrder .goodTillCancel 3 .buy 101 0) =
        some (book, .new .goodTillCancel 3 .buy 101 0) ∧
      Traced.matchOrders (book.queueOrder (.new .goodTillCancel 3 .buy 101 0)) =
        .ok (events, after) ∧
      (tradesOf events).length ≤ (book.queueOrder (.new .goodTillCancel 3 .buy 101 0)).orders.size :=
  have h : run [.addOrder .goodTillCancel 1 .sell 100 5, .addOrder .goodTillCancel 2 .sell 101 5] =
      .ok (_, _) := rfl
  have hc : arrival _ (.addOrder .goodTillCancel 3 .buy 101 0) = some (_, _) := rfl
  have ⟨_, events, after, ht, _, _, _, _, hle⟩ := matchOrders_ends h hc
  ⟨_, _, events, after, h, hc, ht, hle⟩

end Orderbook

end SideProjects
