import SideProjects.OrderbookMirror
import SideProjects.Proofs.OrderbookSweep

/-!
# Buying and selling are symmetric

Every operation has a branch for buys and one for sells. On the two sides read as lists the mirrored
operation does to the mirrored lists what the operation does to the lists (`sweepFrom_mirror`), and a
quiet book is determined by its lists, so mirrored calls give the mirrored trades and leave the
mirrored book (`run_mirror`). `MatchOrders` looks at the bids' front before it looks at the asks',
but in a quiet book at most the side of the new order has a `FillAndKill` front.
-/

namespace SideProjects

namespace Orderbook

@[simp]
theorem opposite_opposite (s : Side) : s.opposite.opposite = s := by
  cases s <;> rfl

/-! ## The mirrored book is quiet -/

section Book

variable {book : Orderbook}

theorem entries_mirrorLevels {s : Side} (levels : Levels s) : (mirrorLevels levels).entries =
    levels.entries.map fun l => (mirrorPrice l.1, l.2.map Node.mirror) := rfl

theorem queued_mirrorLevels {s : Side} (levels : Levels s) :
    queued (mirrorLevels levels) = (queued levels).map Node.mirror := by
  simp [queued, entries_mirrorLevels, List.flatMap_map, List.map_flatMap]

theorem sideNodes_mirror (book : Orderbook) (s : Side) :
    book.mirror.sideNodes s = (book.sideNodes s.opposite).map Node.mirror := by
  cases s
  · exact queued_mirrorLevels book.asks
  · exact queued_mirrorLevels book.bids

theorem nodes_mirror (book : Orderbook) : book.mirror.nodes.Perm (book.nodes.map Node.mirror) := by
  rw [nodes, nodes, List.map_append, ← queued_mirrorLevels, ← queued_mirrorLevels]
  exact List.perm_append_comm

theorem newLocation_mirror (book : Orderbook) : book.mirror.newLocation = book.newLocation := by
  have hp : (book.mirror.nodes.map Node.location).Perm (book.nodes.map Node.location) := by
    refine (book.nodes_mirror.map Node.location).trans (.of_eq ?_)
    rw [List.map_map]
    rfl
  unfold newLocation
  rw [hp.foldr_eq' (fun x _ y _ z => Nat.max_left_comm y x z)]

theorem Placed.mirror {s : Side} {levels : Levels s} (h : Placed levels) :
    Placed (mirrorLevels levels) := by
  refine ⟨fun l hl => ?_, fun l hl n hn => ?_⟩ <;> rw [entries_mirrorLevels] at hl <;>
    obtain ⟨l₀, hl₀, rfl⟩ := List.mem_map.mp hl
  · simpa using h.nonempty l₀ hl₀
  · obtain ⟨n₀, hn₀, rfl⟩ := List.mem_map.mp hn
    obtain ⟨hs, hp⟩ := h.own l₀ hl₀ n₀ hn₀
    exact ⟨congrArg Side.opposite hs, congrArg mirrorPrice hp⟩

theorem Indexed.mirror {nodes : List Node} {orders : SortedMap OrderId OrderEntry (· < ·)}
    (h : Indexed nodes orders) :
    Indexed (nodes.map Node.mirror) (orders.map id OrderEntry.mirror fun _ _ h => h) where
  ids := by
    rw [List.map_map]
    exact h.ids
  locations := by
    rw [List.map_map]
    exact h.locations
  find id entry := by
    rw [SortedMap.find?_map_id, Option.map_eq_some_iff]
    constructor
    · rintro ⟨e, he, rfl⟩
      obtain ⟨n, hn, hid, rfl⟩ := (h.find id e).mp he
      exact ⟨n.mirror, List.mem_map_of_mem hn, hid, rfl⟩
    · rintro ⟨n', hn', hid, rfl⟩
      obtain ⟨n, hn, rfl⟩ := List.mem_map.mp hn'
      exact ⟨⟨n.order, n.location⟩, (h.find id _).mpr ⟨n, hn, hid, rfl⟩, rfl⟩

theorem Rep.mirror (h : Rep book) : Rep book.mirror :=
  ⟨h.asks.mirror, h.bids.mirror, h.index.mirror.perm book.nodes_mirror.symm⟩

theorem crosses_mirror (s : Side) (p q : Price) :
    Crosses s.opposite (mirrorPrice p) (mirrorPrice q) ↔ Crosses s p q :=
  not_congr (better_mirror s q p)

theorem Quiet.mirror (h : Quiet book) : Quiet book.mirror := by
  refine ⟨h.rep.mirror, uncrossed_of_side (s := .sell) ?_, fun n hn => ?_⟩
  · intro x hx y hy hc
    rw [sideNodes_mirror] at hx hy
    obtain ⟨x₀, hx₀, rfl⟩ := List.mem_map.mp hx
    obtain ⟨y₀, hy₀, rfl⟩ := List.mem_map.mp hy
    exact h.uncrossed x₀ hx₀ y₀ hy₀ ((crosses_mirror .buy _ _).mp hc)
  · obtain ⟨n₀, hn₀, rfl⟩ := List.mem_map.mp (book.nodes_mirror.mem_iff.mp hn)
    exact h.noKill n₀ hn₀

theorem contains_mirror (book : Orderbook) (id : OrderId) :
    book.mirror.orders.contains id = book.orders.contains id := by
  unfold SortedMap.contains mirror
  rw [SortedMap.find?_map_id, Option.isSome_map]

/-- A quiet book is the mirror of another if its two sides are. -/
theorem eq_mirror {book' : Orderbook} (h : Rep book) (h' : Rep book') {s : Side}
    (hown : book'.sideNodes s.opposite = (book.sideNodes s).map Node.mirror)
    (hother : book'.sideNodes s = (book.sideNodes s.opposite).map Node.mirror) :
    book' = book.mirror := by
  refine h'.ext_sides h.mirror (s := s) ?_ ?_
  · rw [sideNodes_mirror, hother]
  · rw [sideNodes_mirror, opposite_opposite, hown]

end Book

/-! ## The lists -/

section Lists

theorem settleQueue_mirror (n : Node) (l : List Node) :
    settleQueue n.mirror (l.map Node.mirror) = (settleQueue n l).map Node.mirror := by
  have hf : n.mirror.order.isFilled = n.order.isFilled := rfl
  unfold settleQueue
  rw [hf]
  split_ifs <;> rfl

theorem tradesOf_frontEvents_mirror (s : Side) (x y : Node) :
    tradesOf (frontEvents s.opposite x.mirror y.mirror) =
      (tradesOf (frontEvents s x y)).map Trade.mirror := by
  cases s with
  | buy =>
    simp only [frontEvents, Side.opposite, tradesOf_fillEvents, fillQuantity_comm y.mirror x.mirror]
    rfl
  | sell =>
    simp only [frontEvents, Side.opposite, tradesOf_fillEvents, fillQuantity_comm y x]
    rfl

/-- A mirrored order sweeps the mirrored other side as the order sweeps the other side. -/
theorem sweepFrom_mirror (s : Side) : ∀ (x : Node) (ys : List Node),
    tradesOf (sweepFrom s.opposite x.mirror (ys.map Node.mirror)).1 =
        (tradesOf (sweepFrom s x ys).1).map Trade.mirror ∧
      (sweepFrom s.opposite x.mirror (ys.map Node.mirror)).2.1 =
        (sweepFrom s x ys).2.1.map Node.mirror ∧
      (sweepFrom s.opposite x.mirror (ys.map Node.mirror)).2.2 =
        (sweepFrom s x ys).2.2.map Node.mirror
  | _, [] => ⟨rfl, rfl, rfl⟩
  | x, y :: ys => by
    have hcross : Crosses s.opposite x.mirror.order.price y.mirror.order.price ↔
        Crosses s x.order.price y.order.price := crosses_mirror s _ _
    have hq : fillQuantity x.mirror y.mirror = fillQuantity x y := rfl
    have hless : ∀ n : Node, n.mirror.less (fillQuantity x y) = (n.less (fillQuantity x y)).mirror :=
      fun _ => rfl
    have hfill : (x.less (fillQuantity x y)).mirror.order.isFilled =
        (x.less (fillQuantity x y)).order.isFilled := rfl
    have hfront := tradesOf_frontEvents_mirror s x y
    obtain ⟨h₁, h₂, h₃⟩ := sweepFrom_mirror s (x.less (fillQuantity x y)) ys
    simp only [List.map_cons, sweepFrom, hcross, hq, hless, hfill]
    split_ifs
    · exact ⟨hfront, rfl, settleQueue_mirror _ _⟩
    · exact ⟨by rw [tradesOf_append, tradesOf_append, List.map_append, hfront, h₁], h₂, h₃⟩
    · exact ⟨rfl, rfl, rfl⟩

theorem queueLeft_mirror (s : Side) (left : Option Node) (own : List Node) :
    queueLeft s.opposite (left.map Node.mirror) (own.map Node.mirror) =
      (queueLeft s left own).map Node.mirror := by
  cases left with
  | none => rfl
  | some n =>
    exact (List.map_orderedInsert (byPrice s) (byPrice s.opposite) Node.mirror own n
      (fun _ _ => (better_mirror s _ _).symm) fun _ _ => (better_mirror s _ _).symm).symm

theorem filter_mirror (id : OrderId) (l : List Node) :
    (l.map Node.mirror).filter (fun n => n.order.orderId != id) =
      (l.filter fun n => n.order.orderId != id).map Node.mirror := by
  rw [List.filter_map]
  rfl

end Lists

/-! ## The calls -/

section Calls

variable {book : Orderbook}

theorem arrive_mirror (book : Orderbook) (order : Order) :
    tradesOf (arrive book.mirror order.mirror).1 =
        (tradesOf (arrive book order).1).map Trade.mirror ∧
      (arrive book.mirror order.mirror).2.1 = (arrive book order).2.1.map Node.mirror ∧
      (arrive book.mirror order.mirror).2.2 = (arrive book order).2.2.map Node.mirror := by
  have hnode : book.mirror.arrivalNode order.mirror = (book.arrivalNode order).mirror := by
    unfold arrivalNode
    rw [newLocation_mirror]
    rfl
  have hside : order.mirror.side = order.side.opposite := rfl
  unfold arrive
  rw [hnode, hside, sideNodes_mirror, opposite_opposite]
  exact sweepFrom_mirror order.side (book.arrivalNode order) (book.sideNodes order.side.opposite)

theorem addOrder_mirror (h : Quiet book) (order : Order) : ∃ trades book',
    book.addOrder order = .ok (trades, book') ∧ Quiet book' ∧
      book.mirror.addOrder order.mirror = .ok (trades.map Trade.mirror, book'.mirror) := by
  have hid' : book.mirror.orders.contains order.mirror.orderId =
      book.orders.contains order.orderId := contains_mirror book order.orderId
  rcases hid : book.orders.contains order.orderId with _ | _
  · rw [hid] at hid'
    obtain ⟨book₁, hr₁, hq₁, hown₁, hother₁⟩ := addOrder_spec h order hid
    obtain ⟨book₂, hr₂, hq₂, hown₂, hother₂⟩ := addOrder_spec h.mirror order.mirror hid'
    obtain ⟨htrades, hleft, hrest⟩ := arrive_mirror book order
    have hremains : remains book.mirror order.mirror = (remains book order).map Node.mirror := by
      have htype : order.mirror.orderType = order.orderType := rfl
      unfold remains
      rw [htype]
      split_ifs
      · rfl
      · exact hleft
    have hside : order.mirror.side = order.side.opposite := rfl
    have hbook : book₂ = book₁.mirror := by
      refine eq_mirror hq₁.rep hq₂.rep (s := order.side) ?_ ?_
      · rw [hside, sideNodes_mirror, opposite_opposite, hremains, queueLeft_mirror] at hown₂
        rw [hown₂, hown₁]
      · rw [hside, opposite_opposite, hrest] at hother₂
        rw [hother₂, hother₁]
    refine ⟨tradesOf (arrive book order).1, book₁, addOrder_eq_of_traced h.rep hr₁, hq₁, ?_⟩
    rw [← hbook, ← htrades]
    exact addOrder_eq_of_traced h.rep.mirror hr₂
  · rw [hid] at hid'
    exact ⟨[], book, by simp [addOrder, hid], h, by simp [addOrder, hid']⟩

theorem cancelOrder_mirror (h : Quiet book) (id : OrderId) : ∃ book',
    book.cancelOrder id = .ok book' ∧ Quiet book' ∧
      book.mirror.cancelOrder id = .ok book'.mirror := by
  obtain ⟨book₁, hr₁, hq₁, -, hside₁⟩ := cancelOrder_quiet h id
  obtain ⟨book₂, hr₂, hq₂, -, hside₂⟩ := cancelOrder_quiet h.mirror id
  have hside : ∀ s, book₂.sideNodes s = (book₁.sideNodes s.opposite).map Node.mirror := by
    intro s
    rw [hside₂, hside₁, sideNodes_mirror, filter_mirror]
  have hbook : book₂ = book₁.mirror :=
    eq_mirror hq₁.rep hq₂.rep (s := .buy) (hside .sell) (hside .buy)
  exact ⟨book₁, hr₁, hq₁, hbook ▸ hr₂⟩

theorem call_mirror (h : Quiet book) (c : Call) : ∃ trades book',
    book.call c = .ok (trades, book') ∧ Quiet book' ∧
      book.mirror.call c.mirror = .ok (trades.map Trade.mirror, book'.mirror) := by
  cases c with
  | addOrder orderType orderId side price quantity => exact addOrder_mirror h _
  | cancelOrder orderId =>
    obtain ⟨book', hr, hq, hr'⟩ := cancelOrder_mirror h orderId
    exact ⟨[], book', by simp [call, hr], hq, by simp [call, Call.mirror, hr']⟩
  | matchOrder order =>
    have hfind : book.mirror.orders.find? order.mirror.orderId =
        (book.orders.find? order.orderId).map OrderEntry.mirror := SortedMap.find?_map_id _ _ _
    rcases hf : book.orders.find? order.orderId with _ | existing
    · rw [hf] at hfind
      exact ⟨[], book, by simp [call, matchOrder, hf], h,
        by simp [call, Call.mirror, matchOrder, hfind]⟩
    · rw [hf] at hfind
      obtain ⟨book₁, hr₁, hq₁, hr₁'⟩ := cancelOrder_mirror h order.orderId
      obtain ⟨trades, book', ha, hq, ha'⟩ :=
        addOrder_mirror hq₁ (order.toOrderPointer existing.order.orderType)
      refine ⟨trades, book', by simp [call, matchOrder, hf, hr₁, ha], hq, ?_⟩
      simp only [call, Call.mirror, matchOrder, hfind, Option.map_some]
      rw [show order.mirror.orderId = order.orderId from rfl, hr₁']
      exact ha'

/-- Whatever the calls, the mirrored calls return, call by call, the mirrored trades, and leave the
mirrored book. -/
theorem run_mirror (calls : List Call) :
    run (calls.map Call.mirror) =
      (run calls).map fun r => (r.1.map (List.map Trade.mirror), r.2.mirror) :=
  runAll_rename (fun _ c h => call_mirror h c) calls empty quiet_empty

end Calls

end Orderbook

end SideProjects
