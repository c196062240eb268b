import SideProjects.Proofs.OrderbookRounds
import SideProjects.Proofs.OrderbookSweep

/-!
# Orders of nothing

The matching loop takes an order out when it has filled it, and trades what remains of two orders, so
from orders of at least one it makes trades of at least one and leaves orders of at least one
(`sweepFrom_positive`). Nothing keeps an order of nothing from being queued. One that reaches the
other side trades nothing with its front, and one that does not rests, with nothing left to fill
(`addOrder_positive_iff`).
-/

namespace SideProjects

namespace Orderbook

/-- There is something left to fill of every order. -/
def Positive (nodes : List Node) : Prop := ∀ n ∈ nodes, 0 < n.order.remainingQuantity

/-- Every trade fills something, on both sides. -/
def PositiveTrades (trades : List Trade) : Prop :=
  ∀ trade ∈ trades, 0 < trade.bidTrade.quantity ∧ 0 < trade.askTrade.quantity

theorem positive_of_not_filled {order : Order} (h : ¬ order.isFilled = true) :
    0 < order.remainingQuantity := by
  rw [UInt32.pos_iff_ne_zero]
  simpa [Order.isFilled] using h

theorem one_le_iff_pos {quantity : Quantity} : 1 ≤ quantity ↔ 0 < quantity := by
  rw [UInt32.le_iff_toNat_le, UInt32.lt_iff_toNat_lt]
  exact Nat.succ_le_iff

theorem fillQuantity_pos {x y : Node} (hx : 0 < x.order.remainingQuantity)
    (hy : 0 < y.order.remainingQuantity) : 0 < fillQuantity x y := by
  unfold fillQuantity
  rcases Std.MinEqOr.min_eq_or x.order.remainingQuantity y.order.remainingQuantity with h | h
  · rwa [h]
  · rwa [h]

theorem positive_settleQueue {n : Node} {l : List Node} (h : Positive l) :
    Positive (settleQueue n l) := by
  unfold settleQueue
  split_ifs with hf
  · exact h
  · exact List.forall_mem_cons.mpr ⟨positive_of_not_filled hf, h⟩

theorem tradesOf_front (s : Side) (x y : Node) : ∃ trade, tradesOf (frontEvents s x y) = [trade] ∧
    trade.bidTrade.quantity = fillQuantity x y ∧ trade.askTrade.quantity = fillQuantity x y := by
  cases s with
  | buy => exact ⟨_, tradesOf_fillEvents _ _ _, rfl, rfl⟩
  | sell =>
    exact ⟨_, tradesOf_fillEvents _ _ _, fillQuantity_comm y x, fillQuantity_comm y x⟩

theorem positiveTrades_front {s : Side} {x y : Node} :
    PositiveTrades (tradesOf (frontEvents s x y)) ↔ 0 < fillQuantity x y := by
  obtain ⟨trade, ht, hb, ha⟩ := tradesOf_front s x y
  simp [PositiveTrades, ht, hb, ha]

theorem positiveTrades_append {trades trades' : List Trade} :
    PositiveTrades (trades ++ trades') ↔ PositiveTrades trades ∧ PositiveTrades trades' :=
  List.forall_mem_append

/-- A sweep of something through orders of something trades something each time. -/
theorem sweepFrom_positive (s : Side) : ∀ {x : Node} {ys : List Node},
    0 < x.order.remainingQuantity → Positive ys →
    PositiveTrades (tradesOf (sweepFrom s x ys).1) ∧
      Positive (sweepFrom s x ys).2.1.toList ∧ Positive (sweepFrom s x ys).2.2
  | x, [], hx, _ => ⟨by simp [sweepFrom, PositiveTrades], by simpa [sweepFrom, Positive] using hx,
      by simp [sweepFrom, Positive]⟩
  | x, y :: ys, hx, hys => by
    obtain ⟨hy, hys⟩ := List.forall_mem_cons.mp hys
    have htrade := positiveTrades_front (s := s).mpr (fillQuantity_pos hx hy)
    simp only [sweepFrom]
    split_ifs with hc hf
    · exact ⟨htrade, by simp [Positive], positive_settleQueue hys⟩
    · obtain ⟨h₁, h₂, h₃⟩ := sweepFrom_positive s (positive_of_not_filled hf) hys
      exact ⟨by rw [tradesOf_append, positiveTrades_append]; exact ⟨htrade, h₁⟩, h₂, h₃⟩
    · refine ⟨by simp [PositiveTrades], by simpa [Positive] using hx, ?_⟩
      exact List.forall_mem_cons.mpr ⟨hy, hys⟩

/-- A sweep of nothing that reaches the front of the other side trades nothing with it. -/
theorem sweepFrom_zero {s : Side} {x : Node} {ys : List Node} (hx : x.order.remainingQuantity = 0)
    (hc : ∃ y ∈ ys.head?, Crosses s x.order.price y.order.price) :
    ¬ PositiveTrades (tradesOf (sweepFrom s x ys).1) := by
  obtain ⟨y, hy, hc⟩ := hc
  obtain ⟨ys, rfl⟩ : ∃ ys', ys = y :: ys' := by
    cases ys with
    | nil => simp at hy
    | cons z ys => exact ⟨ys, by simpa using hy⟩
  have hq : fillQuantity x y = 0 := by
    have := fillQuantity_le_left x y
    rw [hx] at this
    simpa using this
  have hfront : ¬ PositiveTrades (tradesOf (frontEvents s x y)) := by
    rw [positiveTrades_front, hq]
    decide
  simp only [sweepFrom, if_pos hc]
  split_ifs
  · exact hfront
  · rw [tradesOf_append, positiveTrades_append]
    exact fun h => hfront h.1

section Calls

variable {book : Orderbook}

/-- An order that is queued in a book of orders of something leaves such a book, and makes trades of
something, if and only if it is for something. -/
theorem addOrder_positive_iff (h : Quiet book) (hpos : Positive book.nodes) {order : Order}
    (hadm : book.admits order = true) : ∃ trades book', book.addOrder order = .ok (trades, book') ∧
      Quiet book' ∧
      (PositiveTrades trades ∧ Positive book'.nodes ↔ 0 < order.remainingQuantity) := by
  obtain ⟨book', hr, hquiet, hown, hother⟩ := addOrder_spec h order (contains_of_admits hadm)
  have hside : ∀ s, Positive (book.sideNodes s) := fun s n hn => hpos n (mem_nodes.mpr ⟨s, hn⟩)
  refine ⟨tradesOf (arrive book order).1, book', addOrder_eq_of_traced h.rep hr, hquiet,
    fun hgood => ?_, fun hq => ?_⟩
  · by_contra hq
    have hzero : order.remainingQuantity = 0 := by
      rw [UInt32.pos_iff_ne_zero] at hq
      exact not_not.mp hq
    by_cases hc : ∃ y ∈ (book.sideNodes order.side.opposite).head?,
        Crosses order.side order.price y.order.price
    · exact sweepFrom_zero (x := book.arrivalNode order) hzero hc hgood.1
    · -- It cannot match, so it is not `FillAndKill`, and it rests.
      have hm : ¬ book.canMatch order.side order.price = true := by rwa [canMatch_iff h.rep]
      have hkeep : ¬ order.orderType = .fillAndKill := fun hfak => hm (canMatch_of_admits hadm hfak)
      have hrest : book.arrivalNode order ∈ book'.nodes := by
        refine mem_nodes.mpr ⟨order.side, ?_⟩
        rw [hown, mem_queueLeft, remains, if_neg hkeep,
          arrive_of_not_canMatch h.rep order (by simpa using hm)]
        exact .inl rfl
      exact hq (hgood.2 _ hrest)
  · obtain ⟨htrades, hleft, hrest⟩ := sweepFrom_positive order.side (x := book.arrivalNode order) hq
      (hside order.side.opposite)
    refine ⟨htrades, forall_nodes (s := order.side) (fun n hn => ?_) (by rwa [hother])⟩
    rw [hown, mem_queueLeft] at hn
    rcases hn with hn | hn
    · unfold remains at hn
      split_ifs at hn
      exact hleft n (Option.mem_toList.mpr hn)
    · exact hside _ n hn

theorem call_positive_iff (h : Quiet book) (hpos : Positive book.nodes) (c : Call) :
    ∃ trades book', book.call c = .ok (trades, book') ∧
      (PositiveTrades trades ∧ Quiet book' ∧ Positive book'.nodes ↔
        ((book.arrival c).isSome → c.AtLeastOne)) := by
  obtain ⟨hnone, book', hc, hq, hmem⟩ | ⟨b, order, hsome, hq, hadm, hmem, hone, hc⟩ :=
    call_cases h c
  · refine ⟨[], book', hc, iff_of_true ⟨by simp [PositiveTrades], hq, ?_⟩ (by simp [hnone])⟩
    exact fun n hn => hpos n (hmem n hn)
  · obtain ⟨trades, book', ha, hq', hiff⟩ :=
      addOrder_positive_iff hq (fun n hn => hpos n (hmem n hn)) hadm
    refine ⟨trades, book', hc.trans ha, ?_⟩
    rw [hone, one_le_iff_pos, ← hiff, hsome]
    simp [hq']

/-- Whatever the calls: after each of them every resting order has something left to fill and every
trade returned so far is of something, if and only if every call that queues an order is for at least
one. -/
theorem run_positive_iff (calls : List Call) :
    (∀ before, before <+: calls → ∃ trades book, run before = .ok (trades, book) ∧
        (∀ n ∈ book.nodes, 0 < n.order.remainingQuantity) ∧
        ∀ returned ∈ trades, ∀ trade ∈ returned,
          0 < trade.bidTrade.quantity ∧ 0 < trade.askTrade.quantity) ↔
      ∀ before c, before ++ [c] <+: calls → ∀ trades book, run before = .ok (trades, book) →
        (book.arrival c).isSome → c.AtLeastOne := by
  have hempty : Positive empty.nodes := by
    intro n hn
    simp [empty, nodes, queued, SortedMap.empty] at hn
  have hstep : ∀ book c, Quiet book ∧ Positive book.nodes → ∃ trades book',
      book.call c = .ok (trades, book') ∧
        (PositiveTrades trades ∧ Quiet book' ∧ Positive book'.nodes ↔
          ((book.arrival c).isSome → c.AtLeastOne)) :=
    fun book c hs => call_positive_iff hs.1 hs.2 c
  refine Iff.trans ?_ (runAll_prefixes_iff hstep calls empty ⟨quiet_empty, hempty⟩)
  refine forall_congr' fun before => imp_congr_right fun _ => exists_congr fun trades =>
    exists_congr fun book => and_congr_right fun hrun => ?_
  have hquiet := quiet_of_run hrun
  exact ⟨fun hgood => ⟨hgood.2, hquiet, hgood.1⟩, fun hgood => ⟨hgood.2.2, hgood.1⟩⟩

end Calls

/-- A buy of nothing rests, and a sell then trades nothing with it. -/
theorem run_positive_fails : ∃ trades book trades' book',
    run [.addOrder .goodTillCancel 1 .buy 100 0] = .ok (trades, book) ∧
      (∃ n ∈ book.nodes, n.order.remainingQuantity = 0) ∧
      run [.addOrder .goodTillCancel 1 .buy 100 0, .addOrder .goodTillCancel 2 .sell 100 5] =
        .ok (trades', book') ∧
      trades' = [[], [⟨⟨1, 100, 0⟩, ⟨2, 100, 0⟩⟩]] :=
  ⟨_, _, _, _, rfl, ⟨_, List.mem_cons_self, rfl⟩, rfl, rfl⟩

end Orderbook

end SideProjects
