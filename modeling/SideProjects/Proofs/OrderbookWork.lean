import SideProjects.Proofs.OrderbookRounds

/-!
# The work of a run

Each trade takes an order out of the book, so a call pays for its trades with the orders that go
(`addOrder_work`), and a modify queues an order only in the place of one it has cancelled. The number
of resting orders is the potential: over a run there are no more trades than calls of `AddOrder`, and
what still rests could pay for as many more (`run_work`).
-/

namespace SideProjects

namespace Orderbook

/-- What a call may add to the number of resting orders. -/
def Call.charge : Call → ℕ
  | .addOrder .. => 1
  | .cancelOrder _ => 0
  | .matchOrder _ => 0

section Work

variable {book : Orderbook}

theorem length_nodes (s : Side) :
    book.nodes.length = (book.sideNodes s).length + (book.sideNodes s.opposite).length := by
  cases s with
  | buy => exact List.length_append
  | sell => exact List.length_append.trans (Nat.add_comm _ _)

theorem Rep.size_eq (h : Rep book) : book.size = book.nodes.length := h.index.size

theorem size_queueOrder (h : Rep book) {order : Order}
    (hid : book.orders.contains order.orderId = false) :
    (book.queueOrder order).size = book.size + 1 := by
  obtain ⟨hrep, hown, hother⟩ := queueOrder_spec h hid
  rw [hrep.size_eq, h.size_eq, length_nodes order.side, length_nodes order.side, hown, hother,
    List.orderedInsert_length]
  omega

theorem size_cancelOrder (h : Quiet book) {id : OrderId} (hid : book.orders.contains id = true) :
    ∃ book', book.cancelOrder id = .ok book' ∧ Quiet book' ∧ book'.size + 1 ≤ book.size := by
  obtain ⟨book', hc, hq, -, hside⟩ := cancelOrder_quiet h id
  refine ⟨book', hc, hq, ?_⟩
  obtain ⟨n, hn, rfl⟩ := (h.rep.contains_iff id).mp hid
  obtain ⟨s, hn⟩ := mem_nodes.mp hn
  have hown : (book'.sideNodes s).length < (book.sideNodes s).length := by
    rw [hside, List.length_filter_lt_length_iff_exists]
    exact ⟨n, hn, by simp⟩
  have hother : (book'.sideNodes s.opposite).length ≤ (book.sideNodes s.opposite).length := by
    rw [hside]
    exact List.length_filter_le _ _
  rw [hq.rep.size_eq, h.rep.size_eq, length_nodes s, length_nodes s]
  omega

/-- The trades of an arriving order are no more than the orders that go, itself among them. -/
theorem addOrder_work (h : Quiet book) (order : Order) :
    ∃ trades book', book.addOrder order = .ok (trades, book') ∧ Quiet book' ∧
      trades.length + book'.size ≤ book.size + 1 := by
  obtain ⟨trades, book', hr, hq⟩ := addOrder_quiet h order
  refine ⟨trades, book', hr, hq, ?_⟩
  rcases hadm : book.admits order with _ | _
  · obtain ⟨rfl, rfl⟩ : [] = trades ∧ book = book' := by
      simpa [addOrder_of_not_admits hadm] using hr
    simp
  · have hid := contains_of_admits hadm
    obtain ⟨events, after, htraced, hclears, hperm⟩ :=
      matchOrders_departs (queueOrder_spec h.rep hid).1
    rw [addOrder_of_admits hadm, ← Traced.forget_matchOrders, htraced] at hr
    obtain ⟨rfl, rfl⟩ : tradesOf events = trades ∧ after = book' := by
      simpa [Traced.forget] using hr
    have hids : ∀ b : Orderbook, b.ids.length = b.size := fun b => List.length_map _
    have hlen := hperm.length_eq
    rw [List.length_append, hids, hids, size_queueOrder h.rep hid] at hlen
    have := hclears.length_le
    omega

theorem call_work (h : Quiet book) (c : Call) :
    ∃ trades book', book.call c = .ok (trades, book') ∧ Quiet book' ∧
      trades.length + book'.size ≤ book.size + c.charge := by
  cases c with
  | addOrder orderType orderId side price quantity => exact addOrder_work h _
  | cancelOrder id =>
    rcases hid : book.orders.contains id with _ | _
    · have hf : book.orders.find? id = none := by
        simpa [SortedMap.contains] using hid
      exact ⟨[], book, by simp [call, cancelOrder, hf], h, by simp [Call.charge]⟩
    · obtain ⟨book', hc, hq, hle⟩ := size_cancelOrder h hid
      refine ⟨[], book', by simp [call, hc], hq, ?_⟩
      simp only [List.length_nil, Call.charge]
      omega
  | matchOrder order =>
    rcases hf : book.orders.find? order.orderId with _ | existing
    · exact ⟨[], book, by simp [call, matchOrder, hf], h, by simp [Call.charge]⟩
    · have hid : book.orders.contains order.orderId = true := by simp [SortedMap.contains, hf]
      obtain ⟨b, hc, hq, hle⟩ := size_cancelOrder h hid
      obtain ⟨trades, book', hadd, hq', hle'⟩ :=
        addOrder_work hq (order.toOrderPointer existing.order.orderType)
      refine ⟨trades, book', by simp [call, matchOrder, hf, hc, hadd], hq', ?_⟩
      simp only [Call.charge]
      omega

end Work

/-- Whatever the calls, they all return, as long as freed memory still has its values, and there are no
more trades and resting orders together than there were calls of `AddOrder`. -/
theorem run_work (calls : List Call) : ∃ trades book, run calls = .ok (trades, book) ∧
    (trades.map List.length).sum + book.size ≤ (calls.map Call.charge).sum := by
  obtain ⟨trades, book, hr, -, hle⟩ :=
    runAll_potential (fun _ c h => call_work h c) calls empty quiet_empty
  have hempty : empty.size = 0 := rfl
  exact ⟨trades, book, hr, by omega⟩

end Orderbook

end SideProjects
