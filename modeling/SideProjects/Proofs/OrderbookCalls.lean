import SideProjects.Proofs.OrderbookMatch

/-!
# What a call does

Between calls no bid reaches an ask and no `FillAndKill` order rests (`Quiet`). An order that
reaches the other side is therefore better than everything on its own side and stands alone at its
front, so the matching loop sweeps it, and only it, through the other side (`fills_sweepFrom`), and
the front that `MatchOrders` inspects at the end is the only order that can be `FillAndKill`. This
keeps `Quiet`, so it holds after every run, and no call of a run fails (`run_quiet`).
-/

namespace SideProjects

namespace Orderbook

/-- The state between calls. -/
structure Quiet (book : Orderbook) : Prop where
  rep : Rep book
  uncrossed : Uncrossed .buy (queued book.bids) (queued book.asks)
  noKill : ∀ n ∈ book.nodes, n.order.orderType ≠ .fillAndKill

/-! ## One order against the other side -/

/-- The front `x` of side `s` against the other side, until it is filled or no longer crosses: the
events, what is left of `x`, and what is left of the other side. -/
def sweepFrom (s : Side) : Node → List Node → List Event × Option Node × List Node
  | x, [] => ([], some x, [])
  | x, y :: ys =>
    if Crosses s x.order.price y.order.price then
      let x' := x.less (fillQuantity x y)
      if x'.order.isFilled then
        (frontEvents s x y, none, settleQueue (y.less (fillQuantity x y)) ys)
      else
        let r := sweepFrom s x' ys
        (frontEvents s x y ++ r.1, r.2)
    else ([], some x, y :: ys)

section Sweep

variable {s : Side}

theorem Fills.of_uncrossed {xs ys xs' ys' : List Node} {events : List Event}
    (h : Fills s xs ys events xs' ys') (hu : Uncrossed s xs ys) :
    events = [] ∧ xs' = xs ∧ ys' = ys := by
  cases h with
  | nil => exact ⟨rfl, rfl, rfl⟩
  | cons hc _ => exact absurd hc (hu _ List.mem_cons_self _ List.mem_cons_self)

theorem uncrossed_settle {xs ys : List Node} {y : Node} (hu : Uncrossed s xs (y :: ys))
    (quantity : Quantity) : Uncrossed s xs (settleQueue (y.less quantity) ys) := by
  intro x hx z hz
  rcases mem_settleQueue hz with rfl | hz
  · exact hu x hx y List.mem_cons_self
  · exact hu x hx z (List.mem_cons_of_mem _ hz)

/-- With the rest of its side out of reach, the loop sweeps the front alone. -/
theorem fills_sweepFrom {x : Node} {xs ys xs' ys' : List Node} {events : List Event}
    (h : Fills s (x :: xs) ys events xs' ys') (hu : Uncrossed s xs ys)
    (hu' : Uncrossed s xs' ys') :
    events = (sweepFrom s x ys).1 ∧ xs' = (sweepFrom s x ys).2.1.toList ++ xs ∧
      ys' = (sweepFrom s x ys).2.2 := by
  generalize hl : x :: xs = l at h
  induction h generalizing x with
  | nil =>
    subst hl
    rename_i ys
    cases ys with
    | nil => exact ⟨rfl, rfl, rfl⟩
    | cons y ys =>
      have hc := hu' x List.mem_cons_self y List.mem_cons_self
      simp [sweepFrom, hc]
  | @cons x₀ y xs₀ ys events xs' ys' hc h ih =>
    obtain ⟨rfl, rfl⟩ := List.cons.inj hl
    simp only [sweepFrom, if_pos hc]
    by_cases hf : (x.less (fillQuantity x y)).order.isFilled = true
    · -- The incoming order is gone, and the rest of its side does not cross.
      rw [settleQueue_filled hf] at h
      obtain ⟨rfl, rfl, rfl⟩ := h.of_uncrossed (uncrossed_settle hu _)
      simp [hf]
    · have hy := (filled_of_fill x y).resolve_left hf
      rw [settleQueue_unfilled hf, settleQueue_filled hy] at ih
      obtain ⟨h₁, h₂, h₃⟩ := ih
        (fun a ha b hb => hu a ha b (List.mem_cons_of_mem _ hb)) hu' rfl
      simp [hf, h₁, h₂, h₃]

theorem sweepFrom_of_not_crosses {x : Node} {ys : List Node}
    (h : ∀ y ∈ ys.head?, ¬ Crosses s x.order.price y.order.price) :
    sweepFrom s x ys = ([], some x, ys) := by
  cases ys with
  | nil => rfl
  | cons y ys => simp [sweepFrom, h y (by simp)]

/-- What is left of the swept order differs from it in its remaining quantity only. -/
theorem sweepFrom_left : ∀ {x x' : Node} {ys : List Node}, (sweepFrom s x ys).2.1 = some x' →
    ∃ remaining, x' = { x with order := { x.order with remainingQuantity := remaining } }
  | x, x', [], h => ⟨x.order.remainingQuantity, by simpa [sweepFrom] using h.symm⟩
  | x, x', y :: ys, h => by
    simp only [sweepFrom] at h
    split_ifs at h
    · obtain ⟨remaining, hr⟩ := sweepFrom_left h
      exact ⟨remaining, hr⟩
    · exact ⟨x.order.remainingQuantity, by simpa using h.symm⟩

/-- An order left on the other side was there, with at least as much remaining. -/
theorem sweepFrom_rest : ∀ {x z : Node} {ys : List Node}, z ∈ (sweepFrom s x ys).2.2 →
    ∃ y ∈ ys, ∃ remaining, z = { y with order := { y.order with remainingQuantity := remaining } }
  | x, z, [], h => by simp [sweepFrom] at h
  | x, z, y :: ys, h => by
    simp only [sweepFrom] at h
    split_ifs at h
    · rcases mem_settleQueue h with rfl | h
      · exact ⟨y, List.mem_cons_self, _, rfl⟩
      · exact ⟨z, List.mem_cons_of_mem _ h, _, rfl⟩
    · obtain ⟨w, hw, hz⟩ := sweepFrom_rest h
      exact ⟨w, List.mem_cons_of_mem _ hw, hz⟩
    · exact ⟨z, h, _, rfl⟩

end Sweep

/-! ## Sides -/

section Sides

variable {book : Orderbook} {s : Side}

theorem Rep.sorted (h : Rep book) (s : Side) :
    (book.sideNodes s).Pairwise fun a b => ¬ byPrice s b a := by
  cases s
  · exact h.bids.sorted
  · exact h.asks.sorted

theorem uncrossed_side (h : Uncrossed .buy (queued book.bids) (queued book.asks)) (s : Side) :
    Uncrossed s (book.sideNodes s) (book.sideNodes s.opposite) := by
  cases s
  · exact h
  · exact h.opposite

theorem uncrossed_of_side (h : Uncrossed s (book.sideNodes s) (book.sideNodes s.opposite)) :
    Uncrossed .buy (queued book.bids) (queued book.asks) := by
  cases s
  · exact h
  · exact h.opposite

theorem fills_side {book₁ book₂ : Orderbook} {events : List Event}
    (h : Fills .buy (queued book₁.bids) (queued book₁.asks) events (queued book₂.bids)
      (queued book₂.asks)) (s : Side) :
    Fills s (book₁.sideNodes s) (book₁.sideNodes s.opposite) events (book₂.sideNodes s)
      (book₂.sideNodes s.opposite) := by
  cases s
  · exact h
  · exact h.opposite

theorem head?_queued (h : Placed (s := s) levels) :
    (queued levels).head? = levels.begin?.bind fun l => l.2.head? := by
  unfold queued SortedMap.begin?
  rcases hl : levels.entries with _ | ⟨⟨price, _ | ⟨n, queue⟩⟩, below⟩
  · rfl
  · exact absurd rfl (h.nonempty (price, []) (by simp [hl]))
  · rfl

/-- `CanMatch` asks whether the price reaches the front of the other side. -/
theorem canMatch_iff (h : Rep book) (s : Side) (price : Price) :
    book.canMatch s price = true ↔
      ∃ y ∈ (book.sideNodes s.opposite).head?, Crosses s price y.order.price := by
  have key : ∀ {s' : Side} {levels : Levels s'}, Placed levels →
      ((∃ y ∈ (queued levels).head?, Crosses s price y.order.price) ↔
        ∃ l ∈ levels.begin?, Crosses s price l.1) := by
    intro s' levels hp
    rw [head?_queued hp]
    unfold SortedMap.begin?
    rcases hl : levels.entries with _ | ⟨⟨best, _ | ⟨n, queue⟩⟩, below⟩
    · simp
    · exact absurd rfl (hp.nonempty (best, []) (by simp [hl]))
    · have := (hp.own (best, n :: queue) (by simp [hl]) n List.mem_cons_self).2
      simp [this]
  cases s with
  | buy =>
    refine Iff.trans ?_ (key h.asks).symm
    unfold canMatch
    rcases book.asks.begin? with _ | ⟨bestAsk, queue⟩
    · simp
    · simp only [Crosses, better, Option.mem_def, Option.some.injEq, exists_eq_left',
        decide_eq_true_eq]
      grind
  | sell =>
    refine Iff.trans ?_ (key h.bids).symm
    unfold canMatch
    rcases book.bids.begin? with _ | ⟨bestBid, queue⟩
    · simp
    · simp only [Crosses, better, Option.mem_def, Option.some.injEq, exists_eq_left',
        decide_eq_true_eq]
      grind

/-- An order that reaches the other side goes before everything on its own. -/
theorem orderedInsert_of_crosses {x : Node} {xs ys : List Node} (hu : Uncrossed s xs ys)
    (h : ∃ y ∈ ys.head?, Crosses s x.order.price y.order.price) :
    xs.orderedInsert (byPrice s) x = x :: xs := by
  obtain ⟨y, hy, hc⟩ := h
  cases xs with
  | nil => rfl
  | cons a xs =>
    have ha := hu a List.mem_cons_self y (List.mem_of_mem_head? hy)
    have : byPrice s x a := by
      unfold Crosses at ha hc
      unfold byPrice
      cases s <;> simp only [better] at * <;> grind
    rw [List.orderedInsert_cons, if_pos this]

/-- An order that does not reach the front of the other side reaches none of it. -/
theorem uncrossed_insert (h : Rep book) (hu : Uncrossed s (book.sideNodes s)
      (book.sideNodes s.opposite)) {x : Node}
    (hx : ∀ y ∈ (book.sideNodes s.opposite).head?, ¬ Crosses s x.order.price y.order.price) :
    Uncrossed s ((book.sideNodes s).orderedInsert (byPrice s) x) (book.sideNodes s.opposite) := by
  intro a ha y hy
  rcases (List.mem_orderedInsert _).mp ha with rfl | ha
  · rcases hl : book.sideNodes s.opposite with _ | ⟨z, ys⟩
    · simp [hl] at hy
    · have hs := h.sorted s.opposite
      rw [hl] at hs hx hy
      exact uncrossed_of_heads rfl (List.pairwise_singleton _ _) hs (hx z (by simp)) _
        List.mem_cons_self y hy
  · exact hu a ha y hy

end Sides

/-! ## The calls -/

section Calls

variable {book : Orderbook}

theorem Rep.contains_iff (h : Rep book) (id : OrderId) :
    book.orders.contains id ↔ ∃ n ∈ book.nodes, n.order.orderId = id :=
  h.index.contains_iff id

theorem killFront_keep {s : Side} (levels : Levels s) (hp : Placed levels)
    (h : ∀ n ∈ (queued levels).head?, n.order.orderType ≠ .fillAndKill) :
    Traced.killFront levels book = .ok ([], book) := by
  rw [head?_queued hp] at h
  unfold Traced.killFront
  rcases hl : levels.begin? with _ | ⟨price, _ | ⟨n, queue⟩⟩
  · rfl
  · obtain ⟨below, he⟩ := SortedMap.entries_of_begin? hl
    exact absurd rfl (hp.nonempty (price, []) (by simp [he]))
  · have := h n (by simp [hl])
    simp [this]

theorem killFront_kill {s : Side} (levels : Levels s) (hp : Placed levels) {n : Node}
    (hn : n ∈ (queued levels).head?) (h : n.order.orderType = .fillAndKill) :
    Traced.killFront levels book = Traced.cancelOrder book n.order.orderId := by
  rw [head?_queued hp] at hn
  unfold Traced.killFront
  rcases hl : levels.begin? with _ | ⟨price, _ | ⟨m, queue⟩⟩ <;> rw [hl] at hn
  · simp at hn
  · simp at hn
  · obtain rfl : m = n := by simpa using hn
    simp [h]

theorem traced_cancelOrder_spec (h : Rep book) {n : Node} (hn : n ∈ book.nodes) :
    ∃ book', Traced.cancelOrder book n.order.orderId = .ok ([.removed n.order], book') ∧
      Rep book' ∧ ∀ s, book'.sideNodes s =
        (book.sideNodes s).filter fun m => m.order.orderId != n.order.orderId := by
  obtain ⟨book', hc, hrep, hside⟩ := cancelOrder_spec h n.order.orderId
  refine ⟨book', ?_, hrep, hside⟩
  simp [Traced.cancelOrder, hc, h.index.find?_of_mem hn]

/-- The two inspections at the end of `MatchOrders`. -/
def killFronts (book : Orderbook) : Traced.Result := do
  let (bidKill, book) ← Traced.killFront book.bids book
  let (askKill, book) ← Traced.killFront book.asks book
  .ok (bidKill ++ askKill, book)

theorem traced_matchOrders_eq {fills : List Event} {book₁ : Orderbook}
    (h : Traced.matchLevels (book.bids.size + book.asks.size + 1) book [] = .ok (fills, book₁)) :
    Traced.matchOrders book = (killFronts book₁).map fun r => (fills ++ r.1, r.2) := by
  simp only [Traced.matchOrders, killFronts, h, Except.ok_bind]
  rcases Traced.killFront book₁.bids book₁ with e | ⟨bidKill, book₂⟩
  · rfl
  simp only [Except.ok_bind]
  rcases Traced.killFront book₂.asks book₂ with e | ⟨askKill, book₃⟩
  · rfl
  simp

theorem killFronts_keep (h : Rep book) (hk : ∀ n ∈ book.nodes, n.order.orderType ≠ .fillAndKill) :
    killFronts book = .ok ([], book) := by
  unfold killFronts
  rw [killFront_keep _ h.bids fun n hn =>
      hk n (mem_nodes.mpr ⟨.buy, List.mem_of_mem_head? hn⟩), Except.ok_bind]
  simp only
  rw [killFront_keep _ h.asks fun n hn =>
      hk n (mem_nodes.mpr ⟨.sell, List.mem_of_mem_head? hn⟩)]
  rfl

/-- A `FillAndKill` front is cancelled, whichever side it is on. -/
theorem killFronts_kill (h : Rep book) {s : Side} {n : Node} (hn : n ∈ (book.sideNodes s).head?)
    (hfak : n.order.orderType = .fillAndKill)
    (hk : ∀ m ∈ book.sideNodes s.opposite, m.order.orderType ≠ .fillAndKill) :
    ∃ book', killFronts book = .ok ([.removed n.order], book') ∧ Rep book' ∧
      ∀ s, book'.sideNodes s =
        (book.sideNodes s).filter fun m => m.order.orderId != n.order.orderId := by
  obtain ⟨book', hc, hrep, hside⟩ :=
    traced_cancelOrder_spec h (mem_nodes.mpr ⟨s, List.mem_of_mem_head? hn⟩)
  refine ⟨book', ?_, hrep, hside⟩
  unfold killFronts
  cases s with
  | buy =>
    have hask : ∀ m ∈ (queued book'.asks).head?, m.order.orderType ≠ .fillAndKill := by
      intro m hm
      have hm' : m ∈ book'.sideNodes .sell := List.mem_of_mem_head? hm
      rw [hside] at hm'
      exact hk m (List.mem_of_mem_filter hm')
    rw [killFront_kill _ h.bids hn hfak, hc, Except.ok_bind]
    simp only
    rw [killFront_keep _ hrep.asks hask]
    rfl
  | sell =>
    rw [killFront_keep _ h.bids fun m hm => hk m (List.mem_of_mem_head? hm), Except.ok_bind]
    simp only
    rw [killFront_kill _ h.asks hn hfak, hc]
    rfl

/-- The node an order is queued in. -/
def arrivalNode (book : Orderbook) (order : Order) : Node := ⟨book.newLocation, order⟩

/-- The arriving order against the other side. -/
def arrive (book : Orderbook) (order : Order) : List Event × Option Node × List Node :=
  sweepFrom order.side (book.arrivalNode order) (book.sideNodes order.side.opposite)

/-- A side with what is left of an arrived order queued on it. -/
def queueLeft (s : Side) (left : Option Node) (own : List Node) : List Node :=
  match left with
  | none => own
  | some n => own.orderedInsert (byPrice s) n

/-- What rests of an order that has arrived. -/
def remains (book : Orderbook) (order : Order) : Option Node :=
  if order.orderType = .fillAndKill then none else (arrive book order).2.1

/-- The events of an order's arrival. -/
def arrivalEvents (book : Orderbook) (order : Order) : List Event :=
  if order.orderType = .fillAndKill ∧ !book.canMatch order.side order.price then []
  else .inserted order :: ((arrive book order).1 ++
    if order.orderType = .fillAndKill then (arrive book order).2.1.toList.map (.removed ·.order)
    else [])

/-- The order matched, before the fronts are inspected. -/
theorem matchLevels_queueOrder (h : Quiet book) {order : Order}
    (hid : book.orders.contains order.orderId = false) :
    ∃ book', Traced.matchLevels ((book.queueOrder order).bids.size +
          (book.queueOrder order).asks.size + 1) (book.queueOrder order) [] =
        .ok ((arrive book order).1, book') ∧
      Rep book' ∧ Uncrossed .buy (queued book'.bids) (queued book'.asks) ∧
      book'.sideNodes order.side =
        queueLeft order.side (arrive book order).2.1 (book.sideNodes order.side) ∧
      book'.sideNodes order.side.opposite = (arrive book order).2.2 := by
  obtain ⟨hrep₁, hown, hother⟩ := queueOrder_spec h.rep hid
  have hu := uncrossed_side h.uncrossed order.side
  obtain ⟨events, book', hr, hrep', hfills, hu'⟩ :=
    matchLevels_spec _ (book.queueOrder order) [] (Nat.lt_succ_self _) hrep₁
  replace hfills := fills_side hfills order.side
  rw [hown, hother] at hfills
  by_cases hc : ∃ y ∈ (book.sideNodes order.side.opposite).head?,
      Crosses order.side order.price y.order.price
  · rw [orderedInsert_of_crosses hu hc] at hfills
    obtain ⟨rfl, hx, hy⟩ := fills_sweepFrom hfills hu (uncrossed_side hu' order.side)
    refine ⟨book', hr, hrep', hu', ?_, hy⟩
    rw [hx]
    unfold arrive arrivalNode queueLeft
    split
    · rename_i hl
      simp [hl]
    · rename_i left hl
      obtain ⟨remaining, rfl⟩ := sweepFrom_left hl
      rw [hl, orderedInsert_of_crosses hu hc]
      rfl
  · push Not at hc
    have ha : arrive book order = _ := sweepFrom_of_not_crosses hc
    obtain ⟨rfl, hx, hy⟩ := hfills.of_uncrossed (uncrossed_insert h.rep hu hc)
    rw [ha]
    exact ⟨book', hr, hrep', hu', hx, hy⟩

theorem arrive_of_not_canMatch (h : Rep book) (order : Order)
    (hc : book.canMatch order.side order.price = false) :
    arrive book order = ([], some (book.arrivalNode order), book.sideNodes order.side.opposite) := by
  refine sweepFrom_of_not_crosses fun y hy hx => ?_
  have := (canMatch_iff h order.side order.price).mpr ⟨y, hy, hx⟩
  simp [hc] at this

theorem ne_of_not_contains (h : Rep book) {id : OrderId} (hid : book.orders.contains id = false)
    {s : Side} {n : Node} (hn : n ∈ book.sideNodes s) : n.order.orderId ≠ id := by
  intro e
  have := (h.contains_iff id).mpr ⟨n, mem_nodes.mpr ⟨s, hn⟩, e⟩
  simp [hid] at this

theorem filter_ne_eq_self {id : OrderId} {l : List Node} (h : ∀ n ∈ l, n.order.orderId ≠ id) :
    l.filter (fun n => n.order.orderId != id) = l :=
  List.filter_eq_self.mpr fun n hn => by simpa using h n hn

theorem mem_queueLeft {s : Side} {left : Option Node} {own : List Node} {n : Node} :
    n ∈ queueLeft s left own ↔ left = some n ∨ n ∈ own := by
  cases left with
  | none => simp [queueLeft]
  | some m =>
    simp only [queueLeft, List.mem_orderedInsert, Option.some.injEq]
    exact or_congr_left eq_comm

/-- An order with a new id arrives: it is swept through the other side, and what is left of it is
queued, or dropped if it is `FillAndKill`. -/
theorem addOrder_spec (h : Quiet book) (order : Order)
    (hid : book.orders.contains order.orderId = false) :
    ∃ book', Traced.addOrder book order = .ok (arrivalEvents book order, book') ∧ Quiet book' ∧
      book'.sideNodes order.side =
        queueLeft order.side (remains book order) (book.sideNodes order.side) ∧
      book'.sideNodes order.side.opposite = (arrive book order).2.2 := by
  unfold Traced.addOrder arrivalEvents remains
  rw [hid, if_neg (by simp)]
  split_ifs with hrej hfak hfak
  · -- `FillAndKill` that reaches nothing
    rw [arrive_of_not_canMatch h.rep order (by simpa using hrej.2)]
    exact ⟨book, rfl, h, rfl, rfl⟩
  · exact absurd hrej.1 hfak
  all_goals
    obtain ⟨book₁, hr, hrep₁, hu₁, hown, hother⟩ := matchLevels_queueOrder h hid
    have hmatch := traced_matchOrders_eq hr
    have hkother : ∀ m ∈ book₁.sideNodes order.side.opposite,
        m.order.orderType ≠ .fillAndKill := by
      intro m hm
      rw [hother] at hm
      obtain ⟨y, hy, remaining, rfl⟩ := sweepFrom_rest hm
      exact h.noKill y (mem_nodes.mpr ⟨_, hy⟩)
    have hkown : ∀ m ∈ book.sideNodes order.side, m.order.orderType ≠ .fillAndKill :=
      fun m hm => h.noKill m (mem_nodes.mpr ⟨_, hm⟩)
  · rcases hl : (arrive book order).2.1 with _ | left
    · rw [hl] at hown
      have hk := forall_nodes (s := order.side) (by rwa [hown]) hkother
      refine ⟨book₁, ?_, ⟨hrep₁, hu₁, hk⟩, hown, hother⟩
      simp [hmatch, killFronts_keep hrep₁ hk]
    · rw [hl] at hown
      obtain ⟨remaining, rfl⟩ := sweepFrom_left hl
      have hc := (canMatch_iff h.rep order.side order.price).mp (by simpa [hfak] using hrej)
      rw [queueLeft, orderedInsert_of_crosses (uncrossed_side h.uncrossed order.side) hc] at hown
      obtain ⟨book', hkill, hrep', hside⟩ := killFronts_kill hrep₁ (s := order.side)
        (by rw [hown]; rfl) hfak hkother
      have hown' : book'.sideNodes order.side = book.sideNodes order.side := by
        rw [hside, hown, List.filter_cons, if_neg (by simp)]
        exact filter_ne_eq_self fun n hn => ne_of_not_contains h.rep hid hn
      have hother' : book'.sideNodes order.side.opposite = (arrive book order).2.2 := by
        rw [hside, hother]
        refine filter_ne_eq_self fun n hn => ?_
        obtain ⟨y, hy, remaining, rfl⟩ := sweepFrom_rest hn
        exact ne_of_not_contains (n := y) h.rep hid hy
      refine ⟨book', ?_, ⟨hrep', ?_, ?_⟩, hown', hother'⟩
      · simp [hmatch, hkill, arrivalNode]
      · refine uncrossed_of_side (s := order.side) fun a ha b hb => ?_
        rw [hown'] at ha
        rw [hother', ← hother] at hb
        exact uncrossed_side hu₁ order.side a (by rw [hown]; exact List.mem_cons_of_mem _ ha) b hb
      · exact forall_nodes (s := order.side) (by rwa [hown']) (by rwa [hother', ← hother])
  · have hk : ∀ n ∈ book₁.nodes, n.order.orderType ≠ .fillAndKill :=
      forall_nodes (s := order.side) (fun m hm => by
      rw [hown, mem_queueLeft] at hm
      rcases hm with hm | hm
      · obtain ⟨remaining, rfl⟩ := sweepFrom_left hm
        exact hfak
      · exact hkown m hm) hkother
    refine ⟨book₁, ?_, ⟨hrep₁, hu₁, hk⟩, hown, hother⟩
    simp [hmatch, killFronts_keep hrep₁ hk]

theorem uncrossed_filter (h : Uncrossed .buy (queued book.bids) (queued book.asks))
    {p : Node → Bool} {book' : Orderbook}
    (hside : ∀ s, book'.sideNodes s = (book.sideNodes s).filter p) :
    Uncrossed .buy (queued book'.bids) (queued book'.asks) := by
  intro x hx y hy
  have hx' : x ∈ book'.sideNodes .buy := hx
  have hy' : y ∈ book'.sideNodes .sell := hy
  rw [hside] at hx' hy'
  exact h x (List.mem_of_mem_filter hx') y (List.mem_of_mem_filter hy')

theorem cancelOrder_quiet (h : Quiet book) (id : OrderId) :
    ∃ book', book.cancelOrder id = .ok book' ∧ Quiet book' ∧
      book'.orders.contains id = false ∧
      ∀ s, book'.sideNodes s = (book.sideNodes s).filter fun n => n.order.orderId != id := by
  obtain ⟨book', hc, hrep, hside⟩ := cancelOrder_spec h.rep id
  refine ⟨book', hc, ⟨hrep, uncrossed_filter h.uncrossed hside, fun n hn => ?_⟩, ?_, hside⟩
  · exact h.noKill n (mem_nodes_of_filter hside hn)
  · rw [Bool.eq_false_iff, ne_eq, hrep.contains_iff]
    rintro ⟨n, hn, rfl⟩
    obtain ⟨s, hn⟩ := mem_nodes.mp hn
    rw [hside, List.mem_filter] at hn
    simp at hn

theorem quiet_empty : Quiet empty := by
  refine ⟨rep_empty, fun x hx => ?_, fun n hn => ?_⟩
  · simp [empty, queued, SortedMap.empty] at hx
  · simp [empty, nodes, queued, SortedMap.empty] at hn

theorem addOrder_quiet (h : Quiet book) (order : Order) :
    ∃ trades book', book.addOrder order = .ok (trades, book') ∧ Quiet book' := by
  rcases hid : book.orders.contains order.orderId with _ | _
  · obtain ⟨book', hr, hq, -, -⟩ := addOrder_spec h order hid
    refine ⟨tradesOf (arrivalEvents book order), book', ?_, hq⟩
    rw [← Traced.forget_addOrder, hr]
    rfl
  · exact ⟨[], book, by simp [addOrder, hid], h⟩

/-- A call from a quiet book returns, and leaves a quiet book. -/
theorem call_quiet (c : Call) (h : Quiet book) :
    ∃ trades book', book.call c = .ok (trades, book') ∧ Quiet book' := by
  cases c with
  | addOrder orderType orderId side price quantity => exact addOrder_quiet h _
  | cancelOrder orderId =>
    obtain ⟨book', hc, hq, -, -⟩ := cancelOrder_quiet h orderId
    exact ⟨[], book', by simp [call, hc], hq⟩
  | matchOrder order =>
    rcases hf : book.orders.find? order.orderId with _ | existing
    · exact ⟨[], book, by simp [call, matchOrder, hf], h⟩
    · obtain ⟨book₁, hc, hq₁, -, -⟩ := cancelOrder_quiet h order.orderId
      obtain ⟨trades, book', ha, hq⟩ :=
        addOrder_quiet hq₁ (order.toOrderPointer existing.order.orderType)
      exact ⟨trades, book', by simp [call, matchOrder, hf, hc, ha], hq⟩

/-- The trades each call returned, and the book the calls left. -/
def run (calls : List Call) : Except Fault (List (List Trade) × Orderbook) :=
  runAll call empty calls

/-- Every run returns, and leaves a quiet book. -/
theorem run_quiet (calls : List Call) :
    ∃ trades book, run calls = .ok (trades, book) ∧ Quiet book :=
  runAll_invariant (P := fun _ => True) (fun _ c _ h => call_quiet c h) calls empty
    (fun _ _ => trivial) quiet_empty

theorem quiet_of_run {calls : List Call} {trades : List (List Trade)} {book : Orderbook}
    (h : run calls = .ok (trades, book)) : Quiet book := by
  obtain ⟨trades', book', h', hq⟩ := run_quiet calls
  rw [h] at h'
  cases h'
  exact hq

end Calls

/-! ## The containers of every reachable book -/

/-- What `orders_`, `bids_` and `asks_` say of each other. -/
structure InStep (book : Orderbook) : Prop where
  /-- The ids of `orders_` are those of the queued orders. -/
  ids : ∀ id, book.orders.contains id ↔
    ∃ n ∈ queued book.bids ++ queued book.asks, n.order.orderId = id
  /-- An id is queued once. -/
  once : ((queued book.bids ++ queued book.asks).map (·.order.orderId)).Nodup
  bids : ∀ l ∈ book.bids.entries, ∀ n ∈ l.2, n.order.side = .buy ∧ n.order.price = l.1
  asks : ∀ l ∈ book.asks.entries, ∀ n ∈ l.2, n.order.side = .sell ∧ n.order.price = l.1
  /-- The entry of a queued order points at it and at its node, and no other node is there. -/
  entry : ∀ n ∈ queued book.bids ++ queued book.asks,
    book.orders.find? n.order.orderId = some ⟨n.order, n.location⟩ ∧
      ∀ m ∈ queued book.bids ++ queued book.asks, m.location = n.location → m = n
  nonempty : (∀ l ∈ book.bids.entries, l.2 ≠ []) ∧ ∀ l ∈ book.asks.entries, l.2 ≠ []

theorem Rep.inStep {book : Orderbook} (h : Rep book) : InStep book where
  ids := h.contains_iff
  once := h.index.ids
  bids := h.bids.own
  asks := h.asks.own
  entry _ hn := ⟨h.index.find?_of_mem hn, fun _ hm he => h.index.eq_of_location hm hn he⟩
  nonempty := ⟨h.bids.nonempty, h.asks.nonempty⟩

/-- Whatever the calls, every one of them returns, the containers end in step, `Size` counts the
queued orders, and `CancelOrder` finds the level of every id it is given. -/
theorem run_inStep (calls : List Call) : ∃ trades book, run calls = .ok (trades, book) ∧
    InStep book ∧ book.size = (queued book.bids ++ queued book.asks).length ∧
    ∀ id, ∃ book', book.cancelOrder id = .ok book' := by
  obtain ⟨trades, book, h, hq⟩ := run_quiet calls
  refine ⟨trades, book, h, hq.rep.inStep, hq.rep.index.size, fun id => ?_⟩
  obtain ⟨book', hc, -⟩ := cancelOrder_spec hq.rep id
  exact ⟨book', hc⟩

/-- Whatever the calls, they leave every bid level below every ask level, and no order that is
`FillAndKill`. -/
theorem run_uncrossed (calls : List Call) : ∃ trades book, run calls = .ok (trades, book) ∧
    (∀ bid ∈ book.bids.entries, ∀ ask ∈ book.asks.entries, bid.1 < ask.1) ∧
    ∀ n ∈ queued book.bids ++ queued book.asks, n.order.orderType ≠ .fillAndKill := by
  obtain ⟨trades, book, h, hq⟩ := run_quiet calls
  refine ⟨trades, book, h, fun bid hbid ask hask => ?_, hq.noKill⟩
  obtain ⟨b, hb⟩ := List.exists_mem_of_ne_nil _ (hq.rep.bids.nonempty bid hbid)
  obtain ⟨a, ha⟩ := List.exists_mem_of_ne_nil _ (hq.rep.asks.nonempty ask hask)
  have hc := hq.uncrossed b (mem_queued.mpr ⟨bid, hbid, hb⟩) a (mem_queued.mpr ⟨ask, hask, ha⟩)
  rw [(hq.rep.bids.own bid hbid b hb).2, (hq.rep.asks.own ask hask a ha).2] at hc
  simpa [Crosses, better] using hc

end Orderbook

end SideProjects
