import SideProjects.Proofs.OrderbookRep

/-!
# The matching loops

On a book whose containers are in step, `MatchOrders` is the loop `Fills` on the two sides read as
lists. A round of the inner loop fills one of its two fronts, so the inner loop ends with one of its
two levels gone, and the outer loop ends with one side empty or the best bid below the best ask
(`matchLevels_spec`). No `Fill` asks for more than remains and no queue is empty when its front is
taken.
-/

namespace SideProjects

namespace Orderbook

theorem min_comm' (a b : Quantity) : min a b = min b a := by
  rcases Std.MinEqOr.min_eq_or a b with h | h <;> rcases Std.MinEqOr.min_eq_or b a with h' | h'
  · have h₁ : min a b ≤ b := Std.min_le_right
    have h₂ : min b a ≤ a := Std.min_le_right
    rw [h] at h₁ ⊢
    rw [h'] at h₂ ⊢
    exact UInt32.le_antisymm h₁ h₂
  · rw [h, h']
  · rw [h, h']
  · have h₁ : min a b ≤ a := Std.min_le_left
    have h₂ : min b a ≤ b := Std.min_le_left
    rw [h] at h₁ ⊢
    rw [h'] at h₂ ⊢
    exact UInt32.le_antisymm h₁ h₂

theorem fillQuantity_comm (x y : Node) : fillQuantity x y = fillQuantity y x := min_comm' _ _

theorem fillQuantity_le_left (x y : Node) : fillQuantity x y ≤ x.order.remainingQuantity :=
  Std.min_le_left

theorem fillQuantity_le_right (x y : Node) : fillQuantity x y ≤ y.order.remainingQuantity :=
  Std.min_le_right

theorem fill_of_le {order : Order} {quantity : Quantity} (h : quantity ≤ order.remainingQuantity) :
    order.fill quantity = .ok (order.less quantity) := by
  have : ¬ order.remainingQuantity < quantity := UInt32.not_lt.mpr h
  simp [Order.fill, this, Order.less]

theorem isFilled_less_self (order : Order) :
    (order.less order.remainingQuantity).isFilled = true := by
  simp [Order.isFilled, Order.less]

/-- A trade fills one of the two fronts. -/
theorem filled_of_fill (x y : Node) :
    (x.less (fillQuantity x y)).order.isFilled = true ∨
      (y.less (fillQuantity x y)).order.isFilled = true := by
  rcases Std.MinEqOr.min_eq_or x.order.remainingQuantity y.order.remainingQuantity with h | h
  · left
    simp only [fillQuantity, h, Node.less]
    exact isFilled_less_self _
  · right
    simp only [fillQuantity, h, Node.less]
    exact isFilled_less_self _

theorem settleQueue_filled {n : Node} (h : n.order.isFilled = true) (l : List Node) :
    settleQueue n l = l := if_pos h

theorem settleQueue_unfilled {n : Node} (h : ¬ n.order.isFilled = true) (l : List Node) :
    settleQueue n l = n :: l := if_neg h

theorem settleQueue_append (n : Node) (l l' : List Node) :
    settleQueue n (l ++ l') = settleQueue n l ++ l' := by
  unfold settleQueue
  split_ifs <;> rfl

theorem perm_settleQueue_append (n : Node) (l l' : List Node) :
    (settleQueue n (l ++ l')).Perm (l ++ settleQueue n l') := by
  unfold settleQueue
  split_ifs
  · exact .rfl
  · exact List.perm_middle.symm

theorem length_settleQueue (n : Node) (l : List Node) :
    (settleQueue n l).length = l.length + if n.order.isFilled then 0 else 1 := by
  unfold settleQueue
  split_ifs <;> simp

theorem mem_settleQueue {n m : Node} {l : List Node} (h : m ∈ settleQueue n l) :
    m = n ∨ m ∈ l := by
  unfold settleQueue at h
  split_ifs at h
  · exact .inr h
  · exact List.mem_cons.mp h

namespace Fills

variable {s : Side} {xs ys xs' ys' xs'' ys'' : List Node} {events events' : List Event}

theorem trans (h : Fills s xs ys events xs' ys') (h' : Fills s xs' ys' events' xs'' ys'') :
    Fills s xs ys (events ++ events') xs'' ys'' := by
  induction h with
  | nil => exact h'
  | cons hc _ ih =>
    rw [List.append_assoc]
    exact .cons hc (ih h')

theorem frontEvents_opposite (s : Side) (x y : Node) :
    frontEvents s.opposite y x = frontEvents s x y := by
  cases s <;> rfl

theorem crosses_opposite {s : Side} {p q : Price} : Crosses s.opposite q p ↔ Crosses s p q := by
  cases s <;> rfl

/-- The loop does not tell its two sides apart. -/
theorem opposite (h : Fills s xs ys events xs' ys') :
    Fills s.opposite ys xs events ys' xs' := by
  induction h with
  | nil => exact .nil
  | cons hc _ ih =>
    rw [← frontEvents_opposite]
    refine .cons (crosses_opposite.mpr hc) ?_
    rw [fillQuantity_comm]
    exact ih

end Fills

/-! ## The inner loop -/

/-- The entries of a side whose best level is the queue at `price`, or is gone. -/
def headLevel (price : Price) (queue : OrderPointers) (below : List (Price × OrderPointers)) :
    List (Price × OrderPointers) :=
  (if queue.isEmpty then [] else [(price, queue)]) ++ below

theorem putLevel_head {s : Side} {levels : Levels s} {price : Price} {n : Node}
    {queue : OrderPointers} {below : List (Price × OrderPointers)}
    (h : levels.entries = headLevel price (n :: queue) below) (queue' : OrderPointers) :
    (putLevel levels price queue').entries = headLevel price queue' below := by
  replace h : levels.entries = (price, n :: queue) :: below := h
  unfold putLevel headLevel
  split_ifs
  · rw [SortedMap.entries_erase_of_cons h, List.nil_append]
  · rw [SortedMap.entries_set_of_cons h, List.singleton_append]

theorem queued_head {s : Side} {levels : Levels s} {price : Price} {queue : OrderPointers}
    {below : List (Price × OrderPointers)} (h : levels.entries = headLevel price queue below) :
    queued levels = queue ++ below.flatMap Prod.snd := by
  rw [queued, h, headLevel]
  cases queue <;> simp

theorem Placed.own_head {s : Side} {levels : Levels s} (h : Placed levels) {price : Price}
    {queue : OrderPointers} {below : List (Price × OrderPointers)}
    (he : levels.entries = headLevel price queue below) {n : Node} (hn : n ∈ queue) :
    n.order.side = s ∧ n.order.price = price := by
  refine h.own (price, queue) ?_ n hn
  rw [he, headLevel]
  cases queue with
  | nil => simp at hn
  | cons m queue => simp

/-- A filled front leaves its level in place. -/
theorem Placed.settle {s : Side} {levels : Levels s} (h : Placed levels) {price : Price} {n : Node}
    {queue : OrderPointers} {below : List (Price × OrderPointers)}
    (he : levels.entries = headLevel price (n :: queue) below) (quantity : Quantity) :
    Placed (putLevel levels price (settleQueue (n.less quantity) queue)) := by
  refine h.put fun m hm => ?_
  rcases mem_settleQueue hm with rfl | hm
  · exact h.own_head (n := n) he List.mem_cons_self
  · exact h.own_head he (List.mem_cons_of_mem _ hm)

theorem Indexed.settleFronts {x y : Node} {xs ys : List Node}
    {orders : SortedMap OrderId OrderEntry (· < ·)}
    (h : Indexed ((x :: xs) ++ (y :: ys)) orders) (quantity : Quantity) :
    Indexed (settleQueue (x.less quantity) xs ++ settleQueue (y.less quantity) ys)
      (settleOrders (y.less quantity) (settleOrders (x.less quantity) orders)) := by
  rw [List.cons_append] at h
  have hx := h.settle (x.less quantity) rfl rfl
  rw [settleQueue_append] at hx
  have hy := (hx.perm List.perm_middle).settle (y.less quantity) rfl rfl
  exact hy.perm (perm_settleQueue_append _ _ _)

/-- The inner loop trades the fronts of the two best levels until one of the levels is gone. -/
theorem matchLevel_spec {bidPrice askPrice : Price} (hp : ¬ bidPrice < askPrice)
    {bl al : List (Price × OrderPointers)} : ∀ (fuel : ℕ) (bids asks : OrderPointers)
    (book : Orderbook) (events : List Event), bids.length + asks.length ≤ fuel → Rep book →
    book.bids.entries = headLevel bidPrice bids bl →
    book.asks.entries = headLevel askPrice asks al →
    ∃ events' book' bids' asks',
      Traced.matchLevel bidPrice askPrice fuel bids asks book events =
          .ok (events ++ events', book') ∧
        Rep book' ∧
        Fills .buy (queued book.bids) (queued book.asks) events' (queued book'.bids)
          (queued book'.asks) ∧
        book'.bids.entries = headLevel bidPrice bids' bl ∧
        book'.asks.entries = headLevel askPrice asks' al ∧ (bids' = [] ∨ asks' = [])
  | fuel + 1, b :: bids, a :: asks, book, events, hfuel, h, hb, ha => by
    set q := fillQuantity b a with hq
    set book₁ : Orderbook :=
      { bids := putLevel book.bids bidPrice (settleQueue (b.less q) bids)
        asks := putLevel book.asks askPrice (settleQueue (a.less q) asks)
        orders := settleOrders (a.less q) (settleOrders (b.less q) book.orders) } with hbook₁
    have hb₁ : book₁.bids.entries = headLevel bidPrice (settleQueue (b.less q) bids) bl :=
      putLevel_head hb _
    have ha₁ : book₁.asks.entries = headLevel askPrice (settleQueue (a.less q) asks) al :=
      putLevel_head ha _
    have hindex : Indexed ((b :: (bids ++ bl.flatMap Prod.snd)) ++
        (a :: (asks ++ al.flatMap Prod.snd))) book.orders := by
      have := h.index
      rwa [nodes, queued_head hb, queued_head ha] at this
    have hrep : Rep book₁ := by
      refine ⟨h.bids.settle hb q, h.asks.settle ha q, ?_⟩
      rw [nodes, queued_head hb₁, queued_head ha₁, ← settleQueue_append (b.less q) bids,
        ← settleQueue_append (a.less q) asks]
      exact hindex.settleFronts q
    have hlen : (settleQueue (b.less q) bids).length + (settleQueue (a.less q) asks).length
        ≤ fuel := by
      simp only [List.length_cons] at hfuel
      rw [length_settleQueue, length_settleQueue]
      rcases filled_of_fill b a with hf | hf <;> rw [← hq] at hf <;> simp only [hf, if_true] <;>
        split_ifs <;> omega
    obtain ⟨events', book', bids', asks', hr, hrep', hfills, hb', ha', hend⟩ :=
      matchLevel_spec hp fuel (settleQueue (b.less q) bids) (settleQueue (a.less q) asks) book₁
        (events ++ frontEvents .buy b a) hlen hrep hb₁ ha₁
    refine ⟨frontEvents .buy b a ++ events', book', bids', asks', ?_, hrep', ?_, hb', ha', hend⟩
    · rw [← List.append_assoc, ← hr, Traced.matchLevel]
      rw [show min b.order.remainingQuantity a.order.remainingQuantity = q from rfl,
        fill_of_le (fillQuantity_le_left b a), fill_of_le (fillQuantity_le_right b a)]
      rfl
    · rw [queued_head hb, queued_head ha, List.cons_append, List.cons_append]
      refine .cons ?_ ?_
      · rw [(h.bids.own_head hb List.mem_cons_self).2, (h.asks.own_head ha List.mem_cons_self).2]
        exact hp
      · rw [queued_head hb₁, queued_head ha₁] at hfills
        rw [← hq]
        simpa only [settleQueue_append] using hfills
  | 0, b :: bids, a :: asks, _, _, hfuel, _, _, _ => by simp at hfuel
  | 0, [], asks, book, events, _, h, hb, ha =>
    ⟨[], book, [], asks, by simp [Traced.matchLevel], h, .nil, hb, ha, .inl rfl⟩
  | fuel + 1, [], asks, book, events, _, h, hb, ha =>
    ⟨[], book, [], asks, by simp [Traced.matchLevel], h, .nil, hb, ha, .inl rfl⟩
  | 0, b :: bids, [], book, events, _, h, hb, ha =>
    ⟨[], book, b :: bids, [], by simp [Traced.matchLevel], h, .nil, hb, ha, .inr rfl⟩
  | fuel + 1, b :: bids, [], book, events, _, h, hb, ha =>
    ⟨[], book, b :: bids, [], by simp [Traced.matchLevel], h, .nil, hb, ha, .inr rfl⟩

/-! ## The outer loop -/

/-- No bid reaches an ask. -/
def Uncrossed (s : Side) (xs ys : List Node) : Prop :=
  ∀ x ∈ xs, ∀ y ∈ ys, ¬ Crosses s x.order.price y.order.price

theorem Uncrossed.opposite {s : Side} {xs ys : List Node} (h : Uncrossed s xs ys) :
    Uncrossed s.opposite ys xs :=
  fun y hy x hx hc => h x hx y hy (Fills.crosses_opposite.mp hc)

/-- Two sides whose best prices do not cross do not cross at all. -/
theorem uncrossed_of_heads {s s' : Side} (hs : s' = s.opposite) {xs ys : List Node} {x y : Node}
    (hx : ((x :: xs).Pairwise fun a b => ¬ byPrice s b a))
    (hy : ((y :: ys).Pairwise fun a b => ¬ byPrice s' b a))
    (h : ¬ Crosses s x.order.price y.order.price) : Uncrossed s (x :: xs) (y :: ys) := by
  subst hs
  have hx' : ∀ a ∈ x :: xs, ¬ byPrice s a x := by
    intro a ha
    rcases List.mem_cons.mp ha with rfl | ha
    · exact irrefl_of (better s) _
    · exact (List.pairwise_cons.mp hx).1 a ha
  have hy' : ∀ b ∈ y :: ys, ¬ byPrice s.opposite b y := by
    intro b hb
    rcases List.mem_cons.mp hb with rfl | hb
    · exact irrefl_of (better s.opposite) _
    · exact (List.pairwise_cons.mp hy).1 b hb
  intro a ha b hb hc
  have h₁ := hx' a ha
  have h₂ := hy' b hb
  cases s <;> simp only [Crosses, byPrice, better, Side.opposite] at * <;> grind

/-- The outer loop trades the two fronts until they no longer cross. -/
theorem matchLevels_spec : ∀ (fuel : ℕ) (book : Orderbook) (events : List Event),
    book.bids.size + book.asks.size < fuel → Rep book →
    ∃ events' book', Traced.matchLevels fuel book events = .ok (events ++ events', book') ∧
      Rep book' ∧
      Fills .buy (queued book.bids) (queued book.asks) events' (queued book'.bids)
        (queued book'.asks) ∧
      Uncrossed .buy (queued book'.bids) (queued book'.asks)
  | 0, _, _, hfuel, _ => by omega
  | fuel + 1, book, events, hfuel, h => by
    rcases hb : book.bids.begin? with _ | ⟨bidPrice, bids⟩
    · have hnil : queued book.bids = [] := by
        unfold SortedMap.begin? at hb
        rw [queued, List.head?_eq_none_iff.mp hb, List.flatMap_nil]
      refine ⟨[], book, by simp [Traced.matchLevels, hb], h, .nil, fun x hx => ?_⟩
      simp [hnil] at hx
    rcases ha : book.asks.begin? with _ | ⟨askPrice, asks⟩
    · have hnil : queued book.asks = [] := by
        unfold SortedMap.begin? at ha
        rw [queued, List.head?_eq_none_iff.mp ha, List.flatMap_nil]
      refine ⟨[], book, by simp [Traced.matchLevels, hb, ha], h, .nil, fun x _ y hy => ?_⟩
      simp [hnil] at hy
    obtain ⟨bl, hbl⟩ := SortedMap.entries_of_begin? hb
    obtain ⟨al, hal⟩ := SortedMap.entries_of_begin? ha
    obtain ⟨b, bids, rfl⟩ : ∃ b bids', bids = b :: bids' :=
      List.exists_cons_of_ne_nil (h.bids.nonempty (bidPrice, bids) (by simp [hbl]))
    obtain ⟨a, asks, rfl⟩ : ∃ a asks', asks = a :: asks' :=
      List.exists_cons_of_ne_nil (h.asks.nonempty (askPrice, asks) (by simp [hal]))
    have hbl' : book.bids.entries = headLevel bidPrice (b :: bids) bl := hbl
    have hal' : book.asks.entries = headLevel askPrice (a :: asks) al := hal
    by_cases hp : bidPrice < askPrice
    · refine ⟨[], book, by simp [Traced.matchLevels, hb, ha, hp], h, .nil, ?_⟩
      have hx := h.bids.sorted
      have hy := h.asks.sorted
      rw [queued_head hbl', List.cons_append] at hx ⊢
      rw [queued_head hal', List.cons_append] at hy ⊢
      refine uncrossed_of_heads rfl hx hy ?_
      rw [(h.bids.own_head hbl' List.mem_cons_self).2, (h.asks.own_head hal' List.mem_cons_self).2]
      exact fun hc => hc hp
    · obtain ⟨events₁, book₁, bids₁, asks₁, hr, hrep, hfills, hb₁, ha₁, hend⟩ :=
        matchLevel_spec hp ((b :: bids).length + (a :: asks).length) (b :: bids) (a :: asks) book
          events le_rfl h hbl' hal'
      have hsize : book₁.bids.size + book₁.asks.size < fuel := by
        simp only [SortedMap.size, hb₁, ha₁, hbl', hal', headLevel, List.length_append] at hfuel ⊢
        rcases hend with rfl | rfl <;> simp at hfuel ⊢ <;> split_ifs <;> simp <;> omega
      obtain ⟨events₂, book₂, hr₂, hrep₂, hfills₂, hunc⟩ :=
        matchLevels_spec fuel book₁ (events ++ events₁) hsize hrep
      refine ⟨events₁ ++ events₂, book₂, ?_, hrep₂, hfills.trans hfills₂, hunc⟩
      rw [Traced.matchLevels, hb, ha]
      simp only [if_neg hp, hr, Except.ok_bind, hr₂, List.append_assoc]

end Orderbook

end SideProjects
