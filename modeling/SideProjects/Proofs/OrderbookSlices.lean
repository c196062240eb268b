import Mathlib.Data.UInt
import SideProjects.Proofs.OrderbookDepth
import SideProjects.Proofs.OrderbookLedger

/-!
# An order in slices

An order that comes in slices, one right after the other, does to the rest of the book what it does at
once. A sweep is taken up where it was left: the second slice finds the front that the first has partly
filled and fills it further (`sweep_split`). What is left of the slices is queued at one price, so it
adds up to what is left of the whole order, and the depth snapshot is the same, modulo `2 ^ 32` or not
(`run_slices`).
-/

namespace SideProjects

namespace Orderbook

/-- What the trades fill of the order `id` on side `s`. -/
def filled (s : Side) (id : OrderId) (trades : List Trade) : ℕ :=
  (trades.map (legQuantity s id)).sum

@[simp]
theorem filled_nil (s : Side) (id : OrderId) : filled s id [] = 0 := rfl

@[simp]
theorem filled_append (s : Side) (id : OrderId) (l l' : List Trade) :
    filled s id (l ++ l') = filled s id l + filled s id l' := by
  simp [filled]

/-! ## Quantities -/

theorem toNat_min (a b : Quantity) : (min a b).toNat = min a.toNat b.toNat := by
  have hleft : min a b ≤ a := Std.min_le_left
  have hright : min a b ≤ b := Std.min_le_right
  rw [UInt32.le_iff_toNat_le] at hleft hright
  rcases Std.MinEqOr.min_eq_or a b with h | h <;> rw [h] at hleft hright ⊢ <;> omega

theorem isFilled_iff {order : Order} : order.isFilled = true ↔ order.remainingQuantity.toNat = 0 := by
  rw [Order.isFilled, beq_iff_eq, ← UInt32.toNat_inj]
  rfl

theorem toNat_less {order : Order} {quantity : Quantity}
    (h : quantity.toNat ≤ order.remainingQuantity.toNat) :
    (order.less quantity).remainingQuantity.toNat =
      order.remainingQuantity.toNat - quantity.toNat :=
  UInt32.toNat_sub_of_le _ _ (UInt32.le_iff_toNat_le.mpr h)

theorem Order.less_zero (order : Order) : order.less 0 = order := by
  simp [Order.less]

theorem Order.less_less (order : Order) (a b : Quantity) :
    (order.less a).less b = order.less (a + b) := by
  simp only [Order.less, Order.mk.injEq, true_and]
  grind

namespace PriceTime

/-! ## A sweep in two -/

theorem filled_tradeWith {s : Side} (id : OrderId) {incoming : Order} (hs : incoming.side = s)
    (resting : Order) (quantity : Quantity) (trades : List Trade) :
    filled s.opposite id (tradeWith incoming resting quantity :: trades) =
      (if resting.orderId = id then quantity.toNat else 0) + filled s.opposite id trades := by
  subst hs
  rw [filled, List.map_cons, List.sum_cons]
  congr 1
  unfold tradeWith legQuantity
  cases incoming.side <;> rfl

theorem sweep_filled {incoming : Order} (h : incoming.isFilled = true) :
    ∀ resting, sweep incoming resting = ⟨[], incoming, resting⟩
  | [] => rfl
  | front :: rest => by rw [sweep, if_pos (.inl h)]

theorem sweep_not_crosses {incoming front : Order}
    (h : ¬ Crosses incoming.side incoming.price front.price) (rest : List Order) :
    sweep incoming (front :: rest) = ⟨[], incoming, front :: rest⟩ := by
  rw [sweep, if_pos (.inr h)]

/-- The front is used up, and the sweep goes on. -/
theorem sweep_through {incoming front : Order} (hfill : ¬ incoming.isFilled = true)
    (hc : Crosses incoming.side incoming.price front.price) {quantity : Quantity}
    (hq : min incoming.remainingQuantity front.remainingQuantity = quantity)
    (hfront : (front.less quantity).isFilled = true) (rest : List Order) :
    sweep incoming (front :: rest) =
      { sweep (incoming.less quantity) rest with
        trades := tradeWith incoming front quantity ::
          (sweep (incoming.less quantity) rest).trades } := by
  rw [sweep, if_neg (by simp [hfill, hc]), hq]
  simp only [hfront, if_true]

/-- The incoming order is used up on the front. -/
theorem sweep_within {incoming front : Order} (hfill : ¬ incoming.isFilled = true)
    (hc : Crosses incoming.side incoming.price front.price) {quantity : Quantity}
    (hq : min incoming.remainingQuantity front.remainingQuantity = quantity)
    (hfront : ¬ (front.less quantity).isFilled = true) (rest : List Order) :
    sweep incoming (front :: rest) = ⟨[tradeWith incoming front quantity], incoming.less quantity,
      front.less quantity :: rest⟩ := by
  rw [sweep, if_neg (by simp [hfill, hc]), hq]
  simp only [hfront, Bool.false_eq_true, if_false]

theorem sweep_incoming : ∀ (incoming : Order) (resting : List Order), ∃ remainingQuantity,
    (sweep incoming resting).incoming = { incoming with remainingQuantity }
  | incoming, [] => ⟨_, rfl⟩
  | incoming, front :: rest => by
    by_cases hstop : incoming.isFilled ∨ ¬ Crosses incoming.side incoming.price front.price
    · rw [sweep, if_pos hstop]
      exact ⟨_, rfl⟩
    · push Not at hstop
      by_cases hfront :
          (front.less (min incoming.remainingQuantity front.remainingQuantity)).isFilled = true
      · rw [sweep_through hstop.1 hstop.2 rfl hfront]
        exact sweep_incoming (incoming.less _) rest
      · rw [sweep_within hstop.1 hstop.2 rfl hfront]
        exact ⟨_, rfl⟩

/-- The sweep `whole` comes to the same as `second` after sweeps that had `left` left of their orders
and filled this much of each of the resting ones. -/
structure Resumes (s : Side) (left : ℕ) (fills : OrderId → ℕ) (whole second : Swept) : Prop where
  resting : whole.resting = second.resting
  incoming : whole.incoming.remainingQuantity.toNat =
    left + second.incoming.remainingQuantity.toNat
  filled : ∀ id, filled s.opposite id whole.trades = fills id + filled s.opposite id second.trades

/-- A sweep looks only at the side, the price and what remains. -/
theorem sweep_alike : ∀ {whole second : Order} (resting : List Order), second.side = whole.side →
    second.price = whole.price → second.remainingQuantity = whole.remainingQuantity →
    Resumes whole.side 0 (fun _ => 0) (sweep whole resting) (sweep second resting)
  | whole, second, [], _, _, hq => ⟨rfl, by simp [sweep, hq], fun _ => rfl⟩
  | whole, second, front :: rest, hs, hp, hq => by
    have hfill : second.isFilled = whole.isFilled := by rw [Order.isFilled, Order.isFilled, hq]
    by_cases hstop : whole.isFilled ∨ ¬ Crosses whole.side whole.price front.price
    · have hstop' : second.isFilled ∨ ¬ Crosses second.side second.price front.price := by
        rwa [hfill, hs, hp]
      rw [sweep, if_pos hstop, sweep, if_pos hstop']
      exact ⟨rfl, by simp [hq], fun _ => rfl⟩
    · push Not at hstop
      obtain ⟨hunfilled, hc⟩ := hstop
      have hunfilled' : ¬ second.isFilled = true := by rwa [hfill]
      have hc' : Crosses second.side second.price front.price := by rwa [hs, hp]
      obtain ⟨quantity, hmin⟩ : ∃ quantity,
          min whole.remainingQuantity front.remainingQuantity = quantity := ⟨_, rfl⟩
      have hmin' : min second.remainingQuantity front.remainingQuantity = quantity := by rw [hq, hmin]
      have hless : (second.less quantity).remainingQuantity = (whole.less quantity).remainingQuantity :=
        congrArg (· - quantity) hq
      by_cases hfront : (front.less quantity).isFilled = true
      · have ih := sweep_alike rest
          (show (second.less quantity).side = (whole.less quantity).side from hs) hp hless
        rw [sweep_through hunfilled hc hmin hfront, sweep_through hunfilled' hc' hmin' hfront]
        refine ⟨ih.resting, ih.incoming, fun id => ?_⟩
        rw [filled_tradeWith id rfl, filled_tradeWith id hs, Nat.add_left_comm]
        exact congrArg _ (ih.filled id)
      · rw [sweep_within hunfilled hc hmin hfront, sweep_within hunfilled' hc' hmin' hfront]
        refine ⟨rfl, by simp [hless], fun id => ?_⟩
        rw [filled_tradeWith id rfl, filled_tradeWith id hs]
        simp

/-- A front that was filled by `quantity` before takes that much less. -/
theorem sweep_partly {whole second front : Order} {quantity : Quantity} (rest : List Order)
    (hs : second.side = whole.side) (hp : second.price = whole.price)
    (hq : whole.remainingQuantity.toNat = quantity.toNat + second.remainingQuantity.toNat)
    (hc : Crosses whole.side whole.price front.price)
    (hfront : quantity.toNat = 0 ∨ quantity.toNat < front.remainingQuantity.toNat) :
    Resumes whole.side 0 (fun id => if front.orderId = id then quantity.toNat else 0)
      (sweep whole (front :: rest)) (sweep second (front.less quantity :: rest)) := by
  have hc' : Crosses second.side second.price (front.less quantity).price := by rwa [hs, hp]
  have hless : (front.less quantity).remainingQuantity.toNat =
      front.remainingQuantity.toNat - quantity.toNat := toNat_less (by omega)
  by_cases hsecond : second.isFilled = true
  · rw [sweep_filled hsecond]
    have hnone := isFilled_iff.mp hsecond
    by_cases hwhole : whole.isFilled = true
    · rw [sweep_filled hwhole]
      have hzero : quantity.toNat = 0 := by
        have := isFilled_iff.mp hwhole
        omega
      refine ⟨?_, by rw [Nat.zero_add, hq, hzero, Nat.zero_add], fun id => by simp [hzero]⟩
      obtain rfl : quantity = 0 := UInt32.toNat_inj.mp hzero
      rw [Order.less_zero]
    · have hall := mt isFilled_iff.mpr hwhole
      have hmin : min whole.remainingQuantity front.remainingQuantity = quantity := by
        rw [← UInt32.toNat_inj, toNat_min]
        omega
      have hrest : ¬ (front.less quantity).isFilled = true := by
        rw [isFilled_iff]
        omega
      rw [sweep_within hwhole hc hmin hrest]
      refine ⟨rfl, ?_, fun id => by rw [filled_tradeWith id rfl]⟩
      show (whole.less quantity).remainingQuantity.toNat = 0 + second.remainingQuantity.toNat
      rw [toNat_less (by omega)]
      omega
  · have hsome := mt isFilled_iff.mpr hsecond
    have hwhole : ¬ whole.isFilled = true := by
      rw [isFilled_iff]
      omega
    obtain ⟨more, hmore⟩ : ∃ more,
        min second.remainingQuantity (front.less quantity).remainingQuantity = more := ⟨_, rfl⟩
    have hmore' : more.toNat = min second.remainingQuantity.toNat
        (front.remainingQuantity.toNat - quantity.toNat) := by rw [← hmore, toNat_min, hless]
    have hsum : (quantity + more).toNat = quantity.toNat + more.toNat := by
      have := front.remainingQuantity.toNat_lt
      rw [UInt32.toNat_add, Nat.mod_eq_of_lt]
      omega
    have hmin : min whole.remainingQuantity front.remainingQuantity = quantity + more := by
      rw [← UInt32.toNat_inj, toNat_min, hsum]
      omega
    have hfront' : (front.less quantity).less more = front.less (quantity + more) :=
      front.less_less quantity more
    have hwhole' : (whole.less (quantity + more)).remainingQuantity =
        (second.less more).remainingQuantity := by
      rw [← UInt32.toNat_inj, toNat_less (by omega), toNat_less (by omega)]
      omega
    by_cases hrest : (front.less (quantity + more)).isFilled = true
    · have hagree := sweep_alike rest
        (show (second.less more).side = (whole.less (quantity + more)).side from hs) hp hwhole'.symm
      rw [sweep_through hwhole hc hmin hrest, sweep_through hsecond hc' hmore (by rwa [hfront'])]
      refine ⟨hagree.resting, hagree.incoming, fun id => ?_⟩
      have hfilled : filled whole.side.opposite id (sweep (whole.less (quantity + more)) rest).trades =
          0 + filled whole.side.opposite id (sweep (second.less more) rest).trades :=
        hagree.filled id
      have hid : (front.less quantity).orderId = front.orderId := rfl
      rw [filled_tradeWith id rfl, filled_tradeWith id hs, hfilled, hsum, hid]
      split_ifs <;> omega
    · rw [sweep_within hwhole hc hmin hrest, sweep_within hsecond hc' hmore (by rwa [hfront'])]
      refine ⟨by rw [hfront'], by rw [hwhole', Nat.zero_add], fun id => ?_⟩
      have hid : (front.less quantity).orderId = front.orderId := rfl
      rw [filled_tradeWith id rfl, filled_tradeWith id hs, hsum, hid]
      simp only [filled_nil]
      split_ifs <;> omega

/-- The second slice goes on where the first ends. -/
theorem sweep_split : ∀ {whole first second : Order} (resting : List Order),
    first.side = whole.side → second.side = whole.side → first.price = whole.price →
    second.price = whole.price → whole.remainingQuantity.toNat =
      first.remainingQuantity.toNat + second.remainingQuantity.toNat →
    Resumes whole.side (sweep first resting).incoming.remainingQuantity.toNat
      (fun id => filled whole.side.opposite id (sweep first resting).trades)
      (sweep whole resting) (sweep second (sweep first resting).resting)
  | whole, first, second, [], _, _, _, _, hq => ⟨rfl, hq, fun _ => rfl⟩
  | whole, first, second, front :: rest, hs₁, hs₂, hp₁, hp₂, hq => by
    by_cases hc : Crosses whole.side whole.price front.price
    swap
    · have hc₁ : ¬ Crosses first.side first.price front.price := by rwa [hs₁, hp₁]
      have hc₂ : ¬ Crosses second.side second.price front.price := by rwa [hs₂, hp₂]
      rw [sweep_not_crosses hc, sweep_not_crosses hc₁]
      simp only
      rw [sweep_not_crosses hc₂]
      exact ⟨rfl, hq, fun _ => rfl⟩
    have hc₁ : Crosses first.side first.price front.price := by rwa [hs₁, hp₁]
    by_cases hfirst : first.isFilled = true
    · have hnone := isFilled_iff.mp hfirst
      rw [sweep_filled hfirst]
      have hq' : whole.remainingQuantity.toNat =
          (0 : Quantity).toNat + second.remainingQuantity.toNat := by rw [hq, hnone]; rfl
      have hpartly := sweep_partly rest hs₂ hp₂ hq' hc (.inl rfl)
      rw [Order.less_zero] at hpartly
      refine ⟨hpartly.resting, by rw [hpartly.incoming, hnone], fun id => ?_⟩
      rw [hpartly.filled, filled_nil]
      simp
    have hsome := mt isFilled_iff.mpr hfirst
    by_cases hle : front.remainingQuantity.toNat ≤ first.remainingQuantity.toNat
    · have hmin₁ : min first.remainingQuantity front.remainingQuantity = front.remainingQuantity := by
        rw [← UInt32.toNat_inj, toNat_min]
        omega
      have hmin : min whole.remainingQuantity front.remainingQuantity = front.remainingQuantity := by
        rw [← UInt32.toNat_inj, toNat_min]
        omega
      have hwhole : ¬ whole.isFilled = true := by
        rw [isFilled_iff]
        omega
      have hgone := isFilled_less_self front
      rw [sweep_through hwhole hc hmin hgone, sweep_through hfirst hc₁ hmin₁ hgone]
      have hq' : (whole.less front.remainingQuantity).remainingQuantity.toNat =
          (first.less front.remainingQuantity).remainingQuantity.toNat +
            second.remainingQuantity.toNat := by
        rw [toNat_less (by omega), toNat_less hle]
        omega
      have ih := sweep_split rest
        (show (first.less _).side = (whole.less front.remainingQuantity).side from hs₁) hs₂ hp₁ hp₂ hq'
      refine ⟨ih.resting, ih.incoming, fun id => ?_⟩
      simp only [filled_tradeWith id rfl, filled_tradeWith id hs₁, Nat.add_assoc]
      exact congrArg _ (ih.filled id)
    · have hmin₁ : min first.remainingQuantity front.remainingQuantity = first.remainingQuantity := by
        rw [← UInt32.toNat_inj, toNat_min]
        omega
      have hstays : ¬ (front.less first.remainingQuantity).isFilled = true := by
        rw [isFilled_iff, toNat_less (by omega)]
        omega
      rw [sweep_within hfirst hc₁ hmin₁ hstays]
      have hpartly := sweep_partly rest hs₂ hp₂ hq hc (.inr (by omega))
      refine ⟨hpartly.resting, ?_, fun id => ?_⟩
      · simp only
        rw [isFilled_iff.mp (isFilled_less_self first)]
        exact hpartly.incoming
      · simp only [filled_tradeWith id hs₁, filled_nil, Nat.add_zero]
        exact hpartly.filled id

/-! ## The depth of a list -/

/-- The infos of a side, with an order put in front of it. -/
def push (order : Order) : List LevelInfo → List LevelInfo
  | [] => [⟨order.price, order.remainingQuantity⟩]
  | info :: infos =>
    if order.price = info.price then
      ⟨info.price, order.remainingQuantity + info.quantity⟩ :: infos
    else ⟨order.price, order.remainingQuantity⟩ :: info :: infos

def levelInfos (resting : List Order) : List LevelInfo := resting.foldr push []

/-- The order `whole` shows as the two at its price that have its quantity between them. -/
structure Shares (whole first second : Order) : Prop where
  side₁ : first.side = whole.side
  side₂ : second.side = whole.side
  price₁ : first.price = whole.price
  price₂ : second.price = whole.price
  quantity : whole.remainingQuantity = first.remainingQuantity + second.remainingQuantity

theorem Shares.push {whole first second : Order} (h : Shares whole first second)
    (infos : List LevelInfo) :
    PriceTime.push first (PriceTime.push second infos) = PriceTime.push whole infos := by
  rcases infos with _ | ⟨info, infos⟩
  · simp [PriceTime.push, h.price₁, h.price₂, h.quantity]
  · simp only [PriceTime.push, h.price₁, h.price₂, h.quantity]
    split_ifs <;> simp_all [UInt32.add_assoc]

theorem enqueue_ahead {order front : Order} (h : better order.side order.price front.price)
    (rest : List Order) : enqueue order (front :: rest) = order :: front :: rest :=
  List.orderedInsert_cons_of_le _ rest h

theorem enqueue_behind {order front : Order} (h : ¬ better order.side order.price front.price)
    (rest : List Order) : enqueue order (front :: rest) = front :: enqueue order rest :=
  List.orderedInsert_of_not_le _ rest h

theorem Shares.enqueue {whole first second : Order} (h : Shares whole first second) :
    ∀ resting, levelInfos (PriceTime.enqueue second (PriceTime.enqueue first resting)) =
      levelInfos (PriceTime.enqueue whole resting)
  | [] => by
    have hno : ¬ better second.side second.price first.price := by
      rw [h.price₁, h.price₂]
      exact irrefl _
    rw [show PriceTime.enqueue first [] = [first] from rfl, enqueue_behind hno]
    exact h.push []
  | front :: rest => by
    by_cases hbetter : better whole.side whole.price front.price
    · have hno : ¬ better second.side second.price first.price := by
        rw [h.price₁, h.price₂]
        exact irrefl _
      rw [enqueue_ahead (by rwa [h.side₁, h.price₁]), enqueue_behind hno,
        enqueue_ahead (by rwa [h.side₂, h.price₂]), enqueue_ahead hbetter]
      exact h.push _
    · rw [enqueue_behind (by rwa [h.side₁, h.price₁]), enqueue_behind (by rwa [h.side₂, h.price₂]),
        enqueue_behind hbetter]
      exact congrArg (PriceTime.push front) (h.enqueue rest)

theorem levelInfos_enqueue {whole second : Order} (hs : second.side = whole.side)
    (hp : second.price = whole.price) (hq : second.remainingQuantity = whole.remainingQuantity) :
    ∀ resting, levelInfos (enqueue second resting) = levelInfos (enqueue whole resting)
  | [] => by simp [enqueue, levelInfos, push, hp, hq]
  | front :: rest => by
    by_cases hbetter : better whole.side whole.price front.price
    · rw [enqueue_ahead (by rwa [hs, hp]), enqueue_ahead hbetter]
      show push second (levelInfos (front :: rest)) = push whole (levelInfos (front :: rest))
      rcases levelInfos (front :: rest) with _ | ⟨info, infos⟩ <;> simp only [push, hp, hq]
    · rw [enqueue_behind (by rwa [hs, hp]), enqueue_behind hbetter]
      exact congrArg (push front) (levelInfos_enqueue hs hp hq rest)

/-! ## Slices -/

/-- The same trades with the other side, the same orders left there, and the same depth. -/
structure Alike (s : Side) (whole parts : List Trade × Book) : Prop where
  filled : ∀ id, filled s.opposite id parts.1 = filled s.opposite id whole.1
  other : parts.2.side s.opposite = whole.2.side s.opposite
  own : levelInfos (parts.2.side s) = levelInfos (whole.2.side s)

theorem Alike.trans {s : Side} {x y z : List Trade × Book} (h : Alike s x y) (h' : Alike s y z) :
    Alike s x z where
  filled id := (h'.filled id).trans (h.filled id)
  other := h'.other.trans h.other
  own := h'.own.trans h.own

theorem side_ofSides (s : Side) (own other : List Order) : (Book.ofSides s own other).side s = own := by
  cases s <;> rfl

theorem side_opposite_ofSides (s : Side) (own other : List Order) :
    (Book.ofSides s own other).side s.opposite = other := by
  cases s <;> rfl

/-- What a sweep leaves of its order, queued unless there is none or it is not to rest. -/
def settle (order incoming : Order) (own : List Order) : List Order :=
  if incoming.isFilled ∨ order.orderType = .fillAndKill then own else enqueue incoming own

theorem settle_drops {order incoming : Order}
    (h : incoming.isFilled ∨ order.orderType = .fillAndKill) (own : List Order) :
    settle order incoming own = own := if_pos h

theorem settle_rests {order incoming : Order}
    (h : ¬ (incoming.isFilled ∨ order.orderType = .fillAndKill)) (own : List Order) :
    settle order incoming own = enqueue incoming own := if_neg h

theorem add_side {order : Order} {s : Side} (hs : order.side = s) (book : Book) :
    (add book order).2.side s =
      settle order (sweep order (book.side s.opposite)).incoming (book.side s) := by
  subst hs
  exact side_ofSides _ _ _

theorem add_side_opposite {order : Order} {s : Side} (hs : order.side = s) (book : Book) :
    (add book order).2.side s.opposite = (sweep order (book.side s.opposite)).resting := by
  subst hs
  exact side_opposite_ofSides _ _ _

theorem settle_alike {whole part : Order} (htype : part.orderType = whole.orderType)
    {left left' : Order} (hs : left'.side = left.side) (hp : left'.price = left.price)
    (hq : left'.remainingQuantity = left.remainingQuantity) (own : List Order) :
    levelInfos (settle part left' own) = levelInfos (settle whole left own) := by
  have hfill : left'.isFilled = left.isFilled := by rw [Order.isFilled, Order.isFilled, hq]
  unfold settle
  rw [hfill, htype]
  split_ifs
  · rfl
  · exact levelInfos_enqueue hs hp hq own

theorem settle_split {whole part₁ part₂ : Order} (htype₁ : part₁.orderType = whole.orderType)
    (htype₂ : part₂.orderType = whole.orderType) {left left₁ left₂ : Order}
    (h : Shares left left₁ left₂)
    (hq : left.remainingQuantity.toNat =
      left₁.remainingQuantity.toNat + left₂.remainingQuantity.toNat) (own : List Order) :
    levelInfos (settle part₂ left₂ (settle part₁ left₁ own)) = levelInfos (settle whole left own) := by
  by_cases hfak : whole.orderType = .fillAndKill
  · rw [settle_drops (.inr (htype₁.trans hfak)), settle_drops (.inr (htype₂.trans hfak)),
      settle_drops (.inr hfak)]
  by_cases hfill₁ : left₁.isFilled = true
  · rw [settle_drops (.inl hfill₁)]
    refine settle_alike htype₂ h.side₂ h.price₂ (UInt32.toNat_inj.mp ?_) own
    rw [hq, isFilled_iff.mp hfill₁, Nat.zero_add]
  by_cases hfill₂ : left₂.isFilled = true
  · rw [settle_drops (.inl hfill₂)]
    refine settle_alike htype₁ h.side₁ h.price₁ (UInt32.toNat_inj.mp ?_) own
    rw [hq, isFilled_iff.mp hfill₂, Nat.add_zero]
  have hsome : ¬ left.isFilled = true := by
    have := mt isFilled_iff.mpr hfill₁
    rw [isFilled_iff]
    omega
  rw [settle_rests (by simp [hfill₂, htype₂, hfak]), settle_rests (by simp [hfill₁, htype₁, hfak]),
    settle_rests (by simp [hsome, hfak])]
  exact h.enqueue own

section Add

variable (book : Book) (orderType : OrderType) (side : Side) (price : Price)

/-- The id of an order makes no difference to the others. -/
theorem add_alike (id id' : OrderId) (quantity : Quantity) :
    Alike side (add book (.new orderType id side price quantity))
      (add book (.new orderType id' side price quantity)) := by
  set whole := Order.new orderType id side price quantity with hwhole
  set part := Order.new orderType id' side price quantity with hpart
  have hs : whole.side = side := rfl
  have hs' : part.side = side := rfl
  have hagree : Resumes side 0 (fun _ => 0) (sweep whole (book.side side.opposite))
      (sweep part (book.side side.opposite)) :=
    sweep_alike (book.side side.opposite) (show part.side = whole.side from rfl) rfl rfl
  obtain ⟨left, hleft⟩ := sweep_incoming whole (book.side side.opposite)
  obtain ⟨left', hleft'⟩ := sweep_incoming part (book.side side.opposite)
  obtain rfl : left = left' := by
    have := hagree.incoming
    rw [hleft, hleft', Nat.zero_add] at this
    exact UInt32.toNat_inj.mp this
  refine ⟨fun id => ?_, ?_, ?_⟩
  · exact ((hagree.filled id).trans (Nat.zero_add _)).symm
  · rw [add_side_opposite hs, add_side_opposite hs', hagree.resting]
  · rw [add_side hs, add_side hs', hleft, hleft']
    exact settle_alike (by rfl) (by rfl) (by rfl) (by rfl) _

/-- An order does what two do that come one after the other and have its quantity between them. -/
theorem add_split (id id₁ id₂ : OrderId) {quantity quantity₁ quantity₂ : Quantity}
    (hq : quantity.toNat = quantity₁.toNat + quantity₂.toNat) :
    let first := add book (.new orderType id₁ side price quantity₁)
    let second := add first.2 (.new orderType id₂ side price quantity₂)
    Alike side (add book (.new orderType id side price quantity)) (first.1 ++ second.1, second.2) := by
  set whole := Order.new orderType id side price quantity with hwhole
  set part₁ := Order.new orderType id₁ side price quantity₁ with hpart₁
  set part₂ := Order.new orderType id₂ side price quantity₂ with hpart₂
  have hs : whole.side = side := rfl
  have hs₁ : part₁.side = side := rfl
  have hs₂ : part₂.side = side := rfl
  intro first second
  have hresumes : Resumes side
      (sweep part₁ (book.side side.opposite)).incoming.remainingQuantity.toNat
      (fun id => Orderbook.filled side.opposite id (sweep part₁ (book.side side.opposite)).trades)
      (sweep whole (book.side side.opposite)) (sweep part₂ (first.2.side side.opposite)) := by
    rw [add_side_opposite hs₁]
    exact sweep_split (book.side side.opposite) (show part₁.side = whole.side from rfl) rfl rfl rfl hq
  obtain ⟨left, hleft⟩ := sweep_incoming whole (book.side side.opposite)
  obtain ⟨left₁, hleft₁⟩ := sweep_incoming part₁ (book.side side.opposite)
  obtain ⟨left₂, hleft₂⟩ := sweep_incoming part₂ (first.2.side side.opposite)
  refine ⟨fun id => ?_, ?_, ?_⟩
  · rw [filled_append]
    exact (hresumes.filled id).symm
  · rw [add_side_opposite hs, add_side_opposite hs₂, hresumes.resting]
  · have hleaves : left.toNat = left₁.toNat + left₂.toNat := by
      have := hresumes.incoming
      rwa [hleft, hleft₁, hleft₂] at this
    have hshares : Shares { whole with remainingQuantity := left }
        { part₁ with remainingQuantity := left₁ } { part₂ with remainingQuantity := left₂ } := by
      refine ⟨rfl, rfl, rfl, rfl, ?_⟩
      have := left.toNat_lt
      rw [← UInt32.toNat_inj]
      show left.toNat = (left₁ + left₂).toNat
      rw [UInt32.toNat_add, Nat.mod_eq_of_lt] <;> omega
    rw [add_side hs₂, hleft₂, add_side hs₁, hleft₁, add_side hs, hleft]
    exact settle_split rfl rfl hshares hleaves _

/-- An order does what its slices do, one after the other. -/
theorem feed_slices : ∀ {slices : List (OrderId × Quantity)}, slices ≠ [] → ∀ (book : Book)
    (id : OrderId) {quantity : Quantity}, quantity.toNat = (slices.map (·.2.toNat)).sum →
    let orders := slices.map fun slice => .new orderType slice.1 side price slice.2
    Alike side (add book (.new orderType id side price quantity))
      ((feed add book orders).1.flatten, (feed add book orders).2)
  | [], hne, _, _, _, _ => absurd rfl hne
  | [(id₁, quantity₁)], _, book, id, quantity, hq => by
    obtain rfl : quantity = quantity₁ := UInt32.toNat_inj.mp (by simpa using hq)
    intro orders
    have hflat : (feed add book orders).1.flatten =
        (add book (.new orderType id₁ side price quantity)).1 := List.append_nil _
    rw [hflat]
    exact add_alike book orderType side price id id₁ quantity
  | (id₁, quantity₁) :: (id₂, quantity₂) :: slices, _, book, id, quantity, hq => by
    simp only [List.map_cons, List.sum_cons] at hq
    have hlt := quantity.toNat_lt
    obtain ⟨rest, hrest⟩ : ∃ rest : Quantity,
        rest.toNat = (((id₂, quantity₂) :: slices).map (·.2.toNat)).sum := by
      refine ⟨.ofNat (((id₂, quantity₂) :: slices).map (·.2.toNat)).sum, ?_⟩
      rw [UInt32.toNat_ofNat', Nat.mod_eq_of_lt]
      simp only [List.map_cons, List.sum_cons]
      omega
    have hsum : quantity.toNat = quantity₁.toNat + rest.toNat := by
      rw [hrest, hq, List.map_cons, List.sum_cons]
    set first := add book (.new orderType id₁ side price quantity₁) with hfirst
    have hsplit : Alike side _ (first.1 ++ _, _) :=
      add_split book orderType side price id id₁ id₂ hsum
    have ih := feed_slices (List.cons_ne_nil (id₂, quantity₂) slices) first.2 id₂ hrest
    refine hsplit.trans ⟨fun id => ?_, ih.other, ih.own⟩
    rw [List.map_cons, feed, List.flatten_cons, filled_append, filled_append]
    exact congrArg _ (ih.filled id)

end Add

end PriceTime

/-! ## The book -/

section Book

variable {book : Orderbook}

theorem foldl_running : ∀ (orders : OrderPointers) (runningSum : Quantity),
    orders.foldl (fun runningSum node =>
        (runningSum.toUInt64 + node.order.remainingQuantity.toUInt64).toUInt32) runningSum =
      runningSum + (orders.map (·.order.remainingQuantity)).sum
  | [], runningSum => by simp
  | node :: orders, runningSum => by
    have hstep : (runningSum.toUInt64 + node.order.remainingQuantity.toUInt64).toUInt32 =
        runningSum + node.order.remainingQuantity := by simp
    rw [List.foldl_cons, hstep, foldl_running orders, List.map_cons, List.sum_cons, UInt32.add_assoc]

theorem levelInfos_levels : ∀ resting : List Order, PriceTime.levelInfos resting =
    (PriceTime.levels resting).map fun l => ⟨l.1, (l.2.map (·.remainingQuantity)).sum⟩
  | [] => rfl
  | order :: resting => by
    have ih := levelInfos_levels resting
    rw [PriceTime.levelInfos, List.foldr_cons, ← PriceTime.levelInfos, ih, PriceTime.levels]
    rcases PriceTime.levels resting with _ | ⟨⟨price, queue⟩, below⟩
    · simp [PriceTime.push]
    · simp only [List.map_cons, PriceTime.push]
      split_ifs <;> simp

theorem Placed.infos_eq {s : Side} {levels : Levels s} (h : Placed levels) :
    (levels.entries.map fun l => createLevelInfos l.1 l.2) =
      PriceTime.levelInfos ((queued levels).map Node.order) := by
  rw [levelInfos_levels, ← h.levelOrders_eq, levelOrders, List.map_map]
  refine List.map_congr_left fun l _ => ?_
  rw [createLevelInfos, foldl_running, UInt32.zero_add, Function.comp_apply, List.map_map]
  rfl

/-- The depth snapshot is that of the two lists. -/
theorem Rep.getOrderInfos_eq (h : Rep book) : book.getOrderInfos =
    ⟨PriceTime.levelInfos book.priceTime.bids, PriceTime.levelInfos book.priceTime.asks⟩ :=
  congrArg₂ OrderbookLevelInfos.mk h.bids.infos_eq h.asks.infos_eq

/-- An arriving order brings no other id. -/
theorem contains_addOrder (h : Quiet book) {order : Order}
    (hid : book.orders.contains order.orderId = false) {trades : List Trade} {book' : Orderbook}
    (hadd : book.addOrder order = .ok (trades, book')) {id : OrderId} (hne : id ≠ order.orderId)
    (hfresh : book.orders.contains id = false) : book'.orders.contains id = false := by
  obtain ⟨after, htraced, hq, hown, hother⟩ := addOrder_spec h order hid
  obtain rfl : after = book' := by
    have := addOrder_eq_of_traced h.rep htraced
    rw [hadd] at this
    simpa using (congrArg (Except.map Prod.snd) this).symm
  rw [Bool.eq_false_iff, ne_eq, hq.rep.contains_iff]
  rintro ⟨n, hn, rfl⟩
  rcases List.mem_append.mp ((mem_nodes_sides order.side).mp hn) with hn | hn
  · rw [hown, mem_queueLeft] at hn
    rcases hn with hleft | hn
    · unfold remains at hleft
      split_ifs at hleft
      obtain ⟨remaining, rfl⟩ := sweepFrom_left hleft
      exact hne rfl
    · exact ne_of_not_contains h.rep hfresh hn rfl
  · rw [hother] at hn
    obtain ⟨y, hy, remaining, rfl⟩ := sweepFrom_rest hn
    exact ne_of_not_contains (n := y) h.rep hfresh hy rfl

variable (orderType : OrderType) (side : Side) (price : Price)

/-- The calls that add the slices, each of at least one and with an id of its own. -/
theorem runAll_slices : ∀ {slices : List (OrderId × Quantity)} {book : Orderbook}, Quiet book →
    (slices.map Prod.fst).Nodup → (∀ slice ∈ slices, book.orders.contains slice.1 = false) →
    (∀ slice ∈ slices, 1 ≤ slice.2) →
    let orders := slices.map fun slice => Order.new orderType slice.1 side price slice.2
    ∃ book', runAll call book
        (slices.map fun slice => .addOrder orderType slice.1 side price slice.2) =
          .ok ((feed PriceTime.add book.priceTime orders).1, book') ∧ Quiet book' ∧
      book'.priceTime = (feed PriceTime.add book.priceTime orders).2
  | [], book, h, _, _, _ => ⟨book, rfl, h, rfl⟩
  | (id, quantity) :: slices, book, h, hids, hfresh, hpos => by
    obtain ⟨hnew, hids⟩ := List.nodup_cons.mp hids
    have hid := hfresh (id, quantity) List.mem_cons_self
    have hq := hpos (id, quantity) List.mem_cons_self
    set order := Order.new orderType id side price quantity with horder
    obtain ⟨book₁, hadd, hquiet₁, href₁⟩ :=
      addOrder_add h (show book.orders.contains order.orderId = false from hid)
        (not_filled_new orderType id side price hq)
    have hcall : book.call (.addOrder orderType id side price quantity) = _ := hadd
    have hfresh₁ : ∀ slice ∈ slices, book₁.orders.contains slice.1 = false := by
      intro slice hslice
      refine contains_addOrder h hid hadd ?_ (hfresh slice (List.mem_cons_of_mem _ hslice))
      rintro hsame
      exact hnew (List.mem_map.mpr ⟨slice, hslice, hsame⟩)
    obtain ⟨book', hrun, hquiet', href'⟩ := runAll_slices hquiet₁ hids hfresh₁
      fun slice hslice => hpos slice (List.mem_cons_of_mem _ hslice)
    rw [href₁] at hrun href'
    refine ⟨book', ?_, hquiet', href'⟩
    rw [List.map_cons, runAll_cons_ok hcall, hrun]
    rfl

end Book

/-- Whatever the calls so far, an order and its slices do the same to the orders on the other side and
to the depth snapshot, and the trades fill the same of each order there. -/
theorem run_slices {calls : List Call} {trades : List (List Trade)} {book : Orderbook}
    (h : run calls = .ok (trades, book)) (orderType : OrderType) (side : Side) (price : Price)
    {slices : List (OrderId × Quantity)} (hne : slices ≠ []) (hids : (slices.map Prod.fst).Nodup)
    (hfresh : ∀ slice ∈ slices, book.orders.contains slice.1 = false)
    (hpos : ∀ slice ∈ slices, 1 ≤ slice.2) {id : OrderId} (hid : book.orders.contains id = false)
    {quantity : Quantity} (hsum : quantity.toNat = (slices.map (·.2.toNat)).sum) :
    ∃ whole book₁ parts book₂,
      book.call (.addOrder orderType id side price quantity) = .ok (whole, book₁) ∧
      runAll call book (slices.map fun slice =>
        .addOrder orderType slice.1 side price slice.2) = .ok (parts, book₂) ∧
      (∀ id, filled side.opposite id parts.flatten = filled side.opposite id whole) ∧
      (book₂.sideNodes side.opposite).map Node.order =
        (book₁.sideNodes side.opposite).map Node.order ∧
      book₂.getOrderInfos = book₁.getOrderInfos := by
  have hquiet := quiet_of_run h
  have hq : 1 ≤ quantity := by
    obtain ⟨slice, rest, rfl⟩ := List.exists_cons_of_ne_nil hne
    have hone := UInt32.le_iff_toNat_le.mp (hpos slice List.mem_cons_self)
    rw [List.map_cons, List.sum_cons] at hsum
    rw [UInt32.le_iff_toNat_le]
    omega
  obtain ⟨book₁, hadd, hquiet₁, href₁⟩ :=
    addOrder_add hquiet
      (show book.orders.contains (Order.new orderType id side price quantity).orderId = false from hid)
      (not_filled_new orderType id side price hq)
  obtain ⟨book₂, hrun, hquiet₂, href₂⟩ :=
    runAll_slices orderType side price hquiet hids hfresh hpos
  obtain ⟨hfilled, hother, hown⟩ :=
    PriceTime.feed_slices orderType side price hne book.priceTime id hsum
  rw [← href₁, ← href₂] at hother hown
  refine ⟨_, book₁, _, book₂, hadd, hrun, hfilled, ?_, ?_⟩
  · rw [← priceTime_side, ← priceTime_side]
    exact hother
  · have hother := congrArg PriceTime.levelInfos hother
    rw [hquiet₁.rep.getOrderInfos_eq, hquiet₂.rep.getOrderInfos_eq]
    cases side with
    | buy => exact congrArg₂ OrderbookLevelInfos.mk hown hother
    | sell => exact congrArg₂ OrderbookLevelInfos.mk hother hown

/-- A buy of twelve through two ask levels of five, at once and in three slices. -/
theorem run_slices_three : ∃ trades book,
    run [.addOrder .goodTillCancel 1 .sell 100 5, .addOrder .goodTillCancel 2 .sell 101 5] =
        .ok (trades, book) ∧
      ∃ whole book₁ parts book₂,
        book.call (.addOrder .goodTillCancel 6 .buy 101 12) = .ok (whole, book₁) ∧
        runAll call book [.addOrder .goodTillCancel 3 .buy 101 3,
          .addOrder .goodTillCancel 4 .buy 101 4, .addOrder .goodTillCancel 5 .buy 101 5] =
            .ok (parts, book₂) ∧
        (∀ id, filled .sell id parts.flatten = filled .sell id whole) ∧
        (book₂.sideNodes .sell).map Node.order = (book₁.sideNodes .sell).map Node.order ∧
        book₂.getOrderInfos = book₁.getOrderInfos :=
  have h : run [.addOrder .goodTillCancel 1 .sell 100 5, .addOrder .goodTillCancel 2 .sell 101 5] =
      .ok (_, _) := rfl
  have hne : ([(3, 3), (4, 4), (5, 5)] : List (OrderId × Quantity)) ≠ [] := List.cons_ne_nil _ _
  have hsum : (12 : Quantity).toNat =
      (([(3, 3), (4, 4), (5, 5)] : List (OrderId × Quantity)).map (·.2.toNat)).sum := rfl
  have hpos : ∀ slice ∈ ([(3, 3), (4, 4), (5, 5)] : List (OrderId × Quantity)), 1 ≤ slice.2 := by
    simp
  ⟨_, _, h, run_slices h .goodTillCancel .buy 101 hne (by decide)
    (List.forall_mem_cons.mpr ⟨rfl, List.forall_mem_cons.mpr ⟨rfl, List.forall_mem_singleton.mpr rfl⟩⟩)
    hpos (by decide) hsum⟩

end Orderbook

end SideProjects
