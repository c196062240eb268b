import Mathlib.Algebra.Ring.Nat
import Mathlib.Data.List.Induction
import SideProjects.Proofs.OrderbookCalls

/-!
# Every fill is a trade

A ledger follows the events of a run: an order's arrival opens an account, a trade is posted to the
accounts of its two orders, a departure closes one. The accounts that are open after a call are
those of the resting orders, each is out by what its order still lacks (`Balanced`), and an account
is closed with just what remained of its order (`Posts`). Read off the log, an order's quantity is
what it traded while it was in the book plus what remained of it (`run_conserves`).
-/

namespace SideProjects

namespace Orderbook

/-- The side of a trade that belongs to side `s`. -/
def Trade.leg (trade : Trade) : Side → TradeInfo
  | .buy => trade.bidTrade
  | .sell => trade.askTrade

/-- What a trade says it filled of the order `id` on side `s`. -/
def legQuantity (s : Side) (id : OrderId) (trade : Trade) : ℕ :=
  if (trade.leg s).orderId = id then (trade.leg s).quantity.toNat else 0

/-- What all the trades of `events` that name `id` on side `s` filled. -/
def tradedBy (s : Side) (id : OrderId) (events : List Event) : ℕ :=
  ((tradesOf events).map (legQuantity s id)).sum

/-- The log ends inside a lifetime of `order`, of which `since` are the events so far. -/
def Opened (log : List Event) (order : Order) (since : List Event) : Prop :=
  (∃ before, log = before ++ .inserted order :: since) ∧
    ∀ gone, .removed gone ∈ since → gone.orderId ≠ order.orderId

/-- `order` is what `first` has become after trading `quantity`. -/
def FilledBy (first : Order) (quantity : ℕ) (order : Order) : Prop :=
  order = { first with remainingQuantity := order.remainingQuantity } ∧
    first.initialQuantity.toNat = quantity + order.remainingQuantity.toNat

/-- The log of all calls and the book they left agree on what was filled. -/
structure Conserves (log : List Event) (book : Orderbook) : Prop where
  /-- A lifetime that has ended. -/
  removed : ∀ before gone after, log = before ++ .removed gone :: after →
    ∀ order since, Opened before order since → order.orderId = gone.orderId →
      FilledBy order (tradedBy order.side order.orderId since) gone
  /-- A lifetime that has not. -/
  resting : ∀ order since, Opened log order since →
    ∃ n ∈ book.nodes, FilledBy order (tradedBy order.side order.orderId since) n.order
  /-- A resting order has a lifetime. -/
  known : ∀ n ∈ book.nodes, ∃ order since, Opened log order since ∧
    order.orderId = n.order.orderId
  /-- A trade names, on each side, an order of that side inside its lifetime. -/
  named : ∀ before trade after, log = before ++ .traded trade :: after →
    ∀ s, ∃ order since, Opened before order since ∧ order.side = s ∧
      order.orderId = (trade.leg s).orderId

theorem FilledBy.less {first order : Order} {quantity : ℕ} {filled : Quantity}
    (h : FilledBy first quantity order) (hle : filled ≤ order.remainingQuantity) :
    FilledBy first (quantity + filled.toNat) (order.less filled) := by
  obtain ⟨hc, hq⟩ := h
  refine ⟨by rw [hc]; rfl, ?_⟩
  rw [UInt32.le_iff_toNat_le] at hle
  simp only [Order.less, UInt32.toNat_sub_of_le _ _ (UInt32.le_iff_toNat_le.mpr hle)]
  omega

/-! ## The ledger -/

/-- The open accounts: an order as it arrived, and what it has traded since. -/
abbrev Ledger := OrderId → Option (Order × ℕ)

namespace Ledger

def post (ledger : Ledger) : Event → Ledger
  | .inserted order => Function.update ledger order.orderId (some (order, 0))
  | .traded trade => fun id => (ledger id).map fun a => (a.1, a.2 + legQuantity a.1.side id trade)
  | .removed order => Function.update ledger order.orderId none

def postAll (ledger : Ledger) (events : List Event) : Ledger := events.foldl post ledger

/-- An event the ledger can post: an arriving order has no account, both orders of a trade have one
on their side, and a departing order closes an account that its quantity settles. -/
def Sound (ledger : Ledger) : Event → Prop
  | .inserted order => ledger order.orderId = none
  | .traded trade => ∀ s, ∃ a, ledger (trade.leg s).orderId = some a ∧ a.1.side = s
  | .removed order => ∃ a, ledger order.orderId = some a ∧ FilledBy a.1 a.2 order

/-- All events can be posted, one after the other. -/
def Posts : Ledger → List Event → Prop
  | _, [] => True
  | ledger, e :: events => ledger.Sound e ∧ (ledger.post e).Posts events

/-- The open accounts are those of `nodes`, and settle with what remains of them. -/
structure Balanced (ledger : Ledger) (nodes : List Node) : Prop where
  settles : ∀ n ∈ nodes, ∃ a, ledger n.order.orderId = some a ∧ FilledBy a.1 a.2 n.order
  owned : ∀ id a, ledger id = some a → ∃ n ∈ nodes, n.order.orderId = id

section Log

variable {ledger : Ledger} {id : OrderId}

@[simp]
theorem postAll_append (ledger : Ledger) (l l' : List Event) :
    ledger.postAll (l ++ l') = (ledger.postAll l).postAll l' := List.foldl_append

theorem posts_append : ∀ {ledger : Ledger} {l l' : List Event},
    ledger.Posts (l ++ l') ↔ ledger.Posts l ∧ (ledger.postAll l).Posts l'
  | _, [], _ => by simp [Posts, postAll]
  | ledger, e :: l, l' => by
    simp only [List.cons_append, Posts, posts_append, and_assoc]
    rfl

/-- An account stays open until its order leaves, and collects what the order trades. -/
theorem postAll_open {order : Order} : ∀ {ledger : Ledger} {events : List Event} {quantity : ℕ},
    ledger.Posts events → ledger id = some (order, quantity) →
    (∀ gone, .removed gone ∈ events → gone.orderId ≠ id) →
    ledger.postAll events id = some (order, quantity + tradedBy order.side id events)
  | _, [], _, _, h, _ => h
  | ledger, e :: events, quantity, ⟨he, hp⟩, h, hr => by
    have hr' : ∀ gone, .removed gone ∈ events → gone.orderId ≠ id :=
      fun gone hg => hr gone (List.mem_cons_of_mem _ hg)
    show (ledger.post e).postAll events id = _
    cases e with
    | inserted new =>
      have hne : id ≠ new.orderId := by
        rintro rfl
        rw [show ledger new.orderId = none from he] at h
        cases h
      rw [postAll_open hp (by rw [post, Function.update_of_ne hne]; exact h) hr']
      rfl
    | traded trade =>
      have h' : ledger.post (.traded trade) id =
          some (order, quantity + legQuantity order.side id trade) := by simp [post, h]
      rw [postAll_open hp h' hr']
      simp [tradedBy, tradesOf, Event.trade?, Nat.add_assoc]
    | removed gone =>
      have hne : id ≠ gone.orderId := (hr gone List.mem_cons_self).symm
      rw [postAll_open hp (by rw [post, Function.update_of_ne hne]; exact h) hr']
      rfl

/-- The ledger before anything has happened. -/
def blank : Ledger := fun _ => none

/-- An open account was opened by its order's arrival, and not closed since. -/
theorem opened_of_open (log : List Event) : ∀ {id : OrderId} {a : Order × ℕ},
    blank.postAll log id = some a → ∃ since, Opened log a.1 since ∧ a.1.orderId = id := by
  induction log using List.reverseRecOn with
  | nil => intro id a h; cases h
  | append_singleton log e ih =>
    intro id a h
    rw [postAll_append] at h
    have later : ∀ {since : List Event} {order : Order}, Opened log order since →
        (∀ gone, e = .removed gone → gone.orderId ≠ order.orderId) →
        Opened (log ++ [e]) order (since ++ [e]) := by
      rintro since order ⟨⟨before, rfl⟩, hr⟩ he
      refine ⟨⟨before, by simp⟩, fun gone hg => ?_⟩
      rcases List.mem_append.mp hg with hg | hg
      · exact hr gone hg
      · exact he gone (List.mem_singleton.mp hg).symm
    cases e with
    | inserted new =>
      by_cases hid : id = new.orderId
      · subst hid
        obtain rfl : (new, 0) = a := by simpa [postAll, post] using h
        exact ⟨[], ⟨⟨log, rfl⟩, by simp⟩, rfl⟩
      · have h' : blank.postAll log id = some a := by
          simpa [postAll, post, Function.update_of_ne hid] using h
        obtain ⟨since, ho, rfl⟩ := ih h'
        exact ⟨_, later ho (by simp), rfl⟩
    | traded trade =>
      have h' : ((blank.postAll log) id).map
          (fun a => (a.1, a.2 + legQuantity a.1.side id trade)) = some a := h
      obtain ⟨b, hb, rfl⟩ := Option.map_eq_some_iff.mp h'
      obtain ⟨since, ho, rfl⟩ := ih hb
      exact ⟨_, later ho (by simp), rfl⟩
    | removed gone =>
      by_cases hid : id = gone.orderId
      · subst hid
        simp [postAll, post] at h
      · have h' : blank.postAll log id = some a := by
          simpa [postAll, post, Function.update_of_ne hid] using h
        obtain ⟨since, ho, rfl⟩ := ih h'
        exact ⟨_, later ho (by rintro _ ⟨⟩ he; exact hid he.symm), rfl⟩

/-- The account of an order inside its lifetime. -/
theorem open_of_opened {log : List Event} (hp : blank.Posts log) {order : Order}
    {since : List Event} (h : Opened log order since) :
    blank.postAll log order.orderId =
      some (order, tradedBy order.side order.orderId since) := by
  obtain ⟨⟨before, rfl⟩, hr⟩ := h
  have hs := (posts_append.mp hp).2.2
  rw [postAll_append]
  show ((blank.postAll before).post (.inserted order)).postAll since order.orderId = _
  have h₀ : (blank.postAll before).post (.inserted order) order.orderId = some (order, 0) := by
    simp [post]
  rw [postAll_open hs h₀ hr, Nat.zero_add]

/-- What the ledger says of a run, said of its log. -/
theorem conserves_of_balanced {log : List Event} {book : Orderbook} (hp : blank.Posts log)
    (hb : (blank.postAll log).Balanced book.nodes) : Conserves log book where
  removed := by
    rintro before gone after rfl order since ho hid
    obtain ⟨hp₁, ⟨a, ha, hf⟩, -⟩ := posts_append.mp hp
    rw [← hid, open_of_opened hp₁ ho] at ha
    cases ha
    exact hf
  resting order since ho := by
    obtain ⟨n, hn, hid⟩ := hb.owned _ _ (open_of_opened hp ho)
    obtain ⟨a, ha, hf⟩ := hb.settles n hn
    rw [hid, open_of_opened hp ho] at ha
    cases ha
    exact ⟨n, hn, hf⟩
  known n hn := by
    obtain ⟨a, ha, -⟩ := hb.settles n hn
    obtain ⟨since, ho, hid⟩ := opened_of_open log ha
    exact ⟨a.1, since, ho, hid⟩
  named := by
    rintro before trade after rfl s
    obtain ⟨a, ha, hs⟩ := (posts_append.mp hp).2.1 s
    obtain ⟨since, ho, hid⟩ := opened_of_open before ha
    exact ⟨a.1, since, ho, hs, hid⟩

end Log

/-! ## The events of a call -/

section Events

variable {ledger : Ledger} {nodes : List Node}

theorem Balanced.congr (h : ledger.Balanced nodes) {l : List Node} (hm : ∀ n, n ∈ nodes ↔ n ∈ l) :
    ledger.Balanced l where
  settles n hn := h.settles n ((hm n).mpr hn)
  owned id a ha := by
    obtain ⟨n, hn, hid⟩ := h.owned id a ha
    exact ⟨n, (hm n).mp hn, hid⟩

theorem Balanced.insert (h : ledger.Balanced nodes) {n : Node}
    (hn : n.order.remainingQuantity = n.order.initialQuantity)
    (hid : ∀ m ∈ nodes, m.order.orderId ≠ n.order.orderId) :
    ledger.Sound (.inserted n.order) ∧ (ledger.post (.inserted n.order)).Balanced (n :: nodes) := by
  refine ⟨?_, fun m hm => ?_, fun id a ha => ?_⟩
  · rcases ha : ledger n.order.orderId with _ | a
    · exact ha
    · obtain ⟨m, hm, he⟩ := h.owned _ _ ha
      exact absurd he (hid m hm)
  · rcases List.mem_cons.mp hm with rfl | hm
    · exact ⟨(m.order, 0), by simp [post], rfl, by rw [hn, Nat.zero_add]⟩
    · obtain ⟨a, ha, hf⟩ := h.settles m hm
      exact ⟨a, by rw [post, Function.update_of_ne (hid m hm)]; exact ha, hf⟩
  · by_cases he : id = n.order.orderId
    · exact ⟨n, List.mem_cons_self, he.symm⟩
    · rw [post, Function.update_of_ne he] at ha
      obtain ⟨m, hm, hid⟩ := h.owned id a ha
      exact ⟨m, List.mem_cons_of_mem _ hm, hid⟩

theorem Balanced.remove {n : Node} (h : ledger.Balanced (n :: nodes))
    (hid : ∀ m ∈ nodes, m.order.orderId ≠ n.order.orderId) :
    ledger.Sound (.removed n.order) ∧ (ledger.post (.removed n.order)).Balanced nodes := by
  refine ⟨h.settles n List.mem_cons_self, fun m hm => ?_, fun id a ha => ?_⟩
  · obtain ⟨a, ha, hf⟩ := h.settles m (List.mem_cons_of_mem _ hm)
    exact ⟨a, by rw [post, Function.update_of_ne (hid m hm)]; exact ha, hf⟩
  · by_cases he : id = n.order.orderId
    · simp [post, he] at ha
    · rw [post, Function.update_of_ne he] at ha
      obtain ⟨m, hm, hm'⟩ := h.owned id a ha
      rcases List.mem_cons.mp hm with rfl | hm
      · exact absurd hm'.symm he
      · exact ⟨m, hm, hm'⟩

/-- A front that a fill completed leaves. -/
theorem Balanced.settle {n : Node} (h : ledger.Balanced (n :: nodes))
    (hid : ∀ m ∈ nodes, m.order.orderId ≠ n.order.orderId) :
    let events : List Event := if n.order.isFilled then [.removed n.order] else []
    ledger.Posts events ∧ (ledger.postAll events).Balanced (settleQueue n nodes) := by
  by_cases hf : n.order.isFilled = true
  · rw [if_pos hf, settleQueue_filled hf]
    exact ⟨⟨(h.remove hid).1, trivial⟩, (h.remove hid).2⟩
  · rw [if_neg hf, settleQueue_unfilled hf]
    exact ⟨trivial, h⟩

/-- A trade of a bid and an ask is posted to their two accounts and to no other. -/
theorem Balanced.trade {bid ask : Node} (h : ledger.Balanced (bid :: ask :: nodes))
    (hids : ((bid :: ask :: nodes).map (·.order.orderId)).Nodup)
    (hb : bid.order.side = .buy) (ha : ask.order.side = .sell) {quantity : Quantity}
    (hqb : quantity ≤ bid.order.remainingQuantity) (hqa : quantity ≤ ask.order.remainingQuantity) :
    let trade := tradeOf (bid.order.less quantity) (ask.order.less quantity) quantity
    ledger.Sound (.traded trade) ∧
      (ledger.post (.traded trade)).Balanced (bid.less quantity :: ask.less quantity :: nodes) := by
  obtain ⟨a, hla, hfa⟩ := h.settles ask (by simp)
  obtain ⟨b, hlb, hfb⟩ := h.settles bid (by simp)
  have hsa : a.1.side = .sell := by rw [← ha, hfa.1]
  have hsb : b.1.side = .buy := by rw [← hb, hfb.1]
  simp only [List.map_cons, List.nodup_cons, List.mem_cons, List.mem_map, not_or, not_exists,
    not_and] at hids
  refine ⟨fun s => ?_, fun n hn => ?_, fun id c hc => ?_⟩
  · cases s
    · exact ⟨b, hlb, hsb⟩
    · exact ⟨a, hla, hsa⟩
  · rcases List.mem_cons.mp hn with rfl | hn
    · refine ⟨(b.1, b.2 + quantity.toNat), ?_, hfb.less hqb⟩
      simp [post, Node.less, Order.less, hlb, hsb, legQuantity, Trade.leg, tradeOf]
    rcases List.mem_cons.mp hn with rfl | hn
    · refine ⟨(a.1, a.2 + quantity.toNat), ?_, hfa.less hqa⟩
      simp [post, Node.less, Order.less, hla, hsa, legQuantity, Trade.leg, tradeOf]
    · obtain ⟨c, hc, hf⟩ := h.settles n (by simp [hn])
      refine ⟨c, ?_, hf⟩
      have h₁ := hids.1.2 n hn
      have h₂ := hids.2.1 n hn
      cases hs : c.1.side <;>
        simp [post, hc, hs, legQuantity, Trade.leg, tradeOf, Order.less, Ne.symm h₁, Ne.symm h₂]
  · obtain ⟨d, hd, -⟩ := Option.map_eq_some_iff.mp hc
    obtain ⟨n, hn, rfl⟩ := h.owned id d hd
    rcases List.mem_cons.mp hn with rfl | hn
    · exact ⟨n.less quantity, by simp, rfl⟩
    rcases List.mem_cons.mp hn with rfl | hn
    · exact ⟨n.less quantity, by simp, rfl⟩
    · exact ⟨n, by simp [hn], rfl⟩

/-- The events of one round of the matching loop. -/
theorem Balanced.front {x y : Node} {xs ys : List Node}
    (h : ledger.Balanced ((x :: xs) ++ (y :: ys)))
    (hids : (((x :: xs) ++ (y :: ys)).map (·.order.orderId)).Nodup)
    (hx : x.order.side = .buy) (hy : y.order.side = .sell) :
    ledger.Posts (frontEvents .buy x y) ∧ (ledger.postAll (frontEvents .buy x y)).Balanced
      (settleQueue (x.less (fillQuantity x y)) xs ++
        settleQueue (y.less (fillQuantity x y)) ys) := by
  have hperm : ((x :: xs) ++ (y :: ys)).Perm (x :: y :: (xs ++ ys)) :=
    List.perm_middle.cons x
  have hids' := (hperm.map (·.order.orderId)).nodup_iff.mp hids
  obtain ⟨hs, hb⟩ := (h.congr fun n => hperm.mem_iff).trade hids' hx hy
    (fillQuantity_le_left x y) (fillQuantity_le_right x y)
  simp only [List.map_cons, List.nodup_cons, List.mem_cons, List.mem_map, not_or, not_exists,
    not_and] at hids'
  obtain ⟨⟨hxy, hxr⟩, hyr, -⟩ := hids'
  obtain ⟨hp₁, hb₁⟩ := hb.settle fun m hm => by
    rcases List.mem_cons.mp hm with rfl | hm
    · exact Ne.symm hxy
    · exact hxr m hm
  have hb₁' := hb₁.congr (l := y.less (fillQuantity x y) ::
      (settleQueue (x.less (fillQuantity x y)) xs ++ ys)) fun n => by
    rw [← settleQueue_append]
    exact (perm_settleQueue_append _ [_] _).mem_iff
  obtain ⟨hp₂, hb₂⟩ := hb₁'.settle fun m hm => by
    rw [← settleQueue_append] at hm
    rcases mem_settleQueue hm with rfl | hm
    · exact hxy
    · exact hyr m hm
  refine ⟨⟨hs, posts_append.mpr ⟨hp₁, hp₂⟩⟩, ?_⟩
  show ((ledger.post _).postAll (_ ++ _)).Balanced _
  rw [postAll_append]
  exact hb₂.congr fun n => (perm_settleQueue_append _ _ _).mem_iff

theorem settleFronts_sublist (x y : Node) (xs ys : List Node) (quantity : Quantity) :
    ((settleQueue (x.less quantity) xs ++ settleQueue (y.less quantity) ys).map
      (·.order.orderId)).Sublist (((x :: xs) ++ (y :: ys)).map (·.order.orderId)) := by
  have key : ∀ (n : Node) (l : List Node), ((settleQueue (n.less quantity) l).map
      (·.order.orderId)).Sublist ((n :: l).map (·.order.orderId)) := by
    intro n l
    unfold settleQueue
    split_ifs
    · exact List.sublist_cons_self _ _
    · exact List.Sublist.refl _
  rw [List.map_append, List.map_append]
  exact (key x xs).append (key y ys)

/-- The events of the matching loop. -/
theorem Balanced.fills {xs ys xs' ys' : List Node} {events : List Event}
    (hf : Fills .buy xs ys events xs' ys') : ∀ {ledger : Ledger}, ledger.Balanced (xs ++ ys) →
    ((xs ++ ys).map (·.order.orderId)).Nodup → (∀ x ∈ xs, x.order.side = .buy) →
    (∀ y ∈ ys, y.order.side = .sell) →
    ledger.Posts events ∧ (ledger.postAll events).Balanced (xs' ++ ys') := by
  induction hf with
  | nil => exact fun h _ _ _ => ⟨trivial, h⟩
  | @cons x y xs ys events xs' ys' hc _ ih =>
    intro ledger h hids hx hy
    obtain ⟨hp, hb⟩ := h.front hids (hx x List.mem_cons_self) (hy y List.mem_cons_self)
    obtain ⟨hp', hb'⟩ := ih hb (hids.sublist (settleFronts_sublist x y xs ys _))
      (fun n hn => by
        rcases mem_settleQueue hn with rfl | hn
        · exact hx x List.mem_cons_self
        · exact hx n (List.mem_cons_of_mem _ hn))
      (fun n hn => by
        rcases mem_settleQueue hn with rfl | hn
        · exact hy y List.mem_cons_self
        · exact hy n (List.mem_cons_of_mem _ hn))
    rw [postAll_append]
    exact ⟨posts_append.mpr ⟨hp, hp'⟩, hb'⟩

theorem Balanced.fills_side {s : Side} {xs ys xs' ys' : List Node} {events : List Event}
    (hf : Fills s xs ys events xs' ys') (h : ledger.Balanced (xs ++ ys))
    (hids : ((xs ++ ys).map (·.order.orderId)).Nodup) (hx : ∀ x ∈ xs, x.order.side = s)
    (hy : ∀ y ∈ ys, y.order.side = s.opposite) :
    ledger.Posts events ∧ (ledger.postAll events).Balanced (xs' ++ ys') := by
  cases s with
  | buy => exact Balanced.fills hf h hids hx hy
  | sell =>
    have hperm : (xs ++ ys).Perm (ys ++ xs) := List.perm_append_comm
    obtain ⟨hp, hb⟩ := Balanced.fills hf.opposite (h.congr fun n => hperm.mem_iff)
      ((hperm.map _).nodup_iff.mp hids) hy hx
    exact ⟨hp, hb.congr fun n => List.perm_append_comm.mem_iff⟩

end Events

/-! ## The calls -/

section Calls

variable {ledger : Ledger} {book : Orderbook}

theorem sweepFrom_fills (s : Side) (xs : List Node) : ∀ (x : Node) (ys : List Node),
    Fills s (x :: xs) ys (sweepFrom s x ys).1 ((sweepFrom s x ys).2.1.toList ++ xs)
      (sweepFrom s x ys).2.2
  | _, [] => .nil
  | x, y :: ys => by
    simp only [sweepFrom]
    split_ifs with hc hf
    · rw [← List.append_nil (frontEvents s x y)]
      refine .cons hc ?_
      rw [settleQueue_filled hf]
      exact .nil
    · refine .cons hc ?_
      rw [settleQueue_unfilled hf, settleQueue_filled ((filled_of_fill x y).resolve_left hf)]
      exact sweepFrom_fills s xs _ ys
    · exact .nil

/-- The arrival of an order and its trades. -/
theorem Balanced.arrive (hb : ledger.Balanced book.nodes) (h : Quiet book) {order : Order}
    (hid : book.orders.contains order.orderId = false)
    (hnew : order.remainingQuantity = order.initialQuantity) :
    let events := .inserted order :: (arrive book order).1
    ledger.Posts events ∧ (ledger.postAll events).Balanced
      (((Orderbook.arrive book order).2.1.toList ++ book.sideNodes order.side) ++
        (Orderbook.arrive book order).2.2) := by
  have hne : ∀ n ∈ book.sideNodes order.side ++ book.sideNodes order.side.opposite,
      n.order.orderId ≠ order.orderId := by
    intro n hn
    rcases List.mem_append.mp hn with hn | hn <;> exact ne_of_not_contains h.rep hid hn
  obtain ⟨hs, hb₁⟩ := (hb.congr fun n => mem_nodes_sides order.side).insert
    (n := book.arrivalNode order) hnew hne
  have hnodup : ((book.sideNodes order.side ++ book.sideNodes order.side.opposite).map
      (·.order.orderId)).Nodup := by
    have := h.rep.index.ids
    cases order.side with
    | buy => exact this
    | sell => exact (List.perm_append_comm.map _).nodup_iff.mp this
  obtain ⟨hp, hb₂⟩ := Balanced.fills_side
    (sweepFrom_fills order.side (book.sideNodes order.side) (book.arrivalNode order)
      (book.sideNodes order.side.opposite)) hb₁
    (by
      rw [List.cons_append, List.map_cons, List.nodup_cons]
      refine ⟨fun hm => ?_, hnodup⟩
      obtain ⟨n, hn, he⟩ := List.mem_map.mp hm
      exact hne n hn he)
    (fun n hn => by
      rcases List.mem_cons.mp hn with rfl | hn
      · rfl
      · exact h.rep.side_of_mem hn)
    (fun n hn => h.rep.side_of_mem hn)
  exact ⟨⟨hs, hp⟩, hb₂⟩

theorem Balanced.addOrder (hb : ledger.Balanced book.nodes) (h : Quiet book) (order : Order)
    (hnew : order.remainingQuantity = order.initialQuantity) :
    ∃ events book', Traced.addOrder book order = .ok (events, book') ∧ Quiet book' ∧
      ledger.Posts events ∧ (ledger.postAll events).Balanced book'.nodes := by
  rcases hid : book.orders.contains order.orderId with _ | _
  swap
  · exact ⟨[], book, by simp [Traced.addOrder, hid], h, trivial, hb⟩
  obtain ⟨book', hr, hq, hown, hother⟩ := addOrder_spec h order hid
  refine ⟨_, book', hr, hq, ?_⟩
  have hnodes : ∀ n, n ∈ queueLeft order.side (remains book order) (book.sideNodes order.side) ++
      (Orderbook.arrive book order).2.2 ↔ n ∈ book'.nodes := by
    intro n
    rw [mem_nodes_sides order.side, hown, hother]
  unfold arrivalEvents remains at *
  split_ifs at hnodes ⊢ with hrej hfak hfak
  · rw [arrive_of_not_canMatch h.rep order (by simpa using hrej.2)] at hnodes
    exact ⟨trivial, hb.congr fun n => (mem_nodes_sides order.side).trans (hnodes n)⟩
  · exact absurd hrej.1 hfak
  all_goals
    obtain ⟨hp, hb₁⟩ := hb.arrive h hid hnew
  · rcases hl : (Orderbook.arrive book order).2.1 with _ | left
    · rw [hl] at hb₁
      simpa using ⟨hp, hb₁.congr hnodes⟩
    · rw [hl] at hb₁
      obtain ⟨hs, hb₂⟩ := hb₁.remove (n := left) fun n hn => by
        obtain ⟨remaining, rfl⟩ := sweepFrom_left hl
        rcases List.mem_append.mp hn with hn | hn
        · exact ne_of_not_contains h.rep hid hn
        · obtain ⟨y, hy, remaining, rfl⟩ := sweepFrom_rest hn
          exact ne_of_not_contains (n := y) h.rep hid hy
      rw [← List.cons_append]
      refine ⟨posts_append.mpr ⟨hp, hs, trivial⟩, ?_⟩
      rw [postAll_append]
      exact hb₂.congr hnodes
  · rw [List.append_nil]
    refine ⟨hp, hb₁.congr fun n => ?_⟩
    rw [← hnodes, List.mem_append, List.mem_append, List.mem_append, mem_queueLeft,
      Option.mem_toList]

theorem Balanced.cancelOrder (hb : ledger.Balanced book.nodes) (h : Quiet book) (id : OrderId) :
    ∃ events book', Traced.cancelOrder book id = .ok (events, book') ∧ Quiet book' ∧
      ledger.Posts events ∧ (ledger.postAll events).Balanced book'.nodes := by
  obtain ⟨book', hc, hq, -, hside⟩ := cancelOrder_quiet h id
  have hmem : ∀ n, n ∈ book'.nodes ↔ n ∈ book.nodes ∧ n.order.orderId ≠ id := by
    intro n
    simp only [mem_nodes, hside, List.mem_filter, bne_iff_ne, exists_and_right]
  rcases hcon : book.orders.contains id with _ | _
  · have hf : book.orders.find? id = none := by
      simpa [SortedMap.contains] using hcon
    refine ⟨[], book', by simp [Traced.cancelOrder, hc, hf], hq, trivial, hb.congr fun n => ?_⟩
    rw [hmem]
    refine ⟨fun hn => ⟨hn, ?_⟩, And.left⟩
    obtain ⟨s, hn⟩ := mem_nodes.mp hn
    exact ne_of_not_contains h.rep hcon hn
  · obtain ⟨n, hn, rfl⟩ := (h.rep.contains_iff id).mp hcon
    obtain ⟨hs, hb'⟩ := (hb.congr (l := n :: book'.nodes) fun m => by
      rw [List.mem_cons, hmem]
      constructor
      · intro hm
        by_cases he : m.order.orderId = n.order.orderId
        · exact .inl (h.rep.index.eq_of_id hm hn he)
        · exact .inr ⟨hm, he⟩
      · rintro (rfl | hm)
        · exact hn
        · exact hm.1).remove fun m hm => ((hmem m).mp hm).2
    exact ⟨[.removed n.order], book', by
      simp [Traced.cancelOrder, hc, h.rep.index.find?_of_mem hn], hq, ⟨hs, trivial⟩, hb'⟩

theorem Balanced.call (hb : ledger.Balanced book.nodes) (h : Quiet book) (c : Call) :
    ∃ events book', Traced.call book c = .ok (events, book') ∧ Quiet book' ∧
      ledger.Posts events ∧ (ledger.postAll events).Balanced book'.nodes := by
  cases c with
  | addOrder orderType orderId side price quantity => exact hb.addOrder h _ rfl
  | cancelOrder orderId => exact hb.cancelOrder h orderId
  | matchOrder order =>
    rcases hf : book.orders.find? order.orderId with _ | existing
    · exact ⟨[], book, by simp [Traced.call, Traced.matchOrder, hf], h, trivial, hb⟩
    · obtain ⟨cancelled, book₁, hc, hq₁, hp₁, hb₁⟩ := hb.cancelOrder h order.orderId
      obtain ⟨events, book', ha, hq, hp, hb'⟩ :=
        hb₁.addOrder hq₁ (order.toOrderPointer existing.order.orderType) rfl
      refine ⟨cancelled ++ events, book', by simp [Traced.call, Traced.matchOrder, hf, hc, ha], hq,
        posts_append.mpr ⟨hp₁, hp⟩, ?_⟩
      rwa [postAll_append]

end Calls

end Ledger

/-- The events of each call, and the book the calls left. -/
def Traced.run (calls : List Call) : Except Fault (List (List Event) × Orderbook) :=
  runAll Traced.call empty calls

theorem run_eq_traced (calls : List Call) :
    run calls = (Traced.run calls).map fun r => (r.1.map tradesOf, r.2) :=
  runAll_map tradesOf (fun book c => (Traced.forget_call book c).symm) calls empty

/-- Whatever the calls, what the trades they return fill of an order and what remains of it when it
leaves, or still rests, add up to its quantity; and a trade names orders that are in the book. -/
theorem run_conserves (calls : List Call) : ∃ log book, Traced.run calls = .ok (log, book) ∧
    run calls = .ok (log.map tradesOf, book) ∧ Conserves log.flatten book := by
  obtain ⟨log, book, hr, -, hp, hb⟩ := runAll_history (P := fun _ => True)
    (fun log book => Quiet book ∧ Ledger.blank.Posts log.flatten ∧
      (Ledger.blank.postAll log.flatten).Balanced book.nodes)
    (fun log book c _ ⟨hq, hp, hb⟩ => by
      obtain ⟨events, book', hr, hq', hp', hb'⟩ := hb.call hq c
      refine ⟨events, book', hr, hq', ?_, ?_⟩
      · rw [List.flatten_concat]
        exact Ledger.posts_append.mpr ⟨hp, hp'⟩
      · rwa [List.flatten_concat, Ledger.postAll_append])
    calls [] empty (fun _ _ => trivial) ⟨quiet_empty, trivial, by
      refine ⟨fun n hn => ?_, fun id a ha => ?_⟩
      · simp [empty, nodes, queued, SortedMap.empty] at hn
      · cases ha⟩
  exact ⟨log, book, hr, by rw [run_eq_traced, Traced.run, hr, Except.map_ok'],
    Ledger.conserves_of_balanced hp hb⟩

end Orderbook

end SideProjects
