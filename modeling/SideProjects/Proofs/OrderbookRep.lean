import SideProjects.PriceTime

/-!
# The containers stay in step

`Rep` ties the three containers together: every level is a non-empty queue of orders of its own side
and price, and `orders` has one entry for each queued order, which points at that order's node.
Queueing an order puts it behind the orders at its price or a better one (`queueOrder_spec`);
cancelling one takes it out and moves nothing else (`cancelOrder_spec`).
-/

namespace SideProjects

namespace Orderbook

/-- A side's levels are queues of orders of their own side and price, none of them empty. -/
structure Placed {s : Side} (levels : Levels s) : Prop where
  nonempty : ∀ l ∈ levels.entries, l.2 ≠ []
  own : ∀ l ∈ levels.entries, ∀ n ∈ l.2, n.order.side = s ∧ n.order.price = l.1

/-- `orders` has an entry for each node, and no other; no two nodes share an id or a location. -/
structure Indexed (nodes : List Node) (orders : SortedMap OrderId OrderEntry (· < ·)) : Prop where
  ids : (nodes.map (·.order.orderId)).Nodup
  locations : (nodes.map Node.location).Nodup
  find : ∀ id entry, orders.find? id = some entry ↔
    ∃ n ∈ nodes, n.order.orderId = id ∧ entry = ⟨n.order, n.location⟩

structure Rep (book : Orderbook) : Prop where
  bids : Placed book.bids
  asks : Placed book.asks
  index : Indexed book.nodes book.orders

/-! ## One side -/

section Side

variable {s : Side} {levels : Levels s}

theorem mem_queued {n : Node} : n ∈ queued levels ↔ ∃ l ∈ levels.entries, n ∈ l.2 := by
  simp [queued, List.mem_flatMap]

theorem Placed.side_of_mem (h : Placed levels) {n : Node} (hn : n ∈ queued levels) :
    n.order.side = s := by
  obtain ⟨l, hl, hn⟩ := mem_queued.mp hn
  exact (h.own l hl n hn).1

theorem Placed.find?_of_mem (h : Placed levels) {n : Node} (hn : n ∈ queued levels) :
    ∃ queue, levels.find? n.order.price = some queue ∧ n ∈ queue := by
  obtain ⟨l, hl, hn⟩ := mem_queued.mp hn
  refine ⟨l.2, SortedMap.mem_entries_iff.mp ?_, hn⟩
  rw [(h.own l hl n hn).2]
  exact hl

theorem placed_empty : Placed (.empty : Levels s) := ⟨by simp [SortedMap.empty],
  by simp [SortedMap.empty]⟩

/-- A level cuts its side in two, whatever its queue is set to. -/
theorem queued_split (levels : Levels s) (price : Price) : ∃ l₁ l₂ : List (Price × OrderPointers),
    (∀ l ∈ l₁, better s l.1 price) ∧ (∀ l ∈ l₂, better s price l.1) ∧
      (∀ l ∈ l₁ ++ l₂, l ∈ levels.entries) ∧
      queued levels = l₁.flatMap Prod.snd ++ (levels.find? price).getD [] ++ l₂.flatMap Prod.snd ∧
      ∀ queue, (putLevel levels price queue).entries =
        l₁ ++ (if queue.isEmpty then [] else [(price, queue)]) ++ l₂ := by
  obtain ⟨l₁, l₂, h₁, h₂, hm, hset, herase⟩ := levels.entries_split price
  refine ⟨l₁, l₂, h₁, h₂, ?_, ?_, ?_⟩
  · intro l hl
    rw [hm]
    rcases List.mem_append.mp hl with hl | hl
    · simp [hl]
    · simp [hl]
  · rw [queued, hm]
    cases levels.find? price <;> simp [SortedMap.own]
  · intro queue
    unfold putLevel
    split_ifs
    · simp [herase]
    · simp [hset]

theorem queued_putLevel {price : Price} {l₁ l₂ : List (Price × OrderPointers)}
    {queue : OrderPointers} (h : (putLevel levels price queue).entries =
      l₁ ++ (if queue.isEmpty then [] else [(price, queue)]) ++ l₂) :
    queued (putLevel levels price queue) =
      l₁.flatMap Prod.snd ++ queue ++ l₂.flatMap Prod.snd := by
  rw [queued, h]
  cases queue <;> simp

theorem Placed.put (h : Placed levels) {price : Price} {queue : OrderPointers}
    (hq : ∀ n ∈ queue, n.order.side = s ∧ n.order.price = price) :
    Placed (putLevel levels price queue) := by
  obtain ⟨l₁, l₂, -, -, hold, -, hput⟩ := queued_split levels price
  have hmem : ∀ l ∈ (putLevel levels price queue).entries,
      l ∈ levels.entries ∨ l = (price, queue) ∧ queue ≠ [] := by
    intro l hl
    rw [hput queue] at hl
    simp only [List.mem_append] at hl
    rcases hl with (hl | hl) | hl
    · exact .inl (hold l (List.mem_append_left _ hl))
    · cases queue with
      | nil => simp at hl
      | cons n queue => exact .inr ⟨by simpa using hl, by simp⟩
    · exact .inl (hold l (List.mem_append_right _ hl))
  refine ⟨fun l hl => ?_, fun l hl n hn => ?_⟩
  · rcases hmem l hl with hl | ⟨rfl, hne⟩
    · exact h.nonempty l hl
    · exact hne
  · rcases hmem l hl with hl | ⟨rfl, -⟩
    · exact h.own l hl n hn
    · exact hq n hn

/-- Time priority within price priority. -/
def byPrice (s : Side) (a b : Node) : Prop := better s a.order.price b.order.price

instance (s : Side) : DecidableRel (byPrice s) := fun a b =>
  inferInstanceAs (Decidable (better s a.order.price b.order.price))

theorem orderedInsert_cut {α : Type*} {r : α → α → Prop} [DecidableRel r] {a : α} {l₂ : List α}
    (h₂ : ∀ b ∈ l₂, r a b) : ∀ {l₁ : List α}, (∀ b ∈ l₁, ¬ r a b) →
    (l₁ ++ l₂).orderedInsert r a = l₁ ++ a :: l₂
  | [], _ => by
    cases l₂ with
    | nil => rfl
    | cons b l₂ => simp [h₂ b List.mem_cons_self]
  | b :: l₁, h₁ => by
    rw [List.cons_append, List.orderedInsert_cons, if_neg (h₁ b List.mem_cons_self),
      orderedInsert_cut h₂ fun c hc => h₁ c (List.mem_cons_of_mem _ hc), List.cons_append]

/-- `push_back` on a level queues its order last among those at its price or a better one. -/
theorem queued_push (h : Placed levels) (n : Node) :
    queued (putLevel levels n.order.price
        ((levels.find? n.order.price).getD [] ++ [n])) =
      (queued levels).orderedInsert (byPrice s) n := by
  obtain ⟨l₁, l₂, h₁, h₂, hold, hq, hput⟩ := queued_split levels n.order.price
  have hown : ∀ m ∈ (levels.find? n.order.price).getD [], m.order.price = n.order.price := by
    intro m hm
    rcases hf : levels.find? n.order.price with _ | queue <;> rw [hf] at hm
    · simp at hm
    · exact (h.own _ (SortedMap.mem_entries_iff.mpr hf) m hm).2
  rw [queued_putLevel (hput _), hq, orderedInsert_cut]
  · simp
  · intro m hm
    obtain ⟨l, hl, hm⟩ := List.mem_flatMap.mp hm
    unfold byPrice
    rw [(h.own l (hold l (List.mem_append_right _ hl)) m hm).2]
    exact h₂ l hl
  · intro m hm
    unfold byPrice
    rcases List.mem_append.mp hm with hm | hm
    · obtain ⟨l, hl, hm⟩ := List.mem_flatMap.mp hm
      rw [(h.own l (hold l (List.mem_append_left _ hl)) m hm).2]
      exact fun hb => irrefl_of (better s) _ (trans_of (better s) hb (h₁ l hl))
    · rw [hown m hm]
      exact irrefl_of (better s) _

/-- The side lists its orders in price order. -/
theorem Placed.sorted (h : Placed levels) :
    (queued levels).Pairwise fun a b => ¬ byPrice s b a := by
  have hs := levels.sorted
  have hown := h.own
  unfold queued
  generalize levels.entries = entries at hs hown
  induction entries with
  | nil => simp
  | cons l entries ih =>
    obtain ⟨hl, hs⟩ := List.pairwise_cons.mp hs
    have hown' : ∀ l ∈ entries, ∀ n ∈ l.2, n.order.side = s ∧ n.order.price = l.1 :=
      fun l' hl' => hown l' (List.mem_cons_of_mem _ hl')
    have hprice : ∀ n ∈ l.2, n.order.price = l.1 := fun n hn => (hown l List.mem_cons_self n hn).2
    rw [List.flatMap_cons]
    refine List.pairwise_append.mpr ⟨?_, ih hs hown', fun a ha b hb => ?_⟩
    · refine List.pairwise_of_forall_mem_list fun a ha b hb => ?_
      unfold byPrice
      rw [hprice a ha, hprice b hb]
      exact irrefl_of (better s) _
    · obtain ⟨l', hl', hb⟩ := List.mem_flatMap.mp hb
      unfold byPrice
      rw [hprice a ha, (hown' l' hl' b hb).2]
      exact fun h' => irrefl_of (better s) _ (trans_of (better s) h' (hl l' hl'))

theorem eraseNode_spec (h : Placed levels) (hloc : ((queued levels).map Node.location).Nodup)
    {n : Node} (hn : n ∈ queued levels) :
    ∃ levels', eraseNode levels n.order.price n.location = .ok levels' ∧ Placed levels' ∧
      queued levels' = (queued levels).filter fun m => m.location != n.location := by
  obtain ⟨queue, hf, hmem⟩ := h.find?_of_mem hn
  obtain ⟨l₁, l₂, -, -, -, hq, hput⟩ := queued_split levels n.order.price
  rw [hf, Option.getD_some] at hq
  have hown := h.own _ (SortedMap.mem_entries_iff.mpr hf)
  refine ⟨putLevel levels n.order.price (queue.filter (·.location != n.location)), ?_,
    h.put fun m hm => hown m (List.mem_of_mem_filter hm), ?_⟩
  · have hany : queue.any (·.location == n.location) = true :=
      List.any_eq_true.mpr ⟨n, hmem, by simp⟩
    simp [eraseNode, hf, hany]
  · -- The node's location is in its own queue, so the rest of the side does not have it.
    rw [queued_putLevel (hput _), hq]
    rw [hq, List.map_append, List.map_append] at hloc
    obtain ⟨h12, -, hd⟩ := List.nodup_append'.mp hloc
    obtain ⟨-, -, hd'⟩ := List.nodup_append'.mp h12
    have hl : n.location ∈ queue.map Node.location := List.mem_map_of_mem hmem
    have hkeep : ∀ l : List Node, n.location ∉ l.map Node.location →
        l.filter (fun m => m.location != n.location) = l := by
      intro l hnot
      refine List.filter_eq_self.mpr fun m hm => ?_
      have : m.location ≠ n.location := fun e => hnot (e ▸ List.mem_map_of_mem hm)
      simpa using this
    rw [List.filter_append, List.filter_append, hkeep _ fun hx => hd' hx hl,
      hkeep _ fun hx => hd (List.mem_append_right _ hl) hx]

end Side

/-! ## The index -/

section Index

variable {nodes : List Node} {orders : SortedMap OrderId OrderEntry (· < ·)}

theorem Indexed.perm (h : Indexed nodes orders) {nodes' : List Node} (hp : nodes.Perm nodes') :
    Indexed nodes' orders where
  ids := (hp.map _).nodup_iff.mp h.ids
  locations := (hp.map _).nodup_iff.mp h.locations
  find id entry := by
    rw [h.find]
    exact exists_congr fun n => and_congr_left fun _ => hp.mem_iff

theorem Indexed.find?_of_mem (h : Indexed nodes orders) {n : Node} (hn : n ∈ nodes) :
    orders.find? n.order.orderId = some ⟨n.order, n.location⟩ :=
  (h.find _ _).mpr ⟨n, hn, rfl, rfl⟩

theorem Indexed.contains_iff (h : Indexed nodes orders) (id : OrderId) :
    orders.contains id ↔ ∃ n ∈ nodes, n.order.orderId = id := by
  unfold SortedMap.contains
  rw [Option.isSome_iff_exists]
  constructor
  · rintro ⟨entry, he⟩
    obtain ⟨n, hn, hid, -⟩ := (h.find id entry).mp he
    exact ⟨n, hn, hid⟩
  · rintro ⟨n, hn, rfl⟩
    exact ⟨_, h.find?_of_mem hn⟩

theorem Indexed.eq_of_id (h : Indexed nodes orders) {m n : Node} (hm : m ∈ nodes) (hn : n ∈ nodes)
    (hid : m.order.orderId = n.order.orderId) : m = n :=
  List.inj_on_of_nodup_map h.ids hm hn hid

theorem Indexed.eq_of_location (h : Indexed nodes orders) {m n : Node} (hm : m ∈ nodes)
    (hn : n ∈ nodes) (hloc : m.location = n.location) : m = n :=
  List.inj_on_of_nodup_map h.locations hm hn hloc

theorem indexed_nil : Indexed [] .empty := ⟨by simp, by simp, by simp⟩

/-- A new node with its entry. -/
theorem Indexed.cons (h : Indexed nodes orders) {n : Node}
    (hid : ∀ m ∈ nodes, m.order.orderId ≠ n.order.orderId)
    (hloc : ∀ m ∈ nodes, m.location ≠ n.location) :
    Indexed (n :: nodes) (orders.set n.order.orderId ⟨n.order, n.location⟩) where
  ids := by
    refine List.nodup_cons.mpr ⟨fun hmem => ?_, h.ids⟩
    obtain ⟨m, hm, he⟩ := List.mem_map.mp hmem
    exact hid m hm he
  locations := by
    refine List.nodup_cons.mpr ⟨fun hmem => ?_, h.locations⟩
    obtain ⟨m, hm, he⟩ := List.mem_map.mp hmem
    exact hloc m hm he
  find id entry := by
    rw [SortedMap.find?_set]
    split_ifs with hk
    · subst hk
      constructor
      · intro he
        exact ⟨n, List.mem_cons_self, rfl, (Option.some.inj he).symm⟩
      · rintro ⟨m, hm, he, rfl⟩
        rcases List.mem_cons.mp hm with rfl | hm
        · rfl
        · exact absurd he (hid m hm)
    · rw [h.find]
      constructor
      · rintro ⟨m, hm, he⟩
        exact ⟨m, List.mem_cons_of_mem _ hm, he⟩
      · rintro ⟨m, hm, he, hentry⟩
        rcases List.mem_cons.mp hm with rfl | hm
        · exact absurd he.symm hk
        · exact ⟨m, hm, he, hentry⟩

/-- An id taken out of the nodes and of the index. -/
theorem Indexed.filter (h : Indexed nodes orders) (id : OrderId) :
    Indexed (nodes.filter fun n => n.order.orderId != id) (orders.erase id) where
  ids := h.ids.sublist (List.filter_sublist.map _)
  locations := h.locations.sublist (List.filter_sublist.map _)
  find id' entry := by
    rw [SortedMap.find?_erase]
    split_ifs with hk
    · subst hk
      refine iff_of_false (by simp) ?_
      rintro ⟨n, hn, he, -⟩
      simp [he] at hn
    · rw [h.find]
      refine exists_congr fun n => ⟨?_, ?_⟩
      · rintro ⟨hn, rfl, he⟩
        exact ⟨List.mem_filter.mpr ⟨hn, by simpa using hk⟩, rfl, he⟩
      · rintro ⟨hn, he⟩
        exact ⟨List.mem_of_mem_filter hn, he⟩

theorem Indexed.tail {n : Node} (h : Indexed (n :: nodes) orders) :
    Indexed nodes (orders.erase n.order.orderId) := by
  have hid := (List.nodup_cons.mp h.ids).1
  have hf : (n :: nodes).filter (fun m => m.order.orderId != n.order.orderId) = nodes := by
    rw [List.filter_cons, if_neg (by simp)]
    refine List.filter_eq_self.mpr fun m hm => ?_
    have : m.order.orderId ≠ n.order.orderId := fun e => hid (List.mem_map.mpr ⟨m, hm, e⟩)
    simpa using this
  exact hf ▸ h.filter n.order.orderId

/-- The front filled: gone from both if nothing remains of it, changed in both otherwise. -/
theorem Indexed.settle {n : Node} (h : Indexed (n :: nodes) orders) (n' : Node)
    (hid : n'.order.orderId = n.order.orderId) (hloc : n'.location = n.location) :
    Indexed (settleQueue n' nodes) (settleOrders n' orders) := by
  have htail := hid ▸ h.tail
  unfold settleQueue settleOrders
  split_ifs
  · exact htail
  · have hids := (List.nodup_cons.mp h.ids).1
    have hlocs := (List.nodup_cons.mp h.locations).1
    have hset := htail.cons (n := n')
      (fun m hm e => hids (List.mem_map.mpr ⟨m, hm, e.trans hid⟩))
      (fun m hm e => hlocs (List.mem_map.mpr ⟨m, hm, e.trans hloc⟩))
    have he : (orders.erase n'.order.orderId).set n'.order.orderId ⟨n'.order, n'.location⟩ =
        orders.set n'.order.orderId ⟨n'.order, n'.location⟩ := by
      refine SortedMap.ext_find? fun id => ?_
      simp only [SortedMap.find?_set, SortedMap.find?_erase]
      split_ifs <;> rfl
    rw [← he]
    exact hset

/-- The keys of the index are the ids of the nodes. -/
theorem Indexed.keys_perm (h : Indexed nodes orders) :
    (orders.entries.map Prod.fst).Perm (nodes.map (·.order.orderId)) := by
  refine (List.perm_ext_iff_of_nodup orders.nodup_keys h.ids).mpr fun id => ?_
  constructor
  · intro hid
    obtain ⟨⟨k, entry⟩, he, rfl⟩ := List.mem_map.mp hid
    obtain ⟨n, hn, hk, -⟩ := (h.find k entry).mp (SortedMap.mem_entries_iff.mp he)
    exact List.mem_map.mpr ⟨n, hn, hk⟩
  · intro hid
    obtain ⟨n, hn, rfl⟩ := List.mem_map.mp hid
    exact List.mem_map.mpr ⟨_, SortedMap.mem_entries_iff.mpr (h.find?_of_mem hn), rfl⟩

/-- As many entries as nodes. -/
theorem Indexed.size (h : Indexed nodes orders) : orders.size = nodes.length := by
  simpa [SortedMap.size] using h.keys_perm.length_eq

end Index

/-! ## The operations -/

section Operations

variable {book : Orderbook}

theorem rep_empty : Rep empty := ⟨placed_empty, placed_empty, indexed_nil⟩

theorem location_lt_newLocation {n : Node} (hn : n ∈ book.nodes) :
    n.location < book.newLocation := by
  unfold newLocation
  generalize book.nodes = nodes at hn
  induction nodes with
  | nil => simp at hn
  | cons m nodes ih =>
    simp only [List.map_cons, List.foldr_cons]
    rcases List.mem_cons.mp hn with rfl | hn
    · omega
    · have := ih hn
      omega

theorem set_eq_putLevel {s : Side} (levels : Levels s) (price : Price) (queue : OrderPointers)
    (n : Node) : levels.set price (queue ++ [n]) = putLevel levels price (queue ++ [n]) := by
  simp [putLevel]

/-- The orders of side `s`. -/
def sideNodes (book : Orderbook) : Side → List Node
  | .buy => queued book.bids
  | .sell => queued book.asks

theorem mem_nodes {n : Node} : n ∈ book.nodes ↔ ∃ s, n ∈ book.sideNodes s := by
  unfold nodes
  rw [List.mem_append]
  constructor
  · rintro (h | h)
    · exact ⟨.buy, h⟩
    · exact ⟨.sell, h⟩
  · rintro ⟨_ | _, h⟩
    · exact .inl h
    · exact .inr h

theorem mem_nodes_sides (s : Side) {n : Node} :
    n ∈ book.nodes ↔ n ∈ book.sideNodes s ++ book.sideNodes s.opposite := by
  cases s with
  | buy => exact Iff.rfl
  | sell => exact List.perm_append_comm.mem_iff

theorem forall_nodes {s : Side} {P : Node → Prop} (h : ∀ n ∈ book.sideNodes s, P n)
    (h' : ∀ n ∈ book.sideNodes s.opposite, P n) : ∀ n ∈ book.nodes, P n := by
  intro n hn
  rcases List.mem_append.mp ((mem_nodes_sides s).mp hn) with hn | hn
  · exact h n hn
  · exact h' n hn

theorem mem_nodes_of_filter {book' : Orderbook} {p : Node → Bool}
    (hside : ∀ s, book'.sideNodes s = (book.sideNodes s).filter p) {n : Node}
    (hn : n ∈ book'.nodes) : n ∈ book.nodes := by
  obtain ⟨s, hn⟩ := mem_nodes.mp hn
  rw [hside] at hn
  exact mem_nodes.mpr ⟨s, List.mem_of_mem_filter hn⟩

theorem Rep.side_of_mem (h : Rep book) {s : Side} {n : Node} (hn : n ∈ book.sideNodes s) :
    n.order.side = s := by
  cases s
  · exact h.bids.side_of_mem hn
  · exact h.asks.side_of_mem hn

/-- An order with a new id is queued on its side, and the other side is left alone. -/
theorem queueOrder_spec (h : Rep book) {order : Order}
    (hid : book.orders.contains order.orderId = false) :
    Rep (book.queueOrder order) ∧
      (book.queueOrder order).sideNodes order.side =
        (book.sideNodes order.side).orderedInsert (byPrice order.side) ⟨book.newLocation, order⟩ ∧
      (book.queueOrder order).sideNodes order.side.opposite =
        book.sideNodes order.side.opposite := by
  set node : Node := ⟨book.newLocation, order⟩ with hnode
  have hnew : ∀ m ∈ book.nodes, m.order.orderId ≠ node.order.orderId := by
    intro m hm e
    have := (h.index.contains_iff order.orderId).mpr ⟨m, hm, e⟩
    simp [hid] at this
  have hloc : ∀ m ∈ book.nodes, m.location ≠ node.location := fun m hm =>
    (location_lt_newLocation hm).ne
  have hindex := h.index.cons hnew hloc
  have hown : ∀ {s : Side} (levels : Levels s), Placed levels → order.side = s →
      ∀ m ∈ (levels.find? order.price).getD [] ++ [node],
        m.order.side = s ∧ m.order.price = order.price := by
    intro s levels hp hs m hm
    rcases List.mem_append.mp hm with hm | hm
    · rcases hf : levels.find? order.price with _ | queue <;> rw [hf] at hm
      · simp at hm
      · exact hp.own _ (SortedMap.mem_entries_iff.mpr hf) m hm
    · rw [List.mem_singleton.mp hm]
      exact ⟨hs, rfl⟩
  rcases hs : order.side with _ | _
  · have hq := queued_push h.bids node
    simp only [queueOrder, hs, set_eq_putLevel]
    refine ⟨⟨h.bids.put (hown _ h.bids hs), h.asks, hindex.perm ?_⟩, hq, rfl⟩
    rw [nodes]
    exact ((List.perm_orderedInsert _ _ _).symm.append_right _).trans (.of_eq (by rw [← hq]; rfl))
  · have hq := queued_push h.asks node
    simp only [queueOrder, hs, set_eq_putLevel]
    refine ⟨⟨h.bids, h.asks.put (hown _ h.asks hs), hindex.perm ?_⟩, hq, rfl⟩
    rw [nodes]
    refine List.perm_middle.symm.trans ?_
    exact ((List.perm_orderedInsert _ _ _).symm.append_left _).trans (.of_eq (by rw [← hq]; rfl))

/-- Nodes are told apart by their locations as by the ids of their orders. -/
theorem Indexed.bne_location {nodes : List Node} {orders : SortedMap OrderId OrderEntry (· < ·)}
    (h : Indexed nodes orders) {m n : Node} (hm : m ∈ nodes) (hn : n ∈ nodes) :
    (m.location != n.location) = (m.order.orderId != n.order.orderId) := by
  by_cases hmn : m = n
  · simp [hmn]
  · have h₁ : m.location ≠ n.location := fun e => hmn (h.eq_of_location hm hn e)
    have h₂ : m.order.orderId ≠ n.order.orderId := fun e => hmn (h.eq_of_id hm hn e)
    rw [bne_iff_ne.mpr h₁, bne_iff_ne.mpr h₂]

/-- The other side has no order of the id. -/
theorem Rep.filter_other (h : Rep book) {n : Node} (hn : n ∈ book.nodes) {s : Side}
    (hs : s ≠ n.order.side) :
    (book.sideNodes s).filter (fun m => m.order.orderId != n.order.orderId) = book.sideNodes s := by
  refine List.filter_eq_self.mpr fun m hm => ?_
  have hne : m.order.orderId ≠ n.order.orderId := by
    intro e
    rw [h.index.eq_of_id (mem_nodes.mpr ⟨s, hm⟩) hn e] at hm
    exact hs (h.side_of_mem hm).symm
  simpa using hne

/-- Cancelling takes the id's order out of the book and moves nothing else. -/
theorem cancelOrder_spec (h : Rep book) (id : OrderId) :
    ∃ book', book.cancelOrder id = .ok book' ∧ Rep book' ∧
      ∀ s, book'.sideNodes s = (book.sideNodes s).filter fun n => n.order.orderId != id := by
  rcases hf : book.orders.find? id with _ | entry
  · refine ⟨book, by simp [cancelOrder, hf], h, fun s => (List.filter_eq_self.mpr ?_).symm⟩
    intro n hn
    have hne : n.order.orderId ≠ id := by
      rintro rfl
      rw [h.index.find?_of_mem (mem_nodes.mpr ⟨s, hn⟩)] at hf
      simp at hf
    simpa using hne
  · obtain ⟨n, hn, rfl, rfl⟩ := (h.index.find id entry).mp hf
    have hlocs := h.index.locations
    have hindex := h.index.filter n.order.orderId
    rw [nodes, List.map_append] at hlocs
    rw [nodes, List.filter_append] at hindex
    obtain ⟨s, hmem⟩ := mem_nodes.mp hn
    have hside := h.side_of_mem hmem
    cases s with
    | buy =>
      obtain ⟨bids, he, hp, hq⟩ := eraseNode_spec h.bids hlocs.of_append_left hmem
      rw [List.filter_congr fun m hm => h.index.bne_location (List.mem_append_left _ hm) hn] at hq
      have hasks := h.filter_other hn (s := .sell) (by simp [hside])
      refine ⟨⟨bids, book.asks, book.orders.erase n.order.orderId⟩,
        by simp [cancelOrder, hf, hside, he], ⟨hp, h.asks, ?_⟩, ?_⟩
      · rw [nodes, hq]
        rw [sideNodes] at hasks
        rwa [hasks] at hindex
      · rintro (_ | _)
        · exact hq
        · exact hasks.symm
    | sell =>
      obtain ⟨asks, he, hp, hq⟩ := eraseNode_spec h.asks hlocs.of_append_right hmem
      rw [List.filter_congr fun m hm => h.index.bne_location (List.mem_append_right _ hm) hn] at hq
      have hbids := h.filter_other hn (s := .buy) (by simp [hside])
      refine ⟨⟨book.bids, asks, book.orders.erase n.order.orderId⟩,
        by simp [cancelOrder, hf, hside, he], ⟨h.bids, hp, ?_⟩, ?_⟩
      · rw [nodes, hq]
        rw [sideNodes] at hbids
        rwa [hbids] at hindex
      · rintro (_ | _)
        · exact hbids.symm
        · exact hq

end Operations

end Orderbook

end SideProjects
