import Mathlib.Algebra.Ring.Nat
import SideProjects.Proofs.OrderbookSweep

/-!
# The depth snapshot

`GetOrderInfos` walks the levels in their order, so it lists every price that has an order once, best
price first. The lambda adds in 64 bits but `std::accumulate` keeps the sum in 32, so a quantity is
the sum of what remains at its price modulo `2 ^ 32`, and the snapshot is exact as long as no level
holds that much (`getOrderInfos_exact_iff`).
-/

namespace SideProjects

namespace Orderbook

/-- What remains at a price of a side, without a bound. -/
def depth {s : Side} (levels : Levels s) (price : Price) : ℕ :=
  (((queued levels).filter fun n => n.order.price = price).map
    (·.order.remainingQuantity.toNat)).sum

/-- One info for each price with a resting order, best price first, each with the exact depth. -/
structure ExactInfos {s : Side} (levels : Levels s) (infos : List LevelInfo) : Prop where
  sorted : infos.Pairwise fun a b => better s a.price b.price
  prices : ∀ price, (∃ info ∈ infos, info.price = price) ↔
    ∃ n ∈ queued levels, n.order.price = price
  quantities : ∀ info ∈ infos, info.quantity.toNat = depth levels info.price

theorem toNat_runningSum (runningSum quantity : Quantity) :
    (runningSum.toUInt64 + quantity.toUInt64).toUInt32.toNat =
      (runningSum.toNat + quantity.toNat) % 2 ^ 32 := by
  have h₁ := runningSum.toNat_lt
  have h₂ := quantity.toNat_lt
  rw [UInt64.toNat_toUInt32, UInt64.toNat_add, UInt32.toNat_toUInt64, UInt32.toNat_toUInt64,
    Nat.mod_eq_of_lt (a := runningSum.toNat + quantity.toNat) (b := 2 ^ 64) (by omega)]

theorem toNat_accumulate : ∀ (orders : OrderPointers) (runningSum : Quantity),
    (orders.foldl (fun runningSum node =>
        (runningSum.toUInt64 + node.order.remainingQuantity.toUInt64).toUInt32) runningSum).toNat =
      (runningSum.toNat + (orders.map (·.order.remainingQuantity.toNat)).sum) % 2 ^ 32
  | [], runningSum => (Nat.mod_eq_of_lt runningSum.toNat_lt).symm
  | node :: orders, runningSum => by
    rw [List.foldl_cons, toNat_accumulate orders, toNat_runningSum, Nat.mod_add_mod, List.map_cons,
      List.sum_cons, Nat.add_assoc]

section Side

variable {s : Side} {levels : Levels s}

theorem Placed.depth_eq (h : Placed levels) {l : Price × OrderPointers} (hl : l ∈ levels.entries) :
    depth levels l.1 = (l.2.map (·.order.remainingQuantity.toNat)).sum := by
  have hf : levels.find? l.1 = some l.2 := SortedMap.mem_entries_iff.mp hl
  rw [h.find?_eq] at hf
  simp only at hf
  split_ifs at hf
  rw [depth, Option.some.inj hf]

/-- A price without a level has no depth. -/
theorem Placed.depth_eq_zero (h : Placed levels) {price : Price}
    (hp : ∀ l ∈ levels.entries, l.1 ≠ price) : depth levels price = 0 := by
  have hnil : (queued levels).filter (fun n => decide (n.order.price = price)) = [] := by
    refine List.filter_eq_nil_iff.mpr fun n hn => ?_
    obtain ⟨l, hl, hn⟩ := mem_queued.mp hn
    rw [(h.own l hl n hn).2]
    simpa using hp l hl
  rw [depth, hnil, List.map_nil, List.sum_nil]

theorem Placed.toNat_quantity (h : Placed levels) {l : Price × OrderPointers}
    (hl : l ∈ levels.entries) :
    (createLevelInfos l.1 l.2).quantity.toNat = depth levels l.1 % 2 ^ 32 := by
  rw [h.depth_eq hl, createLevelInfos, toNat_accumulate]
  simp

theorem Placed.exactInfos_iff (h : Placed levels) :
    ExactInfos levels (levels.entries.map fun l => createLevelInfos l.1 l.2) ↔
      ∀ price, depth levels price < 2 ^ 32 := by
  constructor
  · intro hexact price
    by_cases hp : ∀ l ∈ levels.entries, l.1 ≠ price
    · rw [h.depth_eq_zero hp]
      decide
    · push Not at hp
      obtain ⟨l, hl, rfl⟩ := hp
      have hq : (createLevelInfos l.1 l.2).quantity.toNat = depth levels l.1 :=
        hexact.quantities _ (List.mem_map_of_mem hl)
      rw [← hq]
      exact UInt32.toNat_lt _
  · intro hdepth
    refine ⟨?_, fun price => ⟨?_, ?_⟩, fun info hinfo => ?_⟩
    · exact List.pairwise_map.mpr levels.sorted
    · rintro ⟨info, hinfo, rfl⟩
      obtain ⟨l, hl, rfl⟩ := List.mem_map.mp hinfo
      obtain ⟨n, hn⟩ := List.exists_mem_of_ne_nil _ (h.nonempty l hl)
      exact ⟨n, mem_queued.mpr ⟨l, hl, hn⟩, (h.own l hl n hn).2⟩
    · rintro ⟨n, hn, rfl⟩
      obtain ⟨l, hl, hn⟩ := mem_queued.mp hn
      exact ⟨_, List.mem_map_of_mem hl, (h.own l hl n hn).2.symm⟩
    · obtain ⟨l, hl, rfl⟩ := List.mem_map.mp hinfo
      rw [h.toNat_quantity hl]
      exact Nat.mod_eq_of_lt (hdepth l.1)

end Side

/-- In every reachable book the snapshot is exact if, and only if, no price of a side has `2 ^ 32` or
more resting at it. -/
theorem getOrderInfos_exact_iff {calls : List Call} {trades : List (List Trade)} {book : Orderbook}
    (h : run calls = .ok (trades, book)) :
    (ExactInfos book.bids book.getOrderInfos.bids ∧ ExactInfos book.asks book.getOrderInfos.asks) ↔
      ∀ price, depth book.bids price < 2 ^ 32 ∧ depth book.asks price < 2 ^ 32 := by
  have hrep := (quiet_of_run h).rep
  rw [forall_and]
  exact and_congr hrep.bids.exactInfos_iff hrep.asks.exactInfos_iff

/-- Two bids at one price and one at a lower price. -/
theorem getOrderInfos_exact_iff_two_levels : ∃ trades book,
    run [.addOrder .goodTillCancel 1 .buy 100 5, .addOrder .goodTillCancel 2 .buy 99 4,
        .addOrder .goodTillCancel 3 .buy 100 7] = .ok (trades, book) ∧
      book.getOrderInfos = ⟨[⟨100, 12⟩, ⟨99, 4⟩], []⟩ ∧
      ((ExactInfos book.bids book.getOrderInfos.bids ∧
          ExactInfos book.asks book.getOrderInfos.asks) ↔
        ∀ price, depth book.bids price < 2 ^ 32 ∧ depth book.asks price < 2 ^ 32) :=
  have h : run [.addOrder .goodTillCancel 1 .buy 100 5, .addOrder .goodTillCancel 2 .buy 99 4,
      .addOrder .goodTillCancel 3 .buy 100 7] = .ok (_, _) := rfl
  ⟨_, _, h, by decide, getOrderInfos_exact_iff h⟩

/-- Two bids of `2 ^ 32 - 1` at one price show as `2 ^ 32 - 2`. -/
theorem getOrderInfos_wraps : ∃ trades book,
    run [.addOrder .goodTillCancel 1 .buy 100 4294967295,
        .addOrder .goodTillCancel 2 .buy 100 4294967295] = .ok (trades, book) ∧
      book.getOrderInfos = ⟨[⟨100, 4294967294⟩], []⟩ ∧ depth book.bids 100 = 8589934590 ∧
      ¬ ExactInfos book.bids book.getOrderInfos.bids := by
  refine ⟨_, _, rfl, by decide, by decide, fun hexact => ?_⟩
  have := hexact.quantities ⟨100, 4294967294⟩ (by decide)
  exact absurd this (by decide)

end Orderbook

end SideProjects
