import Mathlib.Algebra.Field.Rat
import Mathlib.Algebra.Order.Ring.Rat
import SideProjects.OrderResource

/-!
# A refresh after an apply

`Read` and `Update` make the items anew from the order. `Create` writes the order's items over those of
the plan, one after the other (`overwriteItems_eq`): it panics where the order has more, and where it
has fewer some of the plan's items stay. So a refresh right after `Create` finds what is there if and
only if the order has as many items as the plan, and after `Update` it always does (`settles_iff`).
-/

namespace SideProjects

namespace OrderResource

variable {P : Type*}

/-- From an index on, the order's items take the place of the plan's, as long as there are any. -/
theorem overwriteItems_eq : ∀ (order : List (OrderItem P)) {i : ℕ} {items : List (OrderItemModel P)},
    i ≤ items.length → overwriteItems i order items =
      if i + order.length ≤ items.length then
        .ok (items.take i ++ order.map orderItemModel ++ items.drop (i + order.length))
      else .error (.indexOutOfRange items.length items.length)
  | [], i, items, hi => by simp [overwriteItems, hi]
  | item :: order, i, items, hi => by
    rw [overwriteItems]
    rcases hi.eq_or_lt with rfl | hlt
    · rw [if_neg (lt_irrefl _), if_neg (by simp)]
    · have hcount : i + (item :: order).length = i + 1 + order.length := by
        rw [List.length_cons]
        omega
      have htake : (items.set i (orderItemModel item)).take (i + 1) =
          items.take i ++ [orderItemModel item] := by
        rw [List.take_add_one, List.take_set_of_le le_rfl, List.getElem?_set_self hlt]
        rfl
      have hdrop : (items.set i (orderItemModel item)).drop (i + 1 + order.length) =
          items.drop (i + 1 + order.length) := by
        rw [List.drop_set, if_pos (by omega)]
      rw [if_pos hlt, overwriteItems_eq order (by rwa [List.length_set]), List.length_set, hcount,
        htake, hdrop, List.map_cons, List.append_assoc (items.take i), List.singleton_append]

/-- A refresh finds the state as it is. -/
def Settled (client : Client P) (state : OrderResourceModel P) : Prop :=
  read client state = ⟨some state, []⟩

section Methods

variable [Zero P] (client : Client P) (now : String)

theorem create_eq {plan : OrderResourceModel P} {order : Order P}
    (hcreate : client.createOrder (orderItems plan.items) = .ok order) :
    create client now plan =
      if order.items.length ≤ plan.items.length then
        .ok ⟨some ⟨.known (itoa order.id),
          order.items.map orderItemModel ++ plan.items.drop order.items.length, .known now⟩, []⟩
      else .error (.indexOutOfRange plan.items.length plan.items.length) := by
  simp only [create, hcreate, overwriteItems_eq order.items (Nat.zero_le _), zero_add, List.take_zero,
    List.nil_append]
  split_ifs <;> rfl

omit [Zero P] in
theorem settled_iff {state : OrderResourceModel P} {order : Order P}
    (hget : client.getOrder (state.id.getD "") = .ok order) :
    Settled client state ↔ state.items = order.items.map orderItemModel := by
  obtain ⟨id, items, lastUpdated⟩ := state
  simp only [Settled, read, hget, Response.mk.injEq, Option.some.injEq, OrderResourceModel.mk.injEq,
    true_and, and_true]
  exact eq_comm

/-- A refresh right after `Create`, with the order that `Create` was answered, shows no drift if and
only if the order has as many items as the plan. After `Update` it never does. -/
theorem settles_iff {plan : OrderResourceModel P} {order : Order P}
    (hcreate : client.createOrder (orderItems plan.items) = .ok order)
    (hget : client.getOrder (itoa order.id) = .ok order) :
    ((∃ created, create client now plan = .ok ⟨some created, []⟩ ∧ Settled client created) ↔
        order.items.length = plan.items.length) ∧
      ∀ (state plan' : OrderResourceModel P) (answer order' : Order P),
        client.updateOrder (plan'.id.getD "") (orderItems plan'.items) = .ok answer →
        client.getOrder (plan'.id.getD "") = .ok order' →
        ∃ updated, update client now state plan' = ⟨some updated, []⟩ ∧ Settled client updated := by
  refine ⟨?_, fun state plan' answer order' hupdate hget' => ?_⟩
  · rw [create_eq client now hcreate]
    constructor
    · rintro ⟨created, hcreated, hsettled⟩
      split_ifs at hcreated with hfew
      obtain rfl : _ = created := by simpa using hcreated
      rw [settled_iff client (by exact hget)] at hsettled
      have hlen := congrArg List.length hsettled
      simp only [List.length_append, List.length_map, List.length_drop] at hlen
      omega
    · intro hlen
      rw [if_pos hlen.le]
      refine ⟨_, rfl, (settled_iff client (by exact hget)).mpr ?_⟩
      simp [hlen]
  · refine ⟨{ plan' with items := order'.items.map orderItemModel, lastUpdated := .known now }, ?_,
      (settled_iff client (by exact hget')).mpr rfl⟩
    simp only [update, hupdate, hget']

end Methods

/-- A client of a server that answers with an order of these items whatever is asked. -/
def answering (items : List (OrderItem ℚ)) : Client ℚ where
  createOrder _ := .ok ⟨1, items⟩
  getOrder _ := .ok ⟨1, items⟩
  updateOrder _ _ := .ok ⟨1, items⟩

/-- One coffee in the plan, whose name and so on are not known yet. -/
def oneCoffee : OrderResourceModel ℚ :=
  ⟨.unknown, [⟨⟨.known 3, .unknown, .unknown, .unknown, .unknown, .unknown⟩, .known 2⟩], .unknown⟩

/-- The order has the coffee. -/
theorem settles_iff_one : ∃ created,
    create (answering [⟨⟨3, "Nomadicano", "", "", 150, ""⟩, 2⟩]) "now" oneCoffee =
        .ok ⟨some created, []⟩ ∧
      Settled (answering [⟨⟨3, "Nomadicano", "", "", 150, ""⟩, 2⟩]) created :=
  (settles_iff (answering [⟨⟨3, "Nomadicano", "", "", 150, ""⟩, 2⟩]) "now" rfl rfl).1.mpr rfl

/-- An order of two items, and an order of none. -/
theorem create_drifts :
    create (answering [⟨⟨3, "Nomadicano", "", "", 150, ""⟩, 2⟩,
          ⟨⟨4, "Terraspresso", "", "", 150, ""⟩, 1⟩]) "now" oneCoffee =
        .error (.indexOutOfRange 1 1) ∧
      create (answering []) "now" oneCoffee =
        .ok ⟨some ⟨.known "1", oneCoffee.items, .known "now"⟩, []⟩ ∧
      ¬ Settled (answering []) ⟨.known "1", oneCoffee.items, .known "now"⟩ := by
  refine ⟨by decide +kernel, by decide +kernel, ?_⟩
  unfold Settled
  decide +kernel

end OrderResource

end SideProjects
