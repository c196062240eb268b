import Mathlib.Algebra.Field.Rat
import Mathlib.Algebra.Order.Ring.Rat
import Mathlib.Data.List.Induction
import SideProjects.OrderLifecycle

/-!
# One order to a resource

A state begins with an order that `Create` was answered or that is imported (`next_none`), and from
then on a step leaves it the identifier it has or takes it away (`next_some`). So at every moment of a
run the identifier is the one the state began with (`run_id`). A method asks the server about no other
order, and what the server does with the others makes no difference to the run (`run_confined`).
-/

namespace SideProjects

namespace OrderResource

variable {P : Type*} [Zero P]

/-- The step makes a state of this identifier where there is none. -/
def Step.Starts (step : Step P) (id : String) : Prop :=
  match step.action with
  | .apply config => ∃ order,
      step.server.createOrder (orderItems (plan none config).items) = .ok order ∧ itoa order.id = id
  | .importOrder i => i = id
  | _ => False

/-! ## What a method leaves -/

theorem create_state {client : Client P} {now : String} {plan m : OrderResourceModel P}
    {diagnostics : List Diagnostic} (h : create client now plan = .ok ⟨some m, diagnostics⟩) :
    ∃ order, client.createOrder (orderItems plan.items) = .ok order ∧
      m.id = .known (itoa order.id) := by
  unfold create at h
  split at h
  · simp at h
  · next order horder =>
    obtain ⟨items, _, hm⟩ := Except.bind_eq_ok.mp h
    simp only [Except.ok.injEq, Response.mk.injEq, Option.some.injEq] at hm
    exact ⟨order, horder, by rw [← hm.1]⟩

omit [Zero P] in
/-- A refresh leaves a state, and all of it but the items as it was. -/
theorem read_state (client : Client P) (state : OrderResourceModel P) :
    ∃ items, (read client state).state = some { state with items } := by
  unfold read
  split
  · exact ⟨state.items, rfl⟩
  · exact ⟨_, rfl⟩

theorem update_state (client : Client P) (now : String) (state plan : OrderResourceModel P) :
    ∃ m, (update client now state plan).state = some m ∧ (m = state ∨ m.id = plan.id) := by
  unfold update
  split
  · exact ⟨state, rfl, .inl rfl⟩
  · split
    · exact ⟨state, rfl, .inl rfl⟩
    · exact ⟨_, rfl, .inr rfl⟩

omit [Zero P] in
theorem delete_state (server : Server P) (state : OrderResourceModel P) :
    (delete server state).state = some state ∨ (delete server state).state = none := by
  unfold delete
  split
  · exact .inl rfl
  · exact .inr rfl

omit [Zero P] in
theorem plan_id {state : OrderResourceModel P} {id : String} (hid : state.id = .known id)
    (config : List ConfigItem) : (plan (some state) config).id = .known id := by
  simp only [plan, Option.elim_some, hid, Value.useState]

/-! ## What a step leaves -/

/-- There is a state after a step from none only if the step starts it. -/
theorem next_none {step : Step P} {m : OrderResourceModel P} (h : step.next none = some m) :
    ∃ id, m.id = .known id ∧ step.Starts id := by
  obtain ⟨action, server, now⟩ := step
  cases action with
  | apply config =>
    simp only [Step.next, Step.result] at h
    split at h
    · simp at h
    · next response hcreate =>
      obtain ⟨state, diagnostics⟩ := response
      obtain rfl : state = some m := h
      obtain ⟨order, horder, hid⟩ := create_state hcreate
      exact ⟨_, hid, order, horder, rfl⟩
  | importOrder id =>
    simp only [Step.next, Step.result] at h
    obtain ⟨items, hread⟩ := read_state server.toClient (importState (P := P) id)
    split at h
    · simp at h
    · next response hresult =>
      split at hresult
      · next state hok =>
        obtain rfl : _ = response := by simpa using hresult
        rw [hok] at hread
        obtain rfl : state = some m := h
        obtain rfl : m = _ := by simpa using hread
        exact ⟨id, rfl, rfl⟩
      · obtain rfl : _ = response := by simpa using hresult
        simp at h
  | refresh => simp [Step.next, Step.result] at h
  | destroy => simp [Step.next, Step.result] at h

/-- A state that is there stays the state of its order, or is taken away. -/
theorem next_some {step : Step P} {state m : OrderResourceModel P} {id : String}
    (hid : state.id = .known id) (h : step.next (some state) = some m) : m.id = .known id := by
  obtain ⟨action, server, now⟩ := step
  cases action with
  | apply config =>
    obtain ⟨m', hm', hcases⟩ :=
      update_state server.toClient now state (plan (some state) config)
    obtain rfl : m' = m := by simpa [Step.next, Step.result, hm'] using h
    rcases hcases with rfl | hplan
    · exact hid
    · rw [hplan, plan_id hid]
  | refresh =>
    obtain ⟨items, hread⟩ := read_state server.toClient state
    obtain rfl : _ = m := by simpa [Step.next, Step.result, hread] using h
    exact hid
  | destroy =>
    simp only [Step.next, Step.result] at h
    rcases delete_state server state with hdelete | hdelete <;> simp only [hdelete] at h
    · obtain rfl : state = m := by simpa using h
      exact hid
    · simp at h
  | importOrder _ =>
    obtain rfl : state = m := by simpa [Step.next, Step.result] using h
    exact hid

/-- A call that panics or reports an error leaves the state as it was. -/
theorem next_of_failed {step : Step P} {state : Option (OrderResourceModel P)}
    (h : ∀ response, step.result state = .ok response → response.diagnostics ≠ []) :
    step.next state = state := by
  rcases hresult : step.result state with panic | response
  · simp only [Step.next, hresult]
  · have hfailed := h response hresult
    obtain ⟨action, server, now⟩ := step
    rcases state with _ | state <;> cases action <;>
      simp only [Step.next, hresult] <;> simp only [Step.result, Except.ok.injEq] at hresult
    · unfold create at hresult
      split at hresult
      · obtain rfl : _ = response := by simpa using hresult
        rfl
      · obtain ⟨items, _, hresponse⟩ := Except.bind_eq_ok.mp hresult
        obtain rfl : _ = response := by simpa using hresponse
        exact absurd rfl hfailed
    · rw [← hresult]
    · rw [← hresult]
    · split at hresult <;> obtain rfl : _ = response := by simpa using hresult
      · exact absurd rfl hfailed
      · rfl
    · rw [← hresult, update] at hfailed ⊢
      grind
    · rw [← hresult, read] at hfailed ⊢
      grind
    · rw [← hresult, delete] at hfailed ⊢
      grind
    · rw [← hresult]

/-! ## Runs -/

theorem run_concat (steps : List (Step P)) (step : Step P) :
    (run (steps ++ [step])).2 = step.next (run steps).2 := by
  rw [run, feed_append]
  rfl

/-- A state has the identifier it began with, and had it all the while since. -/
theorem run_id {steps : List (Step P)} {m : OrderResourceModel P} (h : (run steps).2 = some m) :
    ∃ id, m.id = .known id ∧ ∃ before step after, steps = before ++ step :: after ∧
      (run before).2 = none ∧ step.Starts id ∧
      ∀ rest, rest <+: after →
        ∃ m', (run (before ++ step :: rest)).2 = some m' ∧ m'.id = .known id := by
  induction steps using List.reverseRecOn generalizing m with
  | nil => simp [run, feed] at h
  | append_singleton steps last ih =>
    have hlast := h
    rw [run_concat] at hlast
    rcases hstate : (run steps).2 with _ | state
    · rw [hstate] at hlast
      obtain ⟨id, hid, hstarts⟩ := next_none hlast
      refine ⟨id, hid, steps, last, [], rfl, hstate, hstarts, fun rest hrest => ?_⟩
      obtain rfl := List.prefix_nil.mp hrest
      exact ⟨m, h, hid⟩
    · rw [hstate] at hlast
      obtain ⟨id, hid, before, step, after, rfl, hbefore, hstarts, hrests⟩ := ih hstate
      have hm := next_some hid hlast
      refine ⟨id, hm, before, step, after ++ [last], by simp, hbefore, hstarts, fun rest hrest => ?_⟩
      rcases List.prefix_concat_iff.mp hrest with rfl | hrest
      · exact ⟨m, by simpa using h, hm⟩
      · exact hrests rest hrest

/-- A server with the order of these items under `7`, which says this of any other. -/
def keeping (items : List (OrderItem ℚ)) (other : Except String (Order ℚ)) : Server ℚ where
  createOrder _ := .ok ⟨7, items⟩
  getOrder id := if id = "7" then .ok ⟨7, items⟩ else other
  updateOrder id _ := if id = "7" then .ok ⟨7, items⟩ else other
  deleteOrder id := if id = "7" then .ok () else .error "not found"

/-- Created, refreshed, and updated. -/
def threeSteps (server : Server ℚ) : List (Step ℚ) :=
  [⟨.apply [⟨3, 2⟩], server, "nine"⟩, ⟨.refresh, server, "ten"⟩, ⟨.apply [⟨3, 1⟩], server, "eleven"⟩]

theorem run_id_threeSteps : ∃ before step after,
    threeSteps (keeping [] (.error "not found")) = before ++ step :: after ∧
      (run before).2 = none ∧ step.Starts "7" := by
  have h : (run (threeSteps (keeping [] (.error "not found")))).2 =
      some ⟨.known "7", [], .known "eleven"⟩ := rfl
  obtain ⟨id, hid, before, step, after, hsteps, hbefore, hstarts, -⟩ := run_id h
  obtain rfl : "7" = id := Value.known.inj hid
  exact ⟨before, step, after, hsteps, hbefore, hstarts⟩

/-! ## Other orders -/

/-- The steps are alike but for what their servers do with orders other than these. -/
structure Step.Alike (ids : Set String) (step step' : Step P) : Prop where
  action : step.action = step'.action
  now : step.now = step'.now
  createOrder : step.server.createOrder = step'.server.createOrder
  getOrder : ∀ id ∈ ids, step.server.getOrder id = step'.server.getOrder id
  updateOrder : ∀ id ∈ ids, step.server.updateOrder id = step'.server.updateOrder id
  deleteOrder : ∀ id ∈ ids, step.server.deleteOrder id = step'.server.deleteOrder id

/-- If there is no state, the step starts none but one of these orders. -/
def StartsIn (ids : Set String) (state : Option (OrderResourceModel P)) (step : Step P) : Prop :=
  state = none → ∀ id, step.Starts id → id ∈ ids

/-- The state, if there is one, is that of one of these orders. -/
def OneOf (ids : Set String) (state : Option (OrderResourceModel P)) : Prop :=
  ∀ m, state = some m → ∃ id ∈ ids, m.id = .known id

theorem StartsIn.oneOf {ids : Set String} {step : Step P} {state : Option (OrderResourceModel P)}
    (h : StartsIn ids state step) (hstate : OneOf ids state) : OneOf ids (step.next state) := by
  intro m hm
  rcases state with _ | state
  · obtain ⟨id, hid, hstarts⟩ := next_none hm
    exact ⟨id, h rfl id hstarts, hid⟩
  · obtain ⟨id, hmem, hid⟩ := hstate state rfl
    exact ⟨id, hmem, next_some hid hm⟩

theorem Step.Alike.result_eq {ids : Set String} {step step' : Step P}
    {state : Option (OrderResourceModel P)} (h : step.Alike ids step')
    (hstarts : StartsIn ids state step) (hstate : OneOf ids state) :
    step'.result state = step.result state := by
  obtain ⟨action, server, now⟩ := step
  obtain ⟨action', server', now'⟩ := step'
  obtain ⟨haction, hnow, hcreate, hget, hupdate, hdelete⟩ := h
  dsimp only at haction hnow hcreate hget hupdate hdelete
  subst haction hnow
  rcases state with _ | state
  · cases action with
    | apply config => simp only [Step.result, create, hcreate]
    | importOrder id =>
      have hid : server.getOrder id = server'.getOrder id := hget id (hstarts rfl id rfl)
      simp only [Step.result, read, importState, Value.getD, hid]
    | refresh => rfl
    | destroy => rfl
  · obtain ⟨id, hmem, hid⟩ := hstate state rfl
    cases action with
    | apply config =>
      simp only [Step.result, update, plan_id hid, Value.getD, hget id hmem, hupdate id hmem]
    | refresh => simp only [Step.result, read, hid, Value.getD, hget id hmem]
    | destroy => simp only [Step.result, delete, hid, Value.getD, hdelete id hmem]
    | importOrder _ => rfl

/-- What the servers do with orders that the run neither creates nor tries to import makes no
difference. -/
theorem run_confined {ids : Set String} {steps steps' : List (Step P)}
    (hstarts : Along (fun state (step : Step P) => step.next state) (StartsIn ids) none steps)
    (h : List.Forall₂ (Step.Alike ids) steps steps') : run steps' = run steps := by
  have hnone : OneOf ids (none : Option (OrderResourceModel P)) := by
    intro m hm
    cases hm
  refine feed_congr _ (fun state step step' hstep hin hstate => ⟨?_, hin.oneOf hstate⟩) h hstarts hnone
  simp only [Step.next, hstep.result_eq hin hstate]

/-- Created, and updated when the next order would be order `8`, of which the server says this. -/
def twoSteps (other : Except String (Order ℚ)) : List (Step ℚ) :=
  [⟨.apply [⟨3, 2⟩], keeping [] other, "nine"⟩,
    ⟨.apply [⟨3, 1⟩], { keeping [] other with createOrder := fun _ => .ok ⟨8, []⟩ }, "ten"⟩]

/-- Whether there is an order `8` makes no difference to order `7`. -/
theorem run_confined_twoSteps :
    run (twoSteps (.ok ⟨8, []⟩)) = run (twoSteps (.error "not found")) := by
  have hcreated : ∃ m, Step.next (P := ℚ) ⟨.apply [⟨3, 2⟩], keeping [] (.error "not found"), "nine"⟩
      none = some m := ⟨_, rfl⟩
  have hstarts : Along (fun state (step : Step ℚ) => step.next state) (StartsIn {"7"}) none
      (twoSteps (.error "not found")) := by
    refine ⟨?_, ?_, trivial⟩
    · rintro - id ⟨order, horder, rfl⟩
      cases horder
      rfl
    · obtain ⟨m, hm⟩ := hcreated
      intro hnone
      cases hm.symm.trans hnone
  refine run_confined hstarts (.cons ?_ (.cons ?_ .nil)) <;>
    refine ⟨rfl, rfl, rfl, ?_, ?_, fun _ _ => rfl⟩ <;> rintro id rfl <;> rfl

end OrderResource

end SideProjects
