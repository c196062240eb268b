import SideProjects.OrderResource

/-!
# The life of an order resource

The rest of `orderResource`: `Delete`, `ImportState` and what `Schema` says of a plan. Terraform calls
the methods in turn: an apply creates the order if there is none in its state and updates it otherwise,
and what the method gives back is the next state. A method that panics leaves the state as it was. The
server may answer every call as it likes, so each step brings one of its own.
-/

namespace SideProjects

namespace OrderResource

structure Server (P : Type*) extends Client P where
  deleteOrder : String → Except String Unit

/-! ## Plans -/

/-- An item of the configuration, which says no more than the schema requires. -/
structure ConfigItem where
  coffee : Int64
  quantity : Int64
  deriving DecidableEq, Repr

/-- `UseStateForUnknown`, on a plan that does not know the value. -/
def Value.useState {α : Type*} : Value α → Value α
  | .null => .unknown
  | v => v

variable {P : Type*}

/-- What is computed is not known before the apply. -/
def planItem (item : ConfigItem) : OrderItemModel P where
  coffee :=
    { id := .known item.coffee
      name := .unknown
      teaser := .unknown
      description := .unknown
      price := .unknown
      image := .unknown }
  quantity := .known item.quantity

/-- The plan of an apply. Only the identifier is taken from the state. -/
def plan (state : Option (OrderResourceModel P)) (config : List ConfigItem) :
    OrderResourceModel P where
  id := (state.elim .null (·.id)).useState
  items := config.map planItem
  lastUpdated := .unknown

/-! ## Methods -/

/-- The framework takes the state away if there is no error. -/
def delete (server : Server P) (state : OrderResourceModel P) : Response P :=
  match server.deleteOrder (state.id.getD "") with
  | .error err =>
    ⟨some state, [⟨"Error Deleting HashiCups Order",
      "Could not delete order, unexpected error: " ++ err⟩]⟩
  | .ok () => ⟨none, []⟩

/-- `ImportStatePassthroughID`. -/
def importState (id : String) : OrderResourceModel P := ⟨.known id, [], .null⟩

/-! ## Terraform -/

inductive Action
  | apply (config : List ConfigItem)
  | refresh
  | destroy
  | importOrder (id : String)

structure Step (P : Type*) where
  action : Action
  server : Server P
  now : String

section Steps

variable [Zero P]

/-- What the method of a step gives back. An import is read at once, and kept only if that succeeds.
There is nothing to import into a state that is there. -/
def Step.result (step : Step P) (state : Option (OrderResourceModel P)) :
    Except Panic (Response P) :=
  match step.action, state with
  | .apply config, none => create step.server.toClient step.now (plan none config)
  | .apply config, some state =>
    .ok (update step.server.toClient step.now state (plan (some state) config))
  | .refresh, some state => .ok (read step.server.toClient state)
  | .destroy, some state => .ok (delete step.server state)
  | .importOrder id, none =>
    match read step.server.toClient (importState id) with
    | ⟨state, []⟩ => .ok ⟨state, []⟩
    | ⟨_, diagnostics⟩ => .ok ⟨none, diagnostics⟩
  | _, state => .ok ⟨state, []⟩

def Step.next (step : Step P) (state : Option (OrderResourceModel P)) :
    Option (OrderResourceModel P) :=
  match step.result state with
  | .error _ => state
  | .ok response => response.state

/-- What the methods give back one after the other, and the state they leave, from no state on. -/
def run (steps : List (Step P)) :
    List (Except Panic (Response P)) × Option (OrderResourceModel P) :=
  feed (fun state (step : Step P) => (step.result state, step.next state)) none steps

end Steps

end OrderResource

end SideProjects
