import Mathlib.Algebra.Order.Ring.Int
import SideProjects.Lib.Runs

/-!
# The order resource

`terraform-provider-hashicups`: `Create`, `Read` and `Update` of `orderResource`. The framework hands
a plan or a state over and takes a state back, and the client returns what the server answers. A price
is only copied, so it may be of any type.
-/

namespace SideProjects

namespace OrderResource

/-! ## The client -/

structure Coffee (P : Type*) where
  id : Int64
  name : String
  teaser : String
  description : String
  price : P
  image : String
  deriving DecidableEq, Repr

structure OrderItem (P : Type*) where
  coffee : Coffee P
  quantity : Int64
  deriving DecidableEq, Repr

structure Order (P : Type*) where
  id : Int64
  items : List (OrderItem P)
  deriving DecidableEq, Repr

structure Client (P : Type*) where
  createOrder : List (OrderItem P) → Except String (Order P)
  getOrder : String → Except String (Order P)
  updateOrder : String → List (OrderItem P) → Except String (Order P)

/-! ## The framework -/

/-- A value of `types.String` and its like. -/
inductive Value (α : Type*)
  | null
  | unknown
  | known (a : α)
  deriving DecidableEq, Repr

/-- `ValueString` and its like: the zero of the type unless there is a value. -/
def Value.getD {α : Type*} : Value α → α → α
  | .known a, _ => a
  | _, zero => zero

structure OrderItemCoffeeModel (P : Type*) where
  id : Value Int64
  name : Value String
  teaser : Value String
  description : Value String
  price : Value P
  image : Value String
  deriving DecidableEq, Repr

structure OrderItemModel (P : Type*) where
  coffee : OrderItemCoffeeModel P
  quantity : Value Int64
  deriving DecidableEq, Repr

structure OrderResourceModel (P : Type*) where
  id : Value String
  items : List (OrderItemModel P)
  lastUpdated : Value String
  deriving DecidableEq, Repr

structure Diagnostic where
  summary : String
  detail : String
  deriving DecidableEq, Repr

structure Response (P : Type*) where
  state : Option (OrderResourceModel P)
  diagnostics : List Diagnostic
  deriving DecidableEq, Repr

inductive Panic
  | indexOutOfRange (index length : ℕ)
  deriving DecidableEq, Repr

/-! ## The resource -/

variable {P : Type*}

def orderItemModel (item : OrderItem P) : OrderItemModel P where
  coffee :=
    { id := .known item.coffee.id
      name := .known item.coffee.name
      teaser := .known item.coffee.teaser
      description := .known item.coffee.description
      price := .known item.coffee.price
      image := .known item.coffee.image }
  quantity := .known item.quantity

/-- The items of the request. All but the number of a coffee is left at its zero. -/
def orderItems [Zero P] (items : List (OrderItemModel P)) : List (OrderItem P) :=
  items.map fun item =>
    { coffee := ⟨item.coffee.id.getD 0, "", "", "", 0, ""⟩
      quantity := item.quantity.getD 0 }

/-- The loop of `Create`: `plan.Items[orderItemIndex] = ..` from this index on. -/
def overwriteItems : ℕ → List (OrderItem P) → List (OrderItemModel P) →
    Except Panic (List (OrderItemModel P))
  | _, [], items => .ok items
  | i, orderItem :: orderItems, items =>
    if i < items.length then
      overwriteItems (i + 1) orderItems (items.set i (orderItemModel orderItem))
    else .error (.indexOutOfRange i items.length)

/-- `strconv.Itoa`. -/
def itoa (n : Int64) : String := toString n.toInt

section Methods

variable [Zero P] (client : Client P) (now : String)

def create (plan : OrderResourceModel P) : Except Panic (Response P) :=
  match client.createOrder (orderItems plan.items) with
  | .error err =>
    .ok ⟨none, [⟨"Error creating order", "Could not create order, unexpected error: " ++ err⟩]⟩
  | .ok order => do
    let items ← overwriteItems 0 order.items plan.items
    .ok ⟨some { id := .known (itoa order.id), items, lastUpdated := .known now }, []⟩

/-- The identifier and the time stay as they are. -/
def read (state : OrderResourceModel P) : Response P :=
  match client.getOrder (state.id.getD "") with
  | .error err =>
    ⟨some state, [⟨"Error Reading HashiCups Order",
      "Could not read HashiCups order ID " ++ state.id.getD "" ++ ": " ++ err⟩]⟩
  | .ok order => ⟨some { state with items := order.items.map orderItemModel }, []⟩

def update (state plan : OrderResourceModel P) : Response P :=
  match client.updateOrder (plan.id.getD "") (orderItems plan.items) with
  | .error err =>
    ⟨some state, [⟨"Error Updating HashiCups Order",
      "Could not update order, unexpected error: " ++ err⟩]⟩
  | .ok _ =>
    match client.getOrder (plan.id.getD "") with
    | .error err =>
      ⟨some state, [⟨"Error Reading HashiCups Order",
        "Could not read HashiCups order ID " ++ plan.id.getD "" ++ ": " ++ err⟩]⟩
    | .ok order =>
      ⟨some { plan with items := order.items.map orderItemModel, lastUpdated := .known now }, []⟩

end Methods

end OrderResource

end SideProjects
