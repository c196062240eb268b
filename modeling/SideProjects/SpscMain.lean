import SideProjects.Spsc

/-!
# The program of the SPSC queue

`main` of `algorithms-data-structures/rust/spsc-queue/src/main.rs`. One thread pushes the items, each
until the queue takes it, and the other pops until it has that many. What the second prints is what
`pop` has returned to it.
-/

namespace SideProjects

namespace SpscQueue

/-- The threads of `main`. -/
inductive Party
  | producer
  | consumer
  deriving DecidableEq, Repr

/-- The queue, and what is left of the loops. -/
structure Main (α : Type*) where
  state : State α
  toPush : List α
  toPop : ℕ

namespace Main

variable {α : Type*}

def init (capacity : UInt64) (items : List α) : Main α := ⟨.init capacity, items, items.length⟩

/-- `while !queue.push(i) {}`, for one item after the other. -/
def producerStep (m : Main α) : Main α :=
  match m.toPush with
  | [] => m
  | item :: rest =>
    { m with
      state := m.state.pushStep item
      toPush := if m.state.pushAnswer = some true then rest else m.toPush }

/-- The loop that pops until there is an item. A slot that holds none would be undefined. -/
def consumerStep (m : Main α) : Main α :=
  match m.toPop with
  | 0 => m
  | left + 1 =>
    match m.state.popAnswer with
    | some (some _) => { m with state := m.state.popStep, toPop := left }
    | _ => { m with state := m.state.popStep }

def step (m : Main α) : Party → Main α
  | .producer => m.producerStep
  | .consumer => m.consumerStep

/-- The state an interleaving leads to. -/
def run (capacity : UInt64) (items : List α) (schedule : List Party) : Main α :=
  schedule.foldl step (init capacity items)

/-- Both threads have been joined. -/
def Finished (m : Main α) : Prop := m.toPush = [] ∧ m.toPop = 0

end Main

end SpscQueue

end SideProjects
