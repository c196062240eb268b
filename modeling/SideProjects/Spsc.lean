import Mathlib.Logic.Function.Basic
import Mathlib.Data.List.Basic
import SideProjects.Lib.Linearization

/-!
# The SPSC queue

`algorithms-data-structures/rust/spsc-queue/src/main.rs`. One producer calls `push` and one consumer
calls `pop`; an atomic load, an atomic store and an access to a slot are a step each, and the two
take their steps in any order. A slot is `MaybeUninit`, so it may hold nothing.

Beside the queue the state records what the callers have seen: the items whose `push` has stored
its write index, what `pop` has returned, and the number of the item each slot was written with.
-/

namespace SideProjects

structure SpscQueue (α : Type*) where
  buffer : ℕ → Option α
  capacity : UInt64
  writeIdx : UInt64
  readIdx : UInt64

namespace SpscQueue

variable {α : Type*}

def new (capacity : UInt64) : SpscQueue α := ⟨fun _ => none, capacity, 0, 0⟩

/-- `next_write_idx` and `next_read_idx`. -/
def nextIdx (queue : SpscQueue α) (idx : UInt64) : UInt64 :=
  if idx + 1 = queue.capacity then 0 else idx + 1

/-- How far the producer is in a call of `push`. -/
inductive Push (α : Type*)
  | idle
  | loaded (item : α) (writeIdx : UInt64)
  /-- `read_idx` left room. -/
  | writing (item : α) (writeIdx : UInt64)
  | storing (item : α) (writeIdx : UInt64)

/-- How far the consumer is in a call of `pop`. -/
inductive Pop (α : Type*)
  | idle
  | loaded (readIdx : UInt64)
  /-- `write_idx` was ahead. -/
  | reading (readIdx : UInt64)
  | storing (readIdx : UInt64) (result : Option α)

structure State (α : Type*) where
  queue : SpscQueue α
  push : Push α
  pop : Pop α
  published : List α
  returned : List (Option α)
  number : ℕ → Option ℕ

def State.init (capacity : UInt64) : State α := ⟨.new capacity, .idle, .idle, [], [], fun _ => none⟩

/-- The next step of the producer, which starts to push `item` if it is idle. -/
def State.pushStep (s : State α) (item : α) : State α :=
  match s.push with
  | .idle => { s with push := .loaded item s.queue.writeIdx }
  | .loaded item writeIdx =>
    if s.queue.nextIdx writeIdx ≠ s.queue.readIdx then { s with push := .writing item writeIdx }
    else { s with push := .idle }
  | .writing item writeIdx =>
    { s with
      queue := { s.queue with
        buffer := Function.update s.queue.buffer writeIdx.toNat (some item) }
      number := Function.update s.number writeIdx.toNat (some s.published.length)
      push := .storing item writeIdx }
  | .storing item writeIdx =>
    { s with
      queue := { s.queue with writeIdx := s.queue.nextIdx writeIdx }
      published := s.published ++ [item]
      push := .idle }

/-- The next step of the consumer. -/
def State.popStep (s : State α) : State α :=
  match s.pop with
  | .idle => { s with pop := .loaded s.queue.readIdx }
  | .loaded readIdx =>
    if readIdx = s.queue.writeIdx then { s with pop := .idle }
    else { s with pop := .reading readIdx }
  | .reading readIdx => { s with pop := .storing readIdx (s.queue.buffer readIdx.toNat) }
  | .storing readIdx result =>
    { s with
      queue := { s.queue with readIdx := s.queue.nextIdx readIdx }
      returned := s.returned ++ [result]
      pop := .idle }

/-- Whose turn it is. -/
inductive Turn (α : Type*)
  | producer (item : α)
  | consumer

def State.step (s : State α) : Turn α → State α
  | .producer item => s.pushStep item
  | .consumer => s.popStep

/-- The state an interleaving leads to. -/
def run (capacity : UInt64) (turns : List (Turn α)) : State α :=
  turns.foldl State.step (.init capacity)

/-! ## Calls -/

/-- What `push` returns, if the next step of the producer is its last. -/
def State.pushAnswer (s : State α) : Option Bool :=
  match s.push with
  | .loaded _ writeIdx => if s.queue.nextIdx writeIdx ≠ s.queue.readIdx then none else some false
  | .storing _ _ => some true
  | _ => none

/-- What `pop` returns, if the next step of the consumer is its last. -/
def State.popAnswer (s : State α) : Option (Option α) :=
  match s.pop with
  | .loaded readIdx => if readIdx = s.queue.writeIdx then some none else none
  | .storing _ result => some result
  | _ => none

/-- `push` with nothing in between, unless it takes more than `n` steps. -/
def State.pushWithin (item : α) : ℕ → State α → Option (Bool × State α)
  | 0, _ => none
  | n + 1, s =>
    match s.pushAnswer with
    | some answer => some (answer, s.pushStep item)
    | none => pushWithin item n (s.pushStep item)

def State.popWithin : ℕ → State α → Option (Option α × State α)
  | 0, _ => none
  | n + 1, s =>
    match s.popAnswer with
    | some answer => some (answer, s.popStep)
    | none => popWithin n s.popStep

inductive Call (α : Type*)
  | push (item : α)
  | pop

inductive Answer (α : Type*)
  | pushed (ok : Bool)
  | popped (result : Option α)
  deriving DecidableEq

/-- A call that runs by itself, given up if it takes more than four steps. -/
def State.call (s : State α) : Call α → Except Unit (Answer α × State α)
  | .push item =>
    match s.pushWithin item 4 with
    | none => .error ()
    | some (ok, s) => .ok (.pushed ok, s)
  | .pop =>
    match s.popWithin 4 with
    | none => .error ()
    | some (result, s) => .ok (.popped result, s)

/-- The same call on a queue that takes up to `bound` items. -/
def boundedCall (bound : ℕ) (items : List α) : Call α → Answer α × List α
  | .push item =>
    if items.length < bound then (.pushed true, items ++ [item]) else (.pushed false, items)
  | .pop =>
    match items with
    | [] => (.popped none, [])
    | item :: items => (.popped (some item), items)

/-- The call that a step completes, and what it returns. -/
def State.completes (s : State α) : Turn α → Option (Call α × Answer α)
  | .producer _ =>
    match s.push with
    | .loaded item _ | .storing item _ => s.pushAnswer.map fun ok => (.push item, .pushed ok)
    | _ => none
  | .consumer => s.popAnswer.map fun result => (.pop, .popped result)

/-- The calls of an interleaving, in the order in which they return. -/
def history (capacity : UInt64) (turns : List (Turn α)) : List (Call α × Answer α) :=
  completed State.step State.completes (.init capacity) turns

end SpscQueue

end SideProjects
