import Mathlib.Data.Nat.Notation
import Mathlib.Logic.Function.Basic

/-!
# The spin locks

`algorithms-data-structures/rust/spin-lock/src/main.rs` and `spin-lock-2/src/main.rs`. In the first
a thread calls `lock`, changes the shared value and calls `unlock`; in the second `lock` returns a
guard, and dropping it at the end of the round is what unlocks.

A swap of the flag, a store to it, and a read or write of the data are a step each, and the threads
take their steps in any order. `deref` and `deref_mut` only hand out a pointer.
-/

namespace SideProjects

/-- The flag, and the data behind it. -/
structure SpinLock (T : Type*) where
  lock : Bool
  data : T

namespace SpinLock

variable {T : Type*} {ι : Type*}

def new (data : T) : SpinLock T := ⟨false, data⟩

/-- A turn of the loop of `lock`, which ends once the flag was false. -/
def swap (s : SpinLock T) : Bool × SpinLock T := (s.lock, { s with lock := true })

def unlock (s : SpinLock T) : SpinLock T := { s with lock := false }

/-- `LockGuard::drop`. -/
def dropGuard (s : SpinLock T) : SpinLock T := { s with lock := false }

inductive Version
  | spinLock
  | spinLock2
  deriving DecidableEq, Repr

/-- How a round ends. -/
def Version.release : Version → SpinLock T → SpinLock T
  | .spinLock => unlock
  | .spinLock2 => dropGuard

/-- Where a thread is, and how many rounds it has yet to begin. -/
inductive Thread (T : Type*)
  /-- In the loop of `lock`, or finished if no round is left. -/
  | locking (left : ℕ)
  | reading (left : ℕ)
  | writing (left : ℕ) (value : T)
  | releasing (left : ℕ)
  deriving DecidableEq, Repr

structure State (T ι : Type*) where
  shared : SpinLock T
  threads : ι → Thread T

def State.init (data : T) (rounds : ι → ℕ) : State T ι := ⟨.new data, fun i => .locking (rounds i)⟩

variable [DecidableEq ι]

/-- The next step of thread `i`, which writes back what `update` makes of the value it has read. -/
def State.step (version : Version) (update : ι → ℕ → T → T) (s : State T ι) (i : ι) : State T ι :=
  match s.threads i with
  | .locking 0 => s
  | .locking (left + 1) =>
    let (taken, shared) := s.shared.swap
    if taken then { s with shared }
    else ⟨shared, Function.update s.threads i (.reading left)⟩
  | .reading left => { s with threads := Function.update s.threads i (.writing left s.shared.data) }
  | .writing left value =>
    ⟨{ s.shared with data := update i left value }, Function.update s.threads i (.releasing left)⟩
  | .releasing left => ⟨version.release s.shared, Function.update s.threads i (.locking left)⟩

/-- The state an interleaving leads to: the list says whose turn it is. -/
def run (version : Version) (update : ι → ℕ → T → T) (data : T) (rounds : ι → ℕ)
    (schedule : List ι) : State T ι :=
  schedule.foldl (State.step version update) (.init data rounds)

/-- From the swap that took the lock to the store that frees it. -/
def Thread.inside : Thread T → Bool
  | .locking _ => false
  | _ => true

def Thread.finished : Thread T → Bool
  | .locking 0 => true
  | _ => false

end SpinLock

end SideProjects
