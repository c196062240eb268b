import Mathlib.Data.List.Basic

/-!
# The workers

`experiments/rust-tokio-shutdowns/src/worker.rs`. A worker goes round until it is told to stop: an
`AtomicWorker` by a flag it looks at before each round, a `TokenWorker` by a token it waits for
together with the end of the round. The other side may set the flag, or cancel the token, between
any two steps of the worker; an atomic load or store is a step, and so is the end of an `await`.
-/

namespace SideProjects

namespace Workers

/-- The two flags of a worker. -/
structure Flags where
  isDoingWork : Bool
  workIsDone : Bool
  deriving DecidableEq, Repr

/-- What is asserted once the worker has been awaited. -/
def Flags.settled (flags : Flags) : Bool := flags.workIsDone && !flags.isDoingWork

/-! ## The flag -/

namespace AtomicWorker

/-- The next step of `do_work`. -/
inductive Point
  | loadStop
  | storeDoing
  | storeNotDone
  | sleep
  | storeDone
  | storeNotDoing
  | returned
  deriving DecidableEq, Repr

structure State where
  flags : Flags
  stopSignal : Bool
  point : Point
  deriving DecidableEq, Repr

def new : State := ⟨⟨false, false⟩, false, .loadStop⟩

def doWork (s : State) : State :=
  match s.point with
  | .loadStop => { s with point := if s.stopSignal then .returned else .storeDoing }
  | .storeDoing => { s with flags.isDoingWork := true, point := .storeNotDone }
  | .storeNotDone => { s with flags.workIsDone := false, point := .sleep }
  | .sleep => { s with point := .storeDone }
  | .storeDone => { s with flags.workIsDone := true, point := .storeNotDoing }
  | .storeNotDoing => { s with flags.isDoingWork := false, point := .loadStop }
  | .returned => s

inductive Move
  | doWork
  | stop
  deriving DecidableEq, Repr

def step (s : State) : Move → State
  | .doWork => doWork s
  | .stop => { s with stopSignal := true }

def run (moves : List Move) : State := moves.foldl step new

end AtomicWorker

/-! ## The token -/

namespace TokenWorker

/-- The next step of `do_work`; the stores after `select!` are written out for each branch. -/
inductive Point
  | storeDoing
  | storeNotDone
  | select
  | sleptDone
  | sleptNotDoing
  | cancelledDone
  | cancelledNotDoing
  | returned
  deriving DecidableEq, Repr

/-- The branches of `select!`. -/
inductive Branch
  | sleep
  | cancelled
  deriving DecidableEq, Repr

structure State where
  flags : Flags
  cancelled : Bool
  point : Point
  deriving DecidableEq, Repr

def new : State := ⟨⟨false, false⟩, false, .storeDoing⟩

/-- A step, `first` being the branch that `select!` finds ready. The token's branch is ready only
once the token is cancelled. -/
def doWork (s : State) (first : Branch) : State :=
  match s.point with
  | .storeDoing => { s with flags.isDoingWork := true, point := .storeNotDone }
  | .storeNotDone => { s with flags.workIsDone := false, point := .select }
  | .select =>
    match first with
    | .sleep => { s with point := .sleptDone }
    | .cancelled => if s.cancelled then { s with point := .cancelledDone } else s
  | .sleptDone => { s with flags.workIsDone := true, point := .sleptNotDoing }
  | .sleptNotDoing => { s with flags.isDoingWork := false, point := .storeDoing }
  | .cancelledDone => { s with flags.workIsDone := true, point := .cancelledNotDoing }
  | .cancelledNotDoing => { s with flags.isDoingWork := false, point := .returned }
  | .returned => s

inductive Move
  | doWork (first : Branch)
  | cancel
  deriving DecidableEq, Repr

def step (s : State) : Move → State
  | .doWork first => doWork s first
  | .cancel => { s with cancelled := true }

def run (moves : List Move) : State := moves.foldl step new

end TokenWorker

end Workers

end SideProjects
