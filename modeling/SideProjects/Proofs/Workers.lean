import SideProjects.Workers

/-!
# What a worker leaves behind

Both workers end a round with the flags settled. A `TokenWorker` returns only from inside a round,
so it always leaves them settled. An `AtomicWorker` looks at the flag before its first round: told
to stop before it first looks, it returns without a round, and its work is never done
(`atomicWorker_stopped_first`).
-/

namespace SideProjects

namespace Workers

namespace AtomicWorker

/-- What the flags are at each point, `begun` saying that the worker has found the flag clear. -/
def Inv (begun : Bool) (s : State) : Prop :=
  match s.point with
  | .loadStop => s.flags = ⟨false, begun⟩
  | .returned => s.flags = ⟨false, begun⟩
  | .storeDoing => begun = true
  | .storeNotDone => begun = true
  | .sleep => begun = true
  | .storeDone => begun = true
  | .storeNotDoing => begun = true ∧ s.flags.workIsDone = true

theorem step_inv {begun : Bool} {s : State} (move : Move) (h : Inv begun s)
    (hbegun : s.point = .loadStop → s.stopSignal = true ∨ begun = true) :
    Inv begun (step s move) := by
  cases move with
  | stop => exact h
  | doWork =>
    obtain ⟨flags, stopSignal, point⟩ := s
    cases point with
    | loadStop =>
      rcases stopSignal with _ | _
      · exact (hbegun rfl).resolve_left (by simp)
      · exact h
    | storeDoing => exact h
    | storeNotDone => exact h
    | sleep => exact h
    | storeDone => exact ⟨h, rfl⟩
    | storeNotDoing =>
      obtain ⟨rfl, hdone⟩ := h
      show (⟨false, flags.workIsDone⟩ : Flags) = _
      rw [hdone]
    | returned => exact h

theorem step_stopSignal {s : State} (move : Move) (h : s.stopSignal = true) :
    (step s move).stopSignal = true := by
  cases move with
  | stop => rfl
  | doWork =>
    obtain ⟨flags, stopSignal, point⟩ := s
    cases point <;> exact h

/-- A worker that has looked at the flag once while it was clear. -/
theorem inv_of_begun {s : State} (h : Inv true s) (moves : List Move) :
    Inv true (moves.foldl step s) :=
  List.foldlRecOn moves step h fun _ h move _ => step_inv move h fun _ => .inr rfl

/-- A worker that finds the flag set when it first looks. -/
theorem inv_of_stopped {s : State} (h : Inv false s) (hs : s.stopSignal = true)
    (moves : List Move) : Inv false (moves.foldl step s) := by
  have := List.foldlRecOn (motive := fun s => Inv false s ∧ s.stopSignal = true) moves step ⟨h, hs⟩
    fun _ h move _ => ⟨step_inv move h.1 fun _ => .inl h.2, step_stopSignal move h.2⟩
  exact this.1

theorem flags_of_returned {begun : Bool} {s : State} (h : Inv begun s) (hr : s.point = .returned) :
    s.flags = ⟨false, begun⟩ := by
  rwa [Inv, hr] at h

theorem run_settled {moves : List Move} (hr : (run moves).point = .returned) :
    (run moves).flags.settled ↔ moves.head? ≠ some .stop := by
  rcases moves with _ | ⟨_ | _, moves⟩
  · cases hr
  · have h := flags_of_returned (inv_of_begun (s := step new .doWork) rfl moves) hr
    rw [run, List.foldl_cons, h]
    simp [Flags.settled]
  · have h := flags_of_returned (inv_of_stopped (s := step new .stop) rfl rfl moves) hr
    rw [run, List.foldl_cons, h]
    simp [Flags.settled]

end AtomicWorker

namespace TokenWorker

/-- What the flags are at each point. -/
def Inv (s : State) : Prop :=
  match s.point with
  | .sleptNotDoing => s.flags.workIsDone = true
  | .cancelledNotDoing => s.flags.workIsDone = true
  | .returned => s.flags = ⟨false, true⟩
  | _ => True

theorem step_inv {s : State} (move : Move) (h : Inv s) : Inv (step s move) := by
  cases move with
  | cancel => exact h
  | doWork first =>
    obtain ⟨flags, cancelled, point⟩ := s
    cases point with
    | storeDoing => trivial
    | storeNotDone => trivial
    | select =>
      cases first with
      | sleep => trivial
      | cancelled => cases cancelled <;> trivial
    | sleptDone => exact rfl
    | sleptNotDoing => trivial
    | cancelledDone => exact rfl
    | cancelledNotDoing =>
      show (⟨false, flags.workIsDone⟩ : Flags) = _
      rw [show flags.workIsDone = true from h]
    | returned => exact h

theorem run_settled {moves : List Move} (hr : (run moves).point = .returned) :
    (run moves).flags.settled := by
  have h : Inv (run moves) :=
    List.foldlRecOn moves step trivial fun _ h move _ => step_inv move h
  rw [Inv, hr] at h
  rw [h]
  rfl

end TokenWorker

/-- Whatever the moves of the two sides, a `TokenWorker` that returns has settled its flags. An
`AtomicWorker` that returns has if, and only if, it first looked at the flag before the flag was
set. -/
theorem doWork_settled (tokenMoves : List TokenWorker.Move) (moves : List AtomicWorker.Move) :
    ((TokenWorker.run tokenMoves).point = .returned →
      (TokenWorker.run tokenMoves).flags.settled) ∧
      ((AtomicWorker.run moves).point = .returned →
        ((AtomicWorker.run moves).flags.settled ↔ moves.head? ≠ some .stop)) :=
  ⟨TokenWorker.run_settled, AtomicWorker.run_settled⟩

/-- Told to stop in the middle of their first rounds. -/
theorem doWork_settled_mid_round :
    (TokenWorker.run [.doWork .sleep, .cancel, .doWork .sleep, .doWork .cancelled, .doWork .sleep,
        .doWork .sleep]).flags.settled ∧
      (AtomicWorker.run [.doWork, .doWork, .stop, .doWork, .doWork, .doWork, .doWork,
        .doWork]).flags.settled :=
  ⟨(doWork_settled _ []).1 rfl, ((doWork_settled [] _).2 rfl).mpr (by decide)⟩

/-- Told to stop before it first looks, an `AtomicWorker` returns with its work not done. -/
theorem atomicWorker_stopped_first :
    (AtomicWorker.run [.stop, .doWork]).point = .returned ∧
      (AtomicWorker.run [.stop, .doWork]).flags.workIsDone = false ∧
      ¬ ∀ moves, (AtomicWorker.run moves).point = .returned →
        (AtomicWorker.run moves).flags.settled :=
  ⟨rfl, rfl, fun h => absurd (h [.stop, .doWork] rfl) (by decide)⟩

end Workers

end SideProjects
