import Mathlib.Algebra.BigOperators.Fin
import SideProjects.SpinLock

/-!
# One thread at a time

The flag is set exactly when a thread is inside, and only one ever is (`Inv`): a swap that finds the
flag set changes nothing, one that finds it clear lets in the only thread, and the store is made by
the thread that is inside. So what a thread has read is what the data still are when it writes, and
no increment is lost (`Counts`).
-/

namespace SideProjects

namespace SpinLock

variable {T ι : Type*} [DecidableEq ι]

structure Inv (s : State T ι) : Prop where
  exclusive : ∀ i j, (s.threads i).inside → (s.threads j).inside → i = j
  flag : s.shared.lock = true ↔ ∃ i, (s.threads i).inside
  /-- A value that has been read is still there. -/
  value : ∀ i left v, s.threads i = .writing left v → v = s.shared.data

omit [DecidableEq ι] in
theorem Inv.init (data : T) (rounds : ι → ℕ) : Inv (.init data rounds) where
  exclusive i j h := by simp [State.init, Thread.inside] at h
  flag := by simp [State.init, new, Thread.inside]
  value i left v h := by simp [State.init] at h

section Moves

variable {s : State T ι} {i : ι} {t : Thread T} {shared : SpinLock T}

/-- Nobody is inside, and `i` gets in. -/
theorem Inv.enter (h : Inv s) (hflag : s.shared.lock = false) (ht : t.inside)
    (hlock : shared.lock = true) (hv : ∀ left v, t ≠ .writing left v) :
    Inv ⟨shared, Function.update s.threads i t⟩ := by
  have hnone : ∀ j, (s.threads j).inside = false := by
    intro j
    by_contra hj
    rw [h.flag.mpr ⟨j, by simpa using hj⟩] at hflag
    cases hflag
  have hi : ∀ j, (Function.update s.threads i t j).inside → j = i := by
    intro j hj
    by_contra hne
    rw [Function.update_of_ne hne, hnone j] at hj
    cases hj
  refine ⟨fun j k hj hk => (hi j hj).trans (hi k hk).symm, ?_, fun j left v hj => ?_⟩
  · simp only [hlock, true_iff]
    exact ⟨i, by rwa [Function.update_self]⟩
  · obtain rfl : j = i := hi j (by simp only at hj; rw [hj]; rfl)
    exact absurd (by simpa using hj) (hv left v)

/-- The thread that is inside goes on. -/
theorem Inv.stay (h : Inv s) (hi : (s.threads i).inside) (ht : t.inside)
    (hlock : shared.lock = s.shared.lock) (hv : ∀ left v, t = .writing left v → v = shared.data) :
    Inv ⟨shared, Function.update s.threads i t⟩ := by
  have hin : ∀ j, (Function.update s.threads i t j).inside → j = i := by
    intro j hj
    by_contra hne
    rw [Function.update_of_ne hne] at hj
    exact hne (h.exclusive j i hj hi)
  refine ⟨fun j k hj hk => (hin j hj).trans (hin k hk).symm, ?_, fun j left v hj => ?_⟩
  · rw [hlock, h.flag.mpr ⟨i, hi⟩]
    simp only [true_iff]
    exact ⟨i, by rwa [Function.update_self]⟩
  · obtain rfl : j = i := hin j (by simp only at hj; rw [hj]; rfl)
    exact hv left v (by simpa using hj)

/-- The thread that is inside goes out, and nobody is left. -/
theorem Inv.leave (h : Inv s) (hi : (s.threads i).inside) (ht : t.inside = false)
    (hlock : shared.lock = false) : Inv ⟨shared, Function.update s.threads i t⟩ := by
  have hnone : ∀ j, (Function.update s.threads i t j).inside = false := by
    intro j
    by_cases hj : j = i
    · rw [hj, Function.update_self, ht]
    · rw [Function.update_of_ne hj]
      by_contra hin
      exact hj (h.exclusive j i (by simpa using hin) hi)
  refine ⟨fun j k hj => ?_, ?_, fun j left v hj => ?_⟩
  · simp [hnone] at hj
  · simp [hlock, hnone]
  · have := hnone j
    simp only at hj
    rw [hj] at this
    cases this

end Moves

theorem step_inv (version : Version) (update : ι → ℕ → T → T) {s : State T ι} (i : ι) (h : Inv s) :
    Inv (s.step version update i) := by
  unfold State.step
  rcases ht : s.threads i with (_ | left) | left | ⟨left, value⟩ | left
  · exact h
  · rcases hflag : s.shared.lock with _ | _
    · simp only [swap, hflag, Bool.false_eq_true, if_false]
      exact h.enter hflag rfl rfl (by simp)
    · have hshared : { s.shared with lock := true } = s.shared := by rw [← hflag]
      simp only [swap, hflag, if_true, hshared]
      exact h
  · refine h.stay (by rw [ht]; rfl) rfl rfl ?_
    rintro _ v ⟨⟩
    rfl
  · exact h.stay (by rw [ht]; rfl) rfl rfl (by simp)
  · exact h.leave (by rw [ht]; rfl) rfl (by cases version <;> rfl)

theorem run_inv (version : Version) (update : ι → ℕ → T → T) (data : T) (rounds : ι → ℕ)
    (schedule : List ι) : Inv (run version update data rounds schedule) :=
  List.foldlRecOn schedule _ (Inv.init data rounds) fun _ h i _ => step_inv version update i h

/-! ## The counter -/

/-- The increments a thread has yet to write. -/
def Thread.toWrite : Thread T → ℕ
  | .locking left => left
  | .reading left => left + 1
  | .writing left _ => left + 1
  | .releasing left => left

theorem toWrite_of_finished : ∀ {t : Thread T}, t.finished → t.toWrite = 0
  | .locking 0, _ => rfl

section Counter

variable [Fintype ι] [AddMonoidWithOne T] {data : T} {rounds : ι → ℕ}

/-- The data count the increments that have been written. -/
def Counts (data : T) (rounds : ι → ℕ) (s : State T ι) : Prop :=
  ∃ written : ℕ, s.shared.data = data + written ∧
    written + ∑ i, (s.threads i).toWrite = ∑ i, rounds i

omit [AddMonoidWithOne T] in
theorem sum_toWrite_update {threads : ι → Thread T} {i : ι} {t : Thread T} (ht : threads i = t)
    (t' : Thread T) :
    ∑ j, (Function.update threads i t' j).toWrite + t.toWrite =
      ∑ j, (threads j).toWrite + t'.toWrite := by
  have hrest : ∑ j ∈ Finset.univ.erase i, (Function.update threads i t' j).toWrite =
      ∑ j ∈ Finset.univ.erase i, (threads j).toWrite :=
    Finset.sum_congr rfl fun j hj => by rw [Function.update_of_ne (Finset.ne_of_mem_erase hj)]
  rw [← Finset.sum_erase_add _ _ (Finset.mem_univ i), hrest, Function.update_self,
    ← Finset.sum_erase_add Finset.univ (fun j => (threads j).toWrite) (Finset.mem_univ i), ht]
  omega

theorem step_counts (version : Version) {s : State T ι} (i : ι) (h : Inv s)
    (hc : Counts data rounds s) :
    Counts data rounds (s.step version (fun _ _ v => v + 1) i) := by
  obtain ⟨written, hdata, hsum⟩ := hc
  unfold State.step
  rcases ht : s.threads i with (_ | left) | left | ⟨left, value⟩ | left
  · exact ⟨written, hdata, hsum⟩
  · rcases hflag : s.shared.lock with _ | _
    · simp only [swap, hflag, Bool.false_eq_true, if_false]
      have hw : _ + (left + 1) = _ + (left + 1) := sum_toWrite_update ht (.reading left)
      exact ⟨written, hdata, by rw [← hsum, Nat.add_right_cancel hw]⟩
    · simp only [swap, hflag, if_true]
      exact ⟨written, hdata, hsum⟩
  · have hw : _ + (left + 1) = _ + (left + 1) :=
      sum_toWrite_update ht (.writing left s.shared.data)
    exact ⟨written, hdata, by rw [← hsum, Nat.add_right_cancel hw]⟩
  · -- The value that was read is the data, so the increment is not lost.
    have hw : _ + (left + 1) = _ + left := sum_toWrite_update ht (.releasing left)
    refine ⟨written + 1, ?_, ?_⟩
    · show value + 1 = _
      rw [h.value i left value ht, hdata, Nat.cast_succ, add_assoc]
    · simp only
      omega
  · have hw : _ + left = _ + left := sum_toWrite_update ht (.locking left)
    refine ⟨written, ?_, by rw [← hsum, Nat.add_right_cancel hw]⟩
    cases version <;> exact hdata

theorem run_counts (version : Version) (data : T) (rounds : ι → ℕ) (schedule : List ι) :
    Counts data rounds (run version (fun _ _ v => v + 1) data rounds schedule) := by
  have h := List.foldlRecOn (motive := fun s => Inv s ∧ Counts data rounds s) schedule
    (State.step version fun _ _ v => v + 1)
    ⟨Inv.init data rounds, 0, by simp [State.init, new], by simp [State.init, Thread.toWrite]⟩
    fun s h i _ => ⟨step_inv version _ i h.1, step_counts version i h.1 h.2⟩
  exact h.2

end Counter

/-- However the threads interleave, at most one is inside, the flag says whether one is, and when all
have finished their rounds, each of which added one, none of the increments is lost. -/
theorem run_excludes [Fintype ι] [AddMonoidWithOne T] (version : Version)
    (update : ι → ℕ → T → T) (data : T) (rounds : ι → ℕ) (schedule : List ι) :
    (∀ i j, ((run version update data rounds schedule).threads i).inside →
        ((run version update data rounds schedule).threads j).inside → i = j) ∧
      ((run version update data rounds schedule).shared.lock = true ↔
        ∃ i, ((run version update data rounds schedule).threads i).inside) ∧
      ((∀ i, ((run version (fun _ _ v => v + 1) data rounds schedule).threads i).finished) →
        (run version (fun _ _ v => v + 1) data rounds schedule).shared.data =
          data + ((∑ i, rounds i : ℕ) : T)) := by
  have hinv := run_inv version update data rounds schedule
  refine ⟨hinv.exclusive, hinv.flag, fun hfin => ?_⟩
  obtain ⟨written, hdata, hsum⟩ := run_counts version data rounds schedule
  rw [Finset.sum_eq_zero fun i _ => toWrite_of_finished (hfin i), Nat.add_zero] at hsum
  rw [hdata, hsum]

/-- Two threads, the second spinning while the first is inside. -/
theorem run_excludes_two :
    let s := run .spinLock2 (fun _ _ v => v + 1) (0 : ℤ) ![1, 2]
      [0, 1, 0, 1, 0, 0, 1, 1, 1, 1, 1, 1, 1, 1]
    (∀ i, (s.threads i).finished) ∧ s.shared.data = 0 + ((∑ i, ![1, 2] i : ℕ) : ℤ) ∧
      s.shared.data = 3 :=
  have h : ∀ i, ((run .spinLock2 (fun _ _ v => v + 1) (0 : ℤ) ![1, 2]
      [0, 1, 0, 1, 0, 0, 1, 1, 1, 1, 1, 1, 1, 1]).threads i).finished := by decide
  ⟨h, (run_excludes .spinLock2 (fun _ _ v => v + 1) (0 : ℤ) ![1, 2]
    [0, 1, 0, 1, 0, 0, 1, 1, 1, 1, 1, 1, 1, 1]).2.2 h, rfl⟩

end SpinLock

end SideProjects
