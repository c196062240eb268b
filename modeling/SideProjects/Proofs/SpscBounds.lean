import SideProjects.Proofs.Spsc

/-!
# When the SPSC queue refuses, and where it writes

Full and empty are told by comparing indices, and the comparison is exact at the moment it is made:
the index that was loaded earlier is the caller's own, which nobody else moves. So `push` refuses
only with `capacity - 1` items waiting and `pop` only with none, and calls one after the other are
those of a queue that takes up to `capacity - 1` items (`run_refuses`).

Indices stay below the capacity, unless it is zero: then no index is ever equal to it, and already
the first `push` writes behind the buffer (`run_inBounds_iff`).
-/

namespace SideProjects

namespace SpscQueue

variable {α : Type*} {s : State α}

theorem step_capacity (s : State α) (turn : Turn α) :
    (s.step turn).queue.capacity = s.queue.capacity := by
  cases turn with
  | producer item =>
    show (s.pushStep item).queue.capacity = _
    unfold State.pushStep
    split
    · rfl
    · split_ifs <;> rfl
    · rfl
    · rfl
  | consumer =>
    show s.popStep.queue.capacity = _
    unfold State.popStep
    split
    · rfl
    · split_ifs <;> rfl
    · rfl
    · rfl

theorem run_capacity (capacity : UInt64) (turns : List (Turn α)) :
    (run capacity turns).queue.capacity = capacity :=
  List.foldlRecOn (motive := fun s : State α => s.queue.capacity = capacity) turns State.step rfl
    fun s hs turn _ => (step_capacity s turn).trans hs

namespace State

/-- The items that are published and not yet returned. -/
def waiting (s : State α) : List α := s.published.drop s.returned.length

/-! ## Refusals -/

/-- `push` refuses if its comparison finds the queue full, which it then is. -/
theorem Inv.full (h : s.Inv) (he : s.queue.nextIdx s.queue.writeIdx = s.queue.readIdx) :
    s.published.length = s.returned.length + (s.cap - 1) := by
  have hpos := h.pos
  have hfits := h.fits
  have hbehind := h.behind
  have hmod : s.returned.length % s.cap = (s.published.length + 1) % s.cap := by
    rw [← h.nextWrite, he, h.readIdx]
  rcases Nat.lt_or_ge (s.published.length + 1) (s.returned.length + s.cap) with hlt | hge
  · have := Ring.eq_of_mod_eq hmod (by omega) hlt
    omega
  · omega

/-- `pop` refuses if its comparison finds the queue empty, which it then is. -/
theorem Inv.empty (h : s.Inv) (he : s.queue.readIdx = s.queue.writeIdx) :
    s.returned.length = s.published.length := by
  have hmod : s.returned.length % s.cap = s.published.length % s.cap := by
    rw [← h.readIdx, he, h.writeIdx]
  exact Ring.eq_of_mod_eq hmod h.behind h.fits

theorem Inv.of_pushAnswer (h : s.Inv) (hr : s.pushAnswer = some false) :
    s.published.length = s.returned.length + (s.cap - 1) := by
  have hok := h.push
  unfold pushAnswer at hr
  unfold PushOk at hok
  split at hr
  · rename_i item writeIdx hp
    rw [hp] at hok
    obtain rfl := hok
    split_ifs at hr with hne
    exact h.full (not_not.mp hne)
  · cases hr
  · cases hr

theorem Inv.of_popAnswer (h : s.Inv) (hr : s.popAnswer = some none) :
    s.returned.length = s.published.length := by
  have hok := h.pop
  unfold popAnswer at hr
  unfold PopOk at hok
  split at hr
  · rename_i readIdx hp
    rw [hp] at hok
    obtain rfl := hok
    split_ifs at hr with he
    exact h.empty he
  · rename_i readIdx result hp
    rw [hp] at hok
    obtain ⟨-, hlt, rfl⟩ := hok
    rw [List.getElem?_eq_getElem hlt] at hr
    cases hr
  · cases hr

/-! ## Calls one after the other -/

/-- Between calls. -/
structure Idle (capacity : UInt64) (s : State α) : Prop where
  inv : s.Inv
  capacity : s.queue.capacity = capacity
  push : s.push = .idle
  pop : s.pop = .idle

/-- A call that runs by itself is that of the bounded queue. -/
def Simulates (capacity : UInt64) (s : State α) (call : Call α) : Prop :=
  ∃ s', s.call call = .ok ((boundedCall (capacity.toNat - 1) s.waiting call).1, s') ∧
    Idle capacity s' ∧ s'.waiting = (boundedCall (capacity.toNat - 1) s.waiting call).2

theorem Idle.call_push {capacity : UInt64} (h : Idle capacity s) (item : α) :
    Simulates capacity s (.push item) := by
  obtain ⟨hinv, rfl, hpush, hpop⟩ := h
  unfold Simulates
  have hlen : s.waiting.length = s.published.length - s.returned.length := List.length_drop
  have hbehind := hinv.behind
  have hpos := hinv.pos
  by_cases hroom : s.queue.nextIdx s.queue.writeIdx ≠ s.queue.readIdx
  · have hlt := hinv.room hroom
    have hless : s.waiting.length < s.cap - 1 := by omega
    have hend := (((hinv.pushStep item).pushStep item).pushStep item).pushStep item
    simp only [pushStep, hpush, if_pos hroom] at hend
    simp only [State.call, pushWithin, pushAnswer, pushStep, hpush, if_pos hroom, boundedCall,
      if_pos hless]
    exact ⟨_, rfl, ⟨hend, rfl, rfl, hpop⟩, List.drop_append_of_le_length hbehind⟩
  · have hfull := hinv.full (not_not.mp hroom)
    have hless : ¬ s.waiting.length < s.cap - 1 := by omega
    have hend := (hinv.pushStep item).pushStep item
    simp only [pushStep, hpush, if_neg hroom] at hend
    simp only [State.call, pushWithin, pushAnswer, pushStep, hpush, if_neg hroom, boundedCall,
      if_neg hless]
    exact ⟨_, rfl, ⟨hend, rfl, rfl, hpop⟩, rfl⟩

theorem Idle.call_pop {capacity : UInt64} (h : Idle capacity s) :
    Simulates capacity s .pop := by
  obtain ⟨hinv, rfl, hpush, hpop⟩ := h
  unfold Simulates
  by_cases he : s.queue.readIdx = s.queue.writeIdx
  · have hnone : s.waiting = [] := List.drop_eq_nil_of_le (hinv.empty he).ge
    have hend := hinv.popStep.popStep
    simp only [popStep, hpop, if_pos he] at hend
    simp only [State.call, popWithin, popAnswer, popStep, hpop, if_pos he, boundedCall, hnone]
    exact ⟨_, rfl, ⟨hend, rfl, hpush, rfl⟩, hnone⟩
  · have hlt := hinv.some_left he
    have hsome : s.waiting =
        s.published[s.returned.length] :: s.published.drop (s.returned.length + 1) :=
      List.drop_eq_getElem_cons hlt
    have hitem : s.queue.buffer s.queue.readIdx.toNat = some s.published[s.returned.length] := by
      rw [hinv.readIdx, hinv.items _ (Nat.le_refl _) hlt]
      exact List.getElem?_eq_getElem hlt
    have hend := hinv.popStep.popStep.popStep.popStep
    simp only [popStep, hpop, if_neg he, hitem] at hend
    simp only [State.call, popWithin, popAnswer, popStep, hpop, if_neg he, boundedCall, hsome, hitem]
    exact ⟨_, rfl, ⟨hend, rfl, hpush, rfl⟩, by simp [waiting]⟩

theorem Idle.call {capacity : UInt64} (h : Idle capacity s) (call : Call α) :
    Simulates capacity s call := by
  cases call with
  | push item => exact h.call_push item
  | pop => exact h.call_pop

end State

/-- However `push` and `pop` interleave: `push` refuses only with `capacity - 1` items waiting at the
moment it loads `read_idx`, `pop` only with none at the moment it loads `write_idx`, and there are
never more. One after the other, calls are those of a queue that takes up to `capacity - 1` items. -/
theorem run_refuses {capacity : UInt64} (h : 1 ≤ capacity) :
    (∀ turns : List (Turn α),
      let s := run capacity turns
      (s.pushAnswer = some false →
        s.published.length = s.returned.length + (capacity.toNat - 1)) ∧
      (s.popAnswer = some none → s.returned = s.published.map some) ∧
      s.published.length ≤ s.returned.length + (capacity.toNat - 1)) ∧
    ∀ calls : List (Call α), ∃ s : State α,
      runAll State.call (.init capacity) calls =
        .ok ((feed (boundedCall (capacity.toNat - 1)) [] calls).1, s) ∧
      s.waiting = (feed (boundedCall (capacity.toNat - 1)) [] calls).2 := by
  refine ⟨fun turns => ?_, fun calls => ?_⟩
  · intro s
    have hinv : s.Inv := run_inv h turns
    have hcap : s.cap = capacity.toNat := congrArg UInt64.toNat (run_capacity capacity turns)
    rw [← hcap]
    refine ⟨hinv.of_pushAnswer, fun hr => ?_, ?_⟩
    · have hall := hinv.of_popAnswer hr
      rw [hinv.returned, hall, List.take_length]
    · have hfits := hinv.fits
      have hpos := hinv.pos
      omega
  · have hstart : State.Idle capacity (.init capacity : State α) := ⟨.init h, rfl, rfl, rfl⟩
    obtain ⟨s, hs, -, hwaiting⟩ :=
      runAll_simulates (fun _ call _ h => State.Idle.call h call) calls _ (fun _ _ => trivial) hstart
    exact ⟨s, hs, hwaiting⟩

/-- With room for one item, the second `push` is refused and the second `pop` finds nothing. -/
theorem run_refuses_one_slot :
    let calls : List (Call ℕ) := [.push 7, .push 8, .pop, .pop]
    (feed (boundedCall 1) [] calls).1 =
        [.pushed true, .pushed false, .popped (some 7), .popped none] ∧
      ∃ s, runAll State.call (.init 2) calls = .ok ((feed (boundedCall 1) [] calls).1, s) ∧
        s.waiting = (feed (boundedCall 1) [] calls).2 :=
  ⟨by decide, (run_refuses (by decide)).2 _⟩

/-! ## Slots -/

/-- The slot that is accessed next and the index after the one just loaded are in range. -/
structure State.InBounds (s : State α) : Prop where
  write : ∀ item writeIdx, s.push = .writing item writeIdx → writeIdx.toNat < s.cap
  read : ∀ readIdx, s.pop = .reading readIdx → readIdx.toNat < s.cap
  next_write : ∀ item writeIdx, s.push = .loaded item writeIdx → writeIdx.toNat + 1 < 2 ^ 64
  next_read : ∀ readIdx, s.pop = .reading readIdx → readIdx.toNat + 1 < 2 ^ 64

theorem State.Inv.inBounds (h : s.Inv) : s.InBounds := by
  have hwrite : s.queue.writeIdx.toNat < s.cap := by
    rw [h.writeIdx]
    exact Nat.mod_lt _ h.pos
  have hread : s.queue.readIdx.toNat < s.cap := by
    rw [h.readIdx]
    exact Nat.mod_lt _ h.pos
  have hcap : s.cap < 2 ^ 64 := s.queue.capacity.toNat_lt
  have hpush := h.push
  have hpop := h.pop
  refine ⟨fun item writeIdx hp => ?_, fun readIdx hp => ?_, fun item writeIdx hp => ?_,
    fun readIdx hp => ?_⟩
  · rw [State.PushOk, hp] at hpush
    rwa [hpush.1]
  · rw [State.PopOk, hp] at hpop
    rwa [hpop.1]
  · rw [State.PushOk, hp] at hpush
    obtain rfl := hpush
    omega
  · rw [State.PopOk, hp] at hpop
    obtain ⟨rfl, -⟩ := hpop
    omega

/-- Every access is to a slot of the buffer, whatever the calls and however they interleave, if and
only if there is a slot. -/
theorem run_inBounds_iff (item : α) (capacity : UInt64) :
    (∀ turns : List (Turn α), (run capacity turns).InBounds) ↔ 1 ≤ capacity := by
  refine ⟨fun hall => ?_, fun h turns => (run_inv h turns).inBounds⟩
  by_contra hzero
  obtain rfl : capacity = 0 := by
    rw [UInt64.le_iff_toNat_le] at hzero
    exact UInt64.toNat_inj.mp (Nat.lt_one_iff.mp (Nat.lt_of_not_le hzero))
  exact absurd ((hall [.producer item, .producer item]).write item 0 rfl) (Nat.lt_irrefl 0)

/-- The first `push` into a queue without slots writes slot zero. -/
theorem run_writes_outside :
    (run 0 [.producer 7, .producer 7] : State ℕ).push = .writing 7 0 ∧
      ¬ (run 0 [.producer 7, .producer 7] : State ℕ).InBounds :=
  ⟨rfl, fun h => absurd (h.write 7 0 rfl) (Nat.lt_irrefl 0)⟩

end SpscQueue

end SideProjects
