import SideProjects.Lib.Ring
import SideProjects.Spsc

/-!
# The SPSC queue is a queue

With `p` items published and `c` returned, `write_idx` is `p` and `read_idx` is `c`, modulo the
capacity, and the slots from `c` to `p` hold the items that are still to be returned. A side's copy
of the other's index can only be too careful: once the producer has seen room for one more there
stays room until it stores, and once the consumer has seen an item it stays there. This holds
before and after every step (`Inv`), whoever takes it.
-/

namespace SideProjects

namespace SpscQueue

variable {α : Type*} {s : State α}

theorem toNat_nextIdx (queue : SpscQueue α) {idx : UInt64}
    (h : idx.toNat < queue.capacity.toNat) :
    (queue.nextIdx idx).toNat = Ring.next queue.capacity.toNat idx.toNat := by
  have hc := queue.capacity.toNat_lt
  have hs : (idx + 1).toNat = idx.toNat + 1 := by
    rw [UInt64.toNat_add, UInt64.toNat_one, Nat.mod_eq_of_lt (by omega)]
  unfold nextIdx Ring.next
  by_cases he : idx + 1 = queue.capacity
  · rw [if_pos he, if_pos (by rw [← hs, he])]
    rfl
  · rw [if_neg he, if_neg (fun e => he (UInt64.toNat_inj.mp (hs.trans e))), hs]

namespace State

abbrev cap (s : State α) : ℕ := s.queue.capacity.toNat

/-- What the producer knows. -/
def PushOk (s : State α) : Prop :=
  match s.push with
  | .idle => True
  | .loaded _ writeIdx => writeIdx = s.queue.writeIdx
  | .writing _ writeIdx => writeIdx = s.queue.writeIdx ∧
      s.published.length + 1 < s.returned.length + s.cap
  | .storing item writeIdx => writeIdx = s.queue.writeIdx ∧
      s.published.length + 1 < s.returned.length + s.cap ∧
      s.queue.buffer (s.published.length % s.cap) = some item ∧
      s.number (s.published.length % s.cap) = some s.published.length

/-- What the consumer knows. -/
def PopOk (s : State α) : Prop :=
  match s.pop with
  | .idle => True
  | .loaded readIdx => readIdx = s.queue.readIdx
  | .reading readIdx => readIdx = s.queue.readIdx ∧ s.returned.length < s.published.length
  | .storing readIdx result => readIdx = s.queue.readIdx ∧
      s.returned.length < s.published.length ∧ result = s.published[s.returned.length]?

structure Inv (s : State α) : Prop where
  pos : 0 < s.cap
  writeIdx : s.queue.writeIdx.toNat = s.published.length % s.cap
  readIdx : s.queue.readIdx.toNat = s.returned.length % s.cap
  returned : s.returned = (s.published.take s.returned.length).map some
  behind : s.returned.length ≤ s.published.length
  fits : s.published.length < s.returned.length + s.cap
  items : Ring.Holds s.cap s.returned.length s.published.length s.queue.buffer
    fun i => s.published[i]?
  numbers : Ring.Holds s.cap s.returned.length s.published.length s.number some
  /-- A slot's number is of an item that belongs there; only the item being pushed may have it before
  it is published. -/
  own : ∀ slot k, s.number slot = some k → k % s.cap = slot ∧
    (k < s.published.length ∨
      k = s.published.length ∧ ∃ item writeIdx, s.push = .storing item writeIdx)
  push : s.PushOk
  pop : s.PopOk

theorem Inv.init {capacity : UInt64} (h : 1 ≤ capacity) : Inv (.init capacity : State α) where
  pos := UInt64.le_iff_toNat_le.mp h
  writeIdx := by simp [State.init, SpscQueue.new]
  readIdx := by simp [State.init, SpscQueue.new]
  returned := rfl
  behind := Nat.le_refl _
  fits := Nat.lt_of_lt_of_le (UInt64.le_iff_toNat_le.mp h) (Nat.le_add_left _ _)
  items := fun i _ hi => absurd hi (Nat.not_lt_zero i)
  numbers := fun i _ hi => absurd hi (Nat.not_lt_zero i)
  own := by simp [State.init]
  push := trivial
  pop := trivial

theorem Inv.nextWrite (h : s.Inv) :
    (s.queue.nextIdx s.queue.writeIdx).toNat = (s.published.length + 1) % s.cap := by
  rw [toNat_nextIdx _ (by rw [h.writeIdx]; exact Nat.mod_lt _ h.pos), h.writeIdx,
    Ring.next_mod h.pos]

theorem Inv.nextRead (h : s.Inv) :
    (s.queue.nextIdx s.queue.readIdx).toNat = (s.returned.length + 1) % s.cap := by
  rw [toNat_nextIdx _ (by rw [h.readIdx]; exact Nat.mod_lt _ h.pos), h.readIdx,
    Ring.next_mod h.pos]

/-- The check in `push` sees room if there is room. -/
theorem Inv.room (h : s.Inv) (hne : s.queue.nextIdx s.queue.writeIdx ≠ s.queue.readIdx) :
    s.published.length + 1 < s.returned.length + s.cap := by
  have hfits := h.fits
  rcases Nat.lt_or_ge (s.published.length + 1) (s.returned.length + s.cap) with hlt | hge
  · exact hlt
  · have he : s.published.length + 1 = s.returned.length + s.cap := by omega
    refine absurd (UInt64.toNat_inj.mp ?_) hne
    rw [h.nextWrite, h.readIdx, he, Nat.add_mod_right]

/-- The check in `pop` sees an item if there is one. -/
theorem Inv.some_left (h : s.Inv) (hne : s.queue.readIdx ≠ s.queue.writeIdx) :
    s.returned.length < s.published.length := by
  rcases Nat.eq_or_lt_of_le h.behind with he | hlt
  · refine absurd (UInt64.toNat_inj.mp ?_) hne
    rw [h.readIdx, h.writeIdx, he]
  · exact hlt

/-- The slot the producer is about to write holds no item that is still to be returned. -/
theorem Inv.free (h : s.Inv) {item : α} {writeIdx : UInt64} (hp : s.push = .writing item writeIdx)
    {k : ℕ} (hk : s.number writeIdx.toNat = some k) : k < s.returned.length := by
  have hok := h.push
  rw [PushOk, hp] at hok
  obtain ⟨rfl, hroom⟩ := hok
  obtain ⟨hmod, hlt | ⟨-, item', writeIdx', hs⟩⟩ := h.own _ _ hk
  · rcases Nat.lt_or_ge k s.returned.length with hc | hc
    · exact hc
    · rw [h.writeIdx] at hmod
      have := Ring.eq_of_mod_eq hmod hlt.le (by omega)
      omega
  · rw [hp] at hs
    cases hs

/-- The slot the consumer is about to read holds the next item to return. -/
theorem Inv.filled (h : s.Inv) {readIdx : UInt64} (hp : s.pop = .reading readIdx) :
    s.number readIdx.toNat = some s.returned.length ∧
      s.returned.length < s.published.length ∧
      s.queue.buffer readIdx.toNat = s.published[s.returned.length]? := by
  have hok := h.pop
  rw [PopOk, hp] at hok
  obtain ⟨rfl, hlt⟩ := hok
  rw [h.readIdx]
  exact ⟨h.numbers _ (Nat.le_refl _) hlt, hlt, h.items _ (Nat.le_refl _) hlt⟩

/-! ## The steps -/

/-- While no item is about to be published, every number is of a published item. -/
theorem Inv.own_published (h : s.Inv) (hp : ∀ item writeIdx, s.push ≠ .storing item writeIdx)
    {slot k : ℕ} (hk : s.number slot = some k) : k % s.cap = slot ∧ k < s.published.length := by
  obtain ⟨hmod, hlt | ⟨-, item, writeIdx, he⟩⟩ := h.own slot k hk
  · exact ⟨hmod, hlt⟩
  · exact absurd he (hp item writeIdx)

/-- Publishing an item takes nothing from the consumer. -/
theorem PopOk.publish (h : s.PopOk) (item : α) (queue : SpscQueue α)
    (hq : queue.readIdx = s.queue.readIdx) (push : Push α) :
    PopOk { s with queue := queue, published := s.published ++ [item], push := push } := by
  unfold PopOk at h ⊢
  split at h
  · rename_i hp
    simp only [hp]
  · rename_i readIdx hp
    simp only [hp]
    rw [hq, h]
  · rename_i readIdx hp
    obtain ⟨rfl, hlt⟩ := h
    simp only [hp]
    exact ⟨hq.symm, by simp; omega⟩
  · rename_i readIdx result hp
    obtain ⟨rfl, hlt, rfl⟩ := h
    simp only [hp]
    exact ⟨hq.symm, by simp; omega, (List.getElem?_append_left hlt).symm⟩

theorem Inv.pushStep (h : s.Inv) (item : α) : (s.pushStep item).Inv := by
  have hok := h.push
  unfold PushOk at hok
  unfold State.pushStep
  split
  · rename_i hp
    exact { h with
      own := fun slot k hk => (h.own_published (by simp [hp]) hk).imp_right .inl
      push := rfl }
  · rename_i item' writeIdx hp
    rw [hp] at hok
    obtain rfl := hok
    split_ifs with hne
    · exact { h with
        own := fun slot k hk => (h.own_published (by simp [hp]) hk).imp_right .inl
        push := ⟨rfl, h.room hne⟩ }
    · exact { h with
        own := fun slot k hk => (h.own_published (by simp [hp]) hk).imp_right .inl
        push := trivial }
  · rename_i item' writeIdx hp
    rw [hp] at hok
    obtain ⟨rfl, hroom⟩ := hok
    rw [h.writeIdx]
    exact { h with
      items := h.items.write h.fits _
      numbers := h.numbers.write h.fits _
      own := fun slot k hk => by
        by_cases he : slot = s.published.length % s.cap
        · subst he
          obtain rfl : s.published.length = k := by simpa using hk
          exact ⟨rfl, .inr ⟨rfl, item', s.queue.writeIdx, rfl⟩⟩
        · have hk' : s.number slot = some k := by simpa [he] using hk
          exact (h.own_published (by simp [hp]) hk').imp_right .inl
      push := ⟨rfl, hroom, by simp, by simp⟩ }
  · rename_i item' writeIdx hp
    rw [hp] at hok
    obtain ⟨rfl, hroom, hitem, hnumber⟩ := hok
    have hlen : (s.published ++ [item']).length = s.published.length + 1 := by simp
    have hkeep : ∀ i < s.published.length, (s.published ++ [item'])[i]? = s.published[i]? :=
      fun i hi => List.getElem?_append_left hi
    refine ⟨h.pos, ?_, h.readIdx, ?_, ?_, ?_, ?_, ?_, fun slot k hk => ?_, trivial,
      h.pop.publish item' _ rfl .idle⟩
    · rw [hlen]
      exact h.nextWrite
    · show s.returned = _
      rw [List.take_append_of_le_length h.behind]
      exact h.returned
    · exact h.behind.trans (by simp)
    · show (s.published ++ [item']).length < _
      rw [hlen]
      exact hroom
    · show Ring.Holds s.cap s.returned.length (s.published ++ [item']).length _ _
      rw [hlen]
      exact (h.items.congr hkeep).push (by rw [hitem]; simp)
    · show Ring.Holds s.cap s.returned.length (s.published ++ [item']).length _ _
      rw [hlen]
      exact h.numbers.push hnumber
    · obtain ⟨hmod, hk⟩ := h.own slot k hk
      refine ⟨hmod, .inl ?_⟩
      show k < (s.published ++ [item']).length
      omega

/-- Returning an item takes no room from the producer. -/
theorem PushOk.release (h : s.PushOk) (result : Option α) (queue : SpscQueue α)
    (hq : queue = { s.queue with readIdx := queue.readIdx }) (pop : Pop α) :
    PushOk { s with queue := queue, returned := s.returned ++ [result], pop := pop } := by
  have hcap : queue.capacity = s.queue.capacity := by rw [hq]
  have hwrite : queue.writeIdx = s.queue.writeIdx := by rw [hq]
  have hbuf : queue.buffer = s.queue.buffer := by rw [hq]
  unfold PushOk at h ⊢
  split at h
  · rename_i hp
    simp only [hp]
  · rename_i item writeIdx hp
    simp only [hp]
    rw [hwrite, h]
  · rename_i item writeIdx hp
    obtain ⟨rfl, hroom⟩ := h
    simp only [hp, State.cap, hcap, hwrite, true_and, List.length_append] at hroom ⊢
    omega
  · rename_i item writeIdx hp
    obtain ⟨rfl, hroom, hitem, hnumber⟩ := h
    simp only [hp, State.cap, hcap, hwrite, hbuf, true_and, List.length_append] at hroom ⊢
    exact ⟨by omega, hitem, hnumber⟩

theorem Inv.popStep (h : s.Inv) : s.popStep.Inv := by
  have hok := h.pop
  unfold PopOk at hok
  unfold State.popStep
  split
  · exact { h with pop := rfl }
  · rename_i readIdx hp
    rw [hp] at hok
    obtain rfl := hok
    split_ifs with he
    · exact { h with pop := trivial }
    · exact { h with pop := ⟨rfl, h.some_left he⟩ }
  · rename_i readIdx hp
    obtain ⟨-, hlt, hitem⟩ := h.filled hp
    rw [hp] at hok
    exact { h with pop := ⟨hok.1, hlt, hitem⟩ }
  · rename_i readIdx result hp
    rw [hp] at hok
    obtain ⟨rfl, hlt, rfl⟩ := hok
    set result := s.published[s.returned.length]? with hresult
    have hlen : (s.returned ++ [result]).length = s.returned.length + 1 := by simp
    have hfits := h.fits
    refine ⟨h.pos, h.writeIdx, ?_, ?_, ?_, ?_, ?_, ?_, h.own, h.push.release result _ rfl .idle,
      trivial⟩
    · rw [hlen]
      exact h.nextRead
    · show s.returned ++ [result] = _
      rw [hlen, List.take_add_one, List.map_append, ← h.returned, hresult,
        List.getElem?_eq_getElem hlt]
      rfl
    · show (s.returned ++ [result]).length ≤ s.published.length
      omega
    · show s.published.length < (s.returned ++ [result]).length + s.cap
      omega
    · show Ring.Holds s.cap (s.returned ++ [result]).length _ _ _
      rw [hlen]
      exact h.items.pop
    · show Ring.Holds s.cap (s.returned ++ [result]).length _ _ _
      rw [hlen]
      exact h.numbers.pop

end State

/-- After every interleaving. -/
theorem run_inv {capacity : UInt64} (h : 1 ≤ capacity) (turns : List (Turn α)) :
    (run capacity turns).Inv :=
  List.foldlRecOn turns State.step (State.Inv.init h) fun _ hs turn _ =>
    match turn with
    | .producer item => hs.pushStep item
    | .consumer => hs.popStep

/-- However `push` and `pop` interleave: what `pop` has returned is what was pushed, in order, from
the first on; the slot it reads holds an item that is published and not yet returned; and a slot
`push` writes holds no such item. -/
theorem run_fifo {capacity : UInt64} (h : 1 ≤ capacity) (turns : List (Turn α)) :
    (run capacity turns).returned <+: (run capacity turns).published.map some ∧
      (∀ readIdx, (run capacity turns).pop = .reading readIdx →
        ∃ k item, (run capacity turns).number readIdx.toNat = some k ∧
          (run capacity turns).returned.length ≤ k ∧
          (run capacity turns).published[k]? = some item ∧
          (run capacity turns).queue.buffer readIdx.toNat = some item) ∧
      ∀ item writeIdx, (run capacity turns).push = .writing item writeIdx →
        ∀ k, (run capacity turns).number writeIdx.toNat = some k →
          k < (run capacity turns).returned.length := by
  have hinv := run_inv h turns
  refine ⟨?_, fun readIdx hp => ?_, fun item writeIdx hp k hk => hinv.free hp hk⟩
  · rw [hinv.returned]
    exact (List.take_prefix _ _).map _
  · obtain ⟨hnumber, hlt, hitem⟩ := hinv.filled hp
    rw [List.getElem?_eq_getElem hlt] at hitem
    exact ⟨_, _, hnumber, Nat.le_refl _, List.getElem?_eq_getElem hlt, hitem⟩

/-- Two pushes into a queue with one free slot, the second while the first item is being popped. -/
theorem run_fifo_one_slot :
    let s : State ℕ := run 2 [.producer 7, .consumer, .producer 7, .producer 7, .consumer,
      .producer 7, .consumer, .consumer, .consumer, .producer 8, .consumer, .producer 8,
      .producer 8, .producer 8, .consumer, .consumer]
    s.returned = [some 7] ∧ s.published = [7, 8] ∧ s.pop = .reading 1 ∧
      s.returned <+: s.published.map some :=
  ⟨rfl, rfl, rfl, (run_fifo (by decide) _).1⟩

end SpscQueue

end SideProjects
