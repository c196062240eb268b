import SideProjects.Proofs.LogStore

/-!
# When a read crashes

`Read` takes whatever eight bytes it finds at its position for a length. At the start of a record
they are one, but nothing keeps a caller to these positions, and in a payload they can be anything.
`make` then panics, or ends the process for want of memory (`Crashes`). A position that is negative as
an `int64` is past the end of every file, so it gives an error.
-/

namespace SideProjects

namespace LogStore

open Store

/-- `make` does not give back what it was asked for. -/
def Crashes (result : Except Fault Bytes) : Prop :=
  result = .error .lenOutOfRange ∨ result = .error .outOfMemory

theorem not_crashes_of_ne {e : Fault} (h₁ : e ≠ .lenOutOfRange) (h₂ : e ≠ .outOfMemory) :
    ¬ Crashes (.error e) := by
  simp [Crashes, h₁, h₂]

theorem File.readAt_not_crashes {file : File} {n : ℕ} {off : Int64} {b : Bytes} {e : Fault}
    (h : file.readAt n off = (b, some e)) : ¬ Crashes (.error e) := by
  rcases File.readAt_fault h with rfl | rfl <;> exact not_crashes_of_ne (by decide) (by decide)

/-- The length that `Read` passes to `make` can be allocated, if it gets that far: the content fits a
file and has eight bytes at the position. -/
def Allocatable [Platform] (content : Bytes) (pos : UInt64) : Prop :=
  content.length ≤ maxFileSize → pos.toNat + lenWidth ≤ content.length →
    BigEndian.decode ((content.drop pos.toNat).take lenWidth) ≤ Platform.memory

theorem toInt64_neg {pos : UInt64} (h : 2 ^ 63 ≤ pos.toNat) : pos.toInt64 < 0 := by
  have hlt := pos.toNat_lt
  have hcond := BitVec.toInt_eq_toNat_cond pos.toBitVec
  rw [UInt64.toNat_toBitVec, if_neg (by omega)] at hcond
  rw [Int64.lt_iff_toInt_lt, show pos.toInt64.toInt = pos.toBitVec.toInt from rfl, hcond]
  simp only [Int64.toInt_zero]
  omega

/-- A read of a header succeeds where there are eight bytes. -/
theorem File.readAt_header (file : File) (pos : UInt64) :
    (pos.toNat + lenWidth ≤ file.bytes.length ∧
        file.readAt lenWidth pos.toInt64 = ((file.bytes.drop pos.toNat).take lenWidth, none)) ∨
      (file.bytes.length < pos.toNat + lenWidth ∧
        ∃ b e, file.readAt lenWidth pos.toInt64 = (b, some e)) := by
  have hfits := file.fits
  unfold maxFileSize at hfits
  by_cases hpos : pos.toNat < 2 ^ 63
  · have hneg : ¬ pos.toInt64 < 0 := by
      rw [Int64.lt_iff_toInt_lt, toInt_toInt64 hpos]
      simp
    unfold File.readAt
    rw [if_neg hneg, toInt_toInt64 hpos, Int.toNat_natCast]
    dsimp only
    rw [List.length_take, List.length_drop]
    by_cases hlen : pos.toNat + lenWidth ≤ file.bytes.length
    · exact .inl ⟨hlen, by rw [if_neg (by omega)]⟩
    · refine .inr ⟨by omega, (file.bytes.drop pos.toNat).take lenWidth, .eof, ?_⟩
      rw [if_pos (by unfold lenWidth at hlen ⊢; omega)]
  · refine .inr ⟨by omega, [], .negativeOffset, ?_⟩
    rw [File.readAt, if_pos (toInt64_neg (by omega))]

section Stores

variable [Platform]

theorem readRecord_crashes_iff (file : File) (pos : UInt64) :
    Crashes (readRecord file pos) ↔ ¬ Allocatable file.bytes pos := by
  unfold Allocatable
  rcases file.readAt_header pos with ⟨hlen, hread⟩ | ⟨hlen, b, e, hread⟩
  · simp only [readRecord, hread, file.fits, hlen, forall_const, not_le]
    generalize BigEndian.decode ((file.bytes.drop pos.toNat).take lenWidth) = n
    -- What is more than `make` takes is more than there is.
    have hmax : Platform.memory ≤ maxAlloc := le_trans Platform.memory_le (by decide)
    by_cases hrange : maxAlloc < n
    · rw [if_pos hrange]
      exact iff_of_true (.inl rfl) (lt_of_le_of_lt hmax hrange)
    rw [if_neg hrange]
    by_cases hmemory : Platform.memory < n
    · rw [if_pos hmemory]
      exact iff_of_true (.inr rfl) hmemory
    rw [if_neg hmemory]
    refine iff_of_false ?_ hmemory
    rcases hr : file.readAt n (pos + UInt64.ofNat lenWidth).toInt64 with ⟨b, _ | e⟩
    · simp [Crashes]
    · exact File.readAt_not_crashes hr
  · simp only [readRecord, hread]
    exact iff_of_false (File.readAt_not_crashes hread)
      (not_not.mpr fun _ hle => absurd hle (Nat.not_le.mpr hlen))

/-! ## Stores -/

theorem calls_live : ∀ {ops : List Op} {s s' : Store} {answers : List Answer}, Counted s → Live s →
    runAll call s ops = .ok (answers, s') → Live s'
  | [], s, s', answers, _, hl, h => by
    cases h
    exact hl
  | op :: ops, s, s', answers, hs, _, h => by
    obtain ⟨answer, s₁, answers', h₁, h₂, rfl⟩ := runAll_cons_eq_ok.mp h
    obtain ⟨-, hs₁, hl₁, -⟩ := call_ok hs h₁
    exact calls_live hs₁ hl₁ h₂

theorem read_crashes_iff {s : Store} (hl : Live s) (pos : UInt64) :
    (∃ o, Crashes (s.read pos o).1) ↔ ¬ Allocatable s.stream pos := by
  constructor
  · rintro ⟨o, h⟩
    unfold Store.read at h
    rcases hf : s.bufFlush o with ⟨_ | _, s₁⟩ <;> simp only [hf] at h
    · exact absurd h (not_crashes_of_ne (by decide) (by decide))
    rwa [readRecord_crashes_iff, (bufFlush_ok hf).1] at h
  · intro h
    have hroom : s.stream.length ≤ maxFileSize := by
      by_contra hbig
      exact h fun hle => absurd hle hbig
    obtain ⟨s', hf⟩ := bufFlush_healthy hl (o := ⟨0, false⟩) rfl hroom
    refine ⟨⟨0, false⟩, ?_⟩
    simp only [Store.read, hf]
    rwa [readRecord_crashes_iff, (bufFlush_ok hf).1]

/-- Whatever calls have come before and however the flush goes, `Read` gives back bytes or an error
exactly when the bytes at its position, as a length, can be allocated. -/
theorem read_returns_iff {file : File} {ops : List Op} {answers : List Answer} {s : Store}
    (h : runAll call (newStore file) ops = .ok (answers, s)) (pos : UInt64) :
    (∀ o, ¬ Crashes (s.read pos o).1) ↔ Allocatable (file.bytes ++ records ops) pos := by
  obtain ⟨hstream, -⟩ := calls_ok (counted_newStore file) h
  have hlive := calls_live (counted_newStore file) (live_newStore file) h
  have hiff := read_crashes_iff hlive pos
  rw [hstream, stream_newStore] at hiff
  rw [← not_iff_not, ← hiff]
  simp

end Stores

section Sixteen

local instance instSixteen : Platform := gigabyte

/-- Sixteen bytes that would be no length. -/
def sixteen : Payload := ⟨List.replicate 16 255, by decide⟩

/-- The record of such a payload is read back from its start. -/
theorem read_returns_iff_start :
    ∃ answers s, runAll call (newStore ⟨[], by decide⟩) [.append sixteen ⟨0, false⟩ ⟨0, false⟩] =
        .ok (answers, s) ∧
      ∀ o, ¬ Crashes (s.read 0 o).1 :=
  have h : runAll call (newStore ⟨[], by decide⟩) [_] = .ok (_, _) := rfl
  ⟨_, _, h, (read_returns_iff h 0).mpr fun _ _ => by decide⟩

/-- From within the payload it takes the payload for a length. -/
theorem read_lenOutOfRange :
    ∃ answers s, runAll call (newStore ⟨[], by decide⟩) [.append sixteen ⟨0, false⟩ ⟨0, false⟩] =
        .ok (answers, s) ∧
      (s.read 8 ⟨0, false⟩).1 = .error .lenOutOfRange :=
  ⟨_, _, rfl, rfl⟩

end Sixteen

end LogStore

end SideProjects
