import SideProjects.Proofs.LogStoreFaults

/-!
# What is in the file stays there

However a process that uses a store ends, the file it leaves is a front part of what the store has
accepted, behind what was there before (`attempt_file`, `life_within`). So a record that is in the
file when a process ends is read back in every later one, and nothing is appended over it
(`lives_durable`). It is in the file from the next `Read`, `ReadAt` or `Close` on that succeeds.
-/

namespace SideProjects

namespace LogStore

open Store

/-! ## One call -/

/-- The file grows, by a front part of what is pending. -/
def Grows (s s' : Store) (accepted : Bytes) : Prop :=
  s.file.bytes <+: s'.file.bytes ∧ s'.file.bytes <+: s.stream ++ accepted

theorem Grows.refl (s : Store) (accepted : Bytes) : Grows s s accepted := by
  refine ⟨List.prefix_refl _, ?_⟩
  rw [stream, List.append_assoc]
  exact List.prefix_append _ _

theorem write_grows (file : File) (b : Bytes) :
    file.bytes <+: (file.write b).2.bytes ∧ (file.write b).2.bytes <+: file.bytes ++ b :=
  ⟨List.prefix_append _ _, (List.prefix_append_right_inj _).mpr (List.take_prefix _ _)⟩

theorem bufWrite_grows (s : Store) (p : Bytes) (o : Outcome) : Grows s (s.bufWrite p o).2 p := by
  unfold bufWrite
  by_cases he : s.buf.err = true
  · rw [if_pos he]
    exact .refl s p
  · rw [if_neg he]
    dsimp only
    generalize (if o.fails then o.sent else max o.sent _) = sent
    obtain ⟨hgrow, hle⟩ := write_grows s.file ((s.buf.pending ++ p).take sent)
    refine ⟨hgrow, hle.trans ?_⟩
    rw [stream, List.append_assoc]
    exact (List.prefix_append_right_inj _).mpr (List.take_prefix _ _)

theorem bufFlush_grows (s : Store) (o : Outcome) : Grows s (s.bufFlush o).2 [] := by
  unfold bufFlush
  by_cases he : s.buf.err = true
  · rw [if_pos he]
    exact .refl s []
  by_cases hp : s.buf.pending.isEmpty = true
  · rw [if_neg he, if_pos hp]
    exact .refl s []
  · rw [if_neg he, if_neg hp]
    dsimp only
    have hpart : (if o.fails then s.buf.pending.take o.sent else s.buf.pending) <+: s.buf.pending := by
      split_ifs
      · exact List.take_prefix _ _
      · exact List.prefix_refl _
    obtain ⟨hgrow, hle⟩ :=
      write_grows s.file (if o.fails then s.buf.pending.take o.sent else s.buf.pending)
    refine ⟨hgrow, hle.trans ?_⟩
    rw [List.append_nil]
    exact (List.prefix_append_right_inj _).mpr hpart

section Lives

variable [Platform]

/-- A read changes no more than the flush before it. -/
theorem attempt_read (s : Store) (pos : UInt64) (o : Outcome) :
    (attempt s (.read pos o)).2 = (s.bufFlush o).2 := by
  simp only [attempt, Store.read]
  rcases s.bufFlush o with ⟨_ | _, s₁⟩
  · rfl
  · dsimp only
    rcases readRecord s₁.file pos with e | b
    · cases e <;> rfl
    · rfl

theorem attempt_readAt (s : Store) (n : ℕ) (off : Int64) (o : Outcome) :
    (attempt s (.readAt n off o)).2 = (s.bufFlush o).2 := by
  simp only [attempt, Store.readAt]
  rcases s.bufFlush o with ⟨_ | _, s₁⟩
  · rfl
  · dsimp only
    rcases s₁.file.readAt n off with ⟨b, _ | e⟩
    · rfl
    · cases e <;> rfl

theorem attempt_file (s : Store) (op : Op) : Grows s (attempt s op).2 (record op) := by
  cases op with
  | append p o₁ o₂ =>
    have hheader := bufWrite_grows s (header p.bytes) o₁
    rcases h₁ : s.bufWrite (header p.bytes) o₁ with ⟨_ | _, s₁⟩ <;> rw [h₁] at hheader
    · simp only [attempt, Store.append, h₁]
      exact ⟨hheader.1, hheader.2.trans ((List.prefix_append_right_inj _).mpr (List.prefix_append _ _))⟩
    have hpayload := bufWrite_grows s₁ p.bytes o₂
    have hstream : s₁.stream ++ p.bytes = s.stream ++ record (.append p o₁ o₂) := by
      rw [(bufWrite_ok h₁).1, List.append_assoc, record]
    rcases h₂ : s₁.bufWrite p.bytes o₂ with ⟨_ | _, s₂⟩ <;> rw [h₂, Grows, hstream] at hpayload <;>
      simp only [attempt, Store.append, h₁, h₂]
    · exact ⟨hheader.1.trans hpayload.1, hpayload.2⟩
    · exact ⟨hheader.1.trans hpayload.1, hpayload.2⟩
  | read pos o =>
    rw [attempt_read]
    exact bufFlush_grows s o
  | readAt n off o =>
    rw [attempt_readAt]
    exact bufFlush_grows s o

/-! ## One life -/

theorem feed_of_err {s : Store} (h : s.buf.err = true) : ∀ ops : List Op, (feed attempt s ops).2 = s
  | [] => rfl
  | op :: ops => by rw [feed, attempt_of_err h, feed_of_err h ops]

theorem feed_grows : ∀ (ops : List Op) (s : Store),
    s.file.bytes <+: (feed attempt s ops).2.file.bytes
  | [], _ => List.prefix_refl _
  | op :: ops, s => (attempt_file s op).1.trans (feed_grows ops _)

/-- Whatever fails, what has been accepted is not written over. -/
theorem feed_within : ∀ (ops : List Op) {s : Store}, Counted s →
    ∃ rest, (feed attempt s ops).2.file.bytes <+: s.stream ++ rest
  | [], s, _ => ⟨[], (Grows.refl s []).2⟩
  | op :: ops, s, hc => by
    have hfile := (attempt_file s op).2
    rw [feed]
    rcases ha : attempt s op with ⟨e | answer, s₁⟩ <;> rw [ha] at hfile
    · rw [feed_of_err (err_of_attempt ha)]
      exact ⟨record op, hfile⟩
    · obtain ⟨hstream, hc₁, -⟩ := call_ok hc (call_of_attempt ha)
      obtain ⟨rest, hle⟩ := feed_within ops hc₁
      exact ⟨record op ++ rest, by rwa [← List.append_assoc, ← hstream]⟩

/-- As long as no write has failed, all that was accepted still is. -/
theorem feed_live : ∀ {ops : List Op} {s : Store}, Counted s → Live s →
    (feed attempt s ops).2.buf.err = false →
    Counted (feed attempt s ops).2 ∧ Live (feed attempt s ops).2 ∧
      s.stream <+: (feed attempt s ops).2.stream
  | [], _, hc, hl, _ => ⟨hc, hl, List.prefix_refl _⟩
  | op :: ops, s, hc, hl, h => by
    rw [feed] at h ⊢
    rcases ha : attempt s op with ⟨e | answer, s₁⟩ <;> rw [ha] at h
    · rw [feed_of_err (err_of_attempt ha), err_of_attempt ha] at h
      cases h
    · obtain ⟨hstream, hc₁, hl₁, -⟩ := call_ok hc (call_of_attempt ha)
      obtain ⟨hc₂, hl₂, hle⟩ := feed_live hc₁ hl₁ h
      exact ⟨hc₂, hl₂, (hstream ▸ List.prefix_append _ _).trans hle⟩

theorem not_err_of_attempt {s : Store} {op : Op} {answer : Answer}
    (h : (attempt s op).1 = .ok answer) : s.buf.err = false := by
  by_contra herr
  rw [attempt_of_err (by simpa using herr)] at h
  cases h

/-- A call that succeeds on a store that other calls have been made on. -/
theorem attempt_live {ops : List Op} {s : Store} {op : Op} {answer : Answer} (hc : Counted s)
    (hl : Live s) (h : (attempt (feed attempt s ops).2 op).1 = .ok answer) :
    let t := (feed attempt s ops).2
    Live t ∧ s.stream <+: t.stream ∧ (attempt t op).2.stream = t.stream ++ record op ∧
      Counted (attempt t op).2 ∧ Live (attempt t op).2 ∧ Answers t.stream op answer := by
  intro t
  obtain ⟨hc', hl', hle⟩ := feed_live hc hl (not_err_of_attempt h)
  have hcall : call t op = .ok (answer, (attempt t op).2) := call_of_attempt (Prod.ext h rfl)
  exact ⟨hl', hle, call_ok hc' hcall⟩

omit [Platform] in
theorem toNat_length {s : Store} (h : Live s) : (UInt64.ofNat s.stream.length).toNat = s.stream.length := by
  have hle := length_stream_le h
  unfold maxFileSize bufSize at hle
  rw [UInt64.toNat_ofNat', Nat.mod_eq_of_lt (by omega)]

omit [Platform] in
theorem close_store (s : Store) (o : Outcome) : (s.close o).2 = (s.bufFlush o).2 := by
  unfold close
  rcases s.bufFlush o with ⟨_ | _, s₁⟩ <;> rfl

theorem life_file (file : File) (l : Life) :
    (life file l).2 = match l.close with
      | none => (feed attempt (newStore file) l.ops).2.file
      | some o => ((feed attempt (newStore file) l.ops).2.bufFlush o).2.file := by
  unfold life
  rcases l.close with _ | o
  · rfl
  · simp only [close_store]

theorem feed_le_life (file : File) (l : Life) :
    (feed attempt (newStore file) l.ops).2.file.bytes <+: (life file l).2.bytes := by
  rw [life_file]
  rcases l.close with _ | o
  · exact List.prefix_refl _
  · exact (bufFlush_grows _ o).1

theorem life_grows (file : File) (l : Life) : file.bytes <+: (life file l).2.bytes :=
  (feed_grows l.ops (newStore file)).trans (feed_le_life file l)

/-- What a life leaves begins with what has been accepted at some point of it, or is cut before. -/
theorem life_within {file : File} {l : Life} {s : Store} {after : List Op} (hc : Counted s)
    (hl : Live s) (hend : (feed attempt (newStore file) l.ops).2 = (feed attempt s after).2) :
    ∃ rest, (life file l).2.bytes <+: s.stream ++ rest := by
  rw [life_file]
  rcases l.close with _ | o
  · simp only [hend]
    exact feed_within after hc
  · simp only [hend]
    by_cases herr : (feed attempt s after).2.buf.err = true
    · rw [bufFlush, if_pos herr]
      exact feed_within after hc
    · obtain ⟨-, -, rest, hrest⟩ := feed_live hc hl (by simpa using herr)
      have hle := (bufFlush_grows (feed attempt s after).2 o).2
      rw [List.append_nil] at hle
      exact ⟨rest, by rwa [hrest]⟩

theorem life_closed {file : File} {l : Life} (h : (life file l).1.2 = some (.ok ())) :
    (feed attempt (newStore file) l.ops).2.buf.err = false ∧
      (life file l).2.bytes = (feed attempt (newStore file) l.ops).2.stream := by
  rw [life_file]
  unfold life at h
  rcases hclose : l.close with _ | o <;> simp only [hclose] at h ⊢
  · cases h
  · simp only [close] at h
    rcases hf : (feed attempt (newStore file) l.ops).2.bufFlush o with ⟨_ | _, s⟩ <;> rw [hf] at h
    · cases h
    · refine ⟨?_, (bufFlush_ok hf).1⟩
      by_contra herr
      rw [bufFlush, if_pos (by simpa using herr)] at hf
      cases hf

theorem lives_grow (lives : List Life) (file : File) : file.bytes <+: (feed life file lives).2.bytes := by
  induction lives generalizing file with
  | nil => exact List.prefix_refl _
  | cons l lives ih => exact (life_grows file l).trans (ih _)

/-! ## The lives of a file -/

/-- A call that empties the buffer first. -/
def Op.flushes : Op → Bool
  | .append _ _ _ => false
  | _ => true

theorem file_of_flushes {s : Store} {op : Op} {answer : Answer} (hop : op.flushes)
    (h : (attempt s op).1 = .ok answer) : (attempt s op).2.file.bytes = s.stream := by
  have herr := not_err_of_attempt h
  cases op with
  | append p o₁ o₂ => cases hop
  | read pos o =>
    rw [attempt_read]
    rcases hf : s.bufFlush o with ⟨_ | _, s₁⟩
    · simp [attempt, Store.read, hf] at h
    · exact (bufFlush_ok hf).1
  | readAt n off o =>
    rw [attempt_readAt]
    rcases hf : s.bufFlush o with ⟨_ | _, s₁⟩
    · simp [attempt, Store.readAt, hf] at h
    · exact (bufFlush_ok hf).1

/-- The record of an append that has succeeded stands behind what the store had accepted. -/
theorem record_of_append {file : File} {l : Life} {past rest : List (Op × Except Fault Answer)}
    {p : Payload} {o₁ o₂ : Outcome} {n pos : UInt64}
    (h : attempts file l.ops = past ++ (.append p o₁ o₂, .ok (.appended n pos)) :: rest) :
    ∃ (a : Bytes) (s : Store) (after : List Op), pos = UInt64.ofNat a.length ∧
      s.stream = a ++ record (.append p o₁ o₂) ∧ pos.toNat + n.toNat = s.stream.length ∧
      Counted s ∧ Live s ∧ rest = after.zip (feed attempt s after).1 ∧
      (feed attempt (newStore file) l.ops).2 = (feed attempt s after).2 := by
  obtain ⟨before, after, hops, hanswer, hrest⟩ := zip_feed_split attempt h
  obtain ⟨hl₀, -, hstream, hc, hl, hans⟩ :=
    attempt_live (counted_newStore file) (live_newStore file) hanswer
  simp only [Answers, Answer.appended.injEq] at hans
  obtain ⟨rfl, rfl⟩ := hans
  refine ⟨_, _, after, rfl, hstream, ?_, hc, hl, hrest, ?_⟩
  · rw [hstream, toNat_length hl₀, toNat_recordLength, List.length_append, length_record]
  · rw [hops, feed_append, feed]

/-- A record is in the file for good once a `Read`, a `ReadAt` or `Close` has succeeded after its
append. However many processes open the file after that, and however each of them ends, a read at its
position that succeeds gives it back, and no append is given a position before its end. -/
theorem lives_durable {file : File} {l : Life} {past rest : List (Op × Except Fault Answer)}
    {p : Payload} {o₁ o₂ : Outcome} {n pos : UInt64}
    (h : attempts file l.ops = past ++ (.append p o₁ o₂, .ok (.appended n pos)) :: rest) :
    ((∃ op answer, (op, .ok answer) ∈ rest ∧ op.flushes) ∨ (life file l).1.2 = some (.ok ()) →
        pos.toNat + n.toNat ≤ (life file l).2.bytes.length) ∧
      (pos.toNat + n.toNat ≤ (life file l).2.bytes.length → ∀ between ops,
        let log := attempts (feed life (life file l).2 between).2 ops
        (∀ o r, (.read pos o, .ok (.read r)) ∈ log → r = .ok p.bytes) ∧
          ∀ p' o₁' o₂' n' pos', (.append p' o₁' o₂', .ok (.appended n' pos')) ∈ log →
            pos.toNat + n.toNat ≤ pos'.toNat) := by
  obtain ⟨a, s, after, hpos, hstream, hlength, hc, hl, rfl, hend⟩ := record_of_append h
  refine ⟨?_, fun hle between ops => ?_⟩
  · rw [hlength]
    rintro (⟨op, answer, hmem, hop⟩ | hclosed)
    · obtain ⟨past', rest', hsplit⟩ := List.append_of_mem hmem
      obtain ⟨before', after', rfl, hanswer, -⟩ := zip_feed_split attempt hsplit
      obtain ⟨-, hle, -⟩ := attempt_live hc hl hanswer
      have hgrow := feed_grows after' (attempt (feed attempt s before').2 op).2
      rw [file_of_flushes hop hanswer] at hgrow
      rw [feed_append, feed] at hend
      exact (hle.trans (hgrow.trans (hend ▸ feed_le_life file l))).length_le
    · obtain ⟨herr, hleft⟩ := life_closed hclosed
      rw [hend] at herr hleft
      rw [hleft]
      exact (feed_live hc hl herr).2.2.length_le
  · obtain ⟨b, hwithin⟩ := life_within hc hl hend
    have hleft : s.stream <+: (feed life (life file l).2 between).2.bytes :=
      (List.prefix_of_prefix_length_le (List.prefix_append _ b) hwithin (hlength ▸ hle)).trans
        (lives_grow between _)
    have hlive : ∀ {op answer}, (op, .ok answer) ∈ attempts (feed life (life file l).2 between).2 ops →
        ∃ t, Live t ∧ s.stream <+: t.stream ∧ Answers t.stream op answer := by
      intro op answer hmem
      obtain ⟨past', rest', hsplit⟩ := List.append_of_mem hmem
      obtain ⟨before', after', -, hanswer, -⟩ := zip_feed_split attempt hsplit
      obtain ⟨hlt, hle, -, -, -, hans⟩ :=
        attempt_live (counted_newStore _) (live_newStore _) hanswer
      rw [stream_newStore] at hle
      exact ⟨_, hlt, hleft.trans hle, hans⟩
    refine ⟨fun o r hmem => ?_, fun p' o₁' o₂' n' pos' hmem => ?_⟩
    · obtain ⟨t, -, ⟨c, hct⟩, file', hfile', hr⟩ := hlive hmem
      rw [hstream, List.append_assoc] at hct
      rw [Answer.read.inj hr, hpos, readRecord_eq (hfile'.trans hct.symm)]
    · obtain ⟨t, hlt, hle, hans⟩ := hlive hmem
      simp only [Answers, Answer.appended.injEq] at hans
      rw [hans.2, toNat_length hlt, hlength]
      exact hle.length_le

end Lives

section Killed

local instance instKilled : Platform := gigabyte

def onePayload : Payload := ⟨[1, 2], by decide⟩

/-- A process writes a record, reads it, and is killed while it appends another. -/
def killed : Life :=
  ⟨[.append onePayload ⟨0, false⟩ ⟨0, false⟩, .read 0 ⟨0, false⟩,
    .append onePayload ⟨8, false⟩ ⟨0, true⟩], none⟩

/-- What it leaves. -/
def leftover : File := ⟨[0, 0, 0, 0, 0, 0, 0, 2, 1, 2, 0, 0, 0, 0, 0, 0, 0, 2], by decide⟩

set_option maxRecDepth 4000 in
theorem attempts_leftover :
    attempts leftover [.read 0 ⟨0, false⟩, .append onePayload ⟨0, false⟩ ⟨0, false⟩] =
      [(.read 0 ⟨0, false⟩, .ok (.read (.ok [1, 2]))),
        (.append onePayload ⟨0, false⟩ ⟨0, false⟩, .ok (.appended 10 18))] := rfl

/-- The next process reads the record, and appends behind what is left of the other. -/
theorem lives_durable_killed : (life ⟨[], by decide⟩ killed).2 = leftover ∧
    (.ok [1, 2] : Except Fault Bytes) = .ok onePayload.bytes ∧ (10 : UInt64).toNat ≤ 18 := by
  have h : attempts ⟨[], by decide⟩ killed.ops =
      [] ++ (.append onePayload ⟨0, false⟩ ⟨0, false⟩, .ok (.appended 10 0)) ::
        [(.read 0 ⟨0, false⟩, .ok (.read (.ok [1, 2]))),
          (.append onePayload ⟨8, false⟩ ⟨0, true⟩, .error .write)] := rfl
  have hleft : (life ⟨[], by decide⟩ killed).2 = leftover := rfl
  obtain ⟨hfile, hlater⟩ := lives_durable h
  have hin := hfile (.inl ⟨_, _, .head _, rfl⟩)
  obtain ⟨hread, happend⟩ :=
    hlater hin [] [.read 0 ⟨0, false⟩, .append onePayload ⟨0, false⟩ ⟨0, false⟩]
  rw [feed, hleft, attempts_leftover] at hread happend
  exact ⟨hleft, hread ⟨0, false⟩ _ (.head _), happend _ _ _ _ _ (.tail _ (.head _))⟩

end Killed

end LogStore

end SideProjects
