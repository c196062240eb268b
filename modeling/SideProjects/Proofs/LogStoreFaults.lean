import SideProjects.Proofs.LogStore

/-!
# The log store when writes fail

A call that does not meet a failed write does what it does in a session without failures
(`call_of_attempt`). Once a write has failed the buffered writer refuses everything, so every later
call fails too. A run on one store is therefore a run without failures, followed by calls that all
fail (`attempts_split`): what a failed append has left behind is never read, and no append goes
behind it.
-/

namespace SideProjects

namespace LogStore

open Store

/-! ## One call -/

theorem bufWrite_err {s s' : Store} {p : Bytes} {o : Outcome} (h : s.bufWrite p o = (false, s')) :
    s'.buf.err = true := by
  unfold bufWrite at h
  by_cases he : s.buf.err = true
  · simp only [he, if_true, Prod.mk.injEq] at h
    rwa [← h.2]
  · simp only [he, Bool.false_eq_true, if_false, Prod.mk.injEq] at h
    obtain ⟨hok, rfl⟩ := h
    exact Bool.not_eq_eq_eq_not.mpr hok

theorem bufFlush_err {s s' : Store} {o : Outcome} (h : s.bufFlush o = (false, s')) :
    s'.buf.err = true := by
  unfold bufFlush at h
  by_cases he : s.buf.err = true
  · simp only [he, if_true, Prod.mk.injEq] at h
    rwa [← h.2]
  by_cases hp : s.buf.pending.isEmpty = true
  · simp [he, hp] at h
  · simp only [he, hp, Bool.false_eq_true, if_false, Prod.mk.injEq] at h
    obtain ⟨hok, rfl⟩ := h
    simp [hok]

section Runs

variable [Platform]

theorem call_of_attempt {s s' : Store} {op : Op} {answer : Answer}
    (h : attempt s op = (.ok answer, s')) : call s op = .ok (answer, s') := by
  cases op with
  | append p o₁ o₂ =>
    simp only [attempt, call] at h ⊢
    rcases hr : s.append p o₁ o₂ with ⟨_ | ⟨n, pos⟩, s₁⟩ <;> simp only [hr] at h ⊢
    · cases h
    · cases h
      rfl
  | read pos o =>
    simp only [attempt, call] at h ⊢
    split at h
    · cases h
    · cases h
      rfl
  | readAt n off o =>
    simp only [attempt, call] at h ⊢
    split at h
    · cases h
    · cases h
      rfl

/-- A call that meets a failed write leaves the writer refusing everything. -/
theorem err_of_attempt {s s' : Store} {op : Op} {e : Fault} (h : attempt s op = (.error e, s')) :
    s'.buf.err = true := by
  cases op with
  | append p o₁ o₂ =>
    simp only [attempt, Store.append] at h
    rcases h₁ : s.bufWrite (header p.bytes) o₁ with ⟨_ | _, s₁⟩ <;> simp only [h₁] at h
    · cases h
      exact bufWrite_err h₁
    rcases h₂ : s₁.bufWrite p.bytes o₂ with ⟨_ | _, s₂⟩ <;> simp only [h₂] at h
    · cases h
      exact bufWrite_err h₂
    · cases h
  | read pos o =>
    simp only [attempt, Store.read] at h
    rcases hf : s.bufFlush o with ⟨_ | _, s₁⟩ <;> simp only [hf] at h
    · cases h
      exact bufFlush_err hf
    · split at h
      · rename_i hr
        exact absurd (Prod.mk.inj hr).1 (readRecord_ne_write _ _)
      · cases h
  | readAt n off o =>
    simp only [attempt, Store.readAt] at h
    rcases hf : s.bufFlush o with ⟨_ | _, s₁⟩ <;> simp only [hf] at h
    · cases h
      exact bufFlush_err hf
    · split at h
      · rename_i b s₂ hr
        simpa using File.readAt_fault (Prod.mk.inj hr).1
      · cases h

theorem attempt_of_err {s : Store} (h : s.buf.err = true) (op : Op) :
    attempt s op = (.error .write, s) := by
  have hwrite : ∀ p o, s.bufWrite p o = (false, s) := fun p o => by simp [bufWrite, h]
  have hflush : ∀ o, s.bufFlush o = (false, s) := fun o => by simp [bufFlush, h]
  cases op with
  | append p o₁ o₂ => simp [attempt, Store.append, hwrite]
  | read pos o => simp [attempt, Store.read, hflush]
  | readAt n off o => simp [attempt, Store.readAt, hflush]

/-! ## A run -/

omit [Platform] in
theorem length_stream_le {s : Store} (h : Live s) : s.stream.length ≤ maxFileSize + bufSize := by
  rw [stream, List.length_append]
  exact Nat.add_le_add s.file.fits h.pending

/-- After a failed write all calls fail. -/
theorem attempts_of_err {s : Store} (h : s.buf.err = true) : ∀ ops : List Op,
    ∀ r ∈ ops.zip (feed attempt s ops).1, r.2 = .error .write
  | [] => by simp
  | op :: ops => by
    rw [feed, attempt_of_err h]
    intro r hr
    rcases List.mem_cons.mp hr with rfl | hr
    · rfl
    · exact attempts_of_err h ops r hr

/-- The calls of a run: those that succeed, as in a session without failures, and then those that
fail. What has been accepted never outgrows a file and a buffer. -/
theorem attempts_split : ∀ (ops : List Op) {s : Store}, Counted s → Live s →
    ∃ (good : List (Op × Answer)) (bad : List (Op × Except Fault Answer)),
      ops.zip (feed attempt s ops).1 = good.map (fun r => (r.1, .ok r.2)) ++ bad ∧
      Explains s.stream good ∧
      (s.stream ++ records (good.map Prod.fst)).length ≤ maxFileSize + bufSize ∧
      ∀ r ∈ bad, ∃ e, r.2 = .error e
  | [], s, _, hl => ⟨[], [], rfl, trivial, by simpa [records] using length_stream_le hl, by simp⟩
  | op :: ops, s, hc, hl => by
    rw [feed]
    rcases ha : attempt s op with ⟨e | answer, s'⟩
    · refine ⟨[], _, rfl, trivial, by simpa [records] using length_stream_le hl, fun r hr => ?_⟩
      rcases List.mem_cons.mp hr with rfl | hr
      · exact ⟨e, rfl⟩
      · exact ⟨_, attempts_of_err (err_of_attempt ha) ops r hr⟩
    · obtain ⟨hst, hc', hl', hans⟩ := call_ok hc (call_of_attempt ha)
      obtain ⟨good, bad, hlog, hex, hlen, hbad⟩ := attempts_split ops hc' hl'
      rw [hst] at hex hlen
      refine ⟨(op, answer) :: good, bad, ?_, ⟨hans, hex⟩, ?_, hbad⟩
      · rw [List.zip_cons_cons, hlog]
        rfl
      · simpa [records] using hlen

/-- A call that succeeds is one of the good ones. -/
theorem good_of_ok {good : List (Op × Answer)} {bad l r : List (Op × Except Fault Answer)} {op : Op}
    {answer : Answer} (h : good.map (fun r => (r.1, .ok r.2)) ++ bad = l ++ (op, .ok answer) :: r)
    (hbad : ∀ r ∈ bad, ∃ e, r.2 = .error e) :
    ∃ l' r', good = l' ++ (op, answer) :: r' ∧ l = l'.map fun r => (r.1, .ok r.2) := by
  have hnot : (op, .ok answer) ∉ bad := fun hm => by
    obtain ⟨e, he⟩ := hbad _ hm
    cases he
  rcases List.append_eq_append_iff.mp h with ⟨c, -, hb⟩ | ⟨c, hg, hc⟩
  · exact absurd (hb ▸ List.mem_append_right c List.mem_cons_self) hnot
  · rcases c with _ | ⟨x, c⟩
    · rw [List.nil_append] at hc
      exact absurd (hc ▸ List.mem_cons_self) hnot
    · obtain ⟨rfl, -⟩ := List.cons.inj hc
      obtain ⟨l', good', rfl, hl', hgood⟩ := List.map_eq_append_iff.mp hg
      obtain ⟨x, r', rfl, hx, -⟩ := List.map_eq_cons_iff.mp hgood
      simp only [Prod.mk.injEq, Except.ok.injEq] at hx
      obtain ⟨rfl, rfl⟩ := hx
      exact ⟨l', r', rfl, hl'.symm⟩

/-- Where an append puts its record, as long as all that is accepted can be counted. -/
theorem toNat_of_explains {stream : Bytes} {l r : List (Op × Answer)} {p : Payload}
    {o₁ o₂ : Outcome} {n pos : UInt64}
    (h : Explains stream (l ++ (.append p o₁ o₂, .appended n pos) :: r))
    (hlen : (stream ++ records ((l ++ (.append p o₁ o₂, .appended n pos) :: r).map Prod.fst)).length ≤
      maxFileSize + bufSize) :
    pos.toNat = (stream ++ records (l.map Prod.fst)).length ∧
      n.toNat = lenWidth + p.bytes.length := by
  obtain ⟨-, ha, -⟩ := explains_append.mp h
  simp only [Answers, Answer.appended.injEq] at ha
  obtain ⟨rfl, rfl⟩ := ha
  refine ⟨?_, toNat_recordLength p⟩
  rw [UInt64.toNat_ofNat', Nat.mod_eq_of_lt]
  simp only [records, List.map_append, List.flatMap_append, List.length_append] at hlen ⊢
  unfold maxFileSize bufSize at hlen
  omega

/-- Whatever writes fail, a read that succeeds at the position of an append that succeeded gives back
what was appended, and appends that succeeded are one behind the other. -/
theorem attempts_sound (file : File) (ops : List Op) :
    (∀ before p o₁ o₂ n pos between o b after, attempts file ops =
        before ++ (.append p o₁ o₂, .ok (.appended n pos)) ::
          (between ++ (.read pos o, .ok (.read (.ok b))) :: after) →
      b = p.bytes) ∧
      ∀ before p o₁ o₂ n pos between p' o₁' o₂' n' pos' after, attempts file ops =
          before ++ (.append p o₁ o₂, .ok (.appended n pos)) ::
            (between ++ (.append p' o₁' o₂', .ok (.appended n' pos')) :: after) →
        n.toNat = lenWidth + p.bytes.length ∧ pos.toNat + n.toNat ≤ pos'.toNat := by
  obtain ⟨good, bad, hlog, hex, hlen, hbad⟩ :=
    attempts_split ops (counted_newStore file) (live_newStore file)
  have hpair : ∀ {before between after op answer op' answer'}, attempts file ops =
      before ++ (op, .ok answer) :: (between ++ (op', .ok answer') :: after) →
      ∃ l m r, good = l ++ (op, answer) :: (m ++ (op', answer') :: r) := by
    intro before between after op answer op' answer' h
    rw [attempts, hlog, ← List.cons_append, ← List.append_assoc] at h
    obtain ⟨l, r, rfl, hl⟩ := good_of_ok h hbad
    have hbefore : l.map (fun r => (r.1, .ok r.2)) ++ [] = before ++ (op, .ok answer) :: between := by
      rw [List.append_nil, ← hl]
    obtain ⟨l', m, rfl, -⟩ := good_of_ok hbefore (by simp)
    exact ⟨l', m, r, by simp⟩
  refine ⟨?_, ?_⟩
  · intro before p o₁ o₂ n pos between o b after h
    obtain ⟨l, m, r, rfl⟩ := hpair h
    have := (reads_of_explains hex).1 o rfl
    simpa using this
  · intro before p o₁ o₂ n pos between p' o₁' o₂' n' pos' after h
    obtain ⟨l, m, r, rfl⟩ := hpair h
    obtain ⟨hpos, hn⟩ := toNat_of_explains hex hlen
    rw [← List.cons_append, ← List.append_assoc] at hex hlen
    obtain ⟨hpos', -⟩ := toNat_of_explains hex hlen
    refine ⟨hn, ?_⟩
    rw [hpos, hpos', hn, ← length_record p o₁ o₂]
    simp only [records, List.map_append, List.map_cons, List.flatMap_append, List.flatMap_cons,
      List.length_append]
    omega

end Runs

section Torn

local instance instTorn : Platform := gigabyte

/-- The write of the second payload fails behind its header, and nothing more is accepted. -/
theorem attempts_sound_torn :
    let p : Payload := ⟨[1, 2], by decide⟩
    attempts ⟨[], by decide⟩ [.append p ⟨0, false⟩ ⟨0, false⟩, .read 0 ⟨0, false⟩,
        .append p ⟨8, false⟩ ⟨0, true⟩, .read 0 ⟨0, false⟩, .append p ⟨0, false⟩ ⟨0, false⟩] =
      [(.append p ⟨0, false⟩ ⟨0, false⟩, .ok (.appended 10 0)),
        (.read 0 ⟨0, false⟩, .ok (.read (.ok [1, 2]))),
        (.append p ⟨8, false⟩ ⟨0, true⟩, .error .write), (.read 0 ⟨0, false⟩, .error .write),
        (.append p ⟨0, false⟩ ⟨0, false⟩, .error .write)] ∧
      [1, 2] = p.bytes :=
  have h : attempts ⟨[], by decide⟩ _ = _ := rfl
  ⟨h, (attempts_sound _ _).1 [] _ _ _ _ _ [] _ _ _ h⟩

end Torn

end LogStore

end SideProjects
