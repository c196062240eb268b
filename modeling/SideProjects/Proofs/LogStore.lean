import Mathlib.Algebra.Ring.Int.Defs
import SideProjects.LogStore

/-!
# The log store gives back what it was given

What is in the file and what the buffer still holds, one after the other, is the `stream` of a
store. However the buffer passes its bytes on, a call extends the stream by the record it appends
and by nothing else, `size` is its length, and a read sees all of it. A session ends with the
whole stream in the file, and the next one starts from there. As long as the device fails nothing and
the file has room for the stream, every call succeeds (`call_healthy`).
-/

namespace SideProjects

namespace LogStore

open Store

/-- All bytes accepted so far. -/
def Store.stream (s : Store) : Bytes := s.file.bytes ++ s.buf.pending

theorem File.write_ok {file file' : File} {b : Bytes} (h : file.write b = (true, file')) :
    file'.bytes = file.bytes ++ b := by
  simp only [File.write, Prod.mk.injEq, decide_eq_true_eq] at h
  obtain ⟨hle, rfl⟩ := h
  show file.bytes ++ b.take _ = _
  rw [List.take_of_length_le hle]

/-- No write has failed, and the buffer holds what is pending. -/
structure Live (s : Store) : Prop where
  err : s.buf.err = false
  pending : s.buf.pending.length ≤ bufSize

theorem bufWrite_ok {s s' : Store} {p : Bytes} {o : Outcome} (h : s.bufWrite p o = (true, s')) :
    s'.stream = s.stream ++ p ∧ s'.size = s.size ∧ Live s' := by
  unfold bufWrite at h
  by_cases he : s.buf.err = true
  · simp [he] at h
  by_cases hf : o.fails = true
  · simp [he, hf] at h
  simp only [he, hf, Bool.false_eq_true, if_false] at h
  generalize hsent : max o.sent ((s.buf.pending ++ p).length - bufSize) = sent at h
  rcases hw : s.file.write ((s.buf.pending ++ p).take sent) with ⟨written, file⟩
  simp only [hw, Prod.mk.injEq, Bool.and_eq_true] at h
  obtain ⟨⟨rfl, -⟩, rfl⟩ := h
  refine ⟨?_, rfl, rfl, ?_⟩
  · show file.bytes ++ (s.buf.pending ++ p).drop sent = _
    rw [File.write_ok hw, List.append_assoc, List.take_append_drop, stream, List.append_assoc]
  · show ((s.buf.pending ++ p).drop sent).length ≤ bufSize
    rw [List.length_drop]
    omega

theorem bufFlush_ok {s s' : Store} {o : Outcome} (h : s.bufFlush o = (true, s')) :
    s'.file.bytes = s.stream ∧ s'.stream = s.stream ∧ s'.size = s.size ∧ Live s' := by
  unfold bufFlush at h
  split_ifs at h with he hp hf
  · simp at h
  · obtain rfl : s = s' := by simpa using h
    have hn : s.buf.pending = [] := by simpa using hp
    exact ⟨by simp [stream, hn], rfl, rfl, by simpa using he, by simp [hn]⟩
  · simp [hf] at h
  · rcases hw : s.file.write s.buf.pending with ⟨written, file⟩
    simp only [hw, Prod.mk.injEq, Bool.and_eq_true] at h
    obtain ⟨⟨rfl, -⟩, rfl⟩ := h
    have hb : file.bytes = s.stream := File.write_ok hw
    have hnil : s.buf.pending.drop s.buf.pending.length = [] := List.drop_length
    refine ⟨hb, ?_, rfl, by simp [hf], by simp [hnil]⟩
    show file.bytes ++ s.buf.pending.drop s.buf.pending.length = _
    rw [hnil, List.append_nil, hb]

/-- A write that the device does not fail succeeds if the file has room for what is then accepted. -/
theorem bufWrite_healthy {s : Store} (hl : Live s) {p : Bytes} {o : Outcome} (ho : o.fails = false)
    (hroom : (s.stream ++ p).length ≤ maxFileSize) : ∃ s', s.bufWrite p o = (true, s') := by
  have hfits : ∀ sent, ((s.buf.pending ++ p).take sent).length ≤
      maxFileSize - s.file.bytes.length := by
    intro sent
    rw [stream, List.append_assoc, List.length_append] at hroom
    have := (List.take_prefix sent (s.buf.pending ++ p)).length_le
    omega
  unfold bufWrite
  simp only [hl.err, ho, Bool.false_eq_true, if_false, File.write, hfits, decide_true, Bool.not_false,
    Bool.and_true]
  exact ⟨_, rfl⟩

theorem bufFlush_healthy {s : Store} (hl : Live s) {o : Outcome} (ho : o.fails = false)
    (hroom : s.stream.length ≤ maxFileSize) : ∃ s', s.bufFlush o = (true, s') := by
  rw [stream, List.length_append] at hroom
  unfold bufFlush
  by_cases hp : s.buf.pending.isEmpty = true
  · exact ⟨s, by simp [hl.err, hp]⟩
  · have hwrite : s.buf.pending.length ≤ maxFileSize - s.file.bytes.length := by omega
    simp [hl.err, hp, ho, File.write, hwrite]

section Sessions

variable [Platform]

/-! ## Calls -/

theorem Payload.length_le (p : Payload) : p.bytes.length ≤ 2 ^ 47 :=
  le_trans p.fits Platform.memory_le

/-- What a call puts at the end of the stream. -/
def record : Op → Bytes
  | .append p _ _ => header p.bytes ++ p.bytes
  | _ => []

def records (ops : List Op) : Bytes := ops.flatMap record

/-- What a call answers when `stream` has been accepted before it. -/
def Answers (stream : Bytes) : Op → Answer → Prop
  | .append p _ _, answer => answer =
      .appended (UInt64.ofNat (p.bytes.length + lenWidth)) (UInt64.ofNat stream.length)
  | .read pos _, answer => ∃ file : File, file.bytes = stream ∧
      answer = .read (readRecord file pos)
  | .readAt n off _, answer => ∃ file : File, file.bytes = stream ∧
      answer = .readAt (file.readAt n off)

/-- `size` counts the stream. -/
def Counted (s : Store) : Prop := s.size = UInt64.ofNat s.stream.length

omit [Platform] in
theorem stream_newStore (file : File) : (newStore file).stream = file.bytes := List.append_nil _

omit [Platform] in
theorem counted_newStore (file : File) : Counted (newStore file) := by
  rw [Counted, stream_newStore]
  rfl

omit [Platform] in
theorem live_newStore (file : File) : Live (newStore file) := ⟨rfl, Nat.zero_le _⟩

theorem call_append {s s' : Store} {p : Payload} {o₁ o₂ : Outcome} {answer : Answer}
    (hs : Counted s) (h : call s (.append p o₁ o₂) = .ok (answer, s')) :
    s'.stream = s.stream ++ (header p.bytes ++ p.bytes) ∧ Counted s' ∧ Live s' ∧
      answer = .appended (UInt64.ofNat (p.bytes.length + lenWidth))
        (UInt64.ofNat s.stream.length) := by
  simp only [call, Store.append] at h
  rcases h₁ : s.bufWrite (header p.bytes) o₁ with ⟨_ | _, s₁⟩ <;> simp only [h₁] at h
  · cases h
  rcases h₂ : s₁.bufWrite p.bytes o₂ with ⟨_ | _, s₂⟩ <;> simp only [h₂] at h
  · cases h
  obtain ⟨hst₁, hsz₁, -⟩ := bufWrite_ok h₁
  obtain ⟨hst₂, hsz₂, hlive⟩ := bufWrite_ok h₂
  simp only [Except.ok.injEq, Prod.mk.injEq] at h
  obtain ⟨rfl, rfl⟩ := h
  have hst : s₂.stream = s.stream ++ (header p.bytes ++ p.bytes) := by
    rw [hst₂, hst₁, List.append_assoc]
  refine ⟨hst, ?_, ⟨hlive.err, hlive.pending⟩, by rw [hs]⟩
  show s₂.size + _ = UInt64.ofNat s₂.stream.length
  rw [hsz₂, hsz₁, hs, hst, ← UInt64.ofNat_add]
  simp [header, Nat.add_comm]

theorem call_ok {s s' : Store} {op : Op} {answer : Answer} (hs : Counted s)
    (h : call s op = .ok (answer, s')) :
    s'.stream = s.stream ++ record op ∧ Counted s' ∧ Live s' ∧ Answers s.stream op answer := by
  cases op with
  | append p o₁ o₂ => exact call_append hs h
  | read pos o =>
    simp only [call, Store.read] at h
    rcases hf : s.bufFlush o with ⟨_ | _, s₁⟩ <;> simp only [hf] at h
    · cases h
    obtain ⟨hfile, hst, hsz, hlive⟩ := bufFlush_ok hf
    have hc : Counted s₁ := by rw [Counted, hsz, hst, hs]
    split at h
    · cases h
    · rename_i hr
      cases hr
      cases h
      exact ⟨by simp [hst, record], hc, hlive, s'.file, hfile, rfl⟩
  | readAt n off o =>
    simp only [call, Store.readAt] at h
    rcases hf : s.bufFlush o with ⟨_ | _, s₁⟩ <;> simp only [hf] at h
    · cases h
    obtain ⟨hfile, hst, hsz, hlive⟩ := bufFlush_ok hf
    have hc : Counted s₁ := by rw [Counted, hsz, hst, hs]
    split at h
    · cases h
    · rename_i hr
      cases hr
      cases h
      exact ⟨by simp [hst, record], hc, hlive, s'.file, hfile, rfl⟩

/-! ## Sessions -/

/-- Every call of the log answers for the stream the calls before it left. -/
def Explains : Bytes → List (Op × Answer) → Prop
  | _, [] => True
  | stream, (op, answer) :: log => Answers stream op answer ∧ Explains (stream ++ record op) log

theorem explains_append : ∀ {stream : Bytes} {l l' : List (Op × Answer)},
    Explains stream (l ++ l') ↔
      Explains stream l ∧ Explains (stream ++ records (l.map Prod.fst)) l'
  | stream, [], l' => by simp [Explains, records]
  | stream, (op, answer) :: l, l' => by
    simp only [List.cons_append, Explains, explains_append, and_assoc]
    simp [records]

theorem calls_ok : ∀ {ops : List Op} {s s' : Store} {answers : List Answer}, Counted s →
    runAll call s ops = .ok (answers, s') →
    s'.stream = s.stream ++ records ops ∧ Counted s' ∧ Explains s.stream (ops.zip answers) ∧
      (ops.zip answers).map Prod.fst = ops
  | [], s, s', answers, hs, h => by
    cases h
    exact ⟨by simp [records], hs, trivial, rfl⟩
  | op :: ops, s, s', answers, hs, h => by
    obtain ⟨answer, s₁, answers', h₁, h₂, rfl⟩ := runAll_cons_eq_ok.mp h
    obtain ⟨hst₁, hs₁, -, ha⟩ := call_ok hs h₁
    obtain ⟨hst, hs', he, hz⟩ := calls_ok hs₁ h₂
    rw [hst₁] at hst he
    refine ⟨by rw [hst]; simp [records], hs', ⟨ha, he⟩, ?_⟩
    rw [List.zip_cons_cons, List.map_cons, hz]

theorem session_ok {file file' : File} {ses : Session} {answers : List Answer}
    (h : session file ses = .ok (answers, file')) :
    file'.bytes = file.bytes ++ records ses.ops ∧ Explains file.bytes (ses.ops.zip answers) ∧
      (ses.ops.zip answers).map Prod.fst = ses.ops := by
  unfold session at h
  rcases hr : runAll call (newStore file) ses.ops with e | ⟨answers', s⟩ <;> simp only [hr] at h
  · cases h
  obtain ⟨hst, -, he, hz⟩ := calls_ok (counted_newStore file) hr
  simp only [Store.close] at h
  rcases hf : s.bufFlush ses.close with ⟨_ | _, s₁⟩ <;> simp only [hf] at h
  · cases h
  cases h
  rw [stream_newStore] at hst he
  exact ⟨(bufFlush_ok hf).1.trans hst, he, hz⟩

/-- All calls with their answers, over the sessions. -/
def history (sessions : List Session) (answers : List (List Answer)) : List (Op × Answer) :=
  (sessions.zip answers).flatMap fun r => r.1.ops.zip r.2

theorem sessions_ok : ∀ {sessions : List Session} {file file' : File} {answers : List (List Answer)},
    runAll session file sessions = .ok (answers, file') →
    file'.bytes = file.bytes ++ records ((history sessions answers).map Prod.fst) ∧
      Explains file.bytes (history sessions answers) ∧
      (history sessions answers).map Prod.fst = sessions.flatMap Session.ops
  | [], file, file', answers, h => by
    cases h
    exact ⟨by simp [history, records], trivial, rfl⟩
  | ses :: sessions, file, file', answers, h => by
    obtain ⟨answers₁, file₁, answers', h₁, h₂, rfl⟩ := runAll_cons_eq_ok.mp h
    obtain ⟨hst₁, he₁, hz⟩ := session_ok h₁
    obtain ⟨hst, he, hops⟩ := sessions_ok h₂
    rw [hst₁] at hst he
    have hh : history (ses :: sessions) (answers₁ :: answers') =
        ses.ops.zip answers₁ ++ history sessions answers' := rfl
    rw [hh, List.map_append, hz]
    refine ⟨by rw [hst]; simp [records], explains_append.mpr ⟨he₁, ?_⟩, ?_⟩
    · rwa [hz]
    · rw [hops, List.flatMap_cons]

/-! ## Reads -/

omit [Platform] in
theorem toInt_toInt64 {pos : UInt64} (h : pos.toNat < 2 ^ 63) : pos.toInt64.toInt = pos.toNat := by
  show pos.toBitVec.toInt = _
  rw [BitVec.toInt_eq_toNat_of_lt (by rw [UInt64.toNat_toBitVec]; omega), UInt64.toNat_toBitVec]

omit [Platform] in
theorem File.readAt_eq {file : File} {a x b : Bytes} (h : file.bytes = a ++ (x ++ b)) {off : Int64}
    (hoff : off.toInt = a.length) : file.readAt x.length off = (x, none) := by
  have hneg : ¬ off < 0 := by
    rw [Int64.lt_iff_toInt_lt, hoff]
    simp
  have hx : (file.bytes.drop off.toInt.toNat).take x.length = x := by
    rw [h, hoff, Int.toNat_natCast, List.drop_left, List.take_left]
  unfold File.readAt
  rw [if_neg hneg, hx]
  simp

omit [Platform] in
/-- What can be wrong with a read of the file. -/
theorem File.readAt_fault {file : File} {n : ℕ} {off : Int64} {b : Bytes} {e : Fault}
    (h : file.readAt n off = (b, some e)) : e = .negativeOffset ∨ e = .eof := by
  unfold File.readAt at h
  dsimp only at h
  split_ifs at h with hneg hlen
  · exact .inl (by simpa using (congrArg Prod.snd h).symm)
  · exact .inr (by simpa using (congrArg Prod.snd h).symm)
  · simp at h

theorem decode_header {p : Payload} : BigEndian.decode (header p.bytes) = p.bytes.length := by
  have hp := p.length_le
  rw [header, UInt64.toNat_ofNat', Nat.mod_eq_of_lt (by omega), BigEndian.decode_encode]
  unfold lenWidth
  omega

/-- A record that is in the file is read back from where it starts. -/
theorem readRecord_eq {file : File} {a b : Bytes} {p : Payload}
    (h : file.bytes = a ++ ((header p.bytes ++ p.bytes) ++ b)) :
    readRecord file (UInt64.ofNat a.length) = .ok p.bytes := by
  have hfits := file.fits
  have hlen : (header p.bytes).length = lenWidth := BigEndian.length_encode _ _
  have hle : a.length + lenWidth ≤ maxFileSize := by
    rw [h] at hfits
    simp only [List.length_append, hlen] at hfits
    omega
  unfold maxFileSize at hle
  have hpos : (UInt64.ofNat a.length).toNat = a.length := by
    rw [UInt64.toNat_ofNat', Nat.mod_eq_of_lt (by omega)]
  have hnext : (UInt64.ofNat a.length + UInt64.ofNat lenWidth).toNat = a.length + lenWidth := by
    rw [← UInt64.ofNat_add, UInt64.toNat_ofNat', Nat.mod_eq_of_lt (by omega)]
  have hsize := File.readAt_eq (x := header p.bytes) (b := p.bytes ++ b)
    (by rw [h, List.append_assoc]) ((toInt_toInt64 (by rw [hpos]; omega)).trans (by rw [hpos]))
  have hbytes := File.readAt_eq (a := a ++ header p.bytes) (x := p.bytes) (b := b)
    (by rw [h]; simp) ((toInt_toInt64 (by rw [hnext]; omega)).trans (by rw [hnext]; simp [hlen]))
  rw [hlen] at hsize
  have halloc : ¬ maxAlloc < p.bytes.length := by
    have := p.length_le
    unfold maxAlloc
    omega
  have hmemory : ¬ Platform.memory < p.bytes.length := not_lt.mpr p.fits
  simp only [readRecord, hsize, decode_header, if_neg halloc, if_neg hmemory, hbytes]

/-! ## The round trip -/

/-- What `Append` returned, in order. -/
def appends (log : List (Op × Answer)) : List (UInt64 × UInt64) :=
  log.filterMap fun r =>
    match r.2 with
    | .appended n pos => some (n, pos)
    | _ => none

/-- The first position is `start`, and each next one is where the one before ends. -/
def Tiles : ℕ → List (UInt64 × UInt64) → Prop
  | _, [] => True
  | start, (n, pos) :: rest => pos.toNat = start ∧ Tiles (pos.toNat + n.toNat) rest

/-- The log of all calls of all sessions, the first of which found a file of `start` bytes. -/
structure RoundTrip (start : ℕ) (log : List (Op × Answer)) : Prop where
  /-- `Append` returns the record's length and a position. -/
  appended : ∀ p o₁ o₂ answer, (.append p o₁ o₂, answer) ∈ log →
    ∃ n pos, answer = .appended n pos ∧ n.toNat = lenWidth + p.bytes.length
  tiles : Tiles start (appends log)
  /-- Whatever is read after an `Append`, in its session or a later one. -/
  reads : ∀ before p o₁ o₂ n pos between op answer after,
    log = before ++ (.append p o₁ o₂, .appended n pos) :: (between ++ (op, answer) :: after) →
    (∀ o, op = .read pos o → answer = .read (.ok p.bytes)) ∧
      (∀ off o, op = .readAt lenWidth off o → off.toInt = pos.toNat →
        answer = .readAt (BigEndian.encode 8 p.bytes.length, none)) ∧
      ∀ off o, op = .readAt p.bytes.length off o → off.toInt = ↑(pos.toNat + lenWidth) →
        answer = .readAt (p.bytes, none)

theorem toNat_recordLength (p : Payload) :
    (UInt64.ofNat (p.bytes.length + lenWidth)).toNat = lenWidth + p.bytes.length := by
  have hp := p.length_le
  unfold lenWidth
  rw [UInt64.toNat_ofNat', Nat.mod_eq_of_lt (by omega)]
  omega

theorem length_record (p : Payload) (o₁ o₂ : Outcome) :
    (record (.append p o₁ o₂)).length = lenWidth + p.bytes.length := by
  simp [record, header]

/-- The positions tile the stream, as long as all of it fits a file. -/
theorem tiles_of_explains : ∀ {log : List (Op × Answer)} {stream : Bytes}, Explains stream log →
    (stream ++ records (log.map Prod.fst)).length ≤ maxFileSize → Tiles stream.length (appends log)
  | [], _, _, _ => trivial
  | (op, answer) :: log, stream, ⟨ha, he⟩, hle => by
    have hle' : ((stream ++ record op) ++ records (log.map Prod.fst)).length ≤ maxFileSize := by
      simpa [records] using hle
    have ih := tiles_of_explains he hle'
    cases op with
    | append p o₁ o₂ =>
      obtain rfl := ha
      have hpos : (UInt64.ofNat stream.length).toNat = stream.length := by
        rw [UInt64.toNat_ofNat', Nat.mod_eq_of_lt]
        simp only [List.length_append] at hle
        unfold maxFileSize at hle
        omega
      refine ⟨hpos, ?_⟩
      rw [hpos, toNat_recordLength, ← length_record p o₁ o₂, ← List.length_append]
      exact ih
    | read pos o =>
      obtain ⟨file, -, rfl⟩ := ha
      simpa [record, appends] using ih
    | readAt n off o =>
      obtain ⟨file, -, rfl⟩ := ha
      simpa [record, appends] using ih

theorem appended_of_explains {log : List (Op × Answer)} {stream : Bytes} (h : Explains stream log)
    {p : Payload} {o₁ o₂ : Outcome} {answer : Answer} (hm : (.append p o₁ o₂, answer) ∈ log) :
    ∃ n pos, answer = .appended n pos ∧ n.toNat = lenWidth + p.bytes.length := by
  obtain ⟨before, after, rfl⟩ := List.append_of_mem hm
  obtain ⟨-, rfl, -⟩ := explains_append.mp h
  exact ⟨_, _, rfl, toNat_recordLength p⟩

/-- Where a record is when a later call looks. -/
theorem record_of_explains {stream : Bytes} {before between after : List (Op × Answer)}
    {p : Payload} {o₁ o₂ : Outcome} {n pos : UInt64} {op : Op} {answer : Answer}
    (h : Explains stream
      (before ++ (.append p o₁ o₂, .appended n pos) :: (between ++ (op, answer) :: after))) :
    ∃ a b, pos = UInt64.ofNat a.length ∧
      Answers (a ++ ((header p.bytes ++ p.bytes) ++ b)) op answer := by
  obtain ⟨-, ha, hrest⟩ := explains_append.mp h
  obtain ⟨-, hop, -⟩ := explains_append.mp hrest
  simp only [Answers, Answer.appended.injEq] at ha
  refine ⟨_, records (between.map Prod.fst), ha.2, ?_⟩
  rw [← List.append_assoc]
  exact hop

theorem reads_of_explains {stream : Bytes} {before between after : List (Op × Answer)}
    {p : Payload} {o₁ o₂ : Outcome} {n pos : UInt64} {op : Op} {answer : Answer}
    (h : Explains stream
      (before ++ (.append p o₁ o₂, .appended n pos) :: (between ++ (op, answer) :: after))) :
    (∀ o, op = .read pos o → answer = .read (.ok p.bytes)) ∧
      (∀ off o, op = .readAt lenWidth off o → off.toInt = pos.toNat →
        answer = .readAt (BigEndian.encode 8 p.bytes.length, none)) ∧
      ∀ off o, op = .readAt p.bytes.length off o → off.toInt = ↑(pos.toNat + lenWidth) →
        answer = .readAt (p.bytes, none) := by
  obtain ⟨a, b, rfl, hop⟩ := record_of_explains h
  have hlen : (header p.bytes).length = lenWidth := BigEndian.length_encode _ _
  have hpos : ∀ file : File, file.bytes = a ++ ((header p.bytes ++ p.bytes) ++ b) →
      (UInt64.ofNat a.length).toNat = a.length := by
    intro file hfile
    have hfits := file.fits
    rw [hfile] at hfits
    simp only [List.length_append] at hfits
    unfold maxFileSize at hfits
    rw [UInt64.toNat_ofNat', Nat.mod_eq_of_lt (by omega)]
  refine ⟨?_, ?_, ?_⟩
  · rintro o rfl
    obtain ⟨file, hfile, rfl⟩ := hop
    rw [readRecord_eq hfile]
  · rintro off o rfl hoff
    obtain ⟨file, hfile, rfl⟩ := hop
    rw [hpos file hfile] at hoff
    have hr := File.readAt_eq (x := header p.bytes) (b := p.bytes ++ b)
      (by rw [hfile, List.append_assoc]) hoff
    rw [hlen] at hr
    have hp := p.length_le
    rw [hr, header, UInt64.toNat_ofNat', Nat.mod_eq_of_lt (by omega)]
    rfl
  · rintro off o rfl hoff
    obtain ⟨file, hfile, rfl⟩ := hop
    rw [hpos file hfile] at hoff
    rw [File.readAt_eq (a := a ++ header p.bytes) (x := p.bytes) (b := b)
      (by rw [hfile]; simp) (hoff.trans (by simp [hlen]))]

theorem roundTrip_of_ok {file file' : File} {sessions : List Session}
    {answers : List (List Answer)} (h : runAll session file sessions = .ok (answers, file')) :
    RoundTrip file.bytes.length (history sessions answers) := by
  obtain ⟨hfile, he, -⟩ := sessions_ok h
  refine ⟨fun p o₁ o₂ answer hm => appended_of_explains he hm, tiles_of_explains he ?_, ?_⟩
  · rw [← hfile]
    exact file'.fits
  · rintro before p o₁ o₂ n pos between op answer after hlog
    rw [hlog] at he
    exact reads_of_explains he

/-! ## Sessions without a failure -/

/-- No write of the call fails. -/
def Op.Healthy : Op → Prop
  | .append _ o₁ o₂ => o₁.fails = false ∧ o₂.fails = false
  | .read _ o => o.fails = false
  | .readAt _ _ o => o.fails = false

structure Session.Healthy (ses : Session) : Prop where
  ops : ∀ op ∈ ses.ops, op.Healthy
  close : ses.close.fails = false

theorem readRecord_ne_write (file : File) (pos : UInt64) : readRecord file pos ≠ .error .write := by
  unfold readRecord
  intro h
  split at h
  · rename_i b e hr
    obtain rfl : e = .write := by simpa using h
    simpa using File.readAt_fault hr
  · dsimp only at h
    split_ifs at h
    · simp at h
    · simp at h
    · split at h
      · rename_i b e hr
        obtain rfl : e = .write := by simpa using h
        simpa using File.readAt_fault hr
      · simp at h

omit [Platform] in
theorem room_of_append {a b : Bytes} (h : (a ++ b).length ≤ maxFileSize) :
    a.length ≤ maxFileSize := by
  rw [List.length_append] at h
  omega

/-- A call without a failure succeeds if the file has room for what is then accepted. -/
theorem call_healthy {s : Store} (hl : Live s) {op : Op} (hop : op.Healthy)
    (hroom : (s.stream ++ record op).length ≤ maxFileSize) :
    ∃ answer s', call s op = .ok (answer, s') := by
  have hroom' := room_of_append hroom
  cases op with
  | append p o₁ o₂ =>
    have hheader : (s.stream ++ header p.bytes).length ≤ maxFileSize := by
      rw [record, ← List.append_assoc] at hroom
      exact room_of_append hroom
    obtain ⟨s₁, h₁⟩ := bufWrite_healthy hl hop.1 hheader
    obtain ⟨hstream, -, hl₁⟩ := bufWrite_ok h₁
    have hpayload : (s₁.stream ++ p.bytes).length ≤ maxFileSize := by
      rwa [hstream, List.append_assoc]
    obtain ⟨s₂, h₂⟩ := bufWrite_healthy hl₁ hop.2 hpayload
    simp only [call, Store.append, h₁, h₂]
    exact ⟨_, _, rfl⟩
  | read pos o =>
    obtain ⟨s', hf⟩ := bufFlush_healthy hl hop hroom'
    simp only [call, Store.read, hf]
    rcases hr : readRecord s'.file pos with e | b
    · cases e with
      | write => exact absurd hr (readRecord_ne_write _ _)
      | _ => exact ⟨_, _, rfl⟩
    · exact ⟨_, _, rfl⟩
  | readAt n off o =>
    obtain ⟨s', hf⟩ := bufFlush_healthy hl hop hroom'
    simp only [call, Store.readAt, hf]
    rcases hr : s'.file.readAt n off with ⟨b, _ | e⟩
    · exact ⟨_, _, rfl⟩
    · rcases File.readAt_fault hr with rfl | rfl <;> exact ⟨_, _, rfl⟩

theorem calls_healthy : ∀ {ops : List Op} {s : Store}, Counted s → Live s →
    (∀ op ∈ ops, op.Healthy) → (s.stream ++ records ops).length ≤ maxFileSize →
    ∃ answers s', runAll call s ops = .ok (answers, s') ∧ Live s'
  | [], s, _, hl, _, _ => ⟨[], s, rfl, hl⟩
  | op :: ops, s, hc, hl, hops, hroom => by
    have hrecords : records (op :: ops) = record op ++ records ops := rfl
    rw [hrecords, ← List.append_assoc] at hroom
    obtain ⟨answer, s₁, h₁⟩ := call_healthy hl (hops op List.mem_cons_self)
      (room_of_append hroom)
    obtain ⟨hstream, hc₁, hl₁, -⟩ := call_ok hc h₁
    obtain ⟨answers, s', hr, hl'⟩ := calls_healthy hc₁ hl₁
      (fun op' hop' => hops op' (List.mem_cons_of_mem _ hop')) (hstream ▸ hroom)
    exact ⟨answer :: answers, s', runAll_cons_eq_ok.mpr ⟨_, _, _, h₁, hr, rfl⟩, hl'⟩

theorem session_healthy {file : File} {ses : Session} (hses : ses.Healthy)
    (hroom : (file.bytes ++ records ses.ops).length ≤ maxFileSize) :
    ∃ answers file', session file ses = .ok (answers, file') := by
  obtain ⟨answers, s, hr, hl⟩ := calls_healthy (counted_newStore file) (live_newStore file) hses.ops
    (by rwa [stream_newStore])
  obtain ⟨hstream, -⟩ := calls_ok (counted_newStore file) hr
  rw [stream_newStore] at hstream
  obtain ⟨s', hf⟩ := bufFlush_healthy hl hses.close (hstream ▸ hroom)
  exact ⟨answers, s'.file, by simp only [session, hr, Store.close, hf]⟩

theorem runAll_healthy : ∀ {sessions : List Session} {file : File}, (∀ ses ∈ sessions, ses.Healthy) →
    (file.bytes ++ records (sessions.flatMap Session.ops)).length ≤ maxFileSize →
    ∃ answers file', runAll session file sessions = .ok (answers, file')
  | [], file, _, _ => ⟨[], file, rfl⟩
  | ses :: sessions, file, hall, hroom => by
    have hrecords : records ((ses :: sessions).flatMap Session.ops) =
        records ses.ops ++ records (sessions.flatMap Session.ops) := by
      simp [records]
    rw [hrecords, ← List.append_assoc] at hroom
    obtain ⟨answers, file₁, h₁⟩ := session_healthy (hall ses List.mem_cons_self)
      (room_of_append hroom)
    obtain ⟨hfile, -⟩ := session_ok h₁
    obtain ⟨answers', file', hr⟩ := runAll_healthy
      (fun ses' hses' => hall ses' (List.mem_cons_of_mem _ hses')) (hfile ▸ hroom)
    exact ⟨answers :: answers', file', runAll_cons_eq_ok.mpr ⟨_, _, _, h₁, hr, rfl⟩⟩

/-- Sessions in which the device fails nothing, and whose records the file has room for, run to their
end, and every call of theirs is answered. They append where the last append ended and read back what
was appended, whenever and however the buffer was emptied. -/
theorem sessions_roundTrip (file : File) {sessions : List Session}
    (hhealthy : ∀ ses ∈ sessions, ses.Healthy)
    (hroom : (file.bytes ++ records (sessions.flatMap Session.ops)).length ≤ maxFileSize) :
    ∃ answers file', runAll session file sessions = .ok (answers, file') ∧
      file'.bytes = file.bytes ++ records (sessions.flatMap Session.ops) ∧
      (history sessions answers).map Prod.fst = sessions.flatMap Session.ops ∧
      RoundTrip file.bytes.length (history sessions answers) := by
  obtain ⟨answers, file', h⟩ := runAll_healthy hhealthy hroom
  obtain ⟨hfile, -, hops⟩ := sessions_ok h
  exact ⟨answers, file', h, by rw [hfile, hops], hops, roundTrip_of_ok h⟩

end Sessions

/-- A process with a gigabyte. -/
@[reducible]
def gigabyte : Platform := ⟨2 ^ 30, by decide⟩

section Gigabyte

local instance : Platform := gigabyte

def calm : Outcome := ⟨0, false⟩

/-- A record cut by the buffer, read back at once and in the next session, there in its parts too,
behind an empty one. -/
def reopened : List Session :=
  [⟨[.append ⟨[1, 2], by decide⟩ ⟨3, false⟩ ⟨6, false⟩, .read 4 calm, .readAt 8 4 calm], calm⟩,
    ⟨[.append ⟨[], by decide⟩ calm ⟨1, false⟩, .read 14 calm, .read 4 calm, .readAt 2 12 calm], calm⟩]

theorem sessions_roundTrip_reopened :
    let answers : List (List Answer) :=
      [[.appended 10 4, .read (.ok [1, 2]), .readAt ([0, 0, 0, 0, 0, 0, 0, 2], none)],
        [.appended 8 14, .read (.ok []), .read (.ok [1, 2]), .readAt ([1, 2], none)]]
    (∃ file', runAll session ⟨[7, 7, 7, 7], by decide⟩ reopened = .ok (answers, file')) ∧
      RoundTrip 4 (history reopened answers) := by
  have hhealthy : ∀ ses ∈ reopened, ses.Healthy := by
    intro ses hses
    simp only [reopened, List.mem_cons, List.not_mem_nil, or_false] at hses
    rcases hses with rfl | rfl <;> exact ⟨by simp [Op.Healthy, calm], rfl⟩
  obtain ⟨answers', file', h, -, -, hround⟩ :=
    sessions_roundTrip ⟨[7, 7, 7, 7], by decide⟩ hhealthy (by decide)
  have hrun : runAll session ⟨[7, 7, 7, 7], by decide⟩ reopened = .ok (_, _) := rfl
  obtain ⟨rfl, rfl⟩ := Prod.mk.inj (Except.ok.inj (h.symm.trans hrun))
  exact ⟨⟨_, hrun⟩, hround⟩

end Gigabyte

end LogStore

end SideProjects
