import Mathlib.Data.Fintype.Card
import SideProjects.Lib.Linearization
import SideProjects.LogServer

/-!
# What the log server keeps

The messages are read as what was written (`decode_encode_messages`), whatever the bytes of a record
are, and the empty ones are told from none at all. However the goroutines interleave, the requests are answered
as if they had come one after the other, in the order in which their methods of the log ran
(`run_linearizes`). So a record whose offset has been answered is what every later request for that
offset is answered (`run_keeps`).
-/

namespace SideProjects

namespace LogServer

open Json (Text Value Reads)

/-! ## The messages -/

theorem plain_base64 (b : Bytes) : Json.Plain (Base64.encode b) := by
  intro c hc
  have hall : Json.Plain Base64.alphabet := by decide
  rcases Base64.mem_encode hc with hc | rfl
  · exact hall c hc
  · decide

theorem plain_names : Json.Plain "record".toList ∧ Json.Plain "value".toList ∧
    Json.Plain "offset".toList := by
  decide

/-- A field is found under its own name, and under no other's. -/
theorem names_fields : names "record" "record".toList ∧ names "value" "value".toList ∧
    names "offset" "offset".toList ∧ names "value" "offset".toList = false := by
  decide

/-- What the text of a value is read as. -/
def bytesValue : Option Bytes → Value
  | none => .null
  | some b => .string (Base64.encode b)

def numberValue (n : ℕ) : Value := .number (Json.numberText n)

def recordValue (r : Record) : Value :=
  .object [("value".toList, bytesValue r.value), ("offset".toList, numberValue r.offset.toNat)]

theorem reads_bytes (depth : ℕ) (value : Option Bytes) :
    Reads depth (marshalBytes value) (bytesValue value) := by
  cases value with
  | none => exact Json.reads_null depth
  | some b => exact Json.reads_string depth (plain_base64 b)

theorem reads_offset (depth : ℕ) (offset : UInt64) : Reads (depth + 1) (marshalOffset offset)
    (.object [("offset".toList, numberValue offset.toNat)]) :=
  Json.reads_object (.cons ⟨rfl, plain_names.2.2, Json.reads_number depth _⟩ .nil)

theorem reads_record (depth : ℕ) (r : Record) : Reads (depth + 1) r.marshal (recordValue r) :=
  Json.reads_object (.cons ⟨rfl, plain_names.2.1, reads_bytes depth r.value⟩
    (.cons ⟨rfl, plain_names.2.2, Json.reads_number depth _⟩ .nil))

theorem reads_marshalRecord (depth : ℕ) (r : Record) :
    Reads (depth + 2) (marshalRecord r) (.object [("record".toList, recordValue r)]) :=
  Json.reads_object (.cons ⟨rfl, plain_names.1, reads_record depth r⟩ .nil)

theorem decode_of_reads {α : Type} {unmarshal : Value → Option α} {t : Text} {v : Value}
    (h : Reads maxNestingDepth t v) : decode unmarshal (t ++ ['\n']) = unmarshal v := by
  have hstop : Json.Stops ['\n'] := ⟨rfl, by decide, by decide, by decide⟩
  rw [decode, h _ hstop]
  rfl

theorem unmarshalUint_number {bits n : ℕ} (h : n < 2 ^ bits) (old : ℕ) :
    unmarshalUint bits old (numberValue n) = some n := by
  have hdigits : (Json.numberText n).all Char.isDigit = true :=
    List.all_eq_true.mpr fun c hc => Nat.isDigit_of_mem_toDigits (by decide) (by decide) hc
  have hvalue : Nat.ofDigitChars 10 (Json.numberText n) 0 = n := Nat.ofDigitChars_ten_toDigits
  rw [numberValue, unmarshalUint, hdigits, hvalue, Bool.true_and, if_pos (by simpa using h)]

theorem unmarshalBytes_bytes (old value : Option Bytes) :
    unmarshalBytes old (bytesValue value) = some value := by
  cases value with
  | none => rfl
  | some b => rw [bytesValue, unmarshalBytes, Base64.decode_encode, Option.map_some]

theorem unmarshalOffset_number (old offset : UInt64) :
    unmarshalOffset old ("offset".toList, numberValue offset.toNat) = some offset := by
  rw [unmarshalOffset, if_pos names_fields.2.2.1, unmarshalUint_number offset.toNat_lt, Option.map_some,
    UInt64.ofNat_toNat]

theorem unmarshal_recordValue (old r : Record) : old.unmarshal (recordValue r) = some r := by
  obtain ⟨-, hvalue, -, hoffset⟩ := names_fields
  rw [recordValue, Record.unmarshal, unmarshalStruct, List.foldlM_cons]
  simp only [hvalue, if_true, unmarshalBytes_bytes, Option.map_some, Option.bind_eq_bind,
    Option.bind_some, List.foldlM_cons, hoffset, Bool.false_eq_true, if_false,
    unmarshalOffset_number]
  rfl

theorem decode_marshalOffset (offset : UInt64) :
    decode (unmarshalStruct unmarshalOffset 0) (marshalOffset offset ++ ['\n']) = some offset := by
  rw [decode_of_reads (reads_offset _ offset), unmarshalStruct, List.foldlM_cons,
    unmarshalOffset_number]
  rfl

theorem decode_marshalRecord (r : Record) :
    decode (unmarshalStruct unmarshalRecord ⟨none, 0⟩) (marshalRecord r ++ ['\n']) = some r := by
  rw [decode_of_reads (reads_marshalRecord _ r), unmarshalStruct, List.foldlM_cons,
    unmarshalRecord, if_pos names_fields.1, unmarshal_recordValue]
  rfl

theorem ProduceRequest.decode_encode (r : Record) :
    ProduceRequest.decode (ProduceRequest.mk r).encode = some ⟨r⟩ :=
  congrArg (Option.map _) (decode_marshalRecord r)

theorem ProduceResponse.decode_encode (offset : UInt64) :
    ProduceResponse.decode (ProduceResponse.mk offset).encode = some ⟨offset⟩ :=
  congrArg (Option.map _) (decode_marshalOffset offset)

theorem ConsumeRequest.decode_encode (offset : UInt64) :
    ConsumeRequest.decode (ConsumeRequest.mk offset).encode = some ⟨offset⟩ :=
  congrArg (Option.map _) (decode_marshalOffset offset)

theorem ConsumeResponse.decode_encode (r : Record) :
    ConsumeResponse.decode (ConsumeResponse.mk r).encode = some ⟨r⟩ :=
  congrArg (Option.map _) (decode_marshalRecord r)

/-- A message is read as what was written. -/
theorem decode_encode_messages (r : Record) (offset : UInt64) :
    ProduceRequest.decode (ProduceRequest.mk r).encode = some ⟨r⟩ ∧
      ProduceResponse.decode (ProduceResponse.mk offset).encode = some ⟨offset⟩ ∧
      ConsumeRequest.decode (ConsumeRequest.mk offset).encode = some ⟨offset⟩ ∧
      ConsumeResponse.decode (ConsumeResponse.mk r).encode = some ⟨r⟩ :=
  ⟨ProduceRequest.decode_encode r, ProduceResponse.decode_encode offset,
    ConsumeRequest.decode_encode offset, ConsumeResponse.decode_encode r⟩

/-! ## One after the other -/

/-- The response of a request whose work has been done. -/
def Handler.answer : Handler → Option Response
  | .produced res => some ⟨200, some res.encode⟩
  | .consumed res => some ⟨200, some res.encode⟩
  | .responded response => some response
  | _ => none

section Interleavings

variable {ι : Type*} [DecidableEq ι] {requests : ι → Request} {s : State ι} {i : ι}

structure Inv (requests : ι → Request) (s : State ι) : Prop where
  linear : Linearization handle .new requests s.served s.log fun i => (s.handlers i).answer
  appending : ∀ i req, s.handlers i = .appending req →
    ∃ body, requests i = .produce body ∧ ProduceRequest.decode body = some req
  reading : ∀ i req, s.handlers i = .reading req →
    ∃ body, requests i = .consume body ∧ ConsumeRequest.decode body = some req

omit [DecidableEq ι] in
theorem Inv.init : Inv requests .init where
  linear := .nil fun _ => rfl
  appending := by rintro i req ⟨⟩
  reading := by rintro i req ⟨⟩

/-- A step on the way to the work, or from the work to the response. -/
theorem Inv.advance (h : Inv requests s) {t : Handler} (ht : t.answer = (s.handlers i).answer)
    (happend : ∀ req, t = .appending req →
      ∃ body, requests i = .produce body ∧ ProduceRequest.decode body = some req)
    (hread : ∀ req, t = .reading req →
      ∃ body, requests i = .consume body ∧ ConsumeRequest.decode body = some req) :
    Inv requests (s.set i t) := by
  refine ⟨h.linear.congr fun j => ?_, fun j req hj => ?_, fun j req hj => ?_⟩ <;> by_cases he : j = i
  · subst he
    simp only [State.set, Function.update_self, ht]
  · simp only [State.set, Function.update_of_ne he]
  · subst he
    exact happend req (by simpa [State.set] using hj)
  · exact h.appending j req (by simpa [State.set, Function.update_of_ne he] using hj)
  · subst he
    exact hread req (by simpa [State.set] using hj)
  · exact h.reading j req (by simpa [State.set, Function.update_of_ne he] using hj)

/-- The step that does the work. -/
theorem Inv.serve (h : Inv requests s) {t : Handler} {log : Log} {response : Response}
    (hi : (s.handlers i).answer = none) (ht : t.answer = some response)
    (hhandle : handle s.log (requests i) = (response, log)) :
    Inv requests { s.set i t with log, served := s.served ++ [i] } := by
  have hne : t.answer ≠ none := by simp [ht]
  refine ⟨?_, fun j req hj => ?_, fun j req hj => ?_⟩
  · have hserve := h.linear.serve_one (fun j => ((s.set i t).handlers j).answer) hi
      (by simp only [State.set, Function.update_self, ht, hhandle])
      fun j hj => by simp only [State.set, Function.update_of_ne hj]
    rwa [hhandle] at hserve
  · by_cases he : j = i
    · subst he
      obtain rfl : t = .appending req := by simpa [State.set] using hj
      exact absurd rfl hne
    · exact h.appending j req (by simpa [State.set, Function.update_of_ne he] using hj)
  · by_cases he : j = i
    · subst he
      obtain rfl : t = .reading req := by simpa [State.set] using hj
      exact absurd rfl hne
    · exact h.reading j req (by simpa [State.set, Function.update_of_ne he] using hj)

theorem Inv.step (h : Inv requests s) (i : ι) : Inv requests (s.step requests i) := by
  unfold State.step
  rcases hs : s.handlers i with _ | req | req | res | res | response
  · have hnone : (s.handlers i).answer = none := by rw [hs]; rfl
    rcases hreq : requests i with body | body
    · rcases hbody : ProduceRequest.decode body with _ | req
      · simp only [hbody]
        exact h.serve hnone rfl (by simp only [hreq, handle, handleProduce, hbody]; rfl)
      · simp only [hbody]
        refine h.advance hnone.symm (fun req' he => ?_) (by rintro _ ⟨⟩)
        cases he
        exact ⟨body, hreq, hbody⟩
    · rcases hbody : ConsumeRequest.decode body with _ | req
      · simp only [hbody]
        exact h.serve hnone rfl (by simp only [hreq, handle, handleConsume, hbody]; rfl)
      · simp only [hbody]
        refine h.advance hnone.symm (by rintro _ ⟨⟩) fun req' he => ?_
        cases he
        exact ⟨body, hreq, hbody⟩
  · obtain ⟨body, hreq, hbody⟩ := h.appending i req hs
    exact h.serve (by rw [hs]; rfl) rfl (by simp only [hreq, handle, handleProduce, hbody]; rfl)
  · obtain ⟨body, hreq, hbody⟩ := h.reading i req hs
    rcases hread : s.log.read req.offset with message | record
    · simp only [hread]
      exact h.serve (by rw [hs]; rfl) rfl (by simp only [hreq, handle, handleConsume, hbody, hread]; rfl)
    · simp only [hread]
      exact h.serve (by rw [hs]; rfl) rfl (by simp only [hreq, handle, handleConsume, hbody, hread]; rfl)
  · exact h.advance (by rw [hs]; rfl) (by rintro _ ⟨⟩) (by rintro _ ⟨⟩)
  · exact h.advance (by rw [hs]; rfl) (by rintro _ ⟨⟩) (by rintro _ ⟨⟩)
  · exact h

theorem run_inv (requests : ι → Request) (schedule : List ι) : Inv requests (run requests schedule) :=
  List.foldlRecOn schedule (State.step requests) Inv.init fun _ h i _ => h.step i

/-- Who has been served stays in his place. -/
theorem served_step (requests : ι → Request) (s : State ι) (i : ι) :
    s.served <+: (s.step requests i).served := by
  unfold State.step
  repeat' split
  all_goals first | exact List.prefix_refl _ | exact List.prefix_append _ _

theorem served_run (requests : ι → Request) (before after : List ι) :
    (run requests before).served <+: (run requests (before ++ after)).served := by
  rw [run, run, List.foldl_append]
  exact List.foldlRecOn (motive := fun s => (before.foldl (State.step requests) .init).served <+: s.served)
    after (State.step requests) (List.prefix_refl _) fun s h i _ => h.trans (served_step requests s i)

omit [DecidableEq ι] in
/-- Whoever has responded has been served, and his response is the one he is answered. -/
theorem Inv.position (h : Inv requests s) {response : Response}
    (hi : (s.handlers i).answer = some response) :
    ∃ k, s.served[k]? = some i ∧
      (handle (feed handle .new ((s.served.take k).map requests)).2 (requests i)).1 = response := by
  have hmem : i ∈ s.served := (h.linear.served i).mpr (by simp [hi])
  obtain ⟨k, hk⟩ := List.mem_iff_getElem?.mp hmem
  exact ⟨k, hk, Option.some.inj ((h.linear.answer_eq hk).symm.trans hi)⟩

/-- Whoever comes in later is served later. -/
theorem served_later {before after : List ι} {j : ι} (hj : (run requests before).handlers j = .waiting)
    {k : ℕ} (hk : (run requests (before ++ after)).served[k]? = some j) :
    (run requests before).served.length ≤ k := by
  by_contra hlt
  rw [Nat.not_le] at hlt
  have hnot : j ∉ (run requests before).served := by
    rw [(run_inv requests before).linear.served j, hj]
    simp [Handler.answer]
  rw [(List.prefix_iff_getElem?.mp (served_run requests before after)) k hlt] at hk
  obtain rfl : _ = j := Option.some.inj hk
  exact hnot (List.getElem_mem hlt)

/-- However the goroutines interleave, each response is that to the request alone, after those served
before it, and the log is what they leave. A request that comes in after another has been responded
to is served after it. -/
theorem run_linearizes (requests : ι → Request) (before after : List ι) :
    let s := run requests (before ++ after)
    s.served.Nodup ∧ s.log = (feed handle .new (s.served.map requests)).2 ∧
      (∀ i response, s.handlers i = .responded response → ∃ k : ℕ, s.served[k]? = some i ∧
        (feed handle .new (s.served.map requests)).1[k]? = some response) ∧
      ∀ i j response (k : ℕ), (run requests before).handlers i = .responded response →
        (run requests before).handlers j = .waiting → s.served[k]? = some j →
        ∃ m < k, s.served[m]? = some i := by
  intro s
  have hinv : Inv requests s := run_inv requests (before ++ after)
  refine ⟨hinv.linear.nodup, hinv.linear.state, fun i response hi => ?_,
    fun i j response k hi hj hk => ?_⟩
  · have hanswer : (s.handlers i).answer = some response := by rw [hi]; rfl
    obtain ⟨k, hk, -⟩ := hinv.position hanswer
    exact ⟨k, hk, (hinv.linear.answers i k hk).trans hanswer⟩
  · have hanswer : ((run requests before).handlers i).answer = some response := by rw [hi]; rfl
    obtain ⟨m, hm, -⟩ := (run_inv requests before).position hanswer
    obtain ⟨hlt, hget⟩ := List.getElem?_eq_some_iff.mp hm
    refine ⟨m, hlt.trans_le (served_later hj hk), ?_⟩
    rw [List.prefix_iff_getElem?.mp (served_run requests before after) m hlt, hget]

end Interleavings

def hello : Record := ⟨some [104, 101, 108, 108, 111], 7⟩

/-- A client that writes a record, and one that asks for the first. -/
def helloRequests : Fin 2 → Request := fun i =>
  if i = 0 then .produce (ProduceRequest.mk hello).encode else .consume (ConsumeRequest.mk 0).encode

theorem run_hello :
    (run helloRequests [0, 0, 0]).handlers 0 =
        .responded ⟨200, some (ProduceResponse.mk 0).encode⟩ ∧
      (run helloRequests [0, 0, 0]).handlers 1 = .waiting ∧
      (run helloRequests ([0, 0, 0] ++ [1, 1, 1])).handlers 1 =
        .responded ⟨200, some (ConsumeResponse.mk ⟨hello.value, 0⟩).encode⟩ := by
  have hproduce := ProduceRequest.decode_encode hello
  have hconsume := ConsumeRequest.decode_encode 0
  simp [run, State.step, State.init, helloRequests, hproduce, hconsume, State.set, Log.append,
    Log.new, Log.read]

theorem run_linearizes_hello :
    let s := run helloRequests ([0, 0, 0] ++ [1, 1, 1])
    ∃ k : ℕ, s.served[k]? = some 1 ∧ (feed handle .new (s.served.map helloRequests)).1[k]? =
      some ⟨200, some (ConsumeResponse.mk ⟨hello.value, 0⟩).encode⟩ ∧ ∃ m < k, s.served[m]? = some 0 := by
  obtain ⟨-, -, hanswers, horder⟩ := run_linearizes helloRequests [0, 0, 0] [1, 1, 1]
  obtain ⟨k, hk, hanswer⟩ := hanswers 1 _ run_hello.2.2
  exact ⟨k, hk, hanswer, horder 0 1 _ k run_hello.1 run_hello.2.1 hk⟩

/-! ## Offsets -/

/-- A request that appends a record. -/
def accepted : Request → Bool
  | .produce body => (ProduceRequest.decode body).isSome
  | .consume _ => false

/-- A request leaves all the records, and one more if it appends. -/
theorem handle_records (log : Log) (request : Request) :
    log.records <+: (handle log request).2.records ∧
      (handle log request).2.records.length =
        log.records.length + if accepted request then 1 else 0 := by
  rcases request with body | body
  · rcases hbody : ProduceRequest.decode body with _ | req
    · simp [handle, handleProduce, hbody, accepted]
    · simp [handle, handleProduce, hbody, accepted, Log.append]
  · simp [handle, accepted]

theorem feed_records : ∀ (log : Log) (requests : List Request),
    log.records <+: (feed handle log requests).2.records ∧
      (feed handle log requests).2.records.length =
        log.records.length + requests.countP accepted
  | _, [] => ⟨List.prefix_refl _, rfl⟩
  | log, request :: requests => by
    obtain ⟨hleft, hlength⟩ := handle_records log request
    obtain ⟨ihleft, ihlength⟩ := feed_records (handle log request).2 requests
    refine ⟨hleft.trans ihleft, ?_⟩
    rw [feed, ihlength, hlength, List.countP_cons, Nat.add_assoc, Nat.add_comm (ite _ _ _)]

/-- A record that has been appended is at its offset from then on. -/
theorem records_later {requests : List Request} {k m : ℕ} {body : Text} {req : ProduceRequest}
    (hk : requests[k]? = some (.produce body)) (hbody : ProduceRequest.decode body = some req)
    (hkm : k < m) :
    (feed handle .new (requests.take m)).2.records[(requests.take k).countP accepted]? =
      some ⟨req.record.value, .ofNat ((requests.take k).countP accepted)⟩ := by
  have hlength := (feed_records .new (requests.take k)).2
  set log := (feed handle .new (requests.take k)).2 with hlog
  have hcount : log.records.length = (requests.take k).countP accepted := by
    rw [hlength]
    exact Nat.zero_add _
  have hnext : (feed handle .new (requests.take (k + 1))).2.records =
      log.records ++ [⟨req.record.value, .ofNat log.records.length⟩] := by
    rw [List.take_add_one, hk, Option.toList_some, feed_append, ← hlog]
    simp only [feed, handle, handleProduce, hbody, Log.append]
  have hsplit : requests.take m = requests.take (k + 1) ++ (requests.take m).drop (k + 1) := by
    have htake := List.take_append_drop (k + 1) (requests.take m)
    rwa [List.take_take, min_eq_left (by omega), eq_comm] at htake
  have hleft : (feed handle .new (requests.take (k + 1))).2.records <+:
      (feed handle .new (requests.take m)).2.records := by
    rw [hsplit, feed_append]
    exact (feed_records _ _).1
  rw [hnext] at hleft
  rw [← hcount]
  have hget := List.prefix_iff_getElem?.mp hleft log.records.length (by simp)
  simpa using hget

/-- The response to a record: its offset is the number of records before it. -/
theorem handle_produce {log : Log} {body : Text} {req : ProduceRequest}
    (hbody : ProduceRequest.decode body = some req) :
    (handle log (.produce body)).1 =
      ⟨200, some (ProduceResponse.mk (.ofNat log.records.length)).encode⟩ := by
  simp only [handle, handleProduce, hbody, Log.append]

theorem handle_consume {log : Log} {body : Text} {req : ConsumeRequest} {n : ℕ} {record : Record}
    (hbody : ConsumeRequest.decode body = some req) (hn : req.offset.toNat = n)
    (hrecord : log.records[n]? = some record) :
    (handle log (.consume body)).1 = ⟨200, some (ConsumeResponse.mk record).encode⟩ := by
  subst hn
  obtain ⟨hlt, hget⟩ := List.getElem?_eq_some_iff.mp hrecord
  simp only [handle, handleConsume, hbody, Log.read, hlt, dif_pos, hget]

theorem countP_take_lt {requests : List Request} {k m : ℕ} {request : Request}
    (hk : requests[k]? = some request) (hrequest : accepted request) (hkm : k < m) :
    (requests.take k).countP accepted < (requests.take m).countP accepted := by
  have hnext : (requests.take (k + 1)).countP accepted = (requests.take k).countP accepted + 1 := by
    rw [List.take_add_one, hk, Option.toList_some, List.countP_append, List.countP_cons,
      if_pos hrequest, List.countP_nil]
  have hle : (requests.take (k + 1)).countP accepted ≤ (requests.take m).countP accepted :=
    (List.take_prefix_take_left (Nat.succ_le_of_lt hkm)).sublist.countP_le
  omega

section Fintype

variable {ι : Type*} [DecidableEq ι] [Fintype ι] {requests : ι → Request}

omit [DecidableEq ι] [Fintype ι] in
/-- The offset of a record that has been appended, by its place among those who have been served. -/
theorem Inv.offset {s : State ι} (h : Inv requests s) {i : ι} {body : Text} {req : ProduceRequest}
    (hi : requests i = .produce body) (hbody : ProduceRequest.decode body = some req)
    {response : Response} (hresponse : s.handlers i = .responded response) :
    ∃ k, s.served[k]? = some i ∧ response = ⟨200, some (ProduceResponse.mk
      (.ofNat (((s.served.map requests).take k).countP accepted))).encode⟩ := by
  have hgiven : (s.handlers i).answer = some response := by rw [hresponse]; rfl
  obtain ⟨k, hk, hanswer⟩ := h.position hgiven
  refine ⟨k, hk, ?_⟩
  rw [← hanswer, hi, handle_produce hbody, (feed_records _ _).2, List.map_take,
    show Log.new.records.length = 0 from rfl, Nat.zero_add]

omit [DecidableEq ι] in
theorem Inv.countP_lt {s : State ι} (h : Inv requests s) (hfew : Fintype.card ι < 2 ^ 64) (k : ℕ) :
    ((s.served.map requests).take k).countP accepted < 2 ^ 64 := by
  have hcount : ((s.served.map requests).take k).countP accepted ≤ _ := List.countP_le_length
  have hserved := h.linear.nodup.length_le_card
  rw [List.length_take, List.length_map] at hcount
  omega

/-- The response to a record says its offset; no other record has been given it; and every request
for it that comes in afterwards is answered the record, with the value that was sent. -/
theorem run_keeps (hfew : Fintype.card ι < 2 ^ 64) {i : ι} {body : Text} {req : ProduceRequest}
    (hi : requests i = .produce body) (hbody : ProduceRequest.decode body = some req)
    {before : List ι} {response : Response}
    (hresponse : (run requests before).handlers i = .responded response) :
    ∃ text offset, response = ⟨200, some text⟩ ∧ ProduceResponse.decode text = some ⟨offset⟩ ∧
      (∀ j body' req' text', j ≠ i → requests j = .produce body' →
        ProduceRequest.decode body' = some req' →
        (run requests before).handlers j = .responded ⟨200, some text'⟩ →
        ProduceResponse.decode text' ≠ some ⟨offset⟩) ∧
      ∀ after j body' response', requests j = .consume body' →
        ConsumeRequest.decode body' = some ⟨offset⟩ →
        (run requests before).handlers j = .waiting →
        (run requests (before ++ after)).handlers j = .responded response' →
        ∃ text', response' = ⟨200, some text'⟩ ∧
          ConsumeResponse.decode text' = some ⟨⟨req.record.value, offset⟩⟩ := by
  have hinv := run_inv requests before
  have hlt := hinv.countP_lt hfew
  obtain ⟨k, hk, rfl⟩ := hinv.offset hi hbody hresponse
  have hget : ((run requests before).served.map requests)[k]? = some (requests i) := by
    rw [List.getElem?_map, hk, Option.map_some]
  have hrequest : accepted (requests i) := by
    rw [hi, accepted, hbody]
    rfl
  refine ⟨_, _, rfl, ProduceResponse.decode_encode _, ?_, ?_⟩
  · intro j body' req' text' hne hj hbody' hresponse' hsame
    obtain ⟨k', hk', he⟩ := hinv.offset hj hbody' hresponse'
    obtain rfl : text' = _ := Option.some.inj (Response.mk.inj he).2
    have hget' : ((run requests before).served.map requests)[k']? = some (requests j) := by
      rw [List.getElem?_map, hk', Option.map_some]
    have hrequest' : accepted (requests j) := by
      rw [hj, accepted, hbody']
      rfl
    -- two offsets that are the same count the same records before them
    rw [ProduceResponse.decode_encode, Option.some.injEq, ProduceResponse.mk.injEq] at hsame
    have hcount := congrArg UInt64.toNat hsame
    rw [UInt64.toNat_ofNat_of_lt' (hlt k), UInt64.toNat_ofNat_of_lt' (hlt k')] at hcount
    rcases Nat.lt_trichotomy k k' with hkk' | rfl | hkk'
    · exact (countP_take_lt hget hrequest hkk').ne' hcount
    · exact hne (Option.some.inj (hk'.symm.trans hk))
    · exact (countP_take_lt hget' hrequest' hkk').ne hcount
  · intro after j body' response' hj hbody' hwaiting hresponse'
    have hgiven : ((run requests (before ++ after)).handlers j).answer = some response' := by
      rw [hresponse']
      rfl
    obtain ⟨m, hm, hanswer⟩ := (run_inv requests (before ++ after)).position hgiven
    have hklt : k < (run requests before).served.length := (List.getElem?_eq_some_iff.mp hk).1
    have hkm : k < m := hklt.trans_le (served_later hwaiting hm)
    obtain ⟨rest, hrest⟩ := served_run requests before after
    have htake : ((run requests (before ++ after)).served.map requests).take k =
        ((run requests before).served.map requests).take k := by
      rw [← hrest, List.map_append, List.take_append_of_le_length (by simpa using hklt.le)]
    have hget' : ((run requests (before ++ after)).served.map requests)[k]? =
        some (.produce body) := by
      rw [← hrest, List.map_append, List.getElem?_append_left (by simpa using hklt), hget, hi]
    have hrecord := records_later hget' hbody hkm
    rw [htake] at hrecord
    rw [← hanswer, hj, List.map_take]
    exact ⟨_, handle_consume hbody' (UInt64.toNat_ofNat_of_lt' (hlt k)) hrecord,
      ConsumeResponse.decode_encode _⟩

theorem run_keeps_hello : ∃ text,
    (run helloRequests ([0, 0, 0] ++ [1, 1, 1])).handlers 1 = .responded ⟨200, some text⟩ ∧
      ConsumeResponse.decode text = some ⟨⟨hello.value, 0⟩⟩ := by
  obtain ⟨text, offset, hresponse, hoffset, -, hlater⟩ :=
    run_keeps (by decide) (show helloRequests 0 = _ from rfl) (ProduceRequest.decode_encode hello) run_hello.1
  obtain rfl : _ = text := Option.some.inj (Response.mk.inj hresponse).2
  obtain rfl : 0 = offset := by
    simpa using ((ProduceResponse.decode_encode 0).symm.trans hoffset)
  obtain ⟨text', htext', hrecord⟩ :=
    hlater [1, 1, 1] 1 _ _ rfl (ConsumeRequest.decode_encode 0) run_hello.2.1 run_hello.2.2
  exact ⟨text', by rw [run_hello.2.2, htext'], hrecord⟩

end Fintype

end LogServer

end SideProjects
