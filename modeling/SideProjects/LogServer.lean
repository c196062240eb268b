import Mathlib.Logic.Function.Basic
import SideProjects.Lib.Base64
import SideProjects.Lib.Json
import SideProjects.Lib.Runs

/-!
# The log server

`distributed-services-with-go/proglog/internal/server`: a log that is kept in memory, and its two
handlers. A request and a response are JSON, which is read and written as `encoding/json` does it for
these types: names of fields are compared but for case, unknown fields are passed over, `null` leaves a
field as it is, a field that is there twice is read twice, and only the first value of a body is looked
at. The text of a JSON error is left open.

Every request has a goroutine of its own. Reading the body, the method of the log, which holds the
mutex throughout, and writing the response are a step each, and the goroutines take their steps in any
order.
-/

namespace SideProjects

namespace LogServer

open Json (Text Value)

abbrev Bytes := List UInt8

/-- A value that is `nil` is not an empty one. -/
structure Record where
  value : Option Bytes
  offset : UInt64
  deriving DecidableEq, Repr

/-! ## Reading JSON -/

/-- `foldRune`, for the names there are: the upper case, also of the one other letter that has an `S`
for it, and of the one that has a `K`. -/
def foldRune (c : Char) : Char :=
  if c = 'ſ' then 'S' else if c = '\u212a' then 'K' else c.toUpper

/-- The key names the field. -/
def names (name : String) (key : Text) : Bool := name.toList.map foldRune == key.map foldRune

/-- A number without sign, of at most so many bits. -/
def unmarshalUint (bits : ℕ) (old : ℕ) : Value → Option ℕ
  | .null => some old
  | .number literal =>
    if literal.all Char.isDigit && Nat.ofDigitChars 10 literal 0 < 2 ^ bits then
      some (Nat.ofDigitChars 10 literal 0)
    else none
  | _ => none

/-- A `[]byte` is written in base64, but an array of numbers is read too. A `null` in it leaves the byte
that is there, and past the length of the old bytes that is taken to be zero, though it may be one of an
earlier array. -/
def unmarshalBytes (old : Option Bytes) : Value → Option (Option Bytes)
  | .null => some none
  | .string s => (Base64.decode s).map some
  | .array items =>
    (items.zipIdx.mapM fun (v, i) =>
      (unmarshalUint 8 ((old.getD []).getD i 0).toNat v).map UInt8.ofNat).map some
  | _ => none

/-- The fields of an object, one after the other; another value than an object or `null` is an error. -/
def unmarshalStruct {α : Type} (field : α → Text × Value → Option α) (old : α) : Value → Option α
  | .null => some old
  | .object members => members.foldlM field old
  | _ => none

def unmarshalOffset (old : UInt64) (m : Text × Value) : Option UInt64 :=
  if names "offset" m.1 then (unmarshalUint 64 old.toNat m.2).map UInt64.ofNat else some old

def Record.unmarshal (old : Record) : Value → Option Record :=
  unmarshalStruct (fun r m =>
    if names "value" m.1 then (unmarshalBytes r.value m.2).map fun value => { r with value }
    else (unmarshalOffset r.offset m).map fun offset => { r with offset }) old

def unmarshalRecord (old : Record) (m : Text × Value) : Option Record :=
  if names "record" m.1 then old.unmarshal m.2 else some old

/-- `maxNestingDepth`. -/
def maxNestingDepth : ℕ := 10000

/-- `Decode`, into a zero value. -/
def decode {α : Type} (unmarshal : Value → Option α) (body : Text) : Option α := do
  let (v, _) ← Json.value maxNestingDepth body
  unmarshal v

/-! ## The messages -/

structure ProduceRequest where
  record : Record

structure ProduceResponse where
  offset : UInt64

structure ConsumeRequest where
  offset : UInt64

structure ConsumeResponse where
  record : Record

def ProduceRequest.decode (body : Text) : Option ProduceRequest :=
  (LogServer.decode (unmarshalStruct unmarshalRecord ⟨none, 0⟩) body).map .mk

def ConsumeRequest.decode (body : Text) : Option ConsumeRequest :=
  (LogServer.decode (unmarshalStruct unmarshalOffset 0) body).map .mk

/-- How a client reads a response. -/
def ProduceResponse.decode (body : Text) : Option ProduceResponse :=
  (LogServer.decode (unmarshalStruct unmarshalOffset 0) body).map .mk

def ConsumeResponse.decode (body : Text) : Option ConsumeResponse :=
  (LogServer.decode (unmarshalStruct unmarshalRecord ⟨none, 0⟩) body).map .mk

def marshalBytes : Option Bytes → Text
  | none => Json.nullText
  | some b => Json.stringText (Base64.encode b)

def marshalOffset (offset : UInt64) : Text :=
  Json.object [("offset".toList, Json.numberText offset.toNat)]

def Record.marshal (r : Record) : Text :=
  Json.object [("value".toList, marshalBytes r.value),
    ("offset".toList, Json.numberText r.offset.toNat)]

def marshalRecord (r : Record) : Text := Json.object [("record".toList, r.marshal)]

/-- `Encode` ends a value with a newline. -/
def ProduceResponse.encode (res : ProduceResponse) : Text := marshalOffset res.offset ++ ['\n']

def ConsumeResponse.encode (res : ConsumeResponse) : Text := marshalRecord res.record ++ ['\n']

/-- How a client writes a request. -/
def ProduceRequest.encode (req : ProduceRequest) : Text := marshalRecord req.record ++ ['\n']

def ConsumeRequest.encode (req : ConsumeRequest) : Text := marshalOffset req.offset ++ ['\n']

/-! ## The log -/

structure Log where
  records : List Record

def Log.new : Log := ⟨[]⟩

def errOffsetNotFound : String := "offset not found"

/-- The length of a slice is an `int`, so as a `uint64` it is the same. -/
def Log.append (c : Log) (record : Record) : UInt64 × Log :=
  let offset := UInt64.ofNat c.records.length
  (offset, ⟨c.records ++ [{ record with offset }]⟩)

def Log.read (c : Log) (offset : UInt64) : Except String Record :=
  if h : offset.toNat < c.records.length then .ok c.records[offset.toNat]
  else .error errOffsetNotFound

/-! ## The handlers -/

inductive Request
  | produce (body : Text)
  | consume (body : Text)

/-- A body that is an error of `encoding/json` is `none`. -/
structure Response where
  status : ℕ
  body : Option Text
  deriving DecidableEq, Repr

def badRequest : Response := ⟨400, none⟩

/-- `http.Error` ends the message with a newline. -/
def notFound (message : String) : Response := ⟨404, some (message.toList ++ ['\n'])⟩

def handleProduce (log : Log) (body : Text) : Response × Log :=
  match ProduceRequest.decode body with
  | none => (badRequest, log)
  | some req =>
    let (off, log) := log.append req.record
    (⟨200, some (ProduceResponse.mk off).encode⟩, log)

def handleConsume (log : Log) (body : Text) : Response :=
  match ConsumeRequest.decode body with
  | none => badRequest
  | some req =>
    match log.read req.offset with
    | .error message => notFound message
    | .ok record => ⟨200, some (ConsumeResponse.mk record).encode⟩

/-- A request with no other at the same time. -/
def handle (log : Log) : Request → Response × Log
  | .produce body => handleProduce log body
  | .consume body => (handleConsume log body, log)

/-! ## The goroutines -/

/-- How far a handler is. -/
inductive Handler
  | waiting
  | appending (req : ProduceRequest)
  | reading (req : ConsumeRequest)
  | produced (res : ProduceResponse)
  | consumed (res : ConsumeResponse)
  | responded (response : Response)

/-- The log, the handlers, and who has been served so far: whose method of the log has run, or whose
body could not be read. -/
structure State (ι : Type*) where
  log : Log
  handlers : ι → Handler
  served : List ι

def State.init {ι : Type*} : State ι := ⟨.new, fun _ => .waiting, []⟩

section Steps

variable {ι : Type*} [DecidableEq ι] (requests : ι → Request)

def State.set (s : State ι) (i : ι) (h : Handler) : State ι :=
  { s with handlers := Function.update s.handlers i h }

/-- The next step of the goroutine of request `i`. -/
def State.step (s : State ι) (i : ι) : State ι :=
  match s.handlers i with
  | .waiting =>
    match requests i with
    | .produce body =>
      match ProduceRequest.decode body with
      | none => { s.set i (.responded badRequest) with served := s.served ++ [i] }
      | some req => s.set i (.appending req)
    | .consume body =>
      match ConsumeRequest.decode body with
      | none => { s.set i (.responded badRequest) with served := s.served ++ [i] }
      | some req => s.set i (.reading req)
  | .appending req =>
    let (off, log) := s.log.append req.record
    { s.set i (.produced ⟨off⟩) with log, served := s.served ++ [i] }
  | .reading req =>
    match s.log.read req.offset with
    | .error message => { s.set i (.responded (notFound message)) with served := s.served ++ [i] }
    | .ok record => { s.set i (.consumed ⟨record⟩) with served := s.served ++ [i] }
  | .produced res => s.set i (.responded ⟨200, some res.encode⟩)
  | .consumed res => s.set i (.responded ⟨200, some res.encode⟩)
  | .responded _ => s

/-- The state an interleaving leads to: the list says whose turn it is. -/
def run (schedule : List ι) : State ι := schedule.foldl (State.step requests) .init

end Steps

end LogServer

end SideProjects
