import SideProjects.Lib.BigEndian
import SideProjects.Lib.Runs

/-!
# The log store

`distributed-services-with-go/proglog/internal/log/store.go`. A record is the length of the payload
in eight bytes, and the payload. Records go through a buffered writer to the end of the file, and
are read back from the file once the writer has been flushed.

The buffered writer passes on the bytes it has accepted in order, and keeps no more of them than its
buffer holds, but when it passes them on, and in which pieces, is open: an `Outcome` says how many
of them a call hands to the file, and whether a write fails after them. After a failed write the
writer accepts nothing and flushes nothing. The methods hold the mutex throughout, so concurrent
callers are a list of calls.

How much a process can allocate is up to its `Platform`. Beyond that `make` ends the process, so that
nothing comes after an `outOfMemory`; runs that go on behind one are here all the same, and what holds
of every run holds of those that stop there.
-/

namespace SideProjects

namespace LogStore

abbrev Bytes := List UInt8

def lenWidth : ℕ := 8

/-- File sizes and offsets are `int64`. -/
def maxFileSize : ℕ := 2 ^ 63 - 1

/-- The longest slice there is: `make` panics beyond the address space limit. -/
def maxAlloc : ℕ := 2 ^ 48

/-- The longest slice that a process can be given. Its addresses are less than `2 ^ 47`. -/
class Platform where
  memory : ℕ
  memory_le : memory ≤ 2 ^ 47

/-- The buffer of `bufio.NewWriter`. -/
def bufSize : ℕ := 4096

/-- What can be appended: a slice. -/
structure Payload [Platform] where
  bytes : Bytes
  fits : bytes.length ≤ Platform.memory

inductive Fault
  | write
  | negativeOffset
  | eof
  /-- The panic of `make`. -/
  | lenOutOfRange
  /-- The end of the process. -/
  | outOfMemory
  deriving DecidableEq, Repr

structure File where
  bytes : Bytes
  fits : bytes.length ≤ maxFileSize

namespace File

/-- A write at the end of the file: as much as there is room for, and whether that was all. -/
def write (file : File) (b : Bytes) : Bool × File :=
  (b.length ≤ maxFileSize - file.bytes.length,
    ⟨file.bytes ++ b.take (maxFileSize - file.bytes.length), by
      have := file.fits
      simp only [List.length_append, List.length_take]
      omega⟩)

/-- What is read into a slice of length `n`. -/
def readAt (file : File) (n : ℕ) (off : Int64) : Bytes × Option Fault :=
  if off < 0 then ([], some .negativeOffset)
  else
    let b := (file.bytes.drop off.toInt.toNat).take n
    (b, if b.length < n then some .eof else none)

end File

/-- How a call of the buffered writer goes. -/
structure Outcome where
  sent : ℕ
  fails : Bool
  deriving DecidableEq, Repr

/-- The bytes not yet handed to the file, and whether a write has failed. -/
structure Writer where
  pending : Bytes
  err : Bool

structure Store where
  file : File
  buf : Writer
  size : UInt64

def newStore (file : File) : Store := ⟨file, ⟨[], false⟩, UInt64.ofNat file.bytes.length⟩

variable [Platform]

namespace Store

/-- `s.buf.Write(p)`, and whether it succeeds. What the buffer has no room for is handed on. -/
def bufWrite (s : Store) (p : Bytes) (o : Outcome) : Bool × Store :=
  if s.buf.err then (false, s)
  else
    let all := s.buf.pending ++ p
    let sent := if o.fails then o.sent else max o.sent (all.length - bufSize)
    let (written, file) := s.file.write (all.take sent)
    let ok := written && !o.fails
    (ok, { s with file := file, buf := ⟨all.drop sent, !ok⟩ })

/-- `s.buf.Flush()`, and whether it succeeds. -/
def bufFlush (s : Store) (o : Outcome) : Bool × Store :=
  if s.buf.err then (false, s)
  else if s.buf.pending.isEmpty then (true, s)
  else
    let sent := if o.fails then s.buf.pending.take o.sent else s.buf.pending
    let (written, file) := s.file.write sent
    let ok := written && !o.fails
    (ok, { s with file := file, buf := ⟨s.buf.pending.drop sent.length, !ok⟩ })

/-- The header of a record. -/
def header (p : Bytes) : Bytes := BigEndian.encode lenWidth (UInt64.ofNat p.length).toNat

def append (s : Store) (p : Payload) (o₁ o₂ : Outcome) : Except Fault (UInt64 × UInt64) × Store :=
  let pos := s.size
  match s.bufWrite (header p.bytes) o₁ with
  | (false, s) => (.error .write, s)
  | (true, s) =>
    match s.bufWrite p.bytes o₂ with
    | (false, s) => (.error .write, s)
    | (true, s) =>
      let w := UInt64.ofNat (p.bytes.length + lenWidth)
      (.ok (w, pos), { s with size := s.size + w })

/-- `Read`, after the flush. -/
def readRecord (file : File) (pos : UInt64) : Except Fault Bytes :=
  match file.readAt lenWidth pos.toInt64 with
  | (_, some e) => .error e
  | (size, none) =>
    let n := BigEndian.decode size
    if maxAlloc < n then .error .lenOutOfRange
    else if Platform.memory < n then .error .outOfMemory
    else
      match file.readAt n (pos + UInt64.ofNat lenWidth).toInt64 with
      | (_, some e) => .error e
      | (b, none) => .ok b

def read (s : Store) (pos : UInt64) (o : Outcome) : Except Fault Bytes × Store :=
  match s.bufFlush o with
  | (false, s) => (.error .write, s)
  | (true, s) => (readRecord s.file pos, s)

/-- `ReadAt` into a slice of length `n`. -/
def readAt (s : Store) (n : ℕ) (off : Int64) (o : Outcome) : (Bytes × Option Fault) × Store :=
  match s.bufFlush o with
  | (false, s) => (([], some .write), s)
  | (true, s) => (s.file.readAt n off, s)

def close (s : Store) (o : Outcome) : Except Fault Unit × Store :=
  match s.bufFlush o with
  | (false, s) => (.error .write, s)
  | (true, s) => (.ok (), s)

end Store

inductive Op
  | append (p : Payload) (o₁ o₂ : Outcome)
  | read (pos : UInt64) (o : Outcome)
  | readAt (n : ℕ) (off : Int64) (o : Outcome)

inductive Answer
  | appended (n pos : UInt64)
  | read (result : Except Fault Bytes)
  | readAt (result : Bytes × Option Fault)

/-- A call, and its answer unless a write fails. -/
def attempt (s : Store) : Op → Except Fault Answer × Store
  | .append p o₁ o₂ =>
    match s.append p o₁ o₂ with
    | (.error e, s) => (.error e, s)
    | (.ok (n, pos), s) => (.ok (.appended n pos), s)
  | .read pos o =>
    match s.read pos o with
    | (.error .write, s) => (.error .write, s)
    | (result, s) => (.ok (.read result), s)
  | .readAt n off o =>
    match s.readAt n off o with
    | ((_, some .write), s) => (.error .write, s)
    | (result, s) => (.ok (.readAt result), s)

/-- A call, given up if a write fails. -/
def call (s : Store) : Op → Except Fault (Answer × Store)
  | .append p o₁ o₂ =>
    match s.append p o₁ o₂ with
    | (.error e, _) => .error e
    | (.ok (n, pos), s) => .ok (.appended n pos, s)
  | .read pos o =>
    match s.read pos o with
    | (.error .write, _) => .error .write
    | (result, s) => .ok (.read result, s)
  | .readAt n off o =>
    match s.readAt n off o with
    | ((_, some .write), _) => .error .write
    | (result, s) => .ok (.readAt result, s)

/-- The calls on one store, whatever fails, each with what it returned. -/
def attempts (file : File) (ops : List Op) : List (Op × Except Fault Answer) :=
  ops.zip (feed attempt (newStore file) ops).1

/-- The calls between `newStore` and `Close`. -/
structure Session where
  ops : List Op
  close : Outcome

/-- A session on a file, given up if a write fails: the answers, and the file it leaves. -/
def session (file : File) (ses : Session) : Except Fault (List Answer × File) :=
  match runAll call (newStore file) ses.ops with
  | .error e => .error e
  | .ok (answers, s) =>
    match s.close ses.close with
    | (.error e, _) => .error e
    | (.ok (), s) => .ok (answers, s.file)

/-- The calls on one store until it is closed, or until the process ends without that. If it ends
within a call, that is the last one and fails. -/
structure Life where
  ops : List Op
  close : Option Outcome

/-- What the calls of a life return, and `Close` if it is called, and the file it leaves. -/
def life (file : File) (l : Life) :
    (List (Except Fault Answer) × Option (Except Fault Unit)) × File :=
  let (answers, s) := feed attempt (newStore file) l.ops
  match l.close with
  | none => ((answers, none), s.file)
  | some o => ((answers, some (s.close o).1), (s.close o).2.file)

end LogStore

end SideProjects
