/-!
# Byte streams that can fail

An input that hands out one byte at a time, and an output that takes one byte at a time and can be flushed.  Faults
are scheduled in advance: the first one left is met by the first call at which the stream has made the progress
that the fault asks for.
-/

namespace TapeLang

/-- Why a call on a stream did not do its work. -/
inductive Fault
  | interrupted
  | endOfFile
  | wouldBlock
  | brokenPipe
  | device
  /-- A write that takes no byte. -/
  | nothingWritten
  /-- A failure that the surrounding system describes in its own words. -/
  | system (description : String)
deriving DecidableEq, Repr

def Fault.description : Fault → String
  | interrupted => "interrupted"
  | endOfFile => "unexpected eof"
  | wouldBlock => "would block"
  | brokenPipe => "broken pipe"
  | device => "device failed"
  | nothingWritten => "failed to write whole buffer"
  | system description => description

structure ScheduledFault where
  /-- The progress from which on the fault is due. -/
  due : Nat
  fault : Fault
deriving DecidableEq, Repr

structure Streams where
  /-- The bytes not yet read. -/
  input : List UInt8
  delivered : Nat
  written : Array UInt8
  /-- Calls of `flush` so far, failed ones included. -/
  flushes : Nat
  readFaults : List ScheduledFault
  writeFaults : List ScheduledFault
  flushFaults : List ScheduledFault
deriving Repr

/-- The fault that is due at some progress, and the faults left after it. -/
def nextFault (progress : Nat) : List ScheduledFault → Option Fault × List ScheduledFault
  | [] => (none, [])
  | f :: rest => if f.due ≤ progress then (some f.fault, rest) else (none, f :: rest)

/-- The fault that a caller gets to see who tries again whenever it is interrupted. -/
def nextFaultRetrying (progress : Nat) : List ScheduledFault → Option Fault × List ScheduledFault
  | [] => (none, [])
  | f :: rest =>
    if f.due ≤ progress then
      if f.fault = .interrupted then nextFaultRetrying progress rest else (some f.fault, rest)
    else (none, f :: rest)

namespace Streams

/-- Streams without faults. -/
def ofInput (input : List UInt8) : Streams := ⟨input, 0, #[], 0, [], [], []⟩

/-- Asks for one byte; `none` is the end of the input.  A fault that reads as the end of the input ends it for this
call only. -/
def read (s : Streams) : Except Fault (Option UInt8) × Streams :=
  let (fault, faults) := nextFaultRetrying s.delivered s.readFaults
  let s := { s with readFaults := faults }
  match fault with
  | some .endOfFile => (.ok none, s)
  | some f => (.error f, s)
  | none =>
    match s.input with
    | [] => (.ok none, s)
    | byte :: rest => (.ok (some byte), { s with input := rest, delivered := s.delivered + 1 })

def write (s : Streams) (byte : UInt8) : Except Fault Unit × Streams :=
  let (fault, faults) := nextFaultRetrying s.written.size s.writeFaults
  let s := { s with writeFaults := faults }
  match fault with
  | some f => (.error f, s)
  | none => (.ok (), { s with written := s.written.push byte })

/-- A flush is not tried again when it is interrupted. -/
def flush (s : Streams) : Except Fault Unit × Streams :=
  let (fault, faults) := nextFault s.flushes s.flushFaults
  let s := { s with flushFaults := faults, flushes := s.flushes + 1 }
  match fault with
  | some f => (.error f, s)
  | none => (.ok (), s)

end Streams

end TapeLang
