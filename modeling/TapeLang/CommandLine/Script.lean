import TapeLang.CommandLine.Signal
import TapeLang.Machine
import TapeLang.Instruction
import TapeLang.Streams

/-!
# Scripts of system calls

What the command line does is written as a script: a tree that makes one call at a time and goes on with the answer.
A script decides nothing about how calls are answered, so one script can be run on a real system and on a model of
one, and a statement about it holds for all answers.
-/

namespace TapeLang.CommandLine

/-- Why the system refuses a call. -/
inductive OsError
  | notPermitted
  | notFound
  | noSuchDevice
  | execFormat
  | badDescriptor
  | accessDenied
  | exists_
  | notDirectory
  | isDirectory
  | invalid
  | noSpace
  | nameTooLong
  | notSupported
  | notEmpty
  | tooManyLinks
  | other (code : Nat) (text : String)
deriving DecidableEq, Repr

namespace OsError

def code : OsError → Nat
  | notPermitted => 1
  | notFound => 2
  | noSuchDevice => 6
  | execFormat => 8
  | badDescriptor => 9
  | accessDenied => 13
  | exists_ => 17
  | notDirectory => 20
  | isDirectory => 21
  | invalid => 22
  | noSpace => 28
  | nameTooLong => 36
  | notSupported => 38
  | notEmpty => 39
  | tooManyLinks => 40
  | other code _ => code

def text : OsError → String
  | notPermitted => "Operation not permitted"
  | notFound => "No such file or directory"
  | noSuchDevice => "No such device or address"
  | execFormat => "Exec format error"
  | badDescriptor => "Bad file descriptor"
  | accessDenied => "Permission denied"
  | exists_ => "File exists"
  | notDirectory => "Not a directory"
  | isDirectory => "Is a directory"
  | invalid => "Invalid argument"
  | noSpace => "No space left on device"
  | nameTooLong => "File name too long"
  | notSupported => "Function not implemented"
  | notEmpty => "Directory not empty"
  | tooManyLinks => "Too many levels of symbolic links"
  | other _ text => text

def message (e : OsError) : String := s!"{e.text} (os error {e.code})"

def known : List OsError :=
  [notPermitted, notFound, noSuchDevice, execFormat, badDescriptor, accessDenied, exists_, notDirectory, isDirectory,
    invalid, noSpace, nameTooLong, notSupported, notEmpty, tooManyLinks]

/-- The error with a given code; `text` describes it if it is none of the known ones. -/
def ofCode (code : Nat) (text : String) : OsError :=
  (known.find? fun e => e.code == code).getD (other code text)

end OsError

/-- How a started program came to its end. -/
inductive ExitStatus
  | exited (code : Nat)
  | killed (signal : Nat)
deriving DecidableEq, Repr

namespace ExitStatus

def text : ExitStatus → String
  | exited code => s!"exit status: {code}"
  | killed signal => s!"signal: {signal}" ++ Signal.mention signal

def success (s : ExitStatus) : Bool := s == .exited 0

end ExitStatus

inductive Call
  | readFile (path : String)
  /-- The name of a directory that nobody else uses. -/
  | temporaryDirectory
  /-- Makes a directory and those above it that are missing. -/
  | makeDirectories (path : String)
  | writeFile (path text : String)
  /-- Starts a program on the streams of this one and waits for its end. -/
  | start (command : String) (arguments : List String)
  /-- Removes a directory with everything in it. -/
  | removeTree (path : String)
  /-- Runs a program on a fresh machine, on the streams of this one. -/
  | interpret (program : Program)
  /-- Writes to standard output.  Where this call or the next one fails, a part of the text may have been written. -/
  | printOut (text : String)
  | printError (text : String)

abbrev Call.Answer : Call → Type
  | readFile _ => Except OsError (List UInt8)
  | temporaryDirectory => String
  | makeDirectories _ | writeFile _ _ | removeTree _ | printOut _ | printError _ => Except OsError Unit
  | start _ _ => Except OsError ExitStatus
  | interpret _ => Except Fault Counters

inductive Script (α : Type)
  | done (value : α)
  | call (c : Call) (next : c.Answer → Script α)

namespace Script

variable {α β : Type}

def bind : Script α → (α → Script β) → Script β
  | done value, f => f value
  | call c next, f => call c fun answer => (next answer).bind f

instance : Monad Script where
  pure := done
  bind := bind

/-- Runs a script, given a way to answer calls. -/
def perform {m : Type → Type} [Monad m] (answer : (c : Call) → m c.Answer) : Script α → m α
  | done value => pure value
  | call c next => answer c >>= fun a => perform answer (next a)

def readFile (path : String) : Script (Except OsError (List UInt8)) := call (.readFile path) done

def temporaryDirectory : Script String := call .temporaryDirectory done

def makeDirectories (path : String) : Script (Except OsError Unit) := call (.makeDirectories path) done

def writeFile (path text : String) : Script (Except OsError Unit) := call (.writeFile path text) done

def start (command : String) (arguments : List String) : Script (Except OsError ExitStatus) :=
  call (.start command arguments) done

def removeTree (path : String) : Script (Except OsError Unit) := call (.removeTree path) done

def interpret (program : Program) : Script (Except Fault Counters) := call (.interpret program) done

def printOut (text : String) : Script (Except OsError Unit) := call (.printOut text) done

def printError (text : String) : Script (Except OsError Unit) := call (.printError text) done

end Script

end TapeLang.CommandLine
