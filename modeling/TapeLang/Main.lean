import TapeLang.CommandLine.Run

/-!
# The program

Answers the calls of the command line from the real system.  Starting other programs is not supported here, so a
compiler cannot be started.
-/

namespace TapeLang.Outside

open CommandLine (Call OsError)

/-- The code of an error, which some calls give as a negative number. -/
def positiveCode (code : UInt32) : Nat := code.toInt32.toInt.natAbs

def osError : IO.Error → OsError
  | .alreadyExists _ code text | .otherError code text | .resourceBusy code text | .resourceVanished code text
  | .unsupportedOperation code text | .hardwareFault code text | .unsatisfiedConstraints code text
  | .illegalOperation code text | .protocolError code text | .timeExpired code text | .interrupted _ code text
  | .noFileOrDirectory _ code text | .invalidArgument _ code text | .permissionDenied _ code text
  | .resourceExhausted _ code text | .inappropriateType _ code text | .noSuchThing _ code text =>
    .ofCode (positiveCode code) text
  | .unexpectedEof => .other 0 "unexpected end of file"
  | .userError text => .other 0 text

/-- Does something and turns a failure into an answer. -/
def attempt {α : Type} (action : IO α) : IO (Except OsError α) := do
  try
    return .ok (← action)
  catch e =>
    return .error (osError e)

/-- The next state after a request was carried out, unless that failed. -/
def follow {α σ : Type} (action : IO α) (next : α → σ) : IO (Except Fault σ) := do
  match ← attempt action with
  | .ok a => return .ok (next a)
  | .error e => return .error (.system e.message)

/-- Runs a process on the standard streams until it halts or fails. -/
partial def runProcess {σ : Type} (P : Process σ) (s : σ) : IO (Except Fault σ) := do
  let stdin ← IO.getStdin
  let stdout ← IO.getStdout
  let stepped ←
    match P.request s with
    | .halt => return .ok s
    | .silent => pure (.ok (P.resume s none))
    | .write byte => follow (stdout.write ⟨#[byte]⟩) fun _ => P.resume s none
    | .flush => follow stdout.flush fun _ => P.resume s none
    | .read => follow (stdin.read 1) fun bytes => P.resume s bytes.data[0]?
  match stepped with
  | .ok s => runProcess P s
  | .error f => return .error f

def answer (c : Call) : IO c.Answer :=
  match c with
  | .readFile path => attempt do return (← IO.FS.readBinFile path).toList
  | .temporaryDirectory => do return (← IO.FS.createTempDir).toString
  | .makeDirectories path => attempt (if path.isEmpty then pure () else IO.FS.createDirAll path)
  | .writeFile path text => attempt (IO.FS.writeFile path text)
  | .start _ _ => return .error .notSupported
  | .removeTree path => attempt (IO.FS.removeDirAll path)
  | .interpret program => do
    match ← runProcess Execution.process (Execution.start program .fresh) with
    | .ok s => return .ok s.machine.counters
    | .error f => return .error f
  | .printOut text => attempt do (← IO.getStdout).putStr text
  | .printError text => attempt do (← IO.getStderr).putStr text

end TapeLang.Outside

def main (arguments : List String) : IO UInt32 := do
  let code ← (TapeLang.CommandLine.ofArguments arguments).perform TapeLang.Outside.answer
  (← IO.getStdout).flush
  return UInt32.ofNat code
