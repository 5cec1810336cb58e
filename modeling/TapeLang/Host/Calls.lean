import TapeLang.CommandLine.Run
import TapeLang.Host.World

/-!
# Calls of a command line

The calls of a command line are answered from the files and streams of a world.  How programs are started there is
left open.
-/

namespace TapeLang.Host

open CommandLine (Call ExitStatus OsError)

/-- Starts a program by its name, with its arguments. -/
abbrev Starter := World → String → List String → Except OsError (ExitStatus × World)

/-- The directory for files that are not kept. -/
def temporaryPath : String := "/tmp/session"

/-- Answers a call that only changes files. -/
def changing (f : Files → Path → Except OsError Files) : StateM World (Except OsError Unit) := fun w =>
  match w.change f with
  | .ok w => (.ok (), w)
  | .error e => (.error e, w)

/-- Answers a call that writes to a stream.  What is written to a closed stream is lost. -/
def writing (number : Nat) (bytes : List UInt8) : StateM World (Except OsError Unit) := fun w =>
  match w.write number bytes with
  | .ok w => (.ok (), w)
  | .error .badDescriptor => (.ok (), w)
  | .error e => (.error e, w)

/-- Runs a program on what waits in the standard input. -/
def interpreting (program : Program) : StateM World (Except Fault Counters) := fun w =>
  let source := (w.channels.lookup 0).getD .null
  let r := program.execute .fresh (Streams.ofInput (w.waiting source))
  let (written, w) := writing 1 r.streams.written.toList (w.leave source r.streams.input)
  match r.fault?, written with
  | some f, _ => (.error f, w)
  | none, .error e => (.error (.system e.message), w)
  | none, .ok _ => (.ok r.state.machine.counters, w)

def answerWith (start : Starter) (c : Call) : StateM World c.Answer :=
  match c with
  | .readFile path => fun w =>
    match w.readFile path with
    | .ok (content, w) => (.ok content, w)
    | .error e => (.error e, w)
  | .temporaryDirectory => pure temporaryPath
  | .makeDirectories path => changing fun files here => files.makeDirectories here path
  | .writeFile path text => fun w =>
    match w.writeFile path (World.bytes text) with
    | .ok w => (.ok (), w)
    | .error e => (.error e, w)
  | .removeTree path => changing fun files here => files.removeTree here path
  | .start command arguments => fun w =>
    match start w command arguments with
    | .ok (status, w) => (.ok status, w)
    | .error e => (.error e, w)
  | .interpret program => interpreting program
  | .printOut text => writing 1 (World.bytes text)
  | .printError text => writing 2 (World.bytes text)

/-- Runs the command line; gives the exit code and the world after it. -/
def commandLine (start : Starter) (w : World) (arguments : List String) : Nat × World :=
  (CommandLine.ofArguments arguments).perform (answerWith start) w

/-- The name under which the command line is started. -/
def commandLineName : String := "brainyuck"

end TapeLang.Host
