import TapeLang.Host.Numeral
import TapeLang.Host.Shell.Command
import TapeLang.Host.World

/-!
# The state of a shell

What a running script knows: its arguments, the values of names, functions, options and traps, and where control is.
-/

namespace TapeLang.Host.Shell

open CommandLine (ExitStatus OsError Signal)

/-- Where control is. -/
inductive Flow
  | running
  /-- Leaves so many loops, or goes on with the next pass of the last of them. -/
  | leaving (levels : Nat) (again : Bool)
  /-- Leaves a function. -/
  | returning
  | ended (status : ExitStatus)
deriving DecidableEq, Repr

structure State where
  world : World
  /-- The name under which the script was started. -/
  name : String
  arguments : List String
  bindings : List (String × String)
  /-- The names that other programs see. -/
  exported : List String
  /-- The names that cannot be set any more. -/
  frozen : List String
  functions : List (String × Command)
  /-- The names that the current function has for itself, with their values before. -/
  locals : List (String × Option String)
  /-- How many loops are around the current command. -/
  loops : Nat
  /-- What is run on a signal, or at the end under the number zero. -/
  traps : List (Nat × String)
  options : List Char
  /-- The status of the last command. -/
  status : Nat
  /-- The status before the action of a trap that is being run. -/
  interrupted : Option Nat
  /-- The status of the last script whose output was used in the current command. -/
  substituted : Nat
  /-- The line of the current command. -/
  line : Nat
  /-- What the script is read from, if that is not its own file. -/
  source : Option String
  flow : Flow

namespace State

/-- The state in which a script starts. -/
def initial (w : World) (name : String) (arguments : List String) (options : List Char) : State where
  world := w
  name := name
  arguments := arguments
  bindings := w.environment
  exported := w.environment.map Prod.fst
  frozen := []
  functions := []
  locals := []
  loops := 0
  traps := []
  options := options
  status := 0
  interrupted := none
  substituted := 0
  line := 1
  source := none
  flow := .running

def isRunning (s : State) : Bool := s.flow == .running

def has (s : State) (option : Char) : Bool := s.options.contains option

def withStatus (s : State) (status : Nat) : State := { s with status := status }

/-- Ends the script with a status of which others see the last eight bits. -/
def exit (s : State) (status : Nat) : State := { s with status := status, flow := .ended (.exited (status % 256)) }

/-- How the script ended, or how it would end here. -/
def outcome (s : State) : ExitStatus :=
  match s.flow with
  | .ended status => status
  | _ => .exited (s.status % 256)

/-- Says something about the current line. -/
def remark (s : State) (text : String) : State :=
  let place := (s.source.map fun source => source ++ ": ").getD ""
  { s with world := s.world.print 2 s!"{s.name}: {s.line}: {place}{text}\n" }

/-- Does something that speaks in its own name. -/
def apart (s : State) (action : State → State) : State := { action { s with source := none } with source := s.source }

/-- Says something and gives the command up. -/
def refuse (s : State) (status : Nat) (text : String) : State := (s.remark text).withStatus status

/-- Says something and gives the script up. -/
def abandon (s : State) (text : String) : State := (s.remark text).exit 2

/-- The number by which a shell knows its own process. -/
def ownNumber : String := "2"

def parentNumber : String := "1"

/-- The value of a parameter, if it is set. -/
def parameter? (s : State) (name : String) : Option String :=
  match name with
  | "0" => some s.name
  | "#" => some (toString s.arguments.length)
  | "?" => some (toString s.status)
  | "$" => some ownNumber
  | "-" => some (String.ofList s.options)
  | "!" => none
  | "@" | "*" => if s.arguments.isEmpty then none else some (" ".intercalate s.arguments)
  | "PPID" => some parentNumber
  | _ =>
    match Numeral.nat? name with
    | some n => s.arguments[n - 1]?
    | none => s.bindings.lookup name

/-- Sets a name, unless that is not allowed. -/
def bind (s : State) (name value : String) : State :=
  if s.frozen.contains name then s.abandon s!"{name}: is read only"
  else
    { s with
      bindings := (name, value) :: s.bindings.filter fun b => b.1 != name
      exported := if s.has 'a' && !s.exported.contains name then name :: s.exported else s.exported }

def unbind (s : State) (name : String) : State :=
  { s with bindings := s.bindings.filter fun b => b.1 != name, exported := s.exported.filter (· != name) }

/-- Gives a name for itself to the current function. -/
def localize (s : State) (name : String) : State := { s with locals := (name, s.bindings.lookup name) :: s.locals }

/-- Gives names back the values that they had. -/
def delocalize (s : State) : State :=
  s.locals.foldl (fun s l =>
    { s with bindings := (l.2.toList.map fun v => (l.1, v)) ++ s.bindings.filter fun b => b.1 != l.1 }) s

/-- The environment of a program that this shell starts. -/
def environment (s : State) : List (String × String) := s.bindings.filter fun b => s.exported.contains b.1

/-- The characters at which fields are split. -/
def separators (s : State) : List Char := ((s.bindings.lookup "IFS").getD " \t\n").toList

/-- The directories in which programs are looked for. -/
def searchPath (s : State) : List String :=
  (((s.bindings.lookup "PATH").getD "").splitOn ":").map fun d => if d.isEmpty then "." else d

/-- What a part of the script did that ran on a copy of the shell. -/
def afterCopy (s copy : State) : State :=
  let s := { s with world := s.world.after copy.world }
  match copy.outcome with
  | .exited status => s.withStatus status
  | .killed signal => { s with status := 128 + signal, flow := .ended (.killed signal) }

/-- The copy of a shell on which a part of a script runs. -/
def copied (s : State) : State := { s with traps := s.traps.filter fun t => t.2.isEmpty }

/-- Receives a signal: what is to be run, or the state after it. -/
def signalled (s : State) (signal : Nat) : Option String × State :=
  if signal = 0 then (none, s)
  else
    match (s.traps.lookup signal).filter fun _ => signal != 9 && signal != 19 with
    | some action => (if action.isEmpty then none else some action, s)
    | none => if Signal.ends signal then (none, { s with flow := .ended (.killed signal) }) else (none, s)

/-- After the body of a loop: the state, and whether the loop goes on. -/
def afterBody (s : State) : State × Bool :=
  match s.flow with
  | .running => (s, true)
  | .leaving levels again =>
    if levels ≤ 1 then ({ s with flow := .running }, again)
    else ({ s with flow := .leaving (levels - 1) again }, false)
  | _ => (s, false)

end State

end TapeLang.Host.Shell
