import TapeLang.Host.World

/-!
# What utilities have in common

A utility changes the world and ends with a status.  One that cannot do something says so on the stream for errors and
goes on with its next operand.
-/

namespace TapeLang.Host.Utility

open CommandLine (OsError)

/-- A program that changes the world and ends with a status. -/
abbrev Action := StateM World Nat

def out (bytes : List UInt8) : StateM World Unit := modify fun w => (w.write 1 bytes).toOption.getD w

def say (text : String) : StateM World Unit := out (World.bytes text)

def note (text : String) : StateM World Unit := modify fun w => w.print 2 (text ++ "\n")

/-- Says what is wrong, in the name under which the utility was started. -/
def complain (text : String) : StateM World Unit := modify fun w => w.print 2 (w.called ++ ": " ++ text ++ "\n")

/-- Everything that waits in the stream that a process reads. -/
def allInput : StateM World (List UInt8) := fun w =>
  match w.channels.lookup 0 with
  | some c => (w.waiting c, w.leave c [])
  | none => ([], w)

/-- The content of a file, where `-` stands for the stream that a process reads. -/
def contentOf (operand : String) : StateM World (Except OsError (List UInt8)) := do
  if operand = "-" then return .ok (← allInput)
  else
    let w ← get
    match w.readFile operand with
    | .ok (content, w) =>
      set w
      return .ok content
    | .error e => return .error e

/-- Flags and operands apart; a letter that is no flag of the utility is refused. -/
structure Arguments where
  flags : List Char
  operands : List String

def Arguments.has (a : Arguments) (c : Char) : Bool := a.flags.contains c

def Arguments.read (valid : String) : List String → Except String Arguments
  | [] => .ok ⟨[], []⟩
  | "--" :: rest => .ok ⟨[], rest⟩
  | argument :: rest =>
    match argument.toList with
    | '-' :: '-' :: _ => .error s!"unrecognized option '{argument}'"
    | '-' :: c :: cs =>
      match (c :: cs).find? fun c => !valid.toList.contains c with
      | some c => .error s!"invalid option -- '{c}'"
      | none => (read valid rest).map fun a => { a with flags := c :: cs ++ a.flags }
    | _ => (read valid rest).map fun a => { a with operands := argument :: a.operands }

/-- Says what is wrong with the arguments of a utility. -/
def misused (problem : String) : Action := do
  let name := (← get).called
  complain problem
  note s!"Try '{name} --help' for more information."
  return 1

/-- Reads the arguments of a utility and goes on with them. -/
def withArguments (valid : String) (arguments : List String) (act : Arguments → Action) : Action :=
  match Arguments.read valid arguments with
  | .ok a => act a
  | .error problem => misused problem

/-- Does something for each operand; the status is that of failure if one fails. -/
def forEach (operands : List String) (act : String → Action) : Action :=
  operands.foldlM (fun status operand => do return max status (← act operand)) 0

/-- Changes the files; `failure` words what goes wrong. -/
def changing (f : Files → Path → Except OsError Files) (failure : OsError → String) : Action := do
  let w ← get
  match w.change f with
  | .ok w =>
    set w
    return 0
  | .error e =>
    complain (failure e)
    return 1

/-- Refuses to work without an operand. -/
def needOperand (what : String) (operands : List String) (act : Action) : Action :=
  if operands.isEmpty then misused s!"missing {what}" else act

/-- The lines of a text, each with its line end if it has one. -/
def linesOf : List UInt8 → List (List UInt8)
  | [] => []
  | b :: rest =>
    if b = 10 then [b] :: linesOf rest
    else
      match linesOf rest with
      | line :: lines => (b :: line) :: lines
      | [] => [[b]]

def isBreak (b : UInt8) : Bool := b == 10

/-- A line without its line end. -/
def bare (line : List UInt8) : List UInt8 := line.filter fun b => !isBreak b

end TapeLang.Host.Utility
